import Catalina.Formatter.Steps

/-!
# What reading leaves in the buffer

The readers of doubles and floats write to the buffer: they put the tag of a string in its first byte,
read it as a string, and put their own tag there in the end, whichever tag stood there before.

* `Reader`, `Reader.call`: the public readers of values, objects, strings, doubles and floats.
* `keeps_call`: the first three leave the memory as it was; `call_text`: the other two leave it with
  their tag.
* `Unaltered`: after a call the buffer is as it was, and is read as before.
* **`unaltered_iff`**: so it is exactly where a double or a float is read under its own tag.
* `double_read_as_float`: a double that is a float after it was read as one.
-/

namespace Catalina

open Probe

/-- The readers that look at the contents of a buffer with a length of its own. -/
inductive Reader
  | value
  | object
  | string
  | double
  | float
deriving DecidableEq, Repr

/-- What a call answers, with the caller's variables. -/
def Reader.Answer : Reader → Type
  | .value => ReadResult
  | .object => ObjectRead
  | .string => StringRead
  | .double => FloatRead 64
  | .float => FloatRead 32

/-- A call; only values and objects need fuel. -/
def Reader.call (P : Process) (n lim buffer length : ℕ) : (r : Reader) → Probe Stop r.Answer
  | .value => readValue P n lim buffer length
  | .object => readObject P n lim buffer length
  | .string => readString P.order lim buffer length
  | .double => readDouble P lim buffer length
  | .float => readFloat P lim buffer length

/-- The tag that the reader puts in the first byte. -/
def Reader.tag : Reader → Option Tag
  | .double => some .double
  | .float => some .float
  | .value | .object | .string => none

variable (P : Process) {m : Memory} {lim a l : ℕ} {r : Reader}

/-! ## The readers that do not write -/

theorem keeps_readString (o : ByteOrder) : Keeps (readString o lim a l) m := by
  refine (keeps_peekByte _ _).bind fun b => ?_
  by_cases hb : b ≠ Tag.string.id
  · rw [if_pos hb]
    exact keeps_pure _
  rw [if_neg hb]
  refine (keeps_peek _ _ _).bind fun bytes => (keeps_check _).bind fun _ => ?_
  by_cases hl : guint (toBE o 4 (ofImage o bytes) + 5) ≠ l
  · rw [if_pos hl]
    exact keeps_pure _
  · rw [if_neg hl]
    exact (keeps_peek _ _ _).bind fun _ => keeps_pure _

/-- **The readers of values, objects and strings leave the memory as it was**, whatever stands in it. -/
theorem keeps_call (hr : r.tag = none) (n : ℕ) : Keeps (r.call P n lim a l) m := by
  cases r with
  | value => exact keeps_readValue P n lim a l
  | object => exact keeps_readObject P n lim a l
  | string => exact keeps_readString P.order
  | double | float => cases hr

/-! ## The readers that write -/

section Texts

variable {w : ℕ} {t : Tag} (strto : CString → Strto w) (error : Option GError)

/-- The first byte is overwritten before it is looked at. -/
theorem readText_update (b : UInt8) : (readText P t strto error lim a l).run (Function.update m a b) =
    (readText P t strto error lim a l).run m := by
  unfold readText
  rw [run_poke_bind, run_poke_bind, Function.update_idem]

/-- There is an answer but for an empty text, where `strtod` has no string to read. -/
theorem textOutcome_ok_iff : (∃ x, textOutcome P strto error m a l = .ok x) ↔
    ¬ (Fits m a l ∧ be32 m (a + 1) = 0) := by
  unfold textOutcome
  by_cases hf : Fits m a l <;> by_cases h₀ : be32 m (a + 1) = 0 <;> simp [hf, h₀]

theorem readText_leaves :
    (∀ x, ((readText P t strto error lim a l).run m).result = .ok x →
        ((readText P t strto error lim a l).run m).memory = Function.update m a t.id) ∧
      ((∃ x, ((readText P t strto error lim a l).run m).result = .ok x) ↔
        ¬ (Fits m a l ∧ be32 m (a + 1) = 0)) := by
  -- with its tag there already, the reader is one that keeps the memory
  obtain ⟨hr, _, hk⟩ : ((readText P t strto error lim a l).run (Function.update m a t.id)).result = _ ∧
      _ := readText_run P strto error (Function.update_self a t.id m)
  have ho : textOutcome P strto error (Function.update m a t.id) a l =
      textOutcome P strto error m a l := by
    unfold textOutcome
    simp only [fits_update, textAt_update]
  unfold Keeps at hk
  rw [readText_update] at hr hk
  refine ⟨hk, ?_⟩
  rw [hr, ho]
  exact textOutcome_ok_iff P strto error

end Texts

/-- **The readers of doubles and floats leave their tag in the first byte.** -/
theorem call_text (m : Memory) (lim a l n : ℕ) {t : Tag} (hr : r.tag = some t) :
    (∀ x, ((r.call P n lim a l).run m).result = .ok x →
        ((r.call P n lim a l).run m).memory = Function.update m a t.id) ∧
      ((∃ x, ((r.call P n lim a l).run m).result = .ok x) ↔
        ¬ (Fits m a l ∧ be32 m (a + 1) = 0)) := by
  cases r with
  | double => cases hr; exact readText_leaves P P.strtod (some precisionError)
  | float => cases hr; exact readText_leaves P P.strtof none
  | value | object | string => cases hr

/-! ## The buffer -/

/-- A call that answers leaves the bytes of the buffer as they were, and every call after it does what
it would have done without it. -/
structure Unaltered (P : Process) (m : Memory) (a l : ℕ) (r : Reader) : Prop where
  bytes : ∀ n x, ((r.call P n (a + l) a l).run m).result = .ok x →
    bytesAt ((r.call P n (a + l) a l).run m).memory a l = bytesAt m a l
  again : ∀ n x, ((r.call P n (a + l) a l).run m).result = .ok x → ∀ (r' : Reader) (n' : ℕ),
    (r'.call P n' (a + l) a l).run ((r.call P n (a + l) a l).run m).memory =
      (r'.call P n' (a + l) a l).run m

/-- The first byte is the tag of the reader, if it has one, or the text is empty, and there is no
answer. -/
def TagKept (m : Memory) (a l : ℕ) (r : Reader) : Prop :=
  ∀ t, r.tag = some t → m a = t.id ∨ Fits m a l ∧ be32 m (a + 1) = 0

variable {P}

theorem unaltered_of_keeps (hk : ∀ n, Keeps (r.call P n (a + l) a l) m) : Unaltered P m a l r where
  bytes n x hx := by rw [hk n x hx]
  again n x hx r' n' := by rw [hk n x hx]

theorem bytesAt_update_iff (hl : 0 < l) {b : UInt8} :
    bytesAt (Function.update m a b) a l = bytesAt m a l ↔ m a = b := by
  constructor
  · intro h
    obtain ⟨k, rfl⟩ := Nat.exists_eq_add_of_lt hl
    rw [Nat.zero_add, bytesAt, bytesAt, Function.update_self] at h
    exact (List.cons.inj h).1.symm
  · rintro rfl
    rw [Function.update_eq_self]

/-- **Reading leaves the buffer as it was exactly where the reader finds its own tag**, which only the
readers of doubles and floats have, or does not answer. -/
theorem unaltered_iff (hl : 0 < l) : Unaltered P m a l r ↔ TagKept m a l r := by
  constructor
  · intro h t ht
    obtain ⟨hmem, hok⟩ := call_text P m (a + l) a l 0 ht
    by_contra hn
    rw [not_or] at hn
    obtain ⟨x, hx⟩ := hok.mpr hn.2
    have hbytes := h.bytes 0 x hx
    rw [hmem x hx, bytesAt_update_iff hl] at hbytes
    exact hn.1 hbytes
  · intro h
    refine unaltered_of_keeps fun n => ?_
    cases ht : r.tag with
    | none => exact keeps_call P ht n
    | some t =>
      obtain ⟨hmem, hok⟩ := call_text P m (a + l) a l n ht
      intro x hx
      rw [hmem x hx]
      rcases h t ht with htag | hempty
      · rw [← htag, Function.update_eq_self]
      · exact absurd hempty (hok.mp ⟨x, hx⟩)

/-- The double zero. -/
def zeroDouble : Bytes := [7, 0, 0, 0, 2, 48, 0]

theorem unaltered_iff_zeroDouble : Unaltered sampleProcess (memoryOf zeroDouble) 0 7 .double ↔
    TagKept (memoryOf zeroDouble) 0 7 .double := unaltered_iff (by decide)

/-- **A double that is read as a float**, as one of the tests does: the reader answers `TRUE`, and the
double is a float for the next reader. -/
theorem double_read_as_float :
    ((readFloat sampleProcess 7 0 7).run (memoryOf zeroDouble)).inside = true ∧
      ((readFloat sampleProcess 7 0 7).run (memoryOf zeroDouble)).result =
        .ok ⟨true, some 0, none⟩ ∧
      ((readFloat sampleProcess 7 0 7).run (memoryOf zeroDouble)).memory 0 = Tag.float.id ∧
      ((readValue sampleProcess 0 7 0 7).run (memoryOf zeroDouble)).result =
        .ok ⟨true, some (.plain (.double 0)), none⟩ ∧
      ((readValue sampleProcess 0 7 0 7).run
        ((readFloat sampleProcess 7 0 7).run (memoryOf zeroDouble)).memory).result =
          .ok ⟨true, some (.plain (.float 0)), none⟩ ∧
      ¬ Unaltered sampleProcess (memoryOf zeroDouble) 0 7 .float := by
  refine ⟨rfl, rfl, rfl, rfl, rfl, fun h => ?_⟩
  have htag : Tag.float.id = Tag.double.id :=
    (List.cons.inj (h.bytes 0 ⟨true, some 0, none⟩ rfl)).1
  exact absurd htag (by decide)

end Catalina
