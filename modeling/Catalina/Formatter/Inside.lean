import Catalina.Formatter.Abort
import Catalina.Formatter.Format

/-!
# Decoding inside the input

The reader takes the lengths in the data as they are, and goes on until it finds a sentinel.

* `Region`: a value or the properties of an object with the end of the region they should come from.
* `Contained`: all lengths, names, strings and sentinels that the reader meets lie in their regions.
* `inside_of_contained`, `contained_of_inside`: the two directions, by the derivation and by the size
  of the region.
* `local_realDeserialize`: what the reader does inside the first `n` bytes depends on them only.
* **`inside_iff`**: when `catalina_formatter_deserialize` stays inside its input;
  `deserialize_congr`: what lies behind it does not matter then; `empty_input_outside`: inputs on which
  it does not.
-/

namespace Catalina

/-- A value of `l` bytes at `a`, or properties from `c` on, that should come from the bytes below `lim`;
the properties are those of an object or of `NULL`. -/
inductive Region
  | value (lim a l : ℕ)
  | props (lim c : ℕ) (isObject : Bool)

variable (P : Process) (m : Memory)

/-- **What the reader meets lies in its region.** Scalars, length fields, texts and names end in it, and
so does the sentinel; strings have a NUL, and numbers end, in the text that was copied; the value of a
property lies in the bytes declared for it, and the name of one that is set or complained about has a
NUL. Behind a property whose value is not accepted nothing is read. -/
inductive Contained : Region → Prop
  | unknown {lim a l : ℕ} (ht : Tag.ofId (m a) = none) (ha : a < lim) : Contained (.value lim a l)
  | word {lim a l k : ℕ} {t : Tag} {f : ℕ → Plain} (ht : m a = t.id) (hw : t.word = some (k, f))
      (ha : a < lim) (hl : l = 1 + k → a + 1 + k ≤ lim) : Contained (.value lim a l)
  | string {lim a l : ℕ} (ht : m a = Tag.string.id) (hs : StringInside m lim a l)
      (hn : Fits m a l → be32 m (a + 1) = 0 ∨ 0 ∈ textAt m a) : Contained (.value lim a l)
  | text {lim a l : ℕ} {t : Tag} {F : TextForm} (ht : m a = t.id) (hF : t.text P = some F)
      (hs : StringInside m lim a l) (hn : Fits m a l → be32 m (a + 1) ≠ 0 ∧
        F.scanned (cstring P.beyond (textAt m a)) ≤ be32 m (a + 1)) : Contained (.value lim a l)
  | object {lim a l : ℕ} (ht : m a = Tag.object.id) (hh : HeaderInside m lim a)
      (hp : ∀ o, newAt P m a = some o → Contained (.props lim (propsAt m a) o.isSome)) :
      Contained (.value lim a l)
  | sentinel {lim c : ℕ} {b : Bool} (hc : m c = 0) (h : c < lim) : Contained (.props lim c b)
  | prop {lim c : ℕ} {b : Bool} (hc : m c ≠ 0) (hk : KeyInside m lim c)
      (hv : Contained (.value (min lim (nextAt m c)) (valueAt m c) (lengthAt m c)))
      (hname : Undecodable P m (valueAt m c) (lengthAt m c) ∨ b = true ∧
        (∃ v, Decodes P m (.value (valueAt m c) (lengthAt m c) (some v))) → 0 ∈ keyAt m c)
      (hp : DecodesPlace P m (.value (valueAt m c) (lengthAt m c)) →
        Contained (.props lim (nextAt m c) b)) : Contained (.props lim c b)

variable {P m} {lim a l : ℕ}

/-! ## The reader by the tag -/

theorem inside_word {t : Tag} {k : ℕ} {f : ℕ → Plain} (ht : m a = t.id)
    (hw : t.word = some (k, f)) (n : ℕ) : ((readValue P n lim a l).run m).inside = true ↔
      a < lim ∧ (l = 1 + k → a + 1 + k ≤ lim) := by
  have hk : k ≠ 0 := by
    rintro rfl
    cases t <;> cases hw
  rw [readValue, readValueWith_tag P _ ht, readTag_word P _ ht hw]
  simp only [Bool.and_eq_true, decide_eq_true_eq]
  constructor
  · rintro ⟨ha, h⟩
    exact ⟨ha, fun hl => (h hl).2.resolve_left hk⟩
  · rintro ⟨ha, h⟩
    exact ⟨ha, fun hl => ⟨ha, Or.inr (h hl)⟩⟩

theorem inside_string (ht : m a = Tag.string.id) (n : ℕ) :
    ((readValue P n lim a l).run m).inside = true ↔
      StringInside m lim a l ∧ (Fits m a l → be32 m (a + 1) = 0 ∨ 0 ∈ textAt m a) := by
  rw [readValue, readValueWith_tag P _ ht, readTag_string P _ ht]
  simp only [Bool.and_eq_true, decide_eq_true_eq]
  exact ⟨And.right, fun h => ⟨h.1.1, h⟩⟩

theorem inside_text {t : Tag} {F : TextForm} (ht : m a = t.id) (hF : t.text P = some F) (n : ℕ) :
    ((readValue P n lim a l).run m).inside = true ↔ StringInside m lim a l ∧
      (Fits m a l → be32 m (a + 1) ≠ 0 ∧
        F.scanned (cstring P.beyond (textAt m a)) ≤ be32 m (a + 1)) := by
  rw [readValue, readValueWith_tag P _ ht]
  simp only [Bool.and_eq_true, decide_eq_true_eq]
  rw [(readTag_text P _ ht hF).2.1]
  exact ⟨And.right, fun h => ⟨h.1.1, h⟩⟩

theorem inside_object (ht : m a = Tag.object.id) (n : ℕ) :
    ((readValue P n lim a l).run m).inside = true ↔ HeaderInside m lim a ∧
      ∀ o, newAt P m a = some o →
        ((readProps P n lim (propsAt m a) o).run m).inside = true := by
  obtain ⟨_, hi, hk⟩ := readObjectWith_run (l := l) P (readProps P n) ht
    fun c o => keeps_readProps P n lim c o
  rw [readValue, readValueWith_tag P _ ht]
  simp only [Bool.and_eq_true, decide_eq_true_eq]
  change _ ∧ (Probe.run (readObjectWith P (readProps P n) lim a l >>= fun r =>
    pure (setObject r)) m).inside = true ↔ _
  rw [hk.inside_bind, hi]
  constructor
  · rintro ⟨_, h, _⟩
    exact h
  · rintro ⟨hh, hp⟩
    have := hh.1
    exact ⟨by omega, ⟨hh, hp⟩, fun r _ => rfl⟩

/-! ## A value that is not accepted -/

theorem undecodable_of_refused {n : ℕ} {r : ReadResult}
    (hr : ((readValue P n lim a l).run m).result = .ok r) (hs : r.success = false) :
    Undecodable P m a l := by
  rcases tag_cases P m a with ht | ⟨t, k, f, ht, hw⟩ | ⟨t, F, ht, hF⟩ | ht | ht
  · exact .tag ht
  · rw [readValue_word ht hw] at hr
    cases hr
    exact .size ht hw (of_decide_eq_false hs)
  · rw [readValue_text ht hF, TextForm.outcome] at hr
    refine .text ht hF fun hf => ?_
    rw [if_pos hf] at hr
    split_ifs at hr
    cases hr
    exact Or.inr (by simpa using hs)
  · rw [readValue_string ht] at hr
    refine .string ht fun hf => ?_
    rw [if_pos hf] at hr
    cases hr
    cases hs
  · rcases readValue_object_ok ht hr with ⟨hc, _⟩ | ⟨_, _, _, _, rfl⟩
    · exact .object ht hc
    · cases hs

theorem refused_of_undecodable (hu : Undecodable P m a l) {n : ℕ}
    (hi : ((readValue P n lim a l).run m).inside = true) :
    ∃ r, ((readValue P n lim a l).run m).result = .ok r ∧ r.success = false := by
  cases hu with
  | tag ht =>
    exact ⟨_, readValue_unknown ht n, rfl⟩
  | size ht hw hl =>
    exact ⟨_, readValue_word ht hw n, decide_eq_false hl⟩
  | string ht hf =>
    rw [readValue_string ht, if_neg hf]
    exact ⟨_, rfl, rfl⟩
  | text ht hF h =>
    have hin := ((inside_text ht hF n).mp hi).2
    rw [readValue_text ht hF, TextForm.outcome]
    by_cases hf : Fits m a l
    · have h₀ := (hin hf).1
      rw [if_pos hf, if_neg h₀]
      exact ⟨_, rfl, by simp [(h hf).resolve_left h₀]⟩
    · rw [if_neg hf]
      exact ⟨_, rfl, rfl⟩
  | object ht hc => exact ⟨_, readValue_untyped ht hc n, rfl⟩

/-! ## The two directions -/

/-- **What is contained is read inside**, whatever the fuel. -/
theorem inside_of_contained {r : Region} (h : Contained P m r) :
    match r with
    | .value lim a l => ∀ n, ((readValue P n lim a l).run m).inside = true
    | .props lim c b => ∀ n o, o.isSome = b → ((readProps P n lim c o).run m).inside = true := by
  induction h with
  | unknown ht ha =>
    intro n
    rw [readValue, readValueWith_unknown P _ ht]
    exact decide_eq_true ha
  | word ht hw ha hl => exact fun n => (inside_word ht hw n).mpr ⟨ha, hl⟩
  | string ht hs hn => exact fun n => (inside_string ht n).mpr ⟨hs, hn⟩
  | text ht hF hs hn => exact fun n => (inside_text ht hF n).mpr ⟨hs, hn⟩
  | object ht hh _ ih => exact fun n => (inside_object ht n).mpr ⟨hh, fun o ho => ih o ho n o rfl⟩
  | sentinel hc h =>
    intro n o _
    cases n with
    | zero => rfl
    | succ n =>
      rw [readProps_sentinel P hc]
      exact decide_eq_true h
  | prop hc hk _ hname _ ihv ihp =>
    intro n o ho
    cases n with
    | zero => rfl
    | succ n =>
      refine (readProps_prop P hc n o).2.mpr ⟨hk, ihv n, fun r hr => ⟨fun h => ?_, fun hs => ?_⟩⟩
      · refine hname ?_
        cases hs : r.success with
        | false => exact Or.inl (undecodable_of_refused hr hs)
        | true =>
          obtain ⟨hsome, hv⟩ := h.resolve_left (by simp [hs])
          obtain ⟨v, hv⟩ := Option.ne_none_iff_exists'.mp hv
          exact Or.inr ⟨ho ▸ Option.isSome_iff_ne_none.mpr hsome, v,
            hv ▸ (decodes_of_value decodes_of_readProps hr hs).1⟩
      · exact ihp ⟨_, (decodes_of_value decodes_of_readProps hr hs).1⟩ n _
          ((isSome_setAt _ o r.value).trans ho)

/-- With enough fuel the reader stays inside. -/
def StaysInside (P : Process) (m : Memory) : Region → Prop
  | .value lim a l => ∃ N, ∀ n, N ≤ n → ((readValue P n lim a l).run m).inside = true
  | .props lim c b => ∃ o, o.isSome = b ∧ ∃ N, ∀ n, N ≤ n →
      ((readProps P n lim c o).run m).inside = true

/-- The size of what is left of the region. -/
def Region.left : Region → ℕ
  | .value lim a _ => lim - a
  | .props lim c _ => lim - c

/-- **What is read inside is contained**: with every property less is left of the region. -/
theorem contained_of_inside (r : Region) (h : StaysInside P m r) : Contained P m r := by
  induction hk : r.left using Nat.strong_induction_on generalizing r with
  | _ k ih =>
    subst hk
    cases r with
    | value lim a l =>
      obtain ⟨N, hN⟩ := h
      have h₁ := hN N (Nat.le_refl N)
      rcases tag_cases P m a with ht | ⟨t, k, f, ht, hw⟩ | ⟨t, F, ht, hF⟩ | ht | ht
      · rw [readValue, readValueWith_unknown P _ ht] at h₁
        exact .unknown ht (of_decide_eq_true h₁)
      · obtain ⟨ha, hl⟩ := (inside_word ht hw N).mp h₁
        exact .word ht hw ha hl
      · obtain ⟨hs, hn⟩ := (inside_text ht hF N).mp h₁
        exact .text ht hF hs hn
      · obtain ⟨hs, hn⟩ := (inside_string ht N).mp h₁
        exact .string ht hs hn
      · have hh := ((inside_object ht N).mp h₁).1
        refine .object ht hh fun o ho => ?_
        refine ih _ ?_ (.props lim (propsAt m a) o.isSome)
          ⟨o, rfl, N, fun n hn => ((inside_object ht n).mp (hN n hn)).2 o ho⟩ rfl
        have := hh.1
        simp only [Region.left, propsAt]
        omega
    | props lim c b =>
      obtain ⟨o, ho, N, hN⟩ := h
      by_cases hc : m c = 0
      · have h₁ := hN (N + 1) (Nat.le_succ N)
        rw [readProps_sentinel P hc] at h₁
        exact .sentinel hc (of_decide_eq_true h₁)
      · have hround := fun n (hn : N ≤ n) => (readProps_prop P hc n o).2.mp (hN (n + 1) (by omega))
        have hk := (hround N (Nat.le_refl N)).1
        have hlt := hk.1
        refine .prop hc hk (ih _ ?_ _ ⟨N, fun n hn => (hround n hn).2.1⟩ rfl) ?_ ?_
        · simp only [Region.left, valueAt]
          omega
        · rintro (hu | ⟨hb, v, hd⟩)
          · obtain ⟨_, hin, hr⟩ := hround N (Nat.le_refl N)
            obtain ⟨r, h, hs⟩ := refused_of_undecodable hu hin
            exact (hr r h).1 (Or.inl hs)
          · obtain ⟨N', hN'⟩ := read_of_decodes hd
            obtain ⟨_, _, hr⟩ := hround (max N N') (by omega)
            have hsome : o ≠ none := Option.isSome_iff_ne_none.mp (ho.trans hb)
            exact (hr _ (hN' _ (by omega) _)).1 (Or.inr ⟨hsome, Option.some_ne_none v⟩)
        · rintro ⟨v, hd⟩
          obtain ⟨N', hN'⟩ := read_of_decodes hd
          refine ih _ ?_ (.props lim (nextAt m c) b)
            ⟨setAt P m c o v, (isSome_setAt c o v).trans ho, max N N', fun n hn =>
              ((hround n (by omega)).2.2 _ (hN' n (by omega) _)).2 rfl⟩ rfl
          simp only [Region.left, nextAt, valueAt]
          omega

/-! ## What lies behind the input -/

section Local

open Probe

variable {n : ℕ}

theorem local_readWord (hlim : lim ≤ n) (o : ByteOrder) (t : Tag) (size copied a l : ℕ) :
    Local n (readWord o t size copied lim a l) := by
  unfold readWord
  by_cases hl : l ≠ 1 + copied
  · rw [if_pos hl]
    exact local_pure _
  · rw [if_neg hl]
    refine (local_peekByte hlim a).bind fun b => ?_
    split_ifs
    · exact local_pure _
    · exact (local_peek hlim _ _).bind fun _ => (local_stop _).bind fun _ => local_pure _
    · exact (local_peek hlim _ _).bind fun _ => local_pure _

theorem local_readString (hlim : lim ≤ n) (o : ByteOrder) (a l : ℕ) :
    Local n (readString o lim a l) := by
  refine (local_peekByte hlim a).bind fun b => ?_
  split_ifs
  · exact local_pure _
  · refine (local_peek hlim _ _).bind fun bytes => (local_check _).bind fun _ => ?_
    split_ifs
    · exact local_pure _
    · exact (local_peek hlim _ _).bind fun _ => local_pure _

theorem local_readText {k : ℕ} (hlim : lim ≤ n) (t : Tag) (strto : CString → Strto k)
    (error : Option GError) (a l : ℕ) : Local n (readText P t strto error lim a l) := by
  refine (local_poke a _).bind fun _ => (local_readString hlim _ a l).bind fun s => ?_
  refine Local.bind ?_ fun r => (local_poke a _).bind fun _ => local_pure _
  unfold convertText
  split_ifs
  · exact local_pure _
  · cases s.value with
    | none => exact (local_check _).bind fun _ => local_stop _
    | some text => exact (local_check _).bind fun _ => local_pure _

theorem local_readTag {ro : ℕ → ℕ → ℕ → Probe Stop ObjectRead} (hlim : lim ≤ n)
    (h : ∀ a l, Local n (ro lim a l)) (a l : ℕ) (t : Tag) : Local n (readTag P ro lim a l t) := by
  have hword : ∀ (t : Tag) (k : ℕ), Local n (readWord P.order t k k lim a l) := fun t k =>
    local_readWord hlim P.order t k k a l
  cases t with
  | long | ulong => exact (hword _ _).bind fun _ => local_pure _
  | double | float => exact (local_readText hlim _ _ _ a l).bind fun _ => local_pure _
  | object => exact (h a l).bind fun _ => local_pure _
  | string =>
    refine (local_readString hlim _ a l).bind fun s => ?_
    cases s.value with
    | none => exact local_pure _
    | some text =>
      refine (local_check _).bind fun _ => ?_
      split_ifs <;> exact local_pure _
  | _ => exact ((hword _ _).bind fun _ => local_pure _).bind fun _ => local_pure _

theorem local_readValueWith {ro : ℕ → ℕ → ℕ → Probe Stop ObjectRead} (hlim : lim ≤ n)
    (h : ∀ a l, Local n (ro lim a l)) (a l : ℕ) : Local n (readValueWith P ro lim a l) := by
  refine (local_peekByte hlim a).bind fun b => ?_
  cases Tag.ofId b with
  | none => exact local_pure _
  | some t => exact local_readTag hlim h a l t

theorem local_readObjectWith {rp : ℕ → ℕ → Option GObject → Probe Stop (Option GObject)}
    (hlim : lim ≤ n) (h : ∀ c o, Local n (rp lim c o)) (a l : ℕ) :
    Local n (readObjectWith P rp lim a l) := by
  refine (local_peekByte hlim a).bind fun b => ?_
  split_ifs
  · exact local_pure _
  · refine (local_peekByte hlim _).bind fun k => (local_peek hlim _ _).bind fun name =>
      Local.bind ?_ fun c => ?_
    · unfold lookupType
      cases allocated name with
      | none => exact local_pure _
      | some name => exact (local_check _).bind fun _ => local_pure _
    · cases c with
      | none => exact local_pure _
      | some c =>
        dsimp only
        cases P.types.objectNew c with
        | none => exact local_stop _
        | some o => exact (h _ o).bind fun _ => local_pure _

theorem local_readProps (k : ℕ) {lim : ℕ} (hlim : lim ≤ n) (c : ℕ) (o : Option GObject) :
    Local n (readProps P k lim c o) := by
  induction k generalizing lim c o with
  | zero => exact local_stop _
  | succ k ih =>
    rw [readProps]
    refine (local_peekByte hlim c).bind fun b => ?_
    split_ifs with hb
    · exact local_pure _
    refine (local_peek hlim _ _).bind fun name => (local_peek hlim _ _).bind fun bytes =>
      (local_readValueWith ((min_le_left _ _).trans hlim) (local_readObjectWith
        ((min_le_left _ _).trans hlim) (ih ((min_le_left _ _).trans hlim))) _ _).bind fun r => ?_
    split_ifs with hr
    · split
      · exact (local_check _).bind fun _ => ih hlim _ _
      · exact ih hlim _ _
    · exact (local_check _).bind fun _ => local_stop _

/-- **The reader that stays inside the first `n` bytes** depends on them only. -/
theorem local_realDeserialize (P : Process) (fuel n : ℕ) : Local n (realDeserialize P fuel n) := by
  refine (local_peekByte (Nat.le_refl n) 0).bind fun b => ?_
  split_ifs
  · exact local_pure _
  · exact (local_check _).bind fun _ => local_readValueWith (Nat.le_refl n)
      (local_readObjectWith (Nat.le_refl n) (local_readProps fuel (Nat.le_refl n))) _ _

end Local

/-! ## Inputs -/

/-- There is a first byte; and if it is the version, there are the flags, the length of what follows
is a `guint`, and the value is contained in the input. -/
def ContainedInput (P : Process) (m : Memory) (bufferLength : ℕ) : Prop :=
  0 < bufferLength ∧ (m 0 = 1 → 2 ≤ bufferLength ∧ bufferLength - 2 < 2 ^ 32 ∧
    Contained P m (.value bufferLength 2 (bufferLength - 2)))

variable {bufferLength : ℕ}

theorem inside_realDeserialize (n : ℕ) :
    ((realDeserialize P n bufferLength).run m).inside = true ↔
      0 < bufferLength ∧ (m 0 = 1 → 2 ≤ bufferLength ∧ bufferLength - 2 < 2 ^ 32 ∧
        ((readValue P n bufferLength 2 (bufferLength - 2)).run m).inside = true) := by
  have hsub : 2 ≤ bufferLength ∧ bufferLength - 2 < 2 ^ 32 →
      guintSub bufferLength 2 = bufferLength - 2 := by
    intro h
    unfold guintSub guint
    omega
  unfold realDeserialize
  rw [Probe.run_peekByte_bind]
  by_cases h : m 0 = 1
  · rw [if_neg (by simpa using h), Probe.run_check_bind]
    simp only [Bool.and_eq_true, decide_eq_true_eq, h, forall_const, ← and_assoc]
    constructor
    · rintro ⟨h₁, h₂⟩
      exact ⟨h₁, hsub ⟨h₁.1.2, h₁.2⟩ ▸ h₂⟩
    · rintro ⟨h₁, h₂⟩
      exact ⟨h₁, (hsub ⟨h₁.1.2, h₁.2⟩).symm ▸ h₂⟩
  · rw [if_pos h]
    simp [h]

theorem inside_of_containedInput (h : ContainedInput P m bufferLength) (n : ℕ) :
    ((realDeserialize P n bufferLength).run m).inside = true := by
  refine (inside_realDeserialize n).mpr ⟨h.1, fun h₀ => ?_⟩
  obtain ⟨h₂, hlt, hc⟩ := h.2 h₀
  exact ⟨h₂, hlt, inside_of_contained hc n⟩

/-- **What lies behind a contained input does not matter**: buffers with the same bytes are decoded to
the same result. -/
theorem deserialize_congr {m' : Memory} (h : ContainedInput P m bufferLength)
    (hm : Probe.AgreeBelow bufferLength m m') (n : ℕ) :
    ((realDeserialize P n bufferLength).run m').result =
      ((realDeserialize P n bufferLength).run m).result :=
  (local_realDeserialize P n bufferLength m m' hm (inside_of_containedInput h n)).2.1

/-- **`catalina_formatter_deserialize` stays inside its input exactly for these.** -/
theorem inside_iff (P : Process) (m : Memory) (bufferLength : ℕ) :
    (∀ fuel, ((realDeserialize P fuel bufferLength).run m).inside = true) ↔
      ContainedInput P m bufferLength := by
  constructor
  · intro h
    refine ⟨((inside_realDeserialize 0).mp (h 0)).1, fun h₀ => ?_⟩
    obtain ⟨h₂, hlt, _⟩ := ((inside_realDeserialize 0).mp (h 0)).2 h₀
    exact ⟨h₂, hlt, contained_of_inside _ ⟨0, fun n _ =>
      (((inside_realDeserialize n).mp (h n)).2 h₀).2.2⟩⟩
  · exact inside_of_containedInput

/-- **One run that answers** tells whether the input is contained. -/
theorem containedInput_of_run {n : ℕ} {r : ReadResult}
    (hr : ((realDeserialize P n bufferLength).run m).result = .ok r)
    (hi : ((realDeserialize P n bufferLength).run m).inside = true) :
    ContainedInput P m bufferLength := by
  obtain ⟨hpos, hin⟩ := (inside_realDeserialize n).mp hi
  refine ⟨hpos, fun h₀ => ?_⟩
  obtain ⟨h₂, hlt, hv⟩ := hin h₀
  have hsub : guintSub bufferLength 2 = bufferLength - 2 := by
    unfold guintSub guint
    omega
  rw [realDeserialize_result, if_pos h₀, hsub] at hr
  refine ⟨h₂, hlt, contained_of_inside _ ⟨n, fun k hk => ?_⟩⟩
  rw [(readValue_mono hk bufferLength 2 (bufferLength - 2)).eq (by rw [hr]; exact nofun)]
  exact hv

/-- An object of the class `A` without properties, and without a sentinel. -/
def withoutSentinel : Bytes := [1, 0, 15, 2, 65, 0]

/-- **The byte behind the input is read**: the version of an empty input, and the sentinel of this
object. -/
theorem empty_input_outside :
    (¬ ∀ fuel, ((realDeserialize sampleProcess fuel 0).run (memoryOf [])).inside = true) ∧
      ¬ ∀ fuel, ((realDeserialize sampleProcess fuel withoutSentinel.length).run
        (memoryOf withoutSentinel)).inside = true :=
  ⟨fun h => absurd (h 0) (by decide), fun h => absurd (h 1) (by decide)⟩

end Catalina
