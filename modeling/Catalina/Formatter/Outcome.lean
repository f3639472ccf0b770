import Catalina.Formatter.Decode
import Catalina.Storage.Values

/-!
# The outcome of a read and the caller's value

`catalina_binary_formatter_read_value` initializes the caller's value on its own schedule, not with
its answer.

* `ReadResult.Agrees`: `TRUE` comes with the decoded value of the type that the tag says, `FALSE`
  with an unset value and an error.
* `Settled`: the bytes on which this is so; a `FALSE` never is.
* `readValue_agrees_iff`, `deserialize_agrees_iff`, `getValue_agrees_iff`, and all three together:
  **`agrees_iff`**.
* `truncated_disagrees`: a scalar that is one byte short.
-/

namespace Catalina

/-- The type that the bytes at `a` say. -/
def typeAt (P : Process) (m : Memory) (a : ℕ) : Option GType :=
  match Tag.ofId (m a) with
  | none => none
  | some .boolean => some (.integer .boolean)
  | some .int64 => some (.integer .int64)
  | some .uint64 => some (.integer .uint64)
  | some .long => some (.integer .long)
  | some .ulong => some (.integer .ulong)
  | some .int | some .short | some .ushort => some (.integer .int)
  | some .uint => some (.integer .uint)
  | some .char => some (.integer .char)
  | some .uchar => some (.integer .uchar)
  | some .double => some .double
  | some .float => some .float
  | some .string => some .string
  | some .object => (classAt P m a).map .object

/-- The answer agrees with the caller's value and error, which were not set before. -/
def ReadResult.Agrees (P : Process) (m : Memory) (a l : ℕ) (r : ReadResult) : Prop :=
  match r.success with
  | true => ∃ v, r.value = some v ∧ typeAt P m a = some v.type ∧
      Decodes P m (.value a l (some v))
  | false => r.value = none ∧ r.error ≠ none

variable (P : Process) (m : Memory)

/-- The bytes on which the answer agrees: those that are accepted, except for a string that is not
empty and does not end in its only NUL, and for an object of an interface. An empty text of a number,
an abstract class and a property that is not accepted end the process, which is no answer. -/
inductive Settled (a l : ℕ) : Prop
  | word {t : Tag} {k : ℕ} {f : ℕ → Plain} (ht : m a = t.id) (hw : t.word = some (k, f))
      (hl : l = 1 + k)
  | string (ht : m a = Tag.string.id) (hf : Fits m a l)
      (hs : be32 m (a + 1) = 0 ∨ OneNul (textAt m a))
  | text {t : Tag} {F : TextForm} (ht : m a = t.id) (hF : t.text P = some F) (hf : Fits m a l)
      (he : be32 m (a + 1) = 0 ∨ F.errno (cstring P.beyond (textAt m a)) = false)
  | object (ht : m a = Tag.object.id) (hc : classAt P m a ≠ none)
      (hi : newAt P m a = some none → ∀ e, ¬ Decodes P m (.props (propsAt m a) e none none))

variable {P m} {a l : ℕ}

theorem typeAt_word {t : Tag} {k : ℕ} {f : ℕ → Plain} (ht : m a = t.id)
    (hw : t.word = some (k, f)) (x : ℕ) : typeAt P m a = some (f x).type := by
  unfold typeAt
  rw [ht, Tag.ofId_id]
  cases t <;> cases hw <;> rfl

theorem typeAt_text {t : Tag} {F : TextForm} (ht : m a = t.id) (hF : t.text P = some F)
    (s : CString) : typeAt P m a = some (F.value s).type := by
  unfold typeAt
  rw [ht, Tag.ofId_id]
  cases t <;> cases hF <;> rfl

theorem classAt_of_newAt {o : GObject} (h : newAt P m a = some (some o)) :
    classAt P m a = some o.cls := by
  obtain ⟨c, hc, ho⟩ := Option.bind_eq_some_iff.mp h
  rcases P.types.objectNew_eq_some_iff.mp ho with ⟨_, ho⟩ | ⟨_, ho⟩ <;> cases ho
  exact hc

theorem stringValue_ne_none : stringValue m a ≠ none ↔
    be32 m (a + 1) = 0 ∨ OneNul (textAt m a) := by
  unfold stringValue
  split_ifs with h₀ h₁ <;> simp [*]

theorem type_stringValue {v : GValue GObject} (hv : stringValue m a = some v) :
    v.type = .string := by
  unfold stringValue at hv
  split_ifs at hv <;> cases hv <;> rfl

theorem agrees_of_settled (h : Settled P m a l) {n lim : ℕ} {r : ReadResult}
    (hr : ((readValue P n lim a l).run m).result = .ok r) : r.Agrees P m a l := by
  -- what is accepted is decoded; that its value is set and of the right type is seen by the tag
  have hd : r.success = true → Decodes P m (.value a l r.value) := fun hs =>
    (decodes_of_value decodes_of_readProps hr hs).1
  unfold ReadResult.Agrees
  cases h with
  | word ht hw hl =>
    rw [readValue_word ht hw] at hr
    cases hr
    simp only [hl, decide_true, forall_const] at hd ⊢
    exact ⟨_, rfl, typeAt_word ht hw _, hd⟩
  | string ht hf hs =>
    rw [readValue_string ht, if_pos hf] at hr
    cases hr
    obtain ⟨v, hv⟩ := Option.ne_none_iff_exists'.mp (stringValue_ne_none.mpr hs)
    refine ⟨v, hv, ?_, hv ▸ hd rfl⟩
    rw [type_stringValue hv, typeAt, ht, Tag.ofId_id]
  | text ht hF hf he =>
    rw [readValue_text ht hF, TextForm.outcome, if_pos hf] at hr
    split_ifs at hr with h₀
    dsimp only at hr
    cases hr
    have he := he.resolve_left h₀
    simp only [he, Bool.not_false, forall_const] at hd ⊢
    exact ⟨_, rfl, typeAt_text ht hF _, hd⟩
  | object ht hc hi =>
    rcases readValue_object_ok ht hr with ⟨hn, _⟩ | ⟨o, o', hn, ho, rfl⟩
    · exact absurd hn hc
    · obtain ⟨e, he⟩ := decodes_of_readProps ho
      have hcls := cls_of_decodes he
      cases o with
      | none =>
        obtain rfl : o' = none := Option.map_eq_none_iff.mp hcls
        exact absurd he (hi hn e)
      | some o =>
        obtain ⟨o'', rfl, hsame⟩ := Option.map_eq_some_iff.mp hcls
        refine ⟨_, rfl, ?_, hd rfl⟩
        rw [typeAt, ht, Tag.ofId_id]
        change (classAt P m a).map GType.object = some (.object o''.cls)
        rw [hsame, classAt_of_newAt hn]
        rfl

theorem readValue_agrees_iff (lim : ℕ) :
    (∀ n r, ((readValue P n lim a l).run m).result = .ok r → r.Agrees P m a l) ↔
      Settled P m a l := by
  refine ⟨fun h => ?_, fun h n r hr => agrees_of_settled h hr⟩
  rcases tag_cases P m a with ht | ⟨t, k, f, ht, hw⟩ | ⟨t, F, ht, hF⟩ | ht | ht
  · have h₁ := h 0 ⟨false, none, none⟩ (readValue_unknown ht 0)
    exact absurd rfl h₁.2
  · have h₁ := h 0 _ (readValue_word ht hw 0)
    by_cases hl : l = 1 + k
    · exact .word ht hw hl
    · simp [ReadResult.Agrees, hl] at h₁
  · have h₁ : ∀ r, F.outcome P m a l = .ok r → r.Agrees P m a l := fun r hr =>
      h 0 r ((readValue_text ht hF 0).trans hr)
    unfold TextForm.outcome at h₁
    by_cases hf : Fits m a l
    · refine .text ht hF hf (Classical.or_iff_not_imp_left.mpr fun h₀ => ?_)
      rw [if_pos hf, if_neg h₀] at h₁
      have h₂ := h₁ _ rfl
      by_contra he
      rw [Bool.not_eq_false] at he
      simp [ReadResult.Agrees, he] at h₂
    · rw [if_neg hf] at h₁
      have h₂ := h₁ _ rfl
      simp [ReadResult.Agrees] at h₂
  · have h₁ := h 0 _ (readValue_string ht 0)
    by_cases hf : Fits m a l
    · refine .string ht hf (stringValue_ne_none.mp fun hn => ?_)
      simp [ReadResult.Agrees, hf, hn] at h₁
    · simp [ReadResult.Agrees, hf] at h₁
  · refine .object ht (fun hc => ?_) fun hn e he => ?_
    · exact absurd rfl (h 0 ⟨false, none, none⟩ (readValue_untyped ht hc 0)).2
    · -- `NULL` is answered with `TRUE`, and the value is not set
      obtain ⟨N, hN⟩ := read_of_decodes (.object ht hn he)
      obtain ⟨v, hv, _⟩ := h N _ (hN N (Nat.le_refl N) lim)
      cases hv

/-! ## The calls on top of it -/

/-- The inputs on which `catalina_formatter_deserialize` agrees: another version is refused with an
error. -/
def DeserializeSettled (P : Process) (m : Memory) (bufferLength : ℕ) : Prop :=
  m 0 = 1 → Settled P m 2 (guintSub bufferLength 2)

theorem realDeserialize_result (n bufferLength : ℕ) :
    ((realDeserialize P n bufferLength).run m).result =
      if m 0 = 1 then ((readValue P n bufferLength 2 (guintSub bufferLength 2)).run m).result
      else .ok ⟨false, none, some (versionError (m 0))⟩ := by
  unfold realDeserialize
  rw [Probe.run_peekByte_bind]
  by_cases h : m 0 = 1
  · rw [if_neg (by simpa using h), if_pos h, Probe.run_check_bind]
  · rw [if_pos h, if_neg h]
    rfl

theorem deserialize_agrees_iff {bufferLength : ℕ} :
    (∀ n r, ((realDeserialize P n bufferLength).run m).result = .ok r →
      r.Agrees P m 2 (guintSub bufferLength 2)) ↔ DeserializeSettled P m bufferLength := by
  unfold DeserializeSettled
  by_cases h₀ : m 0 = 1
  · simp only [realDeserialize_result, h₀, if_true, forall_const]
    exact readValue_agrees_iff bufferLength
  · simp only [realDeserialize_result, h₀, if_false, false_implies, iff_true]
    rintro _ _ ⟨⟩
    exact ⟨rfl, Option.some_ne_none _⟩

section Storage

variable {ω : Type} {w : World P.types ω} {entry : List ℕ → ℕ} {h : Host} {env : Env}
  {s : Storage h} {heap : Heap} {id : ℕ} {key : Bytes} {keyLength : ℤ}

/-- The answer of `catalina_storage_get_value` agrees: `TRUE` comes with the value decoded from the
buffer that the storage holds, `FALSE` with an unset value and an error. -/
def GetValueAgrees (P : Process) (heap : Heap) (env : Env) (s : Storage h) (id : ℕ) (key : Bytes)
    (keyLength : ℤ) (r : ReadResult) : Prop :=
  match r.success with
  | true => ∃ buffer, (catalinaStorageGet env s id key keyLength).2 = .succeeded buffer ∧
      r.Agrees P (heap.block buffer) 2 (guintSub buffer.length 2)
  | false => r.value = none ∧ r.error ≠ none

/-- The key is not refused, and deserializing agrees on what the storage holds under it. -/
def GetValueSettled (P : Process) (heap : Heap) (env : Env) (s : Storage h) (id : ℕ) (key : Bytes)
    (keyLength : ℤ) : Prop :=
  (keyLength = -1 ∨ 0 < keyLength) ∧
    ∀ buffer, (catalinaStorageGet env s id key keyLength).2 = .succeeded buffer →
      DeserializeSettled P (heap.block buffer) buffer.length

theorem getValue_agrees_iff :
    (∀ fuel r, (catalinaStorageGetValue (some (binaryFormatter P w entry fuel)) env s heap id key
        keyLength).2 = .ok r → GetValueAgrees P heap env s id key keyLength r) ↔
      GetValueSettled P heap env s id key keyLength := by
  unfold catalinaStorageGetValue GetValueSettled
  by_cases hk : keyLength = -1 ∨ 0 < keyLength
  · simp only [hk, if_true, true_and]
    cases hg : (catalinaStorageGet env s id key keyLength).2 with
    | refused => exact absurd hg (get_ne_refused hk)
    | failed e =>
      refine iff_of_true ?_ nofun
      rintro fuel r ⟨⟩
      exact ⟨rfl, error_of_get_failed hg⟩
    | waiting => exact iff_of_true nofun nofun
    | succeeded buffer =>
      simp only [CallResult.succeeded.injEq, forall_eq']
      rw [← deserialize_agrees_iff]
      refine forall_congr' fun fuel => forall_congr' fun r => imp_congr_right fun _ => ?_
      unfold GetValueAgrees
      cases hr : r.success with
      | true => simp [hg]
      | false => simp [ReadResult.Agrees, hr]
  · simp only [hk, if_false, false_and, iff_false]
    intro h₁
    exact (h₁ 0 _ rfl).2 rfl

end Storage

/-- **The outcome agrees exactly on settled bytes**, for the three calls. -/
theorem agrees_iff (P : Process) (m : Memory) (lim a l bufferLength : ℕ) {ω : Type}
    (w : World P.types ω) (entry : List ℕ → ℕ) {h : Host} (env : Env) (s : Storage h)
    (heap : Heap) (id : ℕ) (key : Bytes) (keyLength : ℤ) :
    ((∀ n r, ((readValue P n lim a l).run m).result = .ok r → r.Agrees P m a l) ↔
      Settled P m a l) ∧
    ((∀ n r, ((realDeserialize P n bufferLength).run m).result = .ok r →
      r.Agrees P m 2 (guintSub bufferLength 2)) ↔ DeserializeSettled P m bufferLength) ∧
    ((∀ fuel r, (catalinaStorageGetValue (some (binaryFormatter P w entry fuel)) env s heap id key
        keyLength).2 = .ok r → GetValueAgrees P heap env s id key keyLength r) ↔
      GetValueSettled P heap env s id key keyLength) :=
  ⟨readValue_agrees_iff lim, deserialize_agrees_iff, getValue_agrees_iff⟩

/-- Only interfaces are registered, the one with the name `A` among them. -/
def interfaceProcess : Process :=
  { sampleProcess with types := { sampleTypes with kind := fun _ => .interface } }

example : ((readValue interfaceProcess 1 5 0 5).run (memoryOf [15, 2, 65, 0, 0])).result =
    .ok ⟨true, none, none⟩ := rfl

/-- The int of a two-byte encoding: `FALSE`, with a value that is set and no error. -/
theorem truncated_disagrees :
    ¬ ∀ n r, ((readValue sampleProcess n 2 0 2).run (memoryOf [4, 7])).result = .ok r →
      r.Agrees sampleProcess (memoryOf [4, 7]) 0 2 := by
  intro h
  have h₁ := h 0 ⟨false, some (.plain (.integer .int 0)), none⟩ rfl
  exact absurd h₁.1 (Option.some_ne_none _)

end Catalina
