import Catalina.Formatter.Steps

/-!
# What the reader accepts

The values that the reader makes of the bytes in memory, as a relation without fuel.

* `Decodes`: a value, or the properties of an object up to their sentinel, is read with success.
* **`decodes_iff`**: `catalina_binary_formatter_read_value` answers `TRUE` exactly for these;
  `decodes_unique`: with one value.
* `decodes_word_iff`, `decodes_string_iff`, `decodes_text_iff`, `decodes_object_iff`: by the tag.
* `readValue_unknown`, `readValue_word`, `readValue_string`, `readValue_text`: what the reader answers,
  by the tag; `readValue_untyped`, `readValue_abstract`, `readValue_new`: for an object, by its type.
-/

namespace Catalina

open Probe

/-- A value of `l` bytes at `a` is read as `v`; or the properties from `c` to the sentinel at `e`
make `o'` of the object `o`, where nothing is made of `NULL`. -/
inductive Judgement
  | value (a l : ℕ) (v : Option (GValue GObject))
  | props (c e : ℕ) (o o' : Option GObject)

variable (P : Process) (m : Memory)

/-- What is read with success. -/
inductive Decodes : Judgement → Prop
  | word {a l k : ℕ} {t : Tag} {f : ℕ → Plain} (ht : m a = t.id) (hw : t.word = some (k, f))
      (hl : l = 1 + k) : Decodes (.value a l (some (.plain (f (ofBeBytes (bytesAt m (a + 1) k))))))
  | string {a l : ℕ} (ht : m a = Tag.string.id) (hf : Fits m a l) :
      Decodes (.value a l (stringValue m a))
  | text {a l : ℕ} {t : Tag} {F : TextForm} (ht : m a = t.id) (hF : t.text P = some F)
      (hf : Fits m a l) (h₀ : be32 m (a + 1) ≠ 0)
      (he : F.errno (cstring P.beyond (textAt m a)) = false) :
      Decodes (.value a l (some (.plain (F.value (cstring P.beyond (textAt m a))))))
  | object {a l e : ℕ} {o o' : Option GObject} (ht : m a = Tag.object.id)
      (hn : newAt P m a = some o) (ho : Decodes (.props (propsAt m a) e o o')) :
      Decodes (.value a l (objectValue o'))
  | sentinel {c : ℕ} {o : Option GObject} (hc : m c = 0) : Decodes (.props c c o o)
  | prop {c e : ℕ} {o o' : Option GObject} {v : Option (GValue GObject)} (hc : m c ≠ 0)
      (hv : Decodes (.value (valueAt m c) (lengthAt m c) v))
      (ho : Decodes (.props (nextAt m c) e (setAt P m c o v) o')) : Decodes (.props c e o o')

variable {P m}

theorem newAt_eq {a : ℕ} {c : Option ℕ} (h : classAt P m a = c) :
    newAt P m a = c.bind P.types.objectNew :=
  congrArg (·.bind P.types.objectNew) h

theorem cls_setAt (c : ℕ) (o : Option GObject) (v : Option (GValue GObject)) :
    (setAt P m c o v).map GObject.cls = o.map GObject.cls := by
  cases o with
  | none => rfl
  | some o =>
    cases v with
    | none => rfl
    | some v => exact congrArg some (P.types.cls_setProperty o _ v)

theorem isSome_setAt (c : ℕ) (o : Option GObject) (v : Option (GValue GObject)) :
    (setAt P m c o v).isSome = o.isSome := by
  simpa using congrArg Option.isSome (cls_setAt (P := P) (m := m) c o v)

theorem cls_of_decodes {c e : ℕ} {o o' : Option GObject} (h : Decodes P m (.props c e o o')) :
    o'.map GObject.cls = o.map GObject.cls := by
  generalize hj : Judgement.props c e o o' = j at h
  induction h generalizing c o with
  | word | string | text | object => cases hj
  | sentinel =>
    cases hj
    rfl
  | prop _ _ _ _ ih =>
    cases hj
    exact (ih rfl).trans (cls_setAt _ _ _)

/-! ## By the tag -/

section Inversion

variable {a l : ℕ} {v : Option (GValue GObject)}

theorem decodes_word_iff {t : Tag} {k : ℕ} {f : ℕ → Plain} (ht : m a = t.id)
    (hw : t.word = some (k, f)) : Decodes P m (.value a l v) ↔
      l = 1 + k ∧ v = some (.plain (f (ofBeBytes (bytesAt m (a + 1) k)))) := by
  constructor
  · intro h
    cases h with
    | word ht' hw' hl =>
      obtain rfl := Tag.id_injective (ht.symm.trans ht')
      cases hw.symm.trans hw'
      exact ⟨hl, rfl⟩
    | string ht' _ =>
      obtain rfl := Tag.id_injective (ht.symm.trans ht')
      cases hw
    | text ht' hF _ _ _ =>
      obtain rfl := Tag.id_injective (ht.symm.trans ht')
      cases hF.symm.trans (Tag.text_of_word P hw)
    | object ht' _ _ =>
      obtain rfl := Tag.id_injective (ht.symm.trans ht')
      cases hw
  · rintro ⟨hl, rfl⟩
    exact .word ht hw hl

theorem decodes_string_iff (ht : m a = Tag.string.id) :
    Decodes P m (.value a l v) ↔ Fits m a l ∧ v = stringValue m a := by
  constructor
  · intro h
    cases h with
    | word ht' hw _ =>
      obtain rfl := Tag.id_injective (ht.symm.trans ht')
      cases hw
    | string _ hf => exact ⟨hf, rfl⟩
    | text ht' hF _ _ _ =>
      obtain rfl := Tag.id_injective (ht.symm.trans ht')
      cases hF
    | object ht' _ _ => cases Tag.id_injective (ht.symm.trans ht')
  · rintro ⟨hf, rfl⟩
    exact .string ht hf

theorem decodes_text_iff {t : Tag} {F : TextForm} (ht : m a = t.id) (hF : t.text P = some F) :
    Decodes P m (.value a l v) ↔ (Fits m a l ∧ be32 m (a + 1) ≠ 0 ∧
        F.errno (cstring P.beyond (textAt m a)) = false) ∧
      v = some (.plain (F.value (cstring P.beyond (textAt m a)))) := by
  constructor
  · intro h
    cases h with
    | word ht' hw _ =>
      obtain rfl := Tag.id_injective (ht.symm.trans ht')
      cases hF.symm.trans (Tag.text_of_word P hw)
    | string ht' _ =>
      obtain rfl := Tag.id_injective (ht.symm.trans ht')
      cases hF
    | text ht' hF' hf h₀ he =>
      obtain rfl := Tag.id_injective (ht.symm.trans ht')
      cases hF.symm.trans hF'
      exact ⟨⟨hf, h₀, he⟩, rfl⟩
    | object ht' _ _ =>
      obtain rfl := Tag.id_injective (ht.symm.trans ht')
      cases hF
  · rintro ⟨⟨hf, h₀, he⟩, rfl⟩
    exact .text ht hF hf h₀ he

theorem decodes_object_iff (ht : m a = Tag.object.id) : Decodes P m (.value a l v) ↔
    ∃ e o o', newAt P m a = some o ∧ Decodes P m (.props (propsAt m a) e o o') ∧
      v = objectValue o' := by
  constructor
  · intro h
    cases h with
    | word ht' hw _ =>
      obtain rfl := Tag.id_injective (ht.symm.trans ht')
      cases hw
    | string ht' _ => cases Tag.id_injective (ht.symm.trans ht')
    | text ht' hF _ _ _ =>
      obtain rfl := Tag.id_injective (ht.symm.trans ht')
      cases hF
    | object _ hn ho => exact ⟨_, _, _, hn, ho, rfl⟩
  · rintro ⟨e, o, o', hn, ho, rfl⟩
    exact .object ht hn ho

theorem decodes_unknown (ht : Tag.ofId (m a) = none) : ¬ Decodes P m (.value a l v) := by
  intro h
  cases h with
  | word ht' _ _ | string ht' _ | text ht' _ _ _ _ | object ht' _ _ =>
    rw [ht', Tag.ofId_id] at ht
    cases ht

end Inversion

/-! ## What the reader answers -/

section Answers

variable {lim a l : ℕ} {t : Tag}

theorem tag_cases (P : Process) (m : Memory) (a : ℕ) : Tag.ofId (m a) = none ∨
    (∃ (t : Tag) (k : ℕ) (f : ℕ → Plain), m a = t.id ∧ t.word = some (k, f)) ∨
      (∃ (t : Tag) (F : TextForm), m a = t.id ∧ t.text P = some F) ∨
        m a = Tag.string.id ∨ m a = Tag.object.id := by
  cases h : Tag.ofId (m a) with
  | none => exact Or.inl rfl
  | some t =>
    have ht := (Tag.id_of_ofId h).symm
    refine Or.inr ?_
    rcases t.kinds P with ⟨k, f, hw⟩ | ⟨F, hF⟩ | rfl | rfl
    · exact Or.inl ⟨t, k, f, ht, hw⟩
    · exact Or.inr (Or.inl ⟨t, F, ht, hF⟩)
    · exact Or.inr (Or.inr (Or.inl ht))
    · exact Or.inr (Or.inr (Or.inr ht))

theorem readValue_unknown (ht : Tag.ofId (m a) = none) (n : ℕ) :
    ((readValue P n lim a l).run m).result = .ok ⟨false, none, none⟩ := by
  rw [readValue, readValueWith_unknown P _ ht]

theorem readValue_word {k : ℕ} {f : ℕ → Plain} (ht : m a = t.id) (hw : t.word = some (k, f))
    (n : ℕ) : ((readValue P n lim a l).run m).result =
      .ok ⟨decide (l = 1 + k),
        some (.plain (f (if l = 1 + k then ofBeBytes (bytesAt m (a + 1) k) else 0))), none⟩ := by
  rw [readValue, readValueWith_tag P _ ht, readTag_word P _ ht hw]

theorem readValue_string (ht : m a = Tag.string.id) (n : ℕ) :
    ((readValue P n lim a l).run m).result =
      .ok (if Fits m a l then ⟨true, stringValue m a, none⟩
        else ⟨false, some (.plain (.string none)), none⟩) := by
  rw [readValue, readValueWith_tag P _ ht, readTag_string P _ ht]

theorem readValue_text {F : TextForm} (ht : m a = t.id) (hF : t.text P = some F) (n : ℕ) :
    ((readValue P n lim a l).run m).result = F.outcome P m a l := by
  rw [readValue, readValueWith_tag P _ ht]
  exact (readTag_text P _ ht hF).1

theorem readValue_object (ht : m a = Tag.object.id) (n : ℕ) :
    ((readValue P n lim a l).run m).result = (objectOutcome P (classAt P m a) fun o =>
      ((readProps P n lim (propsAt m a) o).run m).result).map setObject := by
  rw [readValue, readValueWith_tag P _ ht]
  change (Probe.run (readObject P n lim a l >>= fun r => pure (setObject r)) m).result = _
  rw [(keeps_readObject P n lim a l).result_bind, readObject_result P ht]
  cases objectOutcome P _ _ <;> rfl

theorem readValue_untyped (ht : m a = Tag.object.id) (hc : classAt P m a = none) (n : ℕ) :
    ((readValue P n lim a l).run m).result = .ok ⟨false, none, none⟩ := by
  rw [readValue_object ht, hc]
  rfl

theorem readValue_new (ht : m a = Tag.object.id) {o : Option GObject} (hn : newAt P m a = some o)
    (n : ℕ) : ((readValue P n lim a l).run m).result =
      ((readProps P n lim (propsAt m a) o).run m).result.map fun o' =>
        ⟨true, objectValue o', none⟩ := by
  obtain ⟨c, hc, hn⟩ := Option.bind_eq_some_iff.mp hn
  rw [readValue_object ht, hc, objectOutcome, hn]
  dsimp only
  cases ((readProps P n lim (propsAt m a) o).run m).result <;> rfl

theorem readValue_abstract (ht : m a = Tag.object.id) (hc : classAt P m a ≠ none)
    (hn : newAt P m a = none) (n : ℕ) :
    ((readValue P n lim a l).run m).result = .error .aborted := by
  obtain ⟨c, hc⟩ := Option.ne_none_iff_exists'.mp hc
  rw [newAt_eq hc, Option.bind_some] at hn
  rw [readValue_object ht, hc, objectOutcome, hn]
  rfl

theorem readValue_object_ok (ht : m a = Tag.object.id) {n : ℕ} {r : ReadResult}
    (hr : ((readValue P n lim a l).run m).result = .ok r) :
    classAt P m a = none ∧ r = ⟨false, none, none⟩ ∨
      ∃ o o', newAt P m a = some o ∧
        ((readProps P n lim (propsAt m a) o).run m).result = .ok o' ∧
          r = ⟨true, objectValue o', none⟩ := by
  by_cases hc : classAt P m a = none
  · rw [readValue_untyped ht hc] at hr
    cases hr
    exact Or.inl ⟨hc, rfl⟩
  · cases hn : newAt P m a with
    | none =>
      rw [readValue_abstract ht hc hn] at hr
      cases hr
    | some o =>
      rw [readValue_new ht hn] at hr
      cases ho : ((readProps P n lim (propsAt m a) o).run m).result with
      | error e =>
        rw [ho] at hr
        cases hr
      | ok o' =>
        rw [ho] at hr
        cases hr
        exact Or.inr ⟨o, o', rfl, ho, rfl⟩

end Answers

/-! ## The reader finds it -/

/-- **Whatever is decoded is read**, with enough fuel. -/
theorem read_of_decodes {j : Judgement} (h : Decodes P m j) :
    match j with
    | .value a l v => ∃ N, ∀ n, N ≤ n → ∀ lim,
        ((readValue P n lim a l).run m).result = .ok ⟨true, v, none⟩
    | .props c _ o o' => ∃ N, ∀ n, N ≤ n → ∀ lim,
        ((readProps P n lim c o).run m).result = .ok o' := by
  induction h with
  | word ht hw hl =>
    refine ⟨0, fun n _ lim => ?_⟩
    rw [readValue_word ht hw]
    simp [hl]
  | string ht hf =>
    refine ⟨0, fun n _ lim => ?_⟩
    rw [readValue_string ht]
    simp [hf]
  | text ht hF hf h₀ he =>
    refine ⟨0, fun n _ lim => ?_⟩
    rw [readValue_text ht hF]
    simp [TextForm.outcome, hf, h₀, he]
  | object ht hn _ ih =>
    obtain ⟨N, hN⟩ := ih
    refine ⟨N, fun n hle lim => ?_⟩
    rw [readValue_new ht hn, hN n hle lim]
    rfl
  | sentinel hc =>
    refine ⟨1, fun n hn lim => ?_⟩
    obtain ⟨n, rfl⟩ := Nat.exists_eq_add_of_le' hn
    rw [readProps_sentinel P hc]
  | prop hc _ _ ihv iho =>
    obtain ⟨N, hN⟩ := ihv
    obtain ⟨N', hN'⟩ := iho
    refine ⟨max N N' + 1, fun n hn lim => ?_⟩
    obtain ⟨n, rfl⟩ : ∃ k, n = k + 1 := ⟨n - 1, by omega⟩
    rw [(readProps_prop P hc n _).1, hN n (by omega)]
    exact hN' n (by omega) lim

/-! ## The reader finds nothing else -/

theorem decodes_of_value {n lim a l : ℕ} {r : ReadResult}
    (ih : ∀ {c o o'}, ((readProps P n lim c o).run m).result = .ok o' →
      ∃ e, Decodes P m (.props c e o o'))
    (hr : ((readValue P n lim a l).run m).result = .ok r) (hs : r.success = true) :
    Decodes P m (.value a l r.value) ∧ r.error = none := by
  rcases tag_cases P m a with ht | ⟨t, k, f, ht, hw⟩ | ⟨t, F, ht, hF⟩ | ht | ht
  · rw [readValue_unknown ht] at hr
    cases hr
    cases hs
  · rw [readValue_word ht hw] at hr
    cases hr
    have hl : l = 1 + k := of_decide_eq_true hs
    exact ⟨by simpa [hl] using Decodes.word ht hw hl, rfl⟩
  · rw [readValue_text ht hF] at hr
    unfold TextForm.outcome at hr
    split_ifs at hr with hf h₀
    · dsimp only at hr
      cases hr
      have he : F.errno (cstring P.beyond (textAt m a)) = false := by simpa using hs
      exact ⟨Decodes.text ht hF hf h₀ he, by simp [he]⟩
    · cases hr
      cases hs
  · rw [readValue_string ht] at hr
    split_ifs at hr with hf
    · cases hr
      exact ⟨Decodes.string ht hf, rfl⟩
    · cases hr
      cases hs
  · rcases readValue_object_ok ht hr with ⟨_, rfl⟩ | ⟨o, o', hn, ho, rfl⟩
    · cases hs
    · obtain ⟨e, he⟩ := ih ho
      exact ⟨Decodes.object ht hn he, rfl⟩

theorem decodes_of_readProps {n lim c : ℕ} {o o' : Option GObject}
    (h : ((readProps P n lim c o).run m).result = .ok o') :
    ∃ e, Decodes P m (.props c e o o') := by
  induction n generalizing lim c o o' with
  | zero => cases h
  | succ n ih =>
    by_cases hc : m c = 0
    · rw [readProps_sentinel P hc] at h
      cases h
      exact ⟨c, .sentinel hc⟩
    · rw [(readProps_prop P hc n o).1] at h
      cases hr : ((readValue P n (min lim (nextAt m c)) (valueAt m c) (lengthAt m c)).run m).result with
      | error e =>
        rw [hr] at h
        cases h
      | ok r =>
        rw [hr] at h
        change (if r.success = true then _ else _) = _ at h
        split_ifs at h with hs
        obtain ⟨e, he⟩ := ih h
        exact ⟨e, .prop hc (decodes_of_value ih hr hs).1 he⟩

/-- **The values that are read with success.** -/
theorem decodes_iff {a l : ℕ} {v : Option (GValue GObject)} (lim : ℕ) :
    Decodes P m (.value a l v) ↔
      ∃ n, ((readValue P n lim a l).run m).result = .ok ⟨true, v, none⟩ := by
  constructor
  · intro h
    obtain ⟨N, hN⟩ := read_of_decodes h
    exact ⟨N, hN N (Nat.le_refl N) lim⟩
  · rintro ⟨n, hn⟩
    exact (decodes_of_value decodes_of_readProps hn rfl).1

end Catalina
