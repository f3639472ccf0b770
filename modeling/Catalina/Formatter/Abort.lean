import Catalina.Formatter.Walk

/-!
# A property that cannot be read

`catalina_binary_formatter_read_object` calls `g_error` when the value of a property cannot be read.

* `Undecodable`: the ways in which a value cannot be read.
* `Refuses`: the call comes back with `FALSE`; `TakenDown`: it does not come back.
* **`refuses_iff`**: an encoding with consistent lengths and sentinels in which some property cannot
  be read is refused exactly when the type of the outermost object is not registered either.
* `unknown_tag_aborts`: an object whose only property has a tag that is none.
-/

namespace Catalina

/-- The value of `k` bytes at `b` cannot be read: an unknown tag, a scalar of the wrong size, a string
or text whose length field is wrong, a text that is no number, or a type that is not registered. -/
inductive Undecodable (P : Process) (m : Memory) (b k : ℕ) : Prop
  | tag (ht : Tag.ofId (m b) = none)
  | size {t : Tag} {w : ℕ} {f : ℕ → Plain} (ht : m b = t.id) (hw : t.word = some (w, f))
      (hk : k ≠ 1 + w)
  | string (ht : m b = Tag.string.id) (hf : ¬ Fits m b k)
  | text {t : Tag} {F : TextForm} (ht : m b = t.id) (hF : t.text P = some F)
      (hf : Fits m b k → be32 m (b + 1) = 0 ∨ F.errno (cstring P.beyond (textAt m b)) = true)
  | object (ht : m b = Tag.object.id) (hc : classAt P m b = none)

variable {P : Process} {m : Memory}

theorem not_decodes_of_undecodable {b k : ℕ} (h : Undecodable P m b k) :
    ¬ DecodesPlace P m (.value b k) := by
  rintro ⟨v, hd⟩
  cases h with
  | tag ht => exact decodes_unknown ht hd
  | size ht hw hk => exact hk ((decodes_word_iff ht hw).mp hd).1
  | string ht hf => exact hf ((decodes_string_iff ht).mp hd).1
  | text ht hF hf =>
    obtain ⟨⟨hfit, h₀, he⟩, _⟩ := (decodes_text_iff ht hF).mp hd
    have h₁ := (hf hfit).resolve_left h₀
    rw [he] at h₁
    cases h₁
  | object ht hc =>
    obtain ⟨_, _, _, hn, _⟩ := (decodes_object_iff ht).mp hd
    rw [newAt_eq hc] at hn
    cases hn

variable (P m)

/-- `catalina_binary_formatter_read_object` returns `FALSE` to its caller. -/
def Refuses (a l : ℕ) : Prop :=
  ∃ N, ∀ n, N ≤ n → ∀ lim, ∃ r, ((readObject P n lim a l).run m).result = .ok r ∧
    r.success = false

/-- It never returns: the process is aborted or touches memory outside a block. -/
def TakenDown (a l : ℕ) : Prop :=
  ∃ N, ∀ n, N ≤ n → ∀ lim, ∃ e, ((readObject P n lim a l).run m).result = .error e ∧ e ≠ .running

variable {P m} {a l : ℕ}

/-- An object that cannot be decoded takes the process down, once its type is known: an abstract class
at once, and any other type when a property is not read. -/
theorem takenDown_of_not_decodes {e : ℕ} (ht : m a = Tag.object.id) (hc : classAt P m a ≠ none)
    (hf : Framed m (.props (propsAt m a)) e) (hd : ¬ DecodesPlace P m (.value a l)) :
    TakenDown P m a l := by
  obtain ⟨N, hN⟩ := framed_ends hf
  obtain ⟨c, hc⟩ := Option.ne_none_iff_exists'.mp hc
  refine ⟨N, fun n hn lim => ?_⟩
  rw [readObject_result P ht, hc, objectOutcome]
  cases hnew : P.types.objectNew c with
  | none => exact ⟨.aborted, rfl, by decide⟩
  | some o =>
    have hends := hN n hn lim o
    dsimp only
    cases ho : ((readProps P n lim (propsAt m a) o).run m).result with
    | ok o' =>
      obtain ⟨e, he⟩ := decodes_of_readProps ho
      have hn' : newAt P m a = some o := (newAt_eq hc).trans hnew
      exact absurd ⟨_, .object ht hn' he⟩ hd
    | error e =>
      refine ⟨e, rfl, fun h => hends ?_⟩
      rw [ho, h]

/-- **A bad property is refused exactly where the object itself is not read**; everywhere else it
takes the process down. -/
theorem refuses_iff {b k : ℕ} (ht : m a = Tag.object.id) (hf : Framed m (.value a l) (a + l))
    (hp : HasProperty m (.value a l) b k) (hu : Undecodable P m b k) :
    (Refuses P m a l ↔ classAt P m a = none) ∧ (classAt P m a ≠ none → TakenDown P m a l) := by
  have hprops : Framed m (.props (propsAt m a)) (a + l) := by
    generalize he : a + l = e at hf
    cases hf with
    | leaf h => exact absurd ht h
    | object _ hp => exact hp
  have hdown : classAt P m a ≠ none → TakenDown P m a l := fun hc =>
    takenDown_of_not_decodes ht hc hprops fun hd =>
      not_decodes_of_undecodable hu (decodes_property hp hd)
  refine ⟨⟨fun ⟨N, hN⟩ => ?_, fun hc => ⟨0, fun n _ lim => ?_⟩⟩, hdown⟩
  · by_contra hc
    obtain ⟨N', hN'⟩ := hdown hc
    obtain ⟨r, hr, _⟩ := hN (max N N') (by omega) 0
    obtain ⟨e, he, _⟩ := hN' (max N N') (by omega) 0
    rw [hr] at he
    cases he
  · rw [readObject_result P ht, hc]
    exact ⟨_, rfl, rfl⟩

/-- An object of the class `A` with the property `p`, whose value is one byte that is no tag. -/
def unknownTag : Bytes := [15, 2, 65, 0, 2, 112, 0, 0, 0, 0, 1, 99, 0]

theorem framed_unknownTag : Framed (memoryOf unknownTag) (.value 0 13) (0 + 13) :=
  .object rfl (.prop (c := 4) (by decide) (.leaf (a := 11) (l := 1) (by decide))
    (.sentinel (c := 12) rfl))

theorem hasProperty_unknownTag : HasProperty (memoryOf unknownTag) (.value 0 13) 11 1 :=
  .object rfl (.here (c := 4) (by decide))

theorem undecodable_unknownTag : Undecodable sampleProcess (memoryOf unknownTag) 11 1 :=
  .tag (by decide)

theorem refuses_iff_unknownTag :
    (Refuses sampleProcess (memoryOf unknownTag) 0 13 ↔
        classAt sampleProcess (memoryOf unknownTag) 0 = none) ∧
      (classAt sampleProcess (memoryOf unknownTag) 0 ≠ none →
        TakenDown sampleProcess (memoryOf unknownTag) 0 13) :=
  refuses_iff rfl framed_unknownTag hasProperty_unknownTag undecodable_unknownTag

/-- **The process is aborted**, although lengths and sentinel are consistent, and nothing is
refused. -/
theorem unknown_tag_aborts :
    Framed (memoryOf unknownTag) (.value 0 13) (0 + 13) ∧
      HasProperty (memoryOf unknownTag) (.value 0 13) 11 1 ∧
      Undecodable sampleProcess (memoryOf unknownTag) 11 1 ∧
      ((readObject sampleProcess 2 13 0 13).run (memoryOf unknownTag)).result = .error .aborted ∧
      ¬ Refuses sampleProcess (memoryOf unknownTag) 0 13 := by
  have h : ((readObject sampleProcess 2 13 0 13).run (memoryOf unknownTag)).result =
      .error .aborted := rfl
  refine ⟨framed_unknownTag, hasProperty_unknownTag, undecodable_unknownTag, h, fun ⟨N, hN⟩ => ?_⟩
  obtain ⟨r, hr, _⟩ := hN (max N 2) (by omega) 13
  have hmono := (readObject_mono (P := sampleProcess) (show 2 ≤ max N 2 by omega) 13 0 13).eq
    (m := memoryOf unknownTag) (by rw [h]; exact nofun)
  rw [hmono, h] at hr
  cases hr

end Catalina
