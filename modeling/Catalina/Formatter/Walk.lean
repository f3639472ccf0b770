import Catalina.Formatter.Decode

/-!
# The walk through an encoding

The reader goes from property to property by the lengths it finds, whatever the values are.

* `Place`: a value with the length that is declared for it, or the properties from an address on.
* `Framed`: the lengths and sentinels are consistent; **`framed_ends`**: then the reader is not
  running for ever.
* `HasProperty`: the values of properties at any depth; `decodes_property`: they are all decoded
  where the whole is.
-/

namespace Catalina

/-- A value of `l` bytes at `a`, or the properties of an object from `c` on. -/
inductive Place
  | value (a l : ℕ)
  | props (c : ℕ)

variable (m : Memory)

/-- The place ends right before an address, by its lengths and sentinels: a value that is not an
object by its declared length, properties with a zero byte, and an object with both. -/
inductive Framed : Place → ℕ → Prop
  | leaf {a l : ℕ} (ht : m a ≠ Tag.object.id) : Framed (.value a l) (a + l)
  | object {a l : ℕ} (ht : m a = Tag.object.id) (hp : Framed (.props (propsAt m a)) (a + l)) :
      Framed (.value a l) (a + l)
  | sentinel {c : ℕ} (hc : m c = 0) : Framed (.props c) (c + 1)
  | prop {c e : ℕ} (hc : m c ≠ 0) (hv : Framed (.value (valueAt m c) (lengthAt m c)) (nextAt m c))
      (hp : Framed (.props (nextAt m c)) e) : Framed (.props c) e

/-- The value of `k` bytes at `b` is the one of a property in the given place, at any depth. -/
inductive HasProperty : Place → ℕ → ℕ → Prop
  | object {a l b k : ℕ} (ht : m a = Tag.object.id) (hp : HasProperty (.props (propsAt m a)) b k) :
      HasProperty (.value a l) b k
  | here {c : ℕ} (hc : m c ≠ 0) : HasProperty (.props c) (valueAt m c) (lengthAt m c)
  | within {c b k : ℕ} (hc : m c ≠ 0) (hv : HasProperty (.value (valueAt m c) (lengthAt m c)) b k) :
      HasProperty (.props c) b k
  | later {c b k : ℕ} (hc : m c ≠ 0) (hp : HasProperty (.props (nextAt m c)) b k) :
      HasProperty (.props c) b k

variable {P : Process} {m}

/-! ## The reader ends -/

theorem readValue_leaf_ends {a l : ℕ} (ht : m a ≠ Tag.object.id) (n lim : ℕ) :
    ((readValue P n lim a l).run m).result ≠ .error .running := by
  intro hr
  rcases tag_cases P m a with h | ⟨t, k, f, h, hw⟩ | ⟨t, F, h, hF⟩ | h | h
  · rw [readValue_unknown h] at hr
    cases hr
  · rw [readValue_word h hw] at hr
    cases hr
  · rw [readValue_text h hF, TextForm.outcome] at hr
    split_ifs at hr
    cases hr
  · rw [readValue_string h] at hr
    cases hr
  · exact absurd h ht

theorem readValue_ends {a l n lim : ℕ}
    (h : ∀ o, ((readProps P n lim (propsAt m a) o).run m).result ≠ .error .running) :
    ((readValue P n lim a l).run m).result ≠ .error .running := by
  by_cases ht : m a = Tag.object.id
  · by_cases hc : classAt P m a = none
    · rw [readValue_untyped ht hc]
      exact nofun
    cases hn : newAt P m a with
    | none =>
      rw [readValue_abstract ht hc hn]
      exact nofun
    | some o =>
      have h₁ := h o
      rw [readValue_new ht hn]
      cases ho : ((readProps P n lim (propsAt m a) o).run m).result with
      | ok o' => exact nofun
      | error e =>
        rw [ho] at h₁
        intro h₂
        cases h₂
        exact h₁ rfl
  · exact readValue_leaf_ends ht n lim

theorem readProps_ends {c n lim : ℕ} (hc : m c ≠ 0)
    (hv : ((readValue P n (min lim (nextAt m c)) (valueAt m c) (lengthAt m c)).run m).result ≠
      .error .running)
    (hp : ∀ o, ((readProps P n lim (nextAt m c) o).run m).result ≠ .error .running)
    (o : Option GObject) :
    ((readProps P (n + 1) lim c o).run m).result ≠ .error .running := by
  rw [(readProps_prop P hc n o).1]
  cases hr : ((readValue P n _ _ _).run m).result with
  | error e =>
    rw [hr] at hv
    intro h₂
    cases h₂
    exact hv rfl
  | ok r =>
    change (if r.success = true then _ else _) ≠ _
    split_ifs
    · exact hp _
    · exact nofun

/-- **A framed place is read to its end**, or the process is stopped before. -/
theorem framed_ends {p : Place} {e : ℕ} (h : Framed m p e) :
    match p with
    | .value a l => ∃ N, ∀ n, N ≤ n → ∀ lim,
        ((readValue P n lim a l).run m).result ≠ .error .running
    | .props c => ∃ N, ∀ n, N ≤ n → ∀ lim o,
        ((readProps P n lim c o).run m).result ≠ .error .running := by
  induction h with
  | leaf ht => exact ⟨0, fun n _ lim => readValue_leaf_ends ht n lim⟩
  | object _ _ ih =>
    obtain ⟨N, hN⟩ := ih
    exact ⟨N, fun n hn lim => readValue_ends (hN n hn lim)⟩
  | sentinel hc =>
    refine ⟨1, fun n hn lim o => ?_⟩
    obtain ⟨n, rfl⟩ := Nat.exists_eq_add_of_le' hn
    rw [readProps_sentinel P hc]
    exact nofun
  | prop hc _ _ ihv ihp =>
    obtain ⟨N, hN⟩ := ihv
    obtain ⟨N', hN'⟩ := ihp
    refine ⟨max N N' + 1, fun n hn lim o => ?_⟩
    obtain ⟨n, rfl⟩ : ∃ k, n = k + 1 := ⟨n - 1, by omega⟩
    exact readProps_ends hc (hN n (by omega) _) (hN' n (by omega) lim) o

/-! ## The properties of what is decoded -/

/-- What is decoded at a place. -/
def DecodesPlace (P : Process) (m : Memory) : Place → Prop
  | .value a l => ∃ v, Decodes P m (.value a l v)
  | .props c => ∃ e o o', Decodes P m (.props c e o o')

theorem decodes_property {p : Place} {b k : ℕ} (h : HasProperty m p b k)
    (hd : DecodesPlace P m p) : DecodesPlace P m (.value b k) := by
  have step : ∀ {c}, m c ≠ 0 → DecodesPlace P m (.props c) →
      DecodesPlace P m (.value (valueAt m c) (lengthAt m c)) ∧
        DecodesPlace P m (.props (nextAt m c)) := by
    rintro c hc ⟨e, o, o', hd⟩
    cases hd with
    | sentinel h₀ => exact absurd h₀ hc
    | prop _ hv ho => exact ⟨⟨_, hv⟩, _, _, _, ho⟩
  induction h with
  | object ht _ ih =>
    obtain ⟨v, hd⟩ := hd
    obtain ⟨e, o, o', _, ho, _⟩ := (decodes_object_iff ht).mp hd
    exact ih ⟨_, _, _, ho⟩
  | here hc => exact (step hc hd).1
  | within hc _ ih => exact ih (step hc hd).1
  | later hc _ ih => exact ih (step hc hd).2

end Catalina
