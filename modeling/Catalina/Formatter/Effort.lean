import Catalina.Formatter.Inside
import Catalina.Formatter.RoundTrip

/-!
# How long the reader works

An object ignores the length that is declared for it, and the loop around it goes on behind that
length, wherever the object ended.

* `rounds`: how many rounds the loops over properties make, nested ones included.
* `rounds_le_of_contained`: not more than there are bytes, if everything is contained;
  `readProps_ends_at`: no loop gets past the end of the memory.
* **`deserialize_linear`**: both for an input.
* `bomb`: properties whose declared lengths end in front of the properties of their own value;
  **`amplified`**: every one of them doubles the rounds.
-/

namespace Catalina

variable (P : Process) (m : Memory)

/-! ## Rounds -/

/-- The rounds for the value at `a`, given the rounds for properties. -/
def valueRounds (rounds : ℕ → ℕ) (a : ℕ) : ℕ :=
  if m a = Tag.object.id ∧ newAt P m a ≠ none then rounds (propsAt m a) else 0

/-- `catalina_binary_formatter_read_value` answers `TRUE`. -/
def acceptsValue (n a l : ℕ) : Bool :=
  match ((readValue P n 0 a l).run m).result with
  | .ok r => r.success
  | .error _ => false

/-- How often the body of the loop in `catalina_binary_formatter_read_object` is entered from the
property at the cursor on, with the loops for the values of properties. -/
def rounds : ℕ → ℕ → ℕ
  | 0, _ => 0
  | n + 1, c =>
    if m c = 0 then 1
    else 1 + valueRounds P m (rounds n) (valueAt m c) +
      if acceptsValue P m n (valueAt m c) (lengthAt m c) then rounds n (nextAt m c) else 0

/-- The rounds of `catalina_formatter_deserialize`. -/
def inputRounds (n : ℕ) : ℕ := if m 0 = 1 then valueRounds P m (rounds P m n) 2 else 0

variable {P m}

theorem decodesPlace_of_acceptsValue {n a l : ℕ} (h : acceptsValue P m n a l = true) :
    DecodesPlace P m (.value a l) := by
  unfold acceptsValue at h
  cases hr : ((readValue P n 0 a l).run m).result with
  | error e =>
    rw [hr] at h
    cases h
  | ok r =>
    rw [hr] at h
    exact ⟨_, (decodes_of_value decodes_of_readProps hr h).1⟩

/-! ## Contained inputs -/

/-- **Rounds and bytes**: every round has a byte of its own. -/
theorem rounds_le_of_contained {r : Region} (h : Contained P m r) :
    match r with
    | .value lim a _ => ∀ n, valueRounds P m (rounds P m n) a ≤ lim - a
    | .props lim c _ => ∀ n, rounds P m n c ≤ lim - c := by
  have leaf : ∀ {a : ℕ} {t : Tag}, m a = t.id → t ≠ .object → ∀ n lim,
      valueRounds P m (rounds P m n) a ≤ lim - a := by
    intro a t ht hne n lim
    rw [valueRounds, if_neg fun ho => hne (Tag.id_injective (ht.symm.trans ho.1))]
    exact Nat.zero_le _
  induction h with
  | unknown ht _ =>
    intro n
    rw [valueRounds, if_neg fun ho => by rw [ho.1, Tag.ofId_id] at ht; cases ht]
    exact Nat.zero_le _
  | word ht hw _ _ => exact fun n => leaf ht (by rintro rfl; cases hw) n _
  | string ht _ _ => exact fun n => leaf ht (by decide) n _
  | text ht hF _ _ => exact fun n => leaf ht (by rintro rfl; cases hF) n _
  | @object lim a _ _ _ _ ih =>
    intro n
    unfold valueRounds
    split_ifs with ho
    · obtain ⟨o, hnew⟩ := Option.ne_none_iff_exists'.mp ho.2
      have hle := ih o hnew n
      unfold propsAt at hle ⊢
      omega
    · exact Nat.zero_le _
  | sentinel hc h =>
    intro n
    cases n with
    | zero => exact Nat.zero_le _
    | succ n =>
      rw [rounds, if_pos hc]
      omega
  | @prop lim c _ hc hk _ _ _ ihv ihp =>
    intro n
    cases n with
    | zero => exact Nat.zero_le _
    | succ n =>
      have hv := ihv n
      have hlast : (if acceptsValue P m n (valueAt m c) (lengthAt m c) then
          rounds P m n (nextAt m c) else 0) ≤ lim - nextAt m c := by
        split_ifs with hacc
        · exact ihp (decodesPlace_of_acceptsValue hacc) n
        · exact Nat.zero_le _
      have hvalue : c < valueAt m c ∧ valueAt m c ≤ nextAt m c := by
        unfold nextAt valueAt
        omega
      have hin := hk.2
      rw [rounds, if_neg hc]
      omega

/-- **Behind the last byte that is not zero every loop ends.** -/
theorem readProps_ends_at {e : ℕ} (hz : ∀ a, e ≤ a → m a = 0) (n : ℕ) {c : ℕ} (hc : e ≤ c + n)
    (lim : ℕ) (o : Option GObject) :
    ((readProps P (n + 1) lim c o).run m).result ≠ .error .running := by
  induction n generalizing c lim o with
  | zero =>
    rw [readProps_sentinel P (hz c hc)]
    exact nofun
  | succ n ih =>
    by_cases h₀ : m c = 0
    · rw [readProps_sentinel P h₀]
      exact nofun
    · have hprops : e ≤ propsAt m (valueAt m c) + n := by
        unfold propsAt valueAt
        omega
      have hnext : e ≤ nextAt m c + n := by
        unfold nextAt valueAt
        omega
      exact readProps_ends h₀ (readValue_ends fun o => ih hprops _ o) (fun o => ih hnext lim o) o

/-- The memory up to `n`, and zeros behind. -/
def Memory.cut (m : Memory) (n : ℕ) : Memory := fun i => if i < n then m i else 0

theorem agreeBelow_cut (m : Memory) (n : ℕ) : Probe.AgreeBelow n m (m.cut n) := by
  intro i hi
  exact (if_pos hi).symm

/-- **The reader works as long as the input is**, if it stays inside: the loops make no more rounds
than there are bytes, and fuel of that many rounds is enough. -/
theorem deserialize_linear {bufferLength : ℕ} (h : ContainedInput P m bufferLength) (n : ℕ) :
    inputRounds P m n ≤ bufferLength ∧ (bufferLength ≤ n →
      ((realDeserialize P n bufferLength).run m).result ≠ .error .running) := by
  constructor
  · unfold inputRounds
    split_ifs with h₀
    · exact (rounds_le_of_contained (h.2 h₀).2.2 n).trans (Nat.sub_le _ _)
    · exact Nat.zero_le _
  · intro hn
    have hz : ∀ a, bufferLength ≤ a → m.cut bufferLength a = 0 := fun a ha => if_neg (by omega)
    rw [← deserialize_congr h (agreeBelow_cut m bufferLength) n, realDeserialize_result]
    split_ifs
    · cases n with
      | zero => exact absurd h.1 (by omega)
      | succ n =>
        refine readValue_ends fun o => readProps_ends_at hz n ?_ _ o
        unfold propsAt
        omega
    · exact nofun

/-- The bounds for two objects of the class `A`, the one in the other. -/
theorem deserialize_linear_family :
    inputRounds sampleProcess (memoryOf (1 :: 0 :: familyBytes)) 69 ≤
        (1 :: 0 :: familyBytes).length ∧
      ((1 :: 0 :: familyBytes).length ≤ 69 →
        ((realDeserialize sampleProcess 69 (1 :: 0 :: familyBytes).length).run
          (memoryOf (1 :: 0 :: familyBytes))).result ≠ .error .running) :=
  deserialize_linear (containedInput_of_run (n := 5) rfl rfl) 69

/-! ## Doubling -/

/-- `k` properties, one behind the other, whose values are declared to be as long as the header of an
object. -/
def bomb (name cls : CString) (k : ℕ) : Bytes :=
  (List.replicate k (propertyBytes name (objectHeader cls))).flatten ++ [0]

/-- The version, the flags and an object with these properties. -/
def bombInput (name cls : CString) (k : ℕ) : Bytes := 1 :: 0 :: (objectHeader cls ++ bomb name cls k)

section Bomb

variable {name cls : CString} {new : Option GObject}

theorem length_bombInput (name : CString) {cls : CString} (hcls : cls.strlen ≤ 254) (k : ℕ) :
    (bombInput name cls k).length = k * (name.strlen + cls.strlen + 9) + cls.strlen + 6 := by
  have hheader : (objectHeader cls).length = cls.strlen + 3 := by
    rw [length_objectHeader, typeNameLen]
    omega
  have hproperty : (propertyBytes name (objectHeader cls)).length = name.strlen + cls.strlen + 9 := by
    rw [length_propertyBytes, hheader]
    omega
  have hbomb : (bomb name cls k).length = k * (name.strlen + cls.strlen + 9) + 1 := by
    simp [bomb, hproperty]
  rw [bombInput, List.length_cons, List.length_cons, List.length_append, hheader, hbomb]
  omega

/-- The first property: its value is the header of an object, and the properties of this object are
the ones that follow. -/
theorem bomb_succ (hname : name.strlen ≤ 254) (hcls : cls.strlen ≤ 254)
    (hc : (P.types.objectFromName cls).bind P.types.objectNew = some new) {k b : ℕ}
    (hm : Stored m b (bomb name cls (k + 1))) :
    m b ≠ 0 ∧ m (valueAt m b) = Tag.object.id ∧ newAt P m (valueAt m b) = some new ∧
      propsAt m (valueAt m b) = nextAt m b ∧ Stored m (nextAt m b) (bomb name cls k) := by
  have hsize : (objectHeader cls).length < 2 ^ 32 := by
    rw [length_objectHeader, typeNameLen]
    omega
  rw [bomb, List.replicate_succ, List.flatten_cons, List.append_assoc] at hm
  obtain ⟨h₀, _, hlength, hvalue, hrest⟩ := property_of_stored hname hsize hm
  rw [← List.append_nil (objectHeader cls)] at hvalue
  obtain ⟨htag, hclass, _⟩ := header_read (P := P) hcls hvalue
  refine ⟨h₀, htag, (newAt_eq hclass).trans hc, ?_, hrest⟩
  rw [(header_of_stored hvalue).2.2, nextAt, hlength]

/-- The properties are read, and every one of them doubles the rounds. -/
theorem rounds_bomb (hname : name.strlen ≤ 254) (hcls : cls.strlen ≤ 254)
    (hc : (P.types.objectFromName cls).bind P.types.objectNew = some new) (k : ℕ) {b : ℕ}
    (hm : Stored m b (bomb name cls k)) :
    (∀ o, ∃ e o', Decodes P m (.props b e o o')) ∧
      ∃ N, ∀ n, N ≤ n → rounds P m n b + 1 = 2 ^ (k + 1) := by
  induction k generalizing b with
  | zero =>
    have h₀ : m b = 0 := (stored_cons.mp hm).1
    refine ⟨fun o => ⟨b, o, .sentinel h₀⟩, 1, fun n hn => ?_⟩
    obtain ⟨n, rfl⟩ := Nat.exists_eq_add_of_le' hn
    rw [rounds, if_pos h₀]
    rfl
  | succ k ih =>
    obtain ⟨h₀, htag, hnew, hprops, hrest⟩ := bomb_succ hname hcls hc hm
    obtain ⟨hd, N, hN⟩ := ih hrest
    -- the value of the property and the rest of the list are the same properties
    have hvalue : ∃ v, Decodes P m (.value (valueAt m b) (lengthAt m b) v) := by
      obtain ⟨e, o', ho⟩ := hd new
      exact ⟨_, .object htag hnew (hprops ▸ ho)⟩
    obtain ⟨v, hv⟩ := hvalue
    obtain ⟨N', hN'⟩ := read_of_decodes hv
    refine ⟨fun o => ?_, max N N' + 1, fun n hn => ?_⟩
    · obtain ⟨e, o', ho⟩ := hd (setAt P m b o v)
      exact ⟨e, o', .prop h₀ hv ho⟩
    · obtain ⟨n, rfl⟩ : ∃ k, n = k + 1 := ⟨n - 1, by omega⟩
      have hrounds := hN n (by omega)
      have hacc : acceptsValue P m n (valueAt m b) (lengthAt m b) = true := by
        rw [acceptsValue, hN' n (by omega)]
      have hobject : m (valueAt m b) = Tag.object.id ∧ newAt P m (valueAt m b) ≠ none :=
        ⟨htag, hnew ▸ Option.some_ne_none new⟩
      rw [rounds, if_neg h₀, if_pos hacc, valueRounds, if_pos hobject, hprops, pow_succ, ← hrounds]
      omega

end Bomb

/-- **Every property doubles the rounds**: for any type of objects that a process has, if it is not
abstract, there are inputs whose length grows with the number of their properties, and the rounds with
its power of two. -/
theorem amplified {name cls : CString} (hname : name.strlen ≤ 254) (hcls : cls.strlen ≤ 254)
    (hc : (P.types.objectFromName cls).bind P.types.objectNew ≠ none) (k : ℕ)
    (hm : Stored m 0 (bombInput name cls k)) :
    (bombInput name cls k).length = k * (name.strlen + cls.strlen + 9) + cls.strlen + 6 ∧
      Deserializes P m (bombInput name cls k).length ∧
        ∃ N, ∀ n, N ≤ n → inputRounds P m n + 1 = 2 ^ (k + 1) := by
  obtain ⟨new, hc⟩ := Option.ne_none_iff_exists'.mp hc
  have hversion : m 0 = 1 := (stored_cons.mp hm).1
  obtain ⟨htag, hclass, hrest⟩ := header_read (P := P) hcls (stored_cons.mp (stored_cons.mp hm).2).2
  obtain ⟨hd, N, hN⟩ := rounds_bomb hname hcls hc k hrest
  obtain ⟨e, o', ho⟩ := hd new
  have hnew : newAt P m 2 = some new := (newAt_eq hclass).trans hc
  refine ⟨length_bombInput name hcls k,
    accepts_iff.mpr ⟨hversion, _, .object htag hnew ho⟩, N, fun n hn => ?_⟩
  rw [inputRounds, if_pos hversion, valueRounds, if_pos ⟨htag, hnew ▸ Option.some_ne_none new⟩]
  exact hN n hn

/-- Forty properties `r` of objects of the class `A`: some five hundred bytes and 2^41 rounds. -/
theorem amplified_forty :
    (bombInput ⟨[114], by decide⟩ ⟨[65], by decide⟩ 40).length = 40 * (1 + 1 + 9) + 1 + 6 ∧
      Deserializes sampleProcess (memoryOf (bombInput ⟨[114], by decide⟩ ⟨[65], by decide⟩ 40))
        (bombInput ⟨[114], by decide⟩ ⟨[65], by decide⟩ 40).length ∧
      ∃ N, ∀ n, N ≤ n → inputRounds sampleProcess
        (memoryOf (bombInput ⟨[114], by decide⟩ ⟨[65], by decide⟩ 40)) n + 1 = 2 ^ (40 + 1) :=
  amplified (by decide) (by decide) (by decide) 40 (stored_memoryOf _)

end Catalina
