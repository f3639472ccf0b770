import Catalina.Formatter.Layout
import Catalina.Lib.Fuel
import Catalina.Lib.Graph
import Mathlib.Data.Fintype.EquivFin

/-!
# The recursion of the writer

`catalina_binary_formatter_write_object` writes the objects in its properties, and there is nothing
that remembers which objects are being written.

* `writeValue_continues`: more fuel keeps every outcome.
* `Refers`: an object has another one in a property; `Cyclic`: a value leads to an object that refers
  to itself, at whatever distance.
* `Settles`: the recursion ends; `Returns`: with an encoding or `FALSE`.
* **`settles_or_never_returns`**: the recursion ends where nothing is cyclic, and never returns where
  something is; `self_reference_runs_on`: an object that refers to itself.
-/

namespace Catalina

open Relation

variable {P : Process} {ω : Type} {w : World P.types ω} {entry : List ℕ → ℕ}

/-! ## Fuel -/

theorem collectChunks_continues {write write' : ℕ → GValue ω → Except Stop (Option Bytes)} {x : ω}
    (h : ∀ i v, Continues .running (write i v) (write' i v)) (i : ℕ) (params : List ParamSpec)
    (chunks : List Chunk) (total : ℕ) :
    Continues .running (collectChunks P w write x i params chunks total)
      (collectChunks P w write' x i params chunks total) := by
  induction params generalizing i chunks total with
  | nil => exact Continues.refl _
  | cons p params ih =>
    rw [collectChunks, collectChunks]
    split_ifs
    · rcases h i (w.property x p) with hv | hv
      · rw [hv]
        exact Continues.out _
      · rw [hv]
        cases write' i (w.property x p) with
        | error e => exact Continues.refl _
        | ok v =>
          cases v with
          | none => exact ih _ _ _
          | some value => exact ih _ _ _
    · exact ih _ _ _

theorem writeValueWith_continues {wo wo' : Option ω → Except Stop (Option Bytes)}
    (h : ∀ x, Continues .running (wo x) (wo' x)) (v : GValue ω) :
    Continues .running (writeValueWith P wo v) (writeValueWith P wo' v) := by
  cases v with
  | object _ x => exact h x
  | plain p => cases p <;> exact Continues.refl _
  | void | other _ => exact Continues.refl _

theorem writeObject_continues_succ (n : ℕ) (path : List ℕ) (x : Option ω) :
    Continues .running (writeObject P w entry n path x) (writeObject P w entry (n + 1) path x) := by
  induction n generalizing path x with
  | zero => exact Continues.out _
  | succ n ih =>
    cases x with
    | none => exact Continues.refl _
    | some x =>
      exact (collectChunks_continues (fun i => writeValueWith_continues (ih (i :: path))) _ _ _ _).bind
        fun r => Continues.refl _

/-- **More fuel keeps every outcome.** -/
theorem writeValue_continues {n k : ℕ} (h : n ≤ k) (path : List ℕ) (v : GValue ω) :
    Continues .running (writeValue P w entry n path v) (writeValue P w entry k path v) :=
  writeValueWith_continues (fun x => continues_of_le
    (f := fun n => writeObject P w entry n path x) (fun n => writeObject_continues_succ n path x) h) v

/-! ## References -/

/-- An object has another one in a property. -/
def Refers (w : World P.types ω) (x y : ω) : Prop :=
  ∃ p ∈ P.types.listProperties (w.cls x), ∃ c, w.property x p = .object c (some y)

/-- The object of a value. -/
def GValue.Holds (v : GValue ω) (x : ω) : Prop := ∃ c, v = .object c (some x)

/-- The value leads to an object that refers to itself, at whatever distance. -/
def Cyclic (w : World P.types ω) (v : GValue ω) : Prop :=
  ∃ x y, v.Holds x ∧ ReflTransGen (Refers w) x y ∧ TransGen (Refers w) y y

variable (P w entry) in
/-- The recursion ends: with an encoding, with `FALSE`, or because a write went outside a buffer. -/
def Settles (path : List ℕ) (v : GValue ω) : Prop :=
  ∃ r, r ≠ .error .running ∧ ∃ N, ∀ n, N ≤ n → writeValue P w entry n path v = r

variable (P w entry) in
/-- The call returns, with an encoding or with `FALSE`. -/
def Returns (path : List ℕ) (v : GValue ω) : Prop :=
  ∃ n r, writeValue P w entry n path v = .ok r

/-! ## Without a cycle -/

theorem settles_of_ne {path : List ℕ} {v : GValue ω} {n : ℕ}
    (h : writeValue P w entry n path v ≠ .error .running) : Settles P w entry path v :=
  ⟨_, h, n, fun _ hk => (writeValue_continues hk path v).eq h⟩

theorem blitOrStop_ne (buf : Bytes) (off : ℕ) (src : Bytes) :
    blitOrStop buf off src ≠ .error .running := by
  unfold blitOrStop
  split <;> exact nofun

theorem bind_ne {α β : Type} {a : Except Stop α} {f : α → Except Stop β}
    (ha : a ≠ .error .running) (hf : ∀ x, f x ≠ .error .running) : (a >>= f) ≠ .error .running := by
  cases a with
  | error e =>
    intro h
    cases h
    exact ha rfl
  | ok x => exact hf x

theorem writeString_ne (o : ByteOrder) (s : Option CString) :
    writeString o s ≠ .error .running := by
  refine bind_ne (blitOrStop_ne _ _ _) fun b => ?_
  cases s with
  | none => exact blitOrStop_ne _ _ _
  | some s => exact bind_ne (blitOrStop_ne _ _ _) fun _ => blitOrStop_ne _ _ _

theorem writeText_ne (o : ByteOrder) (t : Tag) (s : CString) :
    writeText o t s ≠ .error .running :=
  bind_ne (writeString_ne o _) fun _ => blitOrStop_ne _ _ _

theorem copyChunks_ne (o : ByteOrder) (chunks : List Chunk) (off : ℕ) (buf : Bytes) :
    copyChunks o chunks off buf ≠ .error .running := by
  induction chunks generalizing off buf with
  | nil => exact nofun
  | cons c chunks ih =>
    exact bind_ne (blitOrStop_ne _ _ _) fun _ => bind_ne (blitOrStop_ne _ _ _) fun _ =>
      bind_ne (blitOrStop_ne _ _ _) fun _ => bind_ne (blitOrStop_ne _ _ _) fun _ => ih _ _

theorem writeValueWith_ne {wo : Option ω → Except Stop (Option Bytes)} {v : GValue ω}
    (h : ∀ c x, v = .object c x → wo x ≠ .error .running) :
    writeValueWith P wo v ≠ .error .running := by
  cases v with
  | void | other _ => exact nofun
  | object c x => exact h c x rfl
  | plain p =>
    cases p with
    | integer t x => exact nofun
    | string s => exact bind_ne (writeString_ne _ _) fun _ => nofun
    | double x => exact bind_ne (writeText_ne _ _ _) fun _ => nofun
    | float x => exact bind_ne (writeText_ne _ _ _) fun _ => nofun

theorem collectChunks_ne {write : ℕ → GValue ω → Except Stop (Option Bytes)} {x : ω}
    {params : List ParamSpec} (h : ∀ p ∈ params, ∀ i, write i (w.property x p) ≠ .error .running)
    (i : ℕ) (chunks : List Chunk) (total : ℕ) :
    collectChunks P w write x i params chunks total ≠ .error .running := by
  induction params generalizing i chunks total with
  | nil => exact nofun
  | cons p params ih =>
    have htail := ih fun q hq => h q (List.mem_cons_of_mem _ hq)
    have hp := h p List.mem_cons_self i
    rw [collectChunks]
    split_ifs
    · cases hv : write i (w.property x p) with
      | error e =>
        rw [hv] at hp
        intro he
        cases he
        exact hp rfl
      | ok v =>
        cases v with
        | none => exact htail _ _ _
        | some value => exact htail _ _ _
    · exact htail _ _ _

theorem common_bound {α : Type} {p : ℕ → α → Prop} (mono : ∀ n k a, n ≤ k → p n a → p k a)
    (l : List α) (h : ∀ a ∈ l, ∃ n, p n a) : ∃ n, ∀ a ∈ l, p n a := by
  induction l with
  | nil => exact ⟨0, nofun⟩
  | cons a l ih =>
    obtain ⟨n, hn⟩ := h a List.mem_cons_self
    obtain ⟨k, hk⟩ := ih fun b hb => h b (List.mem_cons_of_mem _ hb)
    refine ⟨max n k, fun b hb => ?_⟩
    rcases List.mem_cons.mp hb with rfl | hb
    · exact mono n _ _ (by omega) hn
    · exact mono k _ _ (by omega) (hk b hb)

/-- **The recursion ends for every object that has no cycle below it.** -/
theorem writeObject_ends (entry : List ℕ → ℕ) {x : ω} (h : Acc (fun y x => Refers w x y) x) :
    ∃ N, ∀ n, N ≤ n → ∀ path, writeObject P w entry n path (some x) ≠ .error .running := by
  induction h with
  | intro x _ ih =>
    let ends : ℕ → ParamSpec → Prop := fun N p => ∀ n, N ≤ n → ∀ path,
      writeValue P w entry n path (w.property x p) ≠ .error .running
    obtain ⟨N, hN⟩ := common_bound (p := ends)
      (fun n k p hk hp m hm => hp m (by omega)) (P.types.listProperties (w.cls x)) fun p hp => by
        cases hv : w.property x p with
        | object c y =>
          cases y with
          | none => exact ⟨1, fun n hn path => by
              obtain ⟨n, rfl⟩ := Nat.exists_eq_add_of_le' hn
              rw [hv]
              exact nofun⟩
          | some y =>
            obtain ⟨N, hN⟩ := ih y ⟨p, hp, c, hv⟩
            exact ⟨N, fun n hn path => by rw [hv]; exact hN n hn path⟩
        | plain _ | void | other _ =>
          exact ⟨0, fun n _ path => writeValueWith_ne fun c y he => by rw [hv] at he; cases he⟩
    refine ⟨N + 1, fun n hn path => ?_⟩
    obtain ⟨n, rfl⟩ : ∃ k, n = k + 1 := ⟨n - 1, by omega⟩
    exact bind_ne (collectChunks_ne (fun p hp i => hN p hp n (by omega) _) _ _ _) fun r =>
      bind_ne (blitOrStop_ne _ _ _) fun b => bind_ne (copyChunks_ne _ _ _ _) fun b => nofun

/-! ## With a cycle -/

theorem returns_of_refers {n : ℕ} {x y : ω} (hxy : Refers w x y)
    (h : ∃ path r, writeObject P w entry n path (some x) = .ok r) :
    ∃ k, k < n ∧ ∃ path r, writeObject P w entry k path (some y) = .ok r := by
  obtain ⟨path, r, h⟩ := h
  obtain ⟨p, hp, c, hv⟩ := hxy
  cases n with
  | zero => cases h
  | succ n =>
    obtain ⟨k, hk⟩ := List.mem_iff_getElem?.mp hp
    have htype : p.valueType = .object c := by rw [← w.typed x p, hv]; rfl
    obtain ⟨v, hw⟩ := propertiesReturn_of_ok P w entry n path x h k p hk (by rw [htype]; rfl)
    rw [hv] at hw
    exact ⟨n, Nat.lt_succ_self n, _, _, hw⟩

theorem writeValue_object (n : ℕ) (path : List ℕ) (c : ℕ) (x : Option ω) :
    writeValue P w entry n path (.object c x) = writeObject P w entry n path x := rfl

/-! ## The result -/

/-- **The recursion ends for every value that leads to no cycle**; for every other it does not return.
An object that is met is encoded and a value with nothing to write is answered with `FALSE`; a write
goes outside a buffer only where `total` does not hold the size, as after another start than zero. -/
theorem settles_or_never_returns (P : Process) {ω : Type} [Fintype ω] (w : World P.types ω)
    (entry : List ℕ → ℕ) (path : List ℕ) (v : GValue ω) :
    (¬ Cyclic w v → Settles P w entry path v) ∧ (Cyclic w v → ¬ Returns P w entry path v) := by
  constructor
  · intro hv
    have hobject : ∀ c x, v = .object c x →
        ∃ N, ∀ n, N ≤ n → writeObject P w entry n path x ≠ .error .running := by
      rintro c x rfl
      cases x with
      | none => exact ⟨1, fun n hn => by obtain ⟨n, rfl⟩ := Nat.exists_eq_add_of_le' hn; exact nofun⟩
      | some x =>
        have hacyclic : AcyclicFrom (Refers w) x := fun y hy hyy => hv ⟨x, y, ⟨c, rfl⟩, hy, hyy⟩
        obtain ⟨N, hN⟩ := writeObject_ends entry hacyclic.acc
        exact ⟨N, fun n hn => hN n hn path⟩
    cases v with
    | object c x =>
      obtain ⟨N, hN⟩ := hobject c x rfl
      exact settles_of_ne (n := N) (hN N (Nat.le_refl N))
    | plain _ | void | other _ => exact settles_of_ne (n := 0) (writeValueWith_ne nofun)
  · rintro ⟨x, y, ⟨c, rfl⟩, hxy, hyy⟩ ⟨n, r, hr⟩
    exact not_of_reaches (p := fun n x => ∃ path r, writeObject P w entry n path (some x) = .ok r)
      (fun n x y h hxy => returns_of_refers hxy h) hxy hyy n ⟨path, r, hr⟩

/-- An object of the class `A` that refers to itself. -/
def selfish : World sampleProcess.types Unit where
  cls _ := 0
  property _ p :=
    match p.valueType with
    | .object 0 => .object 0 (some ())
    | t => .initial t
  typed _ p := by
    split
    · next h => exact h.symm
    · next h => exact GValue.type_initial _
  instanceOf _ p c y h := by
    split at h
    · cases h
      rfl
    · exact absurd h (GValue.initial_ne_object _ c y)

theorem collectChunks_selfish (wo : ℕ → Option Unit → Except Stop (Option Bytes))
    (h : wo 2 (some ()) = .error .running) (total : ℕ) :
    collectChunks sampleProcess selfish (fun i => writeValueWith sampleProcess (wo i)) () 0
      (sampleTypes.listProperties 0) [] total = .error .running := by
  have hstring : writeString .little none = .ok [14, 0, 0, 0, 0] := by decide
  simp [collectChunks, selfish, sampleProcess, sampleTypes, canSerializeType, GValue.initial,
    writeValueWith, hstring, h]

/-- **It is written without end.** -/
theorem self_reference_runs_on :
    (∀ n path, writeObject sampleProcess selfish (fun _ => 0) n path (some ()) = .error .running) ∧
      ¬ Returns sampleProcess selfish (fun _ => 0) [] (.object 0 (some ())) := by
  have h : ∀ n path,
      writeObject sampleProcess selfish (fun _ => 0) n path (some ()) = .error .running := by
    intro n
    induction n with
    | zero => exact fun _ => rfl
    | succ n ih =>
      intro path
      have hc := collectChunks_selfish
        (fun i => writeObject sampleProcess selfish (fun _ => 0) n (i :: path))
        (ih (2 :: path)) (guint (0 + (objectHeader (sampleTypes.typeName 0)).length))
      change (collectChunks sampleProcess selfish _ () 0 _ [] _ >>= _) = _
      exact hc ▸ rfl
  refine ⟨h, ?_⟩
  rintro ⟨n, r, hr⟩
  rw [writeValue_object, h] at hr
  cases hr

end Catalina
