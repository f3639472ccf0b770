import Mathlib.Data.List.Basic
import Mathlib.Logic.Function.Basic

/-!
# Programs that read memory

A program reads a memory without end, of which a region is its input. What it answers depends on
the bytes it reads; besides, it is recorded whether all of them lie in the region.

* `Probe`: such a program; `Probe.bind_ok`, `Probe.bind_error`: the rules for sequences.
* `bytesAt`, `Stored`: a stretch of memory; `Stored.append`: its parts.
* `Keeps`: a program that answers leaves the memory as it was; `Keeps.result_bind`,
  `Keeps.inside_bind`: the rules for such programs.
* `Local`: where a program stays inside, it depends on its region only.
* `Probe.Refines`: a program that answers what another one answers, unless that one is stopped;
  **`Probe.Refines.bind`**, **`Probe.refines_of_le`**: more fuel keeps every answer.
-/

namespace Catalina

/-- A memory. -/
abbrev Memory := ℕ → UInt8

/-! ## Stretches of memory -/

/-- The `n` bytes at `a`. -/
def bytesAt (m : Memory) : ℕ → ℕ → List UInt8
  | _, 0 => []
  | a, n + 1 => m a :: bytesAt m (a + 1) n

@[simp] theorem length_bytesAt (m : Memory) (a n : ℕ) : (bytesAt m a n).length = n := by
  induction n generalizing a with
  | zero => rfl
  | succ n ih => rw [bytesAt, List.length_cons, ih]

theorem bytesAt_congr {m m' : Memory} {a n : ℕ} (h : ∀ i, a ≤ i → i < a + n → m i = m' i) :
    bytesAt m a n = bytesAt m' a n := by
  induction n generalizing a with
  | zero => rfl
  | succ n ih =>
    rw [bytesAt, bytesAt, h a (by omega) (by omega), ih fun i h₁ h₂ => h i (by omega) (by omega)]

/-- The bytes `bs` stand at `a`. -/
def Stored (m : Memory) (a : ℕ) (bs : List UInt8) : Prop := bytesAt m a bs.length = bs

theorem stored_cons {m : Memory} {a : ℕ} {b : UInt8} {bs : List UInt8} :
    Stored m a (b :: bs) ↔ m a = b ∧ Stored m (a + 1) bs := by
  unfold Stored
  rw [List.length_cons, bytesAt, List.cons.injEq]

theorem stored_append {m : Memory} {a : ℕ} {bs cs : List UInt8} :
    Stored m a (bs ++ cs) ↔ Stored m a bs ∧ Stored m (a + bs.length) cs := by
  induction bs generalizing a with
  | nil => simp [Stored, bytesAt]
  | cons b bs ih =>
    rw [List.cons_append, stored_cons, stored_cons, ih, List.length_cons, and_assoc,
      show a + 1 + bs.length = a + (bs.length + 1) by omega]

/-- The memory that holds `bs` from address `0` on and zeros behind them. -/
def memoryOf (bs : List UInt8) : Memory := fun i => bs.getD i 0

theorem stored_memoryOf_aux (bs cs : List UInt8) : Stored (memoryOf (bs ++ cs)) bs.length cs := by
  induction cs generalizing bs with
  | nil => rfl
  | cons c cs ih =>
    rw [stored_cons]
    refine ⟨by simp [memoryOf], ?_⟩
    have h := ih (bs ++ [c])
    rwa [List.append_assoc, List.singleton_append, List.length_append, List.length_singleton] at h

theorem stored_memoryOf (bs : List UInt8) : Stored (memoryOf bs) 0 bs :=
  stored_memoryOf_aux [] bs

/-! ## Programs -/

/-- The outcome of a program: whether it stayed inside, its answer, and the memory it leaves. -/
structure Ran (ε α : Type) where
  inside : Bool
  result : Except ε α
  memory : Memory

/-- A program that reads memory and can be stopped for a reason in `ε`. -/
structure Probe (ε α : Type) where
  run : Memory → Ran ε α

namespace Probe

variable {ε α β : Type}

protected def pure (a : α) : Probe ε α := ⟨fun m => ⟨true, .ok a, m⟩⟩

protected def bind (p : Probe ε α) (f : α → Probe ε β) : Probe ε β where
  run m :=
    match p.run m with
    | ⟨b, .error e, m'⟩ => ⟨b, .error e, m'⟩
    | ⟨b, .ok a, m'⟩ => ⟨b && ((f a).run m').inside, ((f a).run m').result, ((f a).run m').memory⟩

instance : Monad (Probe ε) where
  pure := Probe.pure
  bind := Probe.bind

/-- The program is stopped. -/
def stop (e : ε) : Probe ε α := ⟨fun m => ⟨true, .error e, m⟩⟩

/-- Something that should be so. -/
def check (b : Bool) : Probe ε Unit := ⟨fun m => ⟨b, .ok (), m⟩⟩

/-- The byte at `a`, which should be below `lim`. -/
def peekByte (lim a : ℕ) : Probe ε UInt8 := ⟨fun m => ⟨decide (a < lim), .ok (m a), m⟩⟩

/-- The `n` bytes at `a`, which should be below `lim`. -/
def peek (lim a n : ℕ) : Probe ε (List UInt8) :=
  ⟨fun m => ⟨decide (n = 0 ∨ a + n ≤ lim), .ok (bytesAt m a n), m⟩⟩

/-- The byte at `a` is overwritten. -/
def poke (lim a : ℕ) (b : UInt8) : Probe ε Unit :=
  ⟨fun m => ⟨decide (a < lim), .ok (), Function.update m a b⟩⟩

variable {m : Memory}

@[simp] theorem run_pure (a : α) : (pure a : Probe ε α).run m = ⟨true, .ok a, m⟩ := rfl

@[simp] theorem run_stop (e : ε) : (stop e : Probe ε α).run m = ⟨true, .error e, m⟩ := rfl

theorem bind_ok {p : Probe ε α} {f : α → Probe ε β} {b : Bool} {a : α} {m' : Memory}
    (h : p.run m = ⟨b, .ok a, m'⟩) : (p >>= f).run m =
      ⟨b && ((f a).run m').inside, ((f a).run m').result, ((f a).run m').memory⟩ := by
  change (Probe.bind p f).run m = _
  simp only [Probe.bind, h]

theorem bind_error {p : Probe ε α} {f : α → Probe ε β} {b : Bool} {e : ε} {m' : Memory}
    (h : p.run m = ⟨b, .error e, m'⟩) : (p >>= f).run m = ⟨b, .error e, m'⟩ := by
  change (Probe.bind p f).run m = _
  simp only [Probe.bind, h]

theorem map_ok {p : Probe ε α} {b : Bool} {a : α} {m' : Memory} (h : p.run m = ⟨b, .ok a, m'⟩)
    (f : α → β) : (p >>= fun a => pure (f a)).run m = ⟨b, .ok (f a), m'⟩ := by
  rw [bind_ok h, run_pure, Bool.and_true]

@[simp] theorem run_check_bind (b : Bool) (f : Unit → Probe ε β) : (check b >>= f).run m =
    ⟨b && ((f ()).run m).inside, ((f ()).run m).result, ((f ()).run m).memory⟩ := bind_ok rfl

@[simp] theorem run_peekByte_bind (lim a : ℕ) (f : UInt8 → Probe ε β) :
    (peekByte lim a >>= f).run m = ⟨decide (a < lim) && ((f (m a)).run m).inside,
      ((f (m a)).run m).result, ((f (m a)).run m).memory⟩ := bind_ok rfl

@[simp] theorem run_peek_bind (lim a n : ℕ) (f : List UInt8 → Probe ε β) :
    (peek lim a n >>= f).run m =
      ⟨decide (n = 0 ∨ a + n ≤ lim) && ((f (bytesAt m a n)).run m).inside,
        ((f (bytesAt m a n)).run m).result, ((f (bytesAt m a n)).run m).memory⟩ := bind_ok rfl

@[simp] theorem run_poke_bind (lim a : ℕ) (b : UInt8) (f : Unit → Probe ε β) :
    (poke lim a b >>= f).run m =
      ⟨decide (a < lim) && ((f ()).run (Function.update m a b)).inside,
        ((f ()).run (Function.update m a b)).result,
        ((f ()).run (Function.update m a b)).memory⟩ := bind_ok rfl

theorem run_cases (p : Probe ε α) (m : Memory) :
    (∃ b a m', p.run m = ⟨b, .ok a, m'⟩) ∨ ∃ b e m', p.run m = ⟨b, .error e, m'⟩ := by
  match h : p.run m with
  | ⟨b, .ok a, m'⟩ => exact Or.inl ⟨b, a, m', rfl⟩
  | ⟨b, .error e, m'⟩ => exact Or.inr ⟨b, e, m', rfl⟩

/-! ## Programs that leave the memory alone -/

/-- If the program answers, the memory is what it was. -/
def Keeps (p : Probe ε α) (m : Memory) : Prop :=
  ∀ a, (p.run m).result = .ok a → (p.run m).memory = m

theorem Keeps.bind {p : Probe ε α} {f : α → Probe ε β} (hp : Keeps p m)
    (hf : ∀ a, Keeps (f a) m) : Keeps (p >>= f) m := by
  intro b hb
  rcases run_cases p m with ⟨i, a, m', h⟩ | ⟨i, e, m', h⟩
  · obtain rfl : m = m' := by simpa [h] using (hp a (by rw [h])).symm
    rw [bind_ok h] at hb ⊢
    exact hf a b hb
  · rw [bind_error h] at hb
    cases hb

theorem keeps_of_run {p : Probe ε α} {b : Bool} {r : Except ε α} (h : p.run m = ⟨b, r, m⟩) :
    Keeps p m := fun _ _ => by rw [h]

theorem keeps_pure (a : α) : Keeps (pure a : Probe ε α) m := keeps_of_run rfl

theorem keeps_stop (e : ε) : Keeps (stop e : Probe ε α) m := keeps_of_run rfl

theorem keeps_check (b : Bool) : Keeps (check b : Probe ε Unit) m := keeps_of_run rfl

theorem keeps_peekByte (lim a : ℕ) : Keeps (peekByte lim a : Probe ε UInt8) m := keeps_of_run rfl

theorem keeps_peek (lim a n : ℕ) : Keeps (peek lim a n : Probe ε (List UInt8)) m :=
  keeps_of_run rfl

theorem Keeps.result_bind {p : Probe ε α} {f : α → Probe ε β} (hp : Keeps p m) :
    ((p >>= f).run m).result = (p.run m).result >>= fun a => ((f a).run m).result := by
  rcases run_cases p m with ⟨i, a, m', h⟩ | ⟨i, e, m', h⟩
  · obtain rfl : m = m' := by simpa [h] using (hp a (by rw [h])).symm
    rw [bind_ok h, h]
    rfl
  · rw [bind_error h, h]
    rfl

theorem Keeps.inside_bind {p : Probe ε α} {f : α → Probe ε β} (hp : Keeps p m) :
    ((p >>= f).run m).inside = true ↔ (p.run m).inside = true ∧
      ∀ a, (p.run m).result = .ok a → ((f a).run m).inside = true := by
  rcases run_cases p m with ⟨i, a, m', h⟩ | ⟨i, e, m', h⟩
  · obtain rfl : m = m' := by simpa [h] using (hp a (by rw [h])).symm
    rw [bind_ok h, h]
    simp
  · rw [bind_error h, h]
    simp

/-! ## Programs that stay inside -/

/-- The memories have the same first `n` bytes. -/
def AgreeBelow (n : ℕ) (m m' : Memory) : Prop := ∀ i, i < n → m i = m' i

/-- Where the program stays inside, it depends on the first `n` bytes only. -/
def Local (n : ℕ) (p : Probe ε α) : Prop :=
  ∀ m m', AgreeBelow n m m' → (p.run m).inside = true → (p.run m').inside = true ∧
    (p.run m').result = (p.run m).result ∧ AgreeBelow n (p.run m).memory (p.run m').memory

section Local

variable {n lim : ℕ}

theorem Local.bind {p : Probe ε α} {f : α → Probe ε β} (hp : Local n p) (hf : ∀ a, Local n (f a)) :
    Local n (p >>= f) := by
  intro m m' hm hin
  rcases run_cases p m with ⟨b, a, m₁, h⟩ | ⟨b, e, m₁, h⟩
  · rw [bind_ok h, Bool.and_eq_true] at hin
    obtain ⟨h₁, h₂, h₃⟩ := hp m m' hm (by rw [h]; exact hin.1)
    rw [h] at h₂ h₃
    dsimp only at h₂ h₃
    have h' : p.run m' = ⟨(p.run m').inside, .ok a, (p.run m').memory⟩ := by rw [← h₂]
    obtain ⟨h₄, h₅, h₆⟩ := hf a m₁ (p.run m').memory h₃ hin.2
    rw [bind_ok h, bind_ok h']
    exact ⟨by rw [h₁, h₄]; rfl, h₅, h₆⟩
  · rw [bind_error h] at hin
    obtain ⟨h₁, h₂, h₃⟩ := hp m m' hm (by rw [h]; exact hin)
    rw [h] at h₂ h₃
    dsimp only at h₂ h₃
    have h' : p.run m' = ⟨(p.run m').inside, .error e, (p.run m').memory⟩ := by rw [← h₂]
    rw [bind_error h, bind_error h']
    exact ⟨h₁, rfl, h₃⟩

theorem local_pure (a : α) : Local n (pure a : Probe ε α) := fun _ _ hm _ => ⟨rfl, rfl, hm⟩

theorem local_stop (e : ε) : Local n (stop e : Probe ε α) := fun _ _ hm _ => ⟨rfl, rfl, hm⟩

theorem local_check (b : Bool) : Local n (check b : Probe ε Unit) := fun _ _ hm h => ⟨h, rfl, hm⟩

theorem local_peekByte (hlim : lim ≤ n) (a : ℕ) : Local n (peekByte lim a : Probe ε UInt8) := by
  intro m m' hm h
  have ha : a < lim := of_decide_eq_true h
  exact ⟨h, congrArg Except.ok (hm a (by omega)).symm, hm⟩

theorem local_peek (hlim : lim ≤ n) (a k : ℕ) :
    Local n (peek lim a k : Probe ε (List UInt8)) := by
  intro m m' hm h
  have ha : k = 0 ∨ a + k ≤ lim := of_decide_eq_true h
  exact ⟨h, congrArg Except.ok (bytesAt_congr fun i _ hi => (hm i (by omega)).symm), hm⟩

theorem local_poke (a : ℕ) (b : UInt8) : Local n (poke lim a b : Probe ε Unit) := by
  intro m m' hm h
  refine ⟨h, rfl, fun i hi => ?_⟩
  change Function.update m a b i = Function.update m' a b i
  by_cases hia : i = a
  · rw [hia, Function.update_self, Function.update_self]
  · rw [Function.update_of_ne hia, Function.update_of_ne hia, hm i hi]

end Local

/-! ## Fuel -/

/-- `q` does what `p` does, unless `p` is stopped for the reason `e`. -/
def Refines (e : ε) (p q : Probe ε α) : Prop :=
  ∀ m, (p.run m).result = .error e ∨ p.run m = q.run m

variable {e : ε}

theorem Refines.refl (p : Probe ε α) : Refines e p p := fun _ => Or.inr rfl

theorem Refines.trans {p q r : Probe ε α} (h₁ : Refines e p q) (h₂ : Refines e q r) :
    Refines e p r := by
  intro m
  rcases h₁ m with h | h
  · exact Or.inl h
  · rw [h]
    exact h₂ m

theorem Refines.stop (q : Probe ε α) : Refines e (Probe.stop e) q := fun _ => Or.inl rfl

theorem Refines.bind {p q : Probe ε α} {f g : α → Probe ε β} (h : Refines e p q)
    (hf : ∀ a, Refines e (f a) (g a)) : Refines e (p >>= f) (q >>= g) := by
  intro m
  rcases run_cases p m with ⟨b, a, m', hp⟩ | ⟨b, e', m', hp⟩
  · have hq : q.run m = ⟨b, .ok a, m'⟩ := by
      rcases h m with h | h
      · rw [hp] at h
        cases h
      · rw [← h, hp]
    rw [bind_ok hp, bind_ok hq]
    rcases hf a m' with h₂ | h₂
    · exact Or.inl h₂
    · exact Or.inr (by rw [h₂])
  · rw [bind_error hp]
    rcases h m with h | h
    · rw [hp] at h
      cases h
      exact Or.inl rfl
    · exact Or.inr (by rw [bind_error (h ▸ hp)])

/-- **More fuel** keeps every answer of a program that takes it step by step. -/
theorem refines_of_le {f : ℕ → Probe ε α} (step : ∀ n, Refines e (f n) (f (n + 1))) {n k : ℕ}
    (h : n ≤ k) : Refines e (f n) (f k) := by
  induction h with
  | refl => exact Refines.refl _
  | step _ ih => exact ih.trans (step _)

theorem Refines.eq {p q : Probe ε α} (h : Refines e p q) (hp : (p.run m).result ≠ .error e) :
    q.run m = p.run m := by
  rcases h m with h | h
  · exact absurd h hp
  · exact h.symm

end Probe

end Catalina
