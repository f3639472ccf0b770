import Mathlib.Data.Nat.Notation

/-!
# Functions with fuel

A function that is given fuel stops with an error `e` when it runs out of it.

* `Continues e a b`: the outcome `b` is `a`, unless `a` has run out of fuel.
* `Continues.bind`: sequences; **`continues_of_le`**: more fuel keeps every other outcome.
-/

namespace Catalina

variable {ε α β : Type} {e : ε}

/-- The outcome `b` is `a`, unless `a` is the error `e`. -/
def Continues (e : ε) (a b : Except ε α) : Prop := a = .error e ∨ a = b

namespace Continues

theorem refl (a : Except ε α) : Continues e a a := Or.inr rfl

theorem out (b : Except ε α) : Continues e (.error e) b := Or.inl rfl

theorem trans {a b c : Except ε α} (h₁ : Continues e a b) (h₂ : Continues e b c) :
    Continues e a c := by
  rcases h₁ with h | h
  · exact Or.inl h
  · exact h ▸ h₂

theorem bind {a b : Except ε α} {f g : α → Except ε β} (h : Continues e a b)
    (hf : ∀ x, Continues e (f x) (g x)) : Continues e (a >>= f) (b >>= g) := by
  rcases h with rfl | rfl
  · exact Or.inl rfl
  · cases a with
    | error e' => exact Or.inr rfl
    | ok x => exact hf x

theorem eq {a b : Except ε α} (h : Continues e a b) (ha : a ≠ .error e) : b = a :=
  (h.resolve_left ha).symm

end Continues

/-- **More fuel** keeps every outcome but the error `e`. -/
theorem continues_of_le {f : ℕ → Except ε α} (step : ∀ n, Continues e (f n) (f (n + 1))) {n k : ℕ}
    (h : n ≤ k) : Continues e (f n) (f k) := by
  induction h with
  | refl => exact Continues.refl _
  | step _ ih => exact ih.trans (step _)

end Catalina
