import Mathlib.Data.Fintype.Card
import Mathlib.Logic.Relation

/-!
# Graphs without cycles

A recursion along the edges of a graph.

* `AcyclicFrom`: no cycle can be reached from a point.
* **`AcyclicFrom.acc`**: in a finite graph the recursion from such a point is well-founded.
* **`not_of_cycle`**: a predicate whose measure drops along every edge holds nowhere on a cycle;
  `not_of_reaches`: nor anywhere in front of one.
-/

namespace Catalina

open Relation

variable {α : Type} {r : α → α → Prop}

/-- No point that can be reached from `x` can be reached from itself. -/
def AcyclicFrom (r : α → α → Prop) (x : α) : Prop :=
  ∀ y, ReflTransGen r x y → ¬ TransGen r y y

/-- **Without a cycle the recursion ends**, if the graph is finite. -/
theorem AcyclicFrom.acc [Finite α] {x : α} (h : AcyclicFrom r x) : Acc (fun y x => r x y) x := by
  -- the part of the graph that `x` reaches is ordered
  let below : α → α → Prop := fun z y => ReflTransGen r x y ∧ TransGen r y z
  have : IsTrans α below := ⟨fun _ _ _ h₁ h₂ => ⟨h₂.1, h₂.2.trans h₁.2⟩⟩
  have : Std.Irrefl below := ⟨fun y hy => h y hy.1 hy.2⟩
  have hwf : WellFounded below := Finite.wellFounded_of_trans_of_irrefl below
  have key : ∀ y, ReflTransGen r x y → Acc (fun y x => r x y) y := fun y => by
    induction y using hwf.induction with
    | _ y ih =>
      intro hy
      exact Acc.intro y fun z hz => ih z ⟨hy, .single hz⟩ (hy.tail hz)
  exact key x .refl

section Descent

variable {p : ℕ → α → Prop} (step : ∀ n x y, p n x → r x y → ∃ k, k < n ∧ p k y)

include step

theorem descend {x y : α} (h : TransGen r x y) {n : ℕ} (hn : p n x) : ∃ k, k < n ∧ p k y := by
  induction h with
  | single h => exact step n x _ hn h
  | tail _ h ih =>
    obtain ⟨k, hk, hp⟩ := ih
    obtain ⟨k', hk', hp'⟩ := step k _ _ hp h
    exact ⟨k', by omega, hp'⟩

/-- **There is no endless descent** around a cycle. -/
theorem not_of_cycle {x : α} (h : TransGen r x x) (n : ℕ) : ¬ p n x := by
  induction n using Nat.strong_induction_on with
  | _ n ih =>
    intro hn
    obtain ⟨k, hk, hp⟩ := descend step h hn
    exact ih k hk hp

theorem not_of_reaches {x y : α} (hxy : ReflTransGen r x y) (h : TransGen r y y) (n : ℕ) :
    ¬ p n x := by
  intro hn
  rcases reflTransGen_iff_eq_or_transGen.mp hxy with rfl | hxy
  · exact not_of_cycle step h n hn
  · obtain ⟨k, _, hp⟩ := descend step hxy hn
    exact not_of_cycle step h k hp

end Descent

end Catalina
