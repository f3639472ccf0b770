import Mathlib.Data.List.AList
import Mathlib.Data.List.Forall2

/-!
# Maps that differ in their values

`SameKeys R m m'`: two finite maps have the same keys, in the same order, and under each of them values
that `R` relates. Both then answer a lookup alike, and have as many entries; an insertion of related
values keeps it.
-/

namespace Catalina

variable {κ α β : Type} {R : α → β → Prop}

/-- The same key, and related values. -/
def SameEntry (R : α → β → Prop) (p : Sigma fun _ : κ => α) (q : Sigma fun _ : κ => β) : Prop :=
  p.1 = q.1 ∧ R p.2 q.2

/-- The same keys in the same order, and related values under each of them. -/
def SameKeys (R : α → β → Prop) (m : AList fun _ : κ => α) (m' : AList fun _ : κ => β) : Prop :=
  List.Forall₂ (SameEntry R) m.entries m'.entries

variable {l : List (Sigma fun _ : κ => α)} {l' : List (Sigma fun _ : κ => β)}
  {m : AList fun _ : κ => α} {m' : AList fun _ : κ => β}

theorem sameKeys_empty : SameKeys R (∅ : AList fun _ : κ => α) (∅ : AList fun _ : κ => β) :=
  List.Forall₂.nil

theorem SameKeys.length (h : SameKeys R m m') : m.entries.length = m'.entries.length :=
  List.Forall₂.length_eq h

section Keys

variable [DecidableEq κ]

theorem dlookup_rel (h : List.Forall₂ (SameEntry R) l l') (k : κ) :
    Option.Rel R (l.dlookup k) (l'.dlookup k) := by
  induction h with
  | nil => exact Option.Rel.none
  | @cons p q _ _ hpq _ ih =>
    obtain ⟨i, x⟩ := p
    obtain ⟨j, y⟩ := q
    obtain ⟨rfl, hxy⟩ : i = j ∧ R x y := hpq
    by_cases hk : k = i
    · rw [hk, List.dlookup_cons_eq, List.dlookup_cons_eq]
      exact Option.Rel.some hxy
    · rw [List.dlookup_cons_ne _ _ hk, List.dlookup_cons_ne _ _ hk]
      exact ih

theorem kerase_rel (h : List.Forall₂ (SameEntry R) l l') (k : κ) :
    List.Forall₂ (SameEntry R) (l.kerase k) (l'.kerase k) := by
  induction h with
  | nil => exact List.Forall₂.nil
  | @cons p q _ _ hpq hl ih =>
    obtain ⟨i, x⟩ := p
    obtain ⟨j, y⟩ := q
    obtain ⟨rfl, hxy⟩ : i = j ∧ R x y := hpq
    by_cases hk : k = i
    · rw [List.kerase_cons_eq hk, List.kerase_cons_eq hk]
      exact hl
    · rw [List.kerase_cons_ne hk, List.kerase_cons_ne hk]
      exact List.Forall₂.cons ⟨rfl, hxy⟩ ih

/-- **A lookup** finds related values in both maps, or none in both. -/
theorem SameKeys.lookup (h : SameKeys R m m') (k : κ) : Option.Rel R (m.lookup k) (m'.lookup k) :=
  dlookup_rel h k

theorem SameKeys.insert (h : SameKeys R m m') (k : κ) {x : α} {y : β} (hxy : R x y) :
    SameKeys R (m.insert k x) (m'.insert k y) :=
  List.Forall₂.cons ⟨rfl, hxy⟩ (kerase_rel h k)

end Keys

end Catalina
