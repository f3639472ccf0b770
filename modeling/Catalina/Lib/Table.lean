import Mathlib.Data.List.Nodup
import Mathlib.Data.List.Perm.Basic

/-!
# Tables of rows that carry their own key

A `Table key` is a list of rows no two of which have the same `key`. The key is a function of the
row, as in a hash table whose key pointer points into the value it leads to.

* `find`, `erase`, `insert`, `modify`, each with what `find` sees afterwards;
* `rows_perm`, `rows_modify_perm`: the row under a key, and the rest of the table.
-/

namespace Catalina

/-- Rows with pairwise different keys. -/
structure Table {α κ : Type} (key : α → κ) where
  rows : List α
  nodup : (rows.map key).Nodup

namespace Table

variable {α κ : Type} {key : α → κ}

@[ext] theorem ext {T U : Table key} (h : T.rows = U.rows) : T = U := by
  cases T; cases U; cases h; rfl

instance : EmptyCollection (Table key) := ⟨⟨[], List.nodup_nil⟩⟩

@[simp] theorem rows_empty : (∅ : Table key).rows = [] := rfl

theorem eq_of_key (T : Table key) {a b : α} (ha : a ∈ T.rows) (hb : b ∈ T.rows)
    (h : key a = key b) : a = b :=
  List.inj_on_of_nodup_map T.nodup ha hb h

variable [DecidableEq κ]

/-- The row under a key. -/
def find (T : Table key) (k : κ) : Option α := T.rows.find? fun a => key a = k

/-- The table without the row under a key. -/
def erase (T : Table key) (k : κ) : Table key where
  rows := T.rows.filter fun a => key a ≠ k
  nodup := T.nodup.sublist (List.filter_sublist.map key)

/-- Insert a row, in place of the row that has its key. -/
def insert (T : Table key) (a : α) : Table key where
  rows := a :: (T.erase (key a)).rows
  nodup := by
    rw [List.map_cons, List.nodup_cons]
    refine ⟨fun h => ?_, (T.erase (key a)).nodup⟩
    obtain ⟨b, hb, e⟩ := List.mem_map.mp h
    have := (List.mem_filter.mp hb).2
    simp [e] at this

/-- Change the row under a key, not its key. -/
def modify (T : Table key) (k : κ) (f : α → α) (hf : ∀ a, key (f a) = key a) : Table key where
  rows := T.rows.map fun a => if key a = k then f a else a
  nodup := by
    rw [List.map_map]
    have : (key ∘ fun a => if key a = k then f a else a) = key := by
      funext a
      by_cases h : key a = k
      · simp [h, hf a]
      · simp [h]
    rw [this]
    exact T.nodup

theorem find_eq_some {T : Table key} {k : κ} {a : α} :
    T.find k = some a ↔ a ∈ T.rows ∧ key a = k := by
  constructor
  · intro h
    exact ⟨List.mem_of_find?_eq_some h, by simpa using List.find?_some h⟩
  · rintro ⟨ha, hk⟩
    cases h : T.find k with
    | none => exact absurd hk (by simpa using List.find?_eq_none.mp h a ha)
    | some b =>
      have hb : b ∈ T.rows := List.mem_of_find?_eq_some h
      have hbk : key b = k := by simpa using List.find?_some h
      rw [T.eq_of_key ha hb (hk.trans hbk.symm)]

theorem find_eq_none {T : Table key} {k : κ} : T.find k = none ↔ ∀ a ∈ T.rows, key a ≠ k := by
  simp [find]

@[simp] theorem find_empty (k : κ) : (∅ : Table key).find k = none := rfl

theorem mem_erase {T : Table key} {k : κ} {a : α} :
    a ∈ (T.erase k).rows ↔ a ∈ T.rows ∧ key a ≠ k := by
  simp [erase]

theorem mem_insert {T : Table key} {a b : α} :
    b ∈ (T.insert a).rows ↔ b = a ∨ b ∈ T.rows ∧ key b ≠ key a := by
  simp [insert, mem_erase]

theorem mem_modify {T : Table key} {k : κ} {f : α → α} (hf : ∀ a, key (f a) = key a) {b : α} :
    b ∈ (T.modify k f hf).rows ↔
      (b ∈ T.rows ∧ key b ≠ k) ∨ ∃ a ∈ T.rows, key a = k ∧ f a = b := by
  simp only [modify, List.mem_map]
  constructor
  · rintro ⟨a, ha, rfl⟩
    by_cases h : key a = k
    · exact Or.inr ⟨a, ha, h, by rw [if_pos h]⟩
    · exact Or.inl ⟨by rwa [if_neg h], by rwa [if_neg h]⟩
  · rintro (⟨hb, hk⟩ | ⟨a, ha, hk, rfl⟩)
    · exact ⟨b, hb, if_neg hk⟩
    · exact ⟨a, ha, if_pos hk⟩

@[simp] theorem find_erase_self (T : Table key) (k : κ) : (T.erase k).find k = none := by
  rw [find_eq_none]
  exact fun a ha => (mem_erase.mp ha).2

theorem find_erase_of_ne (T : Table key) {k l : κ} (h : l ≠ k) :
    (T.erase k).find l = T.find l := by
  ext a
  rw [find_eq_some, find_eq_some, mem_erase]
  exact ⟨fun ⟨⟨ha, _⟩, hl⟩ => ⟨ha, hl⟩, fun ⟨ha, hl⟩ => ⟨⟨ha, by rwa [hl]⟩, hl⟩⟩

theorem find_insert (T : Table key) (a : α) (k : κ) :
    (T.insert a).find k = if key a = k then some a else T.find k := by
  by_cases h : key a = k
  · rw [if_pos h, find_eq_some]
    exact ⟨mem_insert.mpr (Or.inl rfl), h⟩
  · rw [if_neg h]
    ext b
    rw [find_eq_some, find_eq_some, mem_insert]
    constructor
    · rintro ⟨rfl | ⟨hb, _⟩, hk⟩
      · exact absurd hk h
      · exact ⟨hb, hk⟩
    · rintro ⟨hb, hk⟩
      exact ⟨Or.inr ⟨hb, fun e => h (e.symm.trans hk)⟩, hk⟩

theorem find_modify (T : Table key) (k l : κ) (f : α → α) (hf : ∀ a, key (f a) = key a) :
    (T.modify k f hf).find l = if l = k then (T.find k).map f else T.find l := by
  by_cases h : l = k
  · subst h
    rw [if_pos rfl]
    ext b
    rw [find_eq_some, mem_modify hf, Option.map_eq_some_iff]
    constructor
    · rintro ⟨⟨_, hk⟩ | ⟨a, ha, hk, e⟩, hb⟩
      · exact absurd hb hk
      · exact ⟨a, find_eq_some.mpr ⟨ha, hk⟩, e⟩
    · rintro ⟨a, ha, rfl⟩
      obtain ⟨ha, hk⟩ := find_eq_some.mp ha
      exact ⟨Or.inr ⟨a, ha, hk, rfl⟩, (hf a).trans hk⟩
  · rw [if_neg h]
    ext b
    rw [find_eq_some, find_eq_some, mem_modify hf]
    constructor
    · rintro ⟨⟨hb, _⟩ | ⟨a, _, hk, rfl⟩, hl⟩
      · exact ⟨hb, hl⟩
      · exact absurd (hl.symm.trans ((hf a).trans hk)) h
    · rintro ⟨hb, hl⟩
      exact ⟨Or.inl ⟨hb, fun e => h (hl.symm.trans e)⟩, hl⟩

theorem modify_of_fixed {T : Table key} {k : κ} {f : α → α} (hf : ∀ a, key (f a) = key a)
    (h : ∀ a, T.find k = some a → f a = a) : T.modify k f hf = T := by
  refine Table.ext ?_
  simp only [modify]
  conv_rhs => rw [← List.map_id T.rows]
  refine List.map_congr_left fun a ha => ?_
  split_ifs with hk
  · exact h a (find_eq_some.mpr ⟨ha, hk⟩)
  · rfl

theorem modify_of_find_none {T : Table key} {k : κ} (h : T.find k = none) (f : α → α)
    (hf : ∀ a, key (f a) = key a) : T.modify k f hf = T :=
  modify_of_fixed hf fun a ha => by rw [h] at ha; cases ha

theorem erase_of_find_none {T : Table key} {k : κ} (h : T.find k = none) : T.erase k = T := by
  refine Table.ext (List.filter_eq_self.mpr fun a ha => ?_)
  simpa using find_eq_none.mp h a ha

/-- **The row under a key, and the rest.** -/
theorem rows_perm {T : Table key} {k : κ} {a : α} (h : T.find k = some a) :
    T.rows.Perm (a :: (T.erase k).rows) := by
  obtain ⟨ha, hk⟩ := find_eq_some.mp h
  have hd : T.rows.Nodup := T.nodup.of_map
  refine (List.perm_ext_iff_of_nodup hd ?_).mpr fun b => ?_
  · rw [List.nodup_cons]
    exact ⟨fun hm => (mem_erase.mp hm).2 hk, (T.erase k).nodup.of_map⟩
  · rw [List.mem_cons, mem_erase]
    constructor
    · intro hb
      by_cases hbk : key b = k
      · exact Or.inl (T.eq_of_key hb ha (hbk.trans hk.symm))
      · exact Or.inr ⟨hb, hbk⟩
    · rintro (rfl | ⟨hb, _⟩)
      · exact ha
      · exact hb

theorem erase_modify (T : Table key) (k : κ) (f : α → α) (hf : ∀ a, key (f a) = key a) :
    (T.modify k f hf).erase k = T.erase k := by
  refine Table.ext ?_
  simp only [erase, modify]
  induction T.rows with
  | nil => rfl
  | cons a l ih =>
    by_cases h : key a = k
    · simpa [h, hf a] using ih
    · simpa [h] using ih

/-- **Changing the row under a key leaves the rest.** -/
theorem rows_modify_perm {T : Table key} {k : κ} {a : α} (h : T.find k = some a) (f : α → α)
    (hf : ∀ a, key (f a) = key a) : (T.modify k f hf).rows.Perm (f a :: (T.erase k).rows) := by
  have h' : (T.modify k f hf).find k = some (f a) := by rw [find_modify, if_pos rfl, h]; rfl
  rw [← erase_modify T k f hf]
  exact rows_perm h'

end Table

end Catalina
