import Mathlib.Data.List.AList
import Mathlib.Logic.Function.Basic
import Catalina.Host

/-!
# The database library

`tdb` is outside the repository. A `Tdb` is the records of every file and the handle that is open.
A transaction is an overlay over the records of the open file, seen by fetches on the same handle;
starting another one inside it only counts a nesting level.

* `view f`: the records that file `f` shows to the process.
* What each call does to `view`: `view_store`, `view_transactionStart`,
  `view_transactionCommit_true` and the others.
-/

namespace Catalina

/-- The records of one file. -/
abbrev Records := AList fun _ : Bytes => Bytes

/-- `TDB_CONTEXT`: an open file and, inside a transaction, the overlay and its nesting counter. -/
structure TdbContext where
  file : Bytes
  overlay : Option (Records × ℕ) := none

structure Tdb where
  disk : Bytes → Records
  ctx : Option TdbContext := none

namespace Tdb

/-- The records that file `f` shows. -/
def view (d : Tdb) (f : Bytes) : Records :=
  match d.ctx with
  | some ⟨g, some (r, _)⟩ => if f = g then r else d.disk f
  | _ => d.disk f

/-- No transaction is open. -/
def Settled (d : Tdb) : Prop := ∀ c, d.ctx = some c → c.overlay = none

/-- A transaction is open. -/
def InTxn (d : Tdb) : Prop := ∃ f r n, d.ctx = some ⟨f, some (r, n)⟩

/-- `open` with `O_TRUNC`: the file is empty. -/
def truncated (d : Tdb) (f : Bytes) : Tdb := { d with disk := Function.update d.disk f ∅ }

/-- The end of `tdb_open`, when it succeeds. -/
def opened (d : Tdb) (f : Bytes) : Tdb := { d with ctx := some { file := f } }

/-- `tdb_close`, when it succeeds: an open transaction is cancelled. -/
def closed (d : Tdb) : Tdb := { d with ctx := none }

/-- `tdb_fetch`. -/
def fetch (d : Tdb) (key : Bytes) : Option Bytes :=
  match d.ctx with
  | none => none
  | some c => (d.view c.file).lookup key

/-- The number of records `tdb_traverse` visits. -/
def count (d : Tdb) : ℕ :=
  match d.ctx with
  | none => 0
  | some c => (d.view c.file).entries.length

/-- `tdb_store` with `TDB_REPLACE`, when it succeeds. -/
def store (d : Tdb) (key value : Bytes) : Tdb :=
  match d.ctx with
  | none => d
  | some ⟨f, none⟩ => { d with disk := Function.update d.disk f ((d.disk f).insert key value) }
  | some ⟨f, some (r, n)⟩ => { d with ctx := some ⟨f, some (r.insert key value, n)⟩ }

/-- `tdb_transaction_start`, when it succeeds. -/
def transactionStart (d : Tdb) : Tdb :=
  match d.ctx with
  | none => d
  | some ⟨f, none⟩ => { d with ctx := some ⟨f, some (d.disk f, 0)⟩ }
  | some ⟨f, some (r, n)⟩ => { d with ctx := some ⟨f, some (r, n + 1)⟩ }

/-- `tdb_transaction_commit`: a nested one only counts down, a failing one discards the overlay. -/
def transactionCommit (d : Tdb) (ok : Bool) : Tdb :=
  match d.ctx, ok with
  | some ⟨f, some (_, _)⟩, false => { d with ctx := some ⟨f, none⟩ }
  | some ⟨f, some (r, 0)⟩, true =>
    { disk := Function.update d.disk f r, ctx := some ⟨f, none⟩ }
  | some ⟨f, some (r, n + 1)⟩, true => { d with ctx := some ⟨f, some (r, n)⟩ }
  | _, _ => d

/-- `tdb_transaction_recover` replays the journal of a crash; an open transaction stays open. -/
def transactionRecover (d : Tdb) : Tdb := d

/-- The file of the open handle. -/
def file (d : Tdb) : Option Bytes := d.ctx.map TdbContext.file

@[simp] theorem file_store (d : Tdb) (k v : Bytes) : (d.store k v).file = d.file := by
  unfold store file; split <;> simp_all

@[simp] theorem file_transactionStart (d : Tdb) : d.transactionStart.file = d.file := by
  unfold transactionStart file; split <;> simp_all

@[simp] theorem file_transactionCommit (d : Tdb) (ok : Bool) :
    (d.transactionCommit ok).file = d.file := by
  unfold transactionCommit file; split <;> simp_all

@[simp] theorem transactionRecover_eq (d : Tdb) : d.transactionRecover = d := rfl

theorem file_of_ctx {d : Tdb} {c : TdbContext} (hc : d.ctx = some c) : d.file = some c.file := by
  rw [file, hc]
  rfl

theorem ctx_ne_none_iff {d : Tdb} : d.ctx ≠ none ↔ ∃ f, d.file = some f := by
  rw [file, Option.ne_none_iff_exists']
  constructor
  · exact fun ⟨c, hc⟩ => ⟨c.file, file_of_ctx hc⟩
  · rintro ⟨f, hf⟩
    obtain ⟨c, hc, _⟩ := Option.map_eq_some_iff.mp hf
    exact ⟨c, hc⟩

theorem isSome_ctx_of_file {d e : Tdb} (h : d.file = e.file) :
    d.ctx.isSome = e.ctx.isSome := by
  simpa [file] using congrArg Option.isSome h

theorem fetch_eq {d : Tdb} {f : Bytes} (hf : d.file = some f) (k : Bytes) :
    d.fetch k = (d.view f).lookup k := by
  obtain ⟨c, hc, rfl⟩ := Option.map_eq_some_iff.mp hf
  simp [fetch, hc]

theorem count_eq {d : Tdb} {f : Bytes} (hf : d.file = some f) :
    d.count = (d.view f).entries.length := by
  obtain ⟨c, hc, rfl⟩ := Option.map_eq_some_iff.mp hf
  simp [count, hc]

theorem view_of_settled {d : Tdb} (hd : d.Settled) (f : Bytes) : d.view f = d.disk f := by
  unfold view
  split
  · next g r n hc => exact absurd (hd _ hc) (by simp)
  · rfl

theorem view_store_self {d : Tdb} {f : Bytes} (hf : d.file = some f) (k v : Bytes) :
    (d.store k v).view f = (d.view f).insert k v := by
  obtain ⟨⟨g, o⟩, hc, rfl⟩ := Option.map_eq_some_iff.mp hf
  cases o <;> simp [store, view, hc]

theorem view_store_of_ne {d : Tdb} {f : Bytes} (hf : d.file ≠ some f) (k v : Bytes) :
    (d.store k v).view f = d.view f := by
  cases hc : d.ctx with
  | none => simp [store, hc]
  | some c =>
    obtain ⟨g, o⟩ := c
    have hg : f ≠ g := fun e => hf (by rw [file, hc, e]; rfl)
    cases o <;> simp [store, view, hc, hg]

theorem view_store (d : Tdb) (k v f : Bytes) :
    (d.store k v).view f = if d.file = some f then (d.view f).insert k v else d.view f := by
  split_ifs with hf
  · exact view_store_self hf k v
  · exact view_store_of_ne hf k v

theorem lookup_view_store (d : Tdb) (f k v l : Bytes) (hl : l ≠ k) :
    ((d.store k v).view f).lookup l = (d.view f).lookup l := by
  by_cases hf : d.file = some f
  · rw [view_store_self hf, AList.lookup_insert_ne hl]
  · rw [view_store_of_ne hf]

@[simp] theorem view_transactionStart (d : Tdb) (f : Bytes) :
    d.transactionStart.view f = d.view f := by
  unfold transactionStart
  split
  · rfl
  · next g hc => by_cases hf : f = g <;> simp [view, hc, hf]
  · next g r n hc => simp [view, hc]

theorem view_transactionCommit_true (d : Tdb) (f : Bytes) :
    (d.transactionCommit true).view f = d.view f := by
  cases hc : d.ctx with
  | none => simp [transactionCommit, hc]
  | some c =>
    obtain ⟨g, _ | ⟨r, _ | n⟩⟩ := c
    · simp [transactionCommit, hc]
    · by_cases hf : f = g <;> simp [transactionCommit, view, hc, hf]
    · simp [transactionCommit, view, hc]

theorem view_transactionCommit_false {d : Tdb} (hd : d.InTxn) (f : Bytes) :
    (d.transactionCommit false).view f = d.disk f := by
  obtain ⟨g, r, n, hc⟩ := hd
  simp [transactionCommit, view, hc]

theorem store_disk_of_overlay {d : Tdb} {f : Bytes} {r : Records} {n : ℕ}
    (hc : d.ctx = some ⟨f, some (r, n)⟩) (k v : Bytes) :
    (d.store k v).ctx = some ⟨f, some (r.insert k v, n)⟩ ∧ (d.store k v).disk = d.disk := by
  simp [store, hc]

theorem InTxn.store {d : Tdb} (hd : d.InTxn) (k v : Bytes) : (d.store k v).InTxn := by
  obtain ⟨f, r, n, hc⟩ := hd
  exact ⟨f, r.insert k v, n, (store_disk_of_overlay hc k v).1⟩

theorem InTxn.disk_store {d : Tdb} (hd : d.InTxn) (k v : Bytes) :
    (d.store k v).disk = d.disk := by
  obtain ⟨f, r, n, hc⟩ := hd
  exact (store_disk_of_overlay hc k v).2

theorem disk_transactionStart (d : Tdb) : d.transactionStart.disk = d.disk := by
  unfold transactionStart
  split <;> rfl

theorem InTxn.not_settled {d : Tdb} (hd : d.InTxn) : ¬ d.Settled := by
  obtain ⟨f, r, n, hc⟩ := hd
  exact fun hs => Option.some_ne_none _ (hs _ hc)

theorem inTxn_transactionStart {d : Tdb} (hc : d.ctx ≠ none) : d.transactionStart.InTxn := by
  obtain ⟨⟨f, _ | ⟨r, n⟩⟩, hc⟩ := Option.ne_none_iff_exists'.mp hc
  · exact ⟨f, d.disk f, 0, by rw [transactionStart, hc]⟩
  · exact ⟨f, r, n + 1, by rw [transactionStart, hc]⟩

theorem transactionStart_of_settled {d : Tdb} {f : Bytes} (hd : d.Settled) (hf : d.file = some f) :
    d.transactionStart = { disk := d.disk, ctx := some ⟨f, some (d.disk f, 0)⟩ } := by
  obtain ⟨⟨g, o⟩, hc, rfl⟩ := Option.map_eq_some_iff.mp hf
  obtain rfl : o = none := hd _ hc
  simp [transactionStart, hc]

theorem transactionCommit_outermost {d : Tdb} {f : Bytes} {r : Records}
    (hc : d.ctx = some ⟨f, some (r, 0)⟩) (ok : Bool) :
    d.transactionCommit ok =
      { disk := if ok then Function.update d.disk f r else d.disk, ctx := some ⟨f, none⟩ } := by
  cases ok <;> simp [transactionCommit, hc]

theorem settled_store {d : Tdb} (hd : d.Settled) (k v : Bytes) : (d.store k v).Settled := by
  intro c hc
  cases h : d.ctx with
  | none => rw [store, h] at hc; exact hd c (h ▸ hc)
  | some e =>
    obtain ⟨g, o⟩ := e
    obtain rfl : o = none := hd _ h
    simp only [store, h] at hc
    exact hd c (h ▸ hc)

theorem settled_opened (d : Tdb) (f : Bytes) : (d.opened f).Settled := by
  rintro c ⟨⟩
  rfl

theorem settled_of_closed {d : Tdb} (hc : d.ctx = none) : d.Settled := fun c hc' => by
  rw [hc] at hc'
  cases hc'

theorem view_opened {d : Tdb} (hc : d.ctx = none) (f g : Bytes) : (d.opened f).view g = d.view g := by
  rw [view_of_settled (settled_opened d f), view_of_settled (settled_of_closed hc)]
  rfl

theorem truncated_of_empty {d : Tdb} {f : Bytes} (hf : d.disk f = ∅) : d.truncated f = d := by
  rw [truncated, ← hf, Function.update_eq_self]

theorem view_truncated {d : Tdb} (hc : d.ctx = none) (f g : Bytes) :
    (d.truncated f).view g = if g = f then ∅ else d.view g := by
  rw [view_of_settled (d := d.truncated f) (settled_of_closed hc),
    view_of_settled (settled_of_closed hc)]
  exact Function.update_apply d.disk f ∅ g

theorem settled_closed (d : Tdb) : d.closed.Settled := by
  rintro c ⟨⟩

end Tdb

end Catalina
