import Catalina.Formatter.Read
import Catalina.Storage.Sync

/-!
# Values in a storage

The calls that store and read a `GValue` through the formatter of the storage.

* `Formatter`: the interface `CatalinaFormatter`; `binaryFormatter`: its implementation.
* `Heap`: where a block with given bytes stands.
* `catalinaStorageSetValue`, `catalinaStorageSetValueAsync`, `catalinaStorageGetValue`.
-/

namespace Catalina

/-- `CatalinaFormatterIface`: a serialization answers `FALSE` with an error or `TRUE` with a buffer; a
deserialization is given the memory in which the buffer stands, at address `0`, and its length. -/
structure Formatter (ω : Type) where
  serialize : GValue ω → Except Stop (Except (Option GError) Bytes)
  deserialize : Memory → ℕ → Except Stop ReadResult

/-- `CatalinaBinaryFormatter`. -/
def binaryFormatter (P : Process) {ω : Type} (w : World P.types ω) (entry : List ℕ → ℕ)
    (fuel : ℕ) : Formatter ω where
  serialize v := (realSerialize P w entry fuel v).map .ok
  deserialize m bufferLength := ((realDeserialize P fuel bufferLength).run m).result

/-- Where the blocks stand: for each content the memory with the block at address `0`. -/
structure Heap where
  block : Bytes → Memory
  stored : ∀ bs, Stored (block bs) 0 bs

/-- A heap with nothing behind its blocks. -/
def plainHeap : Heap := ⟨memoryOf, stored_memoryOf⟩

variable {ω : Type} {h : Host} (formatter : Option (Formatter ω)) (env : Env) (s : Storage h)

/-- `catalina_storage_set_value`. -/
def catalinaStorageSetValue (id txnId : ℕ) (key : Bytes) (keyLength : ℤ) (v : GValue ω) :
    Except Stop (Storage h × CallResult Unit) :=
  if keyLength = -1 ∨ 0 < keyLength then
    match formatter with
    | none => .ok (s, .failed (some ⟨.storageState,
        "Instance missing formatter for deserialization"⟩))
    | some f => do
      match ← f.serialize v with
      | .error e => return (s, .failed e)
      | .ok buffer =>
        return catalinaStorageSet env s id txnId key keyLength buffer buffer.length
  else .ok (s, .refused)

/-- `catalina_storage_get_value`: what the caller is told, with the caller's value. A call that
refuses its arguments answers `FALSE` and nothing else. -/
def catalinaStorageGetValue (heap : Heap) (id : ℕ) (key : Bytes) (keyLength : ℤ) :
    Storage h × Except Stop ReadResult :=
  if keyLength = -1 ∨ 0 < keyLength then
    match formatter with
    | none => (s, .ok ⟨false, none, some ⟨.storageState,
        "CatalinaStorage is missing a formatter for deserialization"⟩⟩)
    | some f =>
      let (s', r) := catalinaStorageGet env s id key keyLength
      (s', match r with
        | .refused => .ok ⟨false, none, none⟩
        | .failed e => .ok ⟨false, none, e⟩
        | .succeeded buffer => f.deserialize (heap.block buffer) buffer.length
        | .waiting => .error .running)
  else (s, .ok ⟨false, none, none⟩)

variable {s env}

theorem get_ne_refused {j : ℕ} {key : Bytes} {keyLength : ℤ}
    (hk : keyLength = -1 ∨ 0 < keyLength) :
    (catalinaStorageGet env s j key keyLength).2 ≠ .refused := by
  unfold catalinaStorageGet storageTaskWait
  rw [if_pos hk]
  dsimp only
  split
  · exact nofun
  · split_ifs <;> exact nofun

theorem error_of_get_failed {j : ℕ} {key : Bytes} {keyLength : ℤ} {e : Option GError}
    (hf : (catalinaStorageGet env s j key keyLength).2 = .failed e) : e ≠ none := by
  unfold catalinaStorageGet at hf
  split_ifs at hf with hk
  dsimp only at hf
  have hrun : s.stopped = false := running_of_answer fun hw => nomatch hf.symm.trans hw
  have hget : handleMessage env s (getTask j (sized key keyLength)) =
      handleGet env s (getTask j (sized key keyLength)) := handleMessage_eq env hrun _
  rw [hget] at hf
  have hfail : ∀ e', storageTaskWait s (storageTaskFail s (StorageTask.setError
      (getTask j (sized key keyLength)) e')) j StorageTask.data = .failed (some e') := fun e' =>
    storageTaskWait_append (replies_fail s (StorageTask.setError
      (getTask j (sized key keyLength)) e')) StorageTask.data
  unfold handleGet at hf
  split_ifs at hf with hc
  · rw [hfail] at hf
    cases hf
    exact Option.some_ne_none _
  · cases hr : s.tdb.fetch (getTask j (sized key keyLength)).key with
    | none =>
      rw [hr] at hf
      dsimp only at hf
      rw [hfail] at hf
      cases hf
      exact Option.some_ne_none _
    | some r =>
      rw [hr] at hf
      dsimp only at hf
      cases ht : transformRead (env (getTask j (sized key keyLength)).id).transform r with
      | error e' =>
        rw [ht] at hf
        dsimp only at hf
        rw [hfail] at hf
        cases hf
        exact Option.some_ne_none _
      | ok v =>
        rw [ht] at hf
        have hok := storageTaskWait_append (replies_complete s
          { getTask j (sized key keyLength) with data := v } true) StorageTask.data
        change storageTaskWait s (storageTaskComplete s _ true) j StorageTask.data = _ at hf
        exact absurd (hok.symm.trans hf) nofun

end Catalina
