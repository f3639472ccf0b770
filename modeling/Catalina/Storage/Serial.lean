import Mathlib.Data.Set.Card
import Catalina.Storage.Model

/-!
# The serial transactional map

What the storage is for, as a machine of its own: files are persistent maps from keys to bytes, one
of which may be open, and every open transaction has a log of the sets posted under its id.

* `applyWrites`: a log applied to a map, in order; the last write to a key wins.
* `Serial`: the machine's state; `Serial.answer` appends a reply. Replies carry no error texts.
* `Serial.step`: one message.
-/

namespace Catalina

/-- A log of writes applied to a map, in order. -/
def applyWrites {κ ν : Type} [DecidableEq κ] (ws : List (κ × ν)) (m : κ → Option ν) :
    κ → Option ν :=
  ws.foldl (fun m w => Function.update m w.1 (some w.2)) m

/-- A reply without the text of its error. -/
def StorageTask.answer (t : StorageTask) (success : Bool) : StorageTask :=
  { t with success, error := none }

/-- The write of a set. -/
def StorageTask.write (t : StorageTask) : Bytes × Bytes := (t.key, t.data)

/-- The state of the machine: the file that is open, the maps of all files, the log of every open
transaction, in posting order, the last id given out, and the replies. -/
structure Serial where
  opened : Option Bytes := none
  maps : Bytes → Bytes → Option Bytes
  logs : ℕ → Option (List StorageTask) := fun _ => none
  lastId : ℕ := 0
  replies : List StorageTask := []

namespace Serial

/-- Answer the task `t`. -/
def answer (a : Serial) (t : StorageTask) (success : Bool) : Serial :=
  { a with replies := a.replies ++ [t.answer success] }

/-- A log of sets applied to the file `f`. -/
def write (a : Serial) (f : Bytes) (log : List StorageTask) : Serial :=
  { a with
    maps := Function.update a.maps f (applyWrites (log.map StorageTask.write) (a.maps f)) }

/-- Replace the log of a transaction. -/
def setLog (a : Serial) (id : ℕ) (log : Option (List StorageTask)) : Serial :=
  { a with logs := Function.update a.logs id log }

theorem logs_setLog (a : Serial) (id i : ℕ) (log : Option (List StorageTask)) :
    (a.setLog id log).logs i = if i = id then log else a.logs i :=
  Function.update_apply a.logs id log i

/-- The number of keys of the open file. -/
noncomputable def count (a : Serial) : ℕ :=
  match a.opened with
  | none => 0
  | some f => {k | (a.maps f k).isSome}.ncard

open Classical in
/-- One message. While no file is open, only an open and a count do not fail. -/
noncomputable def step (a : Serial) (t : StorageTask) : Serial :=
  match t.what, a.opened with
  | .messageOpen, none => { a with opened := some t.key }.answer t true
  | .messageOpen, some _ => a.answer t false
  | .messageCountKeys, _ => a.answer { t with value := some a.count } true
  | _, none => a.answer t false
  | .messageClose, some _ =>
    if ∃ id, a.logs id ≠ none then a.answer t false else { a with opened := none }.answer t true
  | .messageGet, some f =>
    match a.maps f t.key with
    | none => a.answer t false
    | some data => a.answer { t with data := data } true
  | .messageSet, some f =>
    if t.txnId = 0 then (a.write f [t]).answer t true
    else match a.logs t.txnId with
      | none => a.answer t false
      | some log => a.setLog t.txnId (some (log ++ [t]))
  | .messageTxnBegin, some _ =>
    ({ a with lastId := a.lastId + 1 }.setLog (a.lastId + 1) (some [])).answer
      { t with value := some (a.lastId + 1), txnId := a.lastId + 1 } true
  | .messageTxnCommit, some f =>
    match a.logs t.txnId with
    | none => a.answer t false
    | some log =>
      -- every set of the log is answered before the commit
      (log.foldl (fun a m => a.answer m true) ((a.write f log).setLog t.txnId none)).answer t true
  | .messageTxnCancel, some _ => (a.setLog t.txnId none).answer t true

/-- A run of messages. -/
noncomputable def run (a : Serial) (ts : List StorageTask) : Serial := ts.foldl step a

end Serial

end Catalina
