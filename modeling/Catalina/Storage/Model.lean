import Catalina.Lib.Table
import Catalina.Lib.Drain
import Catalina.Tdb

/-!
# The storage and its message handlers

`CatalinaStorage` answers messages one at a time. Each message carries one task, so the model keeps
the `what` of a message and the `StorageTask` it points to together. A task is answered by
`storageTaskComplete`, which appends it to `replies`.

* `Env`: what the libraries outside the repository answer while a task is handled. A task makes each
  of these calls at most once.
* `handleOpen`, `handleClose`, `handleGet`, `handleSet`, `handleCountKeys`, `handleTxnBegin`,
  `handleTxnCommit`, `handleTxnCancel`: the handlers. `txnStateRun` replays the log of a transaction.
* `handleMessage`, `run`: one message, and a run of messages.
-/

namespace Catalina

/-- The `what` of a message. -/
inductive What
  | messageOpen
  | messageClose
  | messageGet
  | messageSet
  | messageCountKeys
  | messageTxnBegin
  | messageTxnCommit
  | messageTxnCancel
deriving DecidableEq, Repr

/-- A message and its `StorageTask`; `id` tells the tasks of a run apart. -/
structure StorageTask where
  id : ℕ
  what : What
  txnId : ℕ := 0
  key : Bytes := []
  data : Bytes := []
  value : Option ℕ := none
  success : Bool := false
  error : Option GError := none
deriving DecidableEq, Repr

/-! ## The tasks the public functions post -/

def openTask (id : ℕ) (path : Bytes) : StorageTask := { id, what := .messageOpen, key := path }

def closeTask (id : ℕ) : StorageTask := { id, what := .messageClose }

def getTask (id : ℕ) (key : Bytes) : StorageTask := { id, what := .messageGet, key }

def setTask (id txnId : ℕ) (key data : Bytes) : StorageTask :=
  { id, what := .messageSet, txnId, key, data }

def countKeysTask (id : ℕ) : StorageTask := { id, what := .messageCountKeys }

def beginTask (id : ℕ) : StorageTask := { id, what := .messageTxnBegin }

def commitTask (id txnId : ℕ) : StorageTask := { id, what := .messageTxnCommit, txnId }

def cancelTask (id txnId : ℕ) : StorageTask := { id, what := .messageTxnCancel, txnId }

/-- `g_set_error`: an error that is already there stays. -/
def StorageTask.setError (task : StorageTask) (e : GError) : StorageTask :=
  { task with error := task.error <|> some e }

structure TxnState where
  txnId : ℕ
  msgs : List StorageTask := []
  error : Option GError := none
deriving DecidableEq, Repr

/-- The key of `txn_state`: `g_int_hash` and `g_int_equal` on a pointer to the id. -/
def TxnState.key (h : Host) (txn : TxnState) : ℕ := h.firstWord txn.txnId

theorem TxnState.key_error (h : Host) (x : TxnState) (e : Option GError) :
    TxnState.key h { x with error := e } = TxnState.key h x := rfl

theorem TxnState.key_msgs (h : Host) (x : TxnState) (l : List StorageTask) :
    TxnState.key h { x with msgs := l } = TxnState.key h x := rfl

/-- `CatalinaStoragePrivate`, the database behind `db_ctx` and the tasks answered so far. -/
structure Storage (h : Host) where
  tdb : Tdb
  txnSeq : ℕ := 0
  txn : ℕ := 0
  txnCommits : List StorageTask := []
  txnState : Table (TxnState.key h) := ∅
  replies : List StorageTask := []
  /-- the process has ended inside `handle_open` -/
  stopped : Bool := false

/-- The bits of `o_flags` that decide what becomes of the records of an existing file. -/
structure OpenFlags where
  creat : Bool := false
  trunc : Bool := false
deriving DecidableEq, Repr

/-- What the outside answers while one task is handled. -/
structure Calls where
  transform : Option Transform := none
  /-- what `handle_open` finds in `o_flags`, which it sets for a file that is not there only -/
  oFlags : OpenFlags := {}
  /-- `open` inside `tdb_open`, and the rest of `tdb_open` -/
  openFile : Bool := true
  tdbOpen : Bool := true
  tdbClose : ℤ := 0
  tdbStore : Bool := true
  tdbTransactionStart : Bool := true
  tdbTransactionCommit : Bool := true
  tdbErrorstr : String := ""

/-- The answers, for every task. -/
abbrev Env := ℕ → Calls

/-- `open` empties the file. -/
def Calls.truncates (c : Calls) : Bool := c.openFile && c.oFlags.trunc

/-- `tdb_open` succeeds. It makes a database of a file without records with `O_CREAT` only. -/
def Calls.opens (c : Calls) : Bool := c.openFile && c.tdbOpen && (!c.oFlags.trunc || c.oFlags.creat)

/-- `open` as `tdb_open` calls it. -/
def Tdb.openFile (d : Tdb) (f : Bytes) (c : Calls) : Tdb := if c.truncates then d.truncated f else d

theorem Tdb.ctx_openFile (d : Tdb) (f : Bytes) (c : Calls) : (d.openFile f c).ctx = d.ctx := by
  unfold openFile
  split_ifs <;> rfl

variable {h : Host}

/-- `catalina_storage_init` on a given disk. -/
def catalinaStorageInit (h : Host) (disk : Bytes → Records) : Storage h :=
  { tdb := { disk := disk } }

namespace Storage

/-- The entry of `txn_state` that a lookup of `id` leads to. -/
def lookupTxn (s : Storage h) (id : ℕ) : Option TxnState := s.txnState.find (h.firstWord id)

/-- Write the error slot of the transaction a lookup of `id` leads to. -/
def setTxnError (s : Storage h) (id : ℕ) (e : Option GError) : Storage h :=
  { s with
    txnState := s.txnState.modify (h.firstWord id) (fun x => { x with error := e })
      fun x => x.key_error h e }

/-- Write the messages of the transaction a lookup of `id` leads to. -/
def modifyMsgs (s : Storage h) (id : ℕ) (f : List StorageTask → List StorageTask) : Storage h :=
  { s with
    txnState := s.txnState.modify (h.firstWord id) (fun x => { x with msgs := f x.msgs })
      fun x => x.key_msgs h (f x.msgs) }

/-- The state with every pending transaction cleared. -/
def clearTxns (s : Storage h) : Storage h := { s with txn := 0, txnCommits := [], txnState := ∅ }

@[simp] theorem tdb_clearTxns (s : Storage h) : s.clearTxns.tdb = s.tdb := rfl

end Storage

/-! ## Storage tasks -/

def storageTaskComplete (s : Storage h) (task : StorageTask) (success : Bool) : Storage h :=
  { s with replies := s.replies ++ [{ task with success := success }] }

def storageTaskSucceed (s : Storage h) (task : StorageTask) : Storage h :=
  storageTaskComplete s task true

def storageTaskFail (s : Storage h) (task : StorageTask) : Storage h :=
  -- propagate error to transaction if needed
  if task.txnId ≠ 0 ∧ task.error.isSome then
    storageTaskComplete (s.setTxnError task.txnId task.error) task false
  else
    storageTaskComplete s task false

/-! ## Handlers -/

section Handlers

variable (env : Env)

/-- `handle_open`. The path is the key of the task. A file that is not there shows no records, so that
its flags, which are `O_CREAT` then, lose none. -/
def handleOpen (s : Storage h) (task : StorageTask) : Storage h :=
  if s.tdb.ctx.isSome then
    storageTaskFail s (task.setError ⟨.storageState, "Storage already opened"⟩)
  else if s.txnCommits ≠ [] then
    -- txn_state_free takes the data of a queued message for a list of messages and unrefs these
    { s with stopped := true }
  else
    let s := { s.clearTxns with tdb := s.tdb.openFile task.key (env task.id) }
    if (env task.id).opens then
      storageTaskSucceed { s with tdb := s.tdb.opened task.key } task
    else
      storageTaskFail s (task.setError ⟨.storageDb, "Could not open the database"⟩)

def handleClose (s : Storage h) (task : StorageTask) : Storage h :=
  if s.tdb.ctx.isNone then
    storageTaskFail s (task.setError ⟨.storageState, "Storage is not currently open"⟩)
  else if s.txn ≠ 0 ∨ s.txnState.rows.length > 0 then
    storageTaskFail s (task.setError ⟨.storageState,
      "Storage has pending transactions, please cancel or commit them before closing the storage"⟩)
  else if (env task.id).tdbClose ≠ 0 then
    storageTaskFail s (task.setError ⟨.storageState,
      "There was an error closing the storage: (" ++ toString (env task.id).tdbClose ++ ")"⟩)
  else
    storageTaskSucceed { s with tdb := s.tdb.closed } task

/-- What `handle_get` makes of a record it has fetched. -/
def transformRead (transform : Option Transform) (record : Bytes) : Except GError Bytes :=
  match transform with
  | none => .ok record
  | some T =>
    match T.read record with
    | .fail e => .error e
    | .ok output => if outputLength output = 0 then .ok record else .ok (output.getD [])

def handleGet (s : Storage h) (task : StorageTask) : Storage h :=
  if s.tdb.ctx.isNone then
    storageTaskFail s (task.setError ⟨.storageState, "Storage is not currently open"⟩)
  else
    match s.tdb.fetch task.key with
    | none => storageTaskFail s (task.setError ⟨.storageNoSuchKey, (env task.id).tdbErrorstr⟩)
    | some record =>
      match transformRead (env task.id).transform record with
      | .error e => storageTaskFail s (task.setError e)
      | .ok data => storageTaskSucceed s { task with data := data }

/-- What `handle_set` stores for the data of a task: the output buffer unless it is `NULL`. -/
def transformWrite (transform : Option Transform) (data : Bytes) : Except GError Bytes :=
  match transform with
  | none => .ok data
  | some T =>
    match T.write data with
    | .fail e => .error e
    | .ok output => .ok (match output with | some buffer => buffer | none => data)

def handleSet (s : Storage h) (task : StorageTask) : Storage h :=
  if s.tdb.ctx.isNone then
    storageTaskFail s (task.setError ⟨.storageState, "Storage is not currently open"⟩)
  else if task.txnId ≠ 0 ∧ s.txn ≠ task.txnId then
    match s.lookupTxn task.txnId with
    | none =>
      storageTaskFail s (task.setError ⟨.storageNoSuchTxn,
        "No such transaction \"" ++ toString task.txnId ++ "\""⟩)
    | some _ => s.modifyMsgs task.txnId (task :: ·)
  else if ¬ (s.txn = 0 ∨ s.txn = task.txnId) then
    s -- g_return_if_fail
  else
    match transformWrite (env task.id).transform task.data with
    | .error e => storageTaskFail s (task.setError e)
    | .ok record =>
      if (env task.id).tdbStore then
        storageTaskSucceed { s with tdb := s.tdb.store task.key record } task
      else
        storageTaskFail s (task.setError ⟨.storageNoSuchKey,
          "tdb_store: " ++ (env task.id).tdbErrorstr⟩)

def handleCountKeys (s : Storage h) (task : StorageTask) : Storage h :=
  storageTaskSucceed s { task with value := some s.tdb.count }

def handleTxnBegin (s : Storage h) (task : StorageTask) : Storage h :=
  if s.tdb.ctx.isNone then
    storageTaskFail s task
  else
    let seq := h.incFirstWord s.txnSeq
    let s := { s with txnSeq := seq, txnState := s.txnState.insert { txnId := seq } }
    storageTaskSucceed s { task with value := some seq, txnId := seq }

/-- The loop of `txn_state_run`. Only `handle_set` puts messages into a log, so a stored message is
dispatched to `handle_set`; `false` if the transaction has got an error. -/
def runMsgs (id : ℕ) : List StorageTask → Storage h → Storage h × Bool
  | [], s => (s, true)
  | m :: ms, s =>
    if (((handleSet env s m).lookupTxn id).bind TxnState.error).isSome then (handleSet env s m, false)
    else runMsgs id ms (handleSet env s m)

/-- `txn_state_run` on the transaction a lookup of `id` leads to, with the error slot of the caller. -/
def txnStateRun (s : Storage h) (txn : TxnState) (id : ℕ) (error : Option GError) :
    Storage h × Bool × Option GError :=
  -- the list was built by prepending
  let s := s.modifyMsgs id List.reverse
  match runMsgs env id txn.msgs.reverse s with
  | (s, true) => (s, true, error)
  | (s, false) =>
    match error with
    | some e => (s, false, some e)
    | none => (s.setTxnError id none, false, (s.lookupTxn id).bind TxnState.error)

/-- `handle_txn_commit` from the end of `txn_state_run` to the queue of pending commits. -/
def finishTxn (s : Storage h) (txn : TxnState) (task : StorageTask) (success : Bool) : Storage h :=
  -- commit the tdb transaction
  let committed := success && (env task.id).tdbTransactionCommit
  let s := if success then { s with tdb := s.tdb.transactionCommit committed } else s
  let task := if success && !committed then task.setError ⟨.storageDb,
    "Cannot commit txn: " ++ (env task.id).tdbErrorstr⟩ else task
  -- finished with transaction state
  let s := { s with txnState := s.txnState.erase (h.firstWord txn.txnId), txn := 0 }
  if committed then storageTaskSucceed s task
  else storageTaskFail { s with tdb := s.tdb.transactionRecover } task

/-- `handle_txn_commit` up to the queue of pending commits, and whether it gets there. -/
def commitTxn (s : Storage h) (task : StorageTask) : Storage h × Bool :=
  if s.tdb.ctx.isNone then
    (storageTaskFail s (task.setError ⟨.storageState, "Storage not opened"⟩), false)
  else if s.txn ≠ 0 ∧ s.txn ≠ task.txnId then
    -- queue if another transaction is pending
    ({ s with txnCommits := s.txnCommits ++ [task] }, false)
  else
    -- mark this as our current transaction
    let s := { s with txn := task.txnId }
    match s.lookupTxn task.txnId with
    | none => (storageTaskFail s (task.setError ⟨.storageState, "No such transaction"⟩), false)
    | some txn =>
      if ¬ (env task.id).tdbTransactionStart then
        (storageTaskFail s (task.setError ⟨.storageDb, "Tdb could not start a new transaction"⟩),
          false)
      else
        let s := { s with tdb := s.tdb.transactionStart }
        -- process all of the transaction operations
        let (s, success, error) := txnStateRun env s txn task.txnId task.error
        (finishTxn env s txn { task with error := error } success, true)

/-- Take the first pending commit off the queue. -/
def popCommit (s : Storage h) : Option (StorageTask × Storage h) :=
  match s.txnCommits with
  | [] => none
  | task :: rest => some (task, { s with txnCommits := rest })

/-- `handle_txn_commit`. Its tail recursion runs once for each pending commit at most. -/
def handleTxnCommit (s : Storage h) (task : StorageTask) : Storage h :=
  drain (commitTxn env) popCommit s.txnCommits.length s task

/-- `handle_txn_cancel`. `g_list_remove` looks for the transaction state in a list of messages and
removes nothing. -/
def handleTxnCancel (s : Storage h) (task : StorageTask) : Storage h :=
  if s.tdb.ctx.isNone then
    storageTaskFail s task
  else
    match s.lookupTxn task.txnId with
    | none => storageTaskSucceed s task
    | some _ =>
      storageTaskSucceed { s with txnState := s.txnState.erase (h.firstWord task.txnId) } task

/-- `catalina_storage_cn_handle_message`: anything but its two messages is warned about. -/
def cnHandleMessage (s : Storage h) (task : StorageTask) : Storage h :=
  match task.what with
  | .messageGet => handleGet env s task
  | .messageCountKeys => handleCountKeys s task
  | _ => s

/-- `catalina_storage_ex_handle_message`. -/
def exHandleMessage (s : Storage h) (task : StorageTask) : Storage h :=
  match task.what with
  | .messageSet => handleSet env s task
  | .messageOpen => handleOpen env s task
  | .messageClose => handleClose env s task
  | .messageTxnBegin => handleTxnBegin s task
  | .messageTxnCommit => handleTxnCommit env s task
  | .messageTxnCancel => handleTxnCancel s task
  | _ => s

/-- A message is posted to the concurrent or to the exclusive port, as long as there is a process. -/
def handleMessage (s : Storage h) (task : StorageTask) : Storage h :=
  if s.stopped then s
  else
    match task.what with
    | .messageGet | .messageCountKeys => cnHandleMessage env s task
    | _ => exHandleMessage env s task

/-- A run of messages, handled one at a time. -/
def run (s : Storage h) (tasks : List StorageTask) : Storage h := tasks.foldl (handleMessage env) s

end Handlers

theorem handleMessage_stopped (env : Env) {s : Storage h} (hs : s.stopped = true) (t : StorageTask) :
    handleMessage env s t = s := if_pos hs

theorem handleMessage_eq (env : Env) {s : Storage h} (hs : s.stopped = false) (t : StorageTask) :
    handleMessage env s t = match t.what with
      | .messageOpen => handleOpen env s t
      | .messageClose => handleClose env s t
      | .messageGet => handleGet env s t
      | .messageSet => handleSet env s t
      | .messageCountKeys => handleCountKeys s t
      | .messageTxnBegin => handleTxnBegin s t
      | .messageTxnCommit => handleTxnCommit env s t
      | .messageTxnCancel => handleTxnCancel s t := by
  unfold handleMessage cnHandleMessage exHandleMessage
  rw [hs, if_neg Bool.false_ne_true]
  cases t.what <;> rfl

theorem handleMessage_set (env : Env) {s : Storage h} (hs : s.stopped = false) {t : StorageTask}
    (hw : t.what = .messageSet) : handleMessage env s t = handleSet env s t := by
  rw [handleMessage_eq env hs, hw]

theorem handleMessage_commit (env : Env) {s : Storage h} (hs : s.stopped = false) {t : StorageTask}
    (hw : t.what = .messageTxnCommit) : handleMessage env s t = handleTxnCommit env s t := by
  rw [handleMessage_eq env hs, hw]

end Catalina
