import Catalina.Lib.System
import Catalina.Storage.Model

/-!
# Threads

The storage is called by many threads. A call posts its message to one of the two ports; the arbiter
gives an exclusive message to its handler when no other handler is active, and a concurrent one when
no exclusive handler is. A synchronous call waits on the condition of its task.

* `PublicCall`: the calls and the messages they post.
* `Caller`, `SyncTask`: the mutex and the condition of a task and the thread that waits for it.
  `SyncTask.complete` is one step of `storage_task_complete`.
* `Work`, `work`: a handler from its message to its answers. A get fetches and then transforms; a
  count visits one record after the other.
* `Threads`, `Threads.step`: the storage, the messages on their way, the active handlers and the
  tasks; one step of one thread, as long as there is a process.
-/

namespace Catalina

/-- The public calls, the synchronous ones first. -/
inductive PublicCall
  | open (path : Bytes)
  | close
  | get (key : Bytes)
  | set (txnId : ℕ) (key value : Bytes)
  | countKeys
  | openAsync (path : Bytes)
  | closeAsync
  | getAsync (key : Bytes)
  | setAsync (txnId : ℕ) (key value : Bytes)
  | transactionBeginAsync
  | transactionCommitAsync (txnId : ℕ)
  | transactionCancelAsync (txnId : ℕ)
deriving DecidableEq, Repr

/-- The message of a call whose task has the number `id`. -/
def PublicCall.message (id : ℕ) : PublicCall → StorageTask
  | .open path | .openAsync path => openTask id path
  | .close | .closeAsync => closeTask id
  | .get key | .getAsync key => getTask id key
  | .set txnId key value | .setAsync txnId key value => setTask id txnId key value
  | .countKeys => countKeysTask id
  | .transactionBeginAsync => beginTask id
  | .transactionCommitAsync txnId => commitTask id txnId
  | .transactionCancelAsync txnId => cancelTask id txnId

/-- The call waits for its answer. -/
def PublicCall.isSync : PublicCall → Bool
  | .open _ | .close | .get _ | .set .. | .countKeys => true
  | _ => false

/-- The message is posted to the exclusive port. -/
def StorageTask.exclusive (t : StorageTask) : Bool :=
  match t.what with
  | .messageGet | .messageCountKeys => false
  | _ => true

/-! ## Tasks with a mutex and a condition -/

/-- The thread of a synchronous call: it has not reached `g_cond_wait`, it sleeps there, it has been
woken and wants the mutex, or it has read the answer and freed the task. -/
inductive Caller
  | calling
  | waiting
  | woken
  | returned (answer : Option StorageTask)
deriving DecidableEq, Repr

/-- Who has locked a mutex. -/
inductive Owner
  | caller
  | handler
deriving DecidableEq, Repr

/-- A `StorageTask` as the two threads share it. `storage_task_new` gives a synchronous one a mutex,
which the caller has locked. -/
structure SyncTask where
  isSync : Bool := false
  mutex : Option Owner := some .caller
  caller : Caller := .calling
  /-- what a handler has written into the task; `none` if it is as `storage_task_new` made it -/
  answer : Option StorageTask := none
deriving DecidableEq, Repr

/-- How far `storage_task_complete` is with a synchronous task. -/
inductive Stage
  | reached
  | written
  | locked
  | signalled
deriving DecidableEq, Repr

/-- The stage that follows, `none` after the last one. -/
def Stage.next : Stage → Option Stage
  | .reached => some .written
  | .written => some .locked
  | .locked => some .signalled
  | .signalled => none

namespace SyncTask

/-- `storage_task_free` has been called. -/
def freed (k : SyncTask) : Bool :=
  match k.caller with
  | .returned _ => true
  | _ => false

/-- The next step of `storage_task_complete` with the answer `r`: write it, lock the mutex, signal
the condition, unlock the mutex. `none` if the mutex is locked. -/
def complete (r : StorageTask) (k : SyncTask) : Stage → Option SyncTask
  | .reached => some { k with answer := some r }
  | .written => if k.mutex = none then some { k with mutex := some .handler } else none
  | .locked => some { k with caller := if k.caller = .waiting then .woken else k.caller }
  | .signalled => some { k with mutex := none }

/-- `g_cond_wait` unlocks the mutex and sleeps. -/
def wait (k : SyncTask) : Option SyncTask :=
  if k.isSync ∧ k.caller = .calling ∧ k.mutex = some .caller then
    some { k with caller := .waiting, mutex := none }
  else none

/-- `g_cond_wait` may also end without a signal. -/
def wake (k : SyncTask) : Option SyncTask :=
  if k.isSync ∧ k.caller = .waiting then some { k with caller := .woken } else none

/-- The rest of the call: `g_cond_wait` locks the mutex again, `storage_task_wait` reads the answer
and `storage_task_free` unlocks and frees. -/
def resume (k : SyncTask) : Option SyncTask :=
  if k.isSync ∧ k.caller = .woken ∧ k.mutex = none then
    some { k with caller := .returned k.answer }
  else none

end SyncTask

/-! ## Handlers -/

variable {h : Host}

/-- The records that `tdb_traverse` visits. -/
def Tdb.records (d : Tdb) : List (Sigma fun _ : Bytes => Bytes) :=
  match d.ctx with
  | none => []
  | some c => (d.view c.file).entries

theorem Tdb.length_records (d : Tdb) : d.records.length = d.count := by
  unfold records count
  cases d.ctx <;> rfl

/-- What a handler has done before it answers. -/
inductive Work
  | started
  | fetched (record : Option Bytes)
  | counting (left : List (Sigma fun _ : Bytes => Bytes)) (count : ℕ)
deriving DecidableEq

/-- `handle_get` from the record it has fetched. -/
def answerGet (env : Env) (s : Storage h) (task : StorageTask) (record : Option Bytes) : Storage h :=
  match record with
  | none => storageTaskFail s (task.setError ⟨.storageNoSuchKey, (env task.id).tdbErrorstr⟩)
  | some record =>
    match transformRead (env task.id).transform record with
    | .error e => storageTaskFail s (task.setError e)
    | .ok data => storageTaskSucceed s { task with data := data }

/-- The next step of a handler: it goes on, or it has changed the storage and has its answers. An
exclusive handler is the only one active, so its work is one step. -/
def work (env : Env) (s : Storage h) (task : StorageTask) : Work → Work ⊕ Storage h
  | .started =>
    match task.what with
    | .messageGet =>
      if s.tdb.ctx.isNone then
        .inr (storageTaskFail s (task.setError ⟨.storageState, "Storage is not currently open"⟩))
      else .inl (.fetched (s.tdb.fetch task.key))
    | .messageCountKeys => .inl (.counting s.tdb.records 0)
    | _ => .inr (exHandleMessage env s task)
  | .fetched record => .inr (answerGet env s task record)
  | .counting (_ :: left) count => .inl (.counting left (count + 1))
  | .counting [] count => .inr (storageTaskSucceed s { task with value := some count })

/-- Where a handler is: at work; completing the tasks it has answered, the first of them being at the
stage `stage`; or inside a callback that waits for the call `i`. -/
inductive Phase
  | working (w : Work)
  | completing (stage : Stage) (answers : List StorageTask)
  | inCallback (i : ℕ) (answers : List StorageTask)
deriving DecidableEq

/-- An active handler and the message it was given. -/
structure Handler where
  task : StorageTask
  phase : Phase := .working .started
deriving DecidableEq

/-! ## The system -/

/-- The storage and the threads around it. Tasks have the numbers below `next`. `handled` are the
messages in the order in which their handlers got their answers. -/
structure Threads (h : Host) where
  storage : Storage h
  useIdle : Bool := true
  posted : List StorageTask := []
  active : List Handler := []
  task : ℕ → SyncTask := fun _ => {}
  next : ℕ := 0
  /-- the answers that the callbacks of asynchronous calls have got -/
  delivered : List StorageTask := []
  handled : List StorageTask := []
  /-- the tasks a handler has touched after they were freed -/
  faults : List ℕ := []

/-- One step of one thread. -/
inductive ThreadEvent
  /-- a thread makes a call -/
  | call (a : PublicCall)
  /-- the callback that the active handler number `n` runs makes a call -/
  | nested (n : ℕ) (a : PublicCall)
  /-- the thread of the call `i` reaches `g_cond_wait` -/
  | wait (i : ℕ)
  /-- it wakes without a signal -/
  | wake (i : ℕ)
  /-- it has been woken and goes on -/
  | resume (i : ℕ)
  /-- the posted message number `n` is given to its handler -/
  | take (n : ℕ)
  /-- the active handler number `n` goes on -/
  | advance (n : ℕ)
deriving DecidableEq, Repr

namespace Threads

/-- A storage on a given disk. -/
def init (h : Host) (disk : Bytes → Records) (useIdle : Bool) : Threads h :=
  { storage := catalinaStorageInit h disk, useIdle }

/-- A handler accesses a task. -/
def touch (c : Threads h) (i : ℕ) : Threads h :=
  { c with faults := if (c.task i).isSync ∧ (c.task i).freed then c.faults ++ [i] else c.faults }

def setTask (c : Threads h) (i : ℕ) (k : SyncTask) : Threads h :=
  { c with task := Function.update c.task i k }

def setPhase (c : Threads h) (n : ℕ) (a : Handler) (phase : Phase) : Threads h :=
  { c with active := c.active.set n { a with phase } }

/-- Create the task of a call and post its message. -/
def call (c : Threads h) (a : PublicCall) : Threads h :=
  { c with
    task := Function.update c.task c.next { isSync := a.isSync }
    next := c.next + 1
    posted := c.posted ++ [a.message c.next] }

/-- The arbiter lets the message pass. -/
def admits (c : Threads h) (t : StorageTask) : Bool :=
  if t.exclusive then c.active.isEmpty else c.active.all fun a => !a.task.exclusive

def take (c : Threads h) (n : ℕ) : Option (Threads h) :=
  match c.posted[n]? with
  | none => none
  | some t =>
    if c.admits t then
      some { c with posted := c.posted.eraseIdx n, active := c.active ++ [{ task := t }] }
    else none

/-- One step of a handler. -/
def advance (env : Env) (c : Threads h) (n : ℕ) (a : Handler) : Option (Threads h) :=
  match a.phase with
  | .working w =>
    let c := c.touch a.task.id
    match work env c.storage a.task w with
    | .inl w => some (c.setPhase n a (.working w))
    | .inr s =>
      some ({ c with storage := s, handled := c.handled ++ [a.task] }.setPhase n a
        (.completing .reached (s.replies.drop c.storage.replies.length)))
  | .completing _ [] => some { c with active := c.active.eraseIdx n }
  | .completing stage (r :: rs) =>
    if (c.task r.id).isSync then
      match (c.task r.id).complete r stage with
      | none => none
      | some k => some (((c.touch r.id).setTask r.id k).setPhase n a
          (match stage.next with
          | some stage => .completing stage (r :: rs)
          | none => .completing .reached rs))
    else some ({ c with delivered := c.delivered ++ [r] }.setPhase n a (.completing .reached rs))
  | .inCallback i rs =>
    if (c.task i).freed then some (c.setPhase n a (.completing .reached rs)) else none

/-- The handler completes an asynchronous task while the callbacks do not go through the main loop,
and the callback makes a call. -/
def nested (c : Threads h) (n : ℕ) (a : Handler) (p : PublicCall) : Option (Threads h) :=
  match a.phase with
  | .completing _ (r :: rs) =>
    if c.useIdle = false ∧ (c.task r.id).isSync = false then
      some (({ c with delivered := c.delivered ++ [r] }.call p).setPhase n a
        (if p.isSync then .inCallback c.next rs else .completing .reached rs))
    else none
  | _ => none

/-- One step of a process that runs. -/
def go (env : Env) (c : Threads h) : ThreadEvent → Option (Threads h)
  | .call a => some (c.call a)
  | .nested n p => (c.active[n]?).bind fun a => c.nested n a p
  | .wait i => (c.task i).wait.map (c.setTask i)
  | .wake i => (c.task i).wake.map (c.setTask i)
  | .resume i => (c.task i).resume.map (c.setTask i)
  | .take n => c.take n
  | .advance n => (c.active[n]?).bind fun a => c.advance env n a

/-- One step; `none` if the event is not possible, and when the process has ended. -/
def step (env : Env) (c : Threads h) (e : ThreadEvent) : Option (Threads h) :=
  if c.storage.stopped then none else c.go env e

theorem running_of_step {env : Env} {c c' : Threads h} {e : ThreadEvent}
    (hstep : c.step env e = some c') : c.storage.stopped = false ∧ c.go env e = some c' := by
  unfold step at hstep
  split_ifs at hstep with hs
  exact ⟨Bool.eq_false_of_not_eq_true hs, hstep⟩

theorem step_running {env : Env} {c : Threads h} (hs : c.storage.stopped = false) (e : ThreadEvent) :
    c.step env e = c.go env e := if_neg (by rw [hs]; exact Bool.false_ne_true)

end Threads

end Catalina
