import Mathlib.Logic.Function.Basic
import Catalina.Storage.Values

/-!
# The tasks of the asynchronous calls

An asynchronous call creates a task and posts it; the handlers complete it, which runs or schedules
its callback; the callback reads and releases it. The calls on values have a second task, which the
callback of the first one completes.

* `Tasks`: the tasks with their lives, and what goes wrong with one.
* `completeTask`, `finish`, `getValueAsyncCb`, `setValueAsyncCb`: completions and callbacks.
* `AsyncStorage`: the storage, its tasks and the messages on their way; `step`: a call, a message
  that reaches its handler, or a scheduled callback.
-/

namespace Catalina

/-- The life of a task. -/
inductive Life
  | created
  | completed
  | released
deriving DecidableEq, Repr

/-- The callback of a task: the client's, which calls the matching `_finish` once, or that of a call
on values, which completes another task. -/
inductive Callback
  | client
  | getValueAsyncCb (task : ℕ)
  | setValueAsyncCb (task : ℕ)
deriving DecidableEq, Repr

/-- What must not happen to a task. -/
inductive Fault
  | completedTwice (task : ℕ)
  | releasedTwice (task : ℕ)
  | readReleased (task : ℕ)
deriving DecidableEq, Repr

/-- The `StorageTask` of an asynchronous call. -/
structure AsyncTask where
  callback : Callback := .client
  life : Life := .created
  success : Bool := false
  error : Option GError := none
  txnId : ℕ := 0
  data : Bytes := []
  value : Option (GValue GObject) := none

/-- The tasks created so far, which have the numbers below `next`, with the properties of the
storage that their completion looks at. -/
structure Tasks (ω : Type) where
  formatter : Option (Formatter ω)
  useIdle : Bool
  task : ℕ → AsyncTask := fun _ => {}
  next : ℕ := 0
  /-- the callbacks scheduled in the main loop -/
  idle : List ℕ := []
  /-- what the `_finish` functions have read for the clients -/
  finished : List (ℕ × AsyncTask) := []
  faults : List Fault := []
  /-- the process has ended inside the formatter -/
  stopped : Option Stop := none

/-- `g_strdup` or `g_malloc` and `memcpy` of an argument and its length; `none` if the checks refuse
them. -/
def duplicate (p : Option Bytes) (length : ℤ) : Option Bytes :=
  match p with
  | none => none
  | some p => if length = -1 ∨ 0 < length then some (sized p length) else none

variable {ω : Type}

namespace Tasks

def update (c : Tasks ω) (i : ℕ) (f : AsyncTask → AsyncTask) : Tasks ω :=
  { c with task := Function.update c.task i (f (c.task i)) }

def fault (c : Tasks ω) (f : Fault) : Tasks ω := { c with faults := c.faults ++ [f] }

/-- Any access to a task. -/
def read (c : Tasks ω) (i : ℕ) : Tasks ω :=
  if (c.task i).life = .released then c.fault (.readReleased i) else c

/-- `storage_task_new`. The new task has the number `c.next`. -/
def storageTaskNew (c : Tasks ω) (callback : Callback) : Tasks ω :=
  { c with task := Function.update c.task c.next { callback }, next := c.next + 1 }

def storageTaskFree (c : Tasks ω) (i : ℕ) : Tasks ω :=
  if (c.task i).life = .released then c.fault (.releasedTwice i)
  else c.update i fun t => { t with life := .released }

/-- The `_finish` functions. All of them read the task and release it; they differ in the fields
they hand out. -/
def finish (c : Tasks ω) (i : ℕ) : Tasks ω :=
  let c := c.read i
  { c with finished := c.finished ++ [(i, c.task i)] }.storageTaskFree i

/-- `storage_task_complete`, where `run` is what its callback does. -/
def completeTask (run : Tasks ω → ℕ → Tasks ω) (c : Tasks ω) (i : ℕ) (success : Bool) : Tasks ω :=
  let c := if (c.task i).life = .created then c else c.fault (.completedTwice i)
  let c := c.update i fun t =>
    { t with life := if t.life = .created then .completed else t.life, success }
  if c.useIdle then { c with idle := c.idle ++ [i] } else run c i

/-- `storage_task_complete` on a task that a call on values has created with the client's
callback. -/
def completeValue (c : Tasks ω) (i : ℕ) (success : Bool) : Tasks ω :=
  completeTask finish c i success

/-- `catalina_storage_get_value_async_cb` for the answer in the task `i`. -/
def getValueAsyncCb (heap : Heap) (c : Tasks ω) (i task : ℕ) : Tasks ω :=
  let got := c.task i
  let c := ((c.read i).storageTaskFree i).read task
  if ¬ got.success then
    (c.update task fun t => { t with error := t.error <|> got.error }).completeValue task false
  else
    match c.formatter with
    | none =>
      (c.update task fun t => { t with error := some ⟨.storageState,
        "CatalinaStorage is missing a formatter for deserialization"⟩ }).completeValue task false
    | some f =>
      match f.deserialize (heap.block got.data) got.data.length with
      | .error stop => { c with stopped := some stop }
      | .ok r =>
        (c.update task fun t => { t with value := r.value, error := r.error }).completeValue task
          r.success

/-- `catalina_storage_set_value_async_cb` for the answer in the task `i`. -/
def setValueAsyncCb (c : Tasks ω) (i task : ℕ) : Tasks ω :=
  let set := c.task i
  let c := ((c.read i).storageTaskFree i).read task
  (c.update task fun t => { t with error := t.error <|> set.error }).completeValue task set.success

def runCallback (heap : Heap) (c : Tasks ω) (i : ℕ) : Tasks ω :=
  match (c.task i).callback with
  | .client => c.finish i
  | .getValueAsyncCb task => c.getValueAsyncCb heap i task
  | .setValueAsyncCb task => c.setValueAsyncCb i task

/-- `storage_task_complete` on a task whose message has been handled, with the answer in it. -/
def answer (heap : Heap) (c : Tasks ω) (r : StorageTask) : Tasks ω :=
  completeTask (runCallback heap)
    (c.update r.id fun t => { t with error := r.error, txnId := r.txnId, data := r.data }) r.id
    r.success

/-- A scheduled callback. -/
def runIdle (heap : Heap) (c : Tasks ω) (n : ℕ) : Tasks ω :=
  match c.idle[n]? with
  | none => c
  | some i => runCallback heap { c with idle := c.idle.eraseIdx n } i

end Tasks

/-! ## The calls -/

variable {h : Host}

/-- A storage, its tasks, and the messages that have not reached their handlers. -/
structure AsyncStorage (h : Host) (ω : Type) where
  storage : Storage h
  tasks : Tasks ω
  posted : List StorageTask := []

/-- `catalina_storage_new` on a given disk, and the setters of its properties. -/
def catalinaStorageNew (h : Host) (disk : Bytes → Records) (formatter : Option (Formatter ω))
    (useIdle : Bool) : AsyncStorage h ω :=
  { storage := catalinaStorageInit h disk, tasks := { formatter, useIdle } }

namespace AsyncStorage

/-- Create a task with the callback and post its message. -/
def post (c : AsyncStorage h ω) (callback : Callback) (message : ℕ → StorageTask) :
    AsyncStorage h ω :=
  { c with
    tasks := c.tasks.storageTaskNew callback
    posted := c.posted ++ [message c.tasks.next] }

/-- `catalina_storage_open_async`. The path is `none` if there is no name. -/
def openAsync (c : AsyncStorage h ω) (path : Option Bytes) : AsyncStorage h ω :=
  match path with
  | none => c
  | some path => c.post .client (openTask · path)

def closeAsync (c : AsyncStorage h ω) : AsyncStorage h ω := c.post .client closeTask

def getAsync (c : AsyncStorage h ω) (callback : Callback) (key : Option Bytes) (keyLength : ℤ) :
    AsyncStorage h ω :=
  match duplicate key keyLength with
  | none => c
  | some key => c.post callback (getTask · key)

def setAsync (c : AsyncStorage h ω) (callback : Callback) (txnId : ℕ) (key : Option Bytes)
    (keyLength : ℤ) (value : Option Bytes) (valueLength : ℤ) : AsyncStorage h ω :=
  match duplicate key keyLength, duplicate value valueLength with
  | some key, some value => c.post callback (setTask · txnId key value)
  | _, _ => c

/-- `catalina_storage_get_value_async`. If the arguments are refused, its task stays for ever. -/
def getValueAsync (c : AsyncStorage h ω) (key : Option Bytes) (keyLength : ℤ) : AsyncStorage h ω :=
  { c with tasks := c.tasks.storageTaskNew .client }.getAsync (.getValueAsyncCb c.tasks.next) key
    keyLength

/-- An early exit of `catalina_storage_set_value_async`, which frees the task it has completed. -/
def failSetValue (c : AsyncStorage h ω) (i : ℕ) (error : Option GError) : AsyncStorage h ω :=
  { c with tasks := ((c.tasks.update i fun t => { t with error }).completeValue i
      false).storageTaskFree i }

/-- `catalina_storage_set_value_async`. -/
def setValueAsync (c : AsyncStorage h ω) (txnId : ℕ) (key : Option Bytes) (keyLength : ℤ)
    (v : GValue ω) : AsyncStorage h ω :=
  let task := c.tasks.next
  let c := { c with tasks := c.tasks.storageTaskNew .client }
  match c.tasks.formatter with
  | none =>
    c.failSetValue task (some ⟨.storageState, "Storage instance missing a CatalinaFormatter"⟩)
  | some f =>
    match f.serialize v with
    | .error stop => { c with tasks := { c.tasks with stopped := some stop } }
    | .ok (.error e) => c.failSetValue task e
    | .ok (.ok buffer) =>
      c.setAsync (.setValueAsyncCb task) txnId key keyLength (some buffer) buffer.length

def transactionBeginAsync (c : AsyncStorage h ω) : AsyncStorage h ω := c.post .client beginTask

def transactionCommitAsync (c : AsyncStorage h ω) (txnId : ℕ) : AsyncStorage h ω :=
  c.post .client (commitTask · txnId)

def transactionCancelAsync (c : AsyncStorage h ω) (txnId : ℕ) : AsyncStorage h ω :=
  c.post .client (cancelTask · txnId)

/-- The message number `n` of those posted reaches its handler. The messages that it answers are
completed in this order; their callbacks touch nothing that the handler looks at. -/
def handle (env : Env) (heap : Heap) (c : AsyncStorage h ω) (n : ℕ) : AsyncStorage h ω :=
  match c.posted[n]? with
  | none => c
  | some t =>
    let s := handleMessage env c.storage t
    { storage := s
      tasks := (s.replies.drop c.storage.replies.length).foldl (Tasks.answer heap) c.tasks
      posted := c.posted.eraseIdx n }

end AsyncStorage

/-! ## Runs -/

/-- The asynchronous calls of a client. -/
inductive AsyncCall (ω : Type)
  | openAsync (path : Option Bytes)
  | closeAsync
  | getAsync (key : Option Bytes) (keyLength : ℤ)
  | setAsync (txnId : ℕ) (key : Option Bytes) (keyLength : ℤ) (value : Option Bytes)
    (valueLength : ℤ)
  | getValueAsync (key : Option Bytes) (keyLength : ℤ)
  | setValueAsync (txnId : ℕ) (key : Option Bytes) (keyLength : ℤ) (v : GValue ω)
  | transactionBeginAsync
  | transactionCommitAsync (txnId : ℕ)
  | transactionCancelAsync (txnId : ℕ)

/-- What happens next: a call, a message that reaches its handler, a scheduled callback, or a new
value of a property. Messages and callbacks come in any order. -/
inductive AsyncEvent (ω : Type)
  | call (a : AsyncCall ω)
  | handle (n : ℕ)
  | idle (n : ℕ)
  | setFormatter (formatter : Formatter ω)
  | setUseIdle (useIdle : Bool)

namespace AsyncStorage

def call (c : AsyncStorage h ω) : AsyncCall ω → AsyncStorage h ω
  | .openAsync path => c.openAsync path
  | .closeAsync => c.closeAsync
  | .getAsync key keyLength => c.getAsync .client key keyLength
  | .setAsync txnId key keyLength value valueLength =>
    c.setAsync .client txnId key keyLength value valueLength
  | .getValueAsync key keyLength => c.getValueAsync key keyLength
  | .setValueAsync txnId key keyLength v => c.setValueAsync txnId key keyLength v
  | .transactionBeginAsync => c.transactionBeginAsync
  | .transactionCommitAsync txnId => c.transactionCommitAsync txnId
  | .transactionCancelAsync txnId => c.transactionCancelAsync txnId

/-- One event, as long as there is a process. -/
def step (env : Env) (heap : Heap) (c : AsyncStorage h ω) (a : AsyncEvent ω) : AsyncStorage h ω :=
  if c.tasks.stopped.isSome ∨ c.storage.stopped then c
  else
    match a with
    | .call a => c.call a
    | .handle n => c.handle env heap n
    | .idle n => { c with tasks := c.tasks.runIdle heap n }
    | .setFormatter f => { c with tasks := { c.tasks with formatter := some f } }
    | .setUseIdle b => { c with tasks := { c.tasks with useIdle := b } }

end AsyncStorage

end Catalina
