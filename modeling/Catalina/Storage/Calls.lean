import Catalina.Storage.Replies
import Catalina.Storage.Tasks

/-!
# The calls on one record

`get`, `set`, `get_value` and `set_value` exist in a synchronous and in an asynchronous form, each
with argument checks of its own. Here both are made on the same storage, outside of transactions.

* `PlainCall`: the calls; `Told`: what a client is told.
* `syncCall`, `asyncCall`: what becomes of the storage, and what the client is told.
* `step_idle`, `getValueAsyncCb_eq`, `setValueAsyncCb_eq`: callbacks, wherever they run.
* `asyncCall_client`, `asyncCall_getValue`, `asyncCall_setValue`: what an asynchronous call tells if
  it posts its message; `asyncCall_set_refused` and the others if it does not.
-/

namespace Catalina

/-- `get`, `set`, `get_value` and `set_value` without a transaction. A pointer is `none` if it is
`NULL`, or the memory that it points to. -/
inductive PlainCall (ω : Type)
  | set (key : Option Bytes) (keyLength : ℤ) (value : Option Bytes) (valueLength : ℤ)
  | get (key : Option Bytes) (keyLength : ℤ)
  | setValue (key : Option Bytes) (keyLength : ℤ) (v : GValue ω)
  | getValue (key : Option Bytes) (keyLength : ℤ)

/-- What a client is told: that its arguments are refused, `FALSE` and the code of the error, `TRUE`
with bytes or a value, nothing at all, that the process ends; or the behaviour is undefined. -/
inductive Told
  | refused
  | failed (code : Option ErrorCode)
  | succeeded (data : Bytes) (value : Option (GValue GObject))
  | waiting
  | stopped (stop : Stop)
  | undefined

def CallResult.told {α : Type} (f : α → Told) : CallResult α → Told
  | .refused => .refused
  | .failed error => .failed (error.map GError.code)
  | .succeeded a => f a
  | .waiting => .waiting

def ReadResult.told (r : ReadResult) : Told :=
  if r.success then .succeeded [] r.value else .failed (r.error.map GError.code)

variable {ω : Type} {h : Host}

/-! ## The synchronous calls -/

section Calls

variable (env : Env) (heap : Heap) (s : Storage h) (formatter : Option (Formatter ω))

/-- The memory behind a pointer, if as many bytes can be read there as the length says. -/
def readable (p : Option Bytes) (length : ℤ) : Option Bytes :=
  match p with
  | none => if length = 0 then some [] else none
  | some p => if length < -1 then none else some p

/-- `catalina_storage_set`. The value is not checked: `strlen` reads it at once, the handler if it
gets to the store. -/
def syncSet (key : Bytes) (keyLength : ℤ) (value : Option Bytes) (valueLength : ℤ) :
    Storage h × Told :=
  match readable value valueLength with
  | some value => (catalinaStorageSet env s 0 0 key keyLength value valueLength).map id
      (CallResult.told fun _ => .succeeded [] none)
  | none =>
    if ¬ (keyLength = -1 ∨ 0 < keyLength) then (s, .refused)
    else if valueLength = -1 ∨ s.tdb.ctx ≠ none ∧ s.txn = 0 then (s, .undefined)
    else (catalinaStorageSet env s 0 0 key keyLength [] 0).map id
      (CallResult.told fun _ => .succeeded [] none)

def syncCall : PlainCall ω → Storage h × Told
  | .set (some key) keyLength value valueLength => syncSet env s key keyLength value valueLength
  | .get (some key) keyLength =>
    (catalinaStorageGet env s 0 key keyLength).map id
      (CallResult.told fun data => .succeeded data none)
  | .setValue (some key) keyLength v =>
    match catalinaStorageSetValue formatter env s 1 0 key keyLength v with
    | .error stop => (s, .stopped stop)
    | .ok (s', r) => (s', r.told fun _ => .succeeded [] none)
  | .getValue (some key) keyLength =>
    if keyLength = -1 ∨ 0 < keyLength then
      match catalinaStorageGetValue formatter env s heap 1 key keyLength with
      | (s', .error stop) => (s', .stopped stop)
      | (s', .ok r) => (s', r.told)
    else (s, .refused)
  | _ => (s, .refused)

/-! ## The asynchronous calls -/

/-- The storage with a client that has made no call yet. -/
def idleClient (useIdle : Bool) : AsyncStorage h ω :=
  { storage := s, tasks := { formatter, useIdle } }

def PlainCall.async : PlainCall ω → AsyncCall ω
  | .set key keyLength value valueLength => .setAsync 0 key keyLength value valueLength
  | .get key keyLength => .getAsync key keyLength
  | .setValue key keyLength v => .setValueAsync 0 key keyLength v
  | .getValue key keyLength => .getValueAsync key keyLength

/-- What the `_finish` function of a call hands out on success. -/
def PlainCall.outcome : PlainCall ω → AsyncTask → Told
  | .get _ _, t => .succeeded t.data none
  | .getValue _ _, t => .succeeded [] t.value
  | _, _ => .succeeded [] none

/-- What the client has been told by its `_finish` function, where `posted` says that the call has
posted a message. -/
def PlainCall.told (call : PlainCall ω) (posted : Bool) (c : Tasks ω) : Told :=
  match c.faults, c.stopped, c.finished with
  | _ :: _, _, _ => .undefined
  | [], some stop, _ => .stopped stop
  | [], none, (_, t) :: _ => if t.success then call.outcome t else .failed (t.error.map GError.code)
  | [], none, [] => if posted then .waiting else .refused

/-- The asynchronous call, its message, and the callbacks that are scheduled then: that of the task
it has posted, and that of the other task of a call on values. -/
def asyncCall (useIdle : Bool) (call : PlainCall ω) : Storage h × Told :=
  let c := (idleClient s formatter useIdle).call call.async
  let c' := [AsyncEvent.handle 0, .idle 0, .idle 0].foldl (AsyncStorage.step env heap) c
  (c'.storage, call.told (!c.posted.isEmpty) c'.tasks)

end Calls

/-! ## Completions and scheduled callbacks -/

/-- A task that has been completed. -/
def AsyncTask.completed (t : AsyncTask) (success : Bool) : AsyncTask :=
  { t with life := .completed, success }

/-- A task that has been released. -/
def AsyncTask.released (t : AsyncTask) : AsyncTask := { t with life := .released }

section Callbacks

variable {env : Env} {heap : Heap} {s : Storage h} {c : Tasks ω} {i o : ℕ} {b : Bool}

theorem update_congr {f g : AsyncTask → AsyncTask} (hfg : f (c.task i) = g (c.task i)) :
    c.update i f = c.update i g := by
  unfold Tasks.update
  rw [hfg]

theorem completeValue_congr {f g : AsyncTask → AsyncTask} (hfg : f (c.task o) = g (c.task o)) :
    (c.update o f).completeValue o b = (c.update o g).completeValue o b := by
  rw [update_congr hfg]

theorem completeTask_created {run : Tasks ω → ℕ → Tasks ω} (hlife : (c.task i).life = .created) :
    Tasks.completeTask run c i b =
      if c.useIdle then { c.update i (·.completed b) with idle := c.idle ++ [i] }
      else run (c.update i (·.completed b)) i := by
  have hdone : (c.update i fun t =>
      { t with life := if t.life = .created then .completed else t.life, success := b }) =
        c.update i (·.completed b) := update_congr (by rw [AsyncTask.completed, if_pos hlife])
  unfold Tasks.completeTask
  rw [if_pos hlife]
  dsimp only
  rw [hdone]
  rfl

theorem step_quiet {c : AsyncStorage h ω} (hidle : c.tasks.idle = []) :
    c.step env heap (.idle 0) = c := by
  unfold AsyncStorage.step Tasks.runIdle
  rw [hidle]
  split_ifs <;> rfl

theorem step_unposted {c : AsyncStorage h ω} (hp : c.posted = []) (n : ℕ) :
    c.step env heap (.handle n) = c := by
  unfold AsyncStorage.step AsyncStorage.handle
  rw [hp]
  split_ifs <;> rfl

theorem step_runIdle {c : AsyncStorage h ω} (hstop : c.tasks.stopped = none)
    (hrun : c.storage.stopped = false) (n : ℕ) :
    c.step env heap (.idle n) = { c with tasks := c.tasks.runIdle heap n } := by
  unfold AsyncStorage.step
  rw [hstop, hrun]
  rfl

theorem step_idle {run : Tasks ω → ℕ → Tasks ω} (hrun' : s.stopped = false)
    (hlife : (c.task i).life = .created) (hidle : c.idle = []) (hstop : c.stopped = none)
    (hrun : run (c.update i (·.completed b)) i = (c.update i (·.completed b)).runCallback heap i)
    (hquiet : c.useIdle = false → (run (c.update i (·.completed b)) i).idle = []) :
    AsyncStorage.step env heap ⟨s, Tasks.completeTask run c i b, []⟩ (.idle 0) =
      ⟨s, run (c.update i (·.completed b)) i, []⟩ := by
  rw [completeTask_created hlife]
  cases hu : c.useIdle with
  | false =>
    rw [if_neg (by decide)]
    exact step_quiet (hquiet hu)
  | true =>
    rw [if_pos rfl, hrun]
    obtain ⟨formatter, useIdle, task, next, idle, finished, faults, stopped⟩ := c
    subst hidle hstop
    exact step_runIdle rfl hrun' 0

/-- What becomes of the answer to a get in `catalina_storage_get_value_async_cb`. -/
def valueOutcome (heap : Heap) (formatter : Option (Formatter ω)) (got : AsyncTask) :
    Except Stop ReadResult :=
  if ¬ got.success then .ok ⟨false, none, got.error⟩
  else
    match formatter with
    | none => .ok ⟨false, none, some ⟨.storageState,
        "CatalinaStorage is missing a formatter for deserialization"⟩⟩
    | some f => f.deserialize (heap.block got.data) got.data.length

theorem task_released (hne : o ≠ i) (ho : c.task o = {}) :
    (c.update i AsyncTask.released).task o = {} := (Function.update_of_ne hne _ _).trans ho

theorem released_of_completed (hi : (c.task i).life = .completed) (hne : o ≠ i)
    (ho : c.task o = {}) :
    ((c.read i).storageTaskFree i).read o = c.update i AsyncTask.released := by
  have hfree : c.storageTaskFree i = c.update i AsyncTask.released := if_neg (by rw [hi]; decide)
  have hread : c.read i = c := if_neg (by rw [hi]; decide)
  rw [hread, hfree, Tasks.read, task_released hne ho, if_neg (by decide)]

theorem getValueAsyncCb_eq (hi : (c.task i).life = .completed) (hne : o ≠ i) (ho : c.task o = {}) :
    c.getValueAsyncCb heap i o = match valueOutcome heap c.formatter (c.task i) with
      | .error stop => { c.update i AsyncTask.released with stopped := some stop }
      | .ok r => ((c.update i AsyncTask.released).update o fun t =>
          { t with value := r.value, error := r.error }).completeValue o r.success := by
  have htask := task_released hne ho
  have hformatter : (c.update i AsyncTask.released).formatter = c.formatter := rfl
  unfold Tasks.getValueAsyncCb valueOutcome
  rw [released_of_completed hi hne ho]
  dsimp only
  rw [hformatter]
  split_ifs
  · cases c.formatter with
    | none => exact completeValue_congr (by rw [htask])
    | some f =>
      cases f.deserialize (heap.block (c.task i).data) (c.task i).data.length with
      | error stop => rfl
      | ok r => rfl
  · exact completeValue_congr (by rw [htask]; rfl)

theorem setValueAsyncCb_eq (hi : (c.task i).life = .completed) (hne : o ≠ i) (ho : c.task o = {}) :
    c.setValueAsyncCb i o = ((c.update i AsyncTask.released).update o fun t =>
      { t with error := (c.task i).error }).completeValue o (c.task i).success := by
  have htask := task_released hne ho
  unfold Tasks.setValueAsyncCb
  rw [released_of_completed hi hne ho]
  exact completeValue_congr (by rw [htask]; rfl)

end Callbacks

section Compare

variable {env : Env} {heap : Heap} {s s' : Storage h} {formatter : Option (Formatter ω)}
  {useIdle : Bool} {call : PlainCall ω} {r : StorageTask}

/-! ## One message and its callbacks -/

/-- What the client of a call that posts one message is told, given the answers to it. -/
def toldOf (call : PlainCall ω) : List StorageTask → Told
  | [] => .waiting
  | r :: _ =>
    if r.success then call.outcome { data := r.data } else .failed (r.error.map GError.code)

theorem handle_posted {c : AsyncStorage h ω} {t : StorageTask} {rs : List StorageTask}
    (hp : c.posted = [t]) (hs : handleMessage env c.storage t = s')
    (hr : s'.replies = c.storage.replies ++ rs) : c.handle env heap 0 =
      { storage := s', tasks := rs.foldl (Tasks.answer heap) c.tasks, posted := [] } := by
  unfold AsyncStorage.handle
  rw [hp]
  change AsyncStorage.mk (handleMessage env c.storage t)
    (((handleMessage env c.storage t).replies.drop c.storage.replies.length).foldl _ _) [] = _
  rw [hs, hr, List.drop_left]

theorem asyncCall_posted {c : Tasks ω} {t : StorageTask} {rs : List StorageTask}
    (hc : (idleClient s formatter useIdle).call call.async = ⟨s, c, [t]⟩) (hstop : c.stopped = none)
    (hrun : s.stopped = false) (hs : handleMessage env s t = s')
    (hr : s'.replies = s.replies ++ rs) :
    asyncCall env heap s formatter useIdle call =
      ((AsyncStorage.step env heap (AsyncStorage.step env heap
          ⟨s', rs.foldl (Tasks.answer heap) c, []⟩ (.idle 0)) (.idle 0)).storage,
        call.told true (AsyncStorage.step env heap (AsyncStorage.step env heap
          ⟨s', rs.foldl (Tasks.answer heap) c, []⟩ (.idle 0)) (.idle 0)).tasks) := by
  have hstep : AsyncStorage.step env heap (⟨s, c, [t]⟩ : AsyncStorage h ω) (.handle 0) =
      ⟨s', rs.foldl (Tasks.answer heap) c, []⟩ := by
    rw [← handle_posted (c := ⟨s, c, [t]⟩) rfl hs hr]
    unfold AsyncStorage.step
    rw [hstop, hrun]
    rfl
  unfold asyncCall
  rw [hc]
  dsimp only
  rw [List.foldl_cons, List.foldl_cons, List.foldl_cons, List.foldl_nil, hstep]
  rfl

/-- The tasks when a client has made its first call. -/
def clientTask (formatter : Option (Formatter ω)) (useIdle : Bool) : Tasks ω :=
  Tasks.storageTaskNew { formatter, useIdle } .client

theorem asyncCall_unanswered {c : Tasks ω} {t : StorageTask}
    (hc : (idleClient s formatter useIdle).call call.async = ⟨s, c, [t]⟩)
    (hquiet : c.stopped = none ∧ c.idle = [] ∧ c.finished = [] ∧ c.faults = [])
    (hrun : s.stopped = false) (hs : handleMessage env s t = s') (hr : s'.replies = s.replies) :
    asyncCall env heap s formatter useIdle call = (s', .waiting) := by
  have hr' : s'.replies = s.replies ++ [] := by rw [hr, List.append_nil]
  have hidle : (AsyncStorage.mk s' ([].foldl (Tasks.answer heap) c) []).tasks.idle = [] := hquiet.2.1
  rw [asyncCall_posted hc hquiet.1 hrun hs hr', step_quiet hidle, step_quiet hidle]
  obtain ⟨formatter, useIdle, task, next, idle, finished, faults, stopped⟩ := c
  obtain ⟨rfl, rfl, rfl, rfl⟩ := hquiet
  rfl

theorem outcome_congr {t u : AsyncTask} (hdata : t.data = u.data) (hvalue : t.value = u.value) :
    call.outcome t = call.outcome u := by
  cases call with
  | set _ _ _ _ => rfl
  | get _ _ => exact congrArg (Told.succeeded · none) hdata
  | setValue _ _ _ => rfl
  | getValue _ _ => exact congrArg (Told.succeeded []) hvalue

theorem asyncCall_client {message : ℕ → StorageTask} {rs : List StorageTask}
    (hc : (idleClient s formatter useIdle).call call.async =
      (idleClient s formatter useIdle).post .client message)
    (hrun : s.stopped = false) (hrun' : s'.stopped = false)
    (hs : handleMessage env s (message 0) = s') (hr : s'.replies = s.replies ++ rs)
    (hrs : rs = [] ∨ ∃ r, rs = [r] ∧ r.id = 0) :
    asyncCall env heap s formatter useIdle call = (s', toldOf call rs) := by
  rcases hrs with rfl | ⟨r, rfl, hid⟩
  · exact asyncCall_unanswered hc ⟨rfl, rfl, rfl, rfl⟩ hrun hs (by rw [hr, List.append_nil])
  · have hc' : (idleClient s formatter useIdle).call call.async =
        ⟨s, clientTask formatter useIdle, [message 0]⟩ := hc
    have hanswer : (clientTask formatter useIdle).answer heap r =
        Tasks.completeTask (Tasks.runCallback heap) ((clientTask formatter useIdle).update 0 fun t =>
          { t with error := r.error, txnId := r.txnId, data := r.data }) 0 r.success := by
      rw [Tasks.answer, hid]
    rw [asyncCall_posted hc' rfl hrun hs hr, List.foldl_cons, List.foldl_nil, hanswer,
      step_idle hrun' rfl rfl rfl rfl fun _ => rfl, step_quiet rfl]
    exact Prod.ext rfl (if_congr Iff.rfl (outcome_congr rfl rfl) rfl)

/-- The tasks after a call on values has posted its message. -/
def valueTasks (formatter : Option (Formatter ω)) (useIdle : Bool) (cb : Callback) : Tasks ω :=
  (clientTask formatter useIdle).storageTaskNew cb

/-- The tasks when the answer to the message is there. -/
def answeredTasks (formatter : Option (Formatter ω)) (useIdle : Bool) (cb : Callback)
    (r : StorageTask) : Tasks ω :=
  ((valueTasks formatter useIdle cb).update 1 fun t =>
    { t with error := r.error, txnId := r.txnId, data := r.data }).update 1 (·.completed r.success)

theorem asyncCall_value {cb : Callback} {c : Tasks ω} {t : StorageTask}
    (hc : (idleClient s formatter useIdle).call call.async =
      ⟨s, valueTasks formatter useIdle cb, [t]⟩)
    (hrun : s.stopped = false) (hrun' : s'.stopped = false) (hs : handleMessage env s t = s')
    (hr : s'.replies = s.replies ++ [r]) (hid : r.id = 1)
    (hcb : (answeredTasks formatter useIdle cb r).runCallback heap 1 = c)
    (hquiet : useIdle = false → c.idle = []) :
    asyncCall env heap s formatter useIdle call =
      ((AsyncStorage.step env heap ⟨s', c, []⟩ (.idle 0)).storage,
        call.told true (AsyncStorage.step env heap ⟨s', c, []⟩ (.idle 0)).tasks) := by
  have hanswer : (valueTasks formatter useIdle cb).answer heap r =
      Tasks.completeTask (Tasks.runCallback heap)
        ((valueTasks formatter useIdle cb).update 1 fun t =>
          { t with error := r.error, txnId := r.txnId, data := r.data }) 1 r.success := by
    rw [Tasks.answer, hid]
  rw [asyncCall_posted hc rfl hrun hs hr, List.foldl_cons, List.foldl_nil, hanswer,
    step_idle hrun' rfl rfl rfl rfl fun hu => by rw [← hquiet hu, ← hcb]; rfl]
  rw [← hcb]
  rfl

theorem asyncCall_getValue {k : Bytes} {key : Option Bytes} {keyLength : ℤ}
    (hk : duplicate key keyLength = some k) (hrun : s.stopped = false) (hrun' : s'.stopped = false)
    (hs : handleMessage env s (getTask 1 k) = s') (hr : s'.replies = s.replies ++ [r])
    (hid : r.id = 1) :
    asyncCall env heap s formatter useIdle (.getValue key keyLength) =
      (s', match valueOutcome heap formatter
          { success := r.success, error := r.error, data := r.data } with
        | .error stop => .stopped stop
        | .ok rr => rr.told) := by
  have hc : (idleClient s formatter useIdle).call (PlainCall.getValue key keyLength).async =
      ⟨s, valueTasks formatter useIdle (.getValueAsyncCb 0), [getTask 1 k]⟩ := by
    change AsyncStorage.getValueAsync _ _ _ = _
    unfold AsyncStorage.getValueAsync AsyncStorage.getAsync
    rw [hk]
    rfl
  have hcb : Tasks.getValueAsyncCb heap
      (answeredTasks formatter useIdle (.getValueAsyncCb 0) r) 1 0 = _ :=
    getValueAsyncCb_eq (i := 1) (o := 0) rfl (by decide) rfl
  change _ = match valueOutcome heap formatter
      { success := r.success, error := r.error, data := r.data } with
    | .error _ => _
    | .ok _ => _ at hcb
  cases ho : valueOutcome heap formatter
      { success := r.success, error := r.error, data := r.data } with
  | error stop =>
    rw [ho] at hcb
    rw [asyncCall_value hc hrun hrun' hs hr hid hcb fun _ => rfl]
    rfl
  | ok rr =>
    rw [ho] at hcb
    rw [asyncCall_value hc hrun hrun' hs hr hid hcb (by rintro rfl; rfl)]
    obtain ⟨b, v, e⟩ := rr
    rw [step_runIdle (by cases useIdle <;> rfl) hrun']
    cases useIdle <;> cases b <;> rfl

theorem sized_buffer (buffer : Bytes) : sized buffer buffer.length = buffer := by
  rw [sized, if_neg (by omega), Int.toNat_natCast, List.take_length]

theorem duplicate_buffer {buffer : Bytes} (hne : buffer ≠ []) :
    duplicate (some buffer) buffer.length = some buffer := by
  have hpos : 0 < buffer.length := List.length_pos_of_ne_nil hne
  rw [duplicate, if_pos (Or.inr (by omega)), sized_buffer]

theorem setValueAsync_eq (f : Formatter ω) (key : Option Bytes) (keyLength : ℤ) (v : GValue ω) :
    (idleClient s (some f) useIdle).call (PlainCall.setValue key keyLength v).async =
      match f.serialize v with
      | .error stop => ⟨s, { clientTask (some f) useIdle with stopped := some stop }, []⟩
      | .ok (.error e) => AsyncStorage.failSetValue ⟨s, clientTask (some f) useIdle, []⟩ 0 e
      | .ok (.ok buffer) => AsyncStorage.setAsync ⟨s, clientTask (some f) useIdle, []⟩
          (.setValueAsyncCb 0) 0 key keyLength (some buffer) buffer.length := rfl

theorem asyncCall_setValue {f : Formatter ω} {v : GValue ω} {buffer k : Bytes} {key : Option Bytes}
    {keyLength : ℤ} {rs : List StorageTask} (hser : f.serialize v = .ok (.ok buffer))
    (hne : buffer ≠ []) (hk : duplicate key keyLength = some k) (hrun : s.stopped = false)
    (hrun' : s'.stopped = false) (hs : handleMessage env s (setTask 1 0 k buffer) = s')
    (hr : s'.replies = s.replies ++ rs) (hrs : rs = [] ∨ ∃ r, rs = [r] ∧ r.id = 1) :
    asyncCall env heap s (some f) useIdle (.setValue key keyLength v) =
      (s', toldOf (.setValue key keyLength v) rs) := by
  have hc : (idleClient s (some f) useIdle).call (PlainCall.setValue key keyLength v).async =
      ⟨s, valueTasks (some f) useIdle (.setValueAsyncCb 0), [setTask 1 0 k buffer]⟩ := by
    rw [setValueAsync_eq, hser]
    dsimp only
    unfold AsyncStorage.setAsync
    rw [hk, duplicate_buffer hne]
    rfl
  rcases hrs with rfl | ⟨r, rfl, hid⟩
  · exact asyncCall_unanswered hc ⟨rfl, rfl, rfl, rfl⟩ hrun hs (by rw [hr, List.append_nil])
  · have hcb : (answeredTasks (some f) useIdle (.setValueAsyncCb 0) r).setValueAsyncCb 1 0 = _ :=
      setValueAsyncCb_eq (i := 1) (o := 0) rfl (by decide) rfl
    rw [asyncCall_value hc hrun hrun' hs hr hid hcb (by rintro rfl; rfl),
      step_runIdle (by cases useIdle <;> rfl) hrun']
    obtain ⟨id, what, txnId, key', data, value, success, error⟩ := r
    cases useIdle <;> cases success <;> rfl

/-! ## Refusals and failures before a message is posted -/

theorem asyncCall_unposted {c : Tasks ω}
    (hc : (idleClient s formatter useIdle).call call.async = ⟨s, c, []⟩)
    (hquiet : c.idle = [] ∧ c.finished = [] ∧ c.faults = []) :
    asyncCall env heap s formatter useIdle call = (s, c.stopped.elim .refused .stopped) := by
  have hidle : (AsyncStorage.mk s c []).tasks.idle = [] := hquiet.1
  unfold asyncCall
  rw [hc]
  dsimp only
  rw [List.foldl_cons, List.foldl_cons, List.foldl_cons, List.foldl_nil, step_unposted rfl,
    step_quiet hidle, step_quiet hidle]
  obtain ⟨formatter, useIdle, task, next, idle, finished, faults, stopped⟩ := c
  obtain ⟨rfl, rfl, rfl⟩ := hquiet
  cases stopped <;> rfl

theorem asyncCall_set_refused {key value : Option Bytes} {keyLength valueLength : ℤ}
    (hn : duplicate key keyLength = none ∨ duplicate value valueLength = none) :
    asyncCall env heap s formatter useIdle (.set key keyLength value valueLength) =
      (s, .refused) := by
  have hc : (idleClient s formatter useIdle).call
      (PlainCall.set key keyLength value valueLength : PlainCall ω).async =
        idleClient s formatter useIdle := by
    change AsyncStorage.setAsync _ _ _ _ _ _ _ = _
    unfold AsyncStorage.setAsync
    rcases hn with hn | hn
    · rw [hn]
    · rw [hn]
      cases duplicate key keyLength <;> rfl
  exact asyncCall_unposted hc ⟨rfl, rfl, rfl⟩

theorem asyncCall_get_refused {key : Option Bytes} {keyLength : ℤ}
    (hn : duplicate key keyLength = none) :
    asyncCall env heap s formatter useIdle (.get key keyLength) = (s, .refused) := by
  have hc : (idleClient s formatter useIdle).call
      (PlainCall.get key keyLength : PlainCall ω).async =
      idleClient s formatter useIdle := by
    change AsyncStorage.getAsync _ _ _ _ = _
    unfold AsyncStorage.getAsync
    rw [hn]
  exact asyncCall_unposted hc ⟨rfl, rfl, rfl⟩

theorem asyncCall_getValue_refused {key : Option Bytes} {keyLength : ℤ}
    (hn : duplicate key keyLength = none) :
    asyncCall env heap s formatter useIdle (.getValue key keyLength) = (s, .refused) := by
  have hc : (idleClient s formatter useIdle).call
      (PlainCall.getValue key keyLength : PlainCall ω).async =
        ⟨s, clientTask formatter useIdle, []⟩ := by
    change AsyncStorage.getValueAsync _ _ _ = _
    unfold AsyncStorage.getValueAsync AsyncStorage.getAsync
    rw [hn]
    rfl
  exact asyncCall_unposted hc ⟨rfl, rfl, rfl⟩

theorem asyncCall_setValue_refused {f : Formatter ω} {v : GValue ω} {buffer : Bytes}
    {key : Option Bytes} {keyLength : ℤ} (hser : f.serialize v = .ok (.ok buffer))
    (hn : duplicate key keyLength = none ∨ buffer = []) :
    asyncCall env heap s (some f) useIdle (.setValue key keyLength v) = (s, .refused) := by
  have hc : (idleClient s (some f) useIdle).call (PlainCall.setValue key keyLength v).async =
      ⟨s, clientTask (some f) useIdle, []⟩ := by
    rw [setValueAsync_eq, hser]
    dsimp only
    unfold AsyncStorage.setAsync
    rcases hn with hn | rfl
    · rw [hn]
    · cases duplicate key keyLength <;> rfl
  exact asyncCall_unposted hc ⟨rfl, rfl, rfl⟩

theorem asyncCall_setValue_stopped {f : Formatter ω} {v : GValue ω} {stop : Stop}
    {key : Option Bytes} {keyLength : ℤ} (hser : f.serialize v = .error stop) :
    asyncCall env heap s (some f) useIdle (.setValue key keyLength v) = (s, .stopped stop) := by
  have hc : (idleClient s (some f) useIdle).call (PlainCall.setValue key keyLength v).async =
      ⟨s, { clientTask (some f) useIdle with stopped := some stop }, []⟩ := by
    rw [setValueAsync_eq, hser]
  exact asyncCall_unposted hc ⟨rfl, rfl, rfl⟩

/-- **The exits on which the task is released twice.** -/
theorem asyncCall_setValue_undefined (hrun : s.stopped = false) {v : GValue ω} {key : Option Bytes}
    {keyLength : ℤ} (hf : ∀ f, formatter = some f → ∃ e, f.serialize v = .ok (.error e)) :
    (asyncCall env heap s formatter useIdle (.setValue key keyLength v)).2 = .undefined := by
  have hc : ∃ e, (idleClient s formatter useIdle).call (PlainCall.setValue key keyLength v).async =
      AsyncStorage.failSetValue ⟨s, clientTask formatter useIdle, []⟩ 0 e := by
    cases formatter with
    | none => exact ⟨_, rfl⟩
    | some f =>
      obtain ⟨e, he⟩ := hf f rfl
      refine ⟨e, ?_⟩
      rw [setValueAsync_eq, he]
  obtain ⟨e, hc⟩ := hc
  unfold asyncCall
  rw [hc]
  dsimp only
  rw [List.foldl_cons, List.foldl_cons, List.foldl_cons, List.foldl_nil, step_unposted rfl]
  cases useIdle with
  | false =>
    have hidle : (AsyncStorage.failSetValue ⟨s, clientTask formatter false, []⟩ 0 e).tasks.idle = [] :=
      rfl
    rw [step_quiet hidle, step_quiet hidle]
    rfl
  | true =>
    have hgo : (AsyncStorage.failSetValue ⟨s, clientTask formatter true, []⟩ 0 e).storage.stopped =
      false := hrun
    rw [step_runIdle rfl hgo, step_quiet rfl]
    rfl

end Compare

end Catalina
