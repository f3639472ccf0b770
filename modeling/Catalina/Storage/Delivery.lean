import Catalina.Storage.Calls
import Catalina.Storage.Ownership

/-!
# What the clients are told

A handler answers a message once. The answer travels with its task to the callback, and from the
callback of a call on values to a second task, until a `_finish` function reads it for the client.

* `Tells`: what a `_finish` function reads, given the answer and the callback it came through.
* `Tasks.Told`, `Tasks.Carries`: an answer that a client has, or that a scheduled callback has.
* `Tasks.Delivers`: every answer is in one of these places; `delivers_answer`, `delivers_runIdle`.
* **`answers_delivered`**: over a run, every answer is told once, and nothing else is told.
-/

namespace Catalina

variable {ω : Type} {h : Host} {env : Env} {heap : Heap} {F : Option (Formatter ω) → Prop}

/-- What a `_finish` function reads in the task `t` is what the answer `r` says, if it has come
through this callback. A value is what one of the formatters in `F` makes of the bytes. -/
def Tells (heap : Heap) (F : Option (Formatter ω) → Prop) (r : StorageTask) (t : AsyncTask) :
    Callback → Prop
  | .client => t.success = r.success ∧ t.error = r.error ∧ t.txnId = r.txnId ∧ t.data = r.data
  | .getValueAsyncCb _ => ∃ f, F f ∧
      valueOutcome heap f { success := r.success, error := r.error, data := r.data } =
        .ok ⟨t.success, t.value, t.error⟩
  | .setValueAsyncCb _ => t.success = r.success ∧ t.error = r.error

namespace Tasks

/-- The task of the client that waits for what becomes of the task `i`. -/
def client (c : Tasks ω) (i : ℕ) : ℕ :=
  match (c.task i).callback with
  | .client => i
  | .getValueAsyncCb task => task
  | .setValueAsyncCb task => task

/-- The `_finish` function that has read `p` has told its client the answer `r`. -/
def Told (heap : Heap) (F : Option (Formatter ω) → Prop) (c : Tasks ω) (p : ℕ × AsyncTask)
    (r : StorageTask) : Prop :=
  r.id < c.next ∧ c.client r.id = p.1 ∧ Tells heap F r p.2 (c.task r.id).callback

/-- The task `i` has the answer `r`: it is the one that was answered, or the one that the callback
of that one has completed. -/
def Carries (heap : Heap) (F : Option (Formatter ω) → Prop) (c : Tasks ω) (i : ℕ)
    (r : StorageTask) : Prop :=
  r.id < c.next ∧ r.id = i ∧ Tells heap F r (c.task i) .client ∨
    (c.task i).callback = .client ∧ c.Told heap F (i, c.task i) r

/-- Each of the answers in `rs` has been told to its client, is carried by a task whose callback is
scheduled, or has been lost with the process. -/
structure Delivers (heap : Heap) (F : Option (Formatter ω) → Prop) (c : Tasks ω)
    (rs : Multiset StorageTask) : Prop where
  fresh : ∀ i, (c.task i).life = .created → c.task i = { callback := (c.task i).callback }
  gone : ∀ p ∈ c.finished, p.1 < c.next ∧ (c.task p.1).life = .released
  once : (c.finished.map Prod.fst).Nodup
  formatter : F c.formatter
  matched : ∃ told carried lost, rs = told + carried + lost ∧ (c.stopped = none → lost = 0) ∧
    Multiset.Rel (c.Told heap F) ↑c.finished told ∧ Multiset.Rel (c.Carries heap F) ↑c.idle carried

section Delivers

variable {c c' : Tasks ω} {W : Multiset ℕ} {rs : Multiset StorageTask} {r : StorageTask} {i o : ℕ}
  {cb : Callback} {l : Life} {b : Bool}

theorem Told.congr {p : ℕ × AsyncTask} (hr : c.Told heap F p r) (hnext : c.next ≤ c'.next)
    (hcb : ∀ j < c.next, (c'.task j).callback = (c.task j).callback) : c'.Told heap F p r := by
  obtain ⟨hlt, hclient, htells⟩ := hr
  have hcb' := hcb r.id hlt
  refine ⟨hlt.trans_le hnext, ?_, by rwa [hcb']⟩
  rw [← hclient, client, client, hcb']

theorem Carries.congr (hr : c.Carries heap F i r) (hnext : c.next ≤ c'.next)
    (hcb : ∀ j < c.next, (c'.task j).callback = (c.task j).callback)
    (hi : c'.task i = c.task i) : c'.Carries heap F i r := by
  unfold Carries
  rw [hi]
  exact hr.imp (fun hown => ⟨hown.1.trans_le hnext, hown.2⟩)
    fun hother => ⟨hother.1, hother.2.congr hnext hcb⟩

theorem Loose.notMem_idle (hl : c.Loose i cb l W) : i ∉ c.idle := fun hi =>
  hl.out (mem_owed_self (Or.inr hi))

theorem Delivers.congr (hd : c.Delivers heap F rs) (hfin : c'.finished = c.finished)
    (hidle : c'.idle = c.idle) (hstop : c'.stopped = c.stopped)
    (hformatter : c'.formatter = c.formatter) (hnext : c.next ≤ c'.next)
    (htask : ∀ j, j ≠ i → c'.task j = c.task j) (hi : i ∉ c.idle)
    (hknown : i < c.next →
      (c'.task i).callback = (c.task i).callback ∧ (c.task i).life ≠ .released)
    (hfresh : (c'.task i).life = .created → c'.task i = { callback := (c'.task i).callback }) :
    c'.Delivers heap F rs := by
  have hcb : ∀ j < c.next, (c'.task j).callback = (c.task j).callback := by
    intro j hj
    by_cases hji : j = i
    · exact hji ▸ (hknown (hji ▸ hj)).1
    · rw [htask j hji]
  refine ⟨fun j hj => ?_, fun p hp => ?_, hfin ▸ hd.once, hformatter ▸ hd.formatter, ?_⟩
  · by_cases hji : j = i
    · subst hji
      exact hfresh hj
    · rw [htask j hji] at hj ⊢
      exact hd.fresh j hj
  · obtain ⟨hlt, hlife⟩ := hd.gone p (hfin ▸ hp)
    have hpi : p.1 ≠ i := fun hpi => (hknown (hpi ▸ hlt)).2 (hpi ▸ hlife)
    exact ⟨hlt.trans_le hnext, by rw [htask _ hpi, hlife]⟩
  · obtain ⟨told, carried, lost, hrs, hlost, htold, hcarried⟩ := hd.matched
    refine ⟨told, carried, lost, hrs, fun hs => hlost (hstop ▸ hs), ?_, ?_⟩
    · rw [hfin]
      exact htold.mono fun _ _ _ _ hr => hr.congr hnext hcb
    · rw [hidle]
      exact hcarried.mono fun j hj _ _ hr =>
        hr.congr hnext hcb (htask j fun hji => hi (hji ▸ Multiset.mem_coe.mp hj))

theorem Delivers.update (hd : c.Delivers heap F rs) (hl : c.Loose i cb l W) (hne : l ≠ .released)
    {f : AsyncTask → AsyncTask} (hf : (f (c.task i)).callback = (c.task i).callback)
    (hlife : (f (c.task i)).life ≠ .created) : (c.update i f).Delivers heap F rs := by
  refine hd.congr (i := i) rfl rfl rfl rfl (le_refl _) (fun _ => task_update_of_ne f)
    hl.notMem_idle (fun _ => ?_) fun hcreated => ?_
  · rw [task_update_self]
    exact ⟨hf, by rwa [hl.life]⟩
  · rw [task_update_self] at hcreated
    exact absurd hcreated hlife

theorem Delivers.new (hd : c.Delivers heap F rs) (hs : c.Sound W) (cb : Callback) :
    (c.storageTaskNew cb).Delivers heap F rs := by
  refine hd.congr (i := c.next) rfl rfl rfl rfl (Nat.le_succ _)
    (fun j hj => Function.update_of_ne hj _ _) (fun hidle => ?_) (fun hlt => absurd hlt (lt_irrefl _))
    fun _ => ?_
  · exact lt_irrefl _ (hs.known _ (mem_owed_self (Or.inr hidle)))
  · have hself : (c.storageTaskNew cb).task c.next = { callback := cb } := Function.update_self ..
    rw [hself]

/-- When the process ends, the answers that are on their way are lost. -/
theorem Delivers.stop (hd : c.Delivers heap F rs) (V : Multiset StorageTask) (stop : Stop) :
    { c with stopped := some stop }.Delivers heap F (V + rs) := by
  obtain ⟨told, carried, lost, rfl, -, htold, hcarried⟩ := hd.matched
  refine ⟨hd.fresh, hd.gone, hd.once, hd.formatter, told, carried, V + lost, ?_,
    (fun hstop => by cases hstop), htold, hcarried⟩
  abel

/-! ## Completions and callbacks -/

theorem Delivers.schedule (hd : c.Delivers heap F rs) (hr : c.Carries heap F i r) :
    { c with idle := c.idle ++ [i] }.Delivers heap F (r ::ₘ rs) := by
  obtain ⟨told, carried, lost, rfl, hlost, htold, hcarried⟩ := hd.matched
  refine ⟨hd.fresh, hd.gone, hd.once, hd.formatter, told, r ::ₘ carried, lost, ?_, hlost, htold, ?_⟩
  · rw [Multiset.add_cons, Multiset.cons_add]
  · have hidle : (↑(c.idle ++ [i]) : Multiset ℕ) = i ::ₘ ↑c.idle := by
      rw [← Multiset.coe_add, Multiset.coe_singleton, add_comm, Multiset.singleton_add]
    change Multiset.Rel (c.Carries heap F) ↑(c.idle ++ [i]) _
    rw [hidle]
    exact Multiset.Rel.cons hr hcarried

theorem Carries.told (hr : c.Carries heap F i r) (hcb : (c.task i).callback = .client) :
    c.Told heap F (i, c.task i) r := by
  rcases hr with ⟨hlt, rfl, htells⟩ | ⟨-, htold⟩
  · exact ⟨hlt, by rw [client, hcb], by rwa [hcb]⟩
  · exact htold

theorem Delivers.finish (hd : c.Delivers heap F rs) (hl : c.Loose i .client .completed W)
    (hr : c.Carries heap F i r) : (c.finish i).Delivers heap F (r ::ₘ rs) := by
  have hread : c.read i = c := read_eq (by rw [hl.life]; decide)
  have hd' : (c.update i AsyncTask.released).Delivers heap F rs :=
    hd.update hl (by decide) rfl fun hcreated => by cases hcreated
  have heq : c.finish i =
      { c.update i AsyncTask.released with finished := c.finished ++ [(i, c.task i)] } := by
    unfold Tasks.finish
    rw [hread, storageTaskFree, if_neg (by rw [hl.life]; decide)]
    rfl
  rw [heq]
  obtain ⟨told, carried, lost, rfl, hlost, htold, hcarried⟩ := hd'.matched
  have hr' : (c.update i AsyncTask.released).Told heap F (i, c.task i) r := by
    refine (hr.told hl.callback).congr (le_refl _) fun j _ => ?_
    by_cases hji : j = i
    · subst hji
      rw [task_update_self, AsyncTask.released]
    · rw [task_update_of_ne _ hji]
  have hnot : i ∉ c.finished.map Prod.fst := by
    intro hmem
    obtain ⟨p, hp, rfl⟩ := List.mem_map.mp hmem
    have hlife := (hd.gone p hp).2
    rw [hl.life] at hlife
    cases hlife
  refine ⟨hd'.fresh, fun p hp => ?_, ?_, hd'.formatter, r ::ₘ told, carried, lost, ?_, hlost, ?_,
    hcarried⟩
  · rcases List.mem_append.mp hp with hp | hp
    · exact hd'.gone p hp
    · rw [List.mem_singleton.mp hp]
      exact ⟨hl.known, by rw [task_update_self, AsyncTask.released]⟩
  · rw [List.map_append, List.map_singleton]
    exact List.nodup_append_comm.mp (List.nodup_cons.mpr ⟨hnot, hd.once⟩)
  · rw [Multiset.cons_add, Multiset.cons_add]
  · have hfin : (↑(c.finished ++ [(i, c.task i)]) : Multiset (ℕ × AsyncTask)) =
        (i, c.task i) ::ₘ ↑c.finished := by
      rw [← Multiset.coe_add, Multiset.coe_singleton, add_comm, Multiset.singleton_add]
    change Multiset.Rel ((c.update i AsyncTask.released).Told heap F) ↑(c.finished ++ _) _
    rw [hfin]
    exact Multiset.Rel.cons hr' htold

theorem Delivers.completeTask {run : Tasks ω → ℕ → Tasks ω} {f : AsyncTask → AsyncTask}
    (hd : c.Delivers heap F rs) (hl : c.Loose i cb .created W)
    (hf : (f (c.task i)).callback = (c.task i).callback) (hlife : (f (c.task i)).life = .created)
    (hr : (c.update i fun t => (f t).completed b).Carries heap F i r)
    (hrun : ∀ c', c'.Loose i cb .completed W → c'.Delivers heap F rs → c'.Carries heap F i r →
      (run c' i).Delivers heap F (r ::ₘ rs)) :
    (completeTask run (c.update i f) i b).Delivers heap F (r ::ₘ rs) := by
  have hdone : (c.update i f).update i (·.completed b) = c.update i fun t => (f t).completed b := by
    unfold Tasks.update
    dsimp only
    rw [Function.update_self, Function.update_idem]
  have hd' : (c.update i fun t => (f t).completed b).Delivers heap F rs :=
    hd.update hl (by decide) hf fun hcreated => by cases hcreated
  rw [completeTask_created (by rwa [task_update_self]), hdone]
  split_ifs
  · exact hd'.schedule hr
  · exact hrun _ (hl.update hf rfl) hd' hr

theorem client_of_target (ho : (c.task i).callback.target = {o}) : c.client i = o := by
  unfold client
  cases hcb : (c.task i).callback with
  | client =>
    rw [hcb] at ho
    exact absurd ho.symm (Multiset.singleton_ne_zero o)
  | getValueAsyncCb _ | setValueAsyncCb _ =>
    rw [hcb] at ho
    exact Multiset.singleton_inj.mp ho

theorem Delivers.target_eq (hd : c.Delivers heap F rs) (hl : c.Loose i cb l W)
    (ho : cb.target = {o}) : o ≠ i ∧ c.task o = {} := by
  have hmem : o ∈ cb.target := by rw [ho]; exact Multiset.mem_singleton_self o
  have hpend : o ∈ cb.target + W := Multiset.mem_add.mpr (Or.inl hmem)
  refine ⟨fun hoi => hl.out (hoi ▸ mem_owed_self (Or.inl hpend)), ?_⟩
  rw [hd.fresh o (hl.sound.created o hpend), hl.clients o hmem]

theorem Carries.own (hr : c.Carries heap F i r) (ho : (c.task i).callback.target = {o}) :
    r.id < c.next ∧ r.id = i ∧ Tells heap F r (c.task i) .client := by
  rcases hr with hown | ⟨hcb, -⟩
  · exact hown
  · rw [hcb] at ho
    exact absurd ho.symm (Multiset.singleton_ne_zero o)

/-- **The callback of a call on values** completes the task of the client with what it makes of the
answer. -/
theorem Delivers.forward {f : AsyncTask → AsyncTask} (hd : c.Delivers heap F rs)
    (hl : c.Loose i cb .completed W) (ho : cb.target = {o}) (hr : c.Carries heap F i r)
    (hf : (f {}).callback = .client) (hlife : (f {}).life = .created)
    (htells : Tells heap F r ((f {}).completed b) cb) :
    (((c.update i AsyncTask.released).update o f).completeValue o b).Delivers heap F
      (r ::ₘ rs) := by
  obtain ⟨hne, htask⟩ := hd.target_eq hl ho
  obtain ⟨hlt, hid, -⟩ := hr.own (hl.callback ▸ ho)
  have hfree : (c.update i AsyncTask.released).Delivers heap F rs :=
    hd.update hl (by decide) rfl fun hcreated => by cases hcreated
  have hown := hl.internal ho
  rw [released_of_completed hl.life hne htask] at hown
  have htask' : (c.update i AsyncTask.released).task o = {} := task_released hne htask
  refine hfree.completeTask hown (by rw [htask', hf]) (by rw [htask', hlife]) ?_
    fun c' hl' hd' hr' => hd'.finish hl' hr'
  have hself := task_update_self (c.update i AsyncTask.released) o fun t => (f t).completed b
  rw [htask'] at hself
  have hcb : (((c.update i AsyncTask.released).update o fun t => (f t).completed b).task r.id).callback
      = cb := by
    rw [hid, task_update_of_ne _ hne.symm, task_update_self, ← hl.callback, AsyncTask.released]
  refine Or.inr ⟨by rw [hself, AsyncTask.completed, hf], hlt, client_of_target (by rw [hcb, ho]), ?_⟩
  rw [hcb, hself]
  exact htells

theorem valueOutcome_congr {f : Option (Formatter ω)} {t u : AsyncTask}
    (hsuccess : t.success = u.success) (herror : t.error = u.error) (hdata : t.data = u.data) :
    valueOutcome heap f t = valueOutcome heap f u := by
  unfold valueOutcome
  rw [hsuccess, herror, hdata]

theorem Delivers.getValueAsyncCb (hd : c.Delivers heap F rs)
    (hl : c.Loose i (.getValueAsyncCb o) .completed W) (hr : c.Carries heap F i r) :
    (c.getValueAsyncCb heap i o).Delivers heap F (r ::ₘ rs) := by
  obtain ⟨hne, htask⟩ := hd.target_eq hl rfl
  obtain ⟨-, -, hsuccess, herror, -, hdata⟩ := hr.own (o := o) (by rw [hl.callback]; rfl)
  have hvalue : valueOutcome heap c.formatter (c.task i) = valueOutcome heap c.formatter
      { success := r.success, error := r.error, data := r.data } :=
    valueOutcome_congr hsuccess herror hdata
  rw [getValueAsyncCb_eq hl.life hne htask]
  cases ho : valueOutcome heap c.formatter (c.task i) with
  | error stop =>
    have hfree : (c.update i AsyncTask.released).Delivers heap F rs :=
      hd.update hl (by decide) rfl fun hcreated => by cases hcreated
    rw [← Multiset.singleton_add]
    exact hfree.stop {r} stop
  | ok rr => exact hd.forward hl rfl hr rfl rfl ⟨c.formatter, hd.formatter, hvalue ▸ ho⟩

theorem Delivers.setValueAsyncCb (hd : c.Delivers heap F rs)
    (hl : c.Loose i (.setValueAsyncCb o) .completed W) (hr : c.Carries heap F i r) :
    (c.setValueAsyncCb i o).Delivers heap F (r ::ₘ rs) := by
  obtain ⟨hne, htask⟩ := hd.target_eq hl rfl
  obtain ⟨-, -, hsuccess, herror, -, -⟩ := hr.own (o := o) (by rw [hl.callback]; rfl)
  rw [setValueAsyncCb_eq hl.life hne htask]
  exact hd.forward hl rfl hr rfl rfl ⟨hsuccess, herror⟩

theorem Delivers.runCallback (hd : c.Delivers heap F rs) (hl : c.Loose i cb .completed W)
    (hr : c.Carries heap F i r) : (runCallback heap c i).Delivers heap F (r ::ₘ rs) := by
  unfold Tasks.runCallback
  rw [hl.callback]
  cases cb with
  | client => exact hd.finish hl hr
  | getValueAsyncCb o => exact hd.getValueAsyncCb hl hr
  | setValueAsyncCb o => exact hd.setValueAsyncCb hl hr

/-- **An answer** is told, scheduled, or lost with the process. -/
theorem delivers_answer (hd : c.Delivers heap F rs) (hs : c.Sound ({r.id} + W)) :
    (answer heap c r).Delivers heap F (r ::ₘ rs) := by
  have hl := hs.answered
  refine hd.completeTask hl rfl hl.life (Or.inl ⟨hl.known, rfl, ?_⟩)
    fun c' hl' hd' hr' => hd'.runCallback hl' hr'
  rw [task_update_self]
  exact ⟨rfl, rfl, rfl, rfl⟩

theorem delivers_answers : ∀ (new : List StorageTask) {c : Tasks ω} {rs : Multiset StorageTask},
    c.Delivers heap F rs → c.Sound (ids new + W) →
      (new.foldl (answer heap) c).Delivers heap F (↑new + rs)
  | [], c, rs, hd, _ => by rwa [Multiset.coe_nil, zero_add]
  | r :: new, c, rs, hd, hs => by
    rw [ids_cons, add_assoc] at hs
    rw [← Multiset.cons_coe, Multiset.cons_add, ← Multiset.add_cons]
    exact delivers_answers new (delivers_answer hd hs) (sound_answer hs)

theorem delivers_runIdle (hd : c.Delivers heap F rs) (hs : c.Sound W) (n : ℕ) :
    (c.runIdle heap n).Delivers heap F rs := by
  unfold runIdle
  cases hn : c.idle[n]? with
  | none => exact hd
  | some i =>
    obtain ⟨told, carried, lost, rfl, hlost, htold, hcarried⟩ := hd.matched
    obtain ⟨hlt, rfl⟩ := List.getElem?_eq_some_iff.mp hn
    have hidle : (↑c.idle : Multiset ℕ) = c.idle[n] ::ₘ ↑(c.idle.eraseIdx n) :=
      (Multiset.coe_eq_coe.mpr (List.getElem_cons_eraseIdx_perm hlt)).symm
    rw [hidle, Multiset.rel_cons_left] at hcarried
    obtain ⟨r, carried, hr, hcarried, rfl⟩ := hcarried
    have hd' : { c with idle := c.idle.eraseIdx n }.Delivers heap F (told + carried + lost) :=
      ⟨hd.fresh, hd.gone, hd.once, hd.formatter, told, carried, lost, rfl, hlost, htold, hcarried⟩
    rw [Multiset.add_cons, Multiset.cons_add]
    exact hd'.runCallback (hs.scheduled hn) hr

end Delivers

end Tasks

/-! ## Runs -/

namespace AsyncStorage

/-- Every answer of the handlers is on its way to its client or there. -/
def Delivers (heap : Heap) (F : Option (Formatter ω) → Prop) (c : AsyncStorage h ω) : Prop :=
  c.tasks.Delivers heap F ↑c.storage.replies

variable {c : AsyncStorage h ω}

theorem delivers_handle (hs : c.Sound) (hd : c.Delivers heap F) (n : ℕ) :
    (c.handle env heap n).Delivers heap F := by
  cases hn : c.posted[n]? with
  | none =>
    unfold handle
    rw [hn]
    exact hd
  | some t =>
    obtain ⟨rs, hrs, hsound⟩ := sound_replies hs hn
    rw [handle_eq hn hrs]
    unfold Delivers
    rw [hrs, ← Multiset.coe_add, add_comm]
    exact Tasks.delivers_answers rs hd hsound

theorem delivers_getAsync {cb : Callback} (hs : c.tasks.Sound (cb.target + c.waiting))
    (hd : c.Delivers heap F) (key : Option Bytes) (keyLength : ℤ) :
    (c.getAsync cb key keyLength).Delivers heap F := by
  unfold getAsync
  cases duplicate key keyLength with
  | none => exact hd
  | some key => exact hd.new hs cb

theorem delivers_setAsync {cb : Callback} (hs : c.tasks.Sound (cb.target + c.waiting))
    (hd : c.Delivers heap F) (txnId : ℕ) (key : Option Bytes) (keyLength : ℤ)
    (value : Option Bytes) (valueLength : ℤ) :
    (c.setAsync cb txnId key keyLength value valueLength).Delivers heap F := by
  unfold setAsync
  cases duplicate key keyLength with
  | none => exact hd
  | some key =>
    cases duplicate value valueLength with
    | none => exact hd
    | some value => exact hd.new hs cb

theorem delivers_setValueAsync (hs : c.Sound) (hd : c.Delivers heap F) (txnId : ℕ)
    (key : Option Bytes) (keyLength : ℤ) {v : GValue ω}
    (hv : ∃ f, c.tasks.formatter = some f ∧ ∀ e, f.serialize v ≠ .ok (.error e)) :
    (c.setValueAsync txnId key keyLength v).Delivers heap F := by
  have hs' := (sound_valueTask hs
    (rfl : (Callback.setValueAsyncCb c.tasks.next).target = {c.tasks.next})).1
  have hd' : (c.tasks.storageTaskNew .client).Delivers heap F ↑c.storage.replies :=
    Tasks.Delivers.new hd hs .client
  obtain ⟨f, hf, hser⟩ := hv
  have hf' : (c.tasks.storageTaskNew .client).formatter = some f := hf
  unfold setValueAsync
  dsimp only
  rw [hf']
  dsimp only
  split
  · next stop _ =>
    have hstop := hd'.stop 0 stop
    rw [zero_add, hf'] at hstop
    exact hstop
  · next e he => exact absurd he (hser e)
  · exact delivers_setAsync (c := ⟨c.storage, c.tasks.storageTaskNew .client, c.posted⟩) hs' hd'
      txnId key keyLength _ _

theorem delivers_call (hs : c.Sound) (hd : c.Delivers heap F) {a : AsyncCall ω}
    (ha : c.Serializes (.call a)) : (c.call a).Delivers heap F := by
  have hs₀ : c.tasks.Sound (Callback.client.target + c.waiting) := by
    rwa [Callback.target, zero_add]
  cases a with
  | openAsync path =>
    cases path with
    | none => exact hd
    | some path => exact hd.new hs .client
  | closeAsync => exact hd.new hs .client
  | getAsync key keyLength => exact delivers_getAsync hs₀ hd key keyLength
  | setAsync txnId key keyLength value valueLength =>
    exact delivers_setAsync hs₀ hd txnId key keyLength value valueLength
  | getValueAsync key keyLength =>
    have hs' := (sound_valueTask hs
      (rfl : (Callback.getValueAsyncCb c.tasks.next).target = {c.tasks.next})).1
    exact delivers_getAsync (c := ⟨c.storage, c.tasks.storageTaskNew .client, c.posted⟩) hs'
      (Tasks.Delivers.new hd hs .client) key keyLength
  | setValueAsync txnId key keyLength v =>
    exact delivers_setValueAsync hs hd txnId key keyLength ha
  | transactionBeginAsync => exact hd.new hs .client
  | transactionCommitAsync txnId => exact hd.new hs .client
  | transactionCancelAsync txnId => exact hd.new hs .client

/-- **What an event keeps**, if the formatters that it installs are in `F`. -/
theorem delivers_step (hs : c.Sound) (hd : c.Delivers heap F) {a : AsyncEvent ω}
    (ha : c.Serializes a) (hf : ∀ f, a = .setFormatter f → F (some f)) :
    (c.step env heap a).Delivers heap F := by
  unfold step
  split_ifs
  · exact hd
  · cases a with
    | call a => exact delivers_call hs hd ha
    | handle n => exact delivers_handle hs hd n
    | idle n => exact Tasks.delivers_runIdle hd hs n
    | setFormatter f => exact ⟨hd.fresh, hd.gone, hd.once, hf f rfl, hd.matched⟩
    | setUseIdle b => exact ⟨hd.fresh, hd.gone, hd.once, hd.formatter, hd.matched⟩

theorem delivers_new {formatter : Option (Formatter ω)} (hf : F formatter)
    (disk : Bytes → Records) (useIdle : Bool) :
    (catalinaStorageNew h disk formatter useIdle).Delivers heap F where
  fresh _ _ := rfl
  gone _ hp := absurd hp List.not_mem_nil
  once := List.nodup_nil
  formatter := hf
  matched := ⟨0, 0, 0, rfl, fun _ => rfl, Multiset.Rel.zero, Multiset.Rel.zero⟩

end AsyncStorage

/-- The formatters that the storage has had by the end of a run. -/
def Installed (formatter : Option (Formatter ω)) (as : List (AsyncEvent ω))
    (f : Option (Formatter ω)) : Prop :=
  f = formatter ∨ ∃ g, f = some g ∧ AsyncEvent.setFormatter g ∈ as

/-- **Every answer is told once.** In a run that serializes every value it stores, no client is told
twice, each is told one answer of the handlers and what it says, and no two the same one; and when
no callback is scheduled and the process has not ended, all answers have been told. -/
theorem answers_delivered (env : Env) (heap : Heap) (disk : Bytes → Records)
    (formatter : Option (Formatter ω)) (useIdle : Bool) (as : List (AsyncEvent ω))
    (ha : Along (AsyncStorage.step env heap) AsyncStorage.Serializes
      (catalinaStorageNew h disk formatter useIdle) as) :
    let c := as.foldl (AsyncStorage.step env heap) (catalinaStorageNew h disk formatter useIdle)
    (c.tasks.finished.map Prod.fst).Nodup ∧ ∃ told : Multiset StorageTask,
      told ≤ ↑c.storage.replies ∧
        Multiset.Rel (c.tasks.Told heap (Installed formatter as)) ↑c.tasks.finished told ∧
        (c.tasks.idle = [] → c.tasks.stopped = none → told = ↑c.storage.replies) := by
  intro c
  have hinit : (catalinaStorageNew h disk formatter useIdle).Delivers heap
    (Installed formatter as) := AsyncStorage.delivers_new (Or.inl rfl) disk useIdle
  have hd : c.Sound ∧ c.Delivers heap (Installed formatter as) := by
    refine Along.invariant (I := fun c => c.Sound ∧ c.Delivers heap (Installed formatter as))
      (fun c a hc ha => ?_) ⟨AsyncStorage.sound_new disk formatter useIdle, hinit⟩
      (ha.of_mem fun _ hm => hm)
    refine ⟨AsyncStorage.sound_step hc.1 ha.1, AsyncStorage.delivers_step hc.1 hc.2 ha.1 ?_⟩
    rintro f rfl
    exact Or.inr ⟨f, rfl, ha.2⟩
  obtain ⟨told, carried, lost, hrs, hlost, htold, hcarried⟩ := hd.2.matched
  refine ⟨hd.2.once, told, ?_, htold, fun hidle hstop => ?_⟩
  · rw [hrs, add_assoc]
    exact Multiset.le_add_right _ _
  · rw [hidle, Multiset.coe_nil, Multiset.rel_zero_left] at hcarried
    rw [hrs, hcarried, hlost hstop, add_zero, add_zero]

theorem answers_delivered_storeAndRead :
    let c := storeAndRead.foldl (AsyncStorage.step (fun _ => {}) plainHeap)
      (catalinaStorageNew lp64 (fun _ => ∅) (some byteFormatter) true)
    (c.tasks.finished.map Prod.fst).Nodup ∧ ∃ told : Multiset StorageTask,
      told ≤ ↑c.storage.replies ∧
        Multiset.Rel (c.tasks.Told plainHeap (Installed (some byteFormatter) storeAndRead))
          ↑c.tasks.finished told ∧
        (c.tasks.idle = [] → c.tasks.stopped = none → told = ↑c.storage.replies) := by
  refine answers_delivered _ _ _ _ _ _ ⟨trivial, trivial, trivial,
    ⟨byteFormatter, rfl, fun e he => ?_⟩, trivial, trivial, trivial, trivial, trivial, trivial,
    trivial, trivial⟩
  cases he

end Catalina
