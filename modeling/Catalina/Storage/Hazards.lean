import Catalina.Storage.Progress

/-!
# Hazards of the synchronous calls

`storage_task_wait` does not look at the task when `g_cond_wait` returns, and a callback that does
not go through the main loop runs inside a handler.

* `Threads.unfinished`: the tasks that a handler has still to complete; `UnfinishedStep`.
* **`early_return_faults`**: a call that returns before its task is complete leaves the handler with
  a task that has been freed, and no other call does.
* **`nested_call_hangs`**: a synchronous call made inside a callback never returns, unless its thread
  is woken without a signal, if it or the message of the handler is exclusive.
-/

namespace Catalina

variable {h : Host} {env : Env} {c c' : Threads h} {e : ThreadEvent} {n i j : ℕ} {a : Handler}
  {phase : Phase} {r : StorageTask} {rs : List StorageTask} {stage : Stage}
  {disk : Bytes → Records}

/-! ## Calls that return early -/

/-- The tasks that the handlers have still to complete. -/
def Threads.unfinished (c : Threads h) : Multiset ℕ := c.pending.map fun p => p.2.id

/-- The task has been answered, and no handler has still to complete it. -/
def Threads.Completed (c : Threads h) (i : ℕ) : Prop :=
  i ∈ ids c.storage.replies ∧ i ∉ c.unfinished

/-- What one step does to the tasks that are answered and not complete. -/
inductive UnfinishedStep (c c' : Threads h) : Prop
  | same (hr : c'.storage.replies = c.storage.replies) (hu : c'.unfinished = c.unfinished)
  | answered (new : List StorageTask) (hr : c'.storage.replies = c.storage.replies ++ new)
      (hu : c'.unfinished = c.unfinished + ids new)
  | finished (i : ℕ) (hr : c'.storage.replies = c.storage.replies)
      (hu : c.unfinished = i ::ₘ c'.unfinished)
      (hf : (c.task i).isSync = true → (c.task i).freed = true → i ∈ c'.faults)

theorem mem_touch (hsync : (c.task i).isSync = true) (hfreed : (c.task i).freed = true) :
    i ∈ (c.touch i).faults := by
  unfold Threads.touch
  rw [if_pos ⟨hsync, hfreed⟩]
  exact List.mem_append_right _ List.mem_cons_self

theorem unfinished_reached (task : StorageTask) (rs : List StorageTask) :
    (Handler.pending { task, phase := .completing .reached rs }).map (fun p => p.2.id) = ids rs := by
  rw [Handler.pending_reached, Multiset.map_coe, List.map_map]
  rfl

theorem unfinished_left (ha : c.active[n]? = some a) (hp : a.phase = .completing stage (r :: rs))
    (hphase : { a with phase }.pending = ↑(rs.map (Prod.mk Stage.reached))) :
    c.unfinished = r.id ::ₘ (c.setPhase n a phase).unfinished := by
  unfold Threads.unfinished
  rw [pending_left ha hp hphase, Multiset.map_cons]

theorem unfinished_step (hs : Serialized env (catalinaStorageInit h disk) c)
    (hstep : c.step env e = some c') : UnfinishedStep c c' := by
  cases step_cases hstep with
  | call _ | wait _ | wake _ | resume _ => exact .same rfl rfl
  | @nested n a stage r rs p ha hp hr =>
    refine .finished r.id rfl (unfinished_left ha hp ?_) fun hsync => ?_
    · split_ifs
      · rfl
      · exact Handler.pending_reached _ _
    · rw [hr] at hsync
      cases hsync
  | take _ _ =>
    refine .same rfl (congrArg (Multiset.map _) ?_)
    unfold Threads.pending
    rw [List.map_append, List.sum_append]
    exact add_zero _
  | looked ha hp _ =>
    exact .same rfl (congrArg (Multiset.map _)
      (pending_setPhase (c := c) ha (Handler.pending_of_working hp).symm))
  | @worked n a w s ha hp hw =>
    obtain ⟨new, hnew⟩ : c.storage.replies <+: s.replies := by
      rw [work_answers (Threads.running_of_step hstep).1
        (hs.agrees a (List.mem_of_getElem? ha) w hp) hw]
      exact prefix_handleMessage c.storage a.task
    have hdrop : s.replies.drop c.storage.replies.length = new := by rw [← hnew, List.drop_left]
    rw [hdrop]
    refine .answered new hnew.symm ?_
    obtain ⟨m, hm, hm'⟩ := pending_eq ha (.completing .reached new)
    unfold Threads.unfinished
    rw [hm, Handler.pending_of_working hp, add_zero, ← unfinished_reached a.task new,
      ← Multiset.map_add]
    exact congrArg (Multiset.map _) hm'
  | @ended n a stage ha hp =>
    refine .same rfl (congrArg (Multiset.map _) ?_)
    have hsum := sum_map_eraseIdx Handler.pending ha
    rwa [show a.pending = 0 by rw [Handler.pending, hp], add_zero] at hsum
  | @completed n a stage r rs k ha hp hr hk =>
    cases hnext : stage.next with
    | none =>
      exact .finished r.id rfl (unfinished_left ha hp (Handler.pending_reached _ _))
        fun hsync hfreed => mem_touch hsync hfreed
    | some st =>
      refine .same rfl ?_
      obtain ⟨m, hm, hm'⟩ := pending_eq ha (.completing st (r :: rs))
      unfold Threads.unfinished
      rw [hm, Handler.pending_cons hp, Multiset.map_add, Multiset.map_cons]
      refine (congrArg (Multiset.map _) hm').trans ?_
      rw [Handler.pending_cons rfl, Multiset.map_add, Multiset.map_cons]
  | @delivered n a stage r rs ha hp hr =>
    refine .finished r.id rfl (unfinished_left ha hp (Handler.pending_reached _ _)) fun hsync => ?_
    rw [hr] at hsync
    cases hsync
  | @back n a i rs ha hp _ =>
    refine .same rfl (congrArg (Multiset.map _) (pending_setPhase ha ?_))
    rw [Handler.pending_reached]
    unfold Handler.pending
    rw [hp]

theorem SyncTask.freed_iff {k : SyncTask} :
    k.freed = true ↔ ∃ answer, k.caller = .returned answer := by
  unfold freed
  cases k.caller <;> simp

theorem SyncTask.freed_complete {k k' : SyncTask} (hstep : k.complete r stage = some k')
    (hk : k.freed = true) : k'.freed = true := by
  obtain ⟨answer, hcaller⟩ := freed_iff.mp hk
  refine freed_iff.mpr ⟨answer, ?_⟩
  cases stage with
  | written =>
    simp only [complete] at hstep
    split_ifs at hstep
    obtain rfl := Option.some.inj hstep
    exact hcaller
  | locked =>
    obtain rfl := Option.some.inj hstep
    dsimp only
    rw [if_neg (by rw [hcaller]; simp), hcaller]
  | reached | signalled =>
    obtain rfl := Option.some.inj hstep
    exact hcaller

/-- The call `i` has returned. -/
def Threads.Returned (c : Threads h) (i : ℕ) : Prop :=
  (c.task i).isSync = true ∧ (c.task i).freed = true

theorem returned_setTask {k : SyncTask} (hi : c.Returned i)
    (hk : (c.task j).freed = true → k.isSync = (c.task j).isSync ∧ k.freed = true) :
    (c.setTask j k).Returned i := by
  unfold Threads.Returned
  change (Function.update c.task j k i).isSync = true ∧ (Function.update c.task j k i).freed = true
  rw [Function.update_apply]
  split_ifs with hij
  · obtain ⟨hsync, hfreed⟩ := hk (hij ▸ hi.2)
    exact ⟨hsync.trans (hij ▸ hi.1), hfreed⟩
  · exact hi

theorem returned_call (hc : c.Created) (hi : c.Returned i) (p : PublicCall) :
    (c.call p).Returned i := by
  have hne : i ≠ c.next := fun heq => by
    have hsync := hi.1
    rw [hc i heq.ge] at hsync
    cases hsync
  unfold Threads.Returned
  change (Function.update c.task c.next _ i).isSync = true ∧
    (Function.update c.task c.next _ i).freed = true
  rw [Function.update_of_ne hne]
  exact hi

theorem returned_step (hc : c.Created) (hi : c.Returned i) (hstep : c.step env e = some c') :
    c'.Returned i := by
  cases step_cases hstep with
  | call p => exact returned_call hc hi p
  | nested p _ _ _ => exact returned_call hc hi p
  | wait hk | wake hk | resume hk =>
    refine returned_setTask hi fun hfreed => absurd hk ?_
    obtain ⟨answer, hcaller⟩ := SyncTask.freed_iff.mp hfreed
    simp [SyncTask.wait, SyncTask.wake, SyncTask.resume, hcaller]
  | completed _ _ _ hk =>
    exact returned_setTask hi fun hfreed =>
      ⟨SyncTask.isSync_complete hk, SyncTask.freed_complete hk hfreed⟩
  | take _ _ | looked _ _ _ | worked _ _ _ | ended _ _ | delivered _ _ _ | back _ _ _ => exact hi

theorem faults_touch (hj : j ∈ (c.touch i).faults) :
    j ∈ c.faults ∨ (j = i ∧ (c.task i).isSync = true ∧ (c.task i).freed = true) := by
  unfold Threads.touch at hj
  dsimp only at hj
  split_ifs at hj with hi
  · rcases List.mem_append.mp hj with hj | hj
    · exact Or.inl hj
    · exact Or.inr ⟨List.mem_singleton.mp hj, hi⟩
  · exact Or.inl hj

theorem subset_touch (c : Threads h) (i : ℕ) : c.faults ⊆ (c.touch i).faults := by
  unfold Threads.touch
  dsimp only
  split_ifs
  · exact List.subset_append_left _ _
  · exact List.Subset.refl _

theorem faults_mono (hstep : c.step env e = some c') : c.faults ⊆ c'.faults := by
  cases step_cases hstep with
  | looked _ _ _ => exact subset_touch c _
  | worked _ _ _ => exact subset_touch c _
  | completed _ _ _ _ => exact subset_touch c _
  | call _ | nested _ _ _ _ | wait _ | wake _ | resume _ | take _ _ | ended _ _ | delivered _ _ _
  | back _ _ _ => exact List.Subset.refl _

theorem faults_step (hstep : c.step env e = some c') (hj : j ∈ c'.faults) :
    j ∈ c.faults ∨ c.Returned j ∧ (j ∈ c.inHand ∨ j ∈ c.unfinished) := by
  cases step_cases hstep with
  | @looked n a w _ ha hp _ =>
    refine (faults_touch hj).imp_right fun ⟨heq, hi⟩ => ⟨heq ▸ hi, Or.inl ?_⟩
    obtain ⟨m, hm, _⟩ := inHand_eq ha a.phase
    rw [hm, Handler.inHand_working hp, heq]
    exact Multiset.mem_add.mpr (Or.inr (Multiset.mem_singleton_self _))
  | @worked n a w _ ha hp _ =>
    refine (faults_touch hj).imp_right fun ⟨heq, hi⟩ => ⟨heq ▸ hi, Or.inl ?_⟩
    obtain ⟨m, hm, _⟩ := inHand_eq ha a.phase
    rw [hm, Handler.inHand_working hp, heq]
    exact Multiset.mem_add.mpr (Or.inr (Multiset.mem_singleton_self _))
  | @completed n a stage r rs k ha hp _ _ =>
    refine (faults_touch hj).imp_right fun ⟨heq, hi⟩ => ⟨heq ▸ hi, Or.inr ?_⟩
    rw [unfinished_left ha hp (Handler.pending_reached a.task rs), heq]
    exact Multiset.mem_cons_self _ _
  | call _ | nested _ _ _ _ | wait _ | wake _ | resume _ | take _ _ | ended _ _ | delivered _ _ _
  | back _ _ _ => exact Or.inl hj

/-- The facts that hold in every run. -/
structure Sound (env : Env) (s₀ : Storage h) (c : Threads h) : Prop where
  serialized : Serialized env s₀ c
  created : c.Created
  unfinished : c.unfinished ≤ ids c.storage.replies
  faults : ∀ i ∈ c.faults, c.Returned i

theorem Sound.step (hc : Sound env (catalinaStorageInit h disk) c)
    (hstep : c.step env e = some c') : Sound env (catalinaStorageInit h disk) c' where
  serialized := hc.serialized.step hstep
  created := created_step hc.created hstep
  unfinished := by
    cases unfinished_step hc.serialized hstep with
    | same hr hu =>
      rw [hr, hu]
      exact hc.unfinished
    | answered new hr hu =>
      rw [hr, hu, ids_append]
      exact add_le_add_left hc.unfinished _
    | finished i hr hu _ =>
      rw [hr]
      refine le_trans ?_ hc.unfinished
      rw [hu]
      exact Multiset.le_cons_self _ _
  faults i hi := by
    refine returned_step hc.created ?_ hstep
    exact (faults_step hstep hi).elim (hc.faults i) fun hret => hret.1

theorem sound_init (useIdle : Bool) :
    Sound env (catalinaStorageInit h disk) (Threads.init h disk useIdle) where
  serialized := serialized_init disk useIdle
  created _ _ := rfl
  unfinished := le_refl _
  faults _ hi := absurd hi List.not_mem_nil

theorem sound_run {useIdle : Bool} {es : List ThreadEvent}
    (hc : exec (Threads.step env) (Threads.init h disk useIdle) es = some c) :
    Sound env (catalinaStorageInit h disk) c :=
  exec_invariant (E := fun _ => True) (fun _ _ _ hs _ => hs.step) (sound_init useIdle)
    (fun _ _ => trivial) hc

theorem completed_step (hc : Sound env (catalinaStorageInit h disk) c) (hi : c.Completed i)
    (hn : i ∉ c.faults) (hstep : c.step env e = some c') : c'.Completed i ∧ i ∉ c'.faults := by
  refine ⟨?_, fun hf => ?_⟩
  · obtain ⟨hr, hu⟩ := hi
    cases unfinished_step hc.serialized hstep with
    | same hr' hu' => exact ⟨hr' ▸ hr, hu' ▸ hu⟩
    | answered new hr' hu' =>
      have hnd := (hc.serialized.step hstep).replies_nodup
      rw [hr', ids_append] at hnd
      refine ⟨?_, fun hmem => ?_⟩
      · rw [hr', ids_append]
        exact Multiset.mem_add.mpr (Or.inl hr)
      · rw [hu'] at hmem
        rcases Multiset.mem_add.mp hmem with hold | hnew
        · exact hu hold
        · exact Multiset.disjoint_left.mp (Multiset.disjoint_of_nodup_add hnd) hr hnew
    | finished k hr' hu' _ =>
      exact ⟨hr' ▸ hr, fun hmem => hu (hu' ▸ Multiset.mem_cons_of_mem hmem)⟩
  · rcases faults_step hstep hf with hold | ⟨_, hin | hun⟩
    · exact hn hold
    · have hnd := hc.serialized.nodup
      have hdisj := Multiset.disjoint_of_nodup_add
        (Multiset.nodup_of_le (Multiset.le_add_right _ _) hnd)
      exact Multiset.disjoint_left.mp hdisj
        (Multiset.mem_of_le hc.serialized.replies_le hi.1) hin
    · exact hi.2 hun

/-- **A freed task that is not complete** gets a fault at the latest when it is. -/
theorem returned_early_step (hc : Sound env (catalinaStorageInit h disk) c) (hret : c.Returned i)
    (hi : i ∈ c.faults ∨ ¬ c.Completed i) (hstep : c.step env e = some c') :
    i ∈ c'.faults ∨ ¬ c'.Completed i := by
  rcases hi with hi | hi
  · exact Or.inl (faults_mono hstep hi)
  · cases unfinished_step hc.serialized hstep with
    | same hr hu => exact Or.inr fun hi' => hi ⟨hr ▸ hi'.1, hu ▸ hi'.2⟩
    | answered new hr hu =>
      refine Or.inr fun ⟨hr', hu'⟩ => hi ⟨?_, fun hmem => hu' ?_⟩
      · rw [hr, ids_append] at hr'
        rw [hu] at hu'
        exact (Multiset.mem_add.mp hr').resolve_right fun hnew =>
          hu' (Multiset.mem_add.mpr (Or.inr hnew))
      · rw [hu]
        exact Multiset.mem_add.mpr (Or.inl hmem)
    | finished k hr hu hf =>
      by_cases hik : i = k
      · exact Or.inl (hik ▸ hf (hik ▸ hret.1) (hik ▸ hret.2))
      · refine Or.inr fun hi' => hi ⟨hr ▸ hi'.1, fun hmem => hi'.2 ?_⟩
        rw [hu] at hmem
        exact (Multiset.mem_cons.mp hmem).resolve_left hik

/-- **A call that returns before its task is complete** makes the handler touch freed memory, and no
other call does: `g_cond_wait` may return without a signal, and `storage_task_wait` goes on then. -/
theorem early_return_faults (env : Env) (disk : Bytes → Records) (useIdle : Bool)
    (es es' : List ThreadEvent) (c₁ c₂ c₃ : Threads h) (i : ℕ)
    (h₁ : exec (Threads.step env) (Threads.init h disk useIdle) es = some c₁)
    (h₂ : c₁.step env (.resume i) = some c₂) (h₃ : exec (Threads.step env) c₂ es' = some c₃)
    (hdone : c₃.Completed i) : i ∈ c₃.faults ↔ ¬ c₁.Completed i := by
  have hc₁ : Sound env (catalinaStorageInit h disk) c₁ := sound_run h₁
  have hc₂ : Sound env (catalinaStorageInit h disk) c₂ := hc₁.step h₂
  obtain ⟨k, hk, rfl⟩ := Option.map_eq_some_iff.mp (Threads.running_of_step h₂).2
  have hwoken : (c₁.task i).isSync = true ∧ (c₁.task i).caller = .woken ∧
      k = { c₁.task i with caller := .returned (c₁.task i).answer } := by
    unfold SyncTask.resume at hk
    split_ifs at hk with hw
    exact ⟨hw.1, hw.2.1, (Option.some.inj hk).symm⟩
  obtain ⟨hsync, hcaller, rfl⟩ := hwoken
  constructor
  · intro hf hcomplete
    have hnot : i ∉ c₁.faults := fun hmem => by
      have hfreed := (hc₁.faults i hmem).2
      rw [SyncTask.freed, hcaller] at hfreed
      cases hfreed
    have hkept : ∀ c e c', (Sound env (catalinaStorageInit h disk) c ∧ c.Completed i ∧
        i ∉ c.faults) → True → Threads.step env c e = some c' →
        Sound env (catalinaStorageInit h disk) c' ∧ c'.Completed i ∧ i ∉ c'.faults :=
      fun _ _ _ hI _ hstep => ⟨hI.1.step hstep, completed_step hI.1 hI.2.1 hI.2.2 hstep⟩
    exact (exec_invariant hkept ⟨hc₂, hcomplete, hnot⟩ (fun _ _ => trivial) h₃).2.2 hf
  · intro hearly
    have hret : Threads.Returned (c₁.setTask i
        { c₁.task i with caller := .returned (c₁.task i).answer }) i := by
      unfold Threads.Returned
      change (Function.update c₁.task i _ i).isSync = true ∧
        (Function.update c₁.task i _ i).freed = true
      rw [Function.update_self]
      exact ⟨hsync, rfl⟩
    have hkept : ∀ c e c', (Sound env (catalinaStorageInit h disk) c ∧ c.Returned i ∧
        (i ∈ c.faults ∨ ¬ c.Completed i)) → True → Threads.step env c e = some c' →
        Sound env (catalinaStorageInit h disk) c' ∧ c'.Returned i ∧
          (i ∈ c'.faults ∨ ¬ c'.Completed i) :=
      fun _ _ _ hI _ hstep => ⟨hI.1.step hstep, returned_step hI.1.created hI.2.1 hstep,
        returned_early_step hI.1 hI.2.1 hI.2.2 hstep⟩
    have hend := exec_invariant hkept ⟨hc₂, hret, Or.inr hearly⟩ (fun _ _ => trivial) h₃
    exact hend.2.2.resolve_right (not_not.mpr hdone)

/-- A get wakes without a signal, returns, and is then handled. -/
theorem early_return_faults_get :
    1 ∈ (threadsAfter true ([.call (.open [47]), .wait 0, .take 0] ++
        List.replicate 6 (.advance 0) ++ [.call (.get [1]), .wait 1, .wake 1] ++
        .resume 1 :: .take 0 :: List.replicate 7 (.advance 0))).faults ↔
      ¬ (threadsAfter true ([.call (.open [47]), .wait 0, .take 0] ++
        List.replicate 6 (.advance 0) ++ [.call (.get [1]), .wait 1, .wake 1])).Completed 1 :=
  early_return_faults (fun _ => {}) (fun _ => ∅) true
    ([.call (.open [47]), .wait 0, .take 0] ++ List.replicate 6 (.advance 0) ++
      [.call (.get [1]), .wait 1, .wake 1])
    (.take 0 :: List.replicate 7 (.advance 0)) _ _ _ 1 rfl rfl rfl ⟨by decide, by decide⟩

/-! ## Calls inside a callback -/

/-- The handler `a` waits for the call `i`, whose message is posted, and either is exclusive. -/
structure Hangs (a : Handler) (i : ℕ) (c : Threads h) : Prop where
  sync : (c.task i).isSync = true
  active : a ∈ c.active
  phase : ∃ rs, a.phase = .inCallback i rs
  posted : ∃ t ∈ c.posted, t.id = i ∧ (t.exclusive = true ∨ a.task.exclusive = true)

theorem Hangs.not_freed (hh : Hangs a i c) (hs : Serialized env (catalinaStorageInit h disk) c)
    (hk : Handshake c) : (c.task i).freed = false ∧ i ∉ ids c.handled := by
  obtain ⟨t, ht, rfl, _⟩ := hh.posted
  have hnot : t.id ∉ ids c.handled := fun hmem => by
    have hdisj := Multiset.disjoint_of_nodup_add hs.nodup
    exact Multiset.disjoint_left.mp hdisj (Multiset.mem_add.mpr (Or.inl hmem))
      (mem_ids_iff.mpr ⟨t, ht, rfl⟩)
  refine ⟨(hk.unanswered t.id hh.sync fun hmem => hnot ?_).2.not_freed, hnot⟩
  exact Multiset.mem_of_le hs.replies_le hmem

theorem Hangs.mem_set (hh : Hangs a i c) {b : Handler} (hb : c.active[n]? = some b)
    (hne : ∀ rs, b.phase ≠ .inCallback i rs) (b' : Handler) : a ∈ c.active.set n b' := by
  obtain ⟨rs, hp⟩ := hh.phase
  obtain ⟨m, hm⟩ := List.getElem?_of_mem hh.active
  refine List.mem_of_getElem? (i := m) ?_
  rw [List.getElem?_set_ne fun heq => ?_]
  · exact hm
  · rw [heq, hm] at hb
    exact hne rs (Option.some.inj hb ▸ hp)

theorem Hangs.advance (hh : Hangs a i c) {b b' : Handler} (hb : c.active[n]? = some b)
    (hne : ∀ rs, b.phase ≠ .inCallback i rs) (ht : c'.task = c.task)
    (ha : c'.active = c.active.set n b') (hp : c'.posted = c.posted) : Hangs a i c' := by
  refine ⟨?_, ?_, hh.phase, ?_⟩
  · rw [ht]
    exact hh.sync
  · rw [ha]
    exact hh.mem_set hb hne b'
  · rw [hp]
    exact hh.posted

theorem Hangs.setTask (hh : Hangs a i c) {k : SyncTask} (hk : k.isSync = (c.task j).isSync) :
    Hangs a i (c.setTask j k) := by
  refine ⟨?_, hh.active, hh.phase, hh.posted⟩
  change (Function.update c.task j k i).isSync = true
  rw [Function.update_apply]
  split_ifs with hij
  · rw [hk, ← hij, hh.sync]
  · exact hh.sync

theorem Hangs.call (hh : Hangs a i c) (hc : c.Created) (p : PublicCall) : Hangs a i (c.call p) := by
  obtain ⟨t, ht, hid⟩ := hh.posted
  refine ⟨?_, hh.active, hh.phase, t, List.mem_append_left _ ht, hid⟩
  have hne : i ≠ c.next := fun heq => by
    have hsync := hh.sync
    rw [hc i heq.ge] at hsync
    cases hsync
  change (Function.update c.task c.next _ i).isSync = true
  rw [Function.update_of_ne hne]
  exact hh.sync

theorem Hangs.concurrent (hh : Hangs a i c) (hs : Serialized env (catalinaStorageInit h disk) c)
    {b : Handler} (hb : b ∈ c.active) (hne : b ≠ a) :
    b.task.exclusive = false ∧ a.task.exclusive = false := by
  rcases hs.alone with hl | hall
  · refine absurd ?_ hne
    obtain ⟨x, hx⟩ := List.length_eq_one_iff.mp
      (le_antisymm hl (List.length_pos_of_mem hb))
    rw [hx] at hb
    have ha := hh.active
    rw [hx] at ha
    rw [List.mem_singleton.mp hb, List.mem_singleton.mp ha]
  · exact ⟨hall b hb, hall a hh.active⟩

theorem Hangs.take (hh : Hangs a i c) {t : StorageTask} (ht : c.posted[n]? = some t)
    (hadm : c.admits t = true) :
    Hangs a i { c with posted := c.posted.eraseIdx n, active := c.active ++ [{ task := t }] } := by
  refine ⟨hh.sync, List.mem_append_left _ hh.active, hh.phase, ?_⟩
  obtain ⟨t', ht', hid, hex⟩ := hh.posted
  refine ⟨t', ?_, hid, hex⟩
  have hne : t ≠ t' := by
    rintro rfl
    unfold Threads.admits at hadm
    split_ifs at hadm with het
    · have hnil : c.active = [] := List.isEmpty_iff.mp hadm
      have ha := hh.active
      rw [hnil] at ha
      cases ha
    · have hall := List.all_eq_true.mp hadm a hh.active
      rw [hex.resolve_left het] at hall
      cases hall
  obtain ⟨m, hm⟩ := List.getElem?_of_mem ht'
  refine List.mem_eraseIdx_iff_getElem?.mpr ⟨m, fun heq => hne ?_, hm⟩
  rw [heq, ht] at hm
  exact Option.some.inj hm

/-- The storage has handled more messages, none of them exclusive, and none at all if the handler is
exclusive. -/
def Stalled (a : Handler) (c c' : Threads h) : Prop :=
  ∃ ts, c'.handled = c.handled ++ ts ∧ (∀ t ∈ ts, t.exclusive = false) ∧
    (a.task.exclusive = true → ts = [])

theorem Stalled.refl (a : Handler) (c : Threads h) : Stalled a c c :=
  ⟨[], (List.append_nil _).symm, fun _ ht => absurd ht List.not_mem_nil, fun _ => rfl⟩

theorem Stalled.trans {c'' : Threads h} (h₁ : Stalled a c c') (h₂ : Stalled a c' c'') :
    Stalled a c c'' := by
  obtain ⟨ts, hts, hex, hnil⟩ := h₁
  obtain ⟨us, hus, hex', hnil'⟩ := h₂
  refine ⟨ts ++ us, by rw [hus, hts, List.append_assoc], fun t ht => ?_, fun ha => ?_⟩
  · exact (List.mem_append.mp ht).elim (hex t) (hex' t)
  · rw [hnil ha, hnil' ha]
    rfl

/-- **The handler hangs for good**, and lets no exclusive message pass. -/
theorem Hangs.step (hh : Hangs a i c) (hs : Sound env (catalinaStorageInit h disk) c)
    (hk : Handshake c) (hstep : c.step env e = some c') :
    Hangs a i c' ∧ Stalled a c c' := by
  have hsame : Stalled a c c := .refl a c
  obtain ⟨rs₀, hp₀⟩ := hh.phase
  cases step_cases hstep with
  | call p => exact ⟨hh.call hs.created p, hsame⟩
  | nested p hb hp hr =>
    exact ⟨(hh.call hs.created p).advance hb (fun _ hq => nomatch hp.symm.trans hq) rfl rfl rfl,
      hsame⟩
  | wait hw => exact ⟨hh.setTask (SyncTask.isSync_wait hw), hsame⟩
  | wake hw => exact ⟨hh.setTask (isSync_wake hw), hsame⟩
  | resume hw => exact ⟨hh.setTask (SyncTask.isSync_resume hw), hsame⟩
  | take ht hadm => exact ⟨hh.take ht hadm, hsame⟩
  | looked hb hp _ =>
    exact ⟨hh.advance hb (fun _ hq => nomatch hp.symm.trans hq) rfl rfl rfl, hsame⟩
  | @worked n b w s hb hp hw =>
    have hne : b ≠ a := by
      rintro rfl
      exact nomatch hp.symm.trans hp₀
    obtain ⟨hbex, haex⟩ := hh.concurrent hs.serialized (List.mem_of_getElem? hb) hne
    refine ⟨hh.advance hb (fun _ hq => nomatch hp.symm.trans hq) rfl rfl rfl, [b.task], rfl, ?_, ?_⟩
    · intro t ht
      rw [List.mem_singleton.mp ht]
      exact hbex
    · intro hex
      rw [haex] at hex
      cases hex
  | @ended n b stage hb hp =>
    refine ⟨⟨hh.sync, ?_, hh.phase, hh.posted⟩, hsame⟩
    obtain ⟨m, hm⟩ := List.getElem?_of_mem hh.active
    refine List.mem_eraseIdx_iff_getElem?.mpr ⟨m, fun heq => ?_, hm⟩
    rw [heq, hb] at hm
    obtain rfl := Option.some.inj hm
    exact nomatch hp.symm.trans hp₀
  | completed hb hp _ hw =>
    exact ⟨(hh.setTask (SyncTask.isSync_complete hw)).advance hb
      (fun _ hq => nomatch hp.symm.trans hq) rfl rfl rfl, hsame⟩
  | delivered hb hp _ =>
    exact ⟨hh.advance hb (fun _ hq => nomatch hp.symm.trans hq) rfl rfl rfl, hsame⟩
  | @back n b j rs hb hp hfreed =>
    refine ⟨hh.advance hb (fun rs' hq => ?_) rfl rfl rfl, hsame⟩
    -- the call it waits for has not returned
    obtain ⟨rfl, _⟩ := Phase.inCallback.inj (hp.symm.trans hq)
    rw [(hh.not_freed hs.serialized hk).1] at hfreed
    cases hfreed

/-- **A synchronous call made inside a callback hangs** if the handler that runs the callback or the
message of the call is exclusive. While threads are woken by signals only, the call never returns, the
storage never again handles an exclusive message, and it handles none at all if the handler is
exclusive. -/
theorem nested_call_hangs (env : Env) (disk : Bytes → Records) (useIdle : Bool)
    (es es' : List ThreadEvent) (c c₁ c' : Threads h) (n : ℕ) (a : Handler) (p : PublicCall)
    (hes : ∀ e ∈ es, ∀ i, e ≠ .wake i) (hes' : ∀ e ∈ es', ∀ i, e ≠ .wake i)
    (hc : exec (Threads.step env) (Threads.init h disk useIdle) es = some c)
    (ha : c.active[n]? = some a) (hstep : c.step env (.nested n p) = some c₁)
    (hp : p.isSync = true) (hex : (p.message c.next).exclusive = true ∨ a.task.exclusive = true)
    (hc' : exec (Threads.step env) c₁ es' = some c') :
    (c'.task c.next).freed = false ∧ c.next ∉ ids c'.handled ∧ Stalled a c c' := by
  have hsound : Sound env (catalinaStorageInit h disk) c := sound_run hc
  have hshake := (handshake_run hes hc).2
  have hsound₁ := hsound.step hstep
  have hshake₁ : Handshake c₁ := hshake.step hsound.serialized (fun i hi => by cases hi) hstep
  cases step_cases hstep with
  | @nested _ a' stage r rs _ ha' hphase _ =>
    obtain rfl := Option.some.inj (ha'.symm.trans ha)
    obtain ⟨hn, _⟩ := List.getElem?_eq_some_iff.mp ha
    rw [if_pos hp] at hsound₁ hshake₁ hc'
    let b : Handler := { a' with phase := .inCallback c.next rs }
    have hhangs : Hangs b c.next (Threads.setPhase (Threads.call
        { c with delivered := c.delivered ++ [r] } p) n a' (.inCallback c.next rs)) :=
      ⟨(congrArg SyncTask.isSync (Function.update_self ..)).trans hp, List.mem_set hn b, ⟨rs, rfl⟩,
        p.message c.next, List.mem_append_right _ List.mem_cons_self, id_message c.next p, hex⟩
    let I : Threads h → Prop := fun c' => Hangs b c.next c' ∧
      Sound env (catalinaStorageInit h disk) c' ∧ Handshake c'
    have hI : ∀ c₁ e c₂, I c₁ → (∀ i, e ≠ .wake i) → Threads.step env c₁ e = some c₂ →
        I c₂ ∧ Stalled b c₁ c₂ := by
      intro c₁ e c₂ hI he hst
      obtain ⟨hh, hs, hk⟩ := hI
      have hnext := hh.step hs hk hst
      exact ⟨⟨hnext.1, hs.step hst, hk.step hs.serialized he hst⟩, hnext.2⟩
    obtain ⟨hh, hs, hk⟩ := exec_invariant (fun c₁ e c₂ hi he hst => (hI c₁ e c₂ hi he hst).1)
      ⟨hhangs, hsound₁, hshake₁⟩ hes' hc'
    have hstall : Stalled b _ c' := exec_relates (Stalled.refl b) (fun _ _ _ => Stalled.trans) hI
      ⟨hhangs, hsound₁, hshake₁⟩ hes' hc'
    exact ⟨(hh.not_freed hs.serialized hk).1, (hh.not_freed hs.serialized hk).2, hstall⟩

/-- The callback of an open makes a get. -/
theorem nested_call_hangs_get :
    ((threadsAfter false [.call (.openAsync [47]), .take 0, .advance 0, .nested 0 (.get [1]),
        .wait 1]).task 1).freed = false ∧
      1 ∉ ids (threadsAfter false [.call (.openAsync [47]), .take 0, .advance 0,
        .nested 0 (.get [1]), .wait 1]).handled ∧
      Stalled ⟨openTask 0 [47], .completing .reached
          [{ openTask 0 [47] with success := true }]⟩
        (threadsAfter false [.call (.openAsync [47]), .take 0, .advance 0])
        (threadsAfter false [.call (.openAsync [47]), .take 0, .advance 0, .nested 0 (.get [1]),
          .wait 1]) :=
  nested_call_hangs (fun _ => {}) (fun _ => ∅) false
    [.call (.openAsync [47]), .take 0, .advance 0] [.wait 1] _ _ _ 0 _ (.get [1]) (by simp) (by simp)
    rfl rfl rfl rfl (Or.inr rfl) rfl

end Catalina
