import Catalina.Storage.Interleave
import Catalina.Storage.Replies

/-!
# The handshake of a synchronous call

The thread of a synchronous call has the mutex of its task from the start until it sleeps on the
condition. The handler that completes the task locks the mutex before it signals, so the signal is
not lost; and the caller, once woken, waits for the mutex until the handler has let go of the task.

* `SyncTask.AtStage`: what a task and its caller are like at each stage of its completion;
  `complete_atStage`, `wait_atStage`, `resume_atStage`: each thread keeps to it.
* `Handshake`: the invariant of runs whose threads are woken by signals only.
* **`sync_calls`**: no task is touched after it is freed, every call that returns has the one answer
  to its message, and no wakeup is lost.
-/

namespace Catalina

variable {h : Host} {env : Env} {c c' : Threads h} {e : ThreadEvent} {r : StorageTask}
  {k k' : SyncTask} {stage : Stage} {next : Option Stage}

/-! ## One task -/

namespace SyncTask

/-- The caller has the mutex or sleeps. -/
def Idle (k : SyncTask) : Prop :=
  k.caller = .calling ∧ k.mutex = some .caller ∨ k.caller = .waiting ∧ k.mutex = none

/-- No handler has written into the task. -/
def Untouched (k : SyncTask) : Prop := k.answer = none ∧ k.Idle

/-- The task and its caller at a stage of the completion with the answer `r`; `none` once it is
complete. -/
def AtStage (r : StorageTask) (k : SyncTask) : Option Stage → Prop
  | some .reached => k.Untouched
  | some .written => k.answer = some r ∧ k.Idle
  | some .locked => k.answer = some r ∧ k.caller = .waiting ∧ k.mutex = some .handler
  | some .signalled => k.answer = some r ∧ k.caller = .woken ∧ k.mutex = some .handler
  | none => k.answer = some r ∧ k.mutex = none ∧ (k.caller = .woken ∨ k.caller = .returned (some r))

theorem Idle.not_freed (hk : k.Idle) : k.freed = false := by
  unfold freed
  rcases hk with ⟨hc, _⟩ | ⟨hc, _⟩ <;> rw [hc]

theorem AtStage.not_freed (hk : k.AtStage r (some stage)) : k.freed = false := by
  cases stage with
  | reached => exact hk.2.not_freed
  | written => exact hk.2.not_freed
  | locked | signalled =>
    unfold freed
    rw [hk.2.1]

/-- **One step of `storage_task_complete`.** The mutex is free only when the caller sleeps. -/
theorem complete_atStage (hk : k.AtStage r (some stage)) (hstep : k.complete r stage = some k') :
    k'.AtStage r stage.next := by
  cases stage with
  | reached =>
    obtain rfl := Option.some.inj hstep
    exact ⟨rfl, hk.2⟩
  | written =>
    simp only [complete] at hstep
    split_ifs at hstep with hm
    obtain rfl := Option.some.inj hstep
    rcases hk.2 with ⟨_, hmutex⟩ | ⟨hcaller, _⟩
    · rw [hmutex] at hm
      cases hm
    · exact ⟨hk.1, hcaller, rfl⟩
  | locked =>
    obtain rfl := Option.some.inj hstep
    exact ⟨hk.1, if_pos hk.2.1, hk.2.2⟩
  | signalled =>
    obtain rfl := Option.some.inj hstep
    exact ⟨hk.1, rfl, Or.inl hk.2.1⟩

theorem isSync_complete (hstep : k.complete r stage = some k') : k'.isSync = k.isSync := by
  cases stage with
  | written =>
    simp only [complete] at hstep
    split_ifs at hstep
    obtain rfl := Option.some.inj hstep
    rfl
  | reached | locked | signalled =>
    obtain rfl := Option.some.inj hstep
    rfl

theorem wait_atStage (hstep : k.wait = some k') (hk : k.AtStage r next) : k'.AtStage r next := by
  unfold wait at hstep
  split_ifs at hstep with hw
  obtain rfl := Option.some.inj hstep
  obtain ⟨_, hcaller, hmutex⟩ := hw
  cases next with
  | none =>
    rw [AtStage, hmutex] at hk
    exact absurd hk.2.1 (Option.some_ne_none _)
  | some stage =>
    cases stage with
    | reached => exact ⟨hk.1, Or.inr ⟨rfl, rfl⟩⟩
    | written => exact ⟨hk.1, Or.inr ⟨rfl, rfl⟩⟩
    | locked | signalled =>
      rw [AtStage, hcaller] at hk
      exact absurd hk.2.1 nofun

theorem resume_atStage (hstep : k.resume = some k') (hk : k.AtStage r next) : k'.AtStage r next := by
  unfold resume at hstep
  split_ifs at hstep with hw
  obtain rfl := Option.some.inj hstep
  obtain ⟨_, hcaller, hmutex⟩ := hw
  have hidle : ¬ k.Idle := by
    rintro (⟨hc, _⟩ | ⟨hc, _⟩) <;>
    · rw [hcaller] at hc
      cases hc
  cases next with
  | none => exact ⟨hk.1, hk.2.1, Or.inr (congrArg Caller.returned hk.1)⟩
  | some stage =>
    cases stage with
    | reached => exact absurd hk.2 hidle
    | written => exact absurd hk.2 hidle
    | locked | signalled =>
      rw [AtStage, hmutex] at hk
      exact absurd hk.2.2 nofun

theorem isSync_wait (hstep : k.wait = some k') : k'.isSync = k.isSync := by
  unfold wait at hstep
  split_ifs at hstep
  obtain rfl := Option.some.inj hstep
  rfl

theorem isSync_resume (hstep : k.resume = some k') : k'.isSync = k.isSync := by
  unfold resume at hstep
  split_ifs at hstep
  obtain rfl := Option.some.inj hstep
  rfl

end SyncTask

/-! ## All tasks -/

/-- The tasks that a handler has still to complete, each with its stage. -/
def Handler.pending (a : Handler) : Multiset (Stage × StorageTask) :=
  match a.phase with
  | .working _ => 0
  | .completing _ [] => 0
  | .completing stage (r :: rs) => (stage, r) ::ₘ ↑(rs.map (Prod.mk Stage.reached))
  | .inCallback _ rs => ↑(rs.map (Prod.mk Stage.reached))

def Threads.pending (c : Threads h) : Multiset (Stage × StorageTask) :=
  (c.active.map Handler.pending).sum

variable {n : ℕ} {a : Handler} {phase : Phase} {rs : List StorageTask}

theorem pending_eq (ha : c.active[n]? = some a) (phase : Phase) :
    ∃ m, c.pending = m + a.pending ∧
      (c.setPhase n a phase).pending = m + { a with phase }.pending :=
  sum_active_eq Handler.pending ha phase

theorem Handler.pending_reached (task : StorageTask) (rs : List StorageTask) :
    Handler.pending { task, phase := .completing .reached rs } =
      ↑(rs.map (Prod.mk Stage.reached)) := by
  cases rs <;> rfl

theorem Handler.pending_cons (hp : a.phase = .completing stage (r :: rs)) :
    a.pending = (stage, r) ::ₘ ↑(rs.map (Prod.mk Stage.reached)) := by
  unfold Handler.pending
  rw [hp]

theorem pending_left (ha : c.active[n]? = some a) (hp : a.phase = .completing stage (r :: rs))
    (hphase : { a with phase }.pending = ↑(rs.map (Prod.mk Stage.reached))) :
    c.pending = (stage, r) ::ₘ (c.setPhase n a phase).pending := by
  obtain ⟨m, hm, hm'⟩ := pending_eq ha phase
  rw [hm, hm', hphase, Handler.pending_cons hp, Multiset.add_cons]

/-- What holds of the tasks while no thread is woken without a signal. -/
structure Handshake (c : Threads h) : Prop where
  answers : ↑c.delivered + c.pending.map Prod.snd ≤ (c.storage.replies : Multiset StorageTask)
  created : ∀ i, c.next ≤ i → (c.task i).isSync = false
  unanswered : ∀ i, (c.task i).isSync = true → i ∉ ids c.storage.replies → (c.task i).Untouched
  pending : ∀ p ∈ c.pending, (c.task p.2.id).isSync = true →
    (c.task p.2.id).AtStage p.2 (some p.1)
  complete : ∀ r ∈ c.storage.replies, (c.task r.id).isSync = true →
    r ∉ c.pending.map Prod.snd → (c.task r.id).AtStage r none
  delivered : ∀ r ∈ c.storage.replies, (c.task r.id).isSync = false →
    r ∈ c.delivered ∨ r ∈ c.pending.map Prod.snd
  faultless : c.faults = []

/-! ## Ids -/

theorem held_run_le (env : Env) : ∀ (ts : List StorageTask) (s : Storage h),
    (run env s ts).held ≤ s.held + ids ts
  | [], s => (add_zero s.held).ge
  | t :: ts, s => by
    rw [run_cons, ids_cons, ← add_assoc]
    exact (held_run_le env ts _).trans (add_le_add_left (held_handleMessage_le env s t) _)

variable {disk : Bytes → Records}

theorem Serialized.replies_le (hs : Serialized env (catalinaStorageInit h disk) c) :
    ids c.storage.replies ≤ ids c.handled := by
  have hheld : c.storage.held ≤ ids c.handled := by
    rw [hs.storage]
    exact (held_run_le env c.handled _).trans (zero_add _).le
  refine le_trans ?_ hheld
  unfold Storage.held
  rw [add_assoc]
  exact Multiset.le_add_right _ _

theorem Serialized.nodup (hs : Serialized env (catalinaStorageInit h disk) c) :
    (ids c.handled + c.inHand + ids c.posted).Nodup := hs.once ▸ Multiset.nodup_range c.next

theorem Serialized.replies_nodup (hs : Serialized env (catalinaStorageInit h disk) c) :
    (ids c.storage.replies).Nodup := by
  have hle : ids c.handled ≤ ids c.handled + c.inHand + ids c.posted := by
    rw [add_assoc]
    exact Multiset.le_add_right _ _
  exact Multiset.nodup_of_le (hs.replies_le.trans hle) hs.nodup

theorem Serialized.lt_next (hs : Serialized env (catalinaStorageInit h disk) c) {i : ℕ}
    (hi : i ∈ ids c.storage.replies) : i < c.next := by
  rw [← Multiset.mem_range, ← hs.once, add_assoc]
  exact Multiset.mem_add.mpr (Or.inl (Multiset.mem_of_le hs.replies_le hi))

theorem Serialized.not_answered (hs : Serialized env (catalinaStorageInit h disk) c) {w : Work}
    (ha : a ∈ c.active) (hp : a.phase = .working w) : a.task.id ∉ ids c.storage.replies := by
  intro hi
  have hin : a.task.id ∈ c.inHand := by
    obtain ⟨n, ha'⟩ := List.getElem?_of_mem ha
    obtain ⟨m, hm, _⟩ := inHand_eq ha' a.phase
    rw [hm, Handler.inHand_working hp]
    exact Multiset.mem_add.mpr (Or.inr (Multiset.mem_singleton_self _))
  have hdisj := Multiset.disjoint_of_nodup_add (Multiset.nodup_of_le (Multiset.le_add_right _ _)
    hs.nodup)
  exact Multiset.disjoint_left.mp hdisj (Multiset.mem_of_le hs.replies_le hi) hin

theorem eq_of_id {rs : List StorageTask} (hrs : (ids rs).Nodup) {r r' : StorageTask} (hr : r ∈ rs)
    (hr' : r' ∈ rs) (hid : r.id = r'.id) : r = r' :=
  List.inj_on_of_nodup_map (Multiset.coe_nodup.mp hrs) hr hr' hid

theorem mem_ids_iff {rs : List StorageTask} {i : ℕ} : i ∈ ids rs ↔ ∃ r ∈ rs, r.id = i := by
  unfold ids
  rw [Multiset.mem_coe, List.mem_map]

/-! ## Steps -/

theorem Handshake.mem_replies (hk : Handshake c) {p : Stage × StorageTask} (hp : p ∈ c.pending) :
    p.2 ∈ c.storage.replies :=
  Multiset.mem_coe.mp (Multiset.mem_of_le hk.answers
    (Multiset.mem_add.mpr (Or.inr (Multiset.mem_map_of_mem _ hp))))

theorem Handshake.pending_nodup (hk : Handshake c)
    (hs : Serialized env (catalinaStorageInit h disk) c) :
    (c.pending.map fun p => p.2.id).Nodup := by
  have hle : (c.pending.map Prod.snd).map StorageTask.id ≤ ids c.storage.replies :=
    Multiset.map_le_map ((Multiset.le_add_left _ _).trans hk.answers)
  rw [Multiset.map_map] at hle
  exact Multiset.nodup_of_le hle hs.replies_nodup

theorem handshake_init (useIdle : Bool) : Handshake (Threads.init h disk useIdle) where
  answers := le_refl _
  created _ _ := rfl
  unanswered _ hi := absurd hi Bool.false_ne_true
  pending _ hp := absurd hp (Multiset.notMem_zero _)
  complete _ hr := absurd hr List.not_mem_nil
  delivered _ hr := absurd hr List.not_mem_nil
  faultless := rfl

theorem Handshake.setTask (hk : Handshake c) {i : ℕ} (hsync : k.isSync = (c.task i).isSync)
    (hstage : ∀ r next, (c.task i).AtStage r next → k.AtStage r next) :
    Handshake (c.setTask i k) := by
  have hsync' : ∀ j, ((c.setTask i k).task j).isSync = (c.task j).isSync := fun j => by
    change (Function.update c.task i k j).isSync = _
    rw [Function.update_apply]
    split_ifs with hj
    · rw [hj, hsync]
    · rfl
  have hstage' : ∀ j r next, (c.task j).AtStage r next → ((c.setTask i k).task j).AtStage r next :=
    fun j r next hj => by
      change (Function.update c.task i k j).AtStage r next
      rw [Function.update_apply]
      split_ifs with hji
      · exact hstage r next (hji ▸ hj)
      · exact hj
  refine ⟨hk.answers, fun j hj => (hsync' j).trans (hk.created j hj), fun j hj hn => ?_, ?_, ?_, ?_,
    hk.faultless⟩
  · exact hstage' j (closeTask j) (some .reached) (hk.unanswered j (hsync' j ▸ hj) hn)
  · exact fun p hp hj => hstage' _ _ _ (hk.pending p hp (hsync' _ ▸ hj))
  · exact fun r hr hj hn => hstage' _ _ _ (hk.complete r hr (hsync' _ ▸ hj) hn)
  · exact fun r hr hj => hk.delivered r hr (hsync' _ ▸ hj)

theorem Handshake.congr (hk : Handshake c) (hd : c'.delivered = c.delivered)
    (hp : c'.pending = c.pending) (hr : c'.storage.replies = c.storage.replies)
    (ht : c'.task = c.task) (hn : c'.next = c.next) (hf : c'.faults = c.faults) : Handshake c' := by
  obtain ⟨h₁, h₂, h₃, h₄, h₅, h₆, h₇⟩ := hk
  rw [← hd, ← hp, ← hr] at h₁
  rw [← hn, ← ht] at h₂
  rw [← hr, ← ht] at h₃
  rw [← hp, ← ht] at h₄
  rw [← hr, ← hp, ← ht] at h₅
  rw [← hr, ← hd, ← hp, ← ht] at h₆
  exact ⟨h₁, h₂, h₃, h₄, h₅, h₆, hf.trans h₇⟩

theorem Handshake.call (hk : Handshake c) (hs : Serialized env (catalinaStorageInit h disk) c)
    (p : PublicCall) : Handshake (c.call p) := by
  have hold : ∀ i, i ≠ c.next → (c.call p).task i = c.task i :=
    fun i hi => Function.update_of_ne hi _ _
  have hreplies : ∀ r ∈ c.storage.replies, (c.call p).task r.id = c.task r.id :=
    fun r hr => hold r.id (hs.lt_next (mem_ids_iff.mpr ⟨r, hr, rfl⟩)).ne
  refine ⟨hk.answers, fun i hi => ?_, fun i hi hn => ?_, fun q hq hsync => ?_, ?_, ?_, hk.faultless⟩
  · have hi' : c.next + 1 ≤ i := hi
    rw [hold i (by omega)]
    exact hk.created i (by omega)
  · by_cases hi' : i = c.next
    · have hnew : (c.call p).task i = { isSync := p.isSync } := by
        rw [hi']
        exact Function.update_self ..
      rw [hnew]
      exact ⟨rfl, Or.inl ⟨rfl, rfl⟩⟩
    · rw [hold i hi'] at hi ⊢
      exact hk.unanswered i hi hn
  · rw [hreplies q.2 (hk.mem_replies hq)] at hsync ⊢
    exact hk.pending q hq hsync
  · intro r hr hsync
    rw [hreplies r hr] at hsync ⊢
    exact hk.complete r hr hsync
  · intro r hr hsync
    rw [hreplies r hr] at hsync
    exact hk.delivered r hr hsync

theorem touch_eq {i : ℕ} (hi : (c.task i).freed = false) : c.touch i = c := by
  unfold Threads.touch
  rw [if_neg (by rw [hi]; simp)]

/-- **A handler has its answers.** None of them has been answered before. -/
theorem Handshake.worked (hk : Handshake c) (hd : c'.delivered = c.delivered)
    {new : List StorageTask} (hr : c'.storage.replies = c.storage.replies ++ new)
    (hp : c'.pending = c.pending + ↑(new.map (Prod.mk Stage.reached))) (ht : c'.task = c.task)
    (hn : c'.next = c.next) (hf : c'.faults = c.faults) (hnd : (ids c'.storage.replies).Nodup) :
    Handshake c' := by
  have hsnd : c'.pending.map Prod.snd = c.pending.map Prod.snd + ↑new := by
    rw [hp, Multiset.map_add, Multiset.map_coe, List.map_map]
    congr 2
    exact List.map_id _
  refine ⟨?_, fun i hi => ?_, fun i hi hni => ?_, fun p hpend hsync => ?_, fun r hr' hsync hnp => ?_,
    fun r hr' hsync => ?_, hf.trans hk.faultless⟩
  · rw [hd, hsnd, hr, ← Multiset.coe_add, ← add_assoc]
    exact add_le_add_left hk.answers _
  · rw [ht]
    exact hk.created i (hn ▸ hi)
  · rw [ht] at hi ⊢
    rw [hr, ids_append] at hni
    exact hk.unanswered i hi fun hold => hni (Multiset.mem_add.mpr (Or.inl hold))
  · rw [ht] at hsync ⊢
    rw [hp] at hpend
    rcases Multiset.mem_add.mp hpend with hold | hnew
    · exact hk.pending p hold hsync
    · obtain ⟨r, hr', rfl⟩ := List.mem_map.mp (Multiset.mem_coe.mp hnew)
      refine hk.unanswered r.id hsync fun hold => ?_
      rw [hr, ids_append] at hnd
      exact Multiset.disjoint_left.mp (Multiset.disjoint_of_nodup_add hnd) hold
        (mem_ids_iff.mpr ⟨r, hr', rfl⟩)
  · rw [ht] at hsync ⊢
    rw [hsnd] at hnp
    rw [hr] at hr'
    rcases List.mem_append.mp hr' with hold | hnew
    · exact hk.complete r hold hsync fun hp' => hnp (Multiset.mem_add.mpr (Or.inl hp'))
    · exact absurd (Multiset.mem_add.mpr (Or.inr (Multiset.mem_coe.mpr hnew))) hnp
  · rw [ht] at hsync
    rw [hr] at hr'
    rw [hd, hsnd]
    rcases List.mem_append.mp hr' with hold | hnew
    · exact (hk.delivered r hold hsync).imp_right fun hp' => Multiset.mem_add.mpr (Or.inl hp')
    · exact Or.inr (Multiset.mem_add.mpr (Or.inr (Multiset.mem_coe.mpr hnew)))

/-- **A handler takes one step** of the completion of a synchronous task. -/
theorem Handshake.completed (hk : Handshake c) (hs : Serialized env (catalinaStorageInit h disk) c)
    {m : Multiset (Stage × StorageTask)} (hpend : c.pending = (stage, r) ::ₘ m)
    (hsync : (c.task r.id).isSync = true) (hstep : (c.task r.id).complete r stage = some k)
    (hd : c'.delivered = c.delivered) (hr : c'.storage.replies = c.storage.replies)
    (hp : c'.pending = (match stage.next with | some st => {(st, r)} | none => 0) + m)
    (ht : c'.task = Function.update c.task r.id k) (hn : c'.next = c.next)
    (hf : c'.faults = c.faults) : Handshake c' := by
  have hmem : (stage, r) ∈ c.pending := hpend ▸ Multiset.mem_cons_self _ m
  have hreply : r ∈ c.storage.replies := hk.mem_replies hmem
  have hstage : k.AtStage r stage.next :=
    SyncTask.complete_atStage (hk.pending _ hmem hsync) hstep
  have hself : c'.task r.id = k := by
    rw [ht]
    exact Function.update_self ..
  have hother : ∀ i, i ≠ r.id → c'.task i = c.task i := fun i hi => by
    rw [ht]
    exact Function.update_of_ne hi _ _
  -- the other answers are those of other tasks
  have hne : ∀ p ∈ m, p.2.id ≠ r.id := fun p hpm heq => by
    have hnd := hk.pending_nodup hs
    rw [hpend, Multiset.map_cons, Multiset.nodup_cons] at hnd
    exact hnd.1 (heq ▸ Multiset.mem_map_of_mem (fun p : Stage × StorageTask => p.2.id) hpm)
  have hsub : c'.pending.map Prod.snd ≤ c.pending.map Prod.snd := by
    rw [hp, hpend, ← Multiset.singleton_add, Multiset.map_add, Multiset.map_add]
    refine add_le_add_left ?_ _
    cases stage <;> first | exact le_refl _ | exact Multiset.zero_le _
  have hkeep : ∀ r', r'.id ≠ r.id → r' ∈ c.pending.map Prod.snd → r' ∈ c'.pending.map Prod.snd :=
    fun r' hid hold => by
      rw [hpend, Multiset.map_cons] at hold
      rw [hp, Multiset.map_add]
      rcases Multiset.mem_cons.mp hold with rfl | hold
      · exact absurd rfl hid
      · exact Multiset.mem_add.mpr (Or.inr hold)
  refine ⟨?_, fun i hi => ?_, fun i hi hni => ?_, fun p hpp hps => ?_, fun r' hr' hs' hnp => ?_,
    fun r' hr' hs' => ?_, hf.trans hk.faultless⟩
  · rw [hd, hr]
    exact (add_le_add_right hsub _).trans hk.answers
  · rw [hother i fun heq => ?_]
    · exact hk.created i (hn ▸ hi)
    · have hlt := hs.lt_next (mem_ids_iff.mpr ⟨r, hreply, rfl⟩)
      omega
  · rw [hr] at hni
    have hne' : i ≠ r.id := fun heq => hni (mem_ids_iff.mpr ⟨r, hreply, heq.symm⟩)
    rw [hother i hne'] at hi ⊢
    exact hk.unanswered i hi hni
  · rw [hp] at hpp
    rcases Multiset.mem_add.mp hpp with hhead | hrest
    · cases hnext : stage.next with
      | none =>
        rw [hnext] at hhead
        exact absurd hhead (Multiset.notMem_zero _)
      | some st =>
        rw [hnext] at hhead hstage
        rw [Multiset.mem_singleton.mp hhead, hself]
        exact hstage
    · rw [hother _ (hne p hrest)] at hps ⊢
      exact hk.pending p (hpend ▸ Multiset.mem_cons_of_mem hrest) hps
  · rw [hr] at hr'
    by_cases hid : r'.id = r.id
    · obtain rfl := eq_of_id hs.replies_nodup hr' hreply hid
      cases hnext : stage.next with
      | none =>
        rw [hself]
        exact hnext ▸ hstage
      | some st =>
        rw [hp, hnext] at hnp
        exact absurd (Multiset.mem_map_of_mem Prod.snd (Multiset.mem_add.mpr
          (Or.inl (Multiset.mem_singleton_self (st, r'))))) hnp
    · rw [hother _ hid] at hs' ⊢
      exact hk.complete r' hr' hs' fun hold => hnp (hkeep r' hid hold)
  · rw [hr] at hr'
    have hid : r'.id ≠ r.id := fun hid => by
      rw [hid, hself, SyncTask.isSync_complete hstep, hsync] at hs'
      cases hs'
    rw [hother _ hid] at hs'
    rw [hd]
    exact (hk.delivered r' hr' hs').imp_right (hkeep r' hid)

theorem Handshake.handed (hk : Handshake c) (hpend : c.pending = (stage, r) ::ₘ c'.pending)
    (hasync : (c.task r.id).isSync = false) (hd : c'.delivered = c.delivered ++ [r])
    (hr : c'.storage.replies = c.storage.replies) (ht : c'.task = c.task) (hn : c'.next = c.next)
    (hf : c'.faults = c.faults) : Handshake c' := by
  have hsnd : c.pending.map Prod.snd = r ::ₘ c'.pending.map Prod.snd := by
    rw [hpend, Multiset.map_cons]
  refine ⟨?_, fun i hi => ?_, fun i hi hni => ?_, fun p hp hps => ?_, fun r' hr' hs' hnp => ?_,
    fun r' hr' hs' => ?_, hf.trans hk.faultless⟩
  · refine le_of_eq_of_le ?_ (hr ▸ hk.answers)
    rw [hsnd, hd, ← Multiset.coe_add, Multiset.coe_singleton, ← Multiset.singleton_add, add_assoc]
  · rw [ht]
    exact hk.created i (hn ▸ hi)
  · rw [ht] at hi ⊢
    exact hk.unanswered i hi (hr ▸ hni)
  · rw [ht] at hps ⊢
    exact hk.pending p (hpend ▸ Multiset.mem_cons_of_mem hp) hps
  · rw [ht] at hs' ⊢
    refine hk.complete r' (hr ▸ hr') hs' fun hold => ?_
    rw [hsnd] at hold
    rcases Multiset.mem_cons.mp hold with rfl | hold
    · rw [hasync] at hs'
      cases hs'
    · exact hnp hold
  · rw [ht] at hs'
    rw [hd]
    rcases hk.delivered r' (hr ▸ hr') hs' with hold | hold
    · exact Or.inl (List.mem_append_left _ hold)
    · rw [hsnd] at hold
      rcases Multiset.mem_cons.mp hold with rfl | hold
      · exact Or.inl (List.mem_append_right _ List.mem_cons_self)
      · exact Or.inr hold

theorem Handler.pending_of_working {w : Work} (hp : a.phase = .working w) : a.pending = 0 := by
  unfold Handler.pending
  rw [hp]

theorem pending_setPhase (ha : c.active[n]? = some a) (heq : { a with phase }.pending = a.pending) :
    (c.setPhase n a phase).pending = c.pending := by
  obtain ⟨m, hm, hm'⟩ := pending_eq ha phase
  rw [hm', hm, heq]

theorem Handshake.not_freed (hk : Handshake c) (hs : Serialized env (catalinaStorageInit h disk) c)
    {w : Work} (ha : a ∈ c.active) (hp : a.phase = .working w) : c.touch a.task.id = c := by
  cases hsync : (c.task a.task.id).isSync with
  | false =>
    unfold Threads.touch
    rw [if_neg (by rw [hsync]; simp)]
  | true => exact touch_eq (hk.unanswered _ hsync (hs.not_answered ha hp)).2.not_freed

/-- **Every step but a wakeup without a signal keeps the invariant.** -/
theorem Handshake.step (hk : Handshake c) (hs : Serialized env (catalinaStorageInit h disk) c)
    (hwake : ∀ i, e ≠ .wake i) (hstep : c.step env e = some c') : Handshake c' := by
  have hs' : Serialized env (catalinaStorageInit h disk) c' := hs.step hstep
  cases step_cases hstep with
  | call p => exact hk.call hs p
  | @nested n a stage r rs p ha hp hr =>
    have hmem : (stage, r) ∈ c.pending := by
      rw [pending_left ha hp (Handler.pending_reached a.task rs)]
      exact Multiset.mem_cons_self _ _
    have hlt : r.id < c.next := hs.lt_next (mem_ids_iff.mpr ⟨r, hk.mem_replies hmem, rfl⟩)
    have hr' : ((c.call p).task r.id).isSync = false :=
      (congrArg SyncTask.isSync (Function.update_of_ne hlt.ne _ _)).trans hr
    refine (hk.call hs p).handed (pending_left (c := c.call p) ha hp ?_) hr' rfl rfl rfl rfl rfl
    split_ifs
    · rfl
    · exact Handler.pending_reached _ _
  | wait hw =>
    exact hk.setTask (SyncTask.isSync_wait hw) fun r next => SyncTask.wait_atStage hw
  | @wake i _ _ => exact absurd rfl (hwake i)
  | resume hw =>
    exact hk.setTask (SyncTask.isSync_resume hw) fun r next => SyncTask.resume_atStage hw
  | take ht hadm =>
    refine hk.congr rfl ?_ rfl rfl rfl rfl
    unfold Threads.pending
    rw [List.map_append, List.sum_append]
    exact add_zero _
  | @looked n a w w' ha hp hw =>
    rw [hk.not_freed hs (List.mem_of_getElem? ha) hp]
    refine hk.congr rfl ?_ rfl rfl rfl rfl
    exact pending_setPhase ha (Handler.pending_of_working hp).symm
  | @worked n a w s ha hp hw =>
    rw [hk.not_freed hs (List.mem_of_getElem? ha) hp] at hs' ⊢
    have hpre : c.storage.replies <+: s.replies := by
      rw [work_answers (Threads.running_of_step hstep).1
        (hs.agrees a (List.mem_of_getElem? ha) w hp) hw]
      exact prefix_handleMessage c.storage a.task
    obtain ⟨new, hnew⟩ := hpre
    have hdrop : s.replies.drop c.storage.replies.length = new := by rw [← hnew, List.drop_left]
    rw [hdrop] at hs' ⊢
    refine hk.worked rfl hnew.symm ?_ rfl rfl rfl hs'.replies_nodup
    obtain ⟨m, hm, hm'⟩ := pending_eq ha (.completing .reached new)
    rw [hm, Handler.pending_of_working hp, add_zero, ← Handler.pending_reached a.task]
    exact hm'
  | @ended n a stage ha hp =>
    refine hk.congr rfl ?_ rfl rfl rfl rfl
    have hsum := sum_map_eraseIdx Handler.pending ha
    have h₀ : a.pending = 0 := by
      unfold Handler.pending
      rw [hp]
    rw [h₀, add_zero] at hsum
    exact hsum
  | @completed n a stage r rs k ha hp hr hw =>
    obtain ⟨m, hm, hm'⟩ := pending_eq ha (match stage.next with
      | some stage => .completing stage (r :: rs)
      | none => .completing .reached rs)
    rw [Handler.pending_cons hp, Multiset.add_cons] at hm
    have hmem : (stage, r) ∈ c.pending := hm ▸ Multiset.mem_cons_self _ _
    rw [touch_eq (hk.pending _ hmem hr).not_freed]
    refine hk.completed hs hm hr hw rfl rfl ?_ rfl rfl rfl
    refine hm'.trans ?_
    cases stage.next with
    | none => rw [Handler.pending_reached, zero_add]
    | some st => rw [Handler.pending_cons rfl, Multiset.add_cons, Multiset.singleton_add]
  | @delivered n a stage r rs ha hp hr =>
    exact hk.handed (pending_left ha hp (Handler.pending_reached _ _)) hr rfl rfl rfl rfl rfl
  | @back n a i rs ha hp _ =>
    refine hk.congr rfl ?_ rfl rfl rfl rfl
    refine pending_setPhase ha ?_
    rw [Handler.pending_reached]
    unfold Handler.pending
    rw [hp]

/-! ## Runs -/

theorem handshake_run {useIdle : Bool} {es : List ThreadEvent} (hes : ∀ e ∈ es, ∀ i, e ≠ .wake i)
    (hc : exec (Threads.step env) (Threads.init h disk useIdle) es = some c) :
    Serialized env (catalinaStorageInit h disk) c ∧ Handshake c :=
  exec_invariant (E := fun e => ∀ i, e ≠ .wake i)
    (I := fun c => Serialized env (catalinaStorageInit h disk) c ∧ Handshake c)
    (fun _ _ _ hs he hstep => ⟨hs.1.step hstep, hs.2.step hs.1 he hstep⟩)
    ⟨serialized_init disk useIdle, handshake_init useIdle⟩ hes hc

theorem filter_id {rs : List StorageTask} (hrs : (ids rs).Nodup) (hr : r ∈ rs) :
    rs.filter (·.id = r.id) = [r] := by
  induction rs with
  | nil => cases hr
  | cons x rs ih =>
    rw [ids_cons, Multiset.singleton_add, Multiset.nodup_cons] at hrs
    rcases List.mem_cons.mp hr with rfl | hr
    · rw [List.filter_cons_of_pos (by simp)]
      congr 1
      refine List.filter_eq_nil_iff.mpr fun y hy => ?_
      have hne : y.id ≠ r.id := fun heq => hrs.1 (mem_ids_iff.mpr ⟨y, hy, heq⟩)
      simpa using hne
    · have hne : x.id ≠ r.id := fun heq => hrs.1 (mem_ids_iff.mpr ⟨r, hr, heq.symm⟩)
      rw [List.filter_cons_of_neg (by simpa using hne)]
      exact ih hrs.2 hr

/-- **A call that returns** has the one answer to its message. -/
theorem Handshake.answer_of_returned (hk : Handshake c) {i : ℕ} {answer : Option StorageTask}
    (hsync : (c.task i).isSync = true) (hret : (c.task i).caller = .returned answer) :
    ∃ r, answer = some r ∧ r.id = i ∧ r ∈ c.storage.replies := by
  have hidle : ¬ (c.task i).Idle := by
    rintro (⟨hcaller, _⟩ | ⟨hcaller, _⟩) <;>
    · rw [hret] at hcaller
      cases hcaller
  have hmem : i ∈ ids c.storage.replies :=
    by_contra fun hi => hidle (hk.unanswered i hsync hi).2
  obtain ⟨r, hr, rfl⟩ := mem_ids_iff.mp hmem
  have hcomplete : (c.task r.id).AtStage r none := by
    refine hk.complete r hr hsync fun hpend => ?_
    obtain ⟨p, hp, rfl⟩ := Multiset.mem_map.mp hpend
    have hfreed := (hk.pending p hp hsync).not_freed
    rw [SyncTask.freed, hret] at hfreed
    cases hfreed
  refine ⟨r, ?_, rfl, hr⟩
  rcases hcomplete.2.2 with hcaller | hcaller
  · rw [hret] at hcaller
    cases hcaller
  · exact Caller.returned.inj (hret.symm.trans hcaller)

theorem Handshake.delivered_le (hk : Handshake c) :
    (c.delivered : Multiset StorageTask) ≤ c.storage.replies :=
  (Multiset.le_add_right _ _).trans hk.answers

/-- **No wakeup is lost.** While a caller sleeps its message has no answer, or a handler has still to
signal the condition. -/
theorem Handshake.unsignalled (hk : Handshake c) {i : ℕ} (hsync : (c.task i).isSync = true)
    (hwait : (c.task i).caller = .waiting) (hi : i ∈ ids c.storage.replies) :
    ∃ p ∈ c.pending, p.2.id = i ∧ p.1 ≠ .signalled := by
  obtain ⟨r, hr, rfl⟩ := mem_ids_iff.mp hi
  by_cases hpend : r ∈ c.pending.map Prod.snd
  · obtain ⟨p, hp, rfl⟩ := Multiset.mem_map.mp hpend
    refine ⟨p, hp, rfl, fun hstage => ?_⟩
    have hsig := hk.pending p hp hsync
    rw [hstage, SyncTask.AtStage, hwait] at hsig
    cases hsig.2.1
  · have hdone := (hk.complete r hr hsync hpend).2.2
    rw [hwait] at hdone
    rcases hdone with hdone | hdone <;> cases hdone

/-- **Synchronous calls are linearizable.** While threads are woken by signals only, no handler
touches a task that has been freed; a call returns the one answer to its message, after the message
has been handled; no callback of an asynchronous call gets an answer twice; and no wakeup is lost. -/
theorem sync_calls (env : Env) (disk : Bytes → Records) (useIdle : Bool) (es : List ThreadEvent)
    (c : Threads h) (hes : ∀ e ∈ es, ∀ i, e ≠ .wake i)
    (hc : exec (Threads.step env) (Threads.init h disk useIdle) es = some c) :
    c.faults = [] ∧ (ids c.delivered).Nodup ∧ (∀ r ∈ c.delivered, r ∈ c.storage.replies) ∧
      (∀ i answer, (c.task i).isSync = true → (c.task i).caller = .returned answer →
        i ∈ ids c.handled ∧
          ∃ r, answer = some r ∧ c.storage.replies.filter (·.id = i) = [r]) ∧
      ∀ i, (c.task i).isSync = true → (c.task i).caller = .waiting → i ∈ ids c.storage.replies →
        ∃ p ∈ c.pending, p.2.id = i ∧ p.1 ≠ .signalled := by
  obtain ⟨hs, hk⟩ := handshake_run hes hc
  have hids : ids c.delivered ≤ ids c.storage.replies := Multiset.map_le_map hk.delivered_le
  refine ⟨hk.faultless, Multiset.nodup_of_le hids hs.replies_nodup,
    fun r hr => Multiset.mem_of_le hk.delivered_le hr, fun i answer hsync hret => ?_,
    fun i hsync hwait hi => hk.unsignalled hsync hwait hi⟩
  obtain ⟨r, hanswer, rfl, hr⟩ := hk.answer_of_returned hsync hret
  exact ⟨Multiset.mem_of_le hs.replies_le (mem_ids_iff.mpr ⟨r, hr, rfl⟩), r, hanswer,
    filter_id hs.replies_nodup hr⟩

/-- The overlapping calls: the open and the set have been answered. -/
theorem sync_calls_overlapping :
    (threadsAfter true overlappingCalls).faults = [] ∧
      (ids (threadsAfter true overlappingCalls).delivered).Nodup ∧
      (∀ r ∈ (threadsAfter true overlappingCalls).delivered,
        r ∈ (threadsAfter true overlappingCalls).storage.replies) ∧
      (∀ i answer, ((threadsAfter true overlappingCalls).task i).isSync = true →
        ((threadsAfter true overlappingCalls).task i).caller = .returned answer →
          i ∈ ids (threadsAfter true overlappingCalls).handled ∧ ∃ r, answer = some r ∧
            (threadsAfter true overlappingCalls).storage.replies.filter (·.id = i) = [r]) ∧
      ∀ i, ((threadsAfter true overlappingCalls).task i).isSync = true →
        ((threadsAfter true overlappingCalls).task i).caller = .waiting →
          i ∈ ids (threadsAfter true overlappingCalls).storage.replies →
            ∃ p ∈ (threadsAfter true overlappingCalls).pending, p.2.id = i ∧ p.1 ≠ .signalled :=
  sync_calls (fun _ => {}) (fun _ => ∅) true overlappingCalls _
    (by simp [overlappingCalls]) rfl

end Catalina
