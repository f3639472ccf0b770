import Mathlib.Algebra.BigOperators.Group.Finset.Basic
import Mathlib.Algebra.Order.BigOperators.Group.Finset
import Catalina.Storage.Handshake

/-!
# Progress

Once the clients make no more calls the threads come to rest, in whatever order they run. Then every
call that the storage has answered has returned, unless the process has ended.

* `Threads.rank`: what is left to do; `rank_step`: every step but a call lowers it.
* `Threads.Settled`: what has been done when no thread can go on; `settled_of_stuck`.
* **`calls_settle`**: no run without calls is endless, and one that cannot go on has settled or ended.
-/

namespace Catalina

variable {h : Host} {env : Env} {c c' : Threads h} {e : ThreadEvent} {n : ℕ} {a : Handler}
  {phase : Phase}

/-- The event is not a call. -/
def ThreadEvent.Inner : ThreadEvent → Prop
  | .call _ | .nested _ _ => False
  | _ => True

/-! ## What is left to do -/

def Stage.left : Stage → ℕ
  | .reached => 4
  | .written => 3
  | .locked => 2
  | .signalled => 1

def Caller.left : Caller → ℕ
  | .calling => 3
  | .waiting => 2
  | .woken => 1
  | .returned _ => 0

namespace Handler

/-- The steps to an answer, apart from the records to visit. -/
def unanswered (a : Handler) : ℕ :=
  match a.phase with
  | .working .started => 2
  | .working _ => 1
  | _ => 0

/-- The records that a count has still to visit. -/
def unvisited (a : Handler) : ℕ :=
  match a.phase with
  | .working (.counting left _) => left.length
  | _ => 0

/-- The steps from the answers to the end. -/
def incomplete (a : Handler) : ℕ :=
  match a.phase with
  | .working _ => 0
  | .completing _ [] => 1
  | .completing stage (_ :: rs) => 1 + stage.left + 4 * rs.length
  | .inCallback _ rs => 2 + 4 * rs.length

theorem incomplete_reached (task : StorageTask) (rs : List StorageTask) :
    incomplete { task, phase := .completing .reached rs } = 1 + 4 * rs.length := by
  cases rs with
  | nil => rfl
  | cons r rs =>
    rw [List.length_cons]
    change 1 + 4 + 4 * rs.length = _
    omega

end Handler

/-- The steps that the threads of the synchronous calls have left. -/
def Threads.uncalled (c : Threads h) : ℕ := ∑ i ∈ Finset.range c.next, (c.task i).caller.left

/-- What is left to do: messages without an answer, records to visit, tasks to complete and calls to
return. -/
def Threads.rank (c : Threads h) : ℕ × ℕ × ℕ :=
  (3 * c.posted.length + (c.active.map Handler.unanswered).sum,
    (c.active.map Handler.unvisited).sum, (c.active.map Handler.incomplete).sum + c.uncalled)

/-- The order of ranks. -/
abbrev RankLt : ℕ × ℕ × ℕ → ℕ × ℕ × ℕ → Prop := Prod.Lex (· < ·) (Prod.Lex (· < ·) (· < ·))

theorem rankLt_wf : WellFounded RankLt :=
  WellFounded.prod_lex Nat.lt_wfRel.wf (WellFounded.prod_lex Nat.lt_wfRel.wf Nat.lt_wfRel.wf)

theorem rankLt_first {x x' : ℕ} {y y' : ℕ × ℕ} (hx : x < x') : RankLt (x, y) (x', y') :=
  Prod.Lex.left _ _ hx

theorem rankLt_second {x x' y y' z z' : ℕ} (hx : x = x') (hy : y < y') :
    RankLt (x, y, z) (x', y', z') := by
  subst hx
  exact Prod.Lex.right _ (Prod.Lex.left _ _ hy)

theorem rankLt_third {x x' y y' z z' : ℕ} (hx : x = x') (hy : y = y') (hz : z < z') :
    RankLt (x, y, z) (x', y', z') := by
  subst hx hy
  exact Prod.Lex.right _ (Prod.Lex.right _ hz)

/-- Synchronous tasks have numbers below the next one. -/
def Threads.Created (c : Threads h) : Prop := ∀ i, c.next ≤ i → (c.task i).isSync = false

theorem isSync_wake {k k' : SyncTask} (hstep : k.wake = some k') : k'.isSync = k.isSync := by
  unfold SyncTask.wake at hstep
  split_ifs at hstep
  obtain rfl := Option.some.inj hstep
  rfl

theorem created_setTask (hc : c.Created) {i : ℕ} {k : SyncTask}
    (hk : k.isSync = (c.task i).isSync) : (c.setTask i k).Created := by
  intro j hj
  change (Function.update c.task i k j).isSync = false
  rw [Function.update_apply]
  split_ifs with hji
  · rw [hk, ← hji]
    exact hc j hj
  · exact hc j hj

theorem created_call (hc : c.Created) (p : PublicCall) : (c.call p).Created := by
  intro j hj
  have hj' : c.next + 1 ≤ j := hj
  change (Function.update c.task c.next _ j).isSync = false
  rw [Function.update_of_ne (by omega)]
  exact hc j (by omega)

theorem created_step (hc : c.Created) (hstep : c.step env e = some c') : c'.Created := by
  cases step_cases hstep with
  | call p => exact created_call hc p
  | nested p _ _ _ => exact created_call hc p
  | wait hk => exact created_setTask hc (SyncTask.isSync_wait hk)
  | wake hk => exact created_setTask hc (isSync_wake hk)
  | resume hk => exact created_setTask hc (SyncTask.isSync_resume hk)
  | completed _ _ _ hk => exact created_setTask hc (SyncTask.isSync_complete hk)
  | take _ _ | looked _ _ _ | worked _ _ _ | ended _ _ | delivered _ _ _ | back _ _ _ => exact hc

theorem uncalled_lt {i : ℕ} {k : SyncTask} (hi : i < c.next)
    (hk : k.caller.left < (c.task i).caller.left) : (c.setTask i k).uncalled < c.uncalled := by
  refine Finset.sum_lt_sum (fun j _ => ?_) ⟨i, Finset.mem_range.mpr hi, ?_⟩
  · change (Function.update c.task i k j).caller.left ≤ _
    rw [Function.update_apply]
    split_ifs with hj
    · rw [hj]
      exact hk.le
    · exact le_refl _
  · change (Function.update c.task i k i).caller.left < _
    rw [Function.update_self]
    exact hk

theorem uncalled_le {i : ℕ} {k : SyncTask} (hk : k.caller.left ≤ (c.task i).caller.left) :
    (c.setTask i k).uncalled ≤ c.uncalled := by
  refine Finset.sum_le_sum fun j _ => ?_
  change (Function.update c.task i k j).caller.left ≤ _
  rw [Function.update_apply]
  split_ifs with hj
  · rw [hj]
    exact hk
  · exact le_refl _

namespace SyncTask

variable {k k' : SyncTask} {r : StorageTask} {stage : Stage}

theorem left_wait (hstep : k.wait = some k') :
    k.isSync = true ∧ k'.caller.left < k.caller.left := by
  unfold wait at hstep
  split_ifs at hstep with hw
  obtain rfl := Option.some.inj hstep
  exact ⟨hw.1, by rw [hw.2.1]; exact Nat.lt_succ_self 2⟩

theorem left_wake (hstep : k.wake = some k') :
    k.isSync = true ∧ k'.caller.left < k.caller.left := by
  unfold wake at hstep
  split_ifs at hstep with hw
  obtain rfl := Option.some.inj hstep
  exact ⟨hw.1, by rw [hw.2]; exact Nat.lt_succ_self 1⟩

theorem left_resume (hstep : k.resume = some k') :
    k.isSync = true ∧ k'.caller.left < k.caller.left := by
  unfold resume at hstep
  split_ifs at hstep with hw
  obtain rfl := Option.some.inj hstep
  exact ⟨hw.1, by rw [hw.2.1]; exact Nat.zero_lt_one⟩

theorem left_complete (hstep : k.complete r stage = some k') : k'.caller.left ≤ k.caller.left := by
  cases stage with
  | written =>
    simp only [complete] at hstep
    split_ifs at hstep
    obtain rfl := Option.some.inj hstep
    exact le_refl _
  | locked =>
    obtain rfl := Option.some.inj hstep
    dsimp only
    split_ifs with hw
    · rw [hw]
      decide
    · exact le_refl _
  | reached | signalled =>
    obtain rfl := Option.some.inj hstep
    exact le_refl _

end SyncTask

theorem Handler.unanswered_of_work {w : Work} (hp : a.phase = .working w) : 0 < a.unanswered := by
  unfold Handler.unanswered
  rw [hp]
  cases w <;> exact Nat.succ_pos _

theorem work_lt {s : Storage h} {t : StorageTask} {w w' : Work}
    (hw : work env s t w = .inl w') :
    Handler.unanswered { task := t, phase := .working w' } <
        Handler.unanswered { task := t, phase := .working w } ∨
      Handler.unanswered { task := t, phase := .working w' } =
          Handler.unanswered { task := t, phase := .working w } ∧
        Handler.unvisited { task := t, phase := .working w' } <
          Handler.unvisited { task := t, phase := .working w } := by
  cases w with
  | started =>
    simp only [work] at hw
    split at hw
    · split_ifs at hw
      obtain rfl := Sum.inl.inj hw
      exact Or.inl (Nat.lt_succ_self 1)
    · obtain rfl := Sum.inl.inj hw
      exact Or.inl (Nat.lt_succ_self 1)
    · cases hw
  | fetched record => cases hw
  | counting left count =>
    cases left with
    | nil => cases hw
    | cons x left =>
      obtain rfl := Sum.inl.inj hw
      exact Or.inr ⟨rfl, Nat.lt_succ_self _⟩

theorem Handler.answered (hp : ∀ w, a.phase ≠ .working w) : a.unanswered = 0 ∧ a.unvisited = 0 := by
  unfold Handler.unanswered Handler.unvisited
  cases hphase : a.phase with
  | working w => exact absurd hphase (hp w)
  | completing stage rs => exact ⟨rfl, rfl⟩
  | inCallback i rs => exact ⟨rfl, rfl⟩

theorem rankLt_setPhase (ha : c.active[n]? = some a) (hp : ∀ w, a.phase ≠ .working w)
    (hphase : ∀ w, phase ≠ .working w)
    (hlt : Handler.incomplete { a with phase } < a.incomplete) {u : ℕ} (hu : u ≤ c.uncalled) :
    RankLt (3 * c.posted.length + ((c.setPhase n a phase).active.map Handler.unanswered).sum,
      ((c.setPhase n a phase).active.map Handler.unvisited).sum,
      ((c.setPhase n a phase).active.map Handler.incomplete).sum + u) c.rank := by
  obtain ⟨m₁, h₁, h₁'⟩ := sum_active_eq Handler.unanswered ha phase
  obtain ⟨m₂, h₂, h₂'⟩ := sum_active_eq Handler.unvisited ha phase
  obtain ⟨m₃, h₃, h₃'⟩ := sum_active_eq Handler.incomplete ha phase
  rw [(Handler.answered hp).1] at h₁
  rw [(Handler.answered hp).2] at h₂
  have hnew := Handler.answered (a := { a with phase }) hphase
  rw [hnew.1] at h₁'
  rw [hnew.2] at h₂'
  refine rankLt_third (congrArg (3 * c.posted.length + ·) (h₁'.trans h₁.symm))
    (h₂'.trans h₂.symm) ?_
  rw [h₃, h₃']
  omega

/-- **Every step but a call lowers the rank.** -/
theorem rank_step (hc : c.Created) (he : e.Inner) (hstep : c.step env e = some c') :
    RankLt c'.rank c.rank := by
  have hlt : ∀ i, (c.task i).isSync = true → i < c.next := fun i hi =>
    Nat.lt_of_not_le fun hle => by rw [hc i hle] at hi; cases hi
  cases step_cases hstep with
  | call p => exact he.elim
  | nested p _ _ _ => exact he.elim
  | wait hk =>
    obtain ⟨hsync, hleft⟩ := SyncTask.left_wait hk
    exact rankLt_third rfl rfl (Nat.add_lt_add_left (uncalled_lt (hlt _ hsync) hleft) _)
  | wake hk =>
    obtain ⟨hsync, hleft⟩ := SyncTask.left_wake hk
    exact rankLt_third rfl rfl (Nat.add_lt_add_left (uncalled_lt (hlt _ hsync) hleft) _)
  | resume hk =>
    obtain ⟨hsync, hleft⟩ := SyncTask.left_resume hk
    exact rankLt_third rfl rfl (Nat.add_lt_add_left (uncalled_lt (hlt _ hsync) hleft) _)
  | @take n t ht hadm =>
    refine rankLt_first ?_
    obtain ⟨hn, _⟩ := List.getElem?_eq_some_iff.mp ht
    rw [List.map_append, List.sum_append, List.length_eraseIdx_of_lt hn]
    change _ + (_ + 2) < 3 * c.posted.length + _
    omega
  | @looked n a w w' ha hp hw =>
    obtain ⟨m₁, h₁, h₁'⟩ := sum_active_eq Handler.unanswered ha (.working w')
    obtain ⟨m₂, h₂, h₂'⟩ := sum_active_eq Handler.unvisited ha (.working w')
    have ha' : a = { task := a.task, phase := .working w } := by rw [← hp]
    have hwork := work_lt hw
    rw [← ha'] at hwork
    rcases hwork with hfirst | ⟨hfirst, hsecond⟩
    · refine rankLt_first (Nat.add_lt_add_left ?_ _)
      exact (h₁'.trans_lt (Nat.add_lt_add_left hfirst m₁)).trans_eq h₁.symm
    · refine rankLt_second (congrArg (3 * c.posted.length + ·) ?_) ?_
      · exact (h₁'.trans (congrArg (m₁ + ·) hfirst)).trans h₁.symm
      · exact (h₂'.trans_lt (Nat.add_lt_add_left hsecond m₂)).trans_eq h₂.symm
  | @worked n a w s ha hp hw =>
    obtain ⟨m, hm, hm'⟩ := sum_active_eq Handler.unanswered ha
      (.completing .reached (s.replies.drop c.storage.replies.length))
    refine rankLt_first (Nat.add_lt_add_left ?_ _)
    exact (hm'.trans_lt (Nat.add_lt_add_left (Handler.unanswered_of_work hp) m)).trans_eq hm.symm
  | @ended n a stage ha hp =>
    have hnot : ∀ w, a.phase ≠ .working w := fun w hw => nomatch hp.symm.trans hw
    have hone : a.incomplete = 1 := by
      unfold Handler.incomplete
      rw [hp]
    have h₁ := sum_map_eraseIdx Handler.unanswered ha
    have h₂ := sum_map_eraseIdx Handler.unvisited ha
    have h₃ := sum_map_eraseIdx Handler.incomplete ha
    rw [(Handler.answered hnot).1] at h₁
    rw [(Handler.answered hnot).2] at h₂
    rw [hone] at h₃
    refine rankLt_third (congrArg (3 * c.posted.length + ·) h₁) h₂ ?_
    change _ + c.uncalled < _ + c.uncalled
    rw [← h₃]
    exact Nat.add_lt_add_right (Nat.lt_succ_self _) _
  | @completed n a stage r rs k ha hp hr hk =>
    refine rankLt_setPhase ha (fun w hw => nomatch hp.symm.trans hw) ?_ ?_
      (uncalled_le (SyncTask.left_complete hk))
    · split <;> exact nofun
    · have hold : a.incomplete = 1 + stage.left + 4 * rs.length := by
        unfold Handler.incomplete
        rw [hp]
      rw [hold]
      cases stage with
      | signalled =>
        change Handler.incomplete { task := a.task, phase := .completing .reached rs } < _
        rw [Handler.incomplete_reached, Stage.left]
        omega
      | reached | written | locked =>
        change 1 + Stage.left _ + 4 * rs.length < _
        simp only [Stage.left]
        omega
  | @delivered n a stage r rs ha hp hr =>
    refine rankLt_setPhase ha (fun w hw => nomatch hp.symm.trans hw) ?_ ?_ (le_refl c.uncalled)
    · exact nofun
    · have hold : a.incomplete = 1 + stage.left + 4 * rs.length := by
        unfold Handler.incomplete
        rw [hp]
      have hpos : 0 < stage.left := by cases stage <;> exact Nat.succ_pos _
      rw [hold, Handler.incomplete_reached]
      omega
  | @back n a i rs ha hp hi =>
    refine rankLt_setPhase ha (fun w hw => nomatch hp.symm.trans hw) ?_ ?_ (le_refl c.uncalled)
    · exact nofun
    · have hold : a.incomplete = 2 + 4 * rs.length := by
        unfold Handler.incomplete
        rw [hp]
      rw [hold, Handler.incomplete_reached]
      omega

/-! ## Rest -/

/-- The event is neither a wakeup without a signal nor a synchronous call made inside a callback. -/
def ThreadEvent.Regular : ThreadEvent → Prop
  | .wake _ => False
  | .nested _ p => p.isSync = false
  | _ => True

/-- No handler waits for a call. -/
def Threads.NoneNested (c : Threads h) : Prop := ∀ a ∈ c.active, ∀ i rs, a.phase ≠ .inCallback i rs

theorem noneNested_setPhase (hc : c.NoneNested) (hphase : ∀ i rs, phase ≠ .inCallback i rs) :
    (c.setPhase n a phase).NoneNested := by
  intro b hb
  rcases List.mem_or_eq_of_mem_set hb with hb | heq
  · exact hc b hb
  · rw [heq]
    exact hphase

theorem noneNested_step (hc : c.NoneNested) (he : e.Regular) (hstep : c.step env e = some c') :
    c'.NoneNested := by
  cases step_cases hstep with
  | call _ | wait _ | wake _ | resume _ => exact hc
  | nested p _ _ _ =>
    refine noneNested_setPhase hc ?_
    rw [if_neg (by rw [show p.isSync = false from he]; simp)]
    exact nofun
  | take _ _ =>
    intro b hb
    rcases List.mem_append.mp hb with hb | hb
    · exact hc b hb
    · rw [List.mem_singleton.mp hb]
      exact nofun
  | looked _ _ _ => exact noneNested_setPhase hc nofun
  | worked _ _ _ => exact noneNested_setPhase hc nofun
  | ended _ _ => exact fun b hb => hc b (List.mem_of_mem_eraseIdx hb)
  | completed _ _ _ _ =>
    refine noneNested_setPhase hc ?_
    split <;> exact nofun
  | delivered _ _ _ => exact noneNested_setPhase hc nofun
  | back _ _ _ => exact noneNested_setPhase hc nofun

/-- Everything has been handled; every call whose message has been answered has returned with the
answer, and the others wait. -/
structure Threads.Settled (c : Threads h) : Prop where
  posted : c.posted = []
  active : c.active = []
  handled : ids c.handled = Multiset.range c.next
  returned : ∀ r ∈ c.storage.replies, (c.task r.id).isSync = true →
    (c.task r.id).caller = .returned (some r)
  waiting : ∀ i, (c.task i).isSync = true → i ∉ ids c.storage.replies →
    (c.task i).caller = .waiting
  delivered : ∀ r ∈ c.storage.replies, (c.task r.id).isSync = false → r ∈ c.delivered

variable {disk : Bytes → Records}

theorem wait_of_idle {k : SyncTask} (hsync : k.isSync = true) (hk : k.Idle) (hwait : k.wait = none) :
    k.caller = .waiting ∧ k.mutex = none := by
  rcases hk with ⟨hcaller, hmutex⟩ | hk
  · rw [SyncTask.wait, if_pos ⟨hsync, hcaller, hmutex⟩] at hwait
    cases hwait
  · exact hk

/-- **A handler can go on** unless it waits for the mutex of a caller that has not gone to sleep. -/
theorem advance_of_stuck (hk : Handshake c) (hn : c.NoneNested) (ha : c.active[n]? = some a)
    (hwait : ∀ i, (c.task i).wait = none) : c.advance env n a ≠ none := by
  have hmem := List.mem_of_getElem? ha
  intro hadv
  unfold Threads.advance at hadv
  cases hp : a.phase with
  | working w =>
    rw [hp] at hadv
    dsimp only at hadv
    split at hadv <;> cases hadv
  | inCallback i rs => exact hn a hmem i rs hp
  | completing stage rs =>
    cases rs with
    | nil =>
      rw [hp] at hadv
      cases hadv
    | cons r rs =>
      rw [hp] at hadv
      dsimp only at hadv
      split_ifs at hadv with hsync
      have hpend : (stage, r) ∈ c.pending := by
        obtain ⟨m, hm, _⟩ := pending_eq ha a.phase
        rw [hm, Handler.pending_cons hp]
        exact Multiset.mem_add.mpr (Or.inr (Multiset.mem_cons_self _ _))
      have hstage := hk.pending _ hpend hsync
      cases stage with
      | written =>
        obtain ⟨_, hmutex⟩ := wait_of_idle hsync hstage.2 (hwait r.id)
        rw [SyncTask.complete, if_pos hmutex] at hadv
        cases hadv
      | reached | locked | signalled => cases hadv

/-- **Threads that cannot go on have settled**, in a process that runs. -/
theorem settled_of_stuck (hs : Serialized env (catalinaStorageInit h disk) c) (hk : Handshake c)
    (hn : c.NoneNested) (hstuck : ∀ e : ThreadEvent, e.Inner → e.Regular → c.step env e = none)
    (hrun : c.storage.stopped = false) : c.Settled := by
  simp only [Threads.step_running hrun] at hstuck
  have hwait : ∀ i, (c.task i).wait = none := fun i =>
    Option.map_eq_none_iff.mp (hstuck (.wait i) trivial trivial)
  have hactive : c.active = [] := by
    refine List.eq_nil_iff_forall_not_mem.mpr fun a ha => ?_
    obtain ⟨n, ha⟩ := List.getElem?_of_mem ha
    have hadv := hstuck (.advance n) trivial trivial
    rw [Threads.go, ha] at hadv
    exact advance_of_stuck hk hn ha hwait hadv
  have hposted : c.posted = [] := by
    cases hposted : c.posted with
    | nil => rfl
    | cons t ts =>
      have htake := hstuck (.take 0) trivial trivial
      have hadm : c.admits t = true := by
        unfold Threads.admits
        rw [hactive]
        split_ifs <;> rfl
      change c.take 0 = none at htake
      rw [Threads.take, hposted] at htake
      dsimp only [List.getElem?_cons_zero] at htake
      rw [if_pos hadm] at htake
      cases htake
  have hpending : c.pending = 0 := by
    unfold Threads.pending
    rw [hactive]
    rfl
  refine ⟨hposted, hactive, ?_, fun r hr hsync => ?_, fun i hsync hi => ?_, fun r hr hsync => ?_⟩
  · have honce := hs.once
    have hin : c.inHand = 0 := by
      unfold Threads.inHand
      rw [hactive]
      rfl
    rwa [hposted, hin, ids_nil, add_zero, add_zero] at honce
  · obtain ⟨_, hmutex, hcaller | hcaller⟩ :=
      hk.complete r hr hsync (by rw [hpending]; exact Multiset.notMem_zero _)
    · have hresume := Option.map_eq_none_iff.mp (hstuck (.resume r.id) trivial trivial)
      rw [SyncTask.resume, if_pos ⟨hsync, hcaller, hmutex⟩] at hresume
      cases hresume
    · exact hcaller
  · exact (wait_of_idle hsync (hk.unanswered i hsync hi).2 (hwait i)).1
  · refine (hk.delivered r hr hsync).resolve_right ?_
    rw [hpending]
    exact Multiset.notMem_zero _

/-- **The threads come to rest.** However they take turns, a run in which no more calls are made
ends; it can always be brought to a state where no thread can go on; and there the process has ended,
or every message has been handled, and every call has returned or been delivered whose message the
storage has answered. -/
theorem calls_settle (env : Env) (disk : Bytes → Records) (useIdle : Bool) (es : List ThreadEvent)
    (c : Threads h) (hes : ∀ e ∈ es, e.Regular)
    (hc : exec (Threads.step env) (Threads.init h disk useIdle) es = some c) :
    (∀ f : ℕ → ThreadEvent, (∀ n, (f n).Inner) →
      ∃ n, exec (Threads.step env) c ((List.range n).map f) = none) ∧
    (∃ es' c', (∀ e ∈ es', e.Inner ∧ e.Regular) ∧ exec (Threads.step env) c es' = some c' ∧
      (c'.storage.stopped = true ∨ c'.Settled)) ∧
    ((∀ e : ThreadEvent, e.Inner → e.Regular → c.step env e = none) →
      c.storage.stopped = true ∨ c.Settled) := by
  let I : Threads h → Prop := fun c =>
    (Serialized env (catalinaStorageInit h disk) c ∧ Handshake c) ∧ c.NoneNested ∧ c.Created
  have hI : ∀ c e c', I c → ThreadEvent.Regular e → Threads.step env c e = some c' → I c' := by
    intro c e c' hc he hstep
    obtain ⟨⟨hs, hk⟩, hn, hcr⟩ := hc
    have hwake : ∀ i, e ≠ .wake i := by
      rintro i rfl
      exact he
    exact ⟨⟨hs.step hstep, hk.step hs hwake hstep⟩, noneNested_step hn he hstep,
      created_step hcr hstep⟩
  have hinit : I (Threads.init h disk useIdle) :=
    ⟨⟨serialized_init disk useIdle, handshake_init useIdle⟩, fun a ha => absurd ha List.not_mem_nil,
      fun _ _ => rfl⟩
  have hreach : I c := exec_invariant hI hinit hes hc
  have hsettled : ∀ c, I c →
      (∀ e : ThreadEvent, e.Inner → e.Regular → Threads.step env c e = none) →
        c.storage.stopped = true ∨ c.Settled :=
    fun c hc hstuck => Bool.eq_false_or_eq_true c.storage.stopped |>.imp_right
      (settled_of_stuck hc.1.1 hc.1.2 hc.2.1 hstuck)
  refine ⟨fun f hf => ?_, ?_, hsettled c hreach⟩
  · exact exists_not_enabled (E := ThreadEvent.Inner)
      (wellFounded_of_rank rankLt_wf Threads.rank fun _ _ _ hcr he hstep => rank_step hcr he hstep)
      (fun _ _ _ hcr _ hstep => created_step hcr hstep) f hf hreach.2.2
  · let E : ThreadEvent → Prop := fun e => e.Inner ∧ e.Regular
    have hwf : WellFounded (Next (Threads.step env) I E) :=
      wellFounded_of_rank rankLt_wf Threads.rank fun _ _ _ hs he hstep =>
        rank_step hs.2.2 he.1 hstep
    have hIE : ∀ c e c', I c → E e → Threads.step env c e = some c' → I c' :=
      fun c e c' hs he hstep => hI c e c' hs he.2 hstep
    obtain ⟨es', c', hes', hc', hstuck⟩ := exists_stuck hwf hIE hreach
    have hreach' : I c' := exec_invariant hIE hreach hes' hc'
    exact ⟨es', c', hes', hc', hsettled c' hreach' fun e hin hreg => hstuck e ⟨hin, hreg⟩⟩

/-- From the middle of the overlapping calls. -/
theorem calls_settle_overlapping :
    (∀ f : ℕ → ThreadEvent, (∀ n, (f n).Inner) → ∃ n, exec (Threads.step fun _ => {})
      (threadsAfter true overlappingCalls) ((List.range n).map f) = none) ∧
    (∃ es' c', (∀ e ∈ es', ThreadEvent.Inner e ∧ e.Regular) ∧
      exec (Threads.step fun _ => {}) (threadsAfter true overlappingCalls) es' = some c' ∧
        (c'.storage.stopped = true ∨ c'.Settled)) ∧
    ((∀ e : ThreadEvent, e.Inner → e.Regular →
      (threadsAfter true overlappingCalls).step (fun _ => {}) e = none) →
        (threadsAfter true overlappingCalls).storage.stopped = true ∨
          (threadsAfter true overlappingCalls).Settled) :=
  calls_settle (fun _ => {}) (fun _ => ∅) true overlappingCalls _
    (by simp [overlappingCalls, ThreadEvent.Regular]) rfl

end Catalina
