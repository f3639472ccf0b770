import Catalina.Storage.Commit
import Catalina.Storage.Replies

/-!
# The queue of pending commits is drained

The tail recursion at the end of `handle_txn_commit` is reached only by a commit that has replayed
its log; the exits before leave the rest of the queue where it is.

* `commitCalls`: the commits that one message makes run.
* `DrainsAll`: every queued commit is run and answered in order, and nothing is left pending.
* `Drainable`: every queued commit will find its transaction and get a `tdb` transaction.
* **`drains_iff`**: the first exactly in the case of the second.
* `queue_not_drained`: a queued commit that stops the others.
-/

namespace Catalina

variable {h : Host} {env : Env}

/-- The commits that the message `t` makes run, each with the state it finds. -/
def commitCalls (env : Env) (s : Storage h) (t : StorageTask) : List (Storage h × StorageTask) :=
  calls (commitTxn env) popCommit s.txnCommits.length s t

/-- The commit `t` in state `s` is answered, after the sets it completes. -/
def Answered (env : Env) (s : Storage h) (t : StorageTask) : Prop :=
  ∃ rs r, (commitTxn env s t).1.replies = s.replies ++ rs ++ [r] ∧ r.id = t.id

/-- The message `t` and then every queued commit is run, once and in the order of the queue, and
answered; the queue is empty and no transaction is current when the handler returns. -/
structure DrainsAll (env : Env) (s : Storage h) (t : StorageTask) : Prop where
  order : (commitCalls env s t).map Prod.snd = t :: s.txnCommits
  answered : ∀ c ∈ commitCalls env s t, Answered env c.1 c.2
  queue : (handleTxnCommit env s t).txnCommits = []
  txn : (handleTxnCommit env s t).txn = 0

/-- Every commit in the queue names an open transaction that is none of those in `done` or before it
in the queue, and gets a `tdb` transaction; the last one may also name transaction 0. -/
def Drainable (env : Env) (s : Storage h) : List StorageTask → List StorageTask → Prop
  | _, [] => True
  | done, u :: rest => (u.txnId = 0 ∧ rest = []) ∨
      ((s.lookupTxn u.txnId ≠ none ∧ (∀ v ∈ done, h.firstWord u.txnId ≠ h.firstWord v.txnId) ∧
        (env u.id).tdbTransactionStart = true) ∧ Drainable env s (u :: done) rest)

variable {s : Storage h} {t : StorageTask}

theorem commitCalls_eq (env : Env) (s : Storage h) (t : StorageTask) :
    commitCalls env s t = (s, t) :: if (commitTxn env s t).2 then
        match popCommit (commitTxn env s t).1 with
        | none => []
        | some (t', s') => commitCalls env s' t'
      else [] := by
  unfold commitCalls
  cases hq : s.txnCommits with
  | nil =>
    rw [List.length_nil, calls]
    split_ifs with hb
    · have hnone : popCommit (commitTxn env s t).1 = none := by
        unfold popCommit
        rw [txnCommits_commitTxn hb, hq]
      rw [hnone]
    · rfl
  | cons u rest =>
    rw [List.length_cons, calls]
    split_ifs with hb
    · have hsome : popCommit (commitTxn env s t).1 =
          some (u, { (commitTxn env s t).1 with txnCommits := rest }) := by
        unfold popCommit
        rw [txnCommits_commitTxn hb, hq]
      rw [hsome]
    · rfl

/-! ## After a commit that has run -/

/-- The state in which the worker takes the next commit off the queue. -/
structure Between (s : Storage h) : Prop where
  isOpen : s.tdb.ctx ≠ none
  free : s.txn = 0

theorem answered_ran {x : TxnState} (hr : Replays env s t x) : Answered env s t := by
  obtain ⟨e, he⟩ := commitTxn_ran hr
  obtain ⟨rs, hrs⟩ := @prefix_runMsgs h env t.txnId x.msgs.reverse (beginTxn s t)
  refine ⟨rs, { t with error := e, success := commitOk env s t x }, ?_, rfl⟩
  rw [he, replies_afterCommit, replay, ← hrs]
  rfl

/-- **A commit that runs is followed by the first one in the queue.** -/
theorem drainsAll_ran {x : TxnState} {u : StorageTask} {rest : List StorageTask} {e : Option GError}
    (hr : Replays env s t x) (he : commitTxn env s t = (afterCommit env s t x e, true))
    (hq : s.txnCommits = u :: rest) :
    DrainsAll env s t ↔
      DrainsAll env { afterCommit env s t x e with txnCommits := rest } u := by
  have hpop : popCommit (afterCommit env s t x e) =
      some (u, { afterCommit env s t x e with txnCommits := rest }) := by
    unfold popCommit
    rw [txnCommits_afterCommit, hq]
  have hcalls : commitCalls env s t =
      (s, t) :: commitCalls env { afterCommit env s t x e with txnCommits := rest } u := by
    rw [commitCalls_eq, he]
    dsimp only
    rw [if_pos rfl, hpop]
  have hend : handleTxnCommit env s t =
      handleTxnCommit env { afterCommit env s t x e with txnCommits := rest } u := by
    rw [handleTxnCommit_eq, he]
    dsimp only
    rw [if_pos rfl, hpop]
  constructor
  · rintro ⟨horder, hans, hqueue, htxn⟩
    rw [hcalls, List.map_cons, hq] at horder
    refine ⟨List.tail_eq_of_cons_eq horder, fun c hc => hans c ?_, hend ▸ hqueue, hend ▸ htxn⟩
    rw [hcalls]
    exact List.mem_cons_of_mem _ hc
  · rintro ⟨horder, hans, hqueue, htxn⟩
    refine ⟨?_, fun c hc => ?_, hend ▸ hqueue, hend ▸ htxn⟩
    · rw [hcalls, List.map_cons, horder, hq]
    · rw [hcalls] at hc
      rcases List.mem_cons.mp hc with rfl | hc
      · exact answered_ran hr
      · exact hans c hc

theorem drainsAll_last {x : TxnState} (hr : Replays env s t x) (hq : s.txnCommits = []) :
    DrainsAll env s t := by
  obtain ⟨e, he⟩ := commitTxn_ran hr
  have hpop : popCommit (afterCommit env s t x e) = none := by
    unfold popCommit
    rw [txnCommits_afterCommit, hq]
  have hcalls : commitCalls env s t = [(s, t)] := by
    rw [commitCalls_eq, he]
    dsimp only
    rw [if_pos rfl, hpop]
  have hend : handleTxnCommit env s t = afterCommit env s t x e := by
    rw [handleTxnCommit_eq, he]
    dsimp only
    rw [if_pos rfl, hpop]
  refine ⟨by rw [hcalls, hq]; rfl, fun c hc => ?_, ?_, ?_⟩
  · rw [hcalls] at hc
    rw [List.mem_singleton.mp hc]
    exact answered_ran hr
  · rw [hend, txnCommits_afterCommit, hq]
  · rw [hend, txn_afterCommit]

/-- **A commit that does not run** is answered and becomes current, and the worker ends. -/
theorem drainsAll_stopped (hs : Between s) (hn : ∀ x, ¬ Replays env s t x) :
    DrainsAll env s t ↔ t.txnId = 0 ∧ s.txnCommits = [] := by
  have hstop : ∃ t' : StorageTask, t'.id = t.id ∧
      commitTxn env s t = (storageTaskFail { s with txn := t.txnId } t', false) := by
    have h₁ := commitTxn_step env s t
    generalize commitTxn env s t = p at h₁ ⊢
    cases h₁ with
    | closed e hc => exact absurd hc hs.isOpen
    | queued _ h₀ _ => exact absurd hs.free h₀
    | unknown e _ _ _ => exact ⟨t.setError e, rfl, rfl⟩
    | notStarted x _ _ _ _ => exact ⟨t.setError startError, rfl, rfl⟩
    | ran x e hc hcur hl hst => exact absurd ⟨hc, hcur, hl, hst⟩ (hn x)
  obtain ⟨t', hid, he⟩ := hstop
  have hcalls : commitCalls env s t = [(s, t)] := by
    rw [commitCalls_eq, he]
    rfl
  have hend : handleTxnCommit env s t = storageTaskFail { s with txn := t.txnId } t' := by
    rw [handleTxnCommit_eq, he]
    rfl
  constructor
  · rintro ⟨_, _, hqueue, htxn⟩
    rw [hend, txnCommits_fail] at hqueue
    rw [hend, txn_fail] at htxn
    exact ⟨htxn, hqueue⟩
  · rintro ⟨h₀, hq⟩
    refine ⟨by rw [hcalls, hq]; rfl, fun c hc => ?_, ?_, ?_⟩
    · rw [hcalls] at hc
      rw [List.mem_singleton.mp hc]
      refine ⟨[], { t' with success := false }, ?_, hid⟩
      rw [he, replies_fail, List.append_nil]
    · rw [hend, txnCommits_fail]
      exact hq
    · rw [hend, txn_fail]
      exact h₀

/-! ## The queue -/

/-- What the state `s'` has left of the transactions of `s`, those of `done` being over. -/
def LeftOpen (s s' : Storage h) (done : List StorageTask) : Prop :=
  ∀ i, s'.lookupTxn i ≠ none ↔
    s.lookupTxn i ≠ none ∧ ∀ v ∈ done, h.firstWord i ≠ h.firstWord v.txnId

theorem LeftOpen.step {s s' : Storage h} {done : List StorageTask} (hl : LeftOpen s s' done)
    {x : TxnState} {e : Option GError} (rest : List StorageTask) :
    LeftOpen s { afterCommit env s' t x e with txnCommits := rest } (t :: done) := by
  intro i
  have hafter : (({ afterCommit env s' t x e with txnCommits := rest } : Storage h).lookupTxn i =
      none ↔ h.firstWord i = h.firstWord t.txnId ∨ s'.lookupTxn i = none) :=
    lookupTxn_afterCommit e i
  rw [ne_eq, hafter, not_or, ← ne_eq (s'.lookupTxn i), hl i, List.forall_mem_cons, and_left_comm]

theorem replays_iff (hs : Between s) : (∃ x, Replays env s t x) ↔
    s.lookupTxn t.txnId ≠ none ∧ (env t.id).tdbTransactionStart = true := by
  refine ⟨fun ⟨x, hx⟩ => ⟨?_, hx.started⟩, fun ⟨hl, hst⟩ => ?_⟩
  · rw [hx.lookup]
    exact Option.some_ne_none x
  · obtain ⟨x, hx⟩ := Option.ne_none_iff_exists'.mp hl
    exact ⟨x, hs.isOpen, Or.inl hs.free, hx, hst⟩

theorem between_afterCommit {x : TxnState} (hr : Replays env s t x) (e : Option GError)
    (rest : List StorageTask) :
    Between { afterCommit env s t x e with txnCommits := rest } where
  isOpen := ctx_of_file (file_afterCommit env s t x e) hr.isOpen
  free := txn_afterCommit env s t x e

/-- **The induction on the queue**, from a state between two commits with those of `done` over. -/
theorem drainsAll_iff (s : Storage h) : ∀ (rest : List StorageTask) {u : StorageTask}
    {s' : Storage h} {done : List StorageTask}, Between s' → s'.txnCommits = rest →
      LeftOpen s s' done → (DrainsAll env s' u ↔ Drainable env s done (u :: rest)) := by
  intro rest
  induction rest with
  | nil =>
    intro u s' done hs hq hl
    rw [Drainable, Drainable, and_true, ← and_assoc, ← hl u.txnId, ← replays_iff hs]
    by_cases hr : ∃ x, Replays env s' u x
    · obtain ⟨x, hx⟩ := hr
      exact iff_of_true (drainsAll_last hx hq) (Or.inr ⟨x, hx⟩)
    · rw [drainsAll_stopped hs (not_exists.mp hr), hq, or_iff_left hr]
  | cons v rest ih =>
    intro u s' done hs hq hl
    rw [Drainable, or_iff_right fun hnil => List.cons_ne_nil v rest hnil.2, ← and_assoc,
      ← hl u.txnId, ← replays_iff hs]
    by_cases hr : ∃ x, Replays env s' u x
    · obtain ⟨x, hx⟩ := hr
      obtain ⟨e, he⟩ := commitTxn_ran hx
      rw [drainsAll_ran hx he hq, ih (between_afterCommit hx e rest) rfl (hl.step rest)]
      exact (and_iff_right ⟨x, hx⟩).symm
    · rw [drainsAll_stopped hs (not_exists.mp hr), hq]
      exact iff_of_false (fun hnil => List.cons_ne_nil v rest hnil.2) fun hrun => hr hrun.1

/-- **A commit that runs is followed by all those in the queue exactly when each of them will find
its transaction open and get a `tdb` transaction.** -/
theorem drains_iff (env : Env) {s : Storage h} {t : StorageTask} {x : TxnState}
    (hr : Replays env s t x) : DrainsAll env s t ↔ Drainable env s [t] s.txnCommits := by
  have hstart : LeftOpen s s [] := fun i =>
    ⟨fun hi => ⟨hi, fun v hv => absurd hv List.not_mem_nil⟩, And.left⟩
  cases hq : s.txnCommits with
  | nil => exact iff_of_true (drainsAll_last hr hq) trivial
  | cons u rest =>
    obtain ⟨e, he⟩ := commitTxn_ran hr
    rw [drainsAll_ran hr he hq,
      drainsAll_iff s rest (between_afterCommit hr e rest) rfl (hstart.step rest)]

/-- Three transactions. The first commit does not get a `tdb` transaction, so that the other two are
queued. -/
def threeTxns : List StorageTask :=
  [openTask 0 [47], beginTask 1, beginTask 2, beginTask 3, commitTask 4 1, commitTask 5 2,
    commitTask 6 3]

def notStarted (ids : List ℕ) : Env := fun i => { tdbTransactionStart := i ∉ ids }

theorem drains_iff_threeTxns :
    DrainsAll (notStarted [4])
        (run (notStarted [4]) (catalinaStorageInit lp64 fun _ => ∅) threeTxns) (commitTask 7 1) ↔
      Drainable (notStarted [4])
        (run (notStarted [4]) (catalinaStorageInit lp64 fun _ => ∅) threeTxns) [commitTask 7 1]
        [commitTask 5 2, commitTask 6 3] :=
  drains_iff (x := { txnId := 1, error := some startError }) _ ⟨nofun, Or.inr rfl, rfl, rfl⟩

/-- The first queued commit does not start either, and the second one is left in the queue. -/
theorem queue_not_drained :
    (∃ x, Replays (notStarted [4, 5]) (run (notStarted [4, 5])
        (catalinaStorageInit lp64 fun _ => ∅) threeTxns) (commitTask 7 1) x) ∧
      ¬ DrainsAll (notStarted [4, 5]) (run (notStarted [4, 5])
        (catalinaStorageInit lp64 fun _ => ∅) threeTxns) (commitTask 7 1) :=
  ⟨⟨{ txnId := 1, error := some startError }, nofun, Or.inr rfl, rfl, rfl⟩,
    fun hdrain => absurd hdrain.queue (by decide)⟩

end Catalina
