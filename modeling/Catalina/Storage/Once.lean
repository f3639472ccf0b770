import Mathlib.Data.List.Flatten
import Catalina.Storage.Conservation

/-!
# No task is held twice

Whatever a message is and wherever it comes, the storage holds no task that it was not given, and
none more often than it was given it. Tasks can be lost; `Conservation` says when they are not.

* `held_handleSet_le`, `msgs_handleSet`: one set, and what it leaves of a log.
* `held_commitTxn_le`: a replay answers the tasks of a log that is freed at its end.
* **`held_handleMessage_le`**: one message.
-/

namespace Catalina

variable {h : Host} {env : Env} {s : Storage h} {t : StorageTask} {x : TxnState}

/-! ## Sets -/

theorem held_handleSet_le (env : Env) (s : Storage h) (t : StorageTask) :
    (handleSet env s t).held ≤ s.held + {t.id} := by
  have h₁ := handleSet_step env s t
  have hheld := @held_handleSet h env s t
  generalize handleSet env s t = s' at h₁ hheld ⊢
  cases h₁ with
  | closed e hc => exact (hheld fun hc' => absurd hc hc').le
  | unknown e _ h₀ _ _ => exact (hheld fun _ h₀' => absurd h₀' h₀).le
  | queued x _ h₀ _ _ => exact (hheld fun _ h₀' => absurd h₀' h₀).le
  | dropped _ _ _ => exact Multiset.le_add_right _ _
  | failed e _ heq _ => exact (hheld fun _ h₀ => heq.trans h₀).le
  | stored r _ heq _ => exact (hheld fun _ h₀ => heq.trans h₀).le

theorem msgs_fail {i : ℕ} (hl : s.lookupTxn i = some x) (t : StorageTask) :
    ∃ y, (storageTaskFail s t).lookupTxn i = some y ∧ y.msgs = x.msgs := by
  unfold storageTaskFail
  split_ifs
  · change ∃ y, (s.setTxnError t.txnId t.error).lookupTxn i = some y ∧ _
    rw [lookupTxn_setTxnError]
    split_ifs with hi
    · refine ⟨{ x with error := t.error }, ?_, rfl⟩
      rw [Storage.lookupTxn, ← hi]
      exact congrArg (Option.map _) hl
    · exact ⟨x, hl, rfl⟩
  · exact ⟨x, hl, rfl⟩

theorem msgs_handleSet {i : ℕ} (hl : s.lookupTxn i = some x) (m : StorageTask) :
    ∃ y, (handleSet env s m).lookupTxn i = some y ∧ ids x.msgs ≤ ids y.msgs := by
  have hfail : ∀ t', ∃ y, (storageTaskFail s t').lookupTxn i = some y ∧ ids x.msgs ≤ ids y.msgs :=
    fun t' => by
      obtain ⟨y, hy, hmsgs⟩ := msgs_fail hl t'
      exact ⟨y, hy, by rw [hmsgs]⟩
  have h₁ := handleSet_step env s m
  generalize handleSet env s m = s' at h₁ ⊢
  cases h₁ with
  | closed e _ => exact hfail _
  | unknown e _ _ _ _ => exact hfail _
  | queued y _ _ _ _ =>
    rw [lookupTxn_modifyMsgs]
    split_ifs with hi
    · refine ⟨{ x with msgs := m :: x.msgs }, ?_, Multiset.le_add_left (ids x.msgs) {m.id}⟩
      rw [Storage.lookupTxn, ← hi]
      exact congrArg (Option.map _) hl
    · exact ⟨x, hl, le_refl _⟩
  | dropped _ _ _ => exact ⟨x, hl, le_refl _⟩
  | failed e _ _ _ => exact hfail _
  | stored r _ _ _ => exact ⟨x, hl, le_refl _⟩

/-! ## Commits -/

theorem held_runMsgs_le (i : ℕ) : ∀ (ms : List StorageTask) (s : Storage h),
    (runMsgs env i ms s).1.held ≤ s.held + ids ms
  | [], s => Multiset.le_add_right _ _
  | m :: ms, s => by
    have h₁ := held_handleSet_le env s m
    rw [runMsgs_cons, ids_cons, ← add_assoc]
    split_ifs
    · exact h₁.trans (Multiset.le_add_right _ _)
    · exact (held_runMsgs_le i ms _).trans (add_le_add_left h₁ _)

theorem msgs_runMsgs (i : ℕ) (ms : List StorageTask) (hl : s.lookupTxn i = some x) :
    ∃ y, (runMsgs env i ms s).1.lookupTxn i = some y ∧ ids x.msgs ≤ ids y.msgs :=
  runMsgs_invariant (P := fun s' => ∃ y, s'.lookupTxn i = some y ∧ ids x.msgs ≤ ids y.msgs) i ms
    (fun m _ s' hs' => by
      obtain ⟨y, hy, hle⟩ := hs'
      obtain ⟨z, hz, hle'⟩ := msgs_handleSet hy m
      exact ⟨z, hz, hle.trans hle'⟩) ⟨x, hl, le_refl _⟩

theorem held_beginTxn (hl : s.lookupTxn t.txnId = some x) : (beginTxn s t).held = s.held := by
  have hlog : ids (beginTxn s t).logTasks = ids s.logTasks := by
    rw [ids_logTasks hl, ← ids_reverse x.msgs]
    exact ids_logTasks_modifyMsgs (s := { s with txn := t.txnId, tdb := s.tdb.transactionStart }) hl
      List.reverse
  unfold Storage.held
  rw [hlog]
  rfl

/-- **A commit that runs** answers its tasks from a log that it frees. -/
theorem held_afterCommit_le (hl : s.lookupTxn t.txnId = some x) (e : Option GError) :
    (afterCommit env s t x e).held ≤ s.held + {t.id} := by
  have hrun : (replay env s t x).1.held ≤ (beginTxn s t).held + ids x.msgs.reverse :=
    held_runMsgs_le t.txnId x.msgs.reverse (beginTxn s t)
  obtain ⟨y, hy, hle⟩ : ∃ y, (replay env s t x).1.lookupTxn t.txnId = some y ∧
      ids x.msgs.reverse ≤ ids y.msgs := msgs_runMsgs t.txnId x.msgs.reverse (lookupTxn_beginTxn hl)
  rw [held_beginTxn hl, ids_reverse] at hrun
  rw [ids_reverse] at hle
  have hqueue : (replay env s t x).1.txnCommits = s.txnCommits :=
    (frame_replay env s t x).txnCommits
  -- the log that is freed holds what the replay has answered
  have hfreed : (afterCommit env s t x e).held + ids y.msgs =
      (replay env s t x).1.held + {t.id} := by
    unfold Storage.held
    rw [replies_afterCommit, txnCommits_afterCommit, hqueue, ids_logTasks hy, ids_append,
      ids_cons, ids_nil]
    change _ + ids (((replay env s t x).1.txnState.erase (h.firstWord t.txnId)).rows.flatMap
      TxnState.msgs) + _ + _ = _
    abel
  refine le_of_add_le_add_right (a := ids y.msgs) ?_
  rw [hfreed]
  calc (replay env s t x).1.held + {t.id} ≤ s.held + ids x.msgs + {t.id} := add_le_add_left hrun _
    _ ≤ s.held + ids y.msgs + {t.id} := add_le_add_left (add_le_add_right hle _) _
    _ = s.held + {t.id} + ids y.msgs := by abel

theorem held_commitTxn_le (env : Env) (s : Storage h) (t : StorageTask) :
    (commitTxn env s t).1.held ≤ s.held + {t.id} := by
  have h₁ := commitTxn_step env s t
  generalize commitTxn env s t = p at h₁ ⊢
  cases h₁ with
  | closed e _ => exact (held_fail s _).le
  | queued _ _ _ =>
    unfold Storage.held
    rw [ids_append, ids_cons, ids_nil]
    refine le_of_eq ?_
    change ids s.replies + ids s.logTasks + _ = _
    abel
  | unknown e _ _ _ => exact (held_fail { s with txn := t.txnId } _).le
  | notStarted y _ _ _ _ => exact (held_fail { s with txn := t.txnId } _).le
  | ran y e _ _ hl _ => exact held_afterCommit_le hl e

theorem held_handleTxnCommit_le (env : Env) (s : Storage h) (t : StorageTask) :
    (handleTxnCommit env s t).held ≤ s.held + {t.id} := by
  have hwork : ∀ (s' : Storage h) (t' : StorageTask), s'.held + {t'.id} ≤ s.held + {t.id} → True →
      (commitTxn env s' t').1.held ≤ s.held + {t.id} :=
    fun s' t' hle _ => (held_commitTxn_le env s' t').trans hle
  have hpop : ∀ (s' : Storage h) (t' : StorageTask) (s'' : Storage h),
      s'.held ≤ s.held + {t.id} → popCommit s' = some (t', s'') →
      s''.held + {t'.id} ≤ s.held + {t.id} :=
    fun s' t' s'' hle hp => (held_popCommit hp).trans_le hle
  exact EachCall.invariant hwork hpop (le_refl _) (EachCall.of_forall (fun _ _ => trivial) _ _ _)

/-! ## Messages -/

theorem held_clearTxns_le (s : Storage h) : s.clearTxns.held ≤ s.held := by
  rw [held_of_empty rfl rfl]
  unfold Storage.held
  rw [add_assoc]
  exact Multiset.le_add_right _ _

theorem logTasks_erase_le (s : Storage h) (k : ℕ) :
    ids ((s.txnState.erase k).rows.flatMap TxnState.msgs) ≤ ids s.logTasks :=
  Multiset.coe_le.mpr ((List.filter_sublist.flatMap TxnState.msgs).map StorageTask.id).subperm

/-- A begin frees the log of a transaction that has its id, and loses no other task. -/
theorem logTasks_insert_le (s : Storage h) (id : ℕ) :
    ids ((s.txnState.insert { txnId := id }).rows.flatMap TxnState.msgs) ≤ ids s.logTasks := by
  change ids (([] : List StorageTask) ++
    (s.txnState.erase (h.firstWord id)).rows.flatMap TxnState.msgs) ≤ _
  rw [List.nil_append]
  exact logTasks_erase_le s (h.firstWord id)

/-- **Whatever a message does, it holds its own task once more at most, and no other one.** -/
theorem held_handleMessage_le (env : Env) (s : Storage h) (t : StorageTask) :
    (handleMessage env s t).held ≤ s.held + {t.id} := by
  have h₁ := handleMessage_step env s t
  generalize handleMessage env s t = s' at h₁ ⊢
  cases h₁ with
  | stopped _ | ended _ _ _ => exact Multiset.le_add_right _ _
  | set _ _ => exact held_handleSet_le env s t
  | commit _ _ => exact held_handleTxnCommit_le env s t
  | failed t' _ _ hid _ => rw [held_fail, hid]
  | answered t' _ _ hid => rw [storageTaskSucceed, held_complete, hid]
  | notOpened t' _ hid _ _ =>
    rw [held_fail, hid]
    exact add_le_add_left (held_clearTxns_le s) _
  | opened _ _ _ _ =>
    rw [storageTaskSucceed, held_complete]
    exact add_le_add_left (held_clearTxns_le s) _
  | closed _ _ _ _ => exact (held_complete { s with tdb := s.tdb.closed } t true).le
  | began _ _ =>
    rw [storageTaskSucceed, held_complete]
    exact add_le_add_left (add_le_add_left (add_le_add_right (logTasks_insert_le s _) _) _) _
  | cancelled x _ _ _ =>
    rw [storageTaskSucceed, held_complete]
    exact add_le_add_left (add_le_add_left (add_le_add_right (logTasks_erase_le s _) _) _) _

end Catalina
