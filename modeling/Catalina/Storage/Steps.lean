import Catalina.Storage.Model

/-!
# What each handler can do

One lemma for each handler says everything it can do; the invariants are derived from these.

* `logs`: the ids and messages of the open transactions, without their error slots.
* `setOutcome`: the record a set stores or the error with which it fails; `handleSet_step`.
* `Storage.Frame`, `frame_runMsgs`: the fields that a set and a replay leave alone.
* `commitTxn_step`: one commit, in terms of the replay of its log; `handleTxnCommit_eq`: the tail
  recursion of the source.
* `handleMessage_step`: a message other than a set and a commit.
-/

namespace Catalina

variable {h : Host}

/-- The ids and messages of the open transactions. -/
def Storage.logs (s : Storage h) : List (ℕ × List StorageTask) :=
  s.txnState.rows.map fun x => (x.txnId, x.msgs)

/-! ## Answering a task -/

section Complete

variable (s : Storage h) (t : StorageTask) (b : Bool)

@[simp] theorem tdb_complete : (storageTaskComplete s t b).tdb = s.tdb := rfl
@[simp] theorem txnSeq_complete : (storageTaskComplete s t b).txnSeq = s.txnSeq := rfl
@[simp] theorem txn_complete : (storageTaskComplete s t b).txn = s.txn := rfl
@[simp] theorem txnCommits_complete : (storageTaskComplete s t b).txnCommits = s.txnCommits := rfl
@[simp] theorem txnState_complete : (storageTaskComplete s t b).txnState = s.txnState := rfl
@[simp] theorem replies_complete :
    (storageTaskComplete s t b).replies = s.replies ++ [{ t with success := b }] := rfl

@[simp] theorem stopped_complete : (storageTaskComplete s t b).stopped = s.stopped := rfl

@[simp] theorem logs_complete : (storageTaskComplete s t b).logs = s.logs := rfl

@[simp] theorem logs_setTxnError (id : ℕ) (e : Option GError) :
    (s.setTxnError id e).logs = s.logs := by
  unfold Storage.logs Storage.setTxnError Table.modify
  rw [List.map_map]
  refine List.map_congr_left fun x _ => ?_
  rw [Function.comp_apply]
  split_ifs <;> rfl

@[simp] theorem tdb_fail : (storageTaskFail s t).tdb = s.tdb := by
  unfold storageTaskFail; split_ifs <;> rfl

@[simp] theorem txnSeq_fail : (storageTaskFail s t).txnSeq = s.txnSeq := by
  unfold storageTaskFail; split_ifs <;> rfl

@[simp] theorem txn_fail : (storageTaskFail s t).txn = s.txn := by
  unfold storageTaskFail; split_ifs <;> rfl

@[simp] theorem txnCommits_fail : (storageTaskFail s t).txnCommits = s.txnCommits := by
  unfold storageTaskFail; split_ifs <;> rfl

@[simp] theorem stopped_fail : (storageTaskFail s t).stopped = s.stopped := by
  unfold storageTaskFail; split_ifs <;> rfl

@[simp] theorem replies_fail :
    (storageTaskFail s t).replies = s.replies ++ [{ t with success := false }] := by
  unfold storageTaskFail; split_ifs <;> rfl

@[simp] theorem logs_fail : (storageTaskFail s t).logs = s.logs := by
  unfold storageTaskFail
  split_ifs
  · exact logs_setTxnError s t.txnId t.error
  · rfl

theorem storageTaskFail_of_none (hs : s.lookupTxn t.txnId = none) :
    storageTaskFail s t = storageTaskComplete s t false := by
  unfold storageTaskFail
  split_ifs
  · unfold Storage.setTxnError
    rw [Table.modify_of_find_none hs]
  · rfl

end Complete

theorem error_setError (t : StorageTask) (e : GError) : ∃ e', (t.setError e).error = some e' := by
  unfold StorageTask.setError
  cases t.error with
  | none => exact ⟨e, rfl⟩
  | some e' => exact ⟨e', rfl⟩

theorem last_reply {α : Type} {l l' l'' : List α} {a b : α} (heq : l ++ [a] = l' ++ l'' ++ [b]) :
    b = a :=
  (List.singleton_inj.mp (List.append_inj' heq rfl).2).symm

/-! ## Sets -/

/-- The record `handle_set` stores for a task, or the error with which it fails. -/
def setOutcome (env : Env) (t : StorageTask) : Except GError Bytes :=
  match transformWrite (env t.id).transform t.data with
  | .error e => .error e
  | .ok record =>
    if (env t.id).tdbStore then .ok record
    else .error ⟨.storageNoSuchKey, "tdb_store: " ++ (env t.id).tdbErrorstr⟩

/-- What `handle_set` can do. -/
inductive SetStep (env : Env) (s : Storage h) (t : StorageTask) : Storage h → Prop
  | closed (e : GError) (hc : s.tdb.ctx = none) :
    SetStep env s t (storageTaskFail s (t.setError e))
  | unknown (e : GError) (hc : s.tdb.ctx ≠ none) (h₀ : t.txnId ≠ 0) (hne : s.txn ≠ t.txnId)
    (hl : s.lookupTxn t.txnId = none) : SetStep env s t (storageTaskFail s (t.setError e))
  | queued (x : TxnState) (hc : s.tdb.ctx ≠ none) (h₀ : t.txnId ≠ 0) (hne : s.txn ≠ t.txnId)
    (hl : s.lookupTxn t.txnId = some x) : SetStep env s t (s.modifyMsgs t.txnId (t :: ·))
  | dropped (hc : s.tdb.ctx ≠ none) (h₀ : t.txnId = 0) (hne : s.txn ≠ 0) : SetStep env s t s
  | failed (e : GError) (hc : s.tdb.ctx ≠ none) (heq : s.txn = t.txnId)
    (ho : setOutcome env t = .error e) : SetStep env s t (storageTaskFail s (t.setError e))
  | stored (r : Bytes) (hc : s.tdb.ctx ≠ none) (heq : s.txn = t.txnId)
    (ho : setOutcome env t = .ok r) :
    SetStep env s t (storageTaskSucceed { s with tdb := s.tdb.store t.key r } t)

theorem handleSet_step (env : Env) (s : Storage h) (t : StorageTask) :
    SetStep env s t (handleSet env s t) := by
  unfold handleSet
  by_cases hc : s.tdb.ctx = none
  · rw [if_pos (by simp [hc])]
    exact .closed _ hc
  rw [if_neg (by simpa using hc)]
  by_cases hq : t.txnId ≠ 0 ∧ s.txn ≠ t.txnId
  · rw [if_pos hq]
    cases hl : s.lookupTxn t.txnId with
    | none => exact .unknown _ hc hq.1 hq.2 hl
    | some x => exact .queued x hc hq.1 hq.2 hl
  rw [if_neg hq]
  by_cases heq : s.txn = t.txnId
  · rw [if_neg (by simp [heq])]
    cases hw : transformWrite (env t.id).transform t.data with
    | error e => exact .failed e hc heq (by simp [setOutcome, hw])
    | ok r =>
      by_cases hst : (env t.id).tdbStore = true
      · simp only [hst, if_true]
        exact .stored r hc heq (by simp [setOutcome, hw, hst])
      · simp only [hst]
        exact .failed _ hc heq (by simp [setOutcome, hw, hst])
  · have h₀ : t.txnId = 0 := by
      by_contra h₀
      exact hq ⟨h₀, heq⟩
    have hne : s.txn ≠ 0 := fun e => heq (by rw [e, h₀])
    rw [if_pos (by rw [h₀]; exact fun e => e.elim hne hne)]
    exact .dropped hc h₀ hne

/-- **A set naming the current transaction** is stored at once, or fails. -/
theorem handleSet_current {env : Env} {s : Storage h} {t : StorageTask} (hc : s.tdb.ctx ≠ none)
    (heq : s.txn = t.txnId) : handleSet env s t = match setOutcome env t with
      | .ok r => storageTaskSucceed { s with tdb := s.tdb.store t.key r } t
      | .error e => storageTaskFail s (t.setError e) := by
  have hs := handleSet_step env s t
  generalize handleSet env s t = s' at hs ⊢
  cases hs with
  | closed e hc' => exact absurd hc' hc
  | unknown e _ _ hne _ => exact absurd heq hne
  | queued x _ _ hne _ => exact absurd heq hne
  | dropped _ h₀ hne => exact absurd (heq.trans h₀) hne
  | failed e _ _ ho => rw [ho]
  | stored r _ _ ho => rw [ho]

theorem handleSet_stored {env : Env} {s : Storage h} {t : StorageTask} {r : Bytes}
    (hc : s.tdb.ctx ≠ none) (heq : s.txn = t.txnId) (ho : setOutcome env t = .ok r) :
    handleSet env s t = storageTaskSucceed { s with tdb := s.tdb.store t.key r } t := by
  rw [handleSet_current hc heq, ho]

theorem handleSet_failed {env : Env} {s : Storage h} {t : StorageTask} {e : GError}
    (hc : s.tdb.ctx ≠ none) (heq : s.txn = t.txnId) (ho : setOutcome env t = .error e) :
    handleSet env s t = storageTaskFail s (t.setError e) := by
  rw [handleSet_current hc heq, ho]

/-! ## Frames -/

/-- The fields that a set leaves alone. -/
structure Storage.Frame (s s' : Storage h) : Prop where
  txn : s'.txn = s.txn
  txnCommits : s'.txnCommits = s.txnCommits
  txnSeq : s'.txnSeq = s.txnSeq
  stopped : s'.stopped = s.stopped
  file : s'.tdb.file = s.tdb.file

theorem Storage.Frame.refl (s : Storage h) : s.Frame s := ⟨rfl, rfl, rfl, rfl, rfl⟩

theorem Storage.Frame.trans {s₁ s₂ s₃ : Storage h} (h₁ : s₁.Frame s₂) (h₂ : s₂.Frame s₃) :
    s₁.Frame s₃ :=
  ⟨h₂.txn.trans h₁.txn, h₂.txnCommits.trans h₁.txnCommits, h₂.txnSeq.trans h₁.txnSeq,
    h₂.stopped.trans h₁.stopped, h₂.file.trans h₁.file⟩

theorem frame_fail (s : Storage h) (t : StorageTask) : s.Frame (storageTaskFail s t) :=
  ⟨txn_fail s t, txnCommits_fail s t, txnSeq_fail s t, stopped_fail s t, by rw [tdb_fail]⟩

theorem frame_handleSet (env : Env) (s : Storage h) (t : StorageTask) :
    s.Frame (handleSet env s t) := by
  have hs := handleSet_step env s t
  generalize handleSet env s t = s' at hs ⊢
  cases hs with
  | closed e _ => exact frame_fail s _
  | unknown e _ _ _ _ => exact frame_fail s _
  | queued x _ _ _ _ => exact ⟨rfl, rfl, rfl, rfl, rfl⟩
  | dropped _ _ _ => exact Storage.Frame.refl s
  | failed e _ _ _ => exact frame_fail s _
  | stored r _ _ _ => exact ⟨rfl, rfl, rfl, rfl, Tdb.file_store s.tdb t.key r⟩

theorem runMsgs_invariant {env : Env} {P : Storage h → Prop} (id : ℕ) :
    ∀ (ms : List StorageTask) {s : Storage h},
      (∀ m ∈ ms, ∀ s, P s → P (handleSet env s m)) → P s → P (runMsgs env id ms s).1
  | [], _, _, hs => hs
  | m :: ms, s, hms, hs => by
    have h₁ : P (handleSet env s m) := hms m List.mem_cons_self s hs
    rw [runMsgs]
    split_ifs
    · exact h₁
    · exact runMsgs_invariant id ms (fun m hm => hms m (List.mem_cons_of_mem _ hm)) h₁

theorem frame_runMsgs (env : Env) (id : ℕ) (ms : List StorageTask) (s : Storage h) :
    s.Frame (runMsgs env id ms s).1 :=
  runMsgs_invariant id ms (fun m _ s' hs' => hs'.trans (frame_handleSet env s' m))
    (Storage.Frame.refl s)

theorem tdb_handleSet (env : Env) (s : Storage h) (t : StorageTask) :
    (handleSet env s t).tdb = s.tdb ∨ s.txn = t.txnId ∧ s.tdb.ctx ≠ none ∧
      ∃ r, setOutcome env t = .ok r ∧ (handleSet env s t).tdb = s.tdb.store t.key r := by
  have hs := handleSet_step env s t
  generalize handleSet env s t = s' at hs ⊢
  cases hs with
  | closed e _ => exact Or.inl (tdb_fail s _)
  | unknown e _ _ _ _ => exact Or.inl (tdb_fail s _)
  | queued x _ _ _ _ => exact Or.inl rfl
  | dropped _ _ _ => exact Or.inl rfl
  | failed e _ _ _ => exact Or.inl (tdb_fail s _)
  | stored r hc heq ho => exact Or.inr ⟨heq, hc, r, ho, rfl⟩

/-! ## Commits -/

/-- The transaction a commit works on, marked as current, inside a `tdb` transaction. -/
def beginTxn (s : Storage h) (t : StorageTask) : Storage h :=
  { s with txn := t.txnId, tdb := s.tdb.transactionStart }.modifyMsgs t.txnId List.reverse

/-- The replay of the log of `x` by the commit `t`. -/
def replay (env : Env) (s : Storage h) (t : StorageTask) (x : TxnState) : Storage h × Bool :=
  runMsgs env t.txnId x.msgs.reverse (beginTxn s t)

/-- The commit `t` of `x` is answered with success. -/
def commitOk (env : Env) (s : Storage h) (t : StorageTask) (x : TxnState) : Bool :=
  (replay env s t x).2 && (env t.id).tdbTransactionCommit

/-- The state in which the commit `t` of `x` ends, answered with `e` in its error slot. -/
def afterCommit (env : Env) (s : Storage h) (t : StorageTask) (x : TxnState)
    (e : Option GError) : Storage h :=
  storageTaskComplete
    { (replay env s t x).1 with
      tdb := if (replay env s t x).2 then
        (replay env s t x).1.tdb.transactionCommit (commitOk env s t x) else (replay env s t x).1.tdb
      txnState := (replay env s t x).1.txnState.erase (h.firstWord t.txnId)
      txn := 0 }
    { t with error := e } (commitOk env s t x)

theorem frame_replay (env : Env) (s : Storage h) (t : StorageTask) (x : TxnState) :
    (beginTxn s t).Frame (replay env s t x).1 :=
  frame_runMsgs env t.txnId x.msgs.reverse (beginTxn s t)

theorem file_replay (env : Env) (s : Storage h) (t : StorageTask) (x : TxnState) :
    (replay env s t x).1.tdb.file = s.tdb.file :=
  (frame_replay env s t x).file.trans (Tdb.file_transactionStart s.tdb)

theorem tdb_afterCommit (env : Env) (s : Storage h) (t : StorageTask) (x : TxnState)
    (e : Option GError) : (afterCommit env s t x e).tdb =
      if (replay env s t x).2 then
        (replay env s t x).1.tdb.transactionCommit (commitOk env s t x)
      else (replay env s t x).1.tdb := rfl

theorem replies_afterCommit (env : Env) (s : Storage h) (t : StorageTask) (x : TxnState)
    (e : Option GError) : (afterCommit env s t x e).replies = (replay env s t x).1.replies ++
      [{ t with error := e, success := commitOk env s t x }] := rfl

@[simp] theorem txn_afterCommit (env : Env) (s : Storage h) (t : StorageTask) (x : TxnState)
    (e : Option GError) : (afterCommit env s t x e).txn = 0 := rfl

@[simp] theorem txnSeq_afterCommit (env : Env) (s : Storage h) (t : StorageTask) (x : TxnState)
    (e : Option GError) : (afterCommit env s t x e).txnSeq = s.txnSeq :=
  (frame_replay env s t x).txnSeq

@[simp] theorem txnCommits_afterCommit (env : Env) (s : Storage h) (t : StorageTask) (x : TxnState)
    (e : Option GError) : (afterCommit env s t x e).txnCommits = s.txnCommits :=
  (frame_replay env s t x).txnCommits

@[simp] theorem stopped_afterCommit (env : Env) (s : Storage h) (t : StorageTask) (x : TxnState)
    (e : Option GError) : (afterCommit env s t x e).stopped = s.stopped :=
  (frame_replay env s t x).stopped

@[simp] theorem file_afterCommit (env : Env) (s : Storage h) (t : StorageTask) (x : TxnState)
    (e : Option GError) : (afterCommit env s t x e).tdb.file = s.tdb.file := by
  rw [tdb_afterCommit]
  split_ifs
  · rw [Tdb.file_transactionCommit, file_replay]
  · exact file_replay env s t x

/-- The error of a commit whose `tdb_transaction_start` fails. -/
def startError : GError := ⟨.storageDb, "Tdb could not start a new transaction"⟩

/-- What one commit can do before the queue. -/
inductive CommitStep (env : Env) (s : Storage h) (t : StorageTask) : Storage h × Bool → Prop
  | closed (e : GError) (hc : s.tdb.ctx = none) :
    CommitStep env s t (storageTaskFail s (t.setError e), false)
  | queued (hc : s.tdb.ctx ≠ none) (h₀ : s.txn ≠ 0) (hne : s.txn ≠ t.txnId) :
    CommitStep env s t ({ s with txnCommits := s.txnCommits ++ [t] }, false)
  | unknown (e : GError) (hc : s.tdb.ctx ≠ none) (hcur : s.txn = 0 ∨ s.txn = t.txnId)
    (hl : s.lookupTxn t.txnId = none) :
    CommitStep env s t (storageTaskFail { s with txn := t.txnId } (t.setError e), false)
  | notStarted (x : TxnState) (hc : s.tdb.ctx ≠ none) (hcur : s.txn = 0 ∨ s.txn = t.txnId)
    (hl : s.lookupTxn t.txnId = some x) (hst : (env t.id).tdbTransactionStart = false) :
    CommitStep env s t (storageTaskFail { s with txn := t.txnId } (t.setError startError), false)
  | ran (x : TxnState) (e : Option GError) (hc : s.tdb.ctx ≠ none)
    (hcur : s.txn = 0 ∨ s.txn = t.txnId) (hl : s.lookupTxn t.txnId = some x)
    (hst : (env t.id).tdbTransactionStart = true) :
    CommitStep env s t (afterCommit env s t x e, true)

theorem firstWord_of_lookup {s : Storage h} {id : ℕ} {x : TxnState}
    (hl : s.lookupTxn id = some x) : h.firstWord x.txnId = h.firstWord id :=
  (Table.find_eq_some.mp hl).2

theorem mem_modifyMsgs {s : Storage h} {id : ℕ} {f : List StorageTask → List StorageTask}
    {x : TxnState} : x ∈ (s.modifyMsgs id f).txnState.rows ↔
      (x ∈ s.txnState.rows ∧ TxnState.key h x ≠ h.firstWord id) ∨
        ∃ y ∈ s.txnState.rows, TxnState.key h y = h.firstWord id ∧
          ({ y with msgs := f y.msgs } : TxnState) = x :=
  Table.mem_modify fun x => x.key_msgs h (f x.msgs)

theorem txnState_setTxnError_erase (s : Storage h) (id : ℕ) (e : Option GError) :
    (s.setTxnError id e).txnState.erase (h.firstWord id) = s.txnState.erase (h.firstWord id) :=
  Table.erase_modify s.txnState _ (fun x => { x with error := e }) fun x => x.key_error h e

theorem lookupTxn_erase (s : Storage h) (id : ℕ) :
    ({ s with txnState := s.txnState.erase (h.firstWord id) } : Storage h).lookupTxn id = none :=
  Table.find_erase_self _ _

theorem txnStateRun_true {env : Env} {s s' : Storage h} {x : TxnState} {id : ℕ}
    (hr : runMsgs env id x.msgs.reverse (s.modifyMsgs id List.reverse) = (s', true))
    (e : Option GError) : txnStateRun env s x id e = (s', true, e) := by
  unfold txnStateRun
  dsimp only
  rw [hr]

/-- A replay that fails takes the error of the transaction unless the commit has one. -/
theorem txnStateRun_false {env : Env} {s s' : Storage h} {x : TxnState} {id : ℕ}
    (hr : runMsgs env id x.msgs.reverse (s.modifyMsgs id List.reverse) = (s', false))
    (e : Option GError) : ∃ s'' e', txnStateRun env s x id e = (s'', false, e') ∧
      (s'' = s' ∨ s'' = s'.setTxnError id none) := by
  unfold txnStateRun
  dsimp only
  rw [hr]
  cases e with
  | none => exact ⟨_, _, rfl, Or.inr rfl⟩
  | some e => exact ⟨_, _, rfl, Or.inl rfl⟩

/-- The transaction is gone when its commit is answered, so no error reaches it. -/
theorem finishTxn_eq (env : Env) (s : Storage h) {x : TxnState} {t : StorageTask}
    (hx : h.firstWord x.txnId = h.firstWord t.txnId) (b : Bool) :
    ∃ e, finishTxn env s x t b = storageTaskComplete
      { s with
        tdb := if b then s.tdb.transactionCommit (b && (env t.id).tdbTransactionCommit) else s.tdb
        txnState := s.txnState.erase (h.firstWord t.txnId)
        txn := 0 }
      { t with error := e } (b && (env t.id).tdbTransactionCommit) := by
  unfold finishTxn
  rw [hx]
  cases b with
  | false =>
    refine ⟨t.error, ?_⟩
    dsimp only [Bool.false_and]
    exact storageTaskFail_of_none _ _ (lookupTxn_erase s t.txnId)
  | true =>
    cases hcommit : (env t.id).tdbTransactionCommit with
    | true => exact ⟨t.error, rfl⟩
    | false =>
      refine ⟨(t.setError ⟨.storageDb, "Cannot commit txn: " ++ (env t.id).tdbErrorstr⟩).error, ?_⟩
      dsimp only [Bool.and_false]
      exact storageTaskFail_of_none _ _ (lookupTxn_erase s t.txnId)

theorem commitTxn_step (env : Env) (s : Storage h) (t : StorageTask) :
    CommitStep env s t (commitTxn env s t) := by
  unfold commitTxn
  by_cases hc : s.tdb.ctx = none
  · rw [if_pos (by simp [hc])]
    exact .closed _ hc
  rw [if_neg (by simpa using hc)]
  by_cases hq : s.txn ≠ 0 ∧ s.txn ≠ t.txnId
  · rw [if_pos hq]
    exact .queued hc hq.1 hq.2
  rw [if_neg hq]
  have hcur : s.txn = 0 ∨ s.txn = t.txnId := by
    by_contra hn
    exact hq (not_or.mp hn)
  dsimp only
  cases hl : s.lookupTxn t.txnId with
  | none =>
    have hl' : ({ s with txn := t.txnId } : Storage h).lookupTxn t.txnId = none := hl
    rw [hl']
    exact .unknown _ hc hcur hl
  | some x =>
    have hl' : ({ s with txn := t.txnId } : Storage h).lookupTxn t.txnId = some x := hl
    rw [hl']
    dsimp only
    by_cases hst : (env t.id).tdbTransactionStart = true
    · rw [if_neg (by simpa using hst)]
      have hx := firstWord_of_lookup hl
      cases hr : replay env s t x with
      | mk s' b =>
        cases b with
        | true =>
          rw [txnStateRun_true hr]
          obtain ⟨e, he⟩ := finishTxn_eq env s' hx true
          have hrun : CommitStep env s t (afterCommit env s t x e, true) :=
            .ran x e hc hcur hl hst
          rw [afterCommit, commitOk, hr] at hrun
          rw [he]
          exact hrun
        | false =>
          obtain ⟨s'', e', hrun, hs⟩ := txnStateRun_false hr t.error
          rw [hrun]
          dsimp only
          have hx' : h.firstWord x.txnId = h.firstWord ({ t with error := e' } : StorageTask).txnId :=
            hx
          obtain ⟨e, he⟩ := finishTxn_eq env s'' hx' false
          have hran : CommitStep env s t (afterCommit env s t x e, true) :=
            .ran x e hc hcur hl hst
          rw [afterCommit, commitOk, hr] at hran
          rw [he]
          rcases hs with rfl | rfl
          · exact hran
          · dsimp only
            rw [txnState_setTxnError_erase]
            exact hran
    · rw [if_pos (by simpa using hst)]
      exact .notStarted x hc hcur hl (by simpa using hst)

theorem txnCommits_commitTxn {env : Env} {s : Storage h} {t : StorageTask}
    (hb : (commitTxn env s t).2 = true) : (commitTxn env s t).1.txnCommits = s.txnCommits := by
  have hs := commitTxn_step env s t
  generalize commitTxn env s t = p at hs hb ⊢
  cases hs with
  | ran x e _ _ _ _ => exact txnCommits_afterCommit env s t x e
  | _ => cases hb

theorem popCommit_length {s s' : Storage h} {t : StorageTask} (hp : popCommit s = some (t, s')) :
    s'.txnCommits.length + 1 = s.txnCommits.length := by
  unfold popCommit at hp
  split at hp
  · cases hp
  · next q => cases hp; rw [q]; rfl

/-- **The recursion of `handle_txn_commit`**, one pending commit after the other. -/
theorem handleTxnCommit_eq (env : Env) (s : Storage h) (t : StorageTask) :
    handleTxnCommit env s t =
      if (commitTxn env s t).2 then
        match popCommit (commitTxn env s t).1 with
        | none => (commitTxn env s t).1
        | some (t', s') => handleTxnCommit env s' t'
      else (commitTxn env s t).1 := by
  have hpop : ∀ (s : Storage h) (t : StorageTask) (s' : Storage h), popCommit s = some (t, s') →
      s'.txnCommits.length + 1 = s.txnCommits.length := fun _ _ _ => popCommit_length
  have hwork : ∀ (s : Storage h) (t : StorageTask), (commitTxn env s t).2 = true →
      (commitTxn env s t).1.txnCommits.length = s.txnCommits.length :=
    fun _ _ hb => congrArg List.length (txnCommits_commitTxn hb)
  refine (@drain_eq _ _ _ _ (fun s : Storage h => s.txnCommits.length) hpop hwork s t).trans ?_
  cases popCommit (commitTxn env s t).1 <;> rfl

/-- `C` holds of the state and the task at every commit that the message `t` makes run. -/
abbrev EachCommit (C : Env → Storage h → StorageTask → Prop) (env : Env) (s : Storage h)
    (t : StorageTask) : Prop :=
  EachCall (commitTxn env) popCommit (C env) s.txnCommits.length s t

/-! ## Messages -/

/-- What one message can do, sets and commits apart. -/
inductive MessageStep (env : Env) (s : Storage h) (t : StorageTask) : Storage h → Prop
  | stopped (hs : s.stopped = true) : MessageStep env s t s
  | set (hw : t.what = .messageSet) (hs : s.stopped = false) : MessageStep env s t (handleSet env s t)
  | commit (hw : t.what = .messageTxnCommit) (hs : s.stopped = false) :
    MessageStep env s t (handleTxnCommit env s t)
  | failed (t' : StorageTask) (hw : t.what ≠ .messageSet ∧ t.what ≠ .messageTxnCommit)
    (hcancel : t.what = .messageTxnCancel → s.tdb.ctx = none) (hid : t'.id = t.id)
    (htxn : t'.txnId = t.txnId) : MessageStep env s t (storageTaskFail s t')
  | answered (t' : StorageTask) (hw : t.what ≠ .messageSet ∧ t.what ≠ .messageTxnCommit)
    (hcancel : t.what = .messageTxnCancel → s.lookupTxn t.txnId = none) (hid : t'.id = t.id) :
    MessageStep env s t (storageTaskSucceed s t')
  | notOpened (t' : StorageTask) (hw : t.what = .messageOpen) (hid : t'.id = t.id)
    (hc : s.tdb.ctx = none) (hq : s.txnCommits = []) : MessageStep env s t
      (storageTaskFail { s.clearTxns with tdb := s.tdb.openFile t.key (env t.id) } t')
  | opened (hw : t.what = .messageOpen) (hc : s.tdb.ctx = none) (hq : s.txnCommits = [])
    (hs : s.stopped = false) : MessageStep env s t (storageTaskSucceed
      { s.clearTxns with tdb := (s.tdb.openFile t.key (env t.id)).opened t.key } t)
  | ended (hw : t.what = .messageOpen) (hc : s.tdb.ctx = none) (hq : s.txnCommits ≠ []) :
    MessageStep env s t { s with stopped := true }
  | closed (hw : t.what = .messageClose) (hc : s.tdb.ctx ≠ none) (h₀ : s.txn = 0)
    (hrows : s.txnState.rows = []) :
    MessageStep env s t (storageTaskSucceed { s with tdb := s.tdb.closed } t)
  | began (hw : t.what = .messageTxnBegin) (hc : s.tdb.ctx ≠ none) : MessageStep env s t
      (storageTaskSucceed
        { s with
          txnSeq := h.incFirstWord s.txnSeq
          txnState := s.txnState.insert { txnId := h.incFirstWord s.txnSeq } }
        { t with value := some (h.incFirstWord s.txnSeq), txnId := h.incFirstWord s.txnSeq })
  | cancelled (x : TxnState) (hw : t.what = .messageTxnCancel) (hc : s.tdb.ctx ≠ none)
    (hl : s.lookupTxn t.txnId = some x) : MessageStep env s t
      (storageTaskSucceed { s with txnState := s.txnState.erase (h.firstWord t.txnId) } t)

theorem handleMessage_step (env : Env) (s : Storage h) (t : StorageTask) :
    MessageStep env s t (handleMessage env s t) := by
  by_cases hstop : s.stopped = true
  · rw [handleMessage_stopped env hstop]
    exact .stopped hstop
  have hs : s.stopped = false := Bool.eq_false_of_not_eq_true hstop
  rw [handleMessage_eq env hs]
  cases hw : t.what with
  | messageSet => exact .set hw hs
  | messageTxnCommit => exact .commit hw hs
  | messageGet =>
    have hw' : t.what ≠ .messageSet ∧ t.what ≠ .messageTxnCommit := by simp [hw]
    dsimp only
    unfold handleGet
    split_ifs
    · exact .failed _ hw' (by simp [hw]) rfl rfl
    · split
      · exact .failed _ hw' (by simp [hw]) rfl rfl
      · split
        · exact .failed _ hw' (by simp [hw]) rfl rfl
        · exact .answered _ hw' (by simp [hw]) rfl
  | messageCountKeys => exact .answered _ (by simp [hw]) (by simp [hw]) rfl
  | messageOpen =>
    dsimp only
    unfold handleOpen
    split_ifs with hc hq ho
    · exact .failed _ (by simp [hw]) (by simp [hw]) rfl rfl
    · exact .ended hw (by simpa using hc) hq
    · exact .opened hw (by simpa using hc) (not_not.mp hq) hs
    · exact .notOpened _ hw rfl (by simpa using hc) (not_not.mp hq)
  | messageClose =>
    have hw' : t.what ≠ .messageSet ∧ t.what ≠ .messageTxnCommit := by simp [hw]
    dsimp only
    unfold handleClose
    split_ifs with hc hp hr
    · exact .failed _ hw' (by simp [hw]) rfl rfl
    · exact .failed _ hw' (by simp [hw]) rfl rfl
    · exact .failed _ hw' (by simp [hw]) rfl rfl
    · obtain ⟨h₀, hrows⟩ := not_or.mp hp
      exact .closed hw (by simpa using hc) (not_not.mp h₀) (by simpa using hrows)
  | messageTxnBegin =>
    dsimp only
    unfold handleTxnBegin
    split_ifs with hc
    · exact .failed _ (by simp [hw]) (by simp [hw]) rfl rfl
    · exact .began hw (by simpa using hc)
  | messageTxnCancel =>
    dsimp only
    unfold handleTxnCancel
    split_ifs with hc
    · exact .failed _ (by simp [hw]) (fun _ => by simpa using hc) rfl rfl
    · cases hl : s.lookupTxn t.txnId with
      | none => exact .answered _ (by simp [hw]) (fun _ => hl) rfl
      | some x => exact .cancelled x hw (by simpa using hc) hl

end Catalina
