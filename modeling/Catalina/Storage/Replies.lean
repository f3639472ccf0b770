import Catalina.Storage.Model

/-!
# Replies are written only

No handler reads the replies given so far: they stay, and decide nothing.

* **`prepend_run`**: a run with earlier replies in front.
* `prefix_of_prepend`: what does not read the replies keeps them.
* **`newReplies_congr`**: states that differ in their replies only answer every run alike.
-/

namespace Catalina

variable {h : Host} {env : Env}

/-- The state with earlier replies in front. -/
def Storage.prepend (s : Storage h) (p : List StorageTask) : Storage h :=
  { s with replies := p ++ s.replies }

theorem ite_map {α β : Type} (f : α → β) {c c' : Prop} [Decidable c] [Decidable c'] {a b : α}
    {a' b' : β} (hc : c' ↔ c) (ha : a' = f a) (hb : b' = f b) :
    (if c' then a' else b') = f (if c then a else b) := by
  rw [apply_ite f]
  exact if_congr hc ha hb

section Prepend

variable (s : Storage h) (p : List StorageTask) (t : StorageTask)

@[simp]
theorem prepend_tdb : (s.prepend p).tdb = s.tdb := rfl

@[simp]
theorem prepend_txnCommits : (s.prepend p).txnCommits = s.txnCommits := rfl

@[simp]
theorem prepend_lookupTxn (i : ℕ) : (s.prepend p).lookupTxn i = s.lookupTxn i := rfl

theorem prepend_complete (b : Bool) :
    storageTaskComplete (s.prepend p) t b = (storageTaskComplete s t b).prepend p := by
  simp [Storage.prepend, storageTaskComplete, List.append_assoc]

theorem prepend_fail : storageTaskFail (s.prepend p) t = (storageTaskFail s t).prepend p :=
  ite_map (Storage.prepend · p) Iff.rfl
    (prepend_complete (s.setTxnError t.txnId t.error) p t false) (prepend_complete s p t false)

theorem prepend_handleOpen : handleOpen env (s.prepend p) t = (handleOpen env s t).prepend p :=
  ite_map (Storage.prepend · p) Iff.rfl (prepend_fail s p _)
    (ite_map (Storage.prepend · p) Iff.rfl rfl
      (ite_map (Storage.prepend · p) Iff.rfl
        (prepend_complete
          { s.clearTxns with tdb := (s.tdb.openFile t.key (env t.id)).opened t.key } p t true)
        (prepend_fail { s.clearTxns with tdb := s.tdb.openFile t.key (env t.id) } p _)))

theorem prepend_handleClose : handleClose env (s.prepend p) t = (handleClose env s t).prepend p :=
  ite_map (Storage.prepend · p) Iff.rfl (prepend_fail s p _)
    (ite_map (Storage.prepend · p) Iff.rfl (prepend_fail s p _)
      (ite_map (Storage.prepend · p) Iff.rfl (prepend_fail s p _)
        (prepend_complete { s with tdb := s.tdb.closed } p t true)))

theorem prepend_handleGet : handleGet env (s.prepend p) t = (handleGet env s t).prepend p := by
  refine ite_map (Storage.prepend · p) Iff.rfl (prepend_fail s p _) ?_
  rw [prepend_tdb]
  cases s.tdb.fetch t.key with
  | none => exact prepend_fail s p _
  | some record =>
    dsimp only
    cases transformRead (env t.id).transform record with
    | error e => exact prepend_fail s p _
    | ok data => exact prepend_complete s p _ true

theorem prepend_handleSet : handleSet env (s.prepend p) t = (handleSet env s t).prepend p := by
  refine ite_map (Storage.prepend · p) Iff.rfl (prepend_fail s p _)
    (ite_map (Storage.prepend · p) Iff.rfl ?_ (ite_map (Storage.prepend · p) Iff.rfl rfl ?_))
  · rw [prepend_lookupTxn]
    cases s.lookupTxn t.txnId with
    | none => exact prepend_fail s p _
    | some x => rfl
  · cases transformWrite (env t.id).transform t.data with
    | error e => exact prepend_fail s p _
    | ok r =>
      exact ite_map (Storage.prepend · p) Iff.rfl
        (prepend_complete { s with tdb := s.tdb.store t.key r } p t true) (prepend_fail s p _)

theorem prepend_handleTxnBegin :
    handleTxnBegin (s.prepend p) t = (handleTxnBegin s t).prepend p :=
  ite_map (Storage.prepend · p) Iff.rfl (prepend_fail s p _)
    (prepend_complete
      { s with
        txnSeq := h.incFirstWord s.txnSeq
        txnState := s.txnState.insert { txnId := h.incFirstWord s.txnSeq } } p _ true)

theorem prepend_handleTxnCancel :
    handleTxnCancel (s.prepend p) t = (handleTxnCancel s t).prepend p := by
  refine ite_map (Storage.prepend · p) Iff.rfl (prepend_fail s p _) ?_
  rw [prepend_lookupTxn]
  cases s.lookupTxn t.txnId with
  | none => exact prepend_complete s p t true
  | some x =>
    exact prepend_complete { s with txnState := s.txnState.erase (h.firstWord t.txnId) } p t true

theorem prepend_runMsgs (i : ℕ) : ∀ (ms : List StorageTask) (s : Storage h),
    runMsgs env i ms (s.prepend p) = Prod.map (Storage.prepend · p) id (runMsgs env i ms s)
  | [], _ => rfl
  | m :: ms, s => by
    rw [runMsgs, runMsgs, prepend_handleSet]
    exact ite_map (Prod.map (Storage.prepend · p) id) Iff.rfl rfl (prepend_runMsgs i ms _)

theorem prepend_txnStateRun (x : TxnState) (i : ℕ) (e : Option GError) :
    txnStateRun env (s.prepend p) x i e =
      Prod.map (Storage.prepend · p) id (txnStateRun env s x i e) := by
  have hmod : (s.prepend p).modifyMsgs i List.reverse =
      (s.modifyMsgs i List.reverse).prepend p := rfl
  unfold txnStateRun
  dsimp only
  rw [hmod, prepend_runMsgs]
  rcases runMsgs env i x.msgs.reverse (s.modifyMsgs i List.reverse) with ⟨s', _ | _⟩
  · cases e <;> rfl
  · rfl

theorem prepend_finishTxn (x : TxnState) (b : Bool) :
    finishTxn env (s.prepend p) x t b = (finishTxn env s x t b).prepend p := by
  unfold finishTxn
  cases b with
  | false => exact prepend_fail { s with txnState := s.txnState.erase _, txn := 0 } p t
  | true =>
    exact ite_map (Storage.prepend · p) Iff.rfl (prepend_complete { s with
        tdb := s.tdb.transactionCommit _, txnState := s.txnState.erase _, txn := 0 } p _ true)
      (prepend_fail { s with
        tdb := s.tdb.transactionCommit _, txnState := s.txnState.erase _, txn := 0 } p _)

theorem prepend_commitTxn :
    commitTxn env (s.prepend p) t = Prod.map (Storage.prepend · p) id (commitTxn env s t) := by
  refine ite_map (Prod.map (Storage.prepend · p) id) Iff.rfl
    (congrArg (·, false) (prepend_fail s p _))
    (ite_map (Prod.map (Storage.prepend · p) id) Iff.rfl rfl ?_)
  have hlookup : ({ s with txn := t.txnId } : Storage h).lookupTxn t.txnId =
      s.lookupTxn t.txnId := rfl
  have hlookup' : ({ s.prepend p with txn := t.txnId } : Storage h).lookupTxn t.txnId =
      s.lookupTxn t.txnId := rfl
  dsimp only
  rw [hlookup, hlookup']
  cases s.lookupTxn t.txnId with
  | none => exact congrArg (·, false) (prepend_fail { s with txn := t.txnId } p _)
  | some x =>
    refine ite_map (Prod.map (Storage.prepend · p) id) Iff.rfl
      (congrArg (·, false) (prepend_fail { s with txn := t.txnId } p _)) ?_
    have hrun := @prepend_txnStateRun h env
      { s with txn := t.txnId, tdb := s.tdb.transactionStart } p x t.txnId t.error
    unfold Storage.prepend at hrun ⊢
    dsimp only at hrun ⊢
    rw [hrun]
    rcases txnStateRun env _ x t.txnId t.error with ⟨s', b, e⟩
    exact congrArg (·, true) (prepend_finishTxn s' p _ x b)

theorem prepend_popCommit :
    popCommit (s.prepend p) = (popCommit s).map (Prod.map id (Storage.prepend · p)) := by
  unfold popCommit
  rw [prepend_txnCommits]
  cases s.txnCommits <;> rfl

theorem prepend_drain : ∀ (n : ℕ) (s : Storage h) (t : StorageTask),
    drain (commitTxn env) popCommit n (s.prepend p) t =
      (drain (commitTxn env) popCommit n s t).prepend p
  | 0, s, t => congrArg Prod.fst (prepend_commitTxn s p t)
  | n + 1, s, t => by
    rw [drain, drain, prepend_commitTxn]
    refine ite_map (Storage.prepend · p) Iff.rfl ?_ rfl
    rw [Prod.map_fst, prepend_popCommit]
    cases popCommit (commitTxn env s t).1 with
    | none => rfl
    | some q => exact prepend_drain n q.2 q.1

theorem prepend_handleMessage :
    handleMessage env (s.prepend p) t = (handleMessage env s t).prepend p := by
  refine ite_map (Storage.prepend · p) Iff.rfl rfl ?_
  unfold cnHandleMessage exHandleMessage
  cases t.what with
  | messageOpen => exact prepend_handleOpen s p t
  | messageClose => exact prepend_handleClose s p t
  | messageGet => exact prepend_handleGet s p t
  | messageSet => exact prepend_handleSet s p t
  | messageCountKeys => exact prepend_complete s p _ true
  | messageTxnBegin => exact prepend_handleTxnBegin s p t
  | messageTxnCommit => exact prepend_drain p s.txnCommits.length s t
  | messageTxnCancel => exact prepend_handleTxnCancel s p t

/-- **Earlier replies change nothing in a run.** -/
theorem prepend_run : ∀ (ms : List StorageTask) (s : Storage h),
    run env (s.prepend p) ms = (run env s ms).prepend p
  | [], _ => rfl
  | m :: ms, s => by
    unfold run
    rw [List.foldl_cons, List.foldl_cons, prepend_handleMessage]
    exact prepend_run ms _

end Prepend

/-- The replies of a run of messages. -/
def newReplies (env : Env) (s : Storage h) (ms : List StorageTask) : List StorageTask :=
  (run env s ms).replies.drop s.replies.length

/-- The state without its replies. -/
def Storage.core (s : Storage h) : Storage h := { s with replies := [] }

/-- **States that differ in their replies only answer every run alike.** -/
theorem newReplies_congr {s s' : Storage h} (heq : s'.core = s.core) (ms : List StorageTask) :
    newReplies env s' ms = newReplies env s ms := by
  have key : ∀ s : Storage h, newReplies env s ms = (run env s.core ms).replies := by
    intro s
    have hs : s = s.core.prepend s.replies := by simp [Storage.prepend, Storage.core]
    conv_lhs => rw [hs]
    unfold newReplies
    rw [prepend_run]
    simp [Storage.prepend, Storage.core]
  rw [key s', key s, heq]

theorem prefix_of_prepend (f : Storage h → Storage h)
    (hf : ∀ s p, f (s.prepend p) = (f s).prepend p) (s : Storage h) :
    s.replies <+: (f s).replies := by
  have hs : s = s.core.prepend s.replies := by simp [Storage.prepend, Storage.core]
  rw [hs, hf]
  exact ⟨(f s.core).replies, by simp [Storage.prepend, Storage.core]⟩

theorem prefix_runMsgs (i : ℕ) (ms : List StorageTask) (s : Storage h) :
    s.replies <+: (runMsgs env i ms s).1.replies :=
  prefix_of_prepend (fun s => (runMsgs env i ms s).1)
    (fun s p => congrArg Prod.fst (prepend_runMsgs p i ms s)) s

theorem prefix_commitTxn (s : Storage h) (t : StorageTask) :
    s.replies <+: (commitTxn env s t).1.replies :=
  prefix_of_prepend (fun s => (commitTxn env s t).1)
    (fun s p => congrArg Prod.fst (prepend_commitTxn s p t)) s

theorem prefix_handleMessage (s : Storage h) (t : StorageTask) :
    s.replies <+: (handleMessage env s t).replies :=
  prefix_of_prepend (fun s => handleMessage env s t) (fun s p => prepend_handleMessage s p t) s

theorem prefix_run (ts : List StorageTask) (s : Storage h) :
    s.replies <+: (run env s ts).replies :=
  prefix_of_prepend (fun s => run env s ts) (fun s p => prepend_run p ts s) s

end Catalina
