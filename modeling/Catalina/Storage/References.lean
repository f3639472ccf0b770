import Catalina.Storage.Conservation

/-!
# The references to the messages

A receiver holds a reference to the message that it hands to a handler. The storage takes one more
for each place in which it keeps a message, and one for each message that is a commit.

* `Counted`: the storage with the references that are held; `irisMessageRef`, `irisMessageUnref`.
* `Counted.handleMessage`: the handlers, with what they do to the references.
* `Counted.Balanced`: one reference for each place in a log or in the queue, and some others.
* **`references_accounted`**: over a run the others are those of the commits that `handle_txn_commit`
  has left early, and no reference is dropped that is not there.
* `queued_commit_corrupts`: an open that finds a queue frees a message as a transaction state.
-/

namespace Catalina

/-- What must not happen to a message: a reference is dropped that is not there, or its memory is
given to `txn_state_free`. -/
inductive Misuse
  | unreferenced (message : ℕ)
  | freedAsTxnState (message : ℕ)
deriving DecidableEq, Repr

/-- The storage, and the references to its messages, each as often as there are. -/
structure Counted (h : Host) where
  storage : Storage h
  refs : Multiset ℕ := 0
  misuses : List Misuse := []

variable {h : Host}

namespace Counted

def irisMessageRef (c : Counted h) (t : StorageTask) : Counted h := { c with refs := t.id ::ₘ c.refs }

def irisMessageUnref (c : Counted h) (t : StorageTask) : Counted h :=
  if t.id ∈ c.refs then { c with refs := c.refs.erase t.id }
  else { c with misuses := c.misuses ++ [.unreferenced t.id] }

/-- `txn_state_free`. -/
def txnStateFree (c : Counted h) (txn : TxnState) : Counted h := txn.msgs.foldl irisMessageUnref c

/-- The destruction of the value that a lookup of `id` leads to. -/
def destroyTxn (c : Counted h) (id : ℕ) : Counted h :=
  match c.storage.lookupTxn id with
  | none => c
  | some txn => c.txnStateFree txn

variable (env : Env)

/-- `handle_open`, which gives the messages of the queue to `txn_state_free`. The first ends the
process. -/
def handleOpen (c : Counted h) (t : StorageTask) : Counted h :=
  let s := Catalina.handleOpen env c.storage t
  if c.storage.tdb.ctx.isSome then { c with storage := s }
  else
    match c.storage.txnCommits with
    | m :: _ => { c with storage := s, misuses := c.misuses ++ [.freedAsTxnState m.id] }
    | [] => { c.storage.txnState.rows.foldl txnStateFree c with storage := s }

/-- `handle_set`, which takes a reference for the log. -/
def handleSet (c : Counted h) (t : StorageTask) : Counted h :=
  let s := c.storage
  let c := { c with storage := Catalina.handleSet env s t }
  if s.tdb.ctx.isSome ∧ (t.txnId ≠ 0 ∧ s.txn ≠ t.txnId) ∧ (s.lookupTxn t.txnId).isSome then
    c.irisMessageRef t
  else
    c

/-- `handle_txn_begin`, where `g_hash_table_insert` destroys a value with the same key. -/
def handleTxnBegin (c : Counted h) (t : StorageTask) : Counted h :=
  let s := Catalina.handleTxnBegin c.storage t
  if c.storage.tdb.ctx.isNone then { c with storage := s }
  else { c.destroyTxn (h.incFirstWord c.storage.txnSeq) with storage := s }

/-- The loop of `txn_state_run`. -/
def runMsgs (id : ℕ) : List StorageTask → Counted h → Counted h × Bool
  | [], c => (c, true)
  | m :: ms, c =>
    if (((c.handleSet env m).storage.lookupTxn id).bind TxnState.error).isSome then
      (c.handleSet env m, false)
    else runMsgs id ms (c.handleSet env m)

/-- `handle_txn_commit` up to the queue of pending commits, and whether it gets there. It drops its
reference only then. -/
def commitTxn (c : Counted h) (t : StorageTask) : Counted h × Bool :=
  let s := c.storage
  let after := Catalina.commitTxn env s t
  if s.tdb.ctx.isNone then ({ c with storage := after.1 }, after.2)
  else if s.txn ≠ 0 ∧ s.txn ≠ t.txnId then
    ({ c with storage := after.1 }.irisMessageRef t, after.2)
  else
    match s.lookupTxn t.txnId with
    | none => ({ c with storage := after.1 }, after.2)
    | some txn =>
      if ¬ (env t.id).tdbTransactionStart then ({ c with storage := after.1 }, after.2)
      else
        let c := (runMsgs env t.txnId txn.msgs.reverse { c with storage := beginTxn s t }).1
        let c := c.destroyTxn t.txnId
        ({ c with storage := after.1 }.irisMessageUnref t, after.2)

/-- Take the first pending commit off the queue, and its reference along. -/
def popCommit (c : Counted h) : Option (StorageTask × Counted h) :=
  (Catalina.popCommit c.storage).map fun p => (p.1, { c with storage := p.2 })

def handleTxnCommit (c : Counted h) (t : StorageTask) : Counted h :=
  drain (commitTxn env) popCommit c.storage.txnCommits.length c t

def handleTxnCancel (c : Counted h) (t : StorageTask) : Counted h :=
  let s := Catalina.handleTxnCancel c.storage t
  if c.storage.tdb.ctx.isNone then { c with storage := s }
  else { c.destroyTxn t.txnId with storage := s }

/-- The two dispatchers. A commit comes with a reference of its own. -/
def handleMessage (c : Counted h) (t : StorageTask) : Counted h :=
  match t.what with
  | .messageOpen => c.handleOpen env t
  | .messageSet => c.handleSet env t
  | .messageTxnBegin => c.handleTxnBegin t
  | .messageTxnCommit => (c.irisMessageRef t).handleTxnCommit env t
  | .messageTxnCancel => c.handleTxnCancel t
  | .messageClose | .messageGet | .messageCountKeys =>
    { c with storage := Catalina.handleMessage env c.storage t }

/-- A receiver takes a message from its port, hands it to the handler and drops its reference, as long
as there is a process. -/
def receive (c : Counted h) (t : StorageTask) : Counted h :=
  if c.storage.stopped then c
  else
    let c := (c.irisMessageRef t).handleMessage env t
    if c.storage.stopped then c else c.irisMessageUnref t

/-! ## The storage is as before -/

section Storage

variable {env} {c : Counted h} {t : StorageTask}

theorem storage_irisMessageUnref (c : Counted h) (t : StorageTask) :
    (c.irisMessageUnref t).storage = c.storage := by
  unfold irisMessageUnref
  split_ifs <;> rfl

theorem storage_handleSet (env : Env) (c : Counted h) (t : StorageTask) :
    (c.handleSet env t).storage = Catalina.handleSet env c.storage t := by
  unfold handleSet
  dsimp only
  split_ifs <;> rfl

theorem storage_runMsgs (id : ℕ) : ∀ (ms : List StorageTask) (c : Counted h),
    (runMsgs env id ms c).1.storage = (Catalina.runMsgs env id ms c.storage).1
  | [], _ => rfl
  | m :: ms, c => by
    rw [runMsgs, Catalina.runMsgs, storage_handleSet]
    split_ifs
    · exact storage_handleSet env c m
    · rw [storage_runMsgs id ms, storage_handleSet]

theorem storage_commitTxn (env : Env) (c : Counted h) (t : StorageTask) :
    Catalina.commitTxn env c.storage t =
      ((commitTxn env c t).1.storage, (commitTxn env c t).2) := by
  unfold commitTxn
  dsimp only
  split_ifs
  · rfl
  · rfl
  · cases c.storage.lookupTxn t.txnId with
    | none => rfl
    | some txn =>
      dsimp only
      rw [storage_irisMessageUnref]
  · cases c.storage.lookupTxn t.txnId with
    | none => rfl
    | some txn => rfl

theorem storage_popCommit (c : Counted h) :
    Catalina.popCommit c.storage = (popCommit c).map fun p => (p.1, p.2.storage) := by
  unfold popCommit
  rw [Option.map_map]
  exact Option.map_id'.symm

theorem storage_handleTxnCommit (env : Env) (c : Counted h) (t : StorageTask) :
    (c.handleTxnCommit env t).storage = Catalina.handleTxnCommit env c.storage t :=
  drain_map Counted.storage (storage_commitTxn env) storage_popCommit _ c t

theorem storage_handleOpen (env : Env) (c : Counted h) (t : StorageTask) :
    (c.handleOpen env t).storage = Catalina.handleOpen env c.storage t := by
  unfold handleOpen
  dsimp only
  split_ifs
  · rfl
  · cases c.storage.txnCommits <;> rfl

theorem storage_handleMessage (env : Env) {c : Counted h} (hs : c.storage.stopped = false)
    (t : StorageTask) :
    (c.handleMessage env t).storage = Catalina.handleMessage env c.storage t := by
  rw [handleMessage_eq env hs]
  unfold handleMessage
  cases hw : t.what with
  | messageOpen => exact storage_handleOpen env c t
  | messageSet => exact storage_handleSet env c t
  | messageTxnBegin =>
    dsimp only
    unfold handleTxnBegin
    dsimp only
    split_ifs <;> rfl
  | messageTxnCommit => exact storage_handleTxnCommit env _ t
  | messageTxnCancel =>
    dsimp only
    unfold handleTxnCancel
    dsimp only
    split_ifs <;> rfl
  | messageClose | messageGet | messageCountKeys =>
    dsimp only
    rw [handleMessage_eq env hs, hw]

/-- **The references change nothing** about what the storage does. -/
theorem storage_receive (env : Env) (c : Counted h) (t : StorageTask) :
    (c.receive env t).storage = Catalina.handleMessage env c.storage t := by
  unfold receive
  dsimp only
  split_ifs with hstop hended
  · exact (handleMessage_stopped env hstop t).symm
  · exact storage_handleMessage env (c := c.irisMessageRef t) (Bool.eq_false_of_not_eq_true hstop) t
  · exact (storage_irisMessageUnref _ t).trans
      (storage_handleMessage env (c := c.irisMessageRef t) (Bool.eq_false_of_not_eq_true hstop) t)

end Storage

/-! ## The balance -/

/-- There is one reference for each place in a log and in the queue, besides those in `R`, and
nothing has gone wrong. -/
structure Balanced (c : Counted h) (R : Multiset ℕ) : Prop where
  misuses : c.misuses = []
  refs : c.refs = ids c.storage.logTasks + ids c.storage.txnCommits + R

section Balanced

variable {env} {c : Counted h} {R V : Multiset ℕ} {t : StorageTask} {s' : Storage h}

theorem Balanced.ref (hb : c.Balanced R) (t : StorageTask) :
    (c.irisMessageRef t).Balanced ({t.id} + R) where
  misuses := hb.misuses
  refs := by
    change t.id ::ₘ c.refs = ids c.storage.logTasks + ids c.storage.txnCommits + ({t.id} + R)
    rw [hb.refs, ← Multiset.singleton_add]
    abel

theorem irisMessageUnref_of_refs (hr : c.refs = {t.id} + V) :
    c.irisMessageUnref t = { c with refs := V } := by
  have hmem : t.id ∈ c.refs := by
    rw [hr]
    exact Multiset.mem_add.mpr (Or.inl (Multiset.mem_singleton_self _))
  unfold irisMessageUnref
  rw [if_pos hmem, hr, Multiset.singleton_add, Multiset.erase_cons_head]

theorem Balanced.unref (hb : c.Balanced ({t.id} + R)) : (c.irisMessageUnref t).Balanced R := by
  have hr : c.refs = {t.id} + (ids c.storage.logTasks + ids c.storage.txnCommits + R) := by
    rw [hb.refs]
    abel
  rw [irisMessageUnref_of_refs hr]
  exact ⟨hb.misuses, rfl⟩

theorem txnStateFree_of_refs {txn : TxnState} (hr : c.refs = ids txn.msgs + V) :
    c.txnStateFree txn = { c with refs := V } := by
  unfold txnStateFree
  generalize txn.msgs = ms at hr ⊢
  induction ms generalizing c with
  | nil =>
    rw [ids_nil, zero_add] at hr
    rw [← hr]
    rfl
  | cons m ms ih =>
    rw [ids_cons, add_assoc] at hr
    rw [List.foldl_cons, irisMessageUnref_of_refs hr]
    exact ih rfl

/-- **The destruction of a transaction state** before it is removed from the table. -/
theorem Balanced.destroyTxn (hb : c.Balanced R) {id : ℕ}
    (hlog : ids s'.logTasks =
      ids ((c.storage.txnState.erase (h.firstWord id)).rows.flatMap TxnState.msgs))
    (hqueue : s'.txnCommits = c.storage.txnCommits) :
    ({ c.destroyTxn id with storage := s' } : Counted h).Balanced R := by
  unfold Counted.destroyTxn
  cases hl : c.storage.lookupTxn id with
  | none =>
    rw [Table.erase_of_find_none hl] at hlog
    refine ⟨hb.misuses, hb.refs.trans ?_⟩
    change _ = ids s'.logTasks + ids s'.txnCommits + R
    rw [hlog, hqueue]
    rfl
  | some txn =>
    have hr : c.refs = ids txn.msgs + (ids s'.logTasks + ids s'.txnCommits + R) := by
      rw [hb.refs, ids_logTasks hl, hlog, hqueue]
      abel
    dsimp only
    rw [txnStateFree_of_refs hr]
    exact ⟨hb.misuses, rfl⟩

theorem Balanced.of_ids (hb : c.Balanced R) (hlog : ids s'.logTasks = ids c.storage.logTasks)
    (hqueue : s'.txnCommits = c.storage.txnCommits) :
    ({ c with storage := s' } : Counted h).Balanced R where
  misuses := hb.misuses
  refs := by
    change c.refs = ids s'.logTasks + ids s'.txnCommits + R
    rw [hb.refs, hlog, hqueue]

theorem ids_logTasks_fail (s : Storage h) (t : StorageTask) :
    ids (storageTaskFail s t).logTasks = ids s.logTasks := by
  rw [logTasks_eq, logs_fail, ← logTasks_eq]

theorem Balanced.fail (hb : c.Balanced R) (t : StorageTask) :
    ({ c with storage := storageTaskFail c.storage t } : Counted h).Balanced R :=
  hb.of_ids (ids_logTasks_fail _ _) (txnCommits_fail _ _)

/-! ## Handlers -/

theorem balanced_handleSet (hb : c.Balanced R) (t : StorageTask) :
    (c.handleSet env t).Balanced R := by
  have hstep := handleSet_step env c.storage t
  unfold handleSet
  dsimp only
  generalize Catalina.handleSet env c.storage t = s' at hstep ⊢
  cases hstep with
  | closed e hc =>
    rw [if_neg (by simp [hc])]
    exact hb.fail _
  | unknown e _ _ _ hl =>
    rw [if_neg (by simp [hl])]
    exact hb.fail _
  | queued x hc h₀ hne hl =>
    rw [if_pos ⟨Option.isSome_iff_ne_none.mpr hc, ⟨h₀, hne⟩, by rw [hl]; rfl⟩]
    have hlog := ids_logTasks_modifyMsgs hl (t :: ·)
    rw [ids_cons, add_assoc, ← ids_logTasks hl] at hlog
    refine ⟨hb.misuses, ?_⟩
    change t.id ::ₘ c.refs = ids (c.storage.modifyMsgs t.txnId (t :: ·)).logTasks +
      ids c.storage.txnCommits + R
    rw [hlog, hb.refs, ← Multiset.singleton_add]
    abel
  | dropped _ h₀ _ =>
    rw [if_neg fun hcond => hcond.2.1.1 h₀]
    exact hb
  | failed e _ heq _ =>
    rw [if_neg fun hcond => hcond.2.1.2 heq]
    exact hb.fail _
  | stored r _ heq _ =>
    rw [if_neg fun hcond => hcond.2.1.2 heq]
    exact hb.of_ids rfl rfl

theorem balanced_runMsgs (id : ℕ) : ∀ (ms : List StorageTask) {c : Counted h}, c.Balanced R →
    (runMsgs env id ms c).1.Balanced R
  | [], _, hb => hb
  | m :: ms, c, hb => by
    rw [runMsgs]
    split_ifs
    · exact balanced_handleSet hb m
    · exact balanced_runMsgs id ms (balanced_handleSet hb m)

/-- **One commit** drops the reference it came with if it gets to the queue. -/
theorem balanced_commitTxn (env : Env) (hb : c.Balanced ({t.id} + R)) :
    (commitTxn env c t).1.Balanced (if (Catalina.commitTxn env c.storage t).2 then R
      else {t.id} + R) := by
  have hstep := commitTxn_step env c.storage t
  unfold commitTxn
  dsimp only
  generalize Catalina.commitTxn env c.storage t = p at hstep ⊢
  have hcur' : ∀ {s : Storage h}, s.txn = 0 ∨ s.txn = t.txnId → ¬ (s.txn ≠ 0 ∧ s.txn ≠ t.txnId) :=
    fun hcur hne => hcur.elim hne.1 hne.2
  cases hstep with
  | closed e hc =>
    rw [if_pos (by simp [hc])]
    exact hb.fail _
  | queued hc h₀ hne =>
    rw [if_neg (by simpa using hc), if_pos ⟨h₀, hne⟩]
    refine ⟨hb.misuses, ?_⟩
    change t.id ::ₘ c.refs =
      ids c.storage.logTasks + ids (c.storage.txnCommits ++ [t]) + ({t.id} + R)
    rw [hb.refs, ids_append, ids_cons, ids_nil, ← Multiset.singleton_add]
    abel
  | unknown e hc hcur hl =>
    rw [if_neg (by simpa using hc), if_neg (hcur' hcur), hl]
    exact hb.of_ids (ids_logTasks_fail _ _) (txnCommits_fail _ _)
  | notStarted x hc hcur hl hst =>
    rw [if_neg (by simpa using hc), if_neg (hcur' hcur), hl]
    dsimp only
    rw [if_pos (by simp [hst])]
    exact hb.of_ids (ids_logTasks_fail _ _) (txnCommits_fail _ _)
  | ran x e hc hcur hl hst =>
    rw [if_neg (by simpa using hc), if_neg (hcur' hcur), hl]
    dsimp only
    rw [if_neg (by simp [hst])]
    have hbegin : ({ c with storage := beginTxn c.storage t } : Counted h).Balanced ({t.id} + R) := by
      refine hb.of_ids ?_ rfl
      have hlog : ids (beginTxn c.storage t).logTasks = _ := ids_logTasks_modifyMsgs
        (s := { c.storage with txn := t.txnId, tdb := c.storage.tdb.transactionStart }) hl List.reverse
      rw [ids_reverse] at hlog
      exact hlog.trans (ids_logTasks hl).symm
    have hreplay : (runMsgs env t.txnId x.msgs.reverse
        ({ c with storage := beginTxn c.storage t } : Counted h)).1.Balanced ({t.id} + R) :=
      balanced_runMsgs _ _ hbegin
    have hs : (runMsgs env t.txnId x.msgs.reverse
        ({ c with storage := beginTxn c.storage t } : Counted h)).1.storage =
          (replay env c.storage t x).1 := storage_runMsgs _ _ _
    refine Balanced.unref (hreplay.destroyTxn ?_ ?_)
    · rw [hs]
      rfl
    · rw [hs]
      rfl

/-- **A commit that is taken off the queue** comes with the reference of the queue. -/
theorem Balanced.popCommit {t : StorageTask} {c' : Counted h} (hb : c.Balanced R)
    (hp : popCommit c = some (t, c')) : c'.Balanced ({t.id} + R) := by
  obtain ⟨p, hpop, heq⟩ := Option.map_eq_some_iff.mp hp
  cases heq
  obtain ⟨rest, hq, hrest⟩ := popCommit_eq hpop
  refine ⟨hb.misuses, ?_⟩
  rw [hrest]
  change c.refs = ids c.storage.logTasks + ids rest + ({p.1.id} + R)
  rw [hb.refs, hq, ids_cons]
  abel

end Balanced

end Counted

/-! ## Commits that are left early -/

/-- The commits that `handle_txn_commit` returns from before it gets to the queue, when it is called
for `t` with `n` pending commits. -/
def leftEarly (env : Env) : ℕ → Storage h → StorageTask → List StorageTask
  | 0, s, t => if (commitTxn env s t).2 then [] else [t]
  | n + 1, s, t =>
    if (commitTxn env s t).2 then
      match popCommit (commitTxn env s t).1 with
      | none => []
      | some (t', s') => leftEarly env n s' t'
    else [t]

namespace Counted

variable {env : Env} {R : Multiset ℕ}

/-- **The worker** leaves a reference to the commit at which it stops early, and none to the others
that it works on. -/
theorem balanced_drain : ∀ (n : ℕ) {c : Counted h} {t : StorageTask}, c.Balanced ({t.id} + R) →
    (drain (commitTxn env) popCommit n c t).Balanced (ids (leftEarly env n c.storage t) + R)
  | 0, c, t, hb => by
    have hwork := balanced_commitTxn env hb
    rw [drain, leftEarly]
    split_ifs at hwork ⊢
    · rwa [ids_nil, zero_add]
    · exact hwork
  | n + 1, c, t, hb => by
    have hwork := balanced_commitTxn env hb
    have hstorage := storage_commitTxn env c t
    have hgets : (commitTxn env c t).2 = (Catalina.commitTxn env c.storage t).2 :=
      (congrArg Prod.snd hstorage).symm
    rw [drain, leftEarly, hgets]
    split_ifs at hwork ⊢
    · rw [hstorage]
      dsimp only
      rw [storage_popCommit]
      cases hp : popCommit (commitTxn env c t).1 with
      | none =>
        rw [Option.map_none]
        dsimp only
        rwa [ids_nil, zero_add]
      | some p => exact balanced_drain n (hwork.popCommit hp)
    · exact hwork

end Counted

/-- The commits that have kept a reference of their own after a message. -/
def abandoned (env : Env) (s : Storage h) (t : StorageTask) : List StorageTask :=
  if t.what = .messageTxnCommit then leftEarly env s.txnCommits.length s t else []

/-- The commits that have kept one after a run. -/
def abandons (env : Env) : Storage h → List StorageTask → List StorageTask
  | _, [] => []
  | s, t :: ts => abandoned env s t ++ abandons env (handleMessage env s t) ts

namespace Counted

variable {env : Env} {R : Multiset ℕ} {c : Counted h} {t : StorageTask}

/-! ## Messages -/

theorem balanced_handleTxnCancel (hb : c.Balanced R) (t : StorageTask) :
    (c.handleTxnCancel t).Balanced R := by
  unfold handleTxnCancel
  dsimp only
  by_cases hc : c.storage.tdb.ctx.isNone
  · have hs : Catalina.handleTxnCancel c.storage t = storageTaskFail c.storage t := if_pos hc
    rw [if_pos hc, hs]
    exact hb.fail t
  · have hs : Catalina.handleTxnCancel c.storage t = match c.storage.lookupTxn t.txnId with
        | none => storageTaskSucceed c.storage t
        | some _ => storageTaskSucceed { c.storage with
            txnState := c.storage.txnState.erase (h.firstWord t.txnId) } t := if_neg hc
    rw [if_neg hc, hs]
    cases hl : c.storage.lookupTxn t.txnId with
    | none => exact hb.destroyTxn (by rw [Table.erase_of_find_none hl]; rfl) rfl
    | some txn => exact hb.destroyTxn rfl rfl

theorem balanced_handleTxnBegin (hb : c.Balanced R) (t : StorageTask) :
    (c.handleTxnBegin t).Balanced R := by
  unfold handleTxnBegin
  dsimp only
  by_cases hc : c.storage.tdb.ctx.isNone
  · have hs : Catalina.handleTxnBegin c.storage t = storageTaskFail c.storage t := if_pos hc
    rw [if_pos hc, hs]
    exact hb.fail t
  · have hs : Catalina.handleTxnBegin c.storage t = storageTaskSucceed
        { c.storage with
          txnSeq := h.incFirstWord c.storage.txnSeq
          txnState := c.storage.txnState.insert { txnId := h.incFirstWord c.storage.txnSeq } }
        { t with
          value := some (h.incFirstWord c.storage.txnSeq)
          txnId := h.incFirstWord c.storage.txnSeq } := if_neg hc
    rw [if_neg hc, hs]
    exact hb.destroyTxn rfl rfl

theorem balanced_handleOpen (hb : c.Balanced R) (hs : c.storage.Inv)
    (hq : c.storage.tdb.ctx = none → c.storage.txnCommits = []) (t : StorageTask) :
    (c.handleOpen env t).Balanced R := by
  unfold handleOpen
  by_cases hc : c.storage.tdb.ctx.isSome
  · have hfail : Catalina.handleOpen env c.storage t =
        storageTaskFail c.storage (t.setError ⟨.storageState, "Storage already opened"⟩) := if_pos hc
    dsimp only
    rw [if_pos hc, hfail]
    exact hb.fail _
  · have hnone : c.storage.tdb.ctx = none := Option.not_isSome_iff_eq_none.mp hc
    have hrows := (hs.closed hnone).2
    have hlog : c.storage.logTasks = [] := by
      rw [Storage.logTasks, hrows, List.flatMap_nil]
    dsimp only
    rw [if_neg hc, hq hnone, hrows]
    dsimp only
    rw [List.foldl_nil]
    unfold Catalina.handleOpen
    rw [if_neg hc, if_neg (not_not.mpr (hq hnone))]
    dsimp only
    split_ifs
    · exact hb.of_ids (by rw [hlog]; rfl) (hq hnone).symm
    · refine hb.of_ids ((ids_logTasks_fail _ _).trans ?_) ((txnCommits_fail _ _).trans
        (hq hnone).symm)
      rw [hlog]
      rfl

theorem balanced_others (hb : c.Balanced R)
    (hw : t.what = .messageClose ∨ t.what = .messageGet ∨ t.what = .messageCountKeys) :
    ({ c with storage := Catalina.handleMessage env c.storage t } : Counted h).Balanced R := by
  have hstep := handleMessage_step env c.storage t
  generalize Catalina.handleMessage env c.storage t = s' at hstep ⊢
  cases hstep with
  | stopped _ => exact hb
  | failed t' _ _ _ _ => exact hb.fail t'
  | answered t' _ _ _ => exact hb.of_ids rfl rfl
  | closed _ _ _ _ => exact hb.of_ids rfl rfl
  | set hw' _ | commit hw' _ => simp [hw'] at hw
  | notOpened _ hw' _ _ _ | opened hw' _ _ _ | ended hw' _ _ => simp [hw'] at hw
  | began hw' _ | cancelled x hw' _ _ => simp [hw'] at hw

/-- **A message that is received** leaves no reference but that of a commit left early. -/
theorem balanced_receive (hb : c.Balanced R) (hs : c.storage.Inv) (hrun : c.storage.stopped = false)
    (hq : OpensQuiet c.storage t) :
    (c.receive env t).Balanced (ids (abandoned env c.storage t) + R) := by
  have href : (c.irisMessageRef t).Balanced ({t.id} + R) := hb.ref t
  have hgoes : ((c.irisMessageRef t).handleMessage env t).storage.stopped = false := by
    rw [storage_handleMessage env (c := c.irisMessageRef t) hrun]
    exact running_handleMessage hrun hq
  have hreceive : c.receive env t = ((c.irisMessageRef t).handleMessage env t).irisMessageUnref t := by
    unfold receive
    dsimp only
    rw [if_neg (by simp [hrun]), if_neg (by simp [hgoes])]
  rw [hreceive]
  refine Balanced.unref ?_
  rw [add_left_comm]
  unfold handleMessage abandoned
  cases hw : t.what with
  | messageTxnCommit =>
    rw [if_pos rfl]
    exact balanced_drain _ (href.ref t)
  | messageOpen =>
    rw [if_neg (by decide), ids_nil, zero_add]
    exact balanced_handleOpen href hs (hq hw) t
  | messageSet =>
    rw [if_neg (by decide), ids_nil, zero_add]
    exact balanced_handleSet href t
  | messageTxnBegin =>
    rw [if_neg (by decide), ids_nil, zero_add]
    exact balanced_handleTxnBegin href t
  | messageTxnCancel =>
    rw [if_neg (by decide), ids_nil, zero_add]
    exact balanced_handleTxnCancel href t
  | messageClose =>
    rw [if_neg (by decide), ids_nil, zero_add]
    exact balanced_others href (Or.inl hw)
  | messageGet =>
    rw [if_neg (by decide), ids_nil, zero_add]
    exact balanced_others href (Or.inr (Or.inl hw))
  | messageCountKeys =>
    rw [if_neg (by decide), ids_nil, zero_add]
    exact balanced_others href (Or.inr (Or.inr hw))

end Counted

/-! ## Runs -/

namespace Counted

theorem storage_run (env : Env) : ∀ (ts : List StorageTask) (c : Counted h),
    (ts.foldl (receive env) c).storage = run env c.storage ts
  | [], _ => rfl
  | t :: ts, c => by
    rw [List.foldl_cons, storage_run env ts, storage_receive]
    rfl

theorem balanced_run {env : Env} : ∀ (ts : List StorageTask) {c : Counted h} {R : Multiset ℕ},
    c.Balanced R → c.storage.Inv → c.storage.stopped = false →
      Along (Catalina.handleMessage env) OpensQuiet c.storage ts →
        (ts.foldl (receive env) c).Balanced (ids (abandons env c.storage ts) + R)
  | [], c, R, hb, _, _, _ => by rwa [abandons, ids_nil, zero_add]
  | t :: ts, c, R, hb, hs, hrun, hq => by
    have hstorage := storage_receive env c t
    have ih := balanced_run ts (c := c.receive env t) (balanced_receive hb hs hrun hq.1)
      (by rw [hstorage]; exact inv_handleMessage hs t)
      (by rw [hstorage]; exact running_handleMessage hrun hq.1) (by rw [hstorage]; exact hq.2)
    rw [hstorage, ← add_assoc, add_comm (ids _) (ids (abandoned env c.storage t)),
      ← ids_append] at ih
    exact ih

/-! ## Misuses stay -/

section Misuses

variable {env : Env} {c c' : Counted h} {t : StorageTask}

theorem misuses_of_eq (heq : c'.misuses = c.misuses) : c.misuses <+: c'.misuses :=
  ⟨[], (List.append_nil _).trans heq.symm⟩

theorem misuses_irisMessageUnref (c : Counted h) (t : StorageTask) :
    c.misuses <+: (c.irisMessageUnref t).misuses := by
  unfold irisMessageUnref
  split_ifs
  · exact List.prefix_refl _
  · exact List.prefix_append _ _

theorem misuses_foldl {α : Type} {f : Counted h → α → Counted h}
    (hf : ∀ c a, c.misuses <+: (f c a).misuses) :
    ∀ (l : List α) (c : Counted h), c.misuses <+: (l.foldl f c).misuses
  | [], _ => List.prefix_refl _
  | a :: l, c => (hf c a).trans (misuses_foldl hf l (f c a))

theorem misuses_txnStateFree (c : Counted h) (txn : TxnState) :
    c.misuses <+: (c.txnStateFree txn).misuses := misuses_foldl misuses_irisMessageUnref _ c

theorem misuses_destroyTxn (c : Counted h) (id : ℕ) : c.misuses <+: (c.destroyTxn id).misuses := by
  unfold destroyTxn
  cases c.storage.lookupTxn id with
  | none => exact List.prefix_refl _
  | some txn => exact misuses_txnStateFree c txn

theorem misuses_handleSet (env : Env) (c : Counted h) (t : StorageTask) :
    (c.handleSet env t).misuses = c.misuses := by
  unfold handleSet
  dsimp only
  split_ifs <;> rfl

theorem misuses_runMsgs (id : ℕ) : ∀ (ms : List StorageTask) (c : Counted h),
    (runMsgs env id ms c).1.misuses = c.misuses
  | [], _ => rfl
  | m :: ms, c => by
    rw [runMsgs]
    split_ifs
    · exact misuses_handleSet env c m
    · exact (misuses_runMsgs id ms _).trans (misuses_handleSet env c m)

theorem misuses_commitTxn (env : Env) (c : Counted h) (t : StorageTask) :
    c.misuses <+: (commitTxn env c t).1.misuses := by
  unfold commitTxn
  dsimp only
  split_ifs
  · exact List.prefix_refl _
  · exact List.prefix_refl _
  · cases c.storage.lookupTxn t.txnId with
    | none => exact List.prefix_refl _
    | some txn =>
      refine List.IsPrefix.trans ?_ (misuses_irisMessageUnref _ t)
      dsimp only
      refine List.IsPrefix.trans ?_ (misuses_destroyTxn _ t.txnId)
      exact misuses_of_eq (misuses_runMsgs _ _ _)
  · cases c.storage.lookupTxn t.txnId with
    | none => exact List.prefix_refl _
    | some txn => exact List.prefix_refl _

theorem misuses_handleTxnCommit (env : Env) (c : Counted h) (t : StorageTask) :
    c.misuses <+: (c.handleTxnCommit env t).misuses := by
  have hwork : ∀ (c' : Counted h) (t' : StorageTask), c.misuses <+: c'.misuses → True →
      c.misuses <+: (commitTxn env c' t').1.misuses :=
    fun c' t' hc' _ => hc'.trans (misuses_commitTxn env c' t')
  have hpop : ∀ (c' : Counted h) (t' : StorageTask) (c'' : Counted h), c.misuses <+: c'.misuses →
      popCommit c' = some (t', c'') → c.misuses <+: c''.misuses := by
    intro c' t' c'' hc' hp
    obtain ⟨p, -, heq⟩ := Option.map_eq_some_iff.mp hp
    cases heq
    exact hc'
  exact EachCall.invariant hwork hpop (List.prefix_refl _)
    (EachCall.of_forall (fun _ _ => trivial) _ _ _)

theorem misuses_handleOpen (env : Env) (c : Counted h) (t : StorageTask) :
    c.misuses <+: (c.handleOpen env t).misuses := by
  unfold handleOpen
  dsimp only
  split_ifs
  · exact List.prefix_refl _
  · cases c.storage.txnCommits with
    | nil => exact misuses_foldl misuses_txnStateFree c.storage.txnState.rows c
    | cons m rest => exact List.prefix_append _ _

theorem misuses_handleMessage (env : Env) (c : Counted h) (t : StorageTask) :
    c.misuses <+: (c.handleMessage env t).misuses := by
  unfold handleMessage
  cases t.what with
  | messageOpen => exact misuses_handleOpen env c t
  | messageSet => exact misuses_of_eq (misuses_handleSet env c t)
  | messageTxnBegin =>
    dsimp only
    unfold handleTxnBegin
    dsimp only
    split_ifs
    · exact List.prefix_refl _
    · exact misuses_destroyTxn c _
  | messageTxnCommit => exact misuses_handleTxnCommit env (c.irisMessageRef t) t
  | messageTxnCancel =>
    dsimp only
    unfold handleTxnCancel
    dsimp only
    split_ifs
    · exact List.prefix_refl _
    · exact misuses_destroyTxn c _
  | messageClose | messageGet | messageCountKeys => exact List.prefix_refl _

theorem misuses_receive (env : Env) (c : Counted h) (t : StorageTask) :
    c.misuses <+: (c.receive env t).misuses := by
  have hmore := misuses_handleMessage env (c.irisMessageRef t) t
  unfold receive
  dsimp only
  split_ifs
  · exact List.prefix_refl _
  · exact hmore
  · exact hmore.trans (misuses_irisMessageUnref _ t)

/-- **An open that finds a queue** misuses the first message in it. -/
theorem opensQuiet_of_misuses (hrun : c.storage.stopped = false)
    (hm : (c.receive env t).misuses = []) : OpensQuiet c.storage t := by
  intro hw hc
  cases hq : c.storage.txnCommits with
  | nil => rfl
  | cons m rest =>
    have hhandle : (c.irisMessageRef t).handleMessage env t =
        (c.irisMessageRef t).handleOpen env t := by
      unfold handleMessage
      rw [hw]
    have hopen : (c.irisMessageRef t).handleOpen env t =
        { c.irisMessageRef t with
          storage := Catalina.handleOpen env c.storage t
          misuses := c.misuses ++ [.freedAsTxnState m.id] } := by
      unfold handleOpen irisMessageRef
      dsimp only
      rw [if_neg (by simp [hc]), hq]
    have hended : Catalina.handleOpen env c.storage t = { c.storage with stopped := true } := by
      unfold Catalina.handleOpen
      rw [if_neg (by simp [hc]), if_pos (by simp [hq])]
    unfold receive at hm
    rw [if_neg (by simp [hrun]), hhandle, hopen, hended, if_pos rfl] at hm
    exact absurd hm (List.append_ne_nil_of_right_ne_nil _ (List.cons_ne_nil _ _))

theorem opensQuiet_run : ∀ (ts : List StorageTask) {c : Counted h}, c.storage.stopped = false →
    (ts.foldl (receive env) c).misuses = [] →
      Along (Catalina.handleMessage env) OpensQuiet c.storage ts
  | [], _, _, _ => trivial
  | t :: ts, c, hrun, hm => by
    have hfirst : (c.receive env t).misuses = [] := by
      have hmore := misuses_foldl (misuses_receive env) ts (c.receive env t)
      rw [List.foldl_cons] at hm
      rwa [hm, List.prefix_nil] at hmore
    have hquiet := opensQuiet_of_misuses hrun hfirst
    refine ⟨hquiet, ?_⟩
    rw [← storage_receive]
    refine opensQuiet_run ts ?_ hm
    rw [storage_receive]
    exact running_handleMessage hrun hquiet

end Misuses

end Counted

theorem leftEarly_commits {env : Env} : ∀ (n : ℕ) {s : Storage h} {t : StorageTask}, s.Inv →
    t.what = .messageTxnCommit → ∀ m ∈ leftEarly env n s t, m.what = .messageTxnCommit
  | 0, s, t, _, hw, m, hm => by
    rw [leftEarly] at hm
    split_ifs at hm
    · cases hm
    · rwa [List.mem_singleton.mp hm]
  | n + 1, s, t, hs, hw, m, hm => by
    rw [leftEarly] at hm
    split_ifs at hm
    · cases hp : popCommit (commitTxn env s t).1 with
      | none =>
        rw [hp] at hm
        cases hm
      | some p =>
        rw [hp] at hm
        obtain ⟨hs', hw'⟩ := inv_popCommit (inv_commitTxn hs hw) hp
        exact leftEarly_commits n hs' hw' m hm
    · rwa [List.mem_singleton.mp hm]

theorem abandons_commits {env : Env} : ∀ (ts : List StorageTask) {s : Storage h}, s.Inv →
    ∀ m ∈ abandons env s ts, m.what = .messageTxnCommit
  | [], _, _, m, hm => absurd hm List.not_mem_nil
  | t :: ts, s, hs, m, hm => by
    rcases List.mem_append.mp hm with hm | hm
    · unfold abandoned at hm
      split_ifs at hm with hw
      · exact leftEarly_commits _ hs hw m hm
      · cases hm
    · exact abandons_commits ts (inv_handleMessage hs t) m hm

/-- **The references to the messages, over a run.** Nothing goes wrong with a message exactly if no
open finds a commit in the queue. Then there is one reference for each place in which a log or the
queue holds a message, and one for each time that `handle_txn_commit` has returned from a commit
before it got to the queue, which nothing drops; and no other. -/
theorem references_accounted (env : Env) (disk : Bytes → Records) (ts : List StorageTask) :
    let c := ts.foldl (Counted.receive env) { storage := catalinaStorageInit h disk }
    c.storage = run env (catalinaStorageInit h disk) ts ∧
      (c.misuses = [] ↔
        Along (handleMessage env) OpensQuiet (catalinaStorageInit h disk) ts) ∧
      (c.misuses = [] → c.refs = ids c.storage.logTasks + ids c.storage.txnCommits +
        ids (abandons env (catalinaStorageInit h disk) ts)) ∧
      ∀ m ∈ abandons env (catalinaStorageInit h disk) ts, m.what = .messageTxnCommit := by
  intro c
  have hinit : ({ storage := catalinaStorageInit h disk } : Counted h).Balanced 0 := ⟨rfl, rfl⟩
  have hquiet : c.misuses = [] → Along (handleMessage env) OpensQuiet (catalinaStorageInit h disk) ts :=
    fun hm => Counted.opensQuiet_run ts rfl hm
  have hbalanced : Along (handleMessage env) OpensQuiet (catalinaStorageInit h disk) ts →
      c.Balanced (ids (abandons env (catalinaStorageInit h disk) ts) + 0) :=
    fun hq => Counted.balanced_run ts hinit (inv_init disk) rfl hq
  refine ⟨Counted.storage_run env ts _, ⟨hquiet, fun hq => (hbalanced hq).misuses⟩, fun hm => ?_,
    abandons_commits ts (inv_init disk)⟩
  rw [(hbalanced (hquiet hm)).refs, add_zero]

/-- A set in a transaction, its commit, and a commit that names no transaction. -/
def commitUnknown : List StorageTask :=
  [openTask 0 [47], beginTask 1, setTask 2 1 [1] [10], commitTask 3 1, commitTask 4 9]

theorem references_accounted_commitUnknown :
    let c := commitUnknown.foldl (Counted.receive fun _ => {})
      { storage := catalinaStorageInit lp64 fun _ => ∅ }
    c.misuses = [] ∧ c.refs = ids c.storage.logTasks + ids c.storage.txnCommits +
      ids (abandons (fun _ => {}) (catalinaStorageInit lp64 fun _ => ∅) commitUnknown) :=
  ⟨by decide, (references_accounted _ _ commitUnknown).2.2.1 (by decide)⟩

/-- The transaction of the commit 2 does not start, so that the commits 3 and 4 are queued. The
commit 5 takes the one that names no transaction off the queue, and leaves the other one there. -/
def reopenQueued : List StorageTask :=
  [openTask 0 [47], beginTask 1, commitTask 2 1, commitTask 3 0, commitTask 4 7, commitTask 5 1,
    closeTask 6, openTask 7 [47]]

/-- **A message is freed as a transaction state.** -/
theorem queued_commit_corrupts :
    (reopenQueued.foldl (Counted.receive fun i => { tdbTransactionStart := i != 2 })
      { storage := catalinaStorageInit lp64 fun _ => ∅ }).misuses = [.freedAsTxnState 4] := by
  decide

end Catalina
