import Mathlib.Algebra.Order.Group.Multiset
import Mathlib.Tactic.Abel
import Catalina.Storage.Replay

/-!
# Where the tasks are

Every task given to the storage is answered, held in a log or held in the queue of commits, unless a
cancel discards it. The handlers lose tasks where they return without an answer or free a list that
still holds some.

* `Storage.held`: the ids of the tasks in these places, each counted as often as it occurs.
* `Conserving`: the condition on one message; `held_handleMessage`: what it does to `held`.
* **`tasks_accounted`**: every run of conserving messages keeps account of all its tasks and
  answers the sets of every transaction whose commit it answers.
* `set_lost`: a plain set that is lost.
-/

namespace Catalina

variable {h : Host} {env : Env}

/-- The ids of a list of tasks. -/
def ids (ts : List StorageTask) : Multiset ℕ := ↑(ts.map StorageTask.id)

@[simp] theorem ids_nil : ids [] = 0 := rfl

@[simp] theorem ids_cons (t : StorageTask) (ts : List StorageTask) :
    ids (t :: ts) = {t.id} + ids ts := rfl

@[simp] theorem ids_append (ts us : List StorageTask) : ids (ts ++ us) = ids ts + ids us := by
  simp only [ids, List.map_append, Multiset.coe_add]

@[simp] theorem ids_reverse (ts : List StorageTask) : ids ts.reverse = ids ts := by
  simp only [ids, List.map_reverse, Multiset.coe_reverse]

/-- The tasks in the logs. -/
def Storage.logTasks (s : Storage h) : List StorageTask := s.txnState.rows.flatMap TxnState.msgs

/-- The tasks that are answered, in a log or in the queue. -/
def Storage.held (s : Storage h) : Multiset ℕ :=
  ids s.replies + ids s.logTasks + ids s.txnCommits

/-! ## Logs -/

theorem logTasks_eq (s : Storage h) : s.logTasks = s.logs.flatMap Prod.snd := by
  unfold Storage.logTasks Storage.logs
  rw [List.flatMap_map]

theorem held_fail (s : Storage h) (t : StorageTask) :
    (storageTaskFail s t).held = s.held + {t.id} := by
  unfold Storage.held
  rw [replies_fail, txnCommits_fail, logTasks_eq, logs_fail, ← logTasks_eq, ids_append, ids_cons,
    ids_nil]
  abel

theorem held_complete (s : Storage h) (t : StorageTask) (b : Bool) :
    (storageTaskComplete s t b).held = s.held + {t.id} := by
  unfold Storage.held
  rw [replies_complete, ids_append, ids_cons, ids_nil]
  change _ + _ + ids s.logTasks + ids s.txnCommits = _
  abel

theorem ids_logTasks {s : Storage h} {id : ℕ} {x : TxnState} (hl : s.lookupTxn id = some x) :
    ids s.logTasks =
      ids x.msgs + ids ((s.txnState.erase (h.firstWord id)).rows.flatMap TxnState.msgs) := by
  rw [← ids_append, ← List.flatMap_cons]
  exact Multiset.coe_eq_coe.mpr (((Table.rows_perm hl).flatMap_right TxnState.msgs).map _)

theorem ids_logTasks_modifyMsgs {s : Storage h} {id : ℕ} {x : TxnState}
    (hl : s.lookupTxn id = some x) (f : List StorageTask → List StorageTask) :
    ids (s.modifyMsgs id f).logTasks =
      ids (f x.msgs) + ids ((s.txnState.erase (h.firstWord id)).rows.flatMap TxnState.msgs) := by
  have hp : (s.modifyMsgs id f).txnState.rows.Perm
      ({ x with msgs := f x.msgs } :: (s.txnState.erase (h.firstWord id)).rows) :=
    Table.rows_modify_perm hl _ fun x => x.key_msgs h (f x.msgs)
  rw [← ids_append]
  exact Multiset.coe_eq_coe.mpr ((hp.flatMap_right TxnState.msgs).map _)

/-! ## Sets -/

theorem held_handleSet {s : Storage h} {t : StorageTask}
    (hg : s.tdb.ctx ≠ none → t.txnId = 0 → s.txn = 0) :
    (handleSet env s t).held = s.held + {t.id} := by
  have h₁ := handleSet_step env s t
  generalize handleSet env s t = s' at h₁ ⊢
  cases h₁ with
  | closed e _ => exact held_fail s _
  | unknown e _ _ _ _ => exact held_fail s _
  | queued x _ _ _ hl =>
    have hlog := ids_logTasks_modifyMsgs hl (t :: ·)
    rw [ids_cons, add_assoc, ← ids_logTasks hl] at hlog
    unfold Storage.held
    rw [hlog]
    change ids s.replies + _ + ids s.txnCommits = _
    abel
  | dropped hc h₀ hne => exact absurd (hg hc h₀) hne
  | failed e _ _ _ => exact held_fail s _
  | stored r _ _ _ => exact held_complete { s with tdb := s.tdb.store t.key r } t true

theorem handleSet_answers (env : Env) {s : Storage h} {m : StorageTask} (hc : s.tdb.ctx ≠ none)
    (hm : m.txnId = s.txn) :
    ∃ r : StorageTask, r.id = m.id ∧ (handleSet env s m).replies = s.replies ++ [r] ∧
      (handleSet env s m).txnState.erase (h.firstWord s.txn) =
        s.txnState.erase (h.firstWord s.txn) := by
  have h₁ := handleSet_step env s m
  generalize handleSet env s m = s' at h₁ ⊢
  cases h₁ with
  | closed e hc' => exact absurd hc' hc
  | unknown e _ _ hne _ => exact absurd hm.symm hne
  | queued x _ _ hne _ => exact absurd hm.symm hne
  | dropped _ h₀ hne => exact absurd (hm.symm.trans h₀) hne
  | failed e _ _ _ =>
    refine ⟨{ m.setError e with success := false }, rfl, replies_fail s (m.setError e), ?_⟩
    unfold storageTaskFail
    split_ifs
    · rw [← hm]
      exact txnState_setTxnError_erase s m.txnId _
    · rfl
  | stored r _ _ _ => exact ⟨{ m with success := true }, rfl, rfl, rfl⟩

/-! ## Replays -/

/-- **A replay answers every set of its log** if none but the last can stop it. -/
theorem runMsgs_answers (env : Env) (i : ℕ) : ∀ (ms : List StorageTask) {s : Storage h}, s.txn = i →
    s.tdb.ctx ≠ none → (∀ m ∈ ms, m.txnId = i) → (∀ m ∈ ms.dropLast, Storable env m) →
    (ms.dropLast ≠ [] → s.slotError i = none) →
      ∃ rs, (runMsgs env i ms s).1.replies = s.replies ++ rs ∧ ids rs = ids ms ∧
        (runMsgs env i ms s).1.txnState.erase (h.firstWord i) = s.txnState.erase (h.firstWord i)
  | [], s, _, _, _, _, _ => ⟨[], (List.append_nil _).symm, rfl, rfl⟩
  | [m], s, hi, hc, hms, _, _ => by
    obtain ⟨r, hid, hr, he⟩ := handleSet_answers env hc
      ((hms m List.mem_cons_self).trans hi.symm)
    rw [hi] at he
    refine ⟨[r], ?_, by rw [ids_cons, ids_cons, hid], ?_⟩
    · rw [runMsgs_cons]
      split_ifs <;> exact hr
    · rw [runMsgs_cons]
      split_ifs <;> exact he
  | m :: m' :: ms, s, hi, hc, hms, hst, hslot => by
    have hf := frame_handleSet env s m
    have hm : m.txnId = s.txn := (hms m List.mem_cons_self).trans hi.symm
    obtain ⟨r, hid, hr, he⟩ := handleSet_answers env hc hm
    obtain ⟨hok, _⟩ := handleSet_ok hc fun _ => hst m List.mem_cons_self
    have hnone : (handleSet env s m).slotError i = none :=
      (hok i).trans (hslot (List.cons_ne_nil _ _))
    obtain ⟨rs, hrs, hids, her⟩ := runMsgs_answers env i (m' :: ms) (hf.txn.trans hi)
      (ctx_of_file hf.file hc) (fun m hm => hms m (List.mem_cons_of_mem _ hm))
      (fun m hm => hst m (List.mem_cons_of_mem _ hm)) fun _ => hnone
    rw [hi] at he
    rw [runMsgs_cons, hnone, if_neg (by simp)]
    refine ⟨r :: rs, ?_, ?_, her.trans he⟩
    · rw [hrs, hr, List.append_assoc, List.singleton_append]
    · rw [ids_cons, ids_cons, hid, hids]

/-! ## Commits -/

/-- Every set of the log that the commit `t` works on names the transaction, none but the last one
posted can stop the replay, and the replay starts unless the log is empty. -/
def ConservingCommit (env : Env) (s : Storage h) (t : StorageTask) : Prop :=
  ∀ x, s.tdb.ctx ≠ none → (s.txn = 0 ∨ s.txn = t.txnId) → s.lookupTxn t.txnId = some x →
    (∀ m ∈ x.msgs, m.txnId = t.txnId) ∧ (x.msgs ≠ [] → (env t.id).tdbTransactionStart = true) ∧
      (∀ m ∈ x.msgs.tail, Storable env m) ∧ (x.msgs.tail ≠ [] → x.error = none)

/-- If the commit `t` is answered, so is every set of the transaction it names. -/
def AnswersItsSets (env : Env) (s : Storage h) (t : StorageTask) : Prop :=
  (commitTxn env s t).1.replies ≠ s.replies → ∀ x, s.lookupTxn t.txnId = some x → ∀ m ∈ x.msgs,
    ∃ r ∈ (commitTxn env s t).1.replies.drop s.replies.length, r.id = m.id

theorem replay_answers {s : Storage h} {t : StorageTask} {x : TxnState} (hc : s.tdb.ctx ≠ none)
    (hcur : s.txn = 0 ∨ s.txn = t.txnId) (hl : s.lookupTxn t.txnId = some x)
    (hg : ConservingCommit env s t) :
    ∃ rs, (replay env s t x).1.replies = s.replies ++ rs ∧ ids rs = ids x.msgs ∧
      (replay env s t x).1.txnState.erase (h.firstWord t.txnId) =
        s.txnState.erase (h.firstWord t.txnId) := by
  obtain ⟨hms, _, hst, he⟩ := hg x hc hcur hl
  have hdrop : x.msgs.reverse.dropLast = x.msgs.tail.reverse := List.dropLast_reverse
  have hctx : (beginTxn s t).tdb.ctx ≠ none := ctx_beginTxn hc t
  obtain ⟨rs, hrs, hids, her⟩ := runMsgs_answers env t.txnId x.msgs.reverse rfl hctx
    (fun m hm => hms m (List.mem_reverse.mp hm))
    (by rw [hdrop]; exact fun m hm => hst m (List.mem_reverse.mp hm))
    (by rw [hdrop, slotError_beginTxn hl]; exact fun hn => he fun hn' => hn (by rw [hn']; rfl))
  refine ⟨rs, hrs, hids.trans (ids_reverse _), her.trans ?_⟩
  exact Table.erase_modify s.txnState _ _ fun x => x.key_msgs h x.msgs.reverse

theorem held_commitTxn {s : Storage h} {t : StorageTask} (hg : ConservingCommit env s t) :
    (commitTxn env s t).1.held = s.held + {t.id} := by
  have h₁ := commitTxn_step env s t
  generalize commitTxn env s t = p at h₁ ⊢
  cases h₁ with
  | closed e _ => exact held_fail s _
  | queued _ _ _ =>
    change ids s.replies + ids s.logTasks + ids (s.txnCommits ++ [t]) = _
    rw [ids_append, ids_cons, ids_nil]
    unfold Storage.held
    abel
  | unknown e _ _ _ => exact held_fail { s with txn := t.txnId } _
  | notStarted x _ _ _ _ => exact held_fail { s with txn := t.txnId } _
  | ran x e hc hcur hl _ =>
    obtain ⟨rs, hrs, hids, her⟩ := replay_answers hc hcur hl hg
    unfold Storage.held
    rw [replies_afterCommit, txnCommits_afterCommit, hrs, ids_logTasks hl, ← hids]
    change _ + ids (((replay env s t x).1.txnState.erase (h.firstWord t.txnId)).rows.flatMap
      TxnState.msgs) + _ = _
    rw [her, ids_append, ids_append, ids_cons, ids_nil]
    change ids s.replies + ids rs + ({t.id} + 0) + _ + _ = _
    abel

theorem commitTxn_answers {s : Storage h} {t : StorageTask} (hs : s.Inv)
    (hg : ConservingCommit env s t) : AnswersItsSets env s t := by
  intro hne x hx m hm
  have h₁ := commitTxn_step env s t
  generalize commitTxn env s t = p at h₁ hne ⊢
  cases h₁ with
  | closed e hc =>
    rw [lookupTxn_of_closed hs hc] at hx
    cases hx
  | queued _ _ _ => exact absurd rfl hne
  | unknown e _ _ hl =>
    rw [hl] at hx
    cases hx
  | notStarted y hc hcur _ hst =>
    have hstart := (hg x hc hcur hx).2.1 (List.ne_nil_of_mem hm)
    rw [hst] at hstart
    cases hstart
  | ran y e hc hcur hl _ =>
    obtain rfl : y = x := Option.some.inj (hl.symm.trans hx)
    obtain ⟨rs, hrs, hids, _⟩ := replay_answers hc hcur hl hg
    have hmem : m.id ∈ ids rs := by
      rw [hids]
      exact Multiset.mem_coe.mpr (List.mem_map_of_mem hm)
    obtain ⟨r, hr, hrid⟩ := List.mem_map.mp (Multiset.mem_coe.mp hmem)
    refine ⟨r, ?_, hrid⟩
    rw [replies_afterCommit, hrs, List.append_assoc, List.drop_left]
    exact List.mem_append_left _ hr

/-! ## Messages -/

/-- The sets that the message `t` discards. -/
def discarded (s : Storage h) (t : StorageTask) : List StorageTask :=
  if t.what = .messageTxnCancel ∧ s.tdb.ctx.isSome then
    match s.lookupTxn t.txnId with
    | none => []
    | some x => x.msgs
  else []

/-- The condition on one message. A set without a transaction needs no transaction to be current, a
begin an id that is not in use by a transaction with sets, a cancel a log of its own transaction's
sets, an open an empty queue. -/
def Conserving (env : Env) (s : Storage h) (t : StorageTask) : Prop :=
  match t.what with
  | .messageSet => s.tdb.ctx ≠ none → t.txnId = 0 → s.txn = 0
  | .messageTxnBegin => ∀ x, s.lookupTxn (h.incFirstWord s.txnSeq) = some x → x.msgs = []
  | .messageTxnCommit => EachCommit ConservingCommit env s t
  | .messageTxnCancel => ∀ m ∈ discarded s t, m.txnId = t.txnId
  | .messageOpen => s.tdb.ctx = none → s.txnCommits = []
  | _ => True

theorem held_popCommit {s s' : Storage h} {t : StorageTask} (hp : popCommit s = some (t, s')) :
    s'.held + {t.id} = s.held := by
  obtain ⟨rest, hq, rfl⟩ := popCommit_eq hp
  unfold Storage.held
  rw [hq, ids_cons]
  change ids s.replies + ids s.logTasks + ids rest + _ = _
  abel

/-- **Every commit of a message accounts for its tasks.** -/
theorem held_handleTxnCommit {s : Storage h} {t : StorageTask} (hs : s.Inv)
    (ht : t.what = .messageTxnCommit) (hg : EachCommit ConservingCommit env s t) :
    (handleTxnCommit env s t).held = s.held + {t.id} ∧ EachCommit AnswersItsSets env s t := by
  have hwork : ∀ (s' : Storage h) (t' : StorageTask),
      (s'.Inv ∧ t'.what = .messageTxnCommit) ∧ s'.held + {t'.id} = s.held + {t.id} →
      ConservingCommit env s' t' → ((commitTxn env s' t').1.Inv ∧
        (commitTxn env s' t').1.held = s.held + {t.id}) ∧ AnswersItsSets env s' t' :=
    fun s' t' hst hg' => ⟨⟨inv_commitTxn hst.1.1 hst.1.2, (held_commitTxn hg').trans hst.2⟩,
      commitTxn_answers hst.1.1 hg'⟩
  have hpop : ∀ (s' : Storage h) (t' : StorageTask) (s'' : Storage h),
      s'.Inv ∧ s'.held = s.held + {t.id} → popCommit s' = some (t', s'') →
      (s''.Inv ∧ t'.what = .messageTxnCommit) ∧ s''.held + {t'.id} = s.held + {t.id} :=
    fun s' t' s'' hs' hp => ⟨inv_popCommit hs'.1 hp, (held_popCommit hp).trans hs'.2⟩
  refine ⟨?_, EachCall.imp hwork hpop ⟨⟨hs, ht⟩, rfl⟩ hg⟩
  exact (EachCall.invariant (fun s' t' hst hg' => (hwork s' t' hst hg').1) hpop
    ⟨⟨hs, ht⟩, rfl⟩ hg).2

theorem held_of_empty {s : Storage h} (hrows : s.txnState.rows = []) (hq : s.txnCommits = []) :
    s.held = ids s.replies := by
  unfold Storage.held Storage.logTasks
  rw [hrows, hq, List.flatMap_nil, ids_nil, add_zero, add_zero]

theorem held_began {s : Storage h} {id : ℕ}
    (hg : ∀ x, s.lookupTxn id = some x → x.msgs = []) :
    ids ((s.txnState.insert { txnId := id }).rows.flatMap TxnState.msgs) = ids s.logTasks := by
  change ids (([] : List StorageTask) ++
    (s.txnState.erase (h.firstWord id)).rows.flatMap TxnState.msgs) = _
  rw [List.nil_append]
  cases hl : s.lookupTxn id with
  | none =>
    rw [Table.erase_of_find_none hl]
    rfl
  | some x => rw [ids_logTasks hl, hg x hl, ids_nil, zero_add]

theorem Conserving.opensQuiet {s : Storage h} {t : StorageTask} (hg : Conserving env s t) :
    OpensQuiet s t := fun hw => by
  rwa [Conserving, hw] at hg

/-- **What a conserving message does to the tasks held.** -/
theorem held_handleMessage {s : Storage h} {t : StorageTask} (hs : s.Inv) (hrun : s.stopped = false)
    (hg : Conserving env s t) :
    (handleMessage env s t).held + ids (discarded s t) = s.held + {t.id} := by
  have hnone : ∀ (hw : t.what ≠ .messageTxnCancel), discarded s t = [] := fun hw => by
    rw [discarded, if_neg fun hn => hw hn.1]
  have h₁ := handleMessage_step env s t
  generalize handleMessage env s t = s' at h₁ ⊢
  cases h₁ with
  | stopped hstop => exact Bool.noConfusion (hrun.symm.trans hstop)
  | ended hw hc hq => exact absurd (hg.opensQuiet hw hc) hq
  | set hw _ =>
    rw [hnone (by simp [hw]), ids_nil, add_zero]
    rw [Conserving, hw] at hg
    exact held_handleSet hg
  | commit hw _ =>
    rw [hnone (by simp [hw]), ids_nil, add_zero]
    rw [Conserving, hw] at hg
    exact (held_handleTxnCommit hs hw hg).1
  | failed t' _ hcancel hid _ =>
    have hd : discarded s t = [] := by
      rw [discarded, if_neg]
      rintro ⟨hw, hc⟩
      rw [hcancel hw] at hc
      cases hc
    rw [hd, ids_nil, add_zero, held_fail, hid]
  | answered t' _ hcancel hid =>
    have hd : discarded s t = [] := by
      unfold discarded
      split_ifs with hw
      · rw [hcancel hw.1]
      · rfl
    rw [hd, ids_nil, add_zero, storageTaskSucceed, held_complete, hid]
  | notOpened t' hw hid hc hq =>
    rw [hnone (by simp [hw]), ids_nil, add_zero, held_fail, hid,
      held_of_empty (hs.closed hc).2 hq, held_of_empty rfl rfl]
    rfl
  | opened hw hc hq _ =>
    rw [hnone (by simp [hw]), ids_nil, add_zero, storageTaskSucceed, held_complete,
      held_of_empty (hs.closed hc).2 hq, held_of_empty rfl rfl]
    rfl
  | closed hw _ _ _ =>
    rw [hnone (by simp [hw]), ids_nil, add_zero]
    exact held_complete { s with tdb := s.tdb.closed } t true
  | began hw _ =>
    rw [hnone (by simp [hw]), ids_nil, add_zero, storageTaskSucceed, held_complete]
    rw [Conserving, hw] at hg
    exact congrArg (fun n => ids s.replies + n + ids s.txnCommits + {t.id}) (held_began hg)
  | cancelled x hw hc hl =>
    have hd : discarded s t = x.msgs := by
      rw [discarded, if_pos ⟨hw, by simpa [Option.isSome_iff_ne_none] using hc⟩, hl]
    rw [hd, storageTaskSucceed, held_complete]
    unfold Storage.held
    rw [ids_logTasks hl]
    change ids s.replies + ids ((s.txnState.erase (h.firstWord t.txnId)).rows.flatMap
      TxnState.msgs) + _ + _ + _ = _
    abel

/-! ## Runs -/

/-- The sets that a run discards. -/
def discards (env : Env) : Storage h → List StorageTask → List StorageTask
  | _, [] => []
  | s, t :: ts => discarded s t ++ discards env (handleMessage env s t) ts

/-- After the messages `ts` from `s`, each of them is answered, or a set in a log, or a commit in the
queue, or a set discarded by the cancel of the transaction it names, and is there once. -/
structure Accounted (env : Env) (s : Storage h) (ts : List StorageTask) : Prop where
  once : (run env s ts).held + ids (discards env s ts) = ids ts
  logged : ∀ m ∈ (run env s ts).logTasks, m.what = .messageSet
  queued : ∀ t ∈ (run env s ts).txnCommits, t.what = .messageTxnCommit
  discarded : ∀ m ∈ discards env s ts, m.what = .messageSet ∧
    ∃ t ∈ ts, t.what = .messageTxnCancel ∧ t.txnId = m.txnId

theorem run_cons (s : Storage h) (t : StorageTask) (ts : List StorageTask) :
    run env s (t :: ts) = run env (handleMessage env s t) ts := rfl

theorem held_run : ∀ {s : Storage h} {ts : List StorageTask}, s.Inv → s.stopped = false →
    Along (handleMessage env) (Conserving env) s ts →
      (run env s ts).held + ids (discards env s ts) = s.held + ids ts
  | s, [], _, _, _ => rfl
  | s, t :: ts, hs, hrun, hg => by
    have hinv : (handleMessage env s t).Inv := inv_handleMessage hs t
    have ih := held_run hinv (running_handleMessage hrun hg.1.opensQuiet) hg.2
    have h₁ := held_handleMessage hs hrun hg.1
    rw [run_cons, discards, ids_append, ids_cons]
    calc _ = ((run env (handleMessage env s t) ts).held
            + ids (discards env (handleMessage env s t) ts)) + ids (Catalina.discarded s t) := by abel
      _ = ((handleMessage env s t).held + ids (Catalina.discarded s t)) + ids ts := by rw [ih]; abel
      _ = s.held + ({t.id} + ids ts) := by rw [h₁]; abel

theorem discards_cancelled : ∀ {s : Storage h} {ts : List StorageTask}, s.Inv →
    Along (handleMessage env) (Conserving env) s ts → ∀ m ∈ discards env s ts,
      m.what = .messageSet ∧ ∃ t ∈ ts, t.what = .messageTxnCancel ∧ t.txnId = m.txnId
  | s, [], _, _, m, hm => absurd hm List.not_mem_nil
  | s, t :: ts, hs, hg, m, hm => by
    rcases List.mem_append.mp hm with hm | hm
    · have hw : t.what = .messageTxnCancel := by
        by_contra hw
        rw [Catalina.discarded, if_neg fun hn => hw hn.1] at hm
        cases hm
      have hown := hg.1
      rw [Conserving, hw] at hown
      refine ⟨?_, t, List.mem_cons_self, hw, (hown m hm).symm⟩
      unfold Catalina.discarded at hm
      split_ifs at hm
      · cases hl : s.lookupTxn t.txnId with
        | none => rw [hl] at hm; cases hm
        | some x =>
          rw [hl] at hm
          exact (hs.logged.of_lookup hl m hm).1
      · cases hm
    · have hinv : (handleMessage env s t).Inv := inv_handleMessage hs t
      obtain ⟨hw, t', ht', hc⟩ := discards_cancelled hinv hg.2 m hm
      exact ⟨hw, t', List.mem_cons_of_mem t ht', hc⟩

theorem accounted_of_conserving (env : Env) (disk : Bytes → Records) (ts : List StorageTask)
    (hg : Along (handleMessage env) (Conserving env) (catalinaStorageInit h disk) ts) :
    Accounted env (catalinaStorageInit h disk) ts where
  once := (held_run (inv_init disk) rfl hg).trans (zero_add _)
  logged m hm := by
    obtain ⟨x, hx, hm⟩ := List.mem_flatMap.mp hm
    exact (logged_iff.mp (inv_run env disk ts).logged x hx m hm).1
  queued := (inv_run env disk ts).queued
  discarded := discards_cancelled (inv_init disk) hg

/-- **No task is lost or answered twice** in a run of conserving messages, at any point of it, and
every commit that is answered has its sets answered. -/
theorem tasks_accounted (env : Env) (disk : Bytes → Records) (ts : List StorageTask)
    (hg : Along (handleMessage env) (Conserving env) (catalinaStorageInit h disk) ts) :
    (∀ us, us <+: ts → Accounted env (catalinaStorageInit h disk) us) ∧
      Along (handleMessage env)
        (fun s t => t.what = .messageTxnCommit → EachCommit AnswersItsSets env s t)
        (catalinaStorageInit h disk) ts := by
  have hstep : ∀ (s : Storage h) (t : StorageTask), s.Inv → Conserving env s t →
      (handleMessage env s t).Inv ∧
        (t.what = .messageTxnCommit → EachCommit AnswersItsSets env s t) := by
    refine fun s t hs hc => ⟨inv_handleMessage hs t, fun hw => ?_⟩
    rw [Conserving, hw] at hc
    exact (held_handleTxnCommit hs hw hc).2
  refine ⟨fun us hus => accounted_of_conserving env disk us (hg.of_initial hus), ?_⟩
  exact Along.imp hstep (inv_init disk) hg

/-- A plain set, a set in a transaction, and its commit. -/
theorem tasks_accounted_sets :
    (∀ us, us <+: [openTask 0 [47], beginTask 1, setTask 2 1 [1] [10], setTask 3 0 [2] [20],
        commitTask 4 1] →
      Accounted (fun _ => {}) (catalinaStorageInit lp64 fun _ => ∅) us) ∧
      Along (handleMessage fun _ => {})
        (fun s t => t.what = .messageTxnCommit → EachCommit AnswersItsSets (fun _ => {}) s t)
        (catalinaStorageInit lp64 fun _ => ∅) [openTask 0 [47], beginTask 1,
          setTask 2 1 [1] [10], setTask 3 0 [2] [20], commitTask 4 1] := by
  refine tasks_accounted _ _ _ ⟨?_, ?_, ?_, ?_, ?_, trivial⟩
  · exact fun _ => rfl
  · intro x hx
    cases hx
  · exact fun _ h₀ => absurd h₀ (by decide)
  · exact fun _ _ => rfl
  · intro x _ _ hx
    obtain rfl := Option.some.inj (hx.symm.trans rfl)
    refine ⟨fun m hm => ?_, fun _ => rfl, fun m hm => absurd hm List.not_mem_nil, fun _ => rfl⟩
    rw [List.mem_singleton.mp hm]
    rfl

/-- A commit that names no transaction makes the storage drop the plain set that follows. -/
theorem set_lost :
    ¬ Accounted (fun _ => {}) (catalinaStorageInit lp64 fun _ => ∅)
      [openTask 0 [47], commitTask 1 99, setTask 2 0 [1] [10]] :=
  fun hacc => absurd hacc.once (by decide)

end Catalina
