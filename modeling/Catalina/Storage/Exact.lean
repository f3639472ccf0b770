import Catalina.Storage.Acknowledge
import Catalina.Storage.Ids

/-!
# Transactions are found by their id

The table looks at the first 32 bits of an id, the comparison with the current transaction at all of
it, and the replay of a log dispatches its sets once more.

* `SetExact`, `CommitExact`, `CancelExact`: a message acts on the open transaction with exactly its id,
  and on no other one.
* `NoAlias`: no open transaction has another id with the same first 32 bits.
* `Apart`: what a run has to avoid.
* `OwnLogs`: the sets in a log name their transaction.
* **`exact_of_apart`**: in a run that avoids it, every message is exact.
* `aliased_commit_succeeds`: a commit of no transaction, which ends another one and stores nothing.
-/

namespace Catalina

variable {h : Host} {env : Env}

/-! ## Exact messages -/

/-- The open transactions other than `i` are as before. -/
def OthersStay (s s' : Storage h) (i : ℕ) : Prop :=
  ∀ x, x.txnId ≠ i → (x ∈ s'.txnState.rows ↔ x ∈ s.txnState.rows)

/-- A message that is answered with failure and changes no transaction and no record. -/
structure Refused (s s' : Storage h) : Prop where
  answer : ∃ r, s'.replies = s.replies ++ [r] ∧ r.success = false
  txnState : s'.txnState = s.txnState
  tdb : s'.tdb = s.tdb

section Exact

variable (env) (s : Storage h) (t : StorageTask)

/-- The set `t` is queued in the open transaction it names, and refused if there is none. -/
structure SetExact : Prop where
  queued : ∀ l, (t.txnId, l) ∈ s.logs → (t.txnId, t :: l) ∈ (handleMessage env s t).logs ∧
    OthersStay s (handleMessage env s t) t.txnId ∧ (handleMessage env s t).tdb = s.tdb ∧
    (handleMessage env s t).replies = s.replies
  refused : t.txnId ∉ s.ids → Refused s (handleMessage env s t)

/-- The commit `t` ends the open transaction it names, or leaves it with its log, and is refused if
there is none. When it is answered with success, every set of the log has been stored, in order. -/
structure CommitExact : Prop where
  others : OthersStay s (commitTxn env s t).1 t.txnId
  own : ∀ l, (t.txnId, l) ∈ s.logs →
    t.txnId ∉ (commitTxn env s t).1.ids ∨ (t.txnId, l) ∈ (commitTxn env s t).1.logs
  applied : ∀ l, (t.txnId, l) ∈ s.logs → ∀ rs r,
    (commitTxn env s t).1.replies = s.replies ++ rs ++ [r] → r.success = true →
      (∀ m ∈ l, Storable env m) ∧ (commitTxn env s t).1.tdb =
        (storeLog env l.reverse s.tdb.transactionStart).transactionCommit true
  refused : t.txnId ∉ s.ids → Refused s (commitTxn env s t).1

/-- The cancel `t` ends the transaction it names and no other one. -/
structure CancelExact : Prop where
  others : OthersStay s (handleMessage env s t) t.txnId
  own : t.txnId ∉ (handleMessage env s t).ids
  tdb : (handleMessage env s t).tdb = s.tdb

/-- **The message `t` acts on a transaction exactly if that has the id of the message**, if there is a
process to handle it. A set without a transaction names none; a commit message can make queued
commits run. -/
def Exact : Prop :=
  s.stopped = false → match t.what with
  | .messageSet => t.txnId ≠ 0 → SetExact env s t
  | .messageTxnCommit => EachCommit CommitExact env s t
  | .messageTxnCancel => CancelExact env s t
  | _ => True

end Exact

/-! ## What a run has to avoid -/

/-- No open transaction has another id than `i` under the same key. -/
def NoAlias (s : Storage h) (i : ℕ) : Prop := ∀ j ∈ s.ids, h.firstWord j = h.firstWord i → j = i

/-- A commit of no open transaction is not queued behind another one. -/
def NotDeferred (s : Storage h) (t : StorageTask) : Prop :=
  t.txnId ∈ s.ids ∨ s.txn = 0 ∨ s.txn = t.txnId

/-- The id of the message, and those in the queue before a commit, are found exactly; a set does not
name the current transaction, and a commit of no open transaction is not queued. -/
def Apart (s : Storage h) (t : StorageTask) : Prop :=
  match t.what with
  | .messageSet => t.txnId ≠ 0 → NoAlias s t.txnId ∧ s.txn ≠ t.txnId
  | .messageTxnCommit => (∀ m ∈ t :: s.txnCommits, NoAlias s m.txnId) ∧ NotDeferred s t
  | .messageTxnCancel => NoAlias s t.txnId
  | _ => True

instance (s : Storage h) (i : ℕ) : Decidable (NoAlias s i) := by
  unfold NoAlias
  infer_instance

instance (s : Storage h) (t : StorageTask) : Decidable (Apart s t) := by
  unfold Apart NotDeferred
  split <;> infer_instance

/-- The sets in a log name their transaction. -/
def OwnLogs (s : Storage h) : Prop := ∀ p ∈ s.logs, ∀ m ∈ p.2, m.txnId = p.1

section Own

variable {s s' : Storage h} {t : StorageTask} {x : TxnState} {i : ℕ}

theorem OthersStay.refl (s : Storage h) (i : ℕ) : OthersStay s s i := fun _ _ => Iff.rfl

theorem NoAlias.lookup (hn : NoAlias s i) (hl : s.lookupTxn i = some x) :
    x.txnId = i ∧ (i, x.msgs) ∈ s.logs := by
  obtain ⟨hx, hk⟩ := Table.find_eq_some.mp hl
  have hid : x.txnId = i := hn x.txnId (List.mem_map_of_mem hx) hk
  exact ⟨hid, hid ▸ List.mem_map_of_mem (f := fun x : TxnState => (x.txnId, x.msgs)) hx⟩

theorem NoAlias.lookup_none (hn : NoAlias s i) (hi : i ∉ s.ids) : s.lookupTxn i = none := by
  cases hl : s.lookupTxn i with
  | none => rfl
  | some x => exact absurd (mem_ids.mpr ⟨x.msgs, (hn.lookup hl).2⟩) hi

theorem NoAlias.subset (hn : NoAlias s i) (hsub : s'.ids ⊆ s.ids) : NoAlias s' i :=
  fun j hj => hn j (hsub hj)

theorem NoAlias.othersStay (hn : NoAlias s i)
    (heq : s'.txnState.erase (h.firstWord i) = s.txnState.erase (h.firstWord i))
    (hids : s'.ids ⊆ s.ids) : OthersStay s s' i := by
  intro x hx
  have hkey : ∀ s'' : Storage h, NoAlias s'' i → (x ∈ s''.txnState.rows ↔
      x ∈ (s''.txnState.erase (h.firstWord i)).rows) := fun s'' hn'' => by
    rw [Table.mem_erase]
    exact ⟨fun hm => ⟨hm, fun hk => hx (hn'' x.txnId (List.mem_map_of_mem hm) hk)⟩, And.left⟩
  rw [hkey s' (hn.subset hids), heq, ← hkey s hn]

theorem OwnLogs.of_others (ho : OwnLogs s) (hstay : OthersStay s s' i)
    (hown : ∀ l, (i, l) ∈ s'.logs → ∀ m ∈ l, m.txnId = i) : OwnLogs s' := by
  intro p hp
  obtain ⟨x, hx, rfl⟩ := List.mem_map.mp hp
  by_cases hid : x.txnId = i
  · exact hid ▸ hown x.msgs (hid ▸ hp)
  · exact ho _ (List.mem_map_of_mem ((hstay x hid).mp hx))

theorem erase_fail (s : Storage h) (t : StorageTask) :
    (storageTaskFail s t).txnState.erase (h.firstWord t.txnId) =
      s.txnState.erase (h.firstWord t.txnId) := by
  unfold storageTaskFail
  split_ifs
  · exact txnState_setTxnError_erase s t.txnId t.error
  · rfl

theorem refused_fail (hl : s.lookupTxn t.txnId = none) : Refused s (storageTaskFail s t) where
  answer := ⟨_, replies_fail s t, rfl⟩
  txnState := by
    rw [storageTaskFail_of_none s t hl]
    rfl
  tdb := tdb_fail s t

end Own

/-! ## Sets and cancels -/

section Messages

variable {s : Storage h} {t : StorageTask}

theorem exists_lookup {i : ℕ} (hi : i ∈ s.ids) : ∃ x, s.lookupTxn i = some x := by
  cases hl : s.lookupTxn i with
  | none => exact absurd hi (notMem_ids_of_lookup hl)
  | some x => exact ⟨x, rfl⟩

theorem setExact (hs : s.Inv) (hrun : s.stopped = false) (hw : t.what = .messageSet)
    (h₀ : t.txnId ≠ 0) (hn : NoAlias s t.txnId) (hne : s.txn ≠ t.txnId) : SetExact env s t := by
  have hset := handleMessage_set env hrun hw
  constructor
  · intro l hl
    have hid : t.txnId ∈ s.ids := mem_ids.mpr ⟨l, hl⟩
    obtain ⟨x, hx⟩ := exists_lookup hid
    have hc : s.tdb.ctx ≠ none := fun hc => notMem_ids_of_closed hs hc _ hid
    rw [hset, handleSet_queued hc h₀ hne hx]
    refine ⟨?_, hn.othersStay (Table.erase_modify _ _ _ fun x => x.key_msgs h (t :: x.msgs)) ?_, rfl,
      rfl⟩
    · rw [logs_modifyMsgs]
      exact List.mem_map.mpr ⟨_, hl, if_pos rfl⟩
    · exact subset_of_ids_eq (ids_modifyMsgs s t.txnId _)
  · intro hid
    have hl := hn.lookup_none hid
    have h₁ := handleSet_step env s t
    rw [hset]
    generalize handleSet env s t = s' at h₁ ⊢
    cases h₁ with
    | closed e _ => exact refused_fail (t := t.setError e) hl
    | unknown e _ _ _ _ => exact refused_fail (t := t.setError e) hl
    | queued x _ _ _ hx =>
      rw [hl] at hx
      cases hx
    | dropped _ hz _ => exact absurd hz h₀
    | failed e _ heq _ => exact absurd heq hne
    | stored r _ heq _ => exact absurd heq hne

theorem cancelExact (hs : s.Inv) (hrun : s.stopped = false) (hw : t.what = .messageTxnCancel)
    (hn : NoAlias s t.txnId) : CancelExact env s t := by
  have hnone : ∀ {s' : Storage h}, s.lookupTxn t.txnId = none → s'.txnState = s.txnState →
      OthersStay s s' t.txnId ∧ t.txnId ∉ s'.ids := fun {s'} hl heq => by
    refine ⟨fun x _ => by rw [heq], ?_⟩
    rw [Storage.ids, heq]
    exact notMem_ids_of_lookup hl
  have h₁ := handleMessage_step env s t
  have hfail : ∀ t', handleMessage env s t = storageTaskFail s t' → s.tdb.ctx = none →
      CancelExact env s t := fun t' heq hc => by
    obtain ⟨hstay, hown⟩ := hnone (lookupTxn_of_closed hs hc _)
      (show (storageTaskFail s t').txnState = s.txnState from by
        rw [storageTaskFail_of_none s t' (lookupTxn_of_closed hs hc _)]
        rfl)
    exact ⟨heq ▸ hstay, heq ▸ hown, heq ▸ tdb_fail s t'⟩
  generalize hres : handleMessage env s t = s' at h₁
  cases h₁ with
  | failed t' _ hcancel _ _ => exact hfail t' hres (hcancel hw)
  | answered t' _ hcancel _ =>
    obtain ⟨hstay, hown⟩ := @hnone (storageTaskSucceed s t') (hcancel hw) rfl
    exact ⟨hres ▸ hstay, hres ▸ hown, by rw [hres]; rfl⟩
  | cancelled x _ _ _ =>
    have hids : (handleMessage env s t).ids = s.ids.filter
        fun i => h.firstWord i ≠ h.firstWord t.txnId := by
      rw [hres]
      exact ids_erase s _
    refine ⟨hn.othersStay ?_ ?_, ?_, by rw [hres]; rfl⟩
    · rw [hres]
      refine Table.ext (List.filter_eq_self.mpr fun x hx => ?_)
      simpa using (Table.mem_erase.mp hx).2
    · rw [hids]
      exact List.filter_subset_self _
    · rw [hids]
      simp
  | stopped hstop => exact Bool.noConfusion (hrun.symm.trans hstop)
  | set hw' _ => rw [hw] at hw'; cases hw'
  | commit hw' _ => rw [hw] at hw'; cases hw'
  | notOpened t' hw' _ _ _ => rw [hw] at hw'; cases hw'
  | opened hw' _ _ _ => rw [hw] at hw'; cases hw'
  | ended hw' _ _ => rw [hw] at hw'; cases hw'
  | closed hw' _ _ _ => rw [hw] at hw'; cases hw'
  | began hw' _ => rw [hw] at hw'; cases hw'

/-! ## Commits -/

theorem erase_handleSet {m : StorageTask} (hm : m.txnId = s.txn) :
    (handleSet env s m).txnState.erase (h.firstWord m.txnId) =
      s.txnState.erase (h.firstWord m.txnId) := by
  have h₁ := handleSet_step env s m
  generalize handleSet env s m = s' at h₁ ⊢
  cases h₁ with
  | closed e _ => exact erase_fail s (m.setError e)
  | unknown e _ _ hne _ => exact absurd hm.symm hne
  | queued x _ _ hne _ => exact absurd hm.symm hne
  | dropped _ _ _ => rfl
  | failed e _ _ _ => exact erase_fail s (m.setError e)
  | stored r _ _ _ => rfl

theorem erase_replay {x : TxnState} (hms : ∀ m ∈ x.msgs, m.txnId = t.txnId) :
    (replay env s t x).1.txnState.erase (h.firstWord t.txnId) =
      s.txnState.erase (h.firstWord t.txnId) := by
  have hkeep : ∀ m ∈ x.msgs.reverse, ∀ s' : Storage h,
      s'.txn = t.txnId ∧ s'.txnState.erase (h.firstWord t.txnId) =
        s.txnState.erase (h.firstWord t.txnId) →
      (handleSet env s' m).txn = t.txnId ∧
        (handleSet env s' m).txnState.erase (h.firstWord t.txnId) =
          s.txnState.erase (h.firstWord t.txnId) := by
    rintro m hm s' ⟨htxn, heq⟩
    have hid := hms m (List.mem_reverse.mp hm)
    have hset : (handleSet env s' m).txnState.erase (h.firstWord m.txnId) = _ :=
      erase_handleSet (hid.trans htxn.symm)
    rw [hid] at hset
    exact ⟨(frame_handleSet env s' m).txn.trans htxn, hset.trans heq⟩
  exact (runMsgs_invariant t.txnId _ hkeep
    ⟨rfl, Table.erase_modify s.txnState _ _ fun x => x.key_msgs h x.msgs.reverse⟩).2

theorem stored_of_commitOk {x : TxnState} (hs : s.Inv) (hc : s.tdb.ctx ≠ none)
    (hl : s.lookupTxn t.txnId = some x) (hms : ∀ m ∈ x.msgs, m.txnId = t.txnId)
    (hok : commitOk env s t x = true) (e : Option GError) :
    (∀ m ∈ x.msgs, Storable env m) ∧ (afterCommit env s t x e).tdb =
      (storeLog env x.msgs.reverse s.tdb.transactionStart).transactionCommit true := by
  obtain ⟨hr, _⟩ := Bool.and_eq_true_iff.mp hok
  have hready : Ready t.txnId (beginTxn s t) := ready_beginTxn hc hl
  have hne : ∀ m ∈ x.msgs.reverse, m.txnId ≠ 0 := fun m hm =>
    (hs.logged.of_lookup hl m (List.mem_reverse.mp hm)).2
  obtain ⟨hslot, hst⟩ := (runMsgs_true_iff x.msgs.reverse hready hne).mp hr
  rw [slotError_beginTxn hl, List.reverse_eq_nil_iff] at hslot
  have hst' : ∀ m ∈ x.msgs, Storable env m := fun m hm =>
    hst m (List.mem_reverse.mpr hm) (hms m hm)
  refine ⟨hst', ?_⟩
  have hown : ownLog t x = x.msgs.reverse :=
    List.filter_eq_self.mpr fun m hm => by simpa using hms m (List.mem_reverse.mp hm)
  rw [tdb_afterCommit, hr, if_pos rfl, hok, (replay_ok hc hl (fun m hm _ => hst' m hm) hslot).2, hown]

/-- No answer, or one with failure. -/
def NotAnswered (s s' : Storage h) : Prop :=
  s'.replies = s.replies ∨ ∃ r, s'.replies = s.replies ++ [r] ∧ r.success = false

theorem NotAnswered.false {s' : Storage h} (hs : NotAnswered s s') {rs : List StorageTask}
    {r : StorageTask} (heq : s'.replies = s.replies ++ rs ++ [r]) (hr : r.success = true) : False := by
  rcases hs with hs | ⟨r', hs, hfail⟩
  · rw [hs, List.append_assoc] at heq
    have hnil := List.append_right_eq_self.mp heq.symm
    simp at hnil
  · rw [hs] at heq
    rw [last_reply heq, hfail] at hr
    cases hr

theorem commitExact_of_refused (hl : s.lookupTxn t.txnId = none)
    (hr : Refused s (commitTxn env s t).1) : CommitExact env s t := by
  have hid := notMem_ids_of_lookup hl
  exact ⟨fun x _ => by rw [hr.txnState], fun l hlog => absurd (mem_ids.mpr ⟨l, hlog⟩) hid,
    fun l hlog => absurd (mem_ids.mpr ⟨l, hlog⟩) hid, fun _ => hr⟩

theorem commitExact_of_kept (hn : NoAlias s t.txnId) (hid : t.txnId ∈ s.ids)
    (hlogs : (commitTxn env s t).1.logs = s.logs)
    (herase : (commitTxn env s t).1.txnState.erase (h.firstWord t.txnId) =
      s.txnState.erase (h.firstWord t.txnId))
    (hans : NotAnswered s (commitTxn env s t).1) : CommitExact env s t where
  others := hn.othersStay herase (ids_commitTxn env s t)
  own _ hl := Or.inr (hlogs ▸ hl)
  applied _ _ _ _ heq hr := (hans.false heq hr).elim
  refused hnid := absurd hid hnid

theorem commitExact (hs : s.Inv) (ho : OwnLogs s) (hn : NoAlias s t.txnId) (hd : NotDeferred s t) :
    CommitExact env s t := by
  have hstep := commitTxn_step env s t
  have hids := ids_commitTxn env s t
  generalize hp : commitTxn env s t = p at hstep
  cases hstep with
  | closed e hc =>
    have hl := lookupTxn_of_closed hs hc t.txnId
    refine commitExact_of_refused hl ?_
    rw [hp]
    exact refused_fail (t := t.setError e) hl
  | queued hc h₀ hne =>
    have hid : t.txnId ∈ s.ids := hd.resolve_right fun hcur => hcur.elim h₀ hne
    have hlogs : (commitTxn env s t).1.logs = s.logs := by
      rw [hp]
      rfl
    exact commitExact_of_kept hn hid hlogs (by rw [hp]) (Or.inl (by rw [hp]))
  | unknown e hc hcur hl =>
    refine commitExact_of_refused hl ?_
    rw [hp]
    obtain ⟨hans, htab, htdb⟩ :=
      refused_fail (s := { s with txn := t.txnId }) (t := t.setError e) hl
    exact ⟨hans, htab, htdb⟩
  | notStarted x hc hcur hl hst =>
    have hid : t.txnId ∈ s.ids := mem_ids.mpr ⟨_, (hn.lookup hl).2⟩
    refine commitExact_of_kept hn hid ?_ ?_ (Or.inr ?_) <;> rw [hp]
    · exact logs_fail { s with txn := t.txnId } _
    · exact erase_fail { s with txn := t.txnId } (t.setError startError)
    · exact ⟨_, replies_fail { s with txn := t.txnId } _, rfl⟩
  | ran x e hc hcur hl hst =>
    obtain ⟨hxid, hxl⟩ := hn.lookup hl
    have hms : ∀ m ∈ x.msgs, m.txnId = t.txnId := ho _ hxl
    have hgone : t.txnId ∉ (commitTxn env s t).1.ids := by
      rw [hp]
      change t.txnId ∉ (afterCommit env s t x e).ids
      rw [ids_afterCommit]
      simp
    refine ⟨hn.othersStay ?_ hids, fun _ _ => Or.inl hgone, fun l hlog rs r heq hr => ?_,
      fun hnid => absurd (mem_ids.mpr ⟨_, hxl⟩) hnid⟩
    · rw [hp]
      refine (Table.ext (List.filter_eq_self.mpr fun x hx => ?_)).trans (erase_replay hms)
      simpa using (Table.mem_erase.mp hx).2
    · have hlx : l = x.msgs := congrArg Prod.snd (logs_eq_of_id hlog hxl rfl)
      rw [hp] at heq ⊢
      rw [replies_afterCommit] at heq
      rw [last_reply heq] at hr
      rw [hlx]
      exact stored_of_commitOk hs hc hl hms hr e

theorem ownLogs_commitTxn (ho : OwnLogs s) (he : CommitExact env s t) :
    OwnLogs (commitTxn env s t).1 := by
  refine ho.of_others he.others fun l hl => ?_
  have hid := ids_commitTxn env s t (mem_ids.mpr ⟨l, hl⟩)
  obtain ⟨l', hl'⟩ := mem_ids.mp hid
  have hkept := (he.own l' hl').resolve_left fun hgone => hgone (mem_ids.mpr ⟨l, hl⟩)
  have heq : l = l' := congrArg Prod.snd (logs_eq_of_id hl hkept rfl)
  rw [heq]
  exact ho _ hl'

/-- What holds between the commits of a message, and with the commit `t` in hand. -/
structure CommitInv (s : Storage h) : Prop where
  inv : s.Inv
  own : OwnLogs s
  queue : ∀ m ∈ s.txnCommits, NoAlias s m.txnId

theorem commitInv_commitTxn (hs : CommitInv s) (hw : t.what = .messageTxnCommit)
    (hn : NoAlias s t.txnId) (hd : NotDeferred s t) :
    CommitInv (commitTxn env s t).1 ∧ CommitExact env s t := by
  have he : CommitExact env s t := commitExact hs.inv hs.own hn hd
  refine ⟨⟨inv_commitTxn hs.inv hw, ownLogs_commitTxn hs.own he, fun m hm => ?_⟩, he⟩
  refine NoAlias.subset ?_ (ids_commitTxn env s t)
  rcases mem_txnCommits_commitTxn hm with hm | rfl
  · exact hs.queue m hm
  · exact hn

theorem exact_handleTxnCommit (hs : s.Inv) (ho : OwnLogs s) (hw : t.what = .messageTxnCommit)
    (hn : ∀ m ∈ t :: s.txnCommits, NoAlias s m.txnId) (hd : NotDeferred s t) :
    OwnLogs (handleTxnCommit env s t) ∧ EachCommit CommitExact env s t := by
  have hnext : ∀ (s : Storage h) (t t' : StorageTask) (s' : Storage h),
      (commitTxn env s t).2 = true → popCommit (commitTxn env s t).1 = some (t', s') →
      NotDeferred s' t' := fun s t t' s' hb hp => by
    obtain ⟨rest, _, rfl⟩ := popCommit_eq hp
    refine Or.inr (Or.inl ?_)
    have hstep := commitTxn_step env s t
    generalize commitTxn env s t = p at hstep hb ⊢
    cases hstep with
    | ran x e _ _ _ _ => exact txn_afterCommit env s t x e
    | _ => cases hb
  have hcalls : EachCommit (fun _ => NotDeferred) env s t := EachCall.of_finished hnext hd
  have hwork : ∀ (s : Storage h) (t : StorageTask),
      CommitInv s ∧ t.what = .messageTxnCommit ∧ NoAlias s t.txnId → NotDeferred s t →
      CommitInv (commitTxn env s t).1 ∧ CommitExact env s t :=
    fun _ _ hs hd => commitInv_commitTxn hs.1 hs.2.1 hs.2.2 hd
  have hpop : ∀ (s : Storage h) (t : StorageTask) (s' : Storage h), CommitInv s →
      popCommit s = some (t, s') → CommitInv s' ∧ t.what = .messageTxnCommit ∧ NoAlias s' t.txnId :=
    fun s t s' hs hp => by
      obtain ⟨hinv, hw⟩ := inv_popCommit hs.inv hp
      obtain ⟨rest, hq, rfl⟩ := popCommit_eq hp
      have hqueue : ∀ m ∈ t :: rest, NoAlias s m.txnId := fun m hm => hs.queue m (hq ▸ hm)
      exact ⟨⟨hinv, hs.own, fun m hm => hqueue m (List.mem_cons_of_mem t hm)⟩, hw,
        hqueue t List.mem_cons_self⟩
  have hstart : CommitInv s ∧ t.what = .messageTxnCommit ∧ NoAlias s t.txnId :=
    ⟨⟨hs, ho, fun m hm => hn m (List.mem_cons_of_mem t hm)⟩, hw, hn t List.mem_cons_self⟩
  exact ⟨(EachCall.invariant (fun s t hs hd => (hwork s t hs hd).1) hpop hstart hcalls).own,
    EachCall.imp hwork hpop hstart hcalls⟩

/-! ## Runs -/

theorem OwnLogs.congr {s' : Storage h} (ho : OwnLogs s) (heq : s'.logs = s.logs) : OwnLogs s' := by
  unfold OwnLogs
  rw [heq]
  exact ho

theorem ownLogs_of_empty (hx : s.txnState = ∅) : OwnLogs s := by
  unfold OwnLogs Storage.logs
  rw [hx]
  exact fun p hp => absurd hp List.not_mem_nil

theorem logs_handleSet_zero (env : Env) (h₀ : t.txnId = 0) : (handleSet env s t).logs = s.logs := by
  have h₁ := handleSet_step env s t
  generalize handleSet env s t = s' at h₁ ⊢
  cases h₁ with
  | closed e _ => exact logs_fail s _
  | unknown e _ hz _ _ => exact absurd h₀ hz
  | queued x _ hz _ _ => exact absurd h₀ hz
  | dropped _ _ _ => rfl
  | failed e _ _ _ => exact logs_fail s _
  | stored r _ _ _ => rfl

theorem SetExact.ownLogs (he : SetExact env s t) (ho : OwnLogs s) :
    OwnLogs (handleMessage env s t) := by
  by_cases hid : t.txnId ∈ s.ids
  · obtain ⟨l, hl⟩ := mem_ids.mp hid
    obtain ⟨hlog, hstay, _, _⟩ := he.queued l hl
    refine ho.of_others hstay fun l' hl' m hm => ?_
    have heq : l' = t :: l := congrArg Prod.snd (logs_eq_of_id hl' hlog rfl)
    rw [heq] at hm
    rcases List.mem_cons.mp hm with rfl | hm
    · rfl
    · exact ho _ hl m hm
  · refine ho.congr ?_
    unfold Storage.logs
    rw [(he.refused hid).txnState]

theorem ownLogs_other (ho : OwnLogs s) (hset : t.what ≠ .messageSet)
    (hcommit : t.what ≠ .messageTxnCommit) (hcancel : t.what ≠ .messageTxnCancel) :
    OwnLogs (handleMessage env s t) := by
  have h₁ := handleMessage_step env s t
  generalize handleMessage env s t = s' at h₁ ⊢
  cases h₁ with
  | stopped _ | ended _ _ _ => exact ho
  | set hw _ => exact absurd hw hset
  | commit hw _ => exact absurd hw hcommit
  | failed t' _ _ _ _ => exact ho.congr (logs_fail s t')
  | answered t' _ _ _ => exact ho.congr rfl
  | notOpened t' _ _ _ _ => exact (ownLogs_of_empty rfl : OwnLogs s.clearTxns).congr (logs_fail _ t')
  | opened _ _ _ _ => exact ownLogs_of_empty rfl
  | closed _ _ _ _ => exact ho.congr rfl
  | began _ _ =>
    intro p hp m hm
    obtain ⟨x, hx, rfl⟩ := List.mem_map.mp hp
    rcases Table.mem_insert.mp hx with rfl | ⟨hx, _⟩
    · cases hm
    · exact ho _ (List.mem_map_of_mem hx) m hm
  | cancelled x hw _ _ => exact absurd hw hcancel

/-- **A message that meets no alias is exact**, and its sets are queued where they belong. -/
theorem exact_handleMessage (hs : s.Inv) (ho : OwnLogs s) (ha : Apart s t) :
    OwnLogs (handleMessage env s t) ∧ Exact env s t := by
  by_cases hstop : s.stopped = true
  · rw [handleMessage_stopped env hstop]
    exact ⟨ho, fun hrun => Bool.noConfusion (hrun.symm.trans hstop)⟩
  have hrun : s.stopped = false := Bool.eq_false_of_not_eq_true hstop
  suffices hsuff : OwnLogs (handleMessage env s t) ∧ match t.what with
      | .messageSet => t.txnId ≠ 0 → SetExact env s t
      | .messageTxnCommit => EachCommit CommitExact env s t
      | .messageTxnCancel => CancelExact env s t
      | _ => True from ⟨hsuff.1, fun _ => hsuff.2⟩
  unfold Apart at ha
  split at ha
  · next hw =>
    by_cases h₀ : t.txnId = 0
    · rw [handleMessage_set env hrun hw]
      exact ⟨ho.congr (logs_handleSet_zero env h₀), fun hne => absurd h₀ hne⟩
    · obtain ⟨hn, hne⟩ := ha h₀
      have he : SetExact env s t := setExact hs hrun hw h₀ hn hne
      exact ⟨he.ownLogs ho, fun _ => he⟩
  · next hw =>
    rw [handleMessage_commit env hrun hw]
    exact exact_handleTxnCommit hs ho hw ha.1 ha.2
  · next hw =>
    have he : CancelExact env s t := cancelExact hs hrun hw ha
    exact ⟨ho.of_others he.others fun l hl => absurd (mem_ids.mpr ⟨l, hl⟩) he.own, he⟩
  · next hset hcommit hcancel => exact ⟨ownLogs_other ho hset hcommit hcancel, trivial⟩

end Messages

/-- **In every run whose messages meet no alias, every message is exact.** -/
theorem exact_of_apart (env : Env) (disk : Bytes → Records) (ms : List StorageTask)
    (ha : Along (handleMessage env) Apart (catalinaStorageInit h disk) ms) :
    Along (handleMessage env) (Exact env) (catalinaStorageInit h disk) ms := by
  have hstep : ∀ (s : Storage h) (t : StorageTask), s.Inv ∧ OwnLogs s → Apart s t →
      ((handleMessage env s t).Inv ∧ OwnLogs (handleMessage env s t)) ∧ Exact env s t :=
    fun s t hs ha => by
      obtain ⟨ho, he⟩ : OwnLogs (handleMessage env s t) ∧ Exact env s t :=
        exact_handleMessage hs.1 hs.2 ha
      exact ⟨⟨inv_handleMessage hs.1 t, ho⟩, he⟩
  exact Along.imp hstep ⟨inv_init disk, ownLogs_of_empty rfl⟩ ha

/-- Two transactions with a set each, a set and a cancel of an id that was never given out, a commit of
the second one and a cancel of the first. -/
def twoTransactions : List StorageTask :=
  [openTask 0 [47], beginTask 1, beginTask 2, setTask 3 1 [107] [7], setTask 4 2 [108] [8],
    setTask 5 9 [109] [9], cancelTask 6 9, commitTask 7 2, cancelTask 8 1]

theorem exact_twoTransactions : Along (handleMessage fun _ => {}) (Exact fun _ => {})
    (catalinaStorageInit lp64 fun _ => ∅) twoTransactions := by
  refine exact_of_apart _ _ _ ⟨?_, ?_, ?_, ?_, ?_, ?_, ?_, ?_, ?_, trivial⟩ <;> decide

/-- A transaction with one set, and a commit of an id that agrees with the transaction's in 32 bits only. -/
def aliasedCommit : List StorageTask :=
  [openTask 0 [47], beginTask 1, setTask 2 1 [107] [7], commitTask 3 (2 ^ 32 + 1)]

/-- **The aliased commit is answered with success**: it has ended the transaction and stored nothing. -/
theorem aliased_commit_succeeds : ¬ Along (handleMessage fun _ => {}) (Exact fun _ => {})
    (catalinaStorageInit lp64 fun _ => ∅) aliasedCommit := by
  rintro ⟨_, _, _, hcommit, _⟩
  obtain ⟨r, hr, hfail⟩ := ((EachCall.head (hcommit rfl)).refused (by decide)).answer
  have hlast := congrArg (fun rs => rs.getLast?.map StorageTask.success) hr
  rw [List.getLast?_concat, Option.map_some, hfail] at hlast
  exact absurd hlast (by decide)

end Catalina
