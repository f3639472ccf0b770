import Catalina.Storage.Commit
import Catalina.Storage.Ids

/-!
# Closing and opening again

`handle_close` looks at the table and the current transaction, and `handle_open` clears these. A commit
that a close has left in the queue ends the process at the next open.

* `Pending`: a transaction that a begin has handed out and that has been neither cancelled nor run.
* `CloseRefused`: a close that fails and leaves the storage open and as it is.
* `NothingLeaks`: whatever the storage is asked from now on, it does as if nothing had been queued.
* **`close_keeps_work`**: a close is refused while a transaction is pending, and nothing leaks over a
  close.
-/

namespace Catalina

variable {h : Host} {env : Env}

/-- The message `t` neither cancels the transaction `i` nor runs a commit of it. -/
def Spares (i : ℕ) (env : Env) (s : Storage h) (t : StorageTask) : Prop :=
  (t.what = .messageTxnCancel → t.txnId ≠ i) ∧
    (t.what = .messageTxnCommit →
      EachCommit (fun env s c => c.txnId = i → ¬ ∃ x, Replays env s c x) env s t)

/-- A begin of the run has returned `i`, and later messages have spared it. -/
def Pending (env : Env) (s : Storage h) (ms : List StorageTask) (i : ℕ) : Prop :=
  ∃ before b after, ms = before ++ b :: after ∧ b.what = .messageTxnBegin ∧
    (∃ r, (run env s (before ++ [b])).replies = (run env s before).replies ++ [r] ∧
      r.success = true ∧ r.value = some i) ∧
    Along (handleMessage env) (Spares i env) (run env s (before ++ [b])) after

/-- The close `t` fails, and the storage stays open and as it is. -/
def CloseRefused (env : Env) (s : Storage h) (t : StorageTask) : Prop :=
  s.tdb.ctx ≠ none ∧ ∃ r, r.id = t.id ∧ r.success = false ∧
    handleMessage env s t = { s with replies := s.replies ++ [r] }

/-- No log is left, and every run does to the database, and answers, what it would without the queue
and the current transaction, unless an open ends the process and leaves the database as it is. -/
def NothingLeaks (env : Env) (s : Storage h) : Prop :=
  s.logs = [] ∧ ∀ ms,
    ((run env s ms).tdb = (run env s.clearTxns ms).tdb ∧
      (run env s ms).replies = (run env s.clearTxns ms).replies) ∨
    (s.txnCommits ≠ [] ∧ (run env s ms).stopped = true ∧ (run env s ms).tdb = s.tdb)

/-! ## A close with a transaction pending -/

section Pending

variable {s : Storage h} {t : StorageTask} {i n : ℕ}

/-- Ids below 2^32 have the key of a transaction that was begun only if they are its id. -/
theorem firstWord_ordinal_ne {k c : ℕ} (hk : 1 ≤ k) (hlt : k < 2 ^ 32) (hc : c < 2 ^ 32)
    (hne : c ≠ h.ordinal k) : h.firstWord (h.ordinal k) ≠ h.firstWord c := by
  rw [Host.firstWord_ordinal]
  by_cases hl : h.LowFirst
  · rw [Host.ordinal_lowFirst h k hl] at hne
    rw [Host.firstWord_of_lowFirst hl]
    omega
  · obtain ⟨ho, hw⟩ := not_not.mp hl
    rw [Host.firstWord, ho, hw]
    dsimp only
    omega

theorem mem_ids_handleTxnCommit {k : ℕ} (hk : 1 ≤ k) (hlt : k < 2 ^ 32) (hi : h.ordinal k ∈ s.ids)
    (hid : t.txnId < 2 ^ 32) (hq : ∀ m ∈ s.txnCommits, m.txnId < 2 ^ 32)
    (hsp : EachCommit (fun env s c => c.txnId = h.ordinal k → ¬ ∃ x, Replays env s c x) env s t) :
    h.ordinal k ∈ (handleTxnCommit env s t).ids := by
  have hwork : ∀ (s : Storage h) (t : StorageTask),
      (h.ordinal k ∈ s.ids ∧ ∀ m ∈ t :: s.txnCommits, m.txnId < 2 ^ 32) →
      (t.txnId = h.ordinal k → ¬ ∃ x, Replays env s t x) →
      h.ordinal k ∈ (commitTxn env s t).1.ids ∧
        ∀ m ∈ (commitTxn env s t).1.txnCommits, m.txnId < 2 ^ 32 := by
    rintro s t ⟨hi, hq⟩ hsp
    refine ⟨?_, fun m hm => hq m ?_⟩
    · have hstep := commitTxn_step env s t
      generalize commitTxn env s t = p at hstep ⊢
      cases hstep with
      | closed e _ => rwa [ids_fail]
      | queued _ _ _ => exact hi
      | unknown e _ _ _ => rwa [ids_fail]
      | notStarted x _ _ _ _ => rwa [ids_fail]
      | ran x e hc hcur hl hst =>
        have hne : t.txnId ≠ h.ordinal k := fun heq => hsp heq ⟨x, hc, hcur, hl, hst⟩
        rw [ids_afterCommit, List.mem_filter]
        exact ⟨hi, by simpa using firstWord_ordinal_ne hk hlt (hq t List.mem_cons_self) hne⟩
    · rcases mem_txnCommits_commitTxn hm with hm | rfl
      · exact List.mem_cons_of_mem t hm
      · exact List.mem_cons_self
  have hpop : ∀ (s : Storage h) (t : StorageTask) (s' : Storage h),
      (h.ordinal k ∈ s.ids ∧ ∀ m ∈ s.txnCommits, m.txnId < 2 ^ 32) → popCommit s = some (t, s') →
      h.ordinal k ∈ s'.ids ∧ ∀ m ∈ t :: s'.txnCommits, m.txnId < 2 ^ 32 := by
    rintro s t s' ⟨hi, hq⟩ hp
    obtain ⟨rest, hrest, rfl⟩ := popCommit_eq hp
    exact ⟨hi, fun m hm => hq m (hrest ▸ hm)⟩
  have hstart : h.ordinal k ∈ s.ids ∧ ∀ m ∈ t :: s.txnCommits, m.txnId < 2 ^ 32 :=
    ⟨hi, fun m hm => (List.mem_cons.mp hm).elim (fun heq => heq ▸ hid) (hq m)⟩
  exact (EachCall.invariant hwork hpop hstart hsp).1

/-- What a run with small ids keeps, with the begins that are left. -/
structure Small (n : ℕ) (s : Storage h) : Prop where
  inv : s.Inv
  numbered : Numbered n s
  queue : ∀ m ∈ s.txnCommits, m.txnId < 2 ^ 32

theorem mem_txnCommits_handleMessage {m : StorageTask}
    (hm : m ∈ (handleMessage env s t).txnCommits) : m ∈ s.txnCommits ∨ m = t := by
  have h₁ := handleMessage_step env s t
  generalize handleMessage env s t = s' at h₁ hm
  cases h₁ with
  | stopped _ => exact Or.inl hm
  | set _ _ => exact Or.inl ((frame_handleSet env s t).txnCommits ▸ hm)
  | commit _ _ =>
    have hwork : ∀ (s' : Storage h) (t' : StorageTask),
        (∀ m ∈ t' :: s'.txnCommits, m ∈ s.txnCommits ∨ m = t) → True →
        ∀ m ∈ (commitTxn env s' t').1.txnCommits, m ∈ s.txnCommits ∨ m = t :=
      fun s' t' hs _ m hm => (mem_txnCommits_commitTxn hm).elim
        (fun hm => hs m (List.mem_cons_of_mem t' hm)) fun heq => hs m (heq ▸ List.mem_cons_self)
    have hpop : ∀ (s' : Storage h) (t' : StorageTask) (s'' : Storage h),
        (∀ m ∈ s'.txnCommits, m ∈ s.txnCommits ∨ m = t) → popCommit s' = some (t', s'') →
        ∀ m ∈ t' :: s''.txnCommits, m ∈ s.txnCommits ∨ m = t := fun s' t' s'' hs hp m hm => by
      obtain ⟨rest, hrest, rfl⟩ := popCommit_eq hp
      exact hs m (hrest ▸ hm)
    have hstart : ∀ m ∈ t :: s.txnCommits, m ∈ s.txnCommits ∨ m = t :=
      fun m hm => (List.mem_cons.mp hm).symm
    exact EachCall.invariant hwork hpop hstart (EachCall.of_forall (fun _ _ => trivial) _ _ _) m hm
  | failed t' _ _ _ _ => exact Or.inl (txnCommits_fail s t' ▸ hm)
  | answered t' _ _ _ => exact Or.inl hm
  | notOpened t' _ _ _ _ =>
    rw [txnCommits_fail] at hm
    exact absurd hm List.not_mem_nil
  | opened _ _ _ _ => exact absurd hm List.not_mem_nil
  | ended _ _ _ => exact Or.inl hm
  | closed _ _ _ _ => exact Or.inl hm
  | began _ _ => exact Or.inl hm
  | cancelled x _ _ _ => exact Or.inl hm

theorem small_handleMessage (hs : Small n s) (hid : t.txnId < 2 ^ 32) :
    Small (n + if t.what = .messageTxnBegin ∧ s.tdb.ctx ≠ none then 1 else 0)
      (handleMessage env s t) where
  inv := inv_handleMessage hs.inv t
  numbered := numbered_handleMessage hs.inv hs.numbered
  queue m hm := (mem_txnCommits_handleMessage hm).elim (hs.queue m) fun heq => heq ▸ hid

theorem small_run : ∀ {ms : List StorageTask} {n : ℕ} {s : Storage h}, Small n s →
    (∀ t ∈ ms, t.txnId < 2 ^ 32) → Small (n + begun env s ms) (run env s ms)
  | [], _, _, hs, _ => hs
  | t :: ms, n, s, hs, hid => by
    rw [begun, ← Nat.add_assoc]
    exact small_run (small_handleMessage hs (hid t List.mem_cons_self)) fun t ht =>
      hid t (List.mem_cons_of_mem _ ht)

/-- **A transaction that is spared stays open.** -/
theorem mem_ids_handleMessage (hs : Small n s)
    (hlt : n + (if t.what = .messageTxnBegin ∧ s.tdb.ctx ≠ none then 1 else 0) < 2 ^ 32)
    (hi : i ∈ s.ids) (hid : t.txnId < 2 ^ 32) (hsp : Spares i env s t) :
    i ∈ (handleMessage env s t).ids := by
  obtain ⟨k, hk, hle, rfl⟩ := hs.numbered.ids i hi
  have hlt' : k < 2 ^ 32 := by omega
  have h₁ := handleMessage_step env s t
  generalize hres : handleMessage env s t = s' at h₁
  cases h₁ with
  | stopped _ => exact hi
  | set _ _ => rwa [ids_handleSet]
  | commit hw _ => exact mem_ids_handleTxnCommit hk hlt' hi hid hs.queue (hsp.2 hw)
  | failed t' _ _ _ _ => rwa [ids_fail]
  | answered t' _ _ _ => exact hi
  | notOpened t' _ _ hc _ => exact absurd hi (notMem_ids_of_closed hs.inv hc _)
  | opened _ hc _ _ => exact absurd hi (notMem_ids_of_closed hs.inv hc _)
  | ended _ _ _ => exact hi
  | closed _ _ _ hrows =>
    rw [Storage.ids, hrows] at hi
    exact absurd hi List.not_mem_nil
  | began hw hc =>
    rw [if_pos ⟨hw, hc⟩] at hlt
    have hkey := hs.numbered.key_ne hlt hi
    obtain ⟨x, hx, hxid⟩ := List.mem_map.mp hi
    refine List.mem_map.mpr ⟨x, Table.mem_insert.mpr (Or.inr ⟨hx, ?_⟩), hxid⟩
    change h.firstWord x.txnId ≠ h.firstWord (h.incFirstWord s.txnSeq)
    rw [hxid, hs.numbered.next]
    exact hkey
  | cancelled x hw _ _ =>
    change h.ordinal k ∈
      ({ s with txnState := s.txnState.erase (h.firstWord t.txnId) } : Storage h).ids
    rw [ids_erase, List.mem_filter]
    exact ⟨hi, by simpa using firstWord_ordinal_ne hk hlt' hid (hsp.1 hw)⟩

theorem mem_ids_run : ∀ {ms : List StorageTask} {n : ℕ} {s : Storage h}, Small n s →
    n + begun env s ms < 2 ^ 32 → (∀ t ∈ ms, t.txnId < 2 ^ 32) → i ∈ s.ids →
    Along (handleMessage env) (Spares i env) s ms → i ∈ (run env s ms).ids
  | [], _, _, _, _, _, hi, _ => hi
  | t :: ms, n, s, hs, hlt, hid, hi, hsp => by
    rw [begun, ← Nat.add_assoc] at hlt
    have hstep := mem_ids_handleMessage hs (by omega) hi (hid t List.mem_cons_self) hsp.1
    change i ∈ (run env (handleMessage env s t) ms).ids
    exact mem_ids_run (small_handleMessage hs (hid t List.mem_cons_self)) hlt
      (fun t ht => hid t (List.mem_cons_of_mem _ ht)) hstep hsp.2

theorem running_of_answered {r : StorageTask}
    (hr : (handleMessage env s t).replies = s.replies ++ [r]) : s.stopped = false := by
  by_contra hs
  rw [handleMessage_stopped env (Bool.eq_true_of_not_eq_false hs)] at hr
  exact List.cons_ne_nil r [] (List.self_eq_append_right.mp hr)

theorem mem_ids_of_begun (hw : t.what = .messageTxnBegin) {r : StorageTask}
    (hr : (handleMessage env s t).replies = s.replies ++ [r]) (hsucc : r.success = true)
    (hv : r.value = some i) : i ∈ (handleMessage env s t).ids := by
  have hrun := running_of_answered hr
  by_cases hc : s.tdb.ctx = none
  · have hfail : handleMessage env s t = storageTaskFail s t := by
      rw [handleMessage_eq env hrun, hw]
      exact if_pos (by simp [hc])
    rw [hfail, replies_fail] at hr
    obtain rfl := List.singleton_inj.mp (List.append_cancel_left hr)
    cases hsucc
  · rw [handleMessage_began env hrun hw hc] at hr ⊢
    obtain rfl := List.singleton_inj.mp (List.append_cancel_left hr)
    obtain rfl := Option.some.inj hv
    exact List.mem_map.mpr ⟨_, Table.mem_insert.mpr (Or.inl rfl), rfl⟩

theorem begun_append (env : Env) (ms ms' : List StorageTask) (s : Storage h) :
    begun env s (ms ++ ms') = begun env s ms + begun env (run env s ms) ms' := by
  induction ms generalizing s with
  | nil => exact (Nat.zero_add _).symm
  | cons t ms ih =>
    rw [List.cons_append, begun, begun, ih, Nat.add_assoc]
    rfl

theorem run_append (env : Env) (s : Storage h) (ms ms' : List StorageTask) :
    run env s (ms ++ ms') = run env (run env s ms) ms' := List.foldl_append

theorem mem_ids_of_pending {ms : List StorageTask} (hs : Small n s)
    (hlt : n + begun env s ms < 2 ^ 32) (hid : ∀ t ∈ ms, t.txnId < 2 ^ 32)
    (hp : Pending env s ms i) : i ∈ (run env s ms).ids := by
  obtain ⟨before, b, after, rfl, hw, ⟨r, hr, hsucc, hv⟩, hsp⟩ := hp
  have hsplit : before ++ b :: after = (before ++ [b]) ++ after := by simp
  rw [hsplit] at hlt hid ⊢
  rw [begun_append, ← Nat.add_assoc] at hlt
  have hb : run env s (before ++ [b]) = handleMessage env (run env s before) b :=
    run_append env s before [b]
  have hi : i ∈ (run env s (before ++ [b])).ids := by
    rw [hb] at hr ⊢
    exact mem_ids_of_begun hw hr hsucc hv
  have hsmall : Small (n + begun env s (before ++ [b])) (run env s (before ++ [b])) :=
    small_run hs fun t ht => hid t (List.mem_append_left _ ht)
  rw [run_append]
  exact mem_ids_run hsmall hlt (fun t ht => hid t (List.mem_append_right _ ht)) hi hsp

theorem handleMessage_close (env : Env) (hs : s.stopped = false) (c : ℕ) :
    handleMessage env s (closeTask c) = handleClose env s (closeTask c) := handleMessage_eq env hs _

theorem closeRefused_of_mem (hs : s.Inv) (hi : i ∈ s.ids) (c : ℕ) :
    CloseRefused env s (closeTask c) := by
  have hc : s.tdb.ctx ≠ none := fun hc => notMem_ids_of_closed hs hc i hi
  refine ⟨hc, ?_⟩
  have hrows : s.txn ≠ 0 ∨ s.txnState.rows.length > 0 := by
    obtain ⟨x, hx, _⟩ := List.mem_map.mp hi
    exact Or.inr (List.length_pos_of_mem hx)
  rw [handleMessage_close env (hs.running hc), handleClose, if_neg (by simpa using hc), if_pos hrows]
  exact ⟨{ (closeTask c).setError _ with success := false }, rfl, rfl, if_neg fun hne => hne.1 rfl⟩

end Pending

/-! ## A closed storage -/

section Closed

/-- A closed storage with nothing but a queue. -/
structure Blank (s : Storage h) : Prop where
  running : s.stopped = false
  isClosed : s.tdb.ctx = none
  txn : s.txn = 0
  txnState : s.txnState = ∅

theorem fail_of_empty {s : Storage h} (hs : s.txnState = ∅) (t : StorageTask) :
    storageTaskFail s t = storageTaskComplete s t false := by
  refine storageTaskFail_of_none s t ?_
  rw [Storage.lookupTxn, hs, Table.find_empty]

/-- **A closed storage answers from its database alone**, an open apart. -/
theorem answer_of_closed (env : Env) {d : Tdb} (hd : d.ctx = none) {t : StorageTask}
    (hw : t.what ≠ .messageOpen) : ∃ t' b, ∀ s : Storage h, s.stopped = false → s.tdb = d →
      s.txnState = ∅ → handleMessage env s t = storageTaskComplete s t' b := by
  -- every handler but that of a count fails the task, which is in no transaction
  have hfails : ∀ t', (∀ s : Storage h, s.stopped = false → s.tdb.ctx.isNone = true →
      handleMessage env s t = storageTaskFail s t') → ∃ t' b, ∀ s : Storage h, s.stopped = false →
        s.tdb = d → s.txnState = ∅ → handleMessage env s t = storageTaskComplete s t' b := by
    refine fun t' hfail => ⟨t', false, fun s hrun hs hx => ?_⟩
    have hnone : s.tdb.ctx.isNone = true := by
      rw [hs, hd]
      rfl
    exact (hfail s hrun hnone).trans (fail_of_empty hx t')
  let e : GError := ⟨.storageState, "Storage is not currently open"⟩
  cases hwhat : t.what with
  | messageOpen => exact absurd hwhat hw
  | messageCountKeys =>
    refine ⟨{ t with value := some d.count }, true, fun s hrun hs _ => ?_⟩
    have hcount : handleMessage env s t = handleCountKeys s t := by
      rw [handleMessage_eq env hrun, hwhat]
    rw [hcount, ← hs]
    rfl
  | messageTxnCommit =>
    refine hfails (t.setError ⟨.storageState, "Storage not opened"⟩) fun s hrun hnone => ?_
    have hcommit : commitTxn env s t =
        (storageTaskFail s (t.setError ⟨.storageState, "Storage not opened"⟩), false) :=
      if_pos hnone
    rw [handleMessage_commit env hrun hwhat, handleTxnCommit_eq, hcommit]
    rfl
  | messageGet =>
    refine hfails (t.setError e) fun s hrun hnone => ?_
    rw [handleMessage_eq env hrun, hwhat]
    exact if_pos hnone
  | messageSet =>
    refine hfails (t.setError e) fun s hrun hnone => ?_
    rw [handleMessage_set env hrun hwhat]
    exact if_pos hnone
  | messageClose =>
    refine hfails (t.setError e) fun s hrun hnone => ?_
    rw [handleMessage_eq env hrun, hwhat]
    exact if_pos hnone
  | messageTxnBegin =>
    refine hfails t fun s hrun hnone => ?_
    rw [handleMessage_eq env hrun, hwhat]
    exact if_pos hnone
  | messageTxnCancel =>
    refine hfails t fun s hrun hnone => ?_
    rw [handleMessage_eq env hrun, hwhat]
    exact if_pos hnone

theorem handleMessage_ended (env : Env) {s : Storage h} (hs : Blank s) {t : StorageTask}
    (hw : t.what = .messageOpen) (hq : s.txnCommits ≠ []) :
    handleMessage env s t = { s with stopped := true } := by
  have hnone : ¬ s.tdb.ctx.isSome = true := by simp [hs.isClosed]
  rw [handleMessage_eq env hs.running, hw]
  exact (if_neg hnone).trans (if_pos hq)

/-- **What is in the queue of a closed storage has no effect** but that an open ends the process. -/
theorem run_clearTxns (env : Env) : ∀ (ms : List StorageTask) {s : Storage h}, Blank s →
    ((run env s ms).tdb = (run env s.clearTxns ms).tdb ∧
      (run env s ms).replies = (run env s.clearTxns ms).replies) ∨
    (s.txnCommits ≠ [] ∧ (run env s ms).stopped = true ∧ (run env s ms).tdb = s.tdb)
  | [], _, _ => Or.inl ⟨rfl, rfl⟩
  | t :: ms, s, hs => by
    change ((run env (handleMessage env s t) ms).tdb =
          (run env (handleMessage env s.clearTxns t) ms).tdb ∧
        (run env (handleMessage env s t) ms).replies =
          (run env (handleMessage env s.clearTxns t) ms).replies) ∨
      (_ ∧ (run env (handleMessage env s t) ms).stopped = true ∧
        (run env (handleMessage env s t) ms).tdb = s.tdb)
    by_cases hw : t.what = .messageOpen
    · by_cases hq : s.txnCommits = []
      · have hsame : s.clearTxns = s := by
          unfold Storage.clearTxns
          rw [← hs.txn, ← hq, ← hs.txnState]
        rw [hsame]
        exact Or.inl ⟨rfl, rfl⟩
      · rw [handleMessage_ended env hs hw hq, run_stopped env rfl]
        exact Or.inr ⟨hq, rfl, rfl⟩
    · obtain ⟨t', b, hans⟩ := answer_of_closed (h := h) env hs.isClosed hw
      have hclear : handleMessage env s.clearTxns t = (storageTaskComplete s t' b).clearTxns :=
        hans s.clearTxns hs.running rfl rfl
      rw [hans s hs.running rfl hs.txnState, hclear]
      exact run_clearTxns env ms ⟨hs.running, hs.isClosed, hs.txn, hs.txnState⟩

theorem blank_of_closed {s : Storage h} {c : ℕ} {r : StorageTask}
    (hr : (handleMessage env s (closeTask c)).replies = s.replies ++ [r]) (hsucc : r.success = true) :
    Blank (handleMessage env s (closeTask c)) := by
  have hfail : ∀ t', handleMessage env s (closeTask c) = storageTaskFail s t' → False := by
    intro t' heq
    rw [heq, replies_fail] at hr
    obtain rfl := List.singleton_inj.mp (List.append_cancel_left hr)
    cases hsucc
  have hrun := running_of_answered hr
  rw [handleMessage_close env hrun] at hfail ⊢
  unfold handleClose at hfail ⊢
  split_ifs at hfail ⊢ with hc hp hr
  · exact (hfail _ rfl).elim
  · exact (hfail _ rfl).elim
  · exact (hfail _ rfl).elim
  · obtain ⟨h₀, hrows⟩ := not_or.mp hp
    have hnil : s.txnState.rows = [] := by simpa using hrows
    exact ⟨hrun, rfl, not_not.mp h₀, Table.ext hnil⟩

theorem nothingLeaks_of_blank {s : Storage h} (hs : Blank s) : NothingLeaks env s := by
  refine ⟨?_, fun ms => run_clearTxns env ms hs⟩
  rw [Storage.logs, hs.txnState]
  rfl

end Closed

/-- **Closing and opening again loses and leaks no transactional work**, on every host: while a
transaction that was begun is neither cancelled nor run, a close is refused; and after a close that
succeeds nothing that was queued before is applied. -/
theorem close_keeps_work (env : Env) (disk : Bytes → Records) (ms : List StorageTask)
    (hid : ∀ t ∈ ms, t.txnId < 2 ^ 32) (hb : begun env (catalinaStorageInit h disk) ms < 2 ^ 32) :
    (∀ i c, Pending env (catalinaStorageInit h disk) ms i →
      CloseRefused env (run env (catalinaStorageInit h disk) ms) (closeTask c)) ∧
    ∀ c r, (handleMessage env (run env (catalinaStorageInit h disk) ms) (closeTask c)).replies =
        (run env (catalinaStorageInit h disk) ms).replies ++ [r] → r.success = true →
      NothingLeaks env
        (handleMessage env (run env (catalinaStorageInit h disk) ms) (closeTask c)) := by
  have hs : Small 0 (catalinaStorageInit h disk) :=
    ⟨inv_init disk, numbered_init disk, fun m hm => absurd hm List.not_mem_nil⟩
  constructor
  · intro i c hp
    exact closeRefused_of_mem (inv_run env disk ms)
      (mem_ids_of_pending hs (by rwa [Nat.zero_add]) hid hp) c
  · intro c r hr hsucc
    exact nothingLeaks_of_blank (blank_of_closed hr hsucc)

/-- A transaction with a set. -/
def pendingSet : List StorageTask := [openTask 0 [47], beginTask 1, setTask 2 1 [107] [7]]

theorem close_refused_pendingSet :
    CloseRefused (fun _ => {}) (run (fun _ => {}) (catalinaStorageInit lp64 fun _ => ∅) pendingSet)
      (closeTask 3) := by
  have hid : ∀ t ∈ pendingSet, t.txnId < 2 ^ 32 := by decide
  have hpending : Pending (fun _ => {}) (catalinaStorageInit lp64 fun _ => ∅) pendingSet 1 := by
    refine ⟨[openTask 0 [47]], beginTask 1, [setTask 2 1 [107] [7]], rfl, rfl, ?_, ⟨?_, ?_⟩, trivial⟩
    · exact ⟨_, rfl, rfl, rfl⟩
    · intro hw
      cases hw
    · intro hw
      cases hw
  exact (close_keeps_work _ _ _ hid (by decide)).1 1 3 hpending

end Catalina
