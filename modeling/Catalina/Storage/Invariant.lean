import Catalina.Storage.Steps

/-!
# What every reachable state satisfies

* `Storage.Inv`: a closed storage has no current and no open transaction; the logs hold sets that
  name a transaction and the queue holds commits; a process ends with its storage closed.
* **`inv_run`**: every reachable state satisfies it.
* **`eachCommit_run`**: what it gives at one commit, every commit of a run has.
* `OpensQuiet`, `running_run`: a process goes on until an open finds a queue; `KeepsRecords`: an open
  that leaves the records alone.
-/

namespace Catalina

variable {h : Host} {env : Env}

/-- Every message in a log satisfies `P`. -/
def Storage.Logged (s : Storage h) (P : StorageTask → Prop) : Prop :=
  ∀ p ∈ s.logs, ∀ m ∈ p.2, P m

section Logged

variable {s : Storage h} {P : StorageTask → Prop}

theorem logged_iff : s.Logged P ↔ ∀ x ∈ s.txnState.rows, ∀ m ∈ x.msgs, P m := by
  unfold Storage.Logged Storage.logs
  simp only [List.mem_map, forall_exists_index, and_imp, forall_apply_eq_imp_iff₂]

theorem logged_fail (hs : s.Logged P) (t : StorageTask) : (storageTaskFail s t).Logged P := by
  unfold Storage.Logged
  rw [logs_fail]
  exact hs

theorem logged_modifyMsgs (hs : s.Logged P) (id : ℕ) {f : List StorageTask → List StorageTask}
    (hf : ∀ l, (∀ m ∈ l, P m) → ∀ m ∈ f l, P m) : (s.modifyMsgs id f).Logged P := by
  rw [logged_iff] at hs ⊢
  intro x hx
  rcases mem_modifyMsgs.mp hx with ⟨hx, _⟩ | ⟨y, hy, _, rfl⟩
  · exact hs x hx
  · exact hf y.msgs (hs y hy)

theorem logged_erase (hs : s.Logged P) (k : ℕ) :
    ({ s with txnState := s.txnState.erase k } : Storage h).Logged P := by
  rw [logged_iff] at hs ⊢
  exact fun x hx => hs x (Table.mem_erase.mp hx).1

theorem logged_insert (hs : s.Logged P) (id : ℕ) :
    ({ s with txnState := s.txnState.insert { txnId := id } } : Storage h).Logged P := by
  rw [logged_iff] at hs ⊢
  intro x hx m hm
  rcases Table.mem_insert.mp hx with rfl | ⟨hx, _⟩
  · cases hm
  · exact hs x hx m hm

theorem logged_handleSet (hs : s.Logged P) {t : StorageTask} (ht : t.txnId ≠ 0 → P t) :
    (handleSet env s t).Logged P := by
  have h₁ := handleSet_step env s t
  generalize handleSet env s t = s' at h₁ ⊢
  cases h₁ with
  | closed e _ => exact logged_fail hs _
  | unknown e _ _ _ _ => exact logged_fail hs _
  | queued x _ h₀ _ _ =>
    refine logged_modifyMsgs hs t.txnId fun l hl m hm => ?_
    rcases List.mem_cons.mp hm with rfl | hm
    · exact ht h₀
    · exact hl m hm
  | dropped _ _ _ => exact hs
  | failed e _ _ _ => exact logged_fail hs _
  | stored r _ _ _ => exact hs

theorem logged_runMsgs (id : ℕ) {ms : List StorageTask} (hms : ∀ m ∈ ms, P m)
    (hs : s.Logged P) : (runMsgs env id ms s).1.Logged P := by
  have hstep : ∀ m ∈ ms, ∀ s' : Storage h, s'.Logged P → (handleSet env s' m).Logged P :=
    fun m hm _ hs' => logged_handleSet hs' fun _ => hms m hm
  exact runMsgs_invariant id ms hstep hs

theorem logged_beginTxn (hs : s.Logged P) (t : StorageTask) : (beginTxn s t).Logged P :=
  logged_modifyMsgs hs t.txnId fun _ hl m hm => hl m (List.mem_reverse.mp hm)

theorem Storage.Logged.of_lookup (hs : s.Logged P) {id : ℕ} {x : TxnState}
    (hl : s.lookupTxn id = some x) : ∀ m ∈ x.msgs, P m :=
  logged_iff.mp hs x (Table.find_eq_some.mp hl).1

theorem logged_replay (hs : s.Logged P) {t : StorageTask} {x : TxnState}
    (hl : s.lookupTxn t.txnId = some x) : (replay env s t x).1.Logged P :=
  logged_runMsgs t.txnId (fun m hm => hs.of_lookup hl m (List.mem_reverse.mp hm))
    (logged_beginTxn hs t)

theorem logged_commitTxn (hs : s.Logged P) (t : StorageTask) :
    (commitTxn env s t).1.Logged P := by
  have h₁ := commitTxn_step env s t
  generalize commitTxn env s t = p at h₁ ⊢
  cases h₁ with
  | closed e _ => exact logged_fail hs _
  | queued _ _ _ => exact hs
  | unknown e _ _ _ => exact @logged_fail h { s with txn := t.txnId } P hs _
  | notStarted x _ _ _ _ => exact @logged_fail h { s with txn := t.txnId } P hs _
  | ran x e _ _ hl _ => exact logged_erase (logged_replay hs hl) _

theorem logged_handleTxnCommit (hs : s.Logged P) (t : StorageTask) :
    (handleTxnCommit env s t).Logged P := by
  have hwork : ∀ (s : Storage h) (t : StorageTask), s.Logged P → True →
      (commitTxn env s t).1.Logged P := fun _ t hs _ => logged_commitTxn hs t
  have hpop : ∀ (s : Storage h) (t : StorageTask) (s' : Storage h), s.Logged P →
      popCommit s = some (t, s') → s'.Logged P := by
    intro s t s' hs hp
    unfold popCommit at hp
    split at hp
    · cases hp
    · cases hp
      exact hs
  exact EachCall.invariant hwork hpop hs (EachCall.of_forall (fun _ _ => trivial) _ _ _)

/-- **Every message keeps the logs** to what the sets put there. -/
theorem logged_handleMessage (hs : s.Logged P) {t : StorageTask} (ht : t.what = .messageSet → P t) :
    (handleMessage env s t).Logged P := by
  have h₁ := handleMessage_step env s t
  generalize handleMessage env s t = s' at h₁ ⊢
  cases h₁ with
  | stopped _ | ended _ _ _ => exact hs
  | set hw _ => exact logged_handleSet hs fun _ => ht hw
  | commit _ _ => exact logged_handleTxnCommit hs t
  | failed t' _ _ _ _ => exact logged_fail hs t'
  | answered _ _ _ _ => exact hs
  | notOpened t' _ _ _ _ => exact logged_fail (fun _ hp => absurd hp List.not_mem_nil) t'
  | opened _ _ _ _ => exact fun _ hp => absurd hp List.not_mem_nil
  | closed _ _ _ _ => exact hs
  | began _ _ => exact logged_insert hs _
  | cancelled _ _ _ _ => exact logged_erase hs _

end Logged

/-! ## The invariant -/

/-- What every reachable state satisfies. -/
structure Storage.Inv (s : Storage h) : Prop where
  closed : s.tdb.ctx = none → s.txn = 0 ∧ s.txnState.rows = []
  logged : s.Logged fun m => m.what = .messageSet ∧ m.txnId ≠ 0
  queued : ∀ t ∈ s.txnCommits, t.what = .messageTxnCommit
  stopped : s.stopped = true → s.tdb.ctx = none

theorem inv_of_empty {s : Storage h} (h₀ : s.txn = 0) (hx : s.txnState = ∅)
    (hq : s.txnCommits = []) (hs : s.stopped = true → s.tdb.ctx = none) : s.Inv where
  closed _ := ⟨h₀, by rw [hx]; rfl⟩
  logged := by
    rw [logged_iff, hx]
    exact fun _ hm => absurd hm List.not_mem_nil
  queued := by
    rw [hq]
    exact fun _ ht => absurd ht List.not_mem_nil
  stopped := hs

theorem inv_init (disk : Bytes → Records) : (catalinaStorageInit h disk).Inv :=
  inv_of_empty rfl rfl rfl fun _ => rfl

theorem Storage.Inv.running {s : Storage h} (hs : s.Inv) (hc : s.tdb.ctx ≠ none) :
    s.stopped = false := Bool.eq_false_of_not_eq_true fun hstop => hc (hs.stopped hstop)

theorem lookupTxn_of_closed {s : Storage h} (hs : s.Inv) (hc : s.tdb.ctx = none) (id : ℕ) :
    s.lookupTxn id = none := by
  unfold Storage.lookupTxn
  rw [Table.find_eq_none, (hs.closed hc).2]
  exact fun x hx => absurd hx List.not_mem_nil

theorem inv_fail {s : Storage h} (hs : s.Inv) (t : StorageTask) : (storageTaskFail s t).Inv where
  closed hc := by
    rw [tdb_fail] at hc
    rw [txn_fail, ← List.map_eq_nil_iff]
    refine ⟨(hs.closed hc).1, (logs_fail s t).trans ?_⟩
    rw [Storage.logs, (hs.closed hc).2, List.map_nil]
  logged := logged_fail hs.logged t
  queued := by rw [txnCommits_fail]; exact hs.queued
  stopped := by rw [stopped_fail, tdb_fail]; exact hs.stopped

theorem ctx_of_file {s s' : Storage h} (hf : s'.tdb.file = s.tdb.file) (hc : s.tdb.ctx ≠ none) :
    s'.tdb.ctx ≠ none := by
  have hsome := Tdb.isSome_ctx_of_file hf
  rw [← Option.isSome_iff_ne_none] at hc ⊢
  rw [hsome, hc]

theorem inv_handleSet {s : Storage h} (hs : s.Inv) {t : StorageTask} (ht : t.what = .messageSet) :
    (handleSet env s t).Inv := by
  have hf := frame_handleSet env s t
  have hlog : (handleSet env s t).Logged fun m => m.what = .messageSet ∧ m.txnId ≠ 0 :=
    logged_handleSet hs.logged fun h₀ => ⟨ht, h₀⟩
  have h₁ := handleSet_step env s t
  generalize handleSet env s t = s' at h₁ hf hlog ⊢
  cases h₁ with
  | closed e _ => exact inv_fail hs _
  | unknown e _ _ _ _ => exact inv_fail hs _
  | queued x hc _ _ _ => exact ⟨fun hn => absurd hn hc, hlog, hs.queued, hs.stopped⟩
  | dropped _ _ _ => exact hs
  | failed e _ _ _ => exact inv_fail hs _
  | stored r hc _ _ =>
    exact ⟨fun hn => absurd hn (ctx_of_file hf.file hc), hlog, hs.queued,
      fun hstop => absurd (hs.stopped hstop) hc⟩

theorem inv_commitTxn {s : Storage h} {t : StorageTask} (hs : s.Inv)
    (ht : t.what = .messageTxnCommit) : (commitTxn env s t).1.Inv := by
  have hlog := @logged_commitTxn h env _ _ hs.logged t
  have h₁ := commitTxn_step env s t
  generalize commitTxn env s t = p at h₁ hlog ⊢
  cases h₁ with
  | closed e _ => exact inv_fail hs _
  | queued hc _ _ =>
    refine ⟨fun hn => absurd hn hc, hlog, fun t' ht' => ?_, hs.stopped⟩
    rcases List.mem_append.mp ht' with ht' | ht'
    · exact hs.queued t' ht'
    · rwa [List.mem_singleton.mp ht']
  | unknown e hc _ _ =>
    refine ⟨fun hn => absurd hn ?_, hlog, ?_, ?_⟩
    · rw [tdb_fail]
      exact hc
    · rw [txnCommits_fail]
      exact hs.queued
    · rw [stopped_fail, tdb_fail]
      exact hs.stopped
  | notStarted x hc _ _ _ =>
    refine ⟨fun hn => absurd hn ?_, hlog, ?_, ?_⟩
    · rw [tdb_fail]
      exact hc
    · rw [txnCommits_fail]
      exact hs.queued
    · rw [stopped_fail, tdb_fail]
      exact hs.stopped
  | ran x e hc _ _ _ =>
    refine ⟨fun hn => absurd hn (ctx_of_file (file_afterCommit env s t x e) hc), hlog, ?_,
      fun hstop => ?_⟩
    · rw [txnCommits_afterCommit]
      exact hs.queued
    · rw [stopped_afterCommit] at hstop
      exact absurd (hs.stopped hstop) hc

theorem mem_txnCommits_commitTxn {s : Storage h} {t m : StorageTask}
    (hm : m ∈ (commitTxn env s t).1.txnCommits) : m ∈ s.txnCommits ∨ m = t := by
  have h₁ := commitTxn_step env s t
  generalize commitTxn env s t = p at h₁ hm
  cases h₁ with
  | closed e _ => exact Or.inl ((txnCommits_fail s _) ▸ hm)
  | queued _ _ _ => exact (List.mem_append.mp hm).imp_right List.mem_singleton.mp
  | unknown e _ _ _ => exact Or.inl ((txnCommits_fail { s with txn := t.txnId } _) ▸ hm)
  | notStarted x _ _ _ _ => exact Or.inl ((txnCommits_fail { s with txn := t.txnId } _) ▸ hm)
  | ran x e _ _ _ _ => exact Or.inl ((txnCommits_afterCommit env s t x e) ▸ hm)

theorem popCommit_eq {s s' : Storage h} {t : StorageTask} (hp : popCommit s = some (t, s')) :
    ∃ rest, s.txnCommits = t :: rest ∧ s' = { s with txnCommits := rest } := by
  unfold popCommit at hp
  split at hp
  · cases hp
  · next rest hq => cases hp; exact ⟨rest, hq, rfl⟩

theorem inv_popCommit {s s' : Storage h} {t : StorageTask} (hs : s.Inv)
    (hp : popCommit s = some (t, s')) : s'.Inv ∧ t.what = .messageTxnCommit := by
  obtain ⟨rest, hq, rfl⟩ := popCommit_eq hp
  refine ⟨⟨hs.closed, hs.logged, fun t' ht' => hs.queued t' ?_, hs.stopped⟩, hs.queued t ?_⟩
  · rw [hq]
    exact List.mem_cons_of_mem t ht'
  · rw [hq]
    exact List.mem_cons_self

theorem inv_handleTxnCommit {s : Storage h} {t : StorageTask} (hs : s.Inv)
    (ht : t.what = .messageTxnCommit) : (handleTxnCommit env s t).Inv := by
  have hwork : ∀ (s : Storage h) (t : StorageTask), s.Inv ∧ t.what = .messageTxnCommit → True →
      (commitTxn env s t).1.Inv := fun _ _ hst _ => inv_commitTxn hst.1 hst.2
  have hpop : ∀ (s : Storage h) (t : StorageTask) (s' : Storage h), s.Inv →
      popCommit s = some (t, s') → s'.Inv ∧ t.what = .messageTxnCommit :=
    fun _ _ _ hs hp => inv_popCommit hs hp
  exact EachCall.invariant hwork hpop ⟨hs, ht⟩ (EachCall.of_forall (fun _ _ => trivial) _ _ _)

theorem inv_handleMessage {s : Storage h} (hs : s.Inv) (t : StorageTask) :
    (handleMessage env s t).Inv := by
  have h₁ := handleMessage_step env s t
  generalize handleMessage env s t = s' at h₁ ⊢
  cases h₁ with
  | stopped _ => exact hs
  | set hw _ => exact inv_handleSet hs hw
  | commit hw _ => exact inv_handleTxnCommit hs hw
  | failed t' _ _ _ _ => exact inv_fail hs t'
  | answered t' _ _ _ => exact ⟨hs.closed, hs.logged, hs.queued, hs.stopped⟩
  | notOpened t' _ _ hc _ =>
    have hctx : (s.tdb.openFile t.key (env t.id)).ctx = none := by rw [Tdb.ctx_openFile, hc]
    exact inv_fail (inv_of_empty rfl rfl rfl fun _ => hctx) t'
  | opened _ _ _ hrun =>
    exact inv_of_empty rfl rfl rfl fun hstop => Bool.noConfusion (hrun.symm.trans hstop)
  | ended _ hc _ => exact ⟨hs.closed, hs.logged, hs.queued, fun _ => hc⟩
  | closed _ _ h₀ hrows => exact ⟨fun _ => ⟨h₀, hrows⟩, hs.logged, hs.queued, fun _ => rfl⟩
  | began _ hc =>
    exact ⟨fun hn => absurd hn hc, logged_insert hs.logged _, hs.queued, hs.stopped⟩
  | cancelled x _ hc _ =>
    exact ⟨fun hn => absurd hn hc, logged_erase hs.logged _, hs.queued, hs.stopped⟩

theorem inv_run (env : Env) (disk : Bytes → Records) (ms : List StorageTask) :
    (run env (catalinaStorageInit h disk) ms).Inv := by
  unfold run
  have hstep : ∀ (s : Storage h) (t : StorageTask), s.Inv → True → (handleMessage env s t).Inv :=
    fun _ t hs _ => inv_handleMessage hs t
  exact Along.invariant hstep (inv_init disk) (Along.of_forall (fun _ _ => trivial) _ _)

/-- **The rule for commits**: what holds of a commit in every state with the invariant holds of
every commit of a run. -/
theorem eachCommit_run {C : Env → Storage h → StorageTask → Prop}
    (hC : ∀ (s : Storage h) (t : StorageTask), s.Inv → C env s t) (disk : Bytes → Records)
    (ms : List StorageTask) :
    Along (handleMessage env) (fun s t => t.what = .messageTxnCommit → EachCommit C env s t)
      (catalinaStorageInit h disk) ms := by
  have hwork : ∀ (s : Storage h) (t : StorageTask), s.Inv ∧ t.what = .messageTxnCommit → True →
      (commitTxn env s t).1.Inv ∧ C env s t :=
    fun s t hst _ => ⟨inv_commitTxn hst.1 hst.2, hC s t hst.1⟩
  have hpop : ∀ (s : Storage h) (t : StorageTask) (s' : Storage h), s.Inv →
      popCommit s = some (t, s') → s'.Inv ∧ t.what = .messageTxnCommit :=
    fun _ _ _ hs hp => inv_popCommit hs hp
  have hstep : ∀ (s : Storage h) (t : StorageTask), s.Inv → True → (handleMessage env s t).Inv ∧
      (t.what = .messageTxnCommit → EachCommit C env s t) :=
    fun s t hs _ => ⟨inv_handleMessage hs t, fun hw => EachCall.imp hwork hpop ⟨hs, hw⟩
      (EachCall.of_forall (fun _ _ => trivial) _ _ _)⟩
  exact Along.imp hstep (inv_init disk) (Along.of_forall (fun _ _ => trivial) _ _)

/-! ## The process -/

/-- An open finds no commit in the queue. -/
def OpensQuiet (s : Storage h) (t : StorageTask) : Prop :=
  t.what = .messageOpen → s.tdb.ctx = none → s.txnCommits = []

theorem stopped_commitTxn (env : Env) (s : Storage h) (t : StorageTask) :
    (commitTxn env s t).1.stopped = s.stopped := by
  have h₁ := commitTxn_step env s t
  generalize commitTxn env s t = p at h₁ ⊢
  cases h₁ with
  | closed e _ => exact stopped_fail s _
  | queued _ _ _ => rfl
  | unknown e _ _ _ => exact stopped_fail { s with txn := t.txnId } _
  | notStarted x _ _ _ _ => exact stopped_fail { s with txn := t.txnId } _
  | ran x e _ _ _ _ => exact stopped_afterCommit env s t x e

theorem stopped_handleTxnCommit (env : Env) (s : Storage h) (t : StorageTask) :
    (handleTxnCommit env s t).stopped = s.stopped := by
  have hwork : ∀ (s' : Storage h) (t' : StorageTask), s'.stopped = s.stopped → True →
      (commitTxn env s' t').1.stopped = s.stopped :=
    fun s' t' hs' _ => (stopped_commitTxn env s' t').trans hs'
  have hpop : ∀ (s' : Storage h) (t' : StorageTask) (s'' : Storage h), s'.stopped = s.stopped →
      popCommit s' = some (t', s'') → s''.stopped = s.stopped := fun s' t' s'' hs' hp => by
    obtain ⟨rest, _, rfl⟩ := popCommit_eq hp
    exact hs'
  exact EachCall.invariant hwork hpop rfl (EachCall.of_forall (fun _ _ => trivial) _ _ _)

/-- **The process goes on** as long as opens are quiet. -/
theorem running_handleMessage {s : Storage h} (hs : s.stopped = false) {t : StorageTask}
    (hq : OpensQuiet s t) : (handleMessage env s t).stopped = false := by
  have h₁ := handleMessage_step env s t
  generalize handleMessage env s t = s' at h₁ ⊢
  cases h₁ with
  | stopped _ => exact hs
  | set _ _ => exact (frame_handleSet env s t).stopped.trans hs
  | commit _ _ => exact (stopped_handleTxnCommit env s t).trans hs
  | failed t' _ _ _ _ => exact (stopped_fail s t').trans hs
  | notOpened t' _ _ _ _ =>
    exact (stopped_fail { s.clearTxns with tdb := s.tdb.openFile t.key (env t.id) } t').trans hs
  | ended hw hc hne => exact absurd (hq hw hc) hne
  | answered _ _ _ _ | opened _ _ _ _ | closed _ _ _ _ | began _ _ | cancelled _ _ _ _ => exact hs

theorem running_run {s : Storage h} (hs : s.stopped = false) {ts : List StorageTask}
    (hq : Along (handleMessage env) OpensQuiet s ts) : (run env s ts).stopped = false := by
  have hstep : ∀ (s : Storage h) (t : StorageTask), s.stopped = false → OpensQuiet s t →
      (handleMessage env s t).stopped = false := fun _ _ hs hq => running_handleMessage hs hq
  exact Along.invariant hstep hs hq

/-- What an open finds in `o_flags` does not empty a file with records. -/
def KeepsRecords (env : Env) (s : Storage h) (t : StorageTask) : Prop :=
  t.what = .messageOpen → s.tdb.ctx = none → (env t.id).truncates = true → s.tdb.disk t.key = ∅

theorem KeepsRecords.openFile {s : Storage h} {t : StorageTask} (hk : KeepsRecords env s t)
    (hw : t.what = .messageOpen) (hc : s.tdb.ctx = none) :
    s.tdb.openFile t.key (env t.id) = s.tdb := by
  unfold Tdb.openFile
  split_ifs with ht
  · exact Tdb.truncated_of_empty (hk hw hc ht)
  · rfl

theorem closed_handleMessage {s : Storage h} (hs : s.stopped = true → s.tdb.ctx = none)
    (t : StorageTask) :
    (handleMessage env s t).stopped = true → (handleMessage env s t).tdb.ctx = none := by
  intro hstop
  by_cases hrun : s.stopped = true
  · rw [handleMessage_stopped env hrun]
    exact hs hrun
  by_contra hc
  have hquiet : OpensQuiet s t := fun hw hnone => by
    by_contra hq
    rw [handleMessage_eq env (Bool.eq_false_of_not_eq_true hrun), hw] at hc
    dsimp only at hc
    rw [handleOpen, if_neg (by simp [hnone]), if_pos hq] at hc
    exact hc hnone
  rw [running_handleMessage (Bool.eq_false_of_not_eq_true hrun) hquiet] at hstop
  cases hstop

theorem closed_run {s : Storage h} (hs : s.stopped = true → s.tdb.ctx = none)
    (ts : List StorageTask) : (run env s ts).stopped = true → (run env s ts).tdb.ctx = none := by
  have hstep : ∀ (s : Storage h) (t : StorageTask), (s.stopped = true → s.tdb.ctx = none) → True →
      (handleMessage env s t).stopped = true → (handleMessage env s t).tdb.ctx = none :=
    fun _ t hs _ => closed_handleMessage hs t
  exact Along.invariant (I := fun s => s.stopped = true → s.tdb.ctx = none) hstep hs
    (Along.of_forall (fun _ _ => trivial) s ts)

theorem run_stopped (env : Env) {s : Storage h} (hs : s.stopped = true) :
    ∀ ts : List StorageTask, run env s ts = s
  | [] => rfl
  | t :: ts => by
    change run env (handleMessage env s t) ts = s
    rw [handleMessage_stopped env hs]
    exact run_stopped env hs ts

end Catalina
