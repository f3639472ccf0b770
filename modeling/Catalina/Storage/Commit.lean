import Catalina.Storage.Replay

/-!
# Commits are all or nothing, when every replay can finish

A commit whose replay stops is answered with failure, but `tdb_transaction_recover` does not undo
the sets already replayed: the `tdb` transaction stays open.

* `CommitAtomic`: what a commit must do, given its answer.
* `GoodCommit`: every set of the log it replays can be stored, and the error slot is empty.
* `commitTxn_atomic`: one commit, from a settled state.
* **`commits_atomic`**: every commit of a run in which every commit is good.
* `commits_not_atomic`: a run that ends with a commit half done.
-/

namespace Catalina

variable {h : Host} {env : Env}

/-- The commit `t` gets to the replay of the log of `x`. -/
structure Replays (env : Env) (s : Storage h) (t : StorageTask) (x : TxnState) : Prop where
  isOpen : s.tdb.ctx ≠ none
  current : s.txn = 0 ∨ s.txn = t.txnId
  lookup : s.lookupTxn t.txnId = some x
  started : (env t.id).tdbTransactionStart = true

theorem commitTxn_ran {s : Storage h} {t : StorageTask} {x : TxnState} (hr : Replays env s t x) :
    ∃ e, commitTxn env s t = (afterCommit env s t x e, true) := by
  have h₁ := commitTxn_step env s t
  generalize commitTxn env s t = p at h₁ ⊢
  cases h₁ with
  | closed e hc => exact absurd hc hr.isOpen
  | queued _ h₀ hne => exact (hr.current.elim h₀ hne).elim
  | unknown e _ _ hl =>
    rw [hr.lookup] at hl
    cases hl
  | notStarted y _ _ _ hst =>
    rw [hr.started] at hst
    cases hst
  | ran y e _ _ hl _ =>
    obtain rfl := Option.some.inj (hr.lookup.symm.trans hl)
    exact ⟨e, rfl⟩

theorem replies_of_not_replays {s : Storage h} {t : StorageTask} (hn : ∀ x, ¬ Replays env s t x) :
    (commitTxn env s t).1.replies = s.replies ∨
      ∃ r, (commitTxn env s t).1.replies = s.replies ++ [r] := by
  have h₁ := commitTxn_step env s t
  generalize commitTxn env s t = p at h₁ ⊢
  cases h₁ with
  | closed e _ => exact Or.inr ⟨_, replies_fail s _⟩
  | queued _ _ _ => exact Or.inl rfl
  | unknown e _ _ _ => exact Or.inr ⟨_, replies_fail _ _⟩
  | notStarted x _ _ _ _ => exact Or.inr ⟨_, replies_fail _ _⟩
  | ran x e hc hcur hl hst => exact absurd ⟨hc, hcur, hl, hst⟩ (hn x)

/-- If the commit `t` replays a log, every set in it names the transaction and can be stored, and
no error is left in the slot that would stop the replay. -/
def GoodCommit (env : Env) (s : Storage h) (t : StorageTask) : Prop :=
  ∀ x, Replays env s t x →
    (∀ m ∈ x.msgs, m.txnId = t.txnId ∧ Storable env m) ∧ (x.error = none ∨ x.msgs = [])

/-- All or nothing: on success every set of the log is applied in the order posted, on failure every
file shows what it showed before, and no `tdb` transaction is left open. -/
structure CommitAtomic (env : Env) (s : Storage h) (t : StorageTask) : Prop where
  success : ∀ rs r, (commitTxn env s t).1.replies = s.replies ++ rs ++ [r] → r.success = true →
    ∃ x, s.lookupTxn t.txnId = some x ∧ (∀ m ∈ x.msgs, Storable env m) ∧
      ∀ f, (commitTxn env s t).1.tdb.view f =
        if s.tdb.file = some f then applyLog env x.msgs.reverse (s.tdb.view f) else s.tdb.view f
  failure : ∀ rs r, (commitTxn env s t).1.replies = s.replies ++ rs ++ [r] → r.success = false →
    ∀ f, (commitTxn env s t).1.tdb.view f = s.tdb.view f
  settled : (commitTxn env s t).1.tdb.Settled

/-! ## One commit -/

theorem commitAtomic_of_tdb {s : Storage h} {t : StorageTask} (hs : s.tdb.Settled)
    (htdb : (commitTxn env s t).1.tdb = s.tdb)
    (hr : (commitTxn env s t).1.replies = s.replies ∨
      ∃ r, (commitTxn env s t).1.replies = s.replies ++ [r] ∧ r.success = false) :
    CommitAtomic env s t where
  success rs r heq hsucc := by
    rcases hr with hr | ⟨r', hr, hfail⟩
    · have hlen := congrArg List.length (hr.symm.trans heq)
      simp only [List.length_append, List.length_cons, List.length_nil] at hlen
      omega
    · rw [hr] at heq
      rw [last_reply heq, hfail] at hsucc
      cases hsucc
  failure _ _ _ _ f := by rw [htdb]
  settled := by rwa [htdb]

/-- **A good commit is all or nothing.** -/
theorem commitTxn_atomic {s : Storage h} {t : StorageTask} (hs : s.tdb.Settled)
    (hg : GoodCommit env s t) : CommitAtomic env s t := by
  have h₁ := commitTxn_step env s t
  generalize hp : commitTxn env s t = p at h₁
  cases h₁ with
  | closed e _ =>
    exact commitAtomic_of_tdb hs (by rw [hp, tdb_fail]) (Or.inr ⟨_, by rw [hp, replies_fail], rfl⟩)
  | queued _ _ _ => exact commitAtomic_of_tdb hs (by rw [hp]) (Or.inl (by rw [hp]))
  | unknown e _ _ _ =>
    exact commitAtomic_of_tdb hs (by rw [hp, tdb_fail]) (Or.inr ⟨_, by rw [hp, replies_fail], rfl⟩)
  | notStarted x _ _ _ _ =>
    exact commitAtomic_of_tdb hs (by rw [hp, tdb_fail]) (Or.inr ⟨_, by rw [hp, replies_fail], rfl⟩)
  | ran x e hc hcur hl hst =>
    obtain ⟨hms, he⟩ := hg x ⟨hc, hcur, hl, hst⟩
    obtain ⟨f, hf⟩ := Tdb.ctx_ne_none_iff.mp hc
    have hown : ownLog t x = x.msgs.reverse :=
      List.filter_eq_self.mpr fun m hm => by simpa using (hms m (List.mem_reverse.mp hm)).1
    have htdb := tdb_afterCommit_ok hs hf hl (fun m hm _ => (hms m hm).2) he e
    have hok : commitOk env s t x = (env t.id).tdbTransactionCommit := by
      rw [commitOk, (replay_ok hc hl (fun m hm _ => (hms m hm).2) he).1, Bool.true_and]
    have hsettled : (afterCommit env s t x e).tdb.Settled := by
      rw [htdb]
      rintro c ⟨⟩
      rfl
    have hview : ∀ g, (afterCommit env s t x e).tdb.view g =
        if commitOk env s t x = true ∧ g = f then applyLog env x.msgs.reverse (s.tdb.view g)
        else s.tdb.view g := by
      intro g
      rw [Tdb.view_of_settled hsettled, Tdb.view_of_settled hs, htdb, hown, hok]
      by_cases hb : (env t.id).tdbTransactionCommit = true
      · by_cases hg : g = f
        · simp [hb, hg]
        · simp [hb, hg]
      · simp [hb]
    refine ⟨fun rs r heq hr => ⟨x, hl, fun m hm => (hms m hm).2, fun g => ?_⟩,
      fun rs r heq hr g => ?_, by rw [hp]; exact hsettled⟩
    · rw [hp, replies_afterCommit] at heq
      rw [last_reply heq] at hr
      rw [hp, hview g, hf]
      simp [show commitOk env s t x = true from hr, eq_comm]
    · rw [hp, replies_afterCommit] at heq
      rw [last_reply heq] at hr
      rw [hp, hview g]
      simp [show commitOk env s t x = false from hr]

/-! ## Runs -/

/-- Every commit that a message makes run is good. -/
def CommitsGood (env : Env) (s : Storage h) (t : StorageTask) : Prop :=
  t.what = .messageTxnCommit → EachCommit GoodCommit env s t

/-- Every commit that a message makes run is all or nothing, and no `tdb` transaction is left open
when the message has been handled. -/
def CommitsAtomic (env : Env) (s : Storage h) (t : StorageTask) : Prop :=
  (t.what = .messageTxnCommit → EachCommit CommitAtomic env s t) ∧
    (handleMessage env s t).tdb.Settled

theorem settled_popCommit {s s' : Storage h} {t : StorageTask} (hs : s.tdb.Settled)
    (hp : popCommit s = some (t, s')) : s'.tdb.Settled := by
  obtain ⟨rest, _, rfl⟩ := popCommit_eq hp
  exact hs

theorem settled_handleSet {s : Storage h} (hs : s.tdb.Settled) (t : StorageTask) :
    (handleSet env s t).tdb.Settled := by
  rcases tdb_handleSet env s t with heq | ⟨_, _, r, _, heq⟩
  · rwa [heq]
  · rw [heq]
    exact Tdb.settled_store hs t.key r

theorem commitsAtomic_of_settled {s : Storage h} (hs : s.tdb.Settled) {t : StorageTask}
    (hg : CommitsGood env s t) : CommitsAtomic env s t := by
  have hwork : ∀ (s : Storage h) (t : StorageTask), s.tdb.Settled → GoodCommit env s t →
      (commitTxn env s t).1.tdb.Settled ∧ CommitAtomic env s t := fun s t hs hg =>
    ⟨(commitTxn_atomic hs hg).settled, commitTxn_atomic hs hg⟩
  have hpop : ∀ (s : Storage h) (t : StorageTask) (s' : Storage h), s.tdb.Settled →
      popCommit s = some (t, s') → s'.tdb.Settled := fun _ _ _ hs hp => settled_popCommit hs hp
  refine ⟨fun hw => EachCall.imp hwork hpop hs (hg hw), ?_⟩
  have h₁ := handleMessage_step env s t
  generalize handleMessage env s t = s' at h₁ ⊢
  cases h₁ with
  | stopped _ | ended _ _ _ => exact hs
  | set _ _ => exact settled_handleSet hs t
  | commit hw _ => exact EachCall.invariant (fun s t hs hg => (hwork s t hs hg).1) hpop hs (hg hw)
  | failed t' _ _ _ _ => rwa [tdb_fail]
  | answered t' _ _ _ => exact hs
  | notOpened t' _ _ hc _ =>
    rw [tdb_fail]
    exact Tdb.settled_of_closed ((Tdb.ctx_openFile _ _ _).trans hc)
  | opened _ _ _ _ => exact Tdb.settled_opened _ t.key
  | closed _ _ _ _ => exact Tdb.settled_closed s.tdb
  | began _ _ => exact hs
  | cancelled x _ _ _ => exact hs

/-- **Commits are all or nothing** in every run all of whose commits are good. -/
theorem commits_atomic (env : Env) (disk : Bytes → Records) (ms : List StorageTask)
    (hg : Along (handleMessage env) (CommitsGood env) (catalinaStorageInit h disk) ms) :
    Along (handleMessage env) (CommitsAtomic env) (catalinaStorageInit h disk) ms := by
  have hstep : ∀ (s : Storage h) (t : StorageTask), s.tdb.Settled → CommitsGood env s t →
      (handleMessage env s t).tdb.Settled ∧ CommitsAtomic env s t := fun s t hs hg =>
    ⟨(commitsAtomic_of_settled hs hg).2, commitsAtomic_of_settled hs hg⟩
  exact Along.imp hstep (by rintro c ⟨⟩) hg

/-- Two sets and the commit of their transaction. -/
def twoSets : List StorageTask :=
  [openTask 0 [47], beginTask 1, setTask 2 1 [1] [10], setTask 3 1 [2] [20], commitTask 4 1]

/-- The `tdb_store` of the second set fails. -/
def secondStoreFails : Env := fun i => { tdbStore := i != 3 }

theorem commits_atomic_twoSets :
    Along (handleMessage fun _ => {}) (CommitsAtomic fun _ => {})
      (catalinaStorageInit lp64 fun _ => ∅) twoSets := by
  refine commits_atomic _ _ _ ⟨?_, ?_, ?_, ?_, ?_, trivial⟩
  · exact fun hw => absurd hw (by decide)
  · exact fun hw => absurd hw (by decide)
  · exact fun hw => absurd hw (by decide)
  · exact fun hw => absurd hw (by decide)
  · intro _ x hx
    obtain rfl := Option.some.inj (hx.lookup.symm.trans rfl)
    refine ⟨fun m hm => ?_, Or.inl rfl⟩
    rcases List.mem_pair.mp hm with rfl | rfl
    · exact ⟨rfl, _, rfl⟩
    · exact ⟨rfl, _, rfl⟩

/-- The commit fails, and the first set stays. -/
theorem commits_not_atomic :
    ¬ Along (handleMessage secondStoreFails) (CommitsAtomic secondStoreFails)
      (catalinaStorageInit lp64 fun _ => ∅) twoSets := by
  rintro ⟨_, _, _, _, ⟨hatomic, _⟩, _⟩
  have hview := (hatomic rfl).head.failure
    [{ setTask 2 1 [1] [10] with success := true },
      { setTask 3 1 [2] [20] with error := some ⟨.storageNoSuchKey, "tdb_store: "⟩ }]
    { commitTask 4 1 with error := some ⟨.storageNoSuchKey, "tdb_store: "⟩ } rfl rfl [47]
  exact absurd (congrArg (AList.lookup [1]) hview) (by decide)

end Catalina
