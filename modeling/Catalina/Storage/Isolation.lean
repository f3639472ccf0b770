import Catalina.Storage.Replay
import Catalina.Storage.Replies

/-!
# Isolation

Only a plain set and a successful commit change what a file shows, as long as no set names the
current transaction between two messages, no set is queued under an alias of its id, no error is
left in the slot of a transaction that is committed, and opens find neither a queue nor `O_TRUNC`.

* `Isolating`: the condition on one message; `Isolated`: what the message then does.
* `Ledger`: every file shows the plain sets and the sets of the committed transactions, applied in
  some order, and no others.
* **`isolation`**: both, in every run of isolating messages.
* `not_isolated`: a set naming an id that was never issued is stored.
-/

namespace Catalina

variable {h : Host} {env : Env}

/-- Stores, commits and transforms succeed; a transaction may still fail to start. -/
def Faultless (env : Env) : Prop :=
  ∀ i, (env i).tdbStore = true ∧ (env i).tdbTransactionCommit = true ∧
    ∀ T, (env i).transform = some T → ∀ data e, T.write data ≠ .fail e ∧ T.read data ≠ .fail e

theorem Faultless.storable (he : Faultless env) (m : StorageTask) : Storable env m := by
  obtain ⟨hst, _, hT⟩ := he m.id
  unfold Storable setOutcome transformWrite
  cases hTr : (env m.id).transform with
  | none => exact ⟨m.data, by rw [hst]; rfl⟩
  | some T =>
    dsimp only
    cases hw : T.write m.data with
    | fail e => exact absurd hw (hT T hTr m.data e).1
    | ok output => exact ⟨_, by rw [hst]; rfl⟩

/-- The error slot of the transaction that the commit `t` replays is empty, or its log is. -/
def CleanCommit (env : Env) (s : Storage h) (t : StorageTask) : Prop :=
  ∀ x, s.tdb.ctx ≠ none → (s.txn = 0 ∨ s.txn = t.txnId) → s.lookupTxn t.txnId = some x →
    (env t.id).tdbTransactionStart = true → x.error = none ∨ x.msgs = []

/-- The condition on one message. A set with an id does not name the current transaction, and if it
finds a transaction, that has exactly its id. An open finds an empty queue and keeps the records. -/
def Isolating (env : Env) (s : Storage h) (t : StorageTask) : Prop :=
  match t.what with
  | .messageSet => t.txnId ≠ 0 →
    s.txn ≠ t.txnId ∧ ∀ x, s.lookupTxn t.txnId = some x → x.txnId = t.txnId
  | .messageTxnCommit => EachCommit CleanCommit env s t
  | .messageOpen => OpensQuiet s t ∧ KeepsRecords env s t
  | _ => True

theorem Isolating.opensQuiet {s : Storage h} {t : StorageTask} (hg : Isolating env s t) :
    OpensQuiet s t := fun hw => by
  rw [Isolating, hw] at hg
  exact hg.1 hw

theorem Isolating.keepsRecords {s : Storage h} {t : StorageTask} (hg : Isolating env s t) :
    KeepsRecords env s t := fun hw => by
  rw [Isolating, hw] at hg
  exact hg.2 hw

/-- A commit shows nothing new, or is answered with success and shows the sets of its log. -/
def CommitIsolated (env : Env) (s : Storage h) (t : StorageTask) : Prop :=
  (∀ f, (commitTxn env s t).1.tdb.view f = s.tdb.view f) ∨
    ∃ rs r x, (commitTxn env s t).1.replies = s.replies ++ rs ++ [r] ∧ r.id = t.id ∧
      r.what = t.what ∧ r.txnId = t.txnId ∧ r.success = true ∧ s.lookupTxn t.txnId = some x ∧
      ∀ f, (commitTxn env s t).1.tdb.view f =
        if s.tdb.file = some f then applyLog env (ownLog t x) (s.tdb.view f) else s.tdb.view f

/-- Neither a set with an id nor any message but a set and a commit shows anything new; a set naming
no open transaction fails; a cancelled transaction is gone with its log. -/
structure Isolated (env : Env) (s : Storage h) (t : StorageTask) : Prop where
  others : t.what ≠ .messageTxnCommit → ¬ (t.what = .messageSet ∧ t.txnId = 0) →
    ∀ f, (handleMessage env s t).tdb.view f = s.tdb.view f
  commits : t.what = .messageTxnCommit → EachCommit CommitIsolated env s t
  unknown : t.what = .messageSet → t.txnId ≠ 0 → (∀ x ∈ s.txnState.rows, x.txnId ≠ t.txnId) →
    ∃ r, (handleMessage env s t).replies = s.replies ++ [r] ∧ r.id = t.id ∧ r.success = false
  cancelled : t.what = .messageTxnCancel →
    ∀ x ∈ (handleMessage env s t).txnState.rows, x.txnId ≠ t.txnId

/-! ## Commits -/

theorem commitTxn_isolated (he : Faultless env) {s : Storage h} {t : StorageTask}
    (hs : s.tdb.Settled) (hg : CleanCommit env s t) :
    (commitTxn env s t).1.tdb.Settled ∧ CommitIsolated env s t := by
  unfold CommitIsolated
  have h₁ := commitTxn_step env s t
  generalize commitTxn env s t = p at h₁ ⊢
  cases h₁ with
  | closed e _ => exact ⟨by rwa [tdb_fail], Or.inl fun f => by rw [tdb_fail]⟩
  | queued _ _ _ => exact ⟨hs, Or.inl fun _ => rfl⟩
  | unknown e _ _ _ => exact ⟨by rwa [tdb_fail], Or.inl fun f => by rw [tdb_fail]⟩
  | notStarted x _ _ _ _ => exact ⟨by rwa [tdb_fail], Or.inl fun f => by rw [tdb_fail]⟩
  | ran x e hc hcur hl hst =>
    obtain ⟨g, hf⟩ := Tdb.ctx_ne_none_iff.mp hc
    have hms : ∀ m ∈ x.msgs, m.txnId = t.txnId → Storable env m := fun m _ _ => he.storable m
    have hx := hg x hc hcur hl hst
    have htdb := tdb_afterCommit_ok hs hf hl hms hx e
    have hok : commitOk env s t x = true := by
      rw [commitOk, (replay_ok hc hl hms hx).1, (he t.id).2.1]
      rfl
    have hsettled : (afterCommit env s t x e).tdb.Settled := by
      rw [htdb]
      rintro c ⟨⟩
      rfl
    obtain ⟨rs, hrs⟩ : s.replies <+: (replay env s t x).1.replies :=
      prefix_runMsgs t.txnId x.msgs.reverse (beginTxn s t)
    refine ⟨hsettled, Or.inr ⟨rs, { t with error := e, success := commitOk env s t x }, x, ?_, rfl,
      rfl, rfl, hok, hl, fun f => ?_⟩⟩
    · rw [replies_afterCommit, hrs]
    · rw [Tdb.view_of_settled hsettled, Tdb.view_of_settled hs, htdb, (he t.id).2.1, hf]
      by_cases hgf : g = f
      · simp [hgf]
      · simp [hgf, Ne.symm hgf]

/-! ## The ledger -/

/-- Every file shows its records at the start with the sets of a ledger applied. Each of these was
given; it names no transaction, or one whose commit was answered with success. -/
def Ledger (env : Env) (disk : Bytes → Records) (given : List StorageTask) (s : Storage h) : Prop :=
  ∃ l : List (Bytes × StorageTask),
    (∀ f, s.tdb.view f = applyLog env ((l.filter (·.1 = f)).map Prod.snd) (disk f)) ∧
      ∀ p ∈ l, p.2 ∈ given ∧ p.2.what = .messageSet ∧ (p.2.txnId = 0 ∨
        ∃ r ∈ s.replies, r.what = .messageTxnCommit ∧ r.success = true ∧ r.txnId = p.2.txnId)

section Ledger

variable {disk : Bytes → Records} {given : List StorageTask} {s s' : Storage h}

theorem applyLog_append (ms ns : List StorageTask) (r : Records) :
    applyLog env (ms ++ ns) r = applyLog env ns (applyLog env ms r) := List.foldl_append

theorem filter_tagged (f g : Bytes) (ms : List StorageTask) :
    ((ms.map (g, ·)).filter (·.1 = f)).map Prod.snd = if g = f then ms else [] := by
  induction ms with
  | nil => split_ifs <;> rfl
  | cons m ms ih => by_cases hgf : g = f <;> simp_all

theorem Ledger.append (hs : Ledger env disk given s) (hr : s.replies <+: s'.replies) (g : Bytes)
    (ms : List StorageTask)
    (hview : ∀ f, s'.tdb.view f =
      if g = f then applyLog env ms (s.tdb.view f) else s.tdb.view f)
    (hms : ∀ m ∈ ms, m ∈ given ∧ m.what = .messageSet ∧ (m.txnId = 0 ∨
      ∃ r ∈ s'.replies, r.what = .messageTxnCommit ∧ r.success = true ∧ r.txnId = m.txnId)) :
    Ledger env disk given s' := by
  obtain ⟨l, hl, hp⟩ := hs
  refine ⟨l ++ ms.map (g, ·), fun f => ?_, fun p hp' => ?_⟩
  · rw [hview f, hl f, List.filter_append, List.map_append, applyLog_append, filter_tagged]
    split_ifs <;> rfl
  · rcases List.mem_append.mp hp' with hp' | hp'
    · obtain ⟨hg, hw, hor⟩ := hp p hp'
      refine ⟨hg, hw, hor.imp_right fun ⟨r, hr', hc⟩ => ⟨r, hr.subset hr', hc⟩⟩
    · obtain ⟨m, hm, rfl⟩ := List.mem_map.mp hp'
      exact hms m hm

theorem Ledger.same (hs : Ledger env disk given s) (hr : s.replies <+: s'.replies)
    (hview : ∀ f, s'.tdb.view f = s.tdb.view f) : Ledger env disk given s' :=
  hs.append hr [] [] (fun f => by rw [hview f]; split_ifs <;> rfl)
    fun _ hm => absurd hm List.not_mem_nil

theorem ledger_commitTxn (he : Faultless env) {t : StorageTask} (hs : s.Inv)
    (hset : s.tdb.Settled) (hlog : s.Logged (· ∈ given)) (ht : t.what = .messageTxnCommit)
    (hl : Ledger env disk given s) (hg : CleanCommit env s t) :
    Ledger env disk given (commitTxn env s t).1 := by
  rcases (commitTxn_isolated he hset hg).2 with hsame |
    ⟨rs, r, x, hr, _, hw, htxn, hsucc, hx, hview⟩
  · exact hl.same (prefix_commitTxn s t) hsame
  · have hmem : r ∈ (commitTxn env s t).1.replies := by
      rw [hr]
      exact List.mem_append_right _ List.mem_cons_self
    cases hf : s.tdb.file with
    | none =>
      rw [hf] at hview
      exact hl.same (prefix_commitTxn s t) fun f => (hview f).trans (if_neg (by simp))
    | some g =>
      rw [hf] at hview
      refine hl.append (prefix_commitTxn s t) g (ownLog t x)
        (fun f => by simpa using hview f) fun m hm => ?_
      obtain ⟨hm, hid⟩ := List.mem_filter.mp hm
      have hm := List.mem_reverse.mp hm
      refine ⟨hlog.of_lookup hx m hm, (hs.logged.of_lookup hx m hm).1,
        Or.inr ⟨r, hmem, hw.trans ht, hsucc, ?_⟩⟩
      rw [htxn]
      exact (of_decide_eq_true hid).symm

end Ledger

/-! ## Messages -/

/-- What an isolated run keeps. -/
structure Quiet (env : Env) (disk : Bytes → Records) (given : List StorageTask)
    (s : Storage h) : Prop where
  inv : s.Inv
  running : s.stopped = false
  settled : s.tdb.Settled
  logged : s.Logged (· ∈ given)
  ledger : Ledger env disk given s

variable {disk : Bytes → Records} {given : List StorageTask} {s : Storage h} {t : StorageTask}

theorem quiet_commitTxn (he : Faultless env) (hq : Quiet env disk given s)
    (ht : t.what = .messageTxnCommit) (hg : CleanCommit env s t) :
    Quiet env disk given (commitTxn env s t).1 where
  inv := inv_commitTxn hq.inv ht
  running := (stopped_commitTxn env s t).trans hq.running
  settled := (commitTxn_isolated he hq.settled hg).1
  logged := logged_commitTxn hq.logged t
  ledger := ledger_commitTxn he hq.inv hq.settled hq.logged ht hq.ledger hg

theorem quiet_popCommit {s' : Storage h} (hq : Quiet env disk given s)
    (hp : popCommit s = some (t, s')) : Quiet env disk given s' ∧ t.what = .messageTxnCommit := by
  have hinv := inv_popCommit hq.inv hp
  obtain ⟨rest, _, rfl⟩ := popCommit_eq hp
  exact ⟨⟨hinv.1, hq.running, hq.settled, hq.logged, hq.ledger⟩, hinv.2⟩

theorem quiet_handleTxnCommit (he : Faultless env) (hq : Quiet env disk given s)
    (ht : t.what = .messageTxnCommit) (hg : EachCommit CleanCommit env s t) :
    Quiet env disk given (handleTxnCommit env s t) ∧ EachCommit CommitIsolated env s t := by
  have hwork : ∀ (s : Storage h) (t : StorageTask),
      Quiet env disk given s ∧ t.what = .messageTxnCommit → CleanCommit env s t →
      Quiet env disk given (commitTxn env s t).1 ∧ CommitIsolated env s t :=
    fun s t hst hg => ⟨quiet_commitTxn he hst.1 hst.2 hg,
      (commitTxn_isolated he hst.1.settled hg).2⟩
  have hpop : ∀ (s : Storage h) (t : StorageTask) (s' : Storage h), Quiet env disk given s →
      popCommit s = some (t, s') → Quiet env disk given s' ∧ t.what = .messageTxnCommit :=
    fun _ _ _ hq hp => quiet_popCommit hq hp
  exact ⟨EachCall.invariant (fun s t hst hg => (hwork s t hst hg).1) hpop ⟨hq, ht⟩ hg,
    EachCall.imp hwork hpop ⟨hq, ht⟩ hg⟩

theorem tdb_handleSet_of_ne (hne : s.txn ≠ t.txnId) : (handleSet env s t).tdb = s.tdb :=
  (tdb_handleSet env s t).resolve_right fun hn => hne hn.1

theorem quiet_handleSet (hq : Quiet env disk given s) (hw : t.what = .messageSet)
    (ht : t ∈ given) (hg : t.txnId ≠ 0 → s.txn ≠ t.txnId) :
    Quiet env disk given (handleSet env s t) := by
  have hpre : s.replies <+: (handleSet env s t).replies :=
    prefix_of_prepend (handleSet env · t) (fun s p => prepend_handleSet s p t) s
  refine ⟨inv_handleSet hq.inv hw, (frame_handleSet env s t).stopped.trans hq.running, ?_,
    logged_handleSet hq.logged fun _ => ht, ?_⟩
  · rcases tdb_handleSet env s t with heq | ⟨_, _, r, _, heq⟩
    · rw [heq]
      exact hq.settled
    · rw [heq]
      exact Tdb.settled_store hq.settled t.key r
  · rcases tdb_handleSet env s t with heq | ⟨hcur, hc, r, ho, heq⟩
    · exact hq.ledger.same hpre fun f => by rw [heq]
    · have h₀ : t.txnId = 0 := by
        by_contra h₀
        exact hg h₀ hcur
      obtain ⟨g, hf⟩ := Tdb.ctx_ne_none_iff.mp hc
      refine hq.ledger.append hpre g [t] (fun f => ?_) fun m hm => ?_
      · rw [heq, Tdb.view_store, hf, applyLog, List.foldl_cons, List.foldl_nil, applySet, ho]
        simp
      · rw [List.mem_singleton.mp hm]
        exact ⟨ht, hw, Or.inl h₀⟩

theorem handleSet_unknown (h₀ : t.txnId ≠ 0) (hne : s.txn ≠ t.txnId)
    (hx : ∀ x, s.lookupTxn t.txnId = some x → x.txnId = t.txnId)
    (hrows : ∀ x ∈ s.txnState.rows, x.txnId ≠ t.txnId) :
    ∃ r, (handleSet env s t).replies = s.replies ++ [r] ∧ r.id = t.id ∧ r.success = false := by
  have h₁ := handleSet_step env s t
  generalize handleSet env s t = s' at h₁ ⊢
  cases h₁ with
  | closed e _ => exact ⟨_, replies_fail s _, rfl, rfl⟩
  | unknown e _ _ _ _ => exact ⟨_, replies_fail s _, rfl, rfl⟩
  | queued x _ _ _ hl => exact absurd (hx x hl) (hrows x (Table.find_eq_some.mp hl).1)
  | dropped _ h₀' _ => exact absurd h₀' h₀
  | failed e _ heq _ => exact absurd heq hne
  | stored r _ heq _ => exact absurd heq hne

theorem isolated_handleSet (hrun : s.stopped = false) (hw : t.what = .messageSet)
    (hg : t.txnId ≠ 0 → s.txn ≠ t.txnId ∧ ∀ x, s.lookupTxn t.txnId = some x → x.txnId = t.txnId) :
    Isolated env s t := by
  have hset : handleMessage env s t = handleSet env s t := handleMessage_set env hrun hw
  refine ⟨fun _ hn f => ?_, fun hc => ?_, fun _ h₀ hrows => ?_, fun hc => ?_⟩
  · rw [hset, tdb_handleSet_of_ne (hg fun h₀ => hn ⟨hw, h₀⟩).1]
  · rw [hw] at hc
    cases hc
  · rw [hset]
    exact handleSet_unknown h₀ (hg h₀).1 (hg h₀).2 hrows
  · rw [hw] at hc
    cases hc

theorem isolated_of_view (hw : t.what ≠ .messageSet ∧ t.what ≠ .messageTxnCommit)
    (hview : ∀ f, (handleMessage env s t).tdb.view f = s.tdb.view f)
    (hcancel : t.what = .messageTxnCancel →
      ∀ x ∈ (handleMessage env s t).txnState.rows, x.txnId ≠ t.txnId) : Isolated env s t where
  others _ _ := hview
  commits hn := absurd hn hw.2
  unknown hn := absurd hn hw.1
  cancelled := hcancel

theorem txnId_ne_of_key {x : TxnState} {id : ℕ} (hk : TxnState.key h x ≠ h.firstWord id) :
    x.txnId ≠ id := fun hid => hk (congrArg h.firstWord hid)

/-- **An isolating message is isolated**, and keeps the ledger. -/
theorem handleMessage_isolated (he : Faultless env) (hq : Quiet env disk given s)
    (ht : t ∈ given) (hg : Isolating env s t) :
    Quiet env disk given (handleMessage env s t) ∧ Isolated env s t := by
  have hinv : (handleMessage env s t).Inv := inv_handleMessage hq.inv t
  have hpre : s.replies <+: (handleMessage env s t).replies := prefix_handleMessage s t
  have hrun : (handleMessage env s t).stopped = false := running_handleMessage hq.running hg.opensQuiet
  have hiso : t.what ≠ .messageSet ∧ t.what ≠ .messageTxnCommit → _ → _ → Isolated env s t :=
    isolated_of_view
  have h₁ := handleMessage_step env s t
  generalize handleMessage env s t = s' at h₁ hinv hpre hrun hiso ⊢
  cases h₁ with
  | stopped hstop => exact Bool.noConfusion (hq.running.symm.trans hstop)
  | ended _ _ _ => cases hrun
  | set hw _ =>
    rw [Isolating, hw] at hg
    exact ⟨quiet_handleSet hq hw ht fun h₀ => (hg h₀).1, isolated_handleSet hq.running hw hg⟩
  | commit hw _ =>
    rw [Isolating, hw] at hg
    obtain ⟨hquiet, hcommits⟩ := quiet_handleTxnCommit he hq hw hg
    exact ⟨hquiet, fun hn => absurd hw hn, fun _ => hcommits, fun hn => by simp [hw] at hn,
      fun hn => by simp [hw] at hn⟩
  | failed t' hw hcancel hid _ =>
    refine ⟨⟨hinv, hrun, by rw [tdb_fail]; exact hq.settled, logged_fail hq.logged t',
      hq.ledger.same hpre fun f => by rw [tdb_fail]⟩, hiso hw (fun f => by rw [tdb_fail]) ?_⟩
    intro hn x hx
    rw [(hinv.closed (by rw [tdb_fail]; exact hcancel hn)).2] at hx
    exact absurd hx List.not_mem_nil
  | answered t' hw hcancel hid =>
    refine ⟨⟨hinv, hrun, hq.settled, hq.logged, hq.ledger.same hpre fun _ => rfl⟩,
      hiso hw (fun _ => rfl) fun hn x hx => txnId_ne_of_key
        (Table.find_eq_none.mp (hcancel hn) x hx)⟩
  | notOpened t' hw _ hc _ =>
    have htdb : (storageTaskFail { s.clearTxns with tdb := s.tdb.openFile t.key (env t.id) } t').tdb =
        s.tdb := by
      rw [tdb_fail]
      exact hg.keepsRecords.openFile hw hc
    exact ⟨⟨hinv, hrun, by rw [htdb]; exact hq.settled,
      logged_fail (logged_iff.mpr fun _ hx => absurd hx List.not_mem_nil) t',
      hq.ledger.same hpre fun f => by rw [htdb]⟩,
      hiso (by simp [hw]) (fun f => by rw [htdb]) fun hn => by simp [hw] at hn⟩
  | opened hw hc _ _ =>
    have hview : ∀ f, ((s.tdb.openFile t.key (env t.id)).opened t.key).view f = s.tdb.view f :=
      fun f => by rw [hg.keepsRecords.openFile hw hc, Tdb.view_opened hc]
    exact ⟨⟨hinv, hrun, Tdb.settled_opened _ t.key,
      logged_iff.mpr fun _ hx => absurd hx List.not_mem_nil, hq.ledger.same hpre hview⟩,
      hiso (by simp [hw]) hview fun hn => by simp [hw] at hn⟩
  | closed hw _ _ _ =>
    have hview : ∀ f, s.tdb.closed.view f = s.tdb.view f := fun f => by
      rw [Tdb.view_of_settled (Tdb.settled_closed _), Tdb.view_of_settled hq.settled]
      rfl
    exact ⟨⟨hinv, hrun, Tdb.settled_closed s.tdb, hq.logged, hq.ledger.same hpre hview⟩,
      hiso (by simp [hw]) hview fun hn => by simp [hw] at hn⟩
  | began hw _ =>
    exact ⟨⟨hinv, hrun, hq.settled, logged_insert hq.logged _, hq.ledger.same hpre fun _ => rfl⟩,
      hiso (by simp [hw]) (fun _ => rfl) fun hn => by simp [hw] at hn⟩
  | cancelled x hw hc hl =>
    exact ⟨⟨hinv, hrun, hq.settled, logged_erase hq.logged _, hq.ledger.same hpre fun _ => rfl⟩,
      hiso (by simp [hw]) (fun _ => rfl) fun _ y hy => txnId_ne_of_key (Table.mem_erase.mp hy).2⟩

/-! ## Runs -/

theorem quiet_init (env : Env) (disk : Bytes → Records) (given : List StorageTask) :
    Quiet env disk given (catalinaStorageInit h disk) where
  inv := inv_init disk
  running := rfl
  settled := by rintro c ⟨⟩
  logged := logged_iff.mpr fun _ hx => absurd hx List.not_mem_nil
  ledger := ⟨[], fun _ => rfl, fun _ hp => absurd hp List.not_mem_nil⟩

/-- **Isolation**, in every run of isolating messages. -/
theorem isolation (env : Env) (he : Faultless env) (disk : Bytes → Records)
    (ts : List StorageTask)
    (hg : Along (handleMessage env) (Isolating env) (catalinaStorageInit h disk) ts) :
    (∀ us, us <+: ts → Ledger env disk us (run env (catalinaStorageInit h disk) us)) ∧
      Along (handleMessage env) (Isolated env) (catalinaStorageInit h disk) ts := by
  have hstep : ∀ (us : List StorageTask) (s : Storage h) (t : StorageTask),
      Quiet env disk us s → Isolating env s t ∧ t ∈ us →
      Quiet env disk us (handleMessage env s t) ∧ Isolated env s t :=
    fun us s t hq hg => handleMessage_isolated he hq hg.2 hg.1
  refine ⟨fun us hus => ?_, ?_⟩
  · exact (Along.invariant (fun s t hq hg => (hstep us s t hq hg).1) (quiet_init env disk us)
      ((hg.of_initial hus).of_mem fun _ hm => hm)).ledger
  · exact Along.imp (hstep ts) (quiet_init env disk ts) (hg.of_mem fun _ hm => hm)

/-- A commit, a plain set, and a set that names the transaction once it is committed. -/
theorem isolation_commit :
    (∀ us, us <+: [openTask 0 [47], beginTask 1, setTask 2 1 [1] [10], setTask 3 0 [2] [20],
        commitTask 4 1, setTask 5 1 [1] [30]] → Ledger (fun _ => {}) (fun _ => ∅) us
      (run (fun _ => {}) (catalinaStorageInit lp64 fun _ => ∅) us)) ∧
      Along (handleMessage fun _ => {}) (Isolated fun _ => {})
        (catalinaStorageInit lp64 fun _ => ∅) [openTask 0 [47], beginTask 1,
          setTask 2 1 [1] [10], setTask 3 0 [2] [20], commitTask 4 1, setTask 5 1 [1] [30]] := by
  refine isolation _ (fun i => ⟨rfl, rfl, fun T hT => by cases hT⟩) _ _
    ⟨?_, ?_, ?_, ?_, ?_, ?_, trivial⟩
  · exact ⟨fun _ _ => rfl, fun _ _ ht => by cases ht⟩
  · trivial
  · refine fun _ => ⟨by decide, fun x hx => ?_⟩
    obtain rfl := Option.some.inj (hx.symm.trans rfl)
    rfl
  · exact fun h₀ => absurd rfl h₀
  · intro x _ _ hx _
    obtain rfl := Option.some.inj (hx.symm.trans rfl)
    exact Or.inl rfl
  · exact fun _ => ⟨by decide, fun x hx => by cases hx⟩

/-- A commit that names no transaction leaves the id it names current, and a set naming that id,
which was never issued, is stored. -/
theorem not_isolated :
    ¬ Along (handleMessage fun _ => {}) (Isolated fun _ => {})
      (catalinaStorageInit lp64 fun _ => ∅)
      [openTask 0 [47], commitTask 1 99, setTask 2 99 [1] [10]] := by
  rintro ⟨_, _, hset, _⟩
  have hview := hset.others (by decide) (by decide) [47]
  exact absurd (congrArg (AList.lookup [1]) hview) (by decide)

end Catalina
