import Catalina.Storage.Replay

/-!
# The transform contract

A transform that answers with output length zero wants its input buffer to be used. Reading follows
this rule; writing asks instead whether the output pointer is `NULL`.

* `Lawful`: reading what the rule makes of a written value gives the value back.
* `Untouched`: a message that leaves a key of a file alone; `holds_run`: the record stays.
* `Stores`: a message that stores a value with success, a plain set or a commit;
  `holds_of_stores`, `recorded_of_stores`: its record is there.
* **`contract_iff`**: a get returns the value exactly when the transform does not answer its write
  with a pointer to no bytes, or reads no bytes as that value.
* `contract_broken`: a lawful transform under which a value is lost.
-/

namespace Catalina

variable {h : Host} {env : Env}

/-- Reading the written form of a value gives it back, for every value that has any bytes. -/
def Lawful (T : Transform) : Prop :=
  ∀ x ≠ [], ∀ y, (T.write x).byRule x = some y → (T.read y).byRule y = some x

/-- The condition: the write of `x` does not answer with a pointer to a buffer of length zero, or
the record of length zero is read as `x`. -/
def PointerSafe (T : Transform) (x : Bytes) : Prop :=
  T.write x ≠ .ok (some []) ∨ (T.read []).byRule [] = some x

theorem transformRead_eq_ok (T : Transform) (r v : Bytes) :
    transformRead (some T) r = .ok v ↔ (T.read r).byRule r = some v := by
  unfold transformRead TransformResult.byRule
  dsimp only
  cases T.read r with
  | fail e => simp
  | ok output =>
    dsimp only
    split_ifs <;> simp

theorem transformWrite_eq_ok {T : Transform} {x r : Bytes}
    (hr : transformWrite (some T) x = .ok r) :
    (T.write x).byRule x = some r ∨ T.write x = .ok (some []) ∧ r = [] := by
  unfold transformWrite at hr
  unfold TransformResult.byRule
  dsimp only at hr
  cases hw : T.write x with
  | fail e =>
    rw [hw] at hr
    cases hr
  | ok output =>
    rw [hw] at hr
    cases output with
    | none =>
      obtain rfl : x = r := Except.ok.inj hr
      exact Or.inl (by simp [outputLength])
    | some b =>
      obtain rfl : b = r := Except.ok.inj hr
      cases b with
      | nil => exact Or.inr ⟨rfl, rfl⟩
      | cons c b => exact Or.inl (by simp [outputLength])

theorem read_record_iff {T : Transform} (hT : Lawful T) {x r : Bytes} (hx : x ≠ [])
    (hr : transformWrite (some T) x = .ok r) :
    transformRead (some T) r = .ok x ↔ PointerSafe T x := by
  rw [transformRead_eq_ok]
  unfold PointerSafe
  rcases transformWrite_eq_ok hr with hrule | ⟨hw, rfl⟩
  · refine ⟨fun hread => ?_, fun _ => hT x hx r hrule⟩
    by_cases hw : T.write x = .ok (some [])
    · have hempty : transformWrite (some T) x = .ok [] := by
        unfold transformWrite
        dsimp only
        rw [hw]
      rw [hempty] at hr
      cases hr
      exact Or.inr hread
    · exact Or.inl hw
  · exact ⟨Or.inr, fun hor => hor.resolve_left fun hn => hn hw⟩

/-! ## The record stays -/

/-- File `f` shows the record `r` under the key `k`. -/
def Holds (f k r : Bytes) (d : Tdb) : Prop := (d.view f).lookup k = some r

/-- The commit `t` replays no set of the key `k`, and it does not fail in `tdb` inside a transaction
left open by an earlier commit, which would then be discarded. -/
structure UntouchedCommit (k : Bytes) (env : Env) (s : Storage h) (t : StorageTask) : Prop where
  key : ∀ x, s.lookupTxn t.txnId = some x → ∀ m ∈ x.msgs, m.key ≠ k
  kept : s.tdb.InTxn → (env t.id).tdbTransactionCommit = true

/-- The message `t` does not write the key `k`, and leaves what file `f` shows under it. A set of that
key may only join a log; a close finds no transaction left open by an earlier commit, which `tdb`
would discard; and an open of the file finds no `O_TRUNC` in `o_flags`. -/
def Untouched (f k : Bytes) (env : Env) (s : Storage h) (t : StorageTask) : Prop :=
  match t.what with
  | .messageSet => t.key = k → s.txn ≠ t.txnId
  | .messageTxnCommit => EachCommit (UntouchedCommit k) env s t
  | .messageClose => ¬ s.tdb.InTxn
  | .messageOpen => s.tdb.ctx = none → t.key = f → (env t.id).truncates = false
  | _ => True

theorem view_of_not_inTxn {d : Tdb} (hd : ¬ d.InTxn) (f : Bytes) : d.view f = d.disk f := by
  refine Tdb.view_of_settled (fun c hc => ?_) f
  by_contra hne
  obtain ⟨⟨r, n⟩, ho⟩ := Option.ne_none_iff_exists'.mp hne
  exact hd ⟨c.file, r, n, by rw [hc, ← ho]⟩

section Holds

variable {f k r : Bytes} {s : Storage h} {t : StorageTask}

theorem holds_handleSet (hs : Holds f k r s.tdb) (hg : t.key = k → s.txn ≠ t.txnId) :
    Holds f k r (handleSet env s t).tdb := by
  rcases tdb_handleSet env s t with heq | ⟨hcur, _, v, _, heq⟩
  · rwa [heq]
  · have hk : k ≠ t.key := fun hk => hg hk.symm hcur
    unfold Holds
    rw [heq, Tdb.lookup_view_store _ _ _ _ _ hk]
    exact hs

theorem holds_runMsgs (i : ℕ) {ms : List StorageTask} (hms : ∀ m ∈ ms, m.key ≠ k)
    (hs : Holds f k r s.tdb) : Holds f k r (runMsgs env i ms s).1.tdb := by
  have hstep : ∀ m ∈ ms, ∀ s' : Storage h, Holds f k r s'.tdb → Holds f k r (handleSet env s' m).tdb :=
    fun m hm _ hs' => holds_handleSet hs' fun hk => absurd hk (hms m hm)
  exact runMsgs_invariant i ms hstep hs

/-- A replay runs inside a `tdb` transaction and leaves the disk alone. -/
theorem disk_replay (env : Env) (t : StorageTask) (hc : s.tdb.ctx ≠ none) (x : TxnState) :
    (replay env s t x).1.tdb.disk = s.tdb.disk ∧ (replay env s t x).1.tdb.InTxn := by
  have hset : ∀ m ∈ x.msgs.reverse, ∀ s' : Storage h,
      s'.tdb.disk = s.tdb.disk ∧ s'.tdb.InTxn →
        (handleSet env s' m).tdb.disk = s.tdb.disk ∧ (handleSet env s' m).tdb.InTxn := by
    intro m _ s' ⟨hdisk, hin⟩
    rcases tdb_handleSet env s' m with heq | ⟨_, _, r, _, heq⟩
    · rw [heq]
      exact ⟨hdisk, hin⟩
    · rw [heq]
      exact ⟨(hin.disk_store m.key r).trans hdisk, hin.store m.key r⟩
  have hbegin : (beginTxn s t).tdb.disk = s.tdb.disk ∧ (beginTxn s t).tdb.InTxn :=
    ⟨Tdb.disk_transactionStart s.tdb, Tdb.inTxn_transactionStart hc⟩
  exact runMsgs_invariant t.txnId x.msgs.reverse hset hbegin

theorem holds_afterCommit (hc : s.tdb.ctx ≠ none) (x : TxnState) (e : Option GError)
    (hkept : s.tdb.InTxn → (env t.id).tdbTransactionCommit = true)
    (hs : Holds f k r s.tdb) (hrep : Holds f k r (replay env s t x).1.tdb) :
    Holds f k r (afterCommit env s t x e).tdb := by
  rw [tdb_afterCommit, commitOk]
  cases (replay env s t x).2 with
  | false => exact hrep
  | true =>
    rw [if_pos rfl, Bool.true_and]
    cases hok : (env t.id).tdbTransactionCommit with
    | true => exact (congrArg (AList.lookup k) (Tdb.view_transactionCommit_true _ f)).trans hrep
    | false =>
      have hd : ¬ s.tdb.InTxn := fun hin => by
        rw [hkept hin] at hok
        cases hok
      obtain ⟨hdisk, hin⟩ := disk_replay env t hc x
      rw [Holds, Tdb.view_transactionCommit_false hin, hdisk, ← view_of_not_inTxn hd]
      exact hs

theorem holds_commitTxn (hs : Holds f k r s.tdb) (hg : UntouchedCommit k env s t) :
    Holds f k r (commitTxn env s t).1.tdb := by
  have h₁ := commitTxn_step env s t
  generalize commitTxn env s t = p at h₁ ⊢
  cases h₁ with
  | closed e _ => rwa [tdb_fail]
  | queued _ _ _ => exact hs
  | unknown e _ _ _ => rwa [tdb_fail]
  | notStarted x _ _ _ _ => rwa [tdb_fail]
  | ran x e hc _ hl _ =>
    refine holds_afterCommit hc x e hg.kept hs ?_
    refine holds_runMsgs t.txnId (fun m hm => hg.key x hl m (List.mem_reverse.mp hm)) ?_
    exact (congrArg (AList.lookup k) (Tdb.view_transactionStart s.tdb f)).trans hs

theorem holds_popCommit {s' : Storage h} (hs : Holds f k r s.tdb)
    (hp : popCommit s = some (t, s')) : Holds f k r s'.tdb := by
  obtain ⟨rest, _, rfl⟩ := popCommit_eq hp
  exact hs

theorem holds_openFile {d : Tdb} (hd : Holds f k r d) (hc : d.ctx = none) {g : Bytes} {c : Calls}
    (hg : g = f → c.truncates = false) : Holds f k r (d.openFile g c) := by
  unfold Tdb.openFile
  split_ifs with ht
  · have hne : f ≠ g := fun heq => by
      rw [hg heq.symm] at ht
      cases ht
    rw [Holds, Tdb.view_truncated hc, if_neg hne]
    exact hd
  · exact hd

theorem holds_handleMessage (hs : Holds f k r s.tdb) (hg : Untouched f k env s t) :
    Holds f k r (handleMessage env s t).tdb := by
  have h₁ := handleMessage_step env s t
  generalize handleMessage env s t = s' at h₁ ⊢
  cases h₁ with
  | stopped _ | ended _ _ _ => exact hs
  | set hw _ =>
    rw [Untouched, hw] at hg
    exact holds_handleSet hs hg
  | commit hw _ =>
    rw [Untouched, hw] at hg
    have hwork : ∀ (s : Storage h) (t : StorageTask), Holds f k r s.tdb →
        UntouchedCommit k env s t → Holds f k r (commitTxn env s t).1.tdb :=
      fun _ _ hs hg => holds_commitTxn hs hg
    have hpop : ∀ (s : Storage h) (t : StorageTask) (s' : Storage h), Holds f k r s.tdb →
        popCommit s = some (t, s') → Holds f k r s'.tdb := fun _ _ _ hs hp => holds_popCommit hs hp
    exact EachCall.invariant hwork hpop hs hg
  | failed t' _ _ _ _ => rwa [tdb_fail]
  | answered t' _ _ _ => exact hs
  | notOpened t' hw _ hc _ =>
    rw [Untouched, hw] at hg
    rw [tdb_fail]
    exact holds_openFile hs hc (hg hc)
  | opened hw hc _ _ =>
    rw [Untouched, hw] at hg
    have hopen : Holds f k r (s.tdb.openFile t.key (env t.id)) := holds_openFile hs hc (hg hc)
    exact (congrArg (AList.lookup k)
      (Tdb.view_opened ((Tdb.ctx_openFile _ _ _).trans hc) t.key f)).trans hopen
  | closed hw _ _ _ =>
    rw [Untouched, hw] at hg
    refine (congrArg (AList.lookup k) (Tdb.view_of_settled (Tdb.settled_closed s.tdb) f)).trans ?_
    rw [Holds, view_of_not_inTxn hg] at hs
    exact hs
  | began _ _ => exact hs
  | cancelled x _ _ _ => exact hs

/-- **A run that does not write the key keeps its record.** -/
theorem holds_run {us : List StorageTask} (hs : Holds f k r s.tdb)
    (hg : Along (handleMessage env) (Untouched f k env) s us) :
    Holds f k r (run env s us).tdb := by
  have hstep : ∀ (s : Storage h) (t : StorageTask), Holds f k r s.tdb → Untouched f k env s t →
      Holds f k r (handleMessage env s t).tdb := fun _ _ hs hg => holds_handleMessage hs hg
  exact Along.invariant hstep hs hg

end Holds

/-! ## The value is stored -/

/-- The set `t` names no transaction, writes `x` under `k` in file `f` and is answered with
success. -/
structure StoringSet (f k x : Bytes) (env : Env) (s : Storage h) (t : StorageTask) : Prop where
  plain : t.txnId = 0
  key : t.key = k
  data : t.data = x
  file : s.tdb.file = some f
  succeeds : ∃ r, (handleSet env s t).replies = s.replies ++ [r] ∧ r.success = true

/-- The commit `t` is answered with success, and the last set of `k` in its log, by the order in
which the sets were posted, writes `x`. -/
structure StoringCommit (f k x : Bytes) (env : Env) (s : Storage h) (t : StorageTask) : Prop where
  txn : t.txnId ≠ 0
  file : s.tdb.file = some f
  succeeds : ∃ rs r, (commitTxn env s t).1.replies = s.replies ++ rs ++ [r] ∧ r.success = true
  set : ∃ y pre m post, s.lookupTxn t.txnId = some y ∧ y.msgs.reverse = pre ++ m :: post ∧
    m.txnId = t.txnId ∧ m.key = k ∧ m.data = x ∧ ∀ m' ∈ post, m'.key ≠ k

/-- The message `t` stores `x` under `k` in file `f` with success. -/
def Stores (f k x : Bytes) (env : Env) (s : Storage h) (t : StorageTask) : Prop :=
  s.stopped = false ∧ match t.what with
  | .messageSet => StoringSet f k x env s t
  | .messageTxnCommit =>
    SinceCall (commitTxn env) popCommit (StoringCommit f k x env) (UntouchedCommit k env)
      s.txnCommits.length s t
  | _ => False

/-- The record that a set of `x` under `k` leaves in file `f`. -/
def Recorded (T : Transform) (f k x : Bytes) (d : Tdb) : Prop :=
  ∃ r, transformWrite (some T) x = .ok r ∧ Holds f k r d

section Stores

variable {f k x : Bytes} {s : Storage h} {t m : StorageTask} {T : Transform}

theorem transformWrite_of_setOutcome {r : Bytes} (ho : setOutcome env t = .ok r) :
    transformWrite (env t.id).transform t.data = .ok r := by
  unfold setOutcome at ho
  cases hw : transformWrite (env t.id).transform t.data with
  | error e =>
    rw [hw] at ho
    cases ho
  | ok v =>
    rw [hw] at ho
    dsimp only at ho
    split_ifs at ho
    exact ho

theorem holds_store {d : Tdb} (hf : d.file = some f) (k r : Bytes) : Holds f k r (d.store k r) := by
  rw [Holds, Tdb.view_store_self hf, AList.lookup_insert]

theorem holds_of_storingSet (hs : StoringSet f k x env s t) :
    ∃ r, transformWrite (env t.id).transform x = .ok r ∧ Holds f k r (handleSet env s t).tdb := by
  obtain ⟨r', hr', hsucc⟩ := hs.succeeds
  have hfail : ∀ t' : StorageTask, (storageTaskFail s t').replies ≠ s.replies ++ [r'] := by
    intro t' heq
    rw [replies_fail] at heq
    rw [← List.singleton_inj.mp (List.append_cancel_left heq)] at hsucc
    cases hsucc
  have h₁ := handleSet_step env s t
  generalize handleSet env s t = s' at h₁ hr' ⊢
  cases h₁ with
  | closed e _ => exact absurd hr' (hfail _)
  | unknown e _ _ _ _ => exact absurd hr' (hfail _)
  | queued y _ h₀ _ _ => exact absurd hs.plain h₀
  | dropped _ _ _ =>
    have hlen := congrArg List.length hr'
    simp at hlen
  | failed e _ _ _ => exact absurd hr' (hfail _)
  | stored r _ _ ho =>
    refine ⟨r, hs.data ▸ transformWrite_of_setOutcome ho, ?_⟩
    rw [← hs.key]
    exact holds_store hs.file t.key r

/-- **A replay that gets to its end** has stored what the last set of the key writes. -/
theorem holds_of_runMsgs {i : ℕ} (h₀ : i ≠ 0) {post : List StorageTask} (hm : m.txnId = i)
    (hpost : ∀ m' ∈ post, m'.key ≠ m.key) : ∀ (pre : List StorageTask) {s : Storage h},
      s.txn = i → s.tdb.file = some f → s.lookupTxn i ≠ none →
      (runMsgs env i (pre ++ m :: post) s).2 = true →
        ∃ r, setOutcome env m = .ok r ∧
          Holds f m.key r (runMsgs env i (pre ++ m :: post) s).1.tdb
  | [], s, hi, hf, hl, hr => by
    have hc : s.tdb.ctx ≠ none := Tdb.ctx_ne_none_iff.mpr ⟨f, hf⟩
    rw [List.nil_append, runMsgs_cons] at hr ⊢
    split_ifs at hr ⊢ with hslot
    cases ho : setOutcome env m with
    | error e =>
      subst hm
      exact absurd (slotError_of_failed hc hi h₀ hl ho) hslot
    | ok r =>
      refine ⟨r, rfl, holds_runMsgs i hpost ?_⟩
      rw [handleSet_stored hc (hi.trans hm.symm) ho]
      exact holds_store hf m.key r
  | a :: pre, s, hi, hf, hl, hr => by
    rw [List.cons_append, runMsgs_cons] at hr ⊢
    split_ifs at hr ⊢ with hslot
    have hframe := frame_handleSet env s a
    exact holds_of_runMsgs h₀ hm hpost pre (hframe.txn.trans hi) (hframe.file.trans hf)
      (fun hn => hl ((lookupTxn_handleSet i).mp hn)) hr

theorem holds_of_storingCommit (hs : StoringCommit f k x env s t) :
    ∃ i r, transformWrite (env i).transform x = .ok r ∧ Holds f k r (commitTxn env s t).1.tdb := by
  obtain ⟨rs, r', hr', hsucc⟩ := hs.succeeds
  obtain ⟨y, pre, m, post, hl, hlog, hm, rfl, rfl, hpost⟩ := hs.set
  have hfail : ∀ (s' : Storage h) (t' : StorageTask), s'.replies = s.replies →
      (storageTaskFail s' t').replies ≠ s.replies ++ rs ++ [r'] := by
    intro s' t' hrep heq
    rw [replies_fail, hrep] at heq
    rw [last_reply heq] at hsucc
    cases hsucc
  have h₁ := commitTxn_step env s t
  generalize commitTxn env s t = p at h₁ hr' ⊢
  cases h₁ with
  | closed e _ => exact absurd hr' (hfail _ _ rfl)
  | queued _ _ _ =>
    have hlen := congrArg List.length hr'
    simp at hlen
  | unknown e _ _ _ => exact absurd hr' (hfail _ _ rfl)
  | notStarted z _ _ _ _ => exact absurd hr' (hfail _ _ rfl)
  | ran z e _ _ hz _ =>
    obtain rfl := Option.some.inj (hl.symm.trans hz)
    rw [replies_afterCommit] at hr'
    have hok : commitOk env s t y = true := by
      rw [last_reply hr'] at hsucc
      exact hsucc
    have hrun : (replay env s t y).2 = true := (Bool.and_eq_true_iff.mp hok).1
    have hbegin : (beginTxn s t).lookupTxn t.txnId ≠ none := by
      rw [lookupTxn_beginTxn hl]
      exact Option.some_ne_none _
    rw [replay, hlog] at hrun
    obtain ⟨r, ho, hholds⟩ := holds_of_runMsgs hs.txn hm hpost pre rfl
      ((Tdb.file_transactionStart s.tdb).trans hs.file) hbegin hrun
    refine ⟨m.id, r, transformWrite_of_setOutcome ho, ?_⟩
    rw [tdb_afterCommit, replay, hlog, hrun, if_pos rfl, hok]
    exact (congrArg (AList.lookup m.key) (Tdb.view_transactionCommit_true _ f)).trans hholds

/-- **Both ways of storing a value leave its record behind**, as the transform at that time wrote
it. -/
theorem holds_of_stores (hs : Stores f k x env s t) : ∃ i r,
    transformWrite (env i).transform x = .ok r ∧ Holds f k r (handleMessage env s t).tdb := by
  obtain ⟨hrun, hs⟩ := hs
  split at hs
  · next hw =>
    rw [handleMessage_set env hrun hw]
    obtain ⟨r, hr, hh⟩ := holds_of_storingSet hs
    exact ⟨t.id, r, hr, hh⟩
  · next hw =>
    have hlater : ∀ (s : Storage h) (t : StorageTask),
        (∃ i r, transformWrite (env i).transform x = .ok r ∧ Holds f k r s.tdb) →
        UntouchedCommit k env s t → ∃ i r, transformWrite (env i).transform x = .ok r ∧
          Holds f k r (commitTxn env s t).1.tdb :=
      fun _ _ ⟨i, r, hr, hh⟩ hg => ⟨i, r, hr, holds_commitTxn hh hg⟩
    have hpop : ∀ (s : Storage h) (t : StorageTask) (s' : Storage h),
        (∃ i r, transformWrite (env i).transform x = .ok r ∧ Holds f k r s.tdb) →
        popCommit s = some (t, s') →
          ∃ i r, transformWrite (env i).transform x = .ok r ∧ Holds f k r s'.tdb :=
      fun _ _ _ ⟨i, r, hr, hh⟩ hp => ⟨i, r, hr, holds_popCommit hh hp⟩
    rw [handleMessage_commit env hrun hw]
    exact SinceCall.invariant (fun _ _ hs => holds_of_storingCommit hs) hlater hpop hs
  · exact absurd hs id

theorem recorded_of_stores (henv : ∀ i, (env i).transform = some T) (hs : Stores f k x env s t) :
    Recorded T f k x (handleMessage env s t).tdb := by
  obtain ⟨i, r, hr, hh⟩ := holds_of_stores hs
  exact ⟨r, henv i ▸ hr, hh⟩

theorem running_of_stores (hs : Stores f k x env s t) (us : List StorageTask) {g : Bytes}
    (hg : (run env (handleMessage env s t) us).tdb.file = some g) :
    (run env (handleMessage env s t) us).stopped = false := by
  have hclosed : s.stopped = true → s.tdb.ctx = none := fun hstop =>
    Bool.noConfusion (hs.1.symm.trans hstop)
  refine Bool.eq_false_of_not_eq_true fun hstop => ?_
  exact Tdb.ctx_ne_none_iff.mpr ⟨g, hg⟩ (closed_run (closed_handleMessage hclosed t) us hstop)

end Stores

/-! ## The value is fetched -/

/-- A get of `k` is answered with success and the bytes `x`. -/
def Fetches (env : Env) (s : Storage h) (i : ℕ) (k x : Bytes) : Prop :=
  (handleMessage env s (getTask i k)).replies =
    s.replies ++ [{ getTask i k with data := x, success := true }]

theorem handleMessage_get {s : Storage h} {f k r : Bytes} (i : ℕ) (hrun : s.stopped = false)
    (hf : s.tdb.file = some f) (hs : Holds f k r s.tdb) :
    handleMessage env s (getTask i k) = match transformRead (env i).transform r with
      | .error e => storageTaskFail s ((getTask i k).setError e)
      | .ok data => storageTaskSucceed s { getTask i k with data := data } := by
  have hc : s.tdb.ctx.isNone = false := by
    obtain ⟨c, hc, _⟩ := Option.map_eq_some_iff.mp hf
    rw [hc]
    rfl
  have hfetch : s.tdb.fetch (getTask i k).key = some r := (Tdb.fetch_eq hf k).trans hs
  rw [handleMessage_eq env hrun]
  change handleGet env s (getTask i k) = _
  rw [handleGet, hc, if_neg Bool.false_ne_true, hfetch]
  rfl

theorem fetches_iff {s : Storage h} {f k r x : Bytes} {i : ℕ} (hrun : s.stopped = false)
    (hf : s.tdb.file = some f) (hs : Holds f k r s.tdb) :
    Fetches env s i k x ↔ transformRead (env i).transform r = .ok x := by
  rw [Fetches, handleMessage_get i hrun hf hs]
  cases transformRead (env i).transform r with
  | error e => simp [StorageTask.setError, getTask]
  | ok v => simp [storageTaskSucceed, getTask]

/-- **A value is fetched back exactly when its write is pointer safe.** -/
theorem contract_iff {T : Transform} (hT : Lawful T) (env : Env)
    (henv : ∀ i, (env i).transform = some T) {f k x : Bytes} (hx : x ≠ []) {s : Storage h}
    {t : StorageTask} (hs : Stores f k x env s t) {us : List StorageTask}
    (hus : Along (handleMessage env) (Untouched f k env) (handleMessage env s t) us)
    (hf : (run env (handleMessage env s t) us).tdb.file = some f) (i : ℕ) :
    Fetches env (run env (handleMessage env s t) us) i k x ↔ PointerSafe T x := by
  obtain ⟨r, hr, hholds⟩ := recorded_of_stores henv hs
  rw [fetches_iff (running_of_stores hs us hf) hf (holds_run hholds hus), henv,
    read_record_iff hT hx hr]

/-- A transform that puts a byte in front of its input. -/
def tagTransform : Transform where
  write x := .ok (some (0 :: x))
  read y := .ok (some y.tail)

theorem lawful_tagTransform : Lawful tagTransform := by
  rintro x hx y hy
  obtain rfl : 0 :: x = y := by simpa [TransformResult.byRule, tagTransform, outputLength] using hy
  simp [TransformResult.byRule, tagTransform, outputLength, hx]

def tagged : Env := fun _ => { transform := some tagTransform }

/-- An open storage. -/
def openedStorage (env : Env) : Storage lp64 :=
  run env (catalinaStorageInit lp64 fun _ => ∅) [openTask 0 [47]]

theorem contract_iff_tagTransform :
    Fetches tagged
      (run tagged (handleMessage tagged (openedStorage tagged) (setTask 1 0 [1] [10]))
        [beginTask 2, setTask 3 1 [2] [20], commitTask 4 1]) 5 [1] [10] ↔
      PointerSafe tagTransform [10] := by
  have hset : Stores [47] [1] [10] tagged (openedStorage tagged) (setTask 1 0 [1] [10]) :=
    ⟨rfl, rfl, rfl, rfl, rfl, _, rfl, rfl⟩
  have hrun : Along (handleMessage tagged) (Untouched [47] [1] tagged)
      (handleMessage tagged (openedStorage tagged) (setTask 1 0 [1] [10]))
      [beginTask 2, setTask 3 1 [2] [20], commitTask 4 1] := by
    refine ⟨trivial, fun hk => absurd hk (by decide), ⟨fun x hx m hm => ?_, fun _ => rfl⟩, trivial⟩
    obtain rfl : x = { txnId := 1, msgs := [setTask 3 1 [2] [20]] } :=
      Option.some.inj (hx.symm.trans rfl)
    obtain rfl : m = setTask 3 1 [2] [20] := List.mem_singleton.mp hm
    decide
  exact contract_iff lawful_tagTransform tagged (fun _ => rfl) (by decide) hset hrun rfl 5

/-- A transform that writes nothing and asks for its input to be used, with a pointer that is not
`NULL`. -/
def emptyBuffer : Transform where
  write _ := .ok (some [])
  read _ := .ok none

theorem lawful_emptyBuffer : Lawful emptyBuffer := by
  rintro x _ y hy
  obtain rfl : x = y := by simpa [TransformResult.byRule, emptyBuffer, outputLength] using hy
  simp [TransformResult.byRule, emptyBuffer, outputLength]

def emptied : Env := fun _ => { transform := some emptyBuffer }

/-- The value is stored as no bytes. -/
theorem contract_broken :
    ¬ ∀ T, Lawful T → ∀ env : Env, (∀ i, (env i).transform = some T) → ∀ f k x : Bytes, x ≠ [] →
      ∀ (s : Storage lp64) (t : StorageTask), Stores f k x env s t → ∀ us : List StorageTask,
        Along (handleMessage env) (Untouched f k env) (handleMessage env s t) us →
          (run env (handleMessage env s t) us).tdb.file = some f →
            ∀ i, Fetches env (run env (handleMessage env s t) us) i k x := by
  intro hclaim
  have hfetch := hclaim emptyBuffer lawful_emptyBuffer emptied (fun _ => rfl) [47] [1] [10]
    (by decide) (openedStorage emptied) (setTask 1 0 [1] [10]) ⟨rfl, rfl, rfl, rfl, rfl, _, rfl, rfl⟩ []
    trivial rfl 2
  revert hfetch
  unfold Fetches
  decide

end Catalina
