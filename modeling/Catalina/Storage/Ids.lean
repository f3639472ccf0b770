import Catalina.Storage.Replay

/-!
# The ids of the open transactions

`handle_txn_begin` takes the next value of a counter whose first 32 bits are incremented.

* `Storage.ids`: the ids of the open transactions, and what each handler makes of them.
* `Host.ordinal`: the counter after a number of begins; `begun`: the begins of a run.
* `Unclashed`: a begin returns an id that no open transaction has, and a set with the id of an open
  transaction is queued in it.
* **`unclashed_iff`**: exactly with fewer than 2^32 begins, and no set for the current transaction.
* `begins_wrap`: the begin number 2^32.
-/

namespace Catalina

variable {h : Host} {env : Env}

/-- The ids of the open transactions. -/
def Storage.ids (s : Storage h) : List ℕ := s.txnState.rows.map TxnState.txnId

/-! ## What the handlers make of them -/

section Ids

variable {s : Storage h} {t : StorageTask}

theorem ids_eq (s : Storage h) : s.ids = s.logs.map Prod.fst := by
  unfold Storage.ids Storage.logs
  rw [List.map_map]
  rfl

theorem mem_ids {i : ℕ} : i ∈ s.ids ↔ ∃ l, (i, l) ∈ s.logs := by
  simp [ids_eq]

theorem subset_of_ids_eq {s' : Storage h} (heq : s'.ids = s.ids) : s'.ids ⊆ s.ids := by
  rw [heq]
  exact List.Subset.refl _

@[simp] theorem ids_fail (s : Storage h) (t : StorageTask) : (storageTaskFail s t).ids = s.ids := by
  rw [ids_eq, ids_eq, logs_fail]

@[simp] theorem ids_modifyMsgs (s : Storage h) (id : ℕ) (f : List StorageTask → List StorageTask) :
    (s.modifyMsgs id f).ids = s.ids := by
  unfold Storage.ids Storage.modifyMsgs Table.modify
  rw [List.map_map]
  refine List.map_congr_left fun x _ => ?_
  rw [Function.comp_apply]
  split_ifs <;> rfl

theorem ids_erase (s : Storage h) (k : ℕ) :
    ({ s with txnState := s.txnState.erase k } : Storage h).ids =
      s.ids.filter fun i => h.firstWord i ≠ k := by
  unfold Storage.ids Table.erase
  rw [List.filter_map]
  rfl

@[simp] theorem ids_handleSet (env : Env) (s : Storage h) (t : StorageTask) :
    (handleSet env s t).ids = s.ids := by
  have hs := handleSet_step env s t
  generalize handleSet env s t = s' at hs ⊢
  cases hs with
  | closed e _ => exact ids_fail s _
  | unknown e _ _ _ _ => exact ids_fail s _
  | queued x _ _ _ _ => exact ids_modifyMsgs s t.txnId _
  | dropped _ _ _ => rfl
  | failed e _ _ _ => exact ids_fail s _
  | stored r _ _ _ => rfl

theorem ids_replay (env : Env) (s : Storage h) (t : StorageTask) (x : TxnState) :
    (replay env s t x).1.ids = s.ids :=
  runMsgs_invariant (P := fun s' => s'.ids = s.ids) t.txnId _
    (fun m _ s' hs' => (ids_handleSet env s' m).trans hs')
    (ids_modifyMsgs { s with txn := t.txnId, tdb := s.tdb.transactionStart } t.txnId List.reverse)

theorem notMem_ids_of_lookup {i : ℕ} (hl : s.lookupTxn i = none) : i ∉ s.ids := by
  intro hi
  obtain ⟨x, hx, rfl⟩ := List.mem_map.mp hi
  exact Table.find_eq_none.mp hl x hx rfl

theorem notMem_ids_of_closed (hs : s.Inv) (hc : s.tdb.ctx = none) (i : ℕ) : i ∉ s.ids :=
  notMem_ids_of_lookup (lookupTxn_of_closed hs hc i)

/-- **A commit that has run** ends the transaction that its id leads to. -/
theorem ids_afterCommit (env : Env) (s : Storage h) (t : StorageTask) (x : TxnState)
    (e : Option GError) : (afterCommit env s t x e).ids =
      s.ids.filter fun i => h.firstWord i ≠ h.firstWord t.txnId := by
  rw [← ids_replay env s t x]
  exact ids_erase (replay env s t x).1 _

theorem ids_commitTxn (env : Env) (s : Storage h) (t : StorageTask) :
    (commitTxn env s t).1.ids ⊆ s.ids := by
  have hs := commitTxn_step env s t
  generalize commitTxn env s t = p at hs ⊢
  cases hs with
  | closed e _ => exact subset_of_ids_eq (ids_fail s _)
  | queued _ _ _ => exact List.Subset.refl _
  | unknown e _ _ _ => exact subset_of_ids_eq (ids_fail { s with txn := t.txnId } _)
  | notStarted x _ _ _ _ => exact subset_of_ids_eq (ids_fail { s with txn := t.txnId } _)
  | ran x e _ _ _ _ =>
    rw [ids_afterCommit]
    exact List.filter_subset_self _

theorem txnSeq_commitTxn (env : Env) (s : Storage h) (t : StorageTask) :
    (commitTxn env s t).1.txnSeq = s.txnSeq := by
  have hs := commitTxn_step env s t
  generalize commitTxn env s t = p at hs ⊢
  cases hs with
  | closed e _ => exact txnSeq_fail s _
  | queued _ _ _ => rfl
  | unknown e _ _ _ => exact txnSeq_fail { s with txn := t.txnId } _
  | notStarted x _ _ _ _ => exact txnSeq_fail { s with txn := t.txnId } _
  | ran x e _ _ _ _ => exact txnSeq_afterCommit env s t x e

theorem ids_handleTxnCommit (env : Env) (s : Storage h) (t : StorageTask) :
    (handleTxnCommit env s t).ids ⊆ s.ids ∧ (handleTxnCommit env s t).txnSeq = s.txnSeq := by
  have hwork : ∀ (s' : Storage h) (t' : StorageTask), s'.ids ⊆ s.ids ∧ s'.txnSeq = s.txnSeq → True →
      (commitTxn env s' t').1.ids ⊆ s.ids ∧ (commitTxn env s' t').1.txnSeq = s.txnSeq :=
    fun s' t' hs _ => ⟨List.Subset.trans (ids_commitTxn env s' t') hs.1,
      (txnSeq_commitTxn env s' t').trans hs.2⟩
  have hpop : ∀ (s' : Storage h) (t' : StorageTask) (s'' : Storage h),
      s'.ids ⊆ s.ids ∧ s'.txnSeq = s.txnSeq → popCommit s' = some (t', s'') →
      s''.ids ⊆ s.ids ∧ s''.txnSeq = s.txnSeq := fun s' t' s'' hs hp => by
    obtain ⟨rest, _, rfl⟩ := popCommit_eq hp
    exact hs
  exact EachCall.invariant hwork hpop ⟨List.Subset.refl _, rfl⟩
    (EachCall.of_forall (fun _ _ => trivial) _ _ _)

theorem ids_handleMessage (env : Env) (hb : ¬ (t.what = .messageTxnBegin ∧ s.tdb.ctx ≠ none)) :
    (handleMessage env s t).ids ⊆ s.ids ∧ (handleMessage env s t).txnSeq = s.txnSeq := by
  have h₁ := handleMessage_step env s t
  generalize handleMessage env s t = s' at h₁ ⊢
  cases h₁ with
  | stopped _ | ended _ _ _ => exact ⟨List.Subset.refl _, rfl⟩
  | set _ _ => exact ⟨subset_of_ids_eq (ids_handleSet env s t), (frame_handleSet env s t).txnSeq⟩
  | commit _ _ => exact ids_handleTxnCommit env s t
  | failed t' _ _ _ _ => exact ⟨subset_of_ids_eq (ids_fail s t'), txnSeq_fail s t'⟩
  | answered t' _ _ _ => exact ⟨List.Subset.refl _, rfl⟩
  | notOpened t' _ _ _ _ =>
    rw [ids_fail, txnSeq_fail]
    exact ⟨List.nil_subset _, rfl⟩
  | opened _ _ _ _ => exact ⟨List.nil_subset _, rfl⟩
  | closed _ _ _ _ => exact ⟨List.Subset.refl _, rfl⟩
  | began hw hc => exact absurd ⟨hw, hc⟩ hb
  | cancelled x _ _ _ =>
    refine ⟨?_, rfl⟩
    change ({ s with txnState := s.txnState.erase (h.firstWord t.txnId) } : Storage h).ids ⊆ s.ids
    rw [ids_erase]
    exact List.filter_subset_self _

theorem handleMessage_began (env : Env) (hrun : s.stopped = false) (hw : t.what = .messageTxnBegin)
    (hc : s.tdb.ctx ≠ none) : handleMessage env s t = storageTaskSucceed
      { s with
        txnSeq := h.incFirstWord s.txnSeq
        txnState := s.txnState.insert { txnId := h.incFirstWord s.txnSeq } }
      { t with value := some (h.incFirstWord s.txnSeq), txnId := h.incFirstWord s.txnSeq } := by
  have hdispatch : handleMessage env s t = handleTxnBegin s t := by
    rw [handleMessage_eq env hrun, hw]
  rw [hdispatch, handleTxnBegin, if_neg (by simpa using hc)]

end Ids

/-! ## The counter -/

namespace Host

variable (h : Host) (n : ℕ)

/-- The counter after `n` begins. -/
def ordinal : ℕ := h.incFirstWord^[n] 0

theorem ordinal_succ : h.ordinal (n + 1) = h.incFirstWord (h.ordinal n) :=
  Function.iterate_succ_apply' h.incFirstWord n 0

theorem ordinal_lowFirst (hl : h.LowFirst) : h.ordinal n = n % 2 ^ 32 := by
  induction n with
  | zero => rfl
  | succ n ih =>
    rw [ordinal_succ, incFirstWord_of_lowFirst hl, ih]
    omega

theorem ordinal_highFirst (hl : ¬ h.LowFirst) : h.ordinal n = n % 2 ^ 32 * 2 ^ 32 := by
  obtain ⟨ho, hw⟩ := not_not.mp hl
  induction n with
  | zero =>
    rw [Nat.zero_mod, Nat.zero_mul]
    rfl
  | succ n ih =>
    rw [ordinal_succ, ih, incFirstWord, ho, hw]
    dsimp only
    rw [Nat.mul_div_cancel _ (by decide), Nat.mul_mod_left, Nat.add_zero, Nat.mod_add_mod]

variable {h n}

/-- **Counters are one exactly if the numbers of begins agree in 32 bits.** -/
theorem ordinal_eq_iff {k : ℕ} : h.ordinal n = h.ordinal k ↔ n % 2 ^ 32 = k % 2 ^ 32 := by
  by_cases hl : h.LowFirst
  · rw [ordinal_lowFirst h n hl, ordinal_lowFirst h k hl]
  · rw [ordinal_highFirst h n hl, ordinal_highFirst h k hl]
    omega

theorem firstWord_ordinal : h.firstWord (h.ordinal n) = n % 2 ^ 32 := by
  by_cases hl : h.LowFirst
  · rw [ordinal_lowFirst h n hl, firstWord_of_lowFirst hl]
    omega
  · obtain ⟨ho, hw⟩ := not_not.mp hl
    rw [ordinal_highFirst h n hl, firstWord, ho, hw]
    dsimp only
    omega

end Host

/-- The begins that a run handles while the storage is open. -/
def begun (env : Env) : Storage h → List StorageTask → ℕ
  | _, [] => 0
  | s, t :: ts =>
    (if t.what = .messageTxnBegin ∧ s.tdb.ctx ≠ none then 1 else 0) +
      begun env (handleMessage env s t) ts

/-- After `n` begins: the counter, and the ids of the open transactions. -/
structure Numbered (n : ℕ) (s : Storage h) : Prop where
  seq : s.txnSeq = h.ordinal n
  ids : ∀ i ∈ s.ids, ∃ k, 1 ≤ k ∧ k ≤ n ∧ i = h.ordinal k

section Numbered

variable {s : Storage h} {t : StorageTask} {n : ℕ}

theorem numbered_init (disk : Bytes → Records) : Numbered 0 (catalinaStorageInit h disk) :=
  ⟨rfl, fun _ hi => absurd hi List.not_mem_nil⟩

theorem Numbered.next (hs : Numbered n s) : h.incFirstWord s.txnSeq = h.ordinal (n + 1) := by
  rw [hs.seq, Host.ordinal_succ]

theorem numbered_handleMessage (hinv : s.Inv) (hs : Numbered n s) :
    Numbered (n + if t.what = .messageTxnBegin ∧ s.tdb.ctx ≠ none then 1 else 0)
      (handleMessage env s t) := by
  by_cases hb : t.what = .messageTxnBegin ∧ s.tdb.ctx ≠ none
  · rw [if_pos hb, handleMessage_began env (hinv.running hb.2) hb.1 hb.2, hs.next]
    refine ⟨rfl, fun i hi => ?_⟩
    obtain ⟨x, hx, rfl⟩ := List.mem_map.mp hi
    rcases Table.mem_insert.mp hx with rfl | ⟨hx, _⟩
    · exact ⟨n + 1, by omega, Nat.le_refl _, rfl⟩
    · obtain ⟨k, hk, hle, heq⟩ := hs.ids x.txnId (List.mem_map_of_mem hx)
      exact ⟨k, hk, by omega, heq⟩
  · rw [if_neg hb, Nat.add_zero]
    obtain ⟨hids, hseq⟩ := ids_handleMessage env hb
    exact ⟨hseq.trans hs.seq, fun i hi => hs.ids i (hids hi)⟩

theorem Numbered.key_ne (hs : Numbered n s) (hn : n + 1 < 2 ^ 32) {i : ℕ} (hi : i ∈ s.ids) :
    h.firstWord i ≠ h.firstWord (h.ordinal (n + 1)) := by
  obtain ⟨k, _, hle, rfl⟩ := hs.ids i hi
  rw [Host.firstWord_ordinal, Host.firstWord_ordinal]
  omega

theorem Numbered.ne_zero (hs : Numbered n s) (hn : n < 2 ^ 32) {i : ℕ} (hi : i ∈ s.ids) : i ≠ 0 := by
  obtain ⟨k, hk, hle, rfl⟩ := hs.ids i hi
  intro h₀
  have hmod := (Host.ordinal_eq_iff (k := 0)).mp h₀
  omega

end Numbered

/-! ## Clashes -/

section Unclashed

variable (env) (s : Storage h) (t : StorageTask)

/-- The begin `t` returns an id that is not zero and that no open transaction has, and opens a
transaction without replacing another one. -/
def BeginsFresh : Prop :=
  ∃ r i, (handleMessage env s t).replies = s.replies ++ [r] ∧ r.success = true ∧ r.value = some i ∧
    i ≠ 0 ∧ (∀ p ∈ s.logs, p.1 ≠ i ∧ p ∈ (handleMessage env s t).logs) ∧
    (i, []) ∈ (handleMessage env s t).logs

/-- The set `t` is put into the log of the open transaction it names. -/
def QueuesSet : Prop :=
  ∀ p ∈ s.logs, p.1 = t.txnId → (p.1, t :: p.2) ∈ (handleMessage env s t).logs

/-- **The ids do not clash**, as far as the message `t` shows. -/
def Unclashed : Prop :=
  match t.what with
  | .messageTxnBegin => s.tdb.ctx ≠ none → BeginsFresh env s t
  | .messageSet => QueuesSet env s t
  | _ => True

/-- A set names no transaction that is open and the current one. -/
def SetsApart : Prop := t.what = .messageSet → t.txnId ∈ s.ids → s.txn ≠ t.txnId

variable {env s t} {n : ℕ}

/-- **A begin is fresh** until the counter wraps. -/
theorem beginsFresh_iff (hinv : s.Inv) (hs : Numbered n s) (hn : n < 2 ^ 32)
    (hw : t.what = .messageTxnBegin) (hc : s.tdb.ctx ≠ none) :
    BeginsFresh env s t ↔ n + 1 < 2 ^ 32 := by
  unfold BeginsFresh
  rw [handleMessage_began env (hinv.running hc) hw hc, hs.next]
  constructor
  · rintro ⟨r, i, hr, _, hv, h₀, _⟩
    obtain rfl := List.singleton_inj.mp (List.append_cancel_left hr)
    obtain rfl := Option.some.inj hv
    by_contra hlt
    refine h₀ ((Host.ordinal_eq_iff (k := 0)).mpr ?_)
    omega
  · intro hlt
    refine ⟨_, _, rfl, rfl, rfl, fun h₀ => ?_, fun p hp => ?_, ?_⟩
    · have hmod := (Host.ordinal_eq_iff (k := 0)).mp h₀
      omega
    · have hkey := hs.key_ne hlt (mem_ids.mpr ⟨p.2, hp⟩)
      obtain ⟨x, hx, rfl⟩ := List.mem_map.mp hp
      refine ⟨fun heq => hkey (congrArg _ heq), List.mem_map.mpr ⟨x, ?_, rfl⟩⟩
      exact Table.mem_insert.mpr (Or.inr ⟨hx, hkey⟩)
    · exact List.mem_map.mpr ⟨{ txnId := h.ordinal (n + 1) }, Table.mem_insert.mpr (Or.inl rfl), rfl⟩

theorem logs_eq_of_id {p q : ℕ × List StorageTask} (hp : p ∈ s.logs) (hq : q ∈ s.logs)
    (heq : p.1 = q.1) : p = q := by
  obtain ⟨x, hx, rfl⟩ := List.mem_map.mp hp
  obtain ⟨y, hy, rfl⟩ := List.mem_map.mp hq
  rw [s.txnState.eq_of_key hx hy (congrArg h.firstWord heq)]

theorem lookupTxn_of_mem {x : TxnState} (hx : x ∈ s.txnState.rows) :
    s.lookupTxn x.txnId = some x := Table.find_eq_some.mpr ⟨hx, rfl⟩

theorem logs_modifyMsgs (s : Storage h) (id : ℕ) (f : List StorageTask → List StorageTask) :
    (s.modifyMsgs id f).logs = s.logs.map fun p =>
      if h.firstWord p.1 = h.firstWord id then (p.1, f p.2) else p := by
  unfold Storage.logs Storage.modifyMsgs Table.modify
  rw [List.map_map, List.map_map]
  refine List.map_congr_left fun x _ => ?_
  by_cases hk : TxnState.key h x = h.firstWord id
  · rw [Function.comp_apply, Function.comp_apply, if_pos hk]
    exact (if_pos hk).symm
  · rw [Function.comp_apply, Function.comp_apply, if_neg hk]
    exact (if_neg hk).symm

theorem handleSet_queued {x : TxnState} (hc : s.tdb.ctx ≠ none) (h₀ : t.txnId ≠ 0)
    (hne : s.txn ≠ t.txnId) (hl : s.lookupTxn t.txnId = some x) :
    handleSet env s t = s.modifyMsgs t.txnId (t :: ·) := by
  have h₁ := handleSet_step env s t
  generalize handleSet env s t = s' at h₁ ⊢
  cases h₁ with
  | closed e hc' => exact absurd hc' hc
  | unknown e _ _ _ hn =>
    rw [hl] at hn
    cases hn
  | queued y _ _ _ _ => rfl
  | dropped _ hz _ => exact absurd hz h₀
  | failed e _ heq _ => exact absurd heq hne
  | stored r _ heq _ => exact absurd heq hne

/-- **A set of an open transaction is queued in it** unless it is the current one. -/
theorem queuesSet_iff (hs : s.Inv) (h₀ : ∀ i ∈ s.ids, i ≠ 0) (hw : t.what = .messageSet) :
    QueuesSet env s t ↔ (t.txnId ∈ s.ids → s.txn ≠ t.txnId) := by
  unfold QueuesSet
  by_cases hstop : s.stopped = true
  · have hids : t.txnId ∉ s.ids := notMem_ids_of_closed hs (hs.stopped hstop) _
    exact ⟨fun _ hid => absurd hid hids,
      fun _ p hp heq => absurd (mem_ids.mpr ⟨p.2, heq ▸ hp⟩) hids⟩
  rw [handleMessage_set env (Bool.eq_false_of_not_eq_true hstop) hw]
  have hstay : (handleSet env s t).logs = s.logs → t.txnId ∈ s.ids →
      ¬ ∀ p ∈ s.logs, p.1 = t.txnId → (p.1, t :: p.2) ∈ (handleSet env s t).logs := by
    intro hlogs hid hall
    obtain ⟨l, hl⟩ := mem_ids.mp hid
    have hmem := hall _ hl rfl
    rw [hlogs] at hmem
    have heq := logs_eq_of_id hl hmem rfl
    exact List.cons_ne_self t l (congrArg Prod.snd heq).symm
  have hopen : t.txnId ∈ s.ids → s.tdb.ctx ≠ none := by
    intro hid hc
    exact notMem_ids_of_closed hs hc _ hid
  constructor
  · intro hall hid heq
    refine hstay ?_ hid hall
    cases ho : setOutcome env t with
    | ok r =>
      rw [handleSet_stored (hopen hid) heq ho]
      rfl
    | error e =>
      rw [handleSet_failed (hopen hid) heq ho]
      exact logs_fail s _
  · rintro hne ⟨i, l⟩ hp rfl
    have hid : t.txnId ∈ s.ids := mem_ids.mpr ⟨l, hp⟩
    obtain ⟨x, hx, hxl⟩ := List.mem_map.mp hp
    obtain ⟨hxid, rfl⟩ := Prod.mk.inj hxl
    have hl : s.lookupTxn t.txnId = some x := hxid ▸ lookupTxn_of_mem hx
    rw [handleSet_queued (hopen hid) (h₀ _ hid) (hne hid) hl, logs_modifyMsgs]
    exact List.mem_map.mpr ⟨_, hp, if_pos rfl⟩

theorem unclashed_of_begun : ∀ {ms : List StorageTask} {n : ℕ} {s : Storage h}, s.Inv →
    Numbered n s → n + begun env s ms < 2 ^ 32 → Along (handleMessage env) SetsApart s ms →
    Along (handleMessage env) (Unclashed env) s ms
  | [], _, _, _, _, _, _ => trivial
  | t :: ms, n, s, hinv, hs, hn, hap => by
    rw [begun] at hn
    refine ⟨?_, unclashed_of_begun (inv_handleMessage hinv t) (numbered_handleMessage hinv hs)
      (by omega) hap.2⟩
    unfold Unclashed
    split
    · next hw =>
      intro hc
      rw [if_pos ⟨hw, hc⟩] at hn
      exact (beginsFresh_iff hinv hs (by omega) hw hc).mpr (by omega)
    · next hw =>
      exact (queuesSet_iff hinv (fun i hi => hs.ne_zero (by omega) hi) hw).mpr (hap.1 hw)
    · trivial

/-- **A run without a clash** has not got round the counter. -/
theorem begun_of_unclashed : ∀ {ms : List StorageTask} {n : ℕ} {s : Storage h}, s.Inv →
    Numbered n s → n < 2 ^ 32 → Along (handleMessage env) (Unclashed env) s ms →
    n + begun env s ms < 2 ^ 32 ∧ Along (handleMessage env) SetsApart s ms
  | [], _, _, _, _, hn, _ => ⟨hn, trivial⟩
  | t :: ms, n, s, hinv, hs, hn, hu => by
    obtain ⟨hu, hus⟩ := hu
    have hstep : n + (if t.what = .messageTxnBegin ∧ s.tdb.ctx ≠ none then 1 else 0) < 2 ^ 32 := by
      split_ifs with hb
      · rw [Unclashed, hb.1] at hu
        exact (beginsFresh_iff hinv hs hn hb.1 hb.2).mp (hu hb.2)
      · exact hn
    obtain ⟨hlt, hap⟩ :=
      begun_of_unclashed (inv_handleMessage hinv t) (numbered_handleMessage hinv hs) hstep hus
    refine ⟨by rw [begun]; omega, fun hw => ?_, hap⟩
    rw [Unclashed, hw] at hu
    exact (queuesSet_iff hinv (fun i hi => hs.ne_zero hn hi) hw).mp hu

end Unclashed

/-- **Transaction ids do not clash** in exactly the runs with fewer than 2^32 begins in which no set
names the current transaction while that is open. -/
theorem unclashed_iff (env : Env) (disk : Bytes → Records) (ms : List StorageTask) :
    Along (handleMessage env) (Unclashed env) (catalinaStorageInit h disk) ms ↔
      begun env (catalinaStorageInit h disk) ms < 2 ^ 32 ∧
        Along (handleMessage env) SetsApart (catalinaStorageInit h disk) ms := by
  have hn := numbered_init (h := h) disk
  constructor
  · intro hu
    have hlt := begun_of_unclashed (inv_init disk) hn (by decide) hu
    rwa [Nat.zero_add] at hlt
  · rintro ⟨hlt, hap⟩
    exact unclashed_of_begun (inv_init disk) hn (by rwa [Nat.zero_add]) hap

/-! ## The begin number 2^32 -/

theorem begun_of_begins : ∀ {ms : List StorageTask} {s : Storage h},
    (∀ t ∈ ms, t.what = .messageTxnBegin) → s.Inv → s.tdb.ctx ≠ none →
      begun env s ms = ms.length
  | [], _, _, _, _ => rfl
  | t :: ms, s, hms, hinv, hc => by
    have hw := hms t List.mem_cons_self
    have hc' : (handleMessage env s t).tdb.ctx ≠ none := by
      rw [handleMessage_began env (hinv.running hc) hw hc]
      exact hc
    rw [begun, if_pos ⟨hw, hc⟩, begun_of_begins (fun t ht => hms t (List.mem_cons_of_mem _ ht))
      (inv_handleMessage hinv t) hc', List.length_cons, Nat.add_comm]

/-- An open and 2^32 begins. -/
def manyBegins : List StorageTask := openTask 0 [47] :: (List.range' 1 (2 ^ 32)).map beginTask

/-- **The begin number 2^32 clashes**: it returns zero. -/
theorem begins_wrap : ¬ Along (handleMessage fun _ => {}) (Unclashed fun _ => {})
    (catalinaStorageInit lp64 fun _ => ∅) manyBegins := by
  intro hu
  obtain ⟨hlt, _⟩ := begun_of_unclashed (inv_init _) (numbered_init _) (by decide) hu
  have hbegins : ∀ t ∈ (List.range' 1 (2 ^ 32)).map beginTask, t.what = .messageTxnBegin := by
    intro t ht
    obtain ⟨i, _, rfl⟩ := List.mem_map.mp ht
    rfl
  have hopened : (handleMessage (fun _ => {}) (catalinaStorageInit lp64 fun _ => ∅)
      (openTask 0 [47])).tdb.ctx ≠ none := Option.some_ne_none _
  rw [manyBegins, begun, begun_of_begins hbegins (inv_handleMessage (inv_init _) _) hopened,
    List.length_map, List.length_range'] at hlt
  omega

end Catalina
