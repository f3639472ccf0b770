import Catalina.Storage.Replay

/-!
# The queue, the table and the current transaction

A commit is queued without a look at the table of transactions, an unknown one becomes current, and
a cancel does not find the commits it should take off the queue.

* `TxnInv`: what should hold of the queue, the table and the current transaction.
* `Orderly`: the invariant that carries it, with the queue and the current transaction apart.
* `Disciplined`: commits name open transactions that are not queued, cancels neither queued nor
  current ones.
* **`txnInv_of_disciplined`**: in every state that a disciplined run reaches.
* `cancelled_stays_queued`: a cancel that leaves the commit of its transaction in the queue.
-/

namespace Catalina

variable {h : Host} {env : Env}

/-- Every queued commit names an open transaction, none is queued twice, the current transaction is
open, and a closed storage has none of them. -/
structure TxnInv (s : Storage h) : Prop where
  queued : ∀ m ∈ s.txnCommits, s.lookupTxn m.txnId ≠ none
  once : (s.txnCommits.map fun m => h.firstWord m.txnId).Nodup
  current : s.txn ≠ 0 → s.lookupTxn s.txn ≠ none
  closed : s.tdb.ctx = none → s.txnCommits = [] ∧ s.txnState.rows = [] ∧ s.txn = 0

/-- The transaction `id` has no commit in the queue. -/
def NotQueued (s : Storage h) (id : ℕ) : Prop :=
  ∀ m ∈ s.txnCommits, h.firstWord m.txnId ≠ h.firstWord id

/-- Moreover the current transaction is not queued. -/
structure Orderly (s : Storage h) : Prop extends TxnInv s where
  apart : s.txn ≠ 0 → NotQueued s s.txn

/-- The commit `t` names an open transaction (or none, which changes nothing while no transaction is
current), that is not queued, and is the current one only under the same id. -/
structure NamesOpen (s : Storage h) (t : StorageTask) : Prop where
  lookup : s.lookupTxn t.txnId ≠ none ∨ t.txnId = 0 ∧ s.txn = 0
  fresh : NotQueued s t.txnId
  current : s.txn ≠ 0 → s.txn ≠ t.txnId → h.firstWord s.txn ≠ h.firstWord t.txnId

/-- In an open storage, a commit names an open transaction that is not queued, and a cancel neither a
queued one nor the current one. -/
def Disciplined (s : Storage h) (t : StorageTask) : Prop :=
  match t.what with
  | .messageTxnCommit => s.tdb.ctx ≠ none → NamesOpen s t
  | .messageTxnCancel => s.tdb.ctx ≠ none → NotQueued s t.txnId ∧
      (s.txn ≠ 0 → h.firstWord s.txn ≠ h.firstWord t.txnId)
  | _ => True

variable {s s' : Storage h} {t : StorageTask}

theorem rows_eq_nil_iff : s.txnState.rows = [] ↔ ∀ i, s.lookupTxn i = none := by
  refine ⟨fun hrows i => ?_, fun hl => ?_⟩
  · rw [Storage.lookupTxn, Table.find_eq_none, hrows]
    exact fun x hx => absurd hx List.not_mem_nil
  · refine List.eq_nil_iff_forall_not_mem.mpr fun x hx => ?_
    exact Table.find_eq_none.mp (hl x.txnId) x hx rfl

theorem Orderly.congr (hs : Orderly s) (hq : s'.txnCommits = s.txnCommits) (htxn : s'.txn = s.txn)
    (hc : s'.tdb.ctx = none → s.tdb.ctx = none)
    (hl : ∀ i, s'.lookupTxn i = none ↔ s.lookupTxn i = none) : Orderly s' where
  queued m hm hn := hs.queued m (hq ▸ hm) ((hl m.txnId).mp hn)
  once := hq ▸ hs.once
  current h₀ hn := by
    rw [htxn] at h₀ hn
    exact hs.current h₀ ((hl s.txn).mp hn)
  closed hn := by
    obtain ⟨h₁, h₂, h₃⟩ := hs.closed (hc hn)
    exact ⟨hq.trans h₁, rows_eq_nil_iff.mpr fun i => (hl i).mpr (rows_eq_nil_iff.mp h₂ i),
      htxn.trans h₃⟩
  apart h₀ m hm := by
    rw [htxn] at h₀ ⊢
    exact hs.apart h₀ m (hq ▸ hm)

theorem Orderly.fail (hs : Orderly s) (t : StorageTask) : Orderly (storageTaskFail s t) :=
  hs.congr (txnCommits_fail s t) (txn_fail s t) (fun hn => by rwa [tdb_fail] at hn)
    (lookupTxn_fail s t)

theorem orderly_of_empty (h₀ : s.txn = 0) (hx : s.txnState = ∅) (hq : s.txnCommits = []) :
    Orderly s where
  queued m hm := by
    rw [hq] at hm
    exact absurd hm List.not_mem_nil
  once := by rw [hq]; exact List.nodup_nil
  current hne := absurd h₀ hne
  closed _ := ⟨hq, by rw [hx]; rfl, h₀⟩
  apart hne := absurd h₀ hne

/-! ## Commits -/

/-- With the commit `t` in hand. -/
def InHand (s : Storage h) (t : StorageTask) : Prop :=
  Orderly s ∧ (s.tdb.ctx ≠ none → NamesOpen s t)

theorem orderly_commitTxn (hs : InHand s t) : Orderly (commitTxn env s t).1 := by
  obtain ⟨hs, hn⟩ := hs
  have h₁ := commitTxn_step env s t
  generalize commitTxn env s t = p at h₁ ⊢
  cases h₁ with
  | closed e _ => exact hs.fail _
  | queued hc h₀ hne =>
    obtain ⟨hl, hfresh, hcur⟩ := hn hc
    have hopen : s.lookupTxn t.txnId ≠ none := hl.resolve_right fun h₁ => h₀ h₁.2
    refine ⟨⟨fun m hm => ?_, ?_, hs.current, fun hn => absurd hn hc⟩, fun _ m hm => ?_⟩
    · rcases List.mem_append.mp hm with hm | hm
      · exact hs.queued m hm
      · rwa [List.mem_singleton.mp hm]
    · rw [List.map_append, List.nodup_append]
      refine ⟨hs.once, List.nodup_singleton _, fun a ha b hb => ?_⟩
      obtain ⟨m, hm, rfl⟩ := List.mem_map.mp ha
      rw [List.mem_singleton.mp hb]
      exact hfresh m hm
    · rcases List.mem_append.mp hm with hm | hm
      · exact hs.apart h₀ m hm
      · rw [List.mem_singleton.mp hm]
        exact (hcur h₀ hne).symm
  | unknown e hc _ hl =>
    obtain ⟨ht, htxn⟩ := (hn hc).lookup.resolve_left fun hne => hne hl
    have hsame : ({ s with txn := t.txnId } : Storage h) = s := by rw [ht, ← htxn]
    rw [hsame]
    exact hs.fail _
  | notStarted x hc _ hl _ =>
    have hopen : s.lookupTxn t.txnId ≠ none := by
      rw [hl]
      exact Option.some_ne_none x
    have hcur : Orderly ({ s with txn := t.txnId } : Storage h) :=
      ⟨⟨hs.queued, hs.once, fun _ => hopen, fun hn => absurd hn hc⟩, fun _ => (hn hc).fresh⟩
    exact hcur.fail _
  | ran x e hc _ _ _ =>
    have hfresh := (hn hc).fresh
    refine ⟨⟨fun m hm hnone => ?_, ?_, fun h₀ => absurd (txn_afterCommit env s t x e) h₀,
      fun hnone => ?_⟩, fun h₀ => absurd (txn_afterCommit env s t x e) h₀⟩
    · rw [txnCommits_afterCommit] at hm
      exact ((lookupTxn_afterCommit e m.txnId).mp hnone).elim (hfresh m hm) (hs.queued m hm)
    · rw [txnCommits_afterCommit]
      exact hs.once
    · exact absurd hnone (ctx_of_file (file_afterCommit env s t x e) hc)

theorem inHand_popCommit (hs : Orderly s) (hp : popCommit s = some (t, s')) : InHand s' t := by
  obtain ⟨rest, hq, rfl⟩ := popCommit_eq hp
  have hmem : ∀ m ∈ rest, m ∈ s.txnCommits := fun m hm => by
    rw [hq]
    exact List.mem_cons_of_mem t hm
  have hhead : t ∈ s.txnCommits := by
    rw [hq]
    exact List.mem_cons_self
  have hnodup := hs.once
  rw [hq, List.map_cons, List.nodup_cons] at hnodup
  refine ⟨⟨⟨fun m hm => hs.queued m (hmem m hm), hnodup.2, hs.current, fun hc => ?_⟩,
    fun h₀ m hm => hs.apart h₀ m (hmem m hm)⟩, fun _ => ⟨Or.inl (hs.queued t hhead), ?_, ?_⟩⟩
  · obtain ⟨hnil, hrows, h₀⟩ := hs.closed hc
    rw [hq] at hnil
    cases hnil
  · intro m hm heq
    refine hnodup.1 ?_
    rw [← heq]
    exact List.mem_map_of_mem (f := fun m => h.firstWord m.txnId) hm
  · exact fun h₀ _ heq => hs.apart h₀ t hhead heq.symm

theorem orderly_handleTxnCommit (hs : Orderly s) (hn : s.tdb.ctx ≠ none → NamesOpen s t) :
    Orderly (handleTxnCommit env s t) := by
  have hwork : ∀ (s : Storage h) (t : StorageTask), InHand s t → True →
      Orderly (commitTxn env s t).1 := fun _ _ hs _ => orderly_commitTxn hs
  have hpop : ∀ (s : Storage h) (t : StorageTask) (s' : Storage h), Orderly s →
      popCommit s = some (t, s') → InHand s' t := fun _ _ _ hs hp => inHand_popCommit hs hp
  have hstart : InHand s t := ⟨hs, hn⟩
  exact EachCall.invariant hwork hpop hstart (EachCall.of_forall (fun _ _ => trivial) _ _ _)

/-! ## Messages -/

theorem orderly_handleMessage (hs : Orderly s) (hd : Disciplined s t) :
    Orderly (handleMessage env s t) := by
  have h₁ := handleMessage_step env s t
  generalize handleMessage env s t = s' at h₁ ⊢
  cases h₁ with
  | stopped _ => exact hs
  | ended _ hc hq => exact absurd (hs.closed hc).1 hq
  | set _ _ =>
    have hf := frame_handleSet env s t
    refine hs.congr hf.txnCommits hf.txn (fun hn => ?_) fun i => lookupTxn_handleSet i
    by_contra hc
    exact ctx_of_file hf.file hc hn
  | commit hw _ =>
    rw [Disciplined, hw] at hd
    exact orderly_handleTxnCommit hs hd
  | failed t' _ _ _ _ => exact hs.fail t'
  | answered t' _ _ _ => exact hs.congr rfl rfl id fun _ => Iff.rfl
  | notOpened t' _ _ _ _ => exact (orderly_of_empty rfl rfl rfl).fail t'
  | opened _ _ _ _ => exact orderly_of_empty rfl rfl rfl
  | closed _ _ h₀ hrows =>
    have hq : s.txnCommits = [] := List.eq_nil_iff_forall_not_mem.mpr fun m hm =>
      hs.queued m hm (rows_eq_nil_iff.mp hrows m.txnId)
    exact ⟨⟨hs.queued, hs.once, hs.current, fun _ => ⟨hq, hrows, h₀⟩⟩, hs.apart⟩
  | began _ hc =>
    have hinsert : ∀ i, s.lookupTxn i ≠ none →
        (s.txnState.insert { txnId := h.incFirstWord s.txnSeq }).find (h.firstWord i) ≠ none := by
      intro i hi
      rw [Table.find_insert]
      split_ifs
      · exact Option.some_ne_none _
      · exact hi
    exact ⟨⟨fun m hm => hinsert m.txnId (hs.queued m hm), hs.once,
      fun h₀ => hinsert s.txn (hs.current h₀), fun hn => absurd hn hc⟩, hs.apart⟩
  | cancelled x hw hc _ =>
    rw [Disciplined, hw] at hd
    obtain ⟨hfresh, hcur⟩ := hd hc
    have herase : ∀ i, h.firstWord i ≠ h.firstWord t.txnId → s.lookupTxn i ≠ none →
        (s.txnState.erase (h.firstWord t.txnId)).find (h.firstWord i) ≠ none := by
      intro i hi hl
      rw [Table.find_erase_of_ne _ hi]
      exact hl
    exact ⟨⟨fun m hm => herase m.txnId (hfresh m hm) (hs.queued m hm), hs.once,
      fun h₀ => herase s.txn (hcur h₀) (hs.current h₀), fun hn => absurd hn hc⟩, hs.apart⟩

/-- **Every state that a disciplined run reaches meets the invariant.** -/
theorem txnInv_of_disciplined (env : Env) (disk : Bytes → Records) (ms : List StorageTask)
    (hd : Along (handleMessage env) Disciplined (catalinaStorageInit h disk) ms) :
    TxnInv (run env (catalinaStorageInit h disk) ms) := by
  have hstep : ∀ (s : Storage h) (t : StorageTask), Orderly s → Disciplined s t →
      Orderly (handleMessage env s t) := fun _ _ hs hd => orderly_handleMessage hs hd
  exact (Along.invariant hstep (orderly_of_empty rfl rfl rfl) hd).toTxnInv

/-- Two transactions; the commit of the first one does not get a `tdb` transaction, so that the
commit of the second one is queued. -/
def queuedCommit : List StorageTask :=
  [openTask 0 [47], beginTask 1, beginTask 2, commitTask 3 1, commitTask 4 2]

/-- The `tdb` transaction of the first commit does not start. -/
def firstNotStarted : Env := fun i => { tdbTransactionStart := i != 3 }

theorem txnInv_queuedCommit :
    TxnInv (run firstNotStarted (catalinaStorageInit lp64 fun _ => ∅) queuedCommit) := by
  refine txnInv_of_disciplined _ _ _ ⟨trivial, trivial, trivial, ?_, ?_, trivial⟩
  · exact fun _ => ⟨Or.inl (by decide), fun m hm => absurd hm List.not_mem_nil,
      fun h₀ => absurd rfl h₀⟩
  · exact fun _ => ⟨Or.inl (by decide), fun m hm => absurd hm List.not_mem_nil,
      fun _ _ => by decide⟩

/-- The cancelled transaction stays in the queue. -/
theorem cancelled_stays_queued :
    ¬ TxnInv (run firstNotStarted (catalinaStorageInit lp64 fun _ => ∅)
      (queuedCommit ++ [cancelTask 5 2])) := fun hinv =>
  hinv.queued (commitTask 4 2) List.mem_cons_self rfl

end Catalina
