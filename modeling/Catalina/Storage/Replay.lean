import Catalina.Storage.Invariant

/-!
# The replay of a log

* `applyLog`: the sets of a log applied to the records of a file, in the order given.
* `runMsgs_ok`: a replay with no error in the slot, all of whose own sets can be stored, runs to
  its end and stores them.
* `tdb_afterCommit`: what the commit of such a log does to the database, from a settled state.
* `not_settled_afterCommit`: a replay that stops leaves the `tdb` transaction open.
-/

namespace Catalina

variable {h : Host} {env : Env}

/-- The error slot of the transaction a lookup of `id` leads to. -/
def Storage.slotError (s : Storage h) (id : ℕ) : Option GError :=
  (s.lookupTxn id).bind TxnState.error

/-- One set applied to the records of a file. -/
def applySet (env : Env) (r : Records) (m : StorageTask) : Records :=
  match setOutcome env m with
  | .ok v => r.insert m.key v
  | .error _ => r

/-- The sets of a log applied to the records of a file, in the order given. -/
def applyLog (env : Env) (ms : List StorageTask) (r : Records) : Records := ms.foldl (applySet env) r

/-- The sets of a log stored in the database, in the order given. -/
def storeLog (env : Env) (ms : List StorageTask) (d : Tdb) : Tdb :=
  ms.foldl (fun d m => match setOutcome env m with
    | .ok v => d.store m.key v
    | .error _ => d) d

/-- The set `m` can be stored. -/
def Storable (env : Env) (m : StorageTask) : Prop := ∃ v, setOutcome env m = .ok v

/-! ## Stores inside and outside a transaction -/

theorem storeLog_overlay {f : Bytes} {n : ℕ} : ∀ (ms : List StorageTask) {d : Tdb} {r : Records},
    d.ctx = some ⟨f, some (r, n)⟩ →
      (storeLog env ms d).ctx = some ⟨f, some (applyLog env ms r, n)⟩ ∧
        (storeLog env ms d).disk = d.disk
  | [], _, _, hc => ⟨hc, rfl⟩
  | m :: ms, d, r, hc => by
    unfold storeLog applyLog
    rw [List.foldl_cons, List.foldl_cons, applySet]
    cases setOutcome env m with
    | error e => exact storeLog_overlay ms hc
    | ok v =>
      obtain ⟨hc', hd⟩ := Tdb.store_disk_of_overlay hc m.key v
      obtain ⟨h₁, h₂⟩ := storeLog_overlay ms hc'
      exact ⟨h₁, h₂.trans hd⟩

/-! ## The loop -/

theorem lookupTxn_modifyMsgs (s : Storage h) (id id' : ℕ)
    (f : List StorageTask → List StorageTask) :
    (s.modifyMsgs id f).lookupTxn id' = if h.firstWord id' = h.firstWord id then
      (s.lookupTxn id).map fun x => { x with msgs := f x.msgs } else s.lookupTxn id' :=
  Table.find_modify s.txnState _ _ _ fun x => x.key_msgs h (f x.msgs)

@[simp] theorem slotError_modifyMsgs (s : Storage h) (id id' : ℕ)
    (f : List StorageTask → List StorageTask) :
    (s.modifyMsgs id f).slotError id' = s.slotError id' := by
  unfold Storage.slotError
  rw [lookupTxn_modifyMsgs]
  split_ifs with hid
  · unfold Storage.lookupTxn
    rw [hid]
    cases s.txnState.find (h.firstWord id) <;> rfl
  · rfl

theorem ctx_beginTxn {s : Storage h} (hc : s.tdb.ctx ≠ none) (t : StorageTask) :
    (beginTxn s t).tdb.ctx ≠ none :=
  ctx_of_file (s := s) (Tdb.file_transactionStart s.tdb) hc

theorem lookupTxn_beginTxn {s : Storage h} {t : StorageTask} {x : TxnState}
    (hl : s.lookupTxn t.txnId = some x) :
    (beginTxn s t).lookupTxn t.txnId = some { x with msgs := x.msgs.reverse } := by
  unfold beginTxn
  rw [lookupTxn_modifyMsgs, if_pos rfl]
  exact congrArg _ hl

theorem slotError_beginTxn {s : Storage h} {t : StorageTask} {x : TxnState}
    (hl : s.lookupTxn t.txnId = some x) : (beginTxn s t).slotError t.txnId = x.error := by
  rw [Storage.slotError, lookupTxn_beginTxn hl, Option.bind_some]

theorem runMsgs_cons (id : ℕ) (m : StorageTask) (ms : List StorageTask) (s : Storage h) :
    runMsgs env id (m :: ms) s =
      if ((handleSet env s m).slotError id).isSome then (handleSet env s m, false)
      else runMsgs env id ms (handleSet env s m) := rfl

theorem handleSet_ok {s : Storage h} {m : StorageTask} (hc : s.tdb.ctx ≠ none)
    (hm : m.txnId = s.txn → Storable env m) :
    (∀ id, (handleSet env s m).slotError id = s.slotError id) ∧
      (handleSet env s m).tdb =
        if m.txnId = s.txn then storeLog env [m] s.tdb else s.tdb := by
  have h₁ := handleSet_step env s m
  generalize handleSet env s m = s' at h₁ ⊢
  cases h₁ with
  | closed e hc' => exact absurd hc' hc
  | unknown e _ _ hne hl =>
    rw [storageTaskFail_of_none s (m.setError e) hl, if_neg (Ne.symm hne)]
    exact ⟨fun _ => rfl, rfl⟩
  | queued x _ _ hne _ =>
    rw [if_neg (Ne.symm hne)]
    exact ⟨fun id => slotError_modifyMsgs s m.txnId id _, rfl⟩
  | dropped _ h₀ hne =>
    rw [if_neg (by rw [h₀]; exact Ne.symm hne)]
    exact ⟨fun _ => rfl, rfl⟩
  | failed e _ heq ho =>
    obtain ⟨v, hv⟩ := hm heq.symm
    rw [hv] at ho
    cases ho
  | stored r _ heq ho =>
    refine ⟨fun _ => rfl, ?_⟩
    rw [if_pos heq.symm, storeLog, List.foldl_cons, ho, List.foldl_nil]
    rfl

theorem lookupTxn_setTxnError (s : Storage h) (i j : ℕ) (e : Option GError) :
    (s.setTxnError i e).lookupTxn j = if h.firstWord j = h.firstWord i then
      (s.lookupTxn i).map fun y => { y with error := e } else s.lookupTxn j :=
  Table.find_modify s.txnState _ _ _ fun y => y.key_error h e

theorem lookupTxn_fail (s : Storage h) (t : StorageTask) (i : ℕ) :
    (storageTaskFail s t).lookupTxn i = none ↔ s.lookupTxn i = none := by
  unfold storageTaskFail
  split_ifs
  · change (s.setTxnError t.txnId t.error).lookupTxn i = none ↔ _
    rw [lookupTxn_setTxnError]
    split_ifs with hi
    · rw [Option.map_eq_none_iff, Storage.lookupTxn, Storage.lookupTxn, hi]
    · rfl
  · rfl

theorem lookupTxn_handleSet {s : Storage h} {m : StorageTask} (i : ℕ) :
    (handleSet env s m).lookupTxn i = none ↔ s.lookupTxn i = none := by
  have h₁ := handleSet_step env s m
  generalize handleSet env s m = s' at h₁ ⊢
  cases h₁ with
  | closed e _ => exact lookupTxn_fail s _ i
  | unknown e _ _ _ _ => exact lookupTxn_fail s _ i
  | queued y _ _ _ _ =>
    rw [lookupTxn_modifyMsgs]
    split_ifs with hi
    · rw [Option.map_eq_none_iff, Storage.lookupTxn, Storage.lookupTxn, hi]
    · rfl
  | dropped _ _ _ => rfl
  | failed e _ _ _ => exact lookupTxn_fail s _ i
  | stored r _ _ _ => rfl

theorem slotError_of_failed {s : Storage h} {m : StorageTask} {e : GError} (hc : s.tdb.ctx ≠ none)
    (heq : s.txn = m.txnId) (h₀ : m.txnId ≠ 0) (hl : s.lookupTxn m.txnId ≠ none)
    (ho : setOutcome env m = .error e) : ((handleSet env s m).slotError m.txnId).isSome := by
  obtain ⟨y, hy⟩ := Option.ne_none_iff_exists'.mp hl
  obtain ⟨e', he'⟩ := error_setError m e
  have hne : (m.setError e).txnId ≠ 0 ∧ (m.setError e).error.isSome := ⟨h₀, by rw [he']; rfl⟩
  have hslot : (s.setTxnError m.txnId (m.setError e).error).slotError m.txnId = some e' := by
    rw [Storage.slotError, lookupTxn_setTxnError, if_pos rfl, hy, he']
    rfl
  rw [handleSet_failed hc heq ho, storageTaskFail, if_pos hne]
  exact hslot ▸ rfl

theorem lookupTxn_afterCommit {s : Storage h} {t : StorageTask} {x : TxnState} (e : Option GError)
    (i : ℕ) : (afterCommit env s t x e).lookupTxn i = none ↔
      h.firstWord i = h.firstWord t.txnId ∨ s.lookupTxn i = none := by
  have hreplay : (replay env s t x).1.lookupTxn i = none ↔ s.lookupTxn i = none := by
    refine runMsgs_invariant (P := fun s' => s'.lookupTxn i = none ↔ s.lookupTxn i = none) t.txnId
      x.msgs.reverse (fun m _ s' hs' => (lookupTxn_handleSet i).trans hs') ?_
    unfold beginTxn
    rw [lookupTxn_modifyMsgs]
    split_ifs with hi
    · rw [Option.map_eq_none_iff, Storage.lookupTxn, Storage.lookupTxn, hi]
    · rfl
  change ((replay env s t x).1.txnState.erase (h.firstWord t.txnId)).find (h.firstWord i) = none ↔ _
  by_cases hi : h.firstWord i = h.firstWord t.txnId
  · rw [hi, Table.find_erase_self]
    exact iff_of_true rfl (Or.inl rfl)
  · rw [Table.find_erase_of_ne _ hi]
    exact hreplay.trans (or_iff_right hi).symm

/-- **A replay that meets no error** runs to its end and stores the sets of its transaction. -/
theorem runMsgs_ok (id : ℕ) : ∀ (ms : List StorageTask) {s : Storage h}, s.txn = id →
    s.tdb.ctx ≠ none → (∀ m ∈ ms, m.txnId = id → Storable env m) →
    (s.slotError id = none ∨ ms = []) →
      (runMsgs env id ms s).2 = true ∧
        (runMsgs env id ms s).1.tdb = storeLog env (ms.filter (·.txnId = id)) s.tdb
  | [], _, _, _, _, _ => ⟨rfl, rfl⟩
  | m :: ms, s, hid, hc, hms, he => by
    have he : s.slotError id = none := he.resolve_right (List.cons_ne_nil m ms)
    have hm : m.txnId = s.txn → Storable env m := fun hm =>
      hms m List.mem_cons_self (hm.trans hid)
    obtain ⟨hslot, htdb⟩ := handleSet_ok hc hm
    have hf := frame_handleSet env s m
    obtain ⟨h₁, h₂⟩ := runMsgs_ok id ms (hf.txn.trans hid) (ctx_of_file hf.file hc)
      (fun m hm => hms m (List.mem_cons_of_mem _ hm)) (Or.inl ((hslot id).trans he))
    rw [runMsgs_cons, hslot, he, if_neg (by simp)]
    refine ⟨h₁, h₂.trans ?_⟩
    rw [htdb, hid, List.filter_cons]
    by_cases hm : m.txnId = id
    · rw [if_pos hm, if_pos (by simpa using hm)]
      rfl
    · rw [if_neg hm, if_neg (by simpa using hm)]

/-- **A replay of sets of its own transaction that can be stored**, with no error in the slot, in
full. -/
theorem runMsgs_stored (i : ℕ) : ∀ (ms : List StorageTask) {s : Storage h}, s.txn = i →
    s.tdb.ctx ≠ none → (∀ m ∈ ms, m.txnId = i) → (∀ m ∈ ms, Storable env m) →
    (s.slotError i = none ∨ ms = []) →
      runMsgs env i ms s = ({ s with
        tdb := storeLog env ms s.tdb
        replies := s.replies ++ ms.map fun m => { m with success := true } }, true)
  | [], s, _, _, _, _, _ => by simp [runMsgs, storeLog]
  | m :: ms, s, hi, hc, hms, hst, hslot => by
    have hslot : s.slotError i = none := hslot.resolve_right (List.cons_ne_nil m ms)
    obtain ⟨v, hv⟩ := hst m List.mem_cons_self
    have hset := handleSet_stored hc (hi.trans (hms m List.mem_cons_self).symm) hv
    have hf := frame_handleSet env s m
    have hnone : (handleSet env s m).slotError i = none := by
      rw [hset]
      exact hslot
    have ih := runMsgs_stored i ms (hf.txn.trans hi) (ctx_of_file hf.file hc)
      (fun m hm => hms m (List.mem_cons_of_mem _ hm))
      (fun m hm => hst m (List.mem_cons_of_mem _ hm)) (Or.inl hnone)
    rw [runMsgs_cons, hnone, if_neg (by simp), ih, hset]
    simp [storageTaskSucceed, storageTaskComplete, storeLog, hv]

theorem slot_of_runMsgs {i : ℕ} {ms : List StorageTask} {s : Storage h} (hi : s.txn = i)
    (hc : s.tdb.ctx ≠ none) (hms : ∀ m ∈ ms, m.txnId = i) (hst : ∀ m ∈ ms, Storable env m)
    (hr : (runMsgs env i ms s).2 = true) : s.slotError i = none ∨ ms = [] := by
  cases ms with
  | nil => exact Or.inr rfl
  | cons m ms =>
    refine Or.inl ?_
    obtain ⟨v, hv⟩ := hst m List.mem_cons_self
    have hset := handleSet_stored hc (hi.trans (hms m List.mem_cons_self).symm) hv
    have hsame : (handleSet env s m).slotError i = s.slotError i := by rw [hset]; rfl
    rw [runMsgs_cons, hsame] at hr
    cases hs : s.slotError i with
    | none => rfl
    | some e =>
      rw [hs] at hr
      cases hr

/-! ## The database after a commit -/

/-- The sets of the log `x` that the commit `t` stores, in the order they were posted. -/
def ownLog (t : StorageTask) (x : TxnState) : List StorageTask :=
  x.msgs.reverse.filter (·.txnId = t.txnId)

section Commit

variable {s : Storage h} {t : StorageTask} {x : TxnState}

theorem replay_ok (hc : s.tdb.ctx ≠ none) (hl : s.lookupTxn t.txnId = some x)
    (hms : ∀ m ∈ x.msgs, m.txnId = t.txnId → Storable env m) (he : x.error = none ∨ x.msgs = []) :
    (replay env s t x).2 = true ∧
      (replay env s t x).1.tdb = storeLog env (ownLog t x) s.tdb.transactionStart := by
  refine runMsgs_ok t.txnId x.msgs.reverse rfl ?_ ?_ ?_
  · exact ctx_beginTxn hc t
  · exact fun m hm => hms m (List.mem_reverse.mp hm)
  · rw [slotError_beginTxn hl]
    exact he.imp_right fun hn => by rw [hn, List.reverse_nil]

/-- **The commit of a log that can be stored**, from a settled state: the records of the open file
become those of the log applied, or stay if `tdb_transaction_commit` fails. -/
theorem tdb_afterCommit_ok {f : Bytes} (hs : s.tdb.Settled) (hf : s.tdb.file = some f)
    (hl : s.lookupTxn t.txnId = some x)
    (hms : ∀ m ∈ x.msgs, m.txnId = t.txnId → Storable env m) (he : x.error = none ∨ x.msgs = [])
    (e : Option GError) :
    (afterCommit env s t x e).tdb =
      { disk := if (env t.id).tdbTransactionCommit then
          Function.update s.tdb.disk f (applyLog env (ownLog t x) (s.tdb.disk f)) else s.tdb.disk
        ctx := some ⟨f, none⟩ } := by
  have hc : s.tdb.ctx ≠ none := Tdb.ctx_ne_none_iff.mpr ⟨f, hf⟩
  obtain ⟨h₁, h₂⟩ := replay_ok hc hl hms he
  have hstart := Tdb.transactionStart_of_settled hs hf
  obtain ⟨hlog, hdisk⟩ := @storeLog_overlay env f 0 (ownLog t x) s.tdb.transactionStart
    (s.tdb.disk f) (by rw [hstart])
  rw [tdb_afterCommit, commitOk, h₁, h₂, if_pos rfl, Bool.true_and,
    Tdb.transactionCommit_outermost hlog, hdisk, hstart]

/-- **A replay that stops leaves the `tdb` transaction open.** -/
theorem not_settled_afterCommit (hc : s.tdb.ctx ≠ none) (hr : (replay env s t x).2 = false)
    (e : Option GError) : ¬ (afterCommit env s t x e).tdb.Settled := by
  have hkeep : ∀ m ∈ x.msgs.reverse, ∀ s' : Storage h, s'.tdb.InTxn →
      (handleSet env s' m).tdb.InTxn := by
    intro m _ s' hs'
    rcases tdb_handleSet env s' m with heq | ⟨_, _, r, _, heq⟩
    · rwa [heq]
    · rw [heq]
      exact hs'.store m.key r
  have hin : (replay env s t x).1.tdb.InTxn :=
    runMsgs_invariant t.txnId _ hkeep (Tdb.inTxn_transactionStart hc)
  rw [tdb_afterCommit, hr]
  exact hin.not_settled

end Commit

end Catalina
