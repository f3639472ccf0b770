import Catalina.Storage.Invariant
import Catalina.Storage.Replies

/-!
# Commits rejected before the replay

* `Rejected`, `NoLastingEffect`: a commit failed before any of its sets is run, and what it must not
  change.
* `Harmless`: when it does not.
* **`rejected_iff`**: in every run, exactly then.
* `rejected_commit_lasts`: a rejected commit after which a plain set is never answered.
-/

namespace Catalina

variable {h : Host} {env : Env}

/-! ## Rejected commits -/

/-- The commit `t` is failed before any of its sets is run. -/
def Rejected (env : Env) (s : Storage h) (t : StorageTask) : Prop :=
  s.tdb.ctx = none ∨ (s.txn = 0 ∨ s.txn = t.txnId) ∧
    (s.lookupTxn t.txnId = none ∨ (env t.id).tdbTransactionStart = false)

/-- The fields a rejected commit must leave alone, and the replies to whatever follows. -/
structure NoLastingEffect (env : Env) (s : Storage h) (t : StorageTask) : Prop where
  txn : (commitTxn env s t).1.txn = s.txn
  txnCommits : (commitTxn env s t).1.txnCommits = s.txnCommits
  txnState : (commitTxn env s t).1.txnState = s.txnState
  replies : ∀ ms, newReplies env (commitTxn env s t).1 ms = newReplies env s ms

/-- The storage is closed, or the commit names the transaction that is current already, whose error
slot, if there is one, already holds the error of the rejection. -/
def Harmless (s : Storage h) (t : StorageTask) : Prop :=
  s.tdb.ctx = none ∨ t.txnId = s.txn ∧
    (t.txnId ≠ 0 → ∀ x, s.lookupTxn t.txnId = some x → x.error = (t.setError startError).error)

theorem noLastingEffect_of_core {s : Storage h} {t : StorageTask}
    (heq : (commitTxn env s t).1.core = s.core) : NoLastingEffect env s t where
  txn := (congrArg Storage.txn heq :)
  txnCommits := (congrArg Storage.txnCommits heq :)
  txnState := (congrArg Storage.txnState heq :)
  replies := newReplies_congr heq

theorem core_fail {s : Storage h} {t : StorageTask}
    (hx : t.txnId ≠ 0 → ∀ x, s.lookupTxn t.txnId = some x → x.error = t.error) :
    (storageTaskFail s t).core = s.core := by
  unfold storageTaskFail
  split_ifs with ht
  · have hfix : s.setTxnError t.txnId t.error = s := by
      unfold Storage.setTxnError
      rw [Table.modify_of_fixed _ fun x hl => by rw [← hx ht.1 x hl]]
    rw [hfix]
    rfl
  · rfl

theorem core_fail_of_none {s : Storage h} {t : StorageTask} (hl : s.lookupTxn t.txnId = none) :
    (storageTaskFail s t).core = s.core :=
  core_fail fun _ x hx => by rw [hl] at hx; cases hx

theorem slot_of_fail {s : Storage h} {t : StorageTask} {x : TxnState} {e : GError}
    (h₀ : t.txnId ≠ 0) (hl : s.lookupTxn t.txnId = some x) (he : t.error = some e)
    (heq : (storageTaskFail s t).txnState = s.txnState) : x.error = t.error := by
  rw [storageTaskFail, if_pos ⟨h₀, by rw [he]; rfl⟩] at heq
  have hfind : (s.setTxnError t.txnId t.error).lookupTxn t.txnId =
      some { x with error := t.error } := by
    unfold Storage.setTxnError Storage.lookupTxn
    rw [Table.find_modify, if_pos rfl]
    exact congrArg _ hl
  have heq' : (s.setTxnError t.txnId t.error).lookupTxn t.txnId = s.lookupTxn t.txnId :=
    congrArg (fun T => Table.find T (h.firstWord t.txnId)) heq
  rw [hfind, hl] at heq'
  exact (congrArg TxnState.error (Option.some.inj heq')).symm

/-- **A rejected commit has no lasting effect exactly when it is harmless.** -/
theorem noLastingEffect_iff {s : Storage h} {t : StorageTask} (hs : s.Inv)
    (hr : Rejected env s t) : NoLastingEffect env s t ↔ Harmless s t := by
  have h₁ := commitTxn_step env s t
  generalize hp : commitTxn env s t = p at h₁
  cases h₁ with
  | closed e hc =>
    refine ⟨fun _ => Or.inl hc, fun _ => noLastingEffect_of_core ?_⟩
    rw [hp]
    exact core_fail_of_none (lookupTxn_of_closed hs hc t.txnId)
  | queued hc h₀ hne =>
    rcases hr with hr | ⟨hr | hr, _⟩
    · exact absurd hr hc
    · exact absurd hr h₀
    · exact absurd hr hne
  | unknown e hc _ hl =>
    constructor
    · intro hn
      have htxn := hn.txn
      rw [hp, txn_fail] at htxn
      exact Or.inr ⟨htxn, fun _ x hx => by rw [hl] at hx; cases hx⟩
    · rintro (hn | ⟨htxn, _⟩)
      · exact absurd hn hc
      · have hsame : ({ s with txn := t.txnId } : Storage h) = s := by rw [htxn]
        refine noLastingEffect_of_core ?_
        rw [hp, hsame]
        exact core_fail_of_none hl
  | notStarted x hc _ hl _ =>
    constructor
    · intro hn
      have htxn := hn.txn
      have hst := hn.txnState
      rw [hp, txn_fail] at htxn
      rw [hp] at hst
      refine Or.inr ⟨htxn, fun h₀ y hy => ?_⟩
      obtain ⟨e, he⟩ := error_setError t startError
      exact @slot_of_fail h { s with txn := t.txnId } (t.setError startError) y e h₀ hy he hst
    · rintro (hn | ⟨htxn, hx⟩)
      · exact absurd hn hc
      · have hsame : ({ s with txn := t.txnId } : Storage h) = s := by rw [htxn]
        refine noLastingEffect_of_core ?_
        rw [hp, hsame]
        exact core_fail hx
  | ran x e hc _ hl hst =>
    rcases hr with hr | ⟨_, hr | hr⟩
    · exact absurd hr hc
    · rw [hl] at hr
      cases hr
    · rw [hst] at hr
      cases hr

/-- **In every run, the commits rejected without a lasting effect are the harmless ones.** -/
theorem rejected_iff (env : Env) (disk : Bytes → Records) (ms : List StorageTask) :
    Along (handleMessage env) (fun s t => t.what = .messageTxnCommit → EachCommit
      (fun env s t => Rejected env s t → (NoLastingEffect env s t ↔ Harmless s t)) env s t)
      (catalinaStorageInit h disk) ms :=
  eachCommit_run (fun _ _ hs => noLastingEffect_iff hs) disk ms

/-- `tdb_transaction_start` fails for the commit, and the transaction stays current: the plain set
that follows is not answered. -/
theorem rejected_commit_lasts :
    ¬ Along (handleMessage fun i => { tdbTransactionStart := i != 2 })
      (fun s t => t.what = .messageTxnCommit → EachCommit
        (fun env s t => Rejected env s t → NoLastingEffect env s t)
        (fun i => { tdbTransactionStart := i != 2 }) s t)
      (catalinaStorageInit lp64 fun _ => ∅) [openTask 0 [47], beginTask 1, commitTask 2 1] := by
  rintro ⟨_, _, hcommit, _⟩
  have hreply := ((hcommit rfl).head (Or.inr ⟨Or.inl rfl, Or.inr rfl⟩)).replies
    [setTask 3 0 [1] [10]]
  exact absurd hreply (by decide)

end Catalina
