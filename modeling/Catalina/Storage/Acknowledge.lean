import Catalina.Storage.Commit
import Catalina.Storage.Replies

/-!
# The answers to the sets of a transaction

A commit answers each set of its log as soon as it has replayed it, before it is known how the
transaction ends.

* `Truthful`: a set is answered with success only if the commit is.
* `firstSet`: the first set of a log that its replay answers.
* `EndsAsBegun`: that set fails, or the whole commit succeeds.
* **`truthful_iff`**: in every run, the commits whose answers are truthful are these.
* `set_acknowledged`: a set that is answered with success in a transaction that fails.
-/

namespace Catalina

variable {h : Host} {env : Env}

/-- The sets that the commit `t` completes are answered with success only if the commit is, and so
with failure if it fails. -/
def Truthful (env : Env) (s : Storage h) (t : StorageTask) : Prop :=
  ∀ rs r, (commitTxn env s t).1.replies = s.replies ++ rs ++ [r] →
    ∀ a ∈ rs, a.success = true → r.success = true

/-- The first set in a log that names the transaction `i`, unless the error slot stops the replay
before. -/
def firstSet (i : ℕ) (slot : Option GError) : List StorageTask → Option StorageTask
  | [] => none
  | m :: ms => if m.txnId = i then some m else if slot.isSome then none else firstSet i slot ms

/-- If the commit `t` replays a log, the first set that is answered cannot be stored, or no error is
left in the slot, every set can be stored and the `tdb` transaction commits. -/
def EndsAsBegun (env : Env) (s : Storage h) (t : StorageTask) : Prop :=
  ∀ x, Replays env s t x →
    (∀ m, firstSet t.txnId x.error x.msgs.reverse = some m → ¬ Storable env m) ∨
      ((x.error = none ∨ x.msgs = []) ∧ (∀ m ∈ x.msgs, m.txnId = t.txnId → Storable env m) ∧
        (env t.id).tdbTransactionCommit = true)

/-! ## Answers to sets -/

section Set

variable {s : Storage h} {m : StorageTask}

theorem handleSet_own (env : Env) (hc : s.tdb.ctx ≠ none) (hm : m.txnId = s.txn) :
    ∃ a, (handleSet env s m).replies = s.replies ++ [a] ∧ (a.success = true ↔ Storable env m) := by
  cases ho : setOutcome env m with
  | ok r =>
    rw [handleSet_stored hc hm.symm ho]
    exact ⟨_, rfl, fun _ => ⟨r, ho⟩, fun _ => rfl⟩
  | error e =>
    rw [handleSet_failed hc hm.symm ho]
    refine ⟨_, replies_fail s _, iff_of_false Bool.false_ne_true ?_⟩
    rintro ⟨r, hr⟩
    rw [ho] at hr
    cases hr

theorem handleSet_foreign (env : Env) (hc : s.tdb.ctx ≠ none) (hm : m.txnId ≠ s.txn) :
    (∃ rs, (handleSet env s m).replies = s.replies ++ rs ∧ ∀ a ∈ rs, a.success = false) ∧
      ∀ i, (handleSet env s m).slotError i = s.slotError i := by
  refine ⟨?_, (handleSet_ok hc fun heq => absurd heq hm).1⟩
  have h₁ := handleSet_step env s m
  generalize handleSet env s m = s' at h₁ ⊢
  cases h₁ with
  | closed e hc' => exact absurd hc' hc
  | unknown e _ _ _ _ =>
    exact ⟨_, replies_fail s _, fun a ha => by rw [List.mem_singleton.mp ha]⟩
  | queued y _ _ _ _ => exact ⟨[], (List.append_nil _).symm, fun a ha => absurd ha List.not_mem_nil⟩
  | dropped _ _ _ => exact ⟨[], (List.append_nil _).symm, fun a ha => absurd ha List.not_mem_nil⟩
  | failed e _ heq _ => exact absurd heq.symm hm
  | stored r _ heq _ => exact absurd heq.symm hm

end Set

/-! ## Answers of a replay -/

section Replay

variable {i : ℕ}

/-- What the induction on a log needs to know of the state. -/
structure Ready (i : ℕ) (s : Storage h) : Prop where
  current : s.txn = i
  isOpen : s.tdb.ctx ≠ none
  lookup : s.lookupTxn i ≠ none

theorem ready_beginTxn {s : Storage h} {t : StorageTask} {x : TxnState} (hc : s.tdb.ctx ≠ none)
    (hl : s.lookupTxn t.txnId = some x) : Ready t.txnId (beginTxn s t) := by
  refine ⟨rfl, ctx_beginTxn hc t, ?_⟩
  rw [lookupTxn_beginTxn hl]
  exact Option.some_ne_none _

theorem Ready.handleSet {s : Storage h} (hs : Ready i s) (m : StorageTask) :
    Ready i (handleSet env s m) where
  current := (frame_handleSet env s m).txn.trans hs.current
  isOpen := ctx_of_file (frame_handleSet env s m).file hs.isOpen
  lookup hn := hs.lookup ((lookupTxn_handleSet i).mp hn)

theorem Ready.slot {s : Storage h} (hs : Ready i s) {m : StorageTask} (h₀ : m.txnId ≠ 0)
    (hm : m.txnId = i) (hst : ¬ Storable env m) :
    ((Catalina.handleSet env s m).slotError i).isSome := by
  subst hm
  cases ho : setOutcome env m with
  | ok r => exact absurd ⟨r, ho⟩ hst
  | error e => exact slotError_of_failed hs.isOpen hs.current h₀ hs.lookup ho

/-- **A replay that gets to its end** had no error in the slot and stored all its sets. -/
theorem runMsgs_true_iff : ∀ (ms : List StorageTask) {s : Storage h}, Ready i s →
    (∀ m ∈ ms, m.txnId ≠ 0) →
    ((runMsgs env i ms s).2 = true ↔
      (s.slotError i = none ∨ ms = []) ∧ ∀ m ∈ ms, m.txnId = i → Storable env m)
  | [], s, _, _ => by simp [runMsgs]
  | m :: ms, s, hs, hms => by
    refine ⟨fun hr => ?_, fun hgood => ?_⟩
    · have hstop : ¬ ((handleSet env s m).slotError i).isSome := by
        intro hslot
        rw [runMsgs_cons, if_pos hslot] at hr
        cases hr
      have hm : m.txnId = i → Storable env m := fun hm => by
        by_contra hst
        exact hstop (hs.slot (hms m List.mem_cons_self) hm hst)
      have hslot := (handleSet_ok hs.isOpen fun heq => hm (heq.trans hs.current)).1 i
      rw [runMsgs_cons, if_neg hstop, runMsgs_true_iff ms (hs.handleSet m)
        fun m hm => hms m (List.mem_cons_of_mem _ hm)] at hr
      refine ⟨Or.inl ?_, fun m' hm' => ?_⟩
      · rw [hslot] at hstop
        simpa using hstop
      · rcases List.mem_cons.mp hm' with rfl | hm'
        · exact hm
        · exact hr.2 m' hm'
    · exact (runMsgs_ok i (m :: ms) hs.current hs.isOpen hgood.2 hgood.1).1

/-- **If the first set that is answered fails, no set is answered with success.** -/
theorem runMsgs_quiet : ∀ (ms : List StorageTask) {s : Storage h}, Ready i s →
    (∀ m ∈ ms, m.txnId ≠ 0) →
    (∀ m, firstSet i (s.slotError i) ms = some m → ¬ Storable env m) →
      ∃ rs, (runMsgs env i ms s).1.replies = s.replies ++ rs ∧ ∀ a ∈ rs, a.success = false
  | [], s, _, _, _ => ⟨[], (List.append_nil _).symm, fun a ha => absurd ha List.not_mem_nil⟩
  | m :: ms, s, hs, hms, hfirst => by
    rw [runMsgs_cons]
    by_cases hm : m.txnId = i
    · have hst : ¬ Storable env m := hfirst m (by rw [firstSet, if_pos hm])
      obtain ⟨a, ha, hsucc⟩ := handleSet_own env hs.isOpen (hm.trans hs.current.symm)
      rw [if_pos (hs.slot (hms m List.mem_cons_self) hm hst)]
      refine ⟨[a], ha, fun b hb => ?_⟩
      rw [List.mem_singleton.mp hb]
      exact Bool.eq_false_iff.mpr fun htrue => hst (hsucc.mp htrue)
    · obtain ⟨⟨rs, hrs, hfail⟩, hslot⟩ :=
        handleSet_foreign env hs.isOpen fun heq => hm (heq.trans hs.current)
      by_cases hstop : ((handleSet env s m).slotError i).isSome
      · rw [if_pos hstop]
        exact ⟨rs, hrs, hfail⟩
      · rw [if_neg hstop]
        rw [hslot] at hstop
        obtain ⟨rs', hrs', hfail'⟩ := runMsgs_quiet ms (hs.handleSet m)
          (fun m hm => hms m (List.mem_cons_of_mem _ hm)) fun m' hm' => by
            refine hfirst m' ?_
            rw [firstSet, if_neg hm, if_neg hstop, ← hslot i]
            exact hm'
        refine ⟨rs ++ rs', by rw [hrs', hrs, List.append_assoc], fun a ha => ?_⟩
        exact (List.mem_append.mp ha).elim (hfail a) (hfail' a)

/-- **The first set is answered** with success if it can be stored. -/
theorem runMsgs_first {m : StorageTask} : ∀ (ms : List StorageTask) {s : Storage h}, Ready i s →
    firstSet i (s.slotError i) ms = some m →
      ∃ rs, (runMsgs env i ms s).1.replies = s.replies ++ rs ∧
        ∃ a ∈ rs, a.success = true ↔ Storable env m
  | [], s, _, hfirst => by cases hfirst
  | m' :: ms, s, hs, hfirst => by
    rw [firstSet] at hfirst
    by_cases hm : m'.txnId = i
    · rw [if_pos hm] at hfirst
      obtain rfl := Option.some.inj hfirst
      obtain ⟨a, ha, hsucc⟩ := handleSet_own env hs.isOpen (hm.trans hs.current.symm)
      obtain ⟨rs, hrs⟩ := @prefix_runMsgs h env i ms (handleSet env s m')
      rw [runMsgs_cons]
      split_ifs
      · exact ⟨[a], ha, a, List.mem_singleton_self a, hsucc⟩
      · exact ⟨a :: rs, by rw [← hrs, ha, List.append_assoc, List.singleton_append], a,
          List.mem_cons_self, hsucc⟩
    · obtain ⟨⟨rs, hrs, _⟩, hslot⟩ :=
        handleSet_foreign env hs.isOpen fun heq => hm (heq.trans hs.current)
      rw [if_neg hm] at hfirst
      split_ifs at hfirst with hstop
      obtain ⟨rs', hrs', a, ha, hsucc⟩ := runMsgs_first ms (hs.handleSet m')
        (by rw [hslot]; exact hfirst)
      rw [← hslot] at hstop
      rw [runMsgs_cons, if_neg hstop]
      exact ⟨rs ++ rs', by rw [hrs', hrs, List.append_assoc], a, List.mem_append_right _ ha, hsucc⟩

end Replay

/-! ## Commits -/

theorem truthful_of_not_replays {s : Storage h} {t : StorageTask}
    (hn : ∀ x, ¬ Replays env s t x) : Truthful env s t := by
  intro rs r heq a ha
  have hlen := congrArg List.length heq
  have hpos := List.length_pos_of_mem ha
  rcases replies_of_not_replays hn with hr | ⟨r', hr⟩
  · rw [hr] at hlen
    simp only [List.length_append, List.length_cons, List.length_nil] at hlen
    omega
  · rw [hr] at hlen
    simp only [List.length_append, List.length_cons, List.length_nil] at hlen
    omega

theorem commitOk_iff {s : Storage h} {t : StorageTask} {x : TxnState} (hs : s.Inv)
    (hx : Replays env s t x) : commitOk env s t x = true ↔ (x.error = none ∨ x.msgs = []) ∧
      (∀ m ∈ x.msgs, m.txnId = t.txnId → Storable env m) ∧
        (env t.id).tdbTransactionCommit = true := by
  have hlog : ∀ m ∈ x.msgs.reverse, m.txnId ≠ 0 := fun m hm =>
    (hs.logged.of_lookup hx.lookup m (List.mem_reverse.mp hm)).2
  have htrue := @runMsgs_true_iff h env t.txnId _ _ (ready_beginTxn hx.isOpen hx.lookup) hlog
  rw [slotError_beginTxn hx.lookup] at htrue
  rw [commitOk, Bool.and_eq_true_iff, replay, htrue, List.reverse_eq_nil_iff, and_assoc]
  simp only [List.mem_reverse]

theorem truthful_ran_iff {s : Storage h} {t : StorageTask} {x : TxnState} (hs : s.Inv)
    (hx : Replays env s t x) : Truthful env s t ↔ EndsAsBegun env s t := by
  obtain ⟨e, he⟩ := commitTxn_ran hx
  have hready : Ready t.txnId (beginTxn s t) := ready_beginTxn hx.isOpen hx.lookup
  have hlog : ∀ m ∈ x.msgs.reverse, m.txnId ≠ 0 := fun m hm =>
    (hs.logged.of_lookup hx.lookup m (List.mem_reverse.mp hm)).2
  have hreplies : ∀ rs', (replay env s t x).1.replies = s.replies ++ rs' → ∀ rs r,
      (commitTxn env s t).1.replies = s.replies ++ rs ++ [r] →
        rs = rs' ∧ r.success = commitOk env s t x := by
    intro rs' hrs' rs r heq
    rw [he, replies_afterCommit, hrs'] at heq
    refine ⟨(List.append_cancel_left (List.append_inj' heq rfl).1).symm, ?_⟩
    rw [last_reply heq]
  constructor
  · intro htruth y hy
    obtain rfl := Option.some.inj (hx.lookup.symm.trans hy.lookup)
    by_cases hend : commitOk env s t x = true
    · exact Or.inr ((commitOk_iff hs hx).mp hend)
    · refine Or.inl fun m hm hstorable => hend ?_
      rw [← slotError_beginTxn hx.lookup] at hm
      obtain ⟨rs, hrs, a, ha, hsucc⟩ := @runMsgs_first h env t.txnId m _ _ hready hm
      have hfinal : (commitTxn env s t).1.replies =
          s.replies ++ rs ++ [{ t with error := e, success := commitOk env s t x }] := by
        rw [he, replies_afterCommit, replay, hrs]
        rfl
      exact htruth rs _ hfinal a ha (hsucc.mpr hstorable)
  · intro hgood rs r heq a ha hsucc
    rcases hgood x hx with hfirst | hend
    · rw [← slotError_beginTxn hx.lookup] at hfirst
      obtain ⟨rs', hrs', hfail⟩ := @runMsgs_quiet h env t.txnId _ _ hready hlog hfirst
      obtain ⟨rfl, _⟩ := hreplies rs' hrs' rs r heq
      rw [hfail a ha] at hsucc
      cases hsucc
    · obtain ⟨rs', hrs'⟩ := @prefix_runMsgs h env t.txnId x.msgs.reverse (beginTxn s t)
      rw [(hreplies rs' hrs'.symm rs r heq).2]
      exact (commitOk_iff hs hx).mpr hend

/-- **The answers of a commit are truthful exactly when it ends as it began.** -/
theorem truthful_commit_iff {s : Storage h} {t : StorageTask} (hs : s.Inv) :
    Truthful env s t ↔ EndsAsBegun env s t := by
  by_cases hr : ∃ x, Replays env s t x
  · obtain ⟨x, hx⟩ := hr
    exact truthful_ran_iff hs hx
  · exact iff_of_true (truthful_of_not_replays (not_exists.mp hr)) fun x hx => absurd ⟨x, hx⟩ hr

/-- **In every run, the answers of a commit are truthful exactly when it ends as it began.** -/
theorem truthful_iff (env : Env) (disk : Bytes → Records) (ms : List StorageTask) :
    Along (handleMessage env) (fun s t => t.what = .messageTxnCommit → EachCommit
      (fun env s t => Truthful env s t ↔ EndsAsBegun env s t) env s t)
      (catalinaStorageInit h disk) ms :=
  eachCommit_run (fun _ _ hs => truthful_commit_iff hs) disk ms

/-- The second set fails, and the first one has been answered with success. -/
theorem set_acknowledged :
    ¬ Along (handleMessage secondStoreFails) (fun s t => t.what = .messageTxnCommit →
      EachCommit Truthful secondStoreFails s t) (catalinaStorageInit lp64 fun _ => ∅) twoSets := by
  rintro ⟨_, _, _, _, hcommit, _⟩
  have hanswer := (hcommit rfl).head
    [{ setTask 2 1 [1] [10] with success := true },
      { setTask 3 1 [2] [20] with error := some ⟨.storageNoSuchKey, "tdb_store: "⟩ }]
    { commitTask 4 1 with error := some ⟨.storageNoSuchKey, "tdb_store: "⟩ } rfl _
    List.mem_cons_self rfl
  exact absurd hanswer (by decide)

end Catalina
