import Catalina.Storage.Replay
import Catalina.Storage.Replies
import Catalina.Storage.Serial

/-!
# The storage refines the serial map

While no commit has failed, no transaction is current between two messages and no commit waits, and
the storage answers as the serial machine does, unless an open empties its file.

* `Succeeds`: no transform is installed and every call to `tdb` succeeds.
* `Sim`: the storage's state and the machine's. The list of a transaction is its log reversed.
* `sim_handleMessage`: one message; `keepsRecords_of_agrees`: an open that empties its file.
* **`refines_serial`**: a run.
-/

namespace Catalina

variable {h : Host} {env : Env}

/-- No transform is installed, and every call to `tdb` succeeds. -/
def Succeeds (env : Env) : Prop :=
  ∀ i, (env i).transform = none ∧ (env i).opens = true ∧ (env i).tdbClose = 0 ∧
    (env i).tdbStore = true ∧ (env i).tdbTransactionStart = true ∧
    (env i).tdbTransactionCommit = true

theorem Succeeds.setOutcome (he : Succeeds env) (m : StorageTask) :
    setOutcome env m = .ok m.data := by
  obtain ⟨hT, _, _, hst, _⟩ := he m.id
  unfold Catalina.setOutcome transformWrite
  rw [hT]
  dsimp only
  rw [hst, if_pos rfl]

/-- No commit has been answered with failure. -/
def NoFailedCommit (s : Storage h) : Prop :=
  ∀ r ∈ s.replies, r.what = .messageTxnCommit → r.success = true

/-- The messages of the transaction a lookup of `id` leads to. -/
def Storage.lookupMsgs (s : Storage h) (id : ℕ) : Option (List StorageTask) :=
  (s.lookupTxn id).map TxnState.msgs

/-- What the outside sees of the storage and of the serial machine is the same: the replies, their
error texts apart, the file that is open, and the records of every file. -/
structure Agrees (s : Storage h) (a : Serial) : Prop where
  file : s.tdb.file = a.opened
  maps : ∀ f k, (s.tdb.view f).lookup k = a.maps f k
  replies : s.replies.map (fun r => r.answer r.success) = a.replies

/-- The transactions of the storage and of the serial machine. None is current and none waits for
its commit; the list of messages of a transaction is its log reversed. -/
structure SameTxns (s : Storage h) (a : Serial) : Prop where
  txn : s.txn = 0
  queue : s.txnCommits = []
  seq : s.txnSeq = a.lastId
  logs : ∀ id < 2 ^ 32, a.logs id = (s.lookupMsgs id).map List.reverse
  issued : ∀ id, a.logs id ≠ none → id ≠ 0 ∧ id ≤ a.lastId
  named : ∀ p ∈ s.logs, p.1 < 2 ^ 32 ∧ ∀ m ∈ p.2, m.txnId = p.1
  low : h.LowFirst ∨ s.logs = []

/-- The storage's state and the serial machine's. -/
structure Sim (s : Storage h) (a : Serial) : Prop where
  running : s.stopped = false
  agrees : Agrees s a
  settled : s.tdb.Settled
  txns : SameTxns s a

/-! ## Lookups -/

theorem lookupMsgs_eq (s : Storage h) (id : ℕ) :
    s.lookupMsgs id =
      (s.logs.find? fun p => h.firstWord p.1 = h.firstWord id).map Prod.snd := by
  unfold Storage.lookupMsgs Storage.lookupTxn Storage.logs Table.find
  rw [List.find?_map, Option.map_map]
  rfl

theorem lookupMsgs_congr {s s' : Storage h} (hl : s'.logs = s.logs) (id : ℕ) :
    s'.lookupMsgs id = s.lookupMsgs id := by
  rw [lookupMsgs_eq, lookupMsgs_eq, hl]

section Sim

variable {s s' : Storage h} {a a' : Serial} {t : StorageTask}

theorem SameTxns.congr (hs : SameTxns s a) (htxn : s'.txn = s.txn)
    (hq : s'.txnCommits = s.txnCommits) (hseq : s'.txnSeq = s.txnSeq) (hl : s'.logs = s.logs)
    (hlast : a'.lastId = a.lastId) (hlogs : a'.logs = a.logs) : SameTxns s' a' where
  txn := htxn.trans hs.txn
  queue := hq.trans hs.queue
  seq := by rw [hseq, hlast, hs.seq]
  logs id hid := by rw [lookupMsgs_congr hl, hlogs, hs.logs id hid]
  issued := by rw [hlogs, hlast]; exact hs.issued
  named := by rw [hl]; exact hs.named
  low := by rw [hl]; exact hs.low

theorem Sim.fail (hs : Sim s a) {t' : StorageTask} (ht : t'.answer false = t.answer false) :
    Sim (storageTaskFail s t') (a.answer t false) where
  running := (stopped_fail s t').trans hs.running
  agrees :=
    { file := by rw [tdb_fail]; exact hs.agrees.file
      maps := by rw [tdb_fail]; exact hs.agrees.maps
      replies := by
        rw [replies_fail, List.map_append, hs.agrees.replies]
        exact congrArg (fun r => a.replies ++ [r]) ht }
  settled := by rw [tdb_fail]; exact hs.settled
  txns := hs.txns.congr (txn_fail s t') (txnCommits_fail s t') (txnSeq_fail s t') (logs_fail s t')
    rfl rfl

theorem Sim.complete (hs : Sim s a) (t : StorageTask) (b : Bool) :
    Sim (storageTaskComplete s t b) (a.answer t b) where
  running := hs.running
  agrees :=
    { file := hs.agrees.file
      maps := hs.agrees.maps
      replies := by
        rw [replies_complete, List.map_append, hs.agrees.replies]
        rfl }
  settled := hs.settled
  txns := hs.txns.congr rfl rfl rfl rfl rfl rfl

theorem Sim.opened_none (hs : Sim s a) (hc : s.tdb.ctx = none) : a.opened = none := by
  rw [← hs.agrees.file, Tdb.file, hc]
  rfl

theorem Sim.opened_some (hs : Sim s a) (hc : s.tdb.ctx ≠ none) :
    ∃ f, s.tdb.file = some f ∧ a.opened = some f := by
  obtain ⟨f, hf⟩ := Tdb.ctx_ne_none_iff.mp hc
  exact ⟨f, hf, hs.agrees.file.symm.trans hf⟩

/-! ## Open, close, get, count -/

theorem handleOpen_closed (he : Succeeds env) (hs : Sim s a) (hc : s.tdb.ctx = none) :
    handleOpen env s t = storageTaskSucceed
      { s.clearTxns with tdb := (s.tdb.openFile t.key (env t.id)).opened t.key } t := by
  unfold handleOpen
  rw [if_neg (by simp [hc]), if_neg (not_not.mpr hs.txns.queue)]
  exact if_pos (he t.id).2.1

theorem Sim.step_open (hs : Sim s a) (hw : t.what = .messageOpen) (hc : s.tdb.ctx = none) :
    a.step t = { a with opened := some t.key }.answer t true := by
  unfold Serial.step
  rw [hw, hs.opened_none hc]

theorem sim_handleOpen (he : Succeeds env) (hinv : s.Inv) (hs : Sim s a)
    (hkeep : KeepsRecords env s t) (hw : t.what = .messageOpen) :
    Sim (handleOpen env s t) (a.step t) := by
  by_cases hc : s.tdb.ctx = none
  · rw [handleOpen_closed he hs hc, hkeep.openFile hw hc, hs.step_open hw hc]
    have hlogs : s.clearTxns.logs = s.logs := by
      unfold Storage.logs
      rw [(hinv.closed hc).2]
      rfl
    have hsim : Sim { s.clearTxns with tdb := s.tdb.opened t.key }
        { a with opened := some t.key } :=
      { running := hs.running
        agrees :=
          { file := rfl
            maps := fun f k =>
              (congrArg (AList.lookup k) (Tdb.view_opened hc t.key f)).trans (hs.agrees.maps f k)
            replies := hs.agrees.replies }
        settled := Tdb.settled_opened s.tdb t.key
        txns := hs.txns.congr hs.txns.txn.symm hs.txns.queue.symm rfl hlogs rfl rfl }
    exact hsim.complete t true
  · obtain ⟨f, _, hf⟩ := hs.opened_some hc
    unfold handleOpen Serial.step
    rw [if_pos (by simpa [Option.isSome_iff_ne_none] using hc), hw, hf]
    exact hs.fail rfl

/-- **An open that agrees with the machine** has emptied no file with records. -/
theorem keepsRecords_of_agrees (he : Succeeds env) (hs : Sim s a)
    (ha : Agrees (handleMessage env s t) (a.step t)) : KeepsRecords env s t := by
  intro hw hc ht
  have htrunc : s.tdb.openFile t.key (env t.id) = s.tdb.truncated t.key := if_pos ht
  have hopen : handleMessage env s t =
      storageTaskSucceed { s.clearTxns with tdb := (s.tdb.truncated t.key).opened t.key } t := by
    rw [handleMessage_eq env hs.running, hw]
    exact (handleOpen_closed he hs hc).trans (by rw [htrunc])
  have hempty : ((s.tdb.truncated t.key).opened t.key).view t.key = ∅ := by
    rw [Tdb.view_opened (d := s.tdb.truncated t.key) hc, Tdb.view_truncated hc, if_pos rfl]
  have hlookup : ∀ k, (s.tdb.disk t.key).lookup k = none := fun k => by
    have hmaps := ha.maps t.key k
    rw [hopen, hs.step_open hw hc] at hmaps
    rw [← Tdb.view_of_settled hs.settled, hs.agrees.maps]
    exact hmaps.symm.trans (by rw [storageTaskSucceed, storageTaskComplete, hempty]; rfl)
  refine AList.ext (List.eq_nil_iff_forall_not_mem.mpr fun p hp => ?_)
  exact AList.lookup_eq_none.mp (hlookup p.1) (AList.mem_keys.mpr (List.mem_map_of_mem hp))

theorem Sim.rows_eq_nil (hs : Sim s a) (hlast : a.lastId < 2 ^ 32) :
    s.txnState.rows = [] ↔ ∀ id, a.logs id = none := by
  constructor
  · intro hrows id
    by_contra hne
    have hid : id < 2 ^ 32 := lt_of_le_of_lt (hs.txns.issued id hne).2 hlast
    have hlogs : s.logs = [] := by rw [Storage.logs, hrows, List.map_nil]
    rw [hs.txns.logs id hid, lookupMsgs_eq, hlogs] at hne
    exact hne rfl
  · intro hnone
    by_contra hne
    obtain ⟨x, hx⟩ := List.exists_mem_of_ne_nil _ hne
    have hid := (hs.txns.named _ (List.mem_map_of_mem hx)).1
    have hfind : s.lookupTxn x.txnId = some x := Table.find_eq_some.mpr ⟨hx, rfl⟩
    have hlog := hs.txns.logs x.txnId hid
    rw [hnone, Storage.lookupMsgs, hfind] at hlog
    cases hlog

theorem sim_handleClose (he : Succeeds env) (hs : Sim s a) (hlast : a.lastId < 2 ^ 32)
    (hw : t.what = .messageClose) : Sim (handleClose env s t) (a.step t) := by
  unfold handleClose Serial.step
  by_cases hc : s.tdb.ctx = none
  · rw [if_pos (by simp [hc]), hw, hs.opened_none hc]
    exact hs.fail rfl
  · obtain ⟨f, _, hf⟩ := hs.opened_some hc
    rw [if_neg (by simpa using hc), hw, hf]
    by_cases hrows : s.txnState.rows = []
    · have hnone := (hs.rows_eq_nil hlast).mp hrows
      dsimp only
      rw [if_neg (by simp [hs.txns.txn, hrows]), if_neg (by simp [(he t.id).2.2.1]),
        if_neg (by simpa using hnone)]
      have hview : ∀ f, s.tdb.closed.view f = s.tdb.view f := fun f => by
        rw [Tdb.view_of_settled (Tdb.settled_closed _), Tdb.view_of_settled hs.settled]
        rfl
      have hsim : Sim { s with tdb := s.tdb.closed } { a with opened := none } :=
        { running := hs.running
          agrees :=
            { file := rfl
              maps := fun f k => (congrArg (AList.lookup k) (hview f)).trans (hs.agrees.maps f k)
              replies := hs.agrees.replies }
          settled := Tdb.settled_closed s.tdb
          txns := hs.txns.congr rfl rfl rfl rfl rfl rfl }
      exact hsim.complete t true
    · have hsome : ∃ id, a.logs id ≠ none := by
        by_contra hn
        exact hrows ((hs.rows_eq_nil hlast).mpr (by simpa using hn))
      dsimp only
      rw [if_pos (Or.inr (List.length_pos_iff.mpr hrows)), if_pos hsome]
      exact hs.fail rfl

theorem sim_handleGet (he : Succeeds env) (hs : Sim s a) (hw : t.what = .messageGet) :
    Sim (handleGet env s t) (a.step t) := by
  unfold handleGet Serial.step
  by_cases hc : s.tdb.ctx = none
  · rw [if_pos (by simp [hc]), hw, hs.opened_none hc]
    exact hs.fail rfl
  · obtain ⟨f, hfile, hf⟩ := hs.opened_some hc
    rw [if_neg (by simpa using hc), hw, hf, Tdb.fetch_eq hfile, hs.agrees.maps f t.key]
    dsimp only
    cases a.maps f t.key with
    | none => exact hs.fail rfl
    | some v =>
      rw [(he t.id).1]
      exact hs.complete _ true

theorem length_entries (r : Records) : r.entries.length = {k | (r.lookup k).isSome}.ncard := by
  have hset : {k | (r.lookup k).isSome} = (r.keys.toFinset : Set Bytes) := by
    ext k
    rw [Set.mem_ofPred_eq, AList.lookup_isSome, Finset.mem_coe, List.mem_toFinset, AList.mem_keys]
  rw [hset, Set.ncard_coe_finset, List.toFinset_card_of_nodup r.keys_nodup]
  exact (List.length_map _).symm

theorem sim_handleCountKeys (hs : Sim s a) (hw : t.what = .messageCountKeys) :
    Sim (handleCountKeys s t) (a.step t) := by
  have hcount : s.tdb.count = a.count := by
    unfold Serial.count
    cases hf : s.tdb.file with
    | none =>
      rw [← hs.agrees.file, hf]
      have hc : s.tdb.ctx = none := Option.map_eq_none_iff.mp hf
      rw [Tdb.count, hc]
    | some f =>
      rw [← hs.agrees.file, hf, Tdb.count_eq hf, length_entries]
      dsimp only
      congr 1
      ext k
      rw [Set.mem_ofPred_eq, Set.mem_ofPred_eq, hs.agrees.maps f k]
  unfold handleCountKeys Serial.step
  rw [hw, hcount]
  exact hs.complete _ true

/-! ## Sets, begin, cancel -/

theorem SameTxns.lookup (hs : SameTxns s a) {id : ℕ} {x : TxnState} (hid : id < 2 ^ 32)
    (hl : s.lookupTxn id = some x) : x.txnId = id ∧ h.LowFirst := by
  have hx := (Table.find_eq_some.mp hl).1
  have hmem : (x.txnId, x.msgs) ∈ s.logs := List.mem_map_of_mem hx
  have hlow := hs.low.resolve_right (List.ne_nil_of_mem hmem)
  exact ⟨(Host.firstWord_eq_iff hlow (hs.named _ hmem).1 hid).mp (firstWord_of_lookup hl), hlow⟩

theorem SameTxns.log (hs : SameTxns s a) {id : ℕ} {x : TxnState} (hid : id < 2 ^ 32)
    (hl : s.lookupTxn id = some x) : a.logs id = some x.msgs.reverse := by
  rw [hs.logs id hid, Storage.lookupMsgs, hl]
  rfl

theorem SameTxns.log_none (hs : SameTxns s a) {id : ℕ} (hid : id < 2 ^ 32)
    (hl : s.lookupTxn id = none) : a.logs id = none := by
  rw [hs.logs id hid, Storage.lookupMsgs, hl]
  rfl

theorem SameTxns.issued_setLog (hs : SameTxns s a) {id : ℕ} (log : Option (List StorageTask))
    (hid : log ≠ none → id ≠ 0 ∧ id ≤ a.lastId) :
    ∀ i, (a.setLog id log).logs i ≠ none → i ≠ 0 ∧ i ≤ a.lastId := by
  intro i hne
  rw [Serial.logs_setLog] at hne
  split_ifs at hne with hi
  · rw [hi]
    exact hid hne
  · exact hs.issued i hne

theorem SameTxns.queue_set (hs : SameTxns s a) {x : TxnState} (hid : t.txnId < 2 ^ 32)
    (hl : s.lookupTxn t.txnId = some x) :
    SameTxns (s.modifyMsgs t.txnId (t :: ·)) (a.setLog t.txnId (some (x.msgs.reverse ++ [t]))) where
  txn := hs.txn
  queue := hs.queue
  seq := hs.seq
  logs i hi := by
    obtain ⟨_, hlow⟩ := hs.lookup hid hl
    rw [Serial.logs_setLog, Storage.lookupMsgs, lookupTxn_modifyMsgs]
    simp only [Host.firstWord_eq_iff hlow hi hid]
    split_ifs
    · rw [hl]
      simp
    · exact hs.logs i hi
  issued := hs.issued_setLog _ fun _ => hs.issued t.txnId (by rw [hs.log hid hl]; simp)
  named p hp := by
    obtain ⟨y, hy, rfl⟩ := List.mem_map.mp hp
    rcases mem_modifyMsgs.mp hy with ⟨hy, _⟩ | ⟨z, hz, hk, rfl⟩
    · exact hs.named _ (List.mem_map_of_mem hy)
    · have hz' : z.txnId < 2 ^ 32 ∧ ∀ m ∈ z.msgs, m.txnId = z.txnId :=
        hs.named _ (List.mem_map_of_mem hz)
      have hzid : z.txnId = t.txnId := (hs.lookup hid (Table.find_eq_some.mpr ⟨hz, hk⟩)).1
      refine ⟨hz'.1, fun m hm => ?_⟩
      rcases List.mem_cons.mp hm with rfl | hm
      · exact hzid.symm
      · exact hz'.2 m hm
  low := Or.inl (hs.lookup hid hl).2

theorem SameTxns.erase (hs : SameTxns s a) {id : ℕ} {x : TxnState} (hid : id < 2 ^ 32)
    (hl : s.lookupTxn id = some x) :
    SameTxns { s with txnState := s.txnState.erase (h.firstWord id) } (a.setLog id none) where
  txn := hs.txn
  queue := hs.queue
  seq := hs.seq
  logs i hi := by
    obtain ⟨_, hlow⟩ := hs.lookup hid hl
    rw [Serial.logs_setLog, Storage.lookupMsgs]
    split_ifs with hit
    · rw [hit, lookupTxn_erase]
      rfl
    · have hk : h.firstWord i ≠ h.firstWord id := fun hn =>
        hit ((Host.firstWord_eq_iff hlow hi hid).mp hn)
      rw [hs.logs i hi]
      exact congrArg (fun y => (Option.map TxnState.msgs y).map List.reverse)
        (Table.find_erase_of_ne s.txnState hk).symm
  issued := hs.issued_setLog none fun hn => absurd rfl hn
  named p hp := by
    obtain ⟨y, hy, rfl⟩ := List.mem_map.mp hp
    exact hs.named _ (List.mem_map_of_mem (Table.mem_erase.mp hy).1)
  low := Or.inl (hs.lookup hid hl).2

theorem SameTxns.begin (hs : SameTxns s a) (hlast : a.lastId + 1 < 2 ^ 32)
    (hid : h.incFirstWord s.txnSeq < 2 ^ 32) :
    h.incFirstWord s.txnSeq = a.lastId + 1 ∧ SameTxns
      { s with
        txnSeq := h.incFirstWord s.txnSeq
        txnState := s.txnState.insert { txnId := h.incFirstWord s.txnSeq } }
      ({ a with lastId := a.lastId + 1 }.setLog (a.lastId + 1) (some [])) := by
  have hlow : h.LowFirst := by
    by_contra hlow
    unfold Host.LowFirst at hlow
    rw [Host.incFirstWord, hs.seq] at hid
    obtain ⟨ho, hw⟩ := not_not.mp hlow
    rw [ho, hw] at hid
    dsimp only at hid
    omega
  have hnext : h.incFirstWord s.txnSeq = a.lastId + 1 := by
    rw [Host.incFirstWord_of_lowFirst hlow, hs.seq]
    omega
  refine ⟨hnext, ?_⟩
  rw [hnext]
  refine ⟨hs.txn, hs.queue, rfl, fun i hi => ?_, fun i hne => ?_, fun p hp => ?_, Or.inl hlow⟩
  · have hfind : ({ s with
        txnSeq := a.lastId + 1
        txnState := s.txnState.insert { txnId := a.lastId + 1 } } : Storage h).lookupTxn i =
        if h.firstWord (a.lastId + 1) = h.firstWord i then some { txnId := a.lastId + 1 }
        else s.lookupTxn i := Table.find_insert _ _ _
    rw [Serial.logs_setLog, Storage.lookupMsgs, hfind]
    simp only [Host.firstWord_eq_iff hlow hlast hi, eq_comm]
    split_ifs
    · rfl
    · exact hs.logs i hi
  · rw [Serial.logs_setLog] at hne
    split_ifs at hne with hi
    · exact ⟨by omega, hi.le⟩
    · have hle := hs.issued i hne
      exact ⟨hle.1, hle.2.trans (Nat.le_succ _)⟩
  · obtain ⟨y, hy, rfl⟩ := List.mem_map.mp hp
    rcases Table.mem_insert.mp hy with rfl | ⟨hy, _⟩
    · exact ⟨hlast, fun _ hm => absurd hm List.not_mem_nil⟩
    · exact hs.named _ (List.mem_map_of_mem hy)

theorem lookup_foldl_insert : ∀ (log : List StorageTask) {r : Records} {m : Bytes → Option Bytes},
    (∀ k, r.lookup k = m k) → ∀ k, (log.foldl (fun r m => r.insert m.key m.data) r).lookup k =
      applyWrites (log.map StorageTask.write) m k
  | [], _, _, hr, k => hr k
  | t :: log, r, m, hr, k => by
    have hr' : ∀ k, (r.insert t.key t.data).lookup k =
        Function.update m t.key (some t.data) k := fun k => by
      by_cases hk : k = t.key
      · rw [hk, AList.lookup_insert, Function.update_self]
      · rw [AList.lookup_insert_ne hk, Function.update_of_ne hk, hr k]
    exact lookup_foldl_insert log hr' k

theorem maps_write {d d' : Tdb} {f : Bytes} (hmaps : ∀ g k, (d.view g).lookup k = a.maps g k)
    (log : List StorageTask)
    (hview : ∀ g, d'.view g = if f = g then
      log.foldl (fun r m => r.insert m.key m.data) (d.view g) else d.view g) :
    ∀ g k, (d'.view g).lookup k = (a.write f log).maps g k := by
  intro g k
  rw [hview g]
  unfold Serial.write
  dsimp only
  by_cases hg : f = g
  · rw [if_pos hg, ← hg, Function.update_self]
    exact lookup_foldl_insert log (hmaps f) k
  · rw [if_neg hg, Function.update_of_ne (Ne.symm hg)]
    exact hmaps g k

theorem sim_handleSet (he : Succeeds env) (hs : Sim s a) (hid : t.txnId < 2 ^ 32)
    (hw : t.what = .messageSet) : Sim (handleSet env s t) (a.step t) := by
  unfold Serial.step
  by_cases hc : s.tdb.ctx = none
  · unfold handleSet
    rw [if_pos (by simp [hc]), hw, hs.opened_none hc]
    exact hs.fail rfl
  · obtain ⟨f, hfile, hf⟩ := hs.opened_some hc
    rw [hw, hf]
    dsimp only
    by_cases h₀ : t.txnId = 0
    · rw [if_pos h₀, handleSet_stored hc (hs.txns.txn.trans h₀.symm) (he.setOutcome t)]
      have hsim : Sim { s with tdb := s.tdb.store t.key t.data } (a.write f [t]) :=
        { running := hs.running
          agrees :=
            { file := (Tdb.file_store _ _ _).trans hs.agrees.file
              maps := maps_write hs.agrees.maps [t] fun g => by
                rw [Tdb.view_store, hfile]
                simp
              replies := hs.agrees.replies }
          settled := Tdb.settled_store hs.settled t.key t.data
          txns := hs.txns.congr rfl rfl rfl rfl rfl rfl }
      exact hsim.complete t true
    · have hne : s.txn ≠ t.txnId := fun hn => h₀ (hn.symm.trans hs.txns.txn)
      unfold handleSet
      rw [if_neg (by simpa using hc), if_pos ⟨h₀, hne⟩, if_neg h₀]
      cases hl : s.lookupTxn t.txnId with
      | none =>
        rw [hs.txns.log_none hid hl]
        exact hs.fail rfl
      | some x =>
        rw [hs.txns.log hid hl]
        exact ⟨hs.running, ⟨hs.agrees.file, hs.agrees.maps, hs.agrees.replies⟩, hs.settled,
          hs.txns.queue_set hid hl⟩

theorem sim_handleTxnBegin (hs : Sim s a) (hlast : a.lastId + 1 < 2 ^ 32)
    (hid : s.tdb.ctx ≠ none → h.incFirstWord s.txnSeq < 2 ^ 32) (hw : t.what = .messageTxnBegin) :
    Sim (handleTxnBegin s t) (a.step t) := by
  unfold handleTxnBegin
  by_cases hc : s.tdb.ctx = none
  · unfold Serial.step
    rw [if_pos (by simp [hc]), hw, hs.opened_none hc]
    exact hs.fail rfl
  · obtain ⟨f, _, hf⟩ := hs.opened_some hc
    obtain ⟨hnext, htxns⟩ := hs.txns.begin hlast (hid hc)
    have hstep : a.step t = ({ a with lastId := a.lastId + 1 }.setLog (a.lastId + 1) (some [])).answer
        { t with value := some (a.lastId + 1), txnId := a.lastId + 1 } true := by
      unfold Serial.step
      rw [hw, hf]
    have hsim : Sim
        { s with
          txnSeq := h.incFirstWord s.txnSeq
          txnState := s.txnState.insert { txnId := h.incFirstWord s.txnSeq } }
        ({ a with lastId := a.lastId + 1 }.setLog (a.lastId + 1) (some [])) :=
      ⟨hs.running, ⟨hs.agrees.file, hs.agrees.maps, hs.agrees.replies⟩, hs.settled, htxns⟩
    rw [if_neg (by simpa using hc), hstep, ← hnext]
    rw [← hnext] at hsim
    exact hsim.complete
      { t with value := some (h.incFirstWord s.txnSeq), txnId := h.incFirstWord s.txnSeq } true

theorem sim_handleTxnCancel (hs : Sim s a) (hid : t.txnId < 2 ^ 32)
    (hw : t.what = .messageTxnCancel) : Sim (handleTxnCancel s t) (a.step t) := by
  unfold handleTxnCancel Serial.step
  by_cases hc : s.tdb.ctx = none
  · rw [if_pos (by simp [hc]), hw, hs.opened_none hc]
    exact hs.fail rfl
  · obtain ⟨f, _, hf⟩ := hs.opened_some hc
    rw [if_neg (by simpa using hc), hw, hf]
    dsimp only
    cases hl : s.lookupTxn t.txnId with
    | none =>
      have hsame : a.setLog t.txnId none = a := by
        unfold Serial.setLog
        rw [Function.update_eq_self_iff.mpr (hs.txns.log_none hid hl).symm]
      rw [hsame]
      exact hs.complete t true
    | some x =>
      have hsim : Sim { s with txnState := s.txnState.erase (h.firstWord t.txnId) }
          (a.setLog t.txnId none) :=
        ⟨hs.running, ⟨hs.agrees.file, hs.agrees.maps, hs.agrees.replies⟩, hs.settled,
          hs.txns.erase hid hl⟩
      exact hsim.complete t true

/-! ## Commits -/

theorem foldl_answer (log : List StorageTask) (a : Serial) :
    log.foldl (fun a m => a.answer m true) a =
      { a with replies := a.replies ++ log.map (StorageTask.answer · true) } := by
  induction log generalizing a with
  | nil => simp
  | cons m log ih =>
    rw [List.foldl_cons, ih]
    simp [Serial.answer]

theorem replay_of_commitOk (he : Succeeds env) (hs : Sim s a) {x : TxnState}
    (hc : s.tdb.ctx ≠ none) (hid : t.txnId < 2 ^ 32) (hl : s.lookupTxn t.txnId = some x)
    (hok : commitOk env s t x = true) :
    replay env s t x = ({ beginTxn s t with
        tdb := storeLog env x.msgs.reverse s.tdb.transactionStart
        replies := s.replies ++ x.msgs.reverse.map fun m => { m with success := true } }, true) ∧
      (x.error = none ∨ x.msgs = []) := by
  obtain ⟨hx, _⟩ := hs.txns.lookup hid hl
  have hnamed : ∀ m ∈ x.msgs.reverse, m.txnId = t.txnId := fun m hm =>
    ((hs.txns.named _ (List.mem_map_of_mem (Table.find_eq_some.mp hl).1)).2 m
      (List.mem_reverse.mp hm)).trans hx
  have hstorable : ∀ m ∈ x.msgs.reverse, Storable env m := fun m _ => ⟨_, he.setOutcome m⟩
  have hctx : (beginTxn s t).tdb.ctx ≠ none := ctx_beginTxn hc t
  have hslot : (beginTxn s t).slotError t.txnId = none ∨ x.msgs.reverse = [] :=
    slot_of_runMsgs rfl hctx hnamed hstorable (Bool.and_eq_true_iff.mp hok).1
  refine ⟨runMsgs_stored t.txnId _ rfl hctx hnamed hstorable hslot, ?_⟩
  rw [slotError_beginTxn hl] at hslot
  exact hslot.imp_right List.reverse_eq_nil_iff.mp

theorem Succeeds.applyLog (he : Succeeds env) : ∀ (ms : List StorageTask) (r : Records),
    applyLog env ms r = ms.foldl (fun r m => r.insert m.key m.data) r
  | [], _ => rfl
  | m :: ms, r => by
    unfold Catalina.applyLog
    rw [List.foldl_cons, List.foldl_cons, applySet, he.setOutcome m]
    exact he.applyLog ms _

theorem sim_afterCommit (he : Succeeds env) (hs : Sim s a) {x : TxnState} {f : Bytes}
    (hfile : s.tdb.file = some f) (hid : t.txnId < 2 ^ 32) (hl : s.lookupTxn t.txnId = some x)
    (e : Option GError) (hok : commitOk env s t x = true) :
    Sim (afterCommit env s t x e)
      ((x.msgs.reverse.foldl (fun a m => a.answer m true)
        ((a.write f x.msgs.reverse).setLog t.txnId none)).answer t true) := by
  have hc : s.tdb.ctx ≠ none := Tdb.ctx_ne_none_iff.mpr ⟨f, hfile⟩
  obtain ⟨hrep, hclean⟩ := replay_of_commitOk he hs hc hid hl hok
  have hown : ownLog t x = x.msgs.reverse := by
    obtain ⟨hx, _⟩ := hs.txns.lookup hid hl
    refine List.filter_eq_self.mpr fun m hm => ?_
    have hm' := (hs.txns.named _ (List.mem_map_of_mem (Table.find_eq_some.mp hl).1)).2 m
      (List.mem_reverse.mp hm)
    simpa using hm'.trans hx
  have htdb := tdb_afterCommit_ok hs.settled hfile hl (fun m _ _ => ⟨_, he.setOutcome m⟩) hclean e
  rw [(he t.id).2.2.2.2.2, if_pos rfl, hown, he.applyLog] at htdb
  have hsettled : (afterCommit env s t x e).tdb.Settled := by
    rw [htdb]
    rintro c ⟨⟩
    rfl
  have herase : (replay env s t x).1.txnState.erase (h.firstWord t.txnId) =
      s.txnState.erase (h.firstWord t.txnId) := by
    rw [hrep]
    exact Table.erase_modify s.txnState _ _ fun x => x.key_msgs h x.msgs.reverse
  rw [foldl_answer]
  refine ⟨(stopped_afterCommit env s t x e).trans hs.running, ⟨?_, ?_, ?_⟩, hsettled, ?_⟩
  · exact (file_afterCommit env s t x e).trans hs.agrees.file
  · refine maps_write hs.agrees.maps _ fun g => ?_
    rw [Tdb.view_of_settled hsettled, Tdb.view_of_settled hs.settled, htdb]
    dsimp only
    by_cases hg : f = g
    · rw [if_pos hg, ← hg, Function.update_self]
    · rw [if_neg hg, Function.update_of_ne (Ne.symm hg)]
  · rw [replies_afterCommit, hrep, hok]
    dsimp only
    rw [List.map_append, List.map_append, hs.agrees.replies, List.map_map]
    rfl
  · refine (hs.txns.erase hid hl).congr hs.txns.txn.symm ?_ ?_ ?_ rfl rfl
    · exact txnCommits_afterCommit env s t x e
    · exact txnSeq_afterCommit env s t x e
    · exact congrArg (fun T : Table (TxnState.key h) => T.rows.map fun x => (x.txnId, x.msgs)) herase

theorem sim_handleTxnCommit (he : Succeeds env) (hs : Sim s a) (hid : t.txnId < 2 ^ 32)
    (hw : t.what = .messageTxnCommit) (hok : NoFailedCommit (handleTxnCommit env s t)) :
    Sim (handleTxnCommit env s t) (a.step t) := by
  have hone : handleTxnCommit env s t = (commitTxn env s t).1 := by
    unfold handleTxnCommit
    rw [hs.txns.queue]
    rfl
  have hfail : ∀ {s' : Storage h} {t' : StorageTask}, t'.what = .messageTxnCommit →
      ¬ NoFailedCommit (storageTaskFail s' t') := fun {s' t'} hw' hn => by
    have hmem : { t' with success := false } ∈ (storageTaskFail s' t').replies := by
      rw [replies_fail]
      exact List.mem_append_right _ List.mem_cons_self
    cases hn _ hmem hw'
  rw [hone] at hok ⊢
  have h₁ := commitTxn_step env s t
  generalize commitTxn env s t = p at h₁ hok ⊢
  cases h₁ with
  | closed e hc =>
    unfold Serial.step
    rw [hw, hs.opened_none hc]
    exact hs.fail rfl
  | queued _ h₀ _ => exact absurd hs.txns.txn h₀
  | unknown e _ _ _ => exact absurd hok (hfail hw)
  | notStarted x _ _ _ _ => exact absurd hok (hfail hw)
  | ran x e hc _ hl _ =>
    obtain ⟨f, hfile, hf⟩ := hs.opened_some hc
    have hcommit : commitOk env s t x = true := by
      refine hok { t with error := e, success := commitOk env s t x } ?_ hw
      rw [replies_afterCommit]
      exact List.mem_append_right _ List.mem_cons_self
    have hstep := sim_afterCommit he hs hfile hid hl e hcommit
    unfold Serial.step
    rw [hw, hf]
    dsimp only
    rw [hs.txns.log hid hl]
    exact hstep

/-! ## Runs -/

/-- The number of begins in a run. -/
def begins (ts : List StorageTask) : ℕ := ts.countP (·.what = .messageTxnBegin)

/-- **One message** is answered as by the serial machine. -/
theorem sim_handleMessage (he : Succeeds env) (hinv : s.Inv) (hs : Sim s a)
    (hkeep : KeepsRecords env s t) (hid : t.txnId < 2 ^ 32)
    (hissued : ∀ r ∈ (handleMessage env s t).replies, r.txnId < 2 ^ 32)
    (hlast : a.lastId + begins [t] < 2 ^ 32) (hok : NoFailedCommit (handleMessage env s t)) :
    Sim (handleMessage env s t) (a.step t) := by
  have hlast' : a.lastId < 2 ^ 32 := lt_of_le_of_lt (Nat.le_add_right _ _) hlast
  rw [handleMessage_eq env hs.running] at hissued hok ⊢
  cases hw : t.what with
  | messageOpen => exact sim_handleOpen he hinv hs hkeep hw
  | messageClose => exact sim_handleClose he hs hlast' hw
  | messageGet => exact sim_handleGet he hs hw
  | messageSet => exact sim_handleSet he hs hid hw
  | messageCountKeys => exact sim_handleCountKeys hs hw
  | messageTxnBegin =>
    rw [hw] at hissued
    rw [begins, List.countP_singleton, if_pos (by simpa using hw)] at hlast
    refine sim_handleTxnBegin hs hlast (fun hc => ?_) hw
    refine hissued { t with
      value := some (h.incFirstWord s.txnSeq)
      txnId := h.incFirstWord s.txnSeq
      success := true } ?_
    dsimp only
    unfold handleTxnBegin
    rw [if_neg (by simpa using hc)]
    exact List.mem_append_right _ List.mem_cons_self
  | messageTxnCommit =>
    rw [hw] at hok
    exact sim_handleTxnCommit he hs hid hw hok
  | messageTxnCancel => exact sim_handleTxnCancel hs hid hw

theorem lastId_step (a : Serial) (t : StorageTask) : (a.step t).lastId ≤ a.lastId + begins [t] := by
  unfold Serial.step
  split
  · exact Nat.le_add_right _ _
  · exact Nat.le_add_right _ _
  · exact Nat.le_add_right _ _
  · exact Nat.le_add_right _ _
  · split_ifs <;> exact Nat.le_add_right _ _
  · split <;> exact Nat.le_add_right _ _
  · split_ifs
    · exact Nat.le_add_right _ _
    · split <;> exact Nat.le_add_right _ _
  · next hw _ =>
    rw [begins, List.countP_singleton, if_pos (by simpa using hw)]
    exact Nat.le_refl _
  · split
    · exact Nat.le_add_right _ _
    · rw [foldl_answer]
      exact Nat.le_add_right _ _
  · exact Nat.le_add_right _ _

theorem begins_cons (t : StorageTask) (ts : List StorageTask) :
    begins (t :: ts) = begins [t] + begins ts := by
  unfold begins
  rw [← List.countP_append, List.singleton_append]

theorem NoFailedCommit.head {t : StorageTask} {ts : List StorageTask}
    (hok : NoFailedCommit (run env s (t :: ts))) : NoFailedCommit (handleMessage env s t) :=
  fun r hr => hok r ((prefix_run ts (handleMessage env s t)).subset hr)

theorem sim_run (he : Succeeds env) : ∀ (ts : List StorageTask) {s : Storage h} {a : Serial},
    s.Inv → Sim s a → Along (handleMessage env) (KeepsRecords env) s ts →
    (∀ t ∈ ts, t.txnId < 2 ^ 32) → (∀ r ∈ (run env s ts).replies, r.txnId < 2 ^ 32) →
    a.lastId + begins ts < 2 ^ 32 → NoFailedCommit (run env s ts) → Sim (run env s ts) (a.run ts)
  | [], _, _, _, hs, _, _, _, _, _ => hs
  | t :: ts, s, a, hinv, hs, hkeep, hids, hissued, hlast, hok => by
    have hpre : (handleMessage env s t).replies <+: (run env s (t :: ts)).replies := prefix_run ts _
    rw [begins_cons] at hlast
    have hstep := sim_handleMessage he hinv hs hkeep.1 (hids t List.mem_cons_self)
      (fun r hr => hissued r (hpre.subset hr)) (by omega) hok.head
    have hle := lastId_step a t
    exact sim_run he ts (inv_handleMessage hinv t) hstep hkeep.2
      (fun t' ht' => hids t' (List.mem_cons_of_mem t ht')) hissued (by omega) hok

theorem keepsRecords_run (he : Succeeds env) :
    ∀ (ts : List StorageTask) {s : Storage h} {a : Serial}, s.Inv → Sim s a →
    (∀ us, us <+: ts → Agrees (run env s us) (a.run us)) → (∀ t ∈ ts, t.txnId < 2 ^ 32) →
    (∀ r ∈ (run env s ts).replies, r.txnId < 2 ^ 32) → a.lastId + begins ts < 2 ^ 32 →
    NoFailedCommit (run env s ts) → Along (handleMessage env) (KeepsRecords env) s ts
  | [], _, _, _, _, _, _, _, _, _ => trivial
  | t :: ts, s, a, hinv, hs, hall, hids, hissued, hlast, hok => by
    have hpre : (handleMessage env s t).replies <+: (run env s (t :: ts)).replies := prefix_run ts _
    rw [begins_cons] at hlast
    have hkeep : KeepsRecords env s t :=
      keepsRecords_of_agrees he hs (hall [t] (List.prefix_append [t] ts))
    have hstep := sim_handleMessage he hinv hs hkeep (hids t List.mem_cons_self)
      (fun r hr => hissued r (hpre.subset hr)) (by omega) hok.head
    have hle := lastId_step a t
    exact ⟨hkeep, keepsRecords_run he ts (inv_handleMessage hinv t) hstep
      (fun us hus => hall (t :: us) ((List.prefix_cons_inj t).mpr hus))
      (fun t' ht' => hids t' (List.mem_cons_of_mem t ht')) hissued (by omega) hok⟩

end Sim

/-- The serial machine on a given disk. -/
def Serial.init (disk : Bytes → Records) : Serial := { maps := fun f k => (disk f).lookup k }

theorem sim_init (disk : Bytes → Records) :
    Sim (catalinaStorageInit h disk) (Serial.init disk) where
  running := rfl
  agrees := ⟨rfl, fun _ _ => rfl, rfl⟩
  settled := by rintro c ⟨⟩
  txns := ⟨rfl, rfl, rfl, fun _ _ => rfl, fun _ hne => absurd rfl hne,
    fun _ hp => absurd hp List.not_mem_nil, Or.inr rfl⟩

/-- **The storage refines the serial transactional map.** In a run with ids below `2 ^ 32` in which no
commit fails, the replies, the open file and the records of every file are the machine's at every
point, exactly if no open of a closed storage finds `O_TRUNC` in `o_flags` for a file with records. -/
theorem refines_serial (env : Env) (he : Succeeds env) (disk : Bytes → Records)
    (ts : List StorageTask) (hids : ∀ t ∈ ts, t.txnId < 2 ^ 32)
    (hissued : ∀ r ∈ (run env (catalinaStorageInit h disk) ts).replies, r.txnId < 2 ^ 32)
    (hbegins : begins ts < 2 ^ 32)
    (hok : NoFailedCommit (run env (catalinaStorageInit h disk) ts)) :
    (∀ us, us <+: ts → Agrees (run env (catalinaStorageInit h disk) us) ((Serial.init disk).run us)) ↔
      Along (handleMessage env) (KeepsRecords env) (catalinaStorageInit h disk) ts := by
  have hlast : (Serial.init disk).lastId + begins ts < 2 ^ 32 := by simpa [Serial.init] using hbegins
  constructor
  · exact fun hall => keepsRecords_run he ts (inv_init disk) (sim_init disk) hall hids hissued hlast hok
  · intro hkeep us hus
    obtain ⟨vs, rfl⟩ := hus
    have hpre : (run env (catalinaStorageInit h disk) us).replies <+:
        (run env (catalinaStorageInit h disk) (us ++ vs)).replies := by
      unfold run
      rw [List.foldl_append]
      exact prefix_run vs _
    have hfewer : begins us ≤ begins (us ++ vs) := by
      unfold begins
      rw [List.countP_append]
      exact Nat.le_add_right _ _
    exact (sim_run he us (inv_init disk) (sim_init disk) (hkeep.of_initial (List.prefix_append us vs))
      (fun t ht => hids t (List.mem_append_left vs ht)) (fun r hr => hissued r (hpre.subset hr))
      (by omega) (fun r hr => hok r (hpre.subset hr))).agrees

/-- A commit beside a plain set, a cancel, and a file closed and opened again. -/
def mixedRun : List StorageTask :=
  [openTask 0 [47], beginTask 1, setTask 2 1 [1] [10], setTask 3 0 [2] [20], beginTask 4,
    setTask 5 2 [1] [30], closeTask 6, commitTask 7 1, cancelTask 8 2, closeTask 9,
    openTask 10 [47], getTask 11 [1], countKeysTask 12]

theorem refines_serial_mixedRun :
    Along (handleMessage fun _ => {}) (KeepsRecords fun _ => {}) (catalinaStorageInit lp64 fun _ => ∅)
        mixedRun ∧
      ∀ us, us <+: mixedRun → Agrees (run (fun _ => {}) (catalinaStorageInit lp64 fun _ => ∅) us)
        ((Serial.init fun _ => ∅).run us) := by
  have hkeep : Along (handleMessage fun _ => {}) (KeepsRecords fun _ => {})
      (catalinaStorageInit lp64 fun _ => ∅) mixedRun :=
    Along.of_forall (fun _ _ _ _ ht => Bool.noConfusion ht) _ _
  exact ⟨hkeep, (refines_serial _ (fun _ => ⟨rfl, rfl, rfl, rfl, rfl, rfl⟩) _ mixedRun (by decide)
    (by decide) (by decide) (by unfold NoFailedCommit; decide)).mpr hkeep⟩

/-- The last open finds `O_CREAT` and `O_TRUNC` in `o_flags`. -/
def truncatingEnv : Env := fun i => { oFlags := { creat := i == 3, trunc := i == 3 } }

/-- A set, the file closed and opened again, and a get. -/
def reopenedRun : List StorageTask :=
  [openTask 0 [47], setTask 1 0 [1] [10], closeTask 2, openTask 3 [47], getTask 4 [1]]

/-- **The file is empty after it is opened again**: every call to `tdb` succeeds, no commit fails, and
the get that the machine answers is failed. -/
theorem reopened_empty :
    Succeeds truncatingEnv ∧
      NoFailedCommit (run truncatingEnv (catalinaStorageInit lp64 fun _ => ∅) reopenedRun) ∧
      ¬ Agrees (run truncatingEnv (catalinaStorageInit lp64 fun _ => ∅) reopenedRun)
        ((Serial.init fun _ => ∅).run reopenedRun) := by
  refine ⟨fun i => ⟨rfl, ?_, rfl, rfl, rfl, rfl⟩, by unfold NoFailedCommit; decide, fun ha => ?_⟩
  · unfold truncatingEnv Calls.opens
    cases i == 3 <;> rfl
  · have hstored : ((Serial.init fun _ => ∅).run reopenedRun).maps [47] [1] = some [10] := by
      simp [reopenedRun, Serial.run, Serial.step, Serial.init, Serial.write, Serial.answer, applyWrites,
        StorageTask.write, openTask, setTask, closeTask, getTask]
    have hempty : ((run truncatingEnv (catalinaStorageInit lp64 fun _ => ∅) reopenedRun).tdb.view
        [47]).lookup [1] = none := by decide
    rw [ha.maps, hstored] at hempty
    cases hempty

end Catalina
