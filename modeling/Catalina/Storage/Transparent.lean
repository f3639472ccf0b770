import Catalina.Lib.Related
import Catalina.Storage.Refinement
import Catalina.Zlib.Stored

/-!
# The transform cannot be seen

Two storages with different transforms keep different bytes under the same keys. As long as their
transforms read the records alike, they answer alike.

* `Tdb.Mirrors R`, `Mirrors R`: databases, and storages, with the same keys and with records that `R`
  relates.
* `ReadAlike`, `WrittenAlike`: what the two transforms make of a pair of records, and of the data of a
  set. `mirrors_handleMessage`, `mirrors_run`: the storages go on mirroring each other.
* **`transparent_iff`**: a transform makes no difference to any answer exactly if it gives back the
  data of the sets.
* **`transformed_refines_serial`**: a storage with such a transform answers as the serial machine does.
-/

namespace Catalina

variable {h : Host} {R : Bytes → Bytes → Prop}

/-! ## Databases -/

namespace Tdb

/-- The same file, and overlays with the same keys at the same nesting level. -/
structure SameContext (R : Bytes → Bytes → Prop) (c c' : TdbContext) : Prop where
  file : c.file = c'.file
  overlay : Option.Rel (fun o o' => SameKeys R o.1 o'.1 ∧ o.2 = o'.2) c.overlay c'.overlay

/-- The same keys in every file, and the same handle. -/
structure Mirrors (R : Bytes → Bytes → Prop) (d d' : Tdb) : Prop where
  disk : ∀ f, SameKeys R (d.disk f) (d'.disk f)
  ctx : Option.Rel (SameContext R) d.ctx d'.ctx

variable {d d' : Tdb}

theorem Mirrors.file (hd : d.Mirrors R d') : d'.file = d.file := by
  have hctx := hd.ctx
  unfold Tdb.file
  generalize d.ctx = c at hctx ⊢
  generalize d'.ctx = c' at hctx ⊢
  cases hctx with
  | none => rfl
  | some hc => exact congrArg some hc.file.symm

theorem Mirrors.isSome (hd : d.Mirrors R d') : d'.ctx.isSome = d.ctx.isSome :=
  isSome_ctx_of_file hd.file

theorem Mirrors.view (hd : d.Mirrors R d') (f : Bytes) : SameKeys R (d.view f) (d'.view f) := by
  obtain ⟨disk, ctx⟩ := d
  obtain ⟨disk', ctx'⟩ := d'
  obtain ⟨hdisk, hctx⟩ := hd
  cases hctx with
  | none => exact hdisk f
  | @some c c' hc =>
    obtain ⟨g, o⟩ := c
    obtain ⟨g', o'⟩ := c'
    obtain ⟨rfl, ho⟩ := hc
    cases ho with
    | none => exact hdisk f
    | @some o o' ho =>
      unfold Tdb.view
      dsimp only
      split_ifs
      · exact ho.1
      · exact hdisk f

theorem Mirrors.fetch (hd : d.Mirrors R d') (k : Bytes) : Option.Rel R (d.fetch k) (d'.fetch k) := by
  have hview := hd.view
  have hctx := hd.ctx
  unfold Tdb.fetch
  generalize d.ctx = c at hctx ⊢
  generalize d'.ctx = c' at hctx ⊢
  cases hctx with
  | none => exact Option.Rel.none
  | @some c c' hc =>
    dsimp only
    rw [← hc.file]
    exact (hview c.file).lookup k

theorem Mirrors.count (hd : d.Mirrors R d') : d'.count = d.count := by
  have hview := hd.view
  have hctx := hd.ctx
  unfold Tdb.count
  generalize d.ctx = c at hctx ⊢
  generalize d'.ctx = c' at hctx ⊢
  cases hctx with
  | none => rfl
  | @some c c' hc =>
    dsimp only
    rw [← hc.file]
    exact (hview c.file).length.symm

theorem Mirrors.opened (hd : d.Mirrors R d') (f : Bytes) : (d.opened f).Mirrors R (d'.opened f) :=
  ⟨hd.disk, Option.Rel.some ⟨rfl, Option.Rel.none⟩⟩

theorem Mirrors.closed (hd : d.Mirrors R d') : d.closed.Mirrors R d'.closed :=
  ⟨hd.disk, Option.Rel.none⟩

theorem Mirrors.ctx_eq_none (hd : d.Mirrors R d') : d'.ctx = none ↔ d.ctx = none := by
  rw [← Option.isNone_iff_eq_none, ← Option.isNone_iff_eq_none, ← Option.not_isSome,
    ← Option.not_isSome, hd.isSome]

theorem sameKeys_update {m m' : Bytes → Records} (hm : ∀ f, SameKeys R (m f) (m' f)) (g : Bytes)
    {r r' : Records} (hr : SameKeys R r r') (f : Bytes) :
    SameKeys R (Function.update m g r f) (Function.update m' g r' f) := by
  by_cases hf : f = g
  · rw [hf, Function.update_self, Function.update_self]
    exact hr
  · rw [Function.update_of_ne hf, Function.update_of_ne hf]
    exact hm f

theorem Mirrors.openFile (hd : d.Mirrors R d') (f : Bytes) {c c' : Calls}
    (hc : c.truncates = c'.truncates) : (d.openFile f c).Mirrors R (d'.openFile f c') := by
  unfold Tdb.openFile
  rw [hc]
  split_ifs
  · exact ⟨sameKeys_update hd.disk f sameKeys_empty, hd.ctx⟩
  · exact hd

theorem Mirrors.store (hd : d.Mirrors R d') (k : Bytes) {v v' : Bytes} (hv : R v v') :
    (d.store k v).Mirrors R (d'.store k v') := by
  obtain ⟨disk, ctx⟩ := d
  obtain ⟨disk', ctx'⟩ := d'
  obtain ⟨hdisk, hctx⟩ := hd
  cases hctx with
  | none => exact ⟨hdisk, Option.Rel.none⟩
  | @some c c' hc =>
    obtain ⟨f, o⟩ := c
    obtain ⟨f', o'⟩ := c'
    obtain ⟨rfl, ho⟩ := hc
    cases ho with
    | none =>
      exact ⟨sameKeys_update hdisk f ((hdisk f).insert k hv),
        Option.Rel.some ⟨rfl, Option.Rel.none⟩⟩
    | some ho =>
      exact ⟨hdisk, Option.Rel.some ⟨rfl, Option.Rel.some ⟨ho.1.insert k hv, ho.2⟩⟩⟩

theorem Mirrors.transactionStart (hd : d.Mirrors R d') :
    d.transactionStart.Mirrors R d'.transactionStart := by
  obtain ⟨disk, ctx⟩ := d
  obtain ⟨disk', ctx'⟩ := d'
  obtain ⟨hdisk, hctx⟩ := hd
  cases hctx with
  | none => exact ⟨hdisk, Option.Rel.none⟩
  | @some c c' hc =>
    obtain ⟨f, o⟩ := c
    obtain ⟨f', o'⟩ := c'
    obtain ⟨rfl, ho⟩ := hc
    cases ho with
    | none => exact ⟨hdisk, Option.Rel.some ⟨rfl, Option.Rel.some ⟨hdisk f, rfl⟩⟩⟩
    | some ho =>
      exact ⟨hdisk, Option.Rel.some ⟨rfl, Option.Rel.some ⟨ho.1, congrArg (· + 1) ho.2⟩⟩⟩

theorem Mirrors.transactionCommit (hd : d.Mirrors R d') (ok : Bool) :
    (d.transactionCommit ok).Mirrors R (d'.transactionCommit ok) := by
  obtain ⟨disk, ctx⟩ := d
  obtain ⟨disk', ctx'⟩ := d'
  obtain ⟨hdisk, hctx⟩ := hd
  cases hctx with
  | none => exact ⟨hdisk, Option.Rel.none⟩
  | @some c c' hc =>
    obtain ⟨f, o⟩ := c
    obtain ⟨f', o'⟩ := c'
    obtain ⟨rfl, ho⟩ := hc
    cases ho with
    | none => exact ⟨hdisk, Option.Rel.some ⟨rfl, Option.Rel.none⟩⟩
    | @some o o' ho =>
      obtain ⟨r, n⟩ := o
      obtain ⟨r', n'⟩ := o'
      obtain ⟨hr, rfl⟩ : SameKeys R r r' ∧ n = n' := ho
      cases ok with
      | false => exact ⟨hdisk, Option.Rel.some ⟨rfl, Option.Rel.none⟩⟩
      | true =>
        cases n with
        | zero => exact ⟨sameKeys_update hdisk f hr, Option.Rel.some ⟨rfl, Option.Rel.none⟩⟩
        | succ n => exact ⟨hdisk, Option.Rel.some ⟨rfl, Option.Rel.some ⟨hr, rfl⟩⟩⟩

end Tdb

/-! ## Storages -/

/-- The answers of `env`, with the transforms `T`. -/
def Env.transforming (env : Env) (T : ℕ → Option Transform) : Env :=
  fun i => { env i with transform := T i }

/-- Every get reads the two records alike, errors included. -/
def ReadAlike (T T' : ℕ → Option Transform) (r r' : Bytes) : Prop :=
  ∀ i, transformRead (T i) r = transformRead (T' i) r'

/-- The task `i` writes the data `x` alike: with both transforms it fails with the same error, or it
stores records that are read alike. -/
def WrittenAlike (T T' : ℕ → Option Transform) (i : ℕ) (x : Bytes) : Prop :=
  (∃ e, transformWrite (T i) x = .error e ∧ transformWrite (T' i) x = .error e) ∨
    ∃ r r', transformWrite (T i) x = .ok r ∧ transformWrite (T' i) x = .ok r' ∧
      ReadAlike T T' r r'

/-- The storages differ in their records only. -/
def Mirrors (R : Bytes → Bytes → Prop) (s s' : Storage h) : Prop :=
  ∃ d, s.tdb.Mirrors R d ∧ s' = { s with tdb := d }

section Mirrors

variable {s s' : Storage h}

theorem Mirrors.fail (hs : Mirrors R s s') (t : StorageTask) :
    Mirrors R (storageTaskFail s t) (storageTaskFail s' t) := by
  obtain ⟨d, hd, rfl⟩ := hs
  refine ⟨d, (tdb_fail s t).symm ▸ hd, ?_⟩
  unfold storageTaskFail
  split_ifs <;> rfl

theorem Mirrors.complete (hs : Mirrors R s s') (t : StorageTask) (b : Bool) :
    Mirrors R (storageTaskComplete s t b) (storageTaskComplete s' t b) := by
  obtain ⟨d, hd, rfl⟩ := hs
  exact ⟨d, hd, rfl⟩

theorem Mirrors.isSome (hs : Mirrors R s s') : s'.tdb.ctx.isSome = s.tdb.ctx.isSome := by
  obtain ⟨d, hd, rfl⟩ := hs
  exact hd.isSome

theorem Mirrors.isNone (hs : Mirrors R s s') : s'.tdb.ctx.isNone = s.tdb.ctx.isNone := by
  rw [← Option.not_isSome, ← Option.not_isSome, hs.isSome]

theorem Mirrors.fetch (hs : Mirrors R s s') (k : Bytes) :
    Option.Rel R (s.tdb.fetch k) (s'.tdb.fetch k) := by
  obtain ⟨d, hd, rfl⟩ := hs
  exact hd.fetch k

theorem Mirrors.count (hs : Mirrors R s s') : s'.tdb.count = s.tdb.count := by
  obtain ⟨d, hd, rfl⟩ := hs
  exact hd.count

theorem Mirrors.txn (hs : Mirrors R s s') : s'.txn = s.txn := by
  obtain ⟨d, _, rfl⟩ := hs
  rfl

theorem Mirrors.lookupTxn (hs : Mirrors R s s') (id : ℕ) : s'.lookupTxn id = s.lookupTxn id := by
  obtain ⟨d, _, rfl⟩ := hs
  rfl

theorem Mirrors.modifyMsgs (hs : Mirrors R s s') (id : ℕ) (f : List StorageTask → List StorageTask) :
    Mirrors R (s.modifyMsgs id f) (s'.modifyMsgs id f) := by
  obtain ⟨d, hd, rfl⟩ := hs
  exact ⟨d, hd, rfl⟩

theorem Mirrors.setTxnError (hs : Mirrors R s s') (id : ℕ) (e : Option GError) :
    Mirrors R (s.setTxnError id e) (s'.setTxnError id e) := by
  obtain ⟨d, hd, rfl⟩ := hs
  exact ⟨d, hd, rfl⟩

theorem mirrors_ite {p : Prop} {i j : Decidable p} {a b a' b' : Storage h} (ha : Mirrors R a a')
    (hb : Mirrors R b b') : Mirrors R (@ite _ p i a b) (@ite _ p j a' b') := by
  split_ifs
  · exact ha
  · exact hb

variable {T T' : ℕ → Option Transform} {env : Env}

theorem mirrors_handleOpen (hs : Mirrors R s s') (t : StorageTask) :
    Mirrors R (handleOpen (env.transforming T) s t) (handleOpen (env.transforming T') s' t) := by
  have hsome := hs.isSome
  obtain ⟨d, hd, rfl⟩ := hs
  unfold handleOpen
  rw [hsome]
  refine mirrors_ite ?_ (mirrors_ite ?_ ?_)
  · exact Mirrors.fail ⟨d, hd, rfl⟩ _
  · exact ⟨d, hd, rfl⟩
  · have hfile : (s.tdb.openFile t.key (env.transforming T t.id)).Mirrors R
        (d.openFile t.key (env.transforming T' t.id)) := hd.openFile t.key rfl
    refine mirrors_ite ?_ ?_
    · exact ⟨_, hfile.opened t.key, rfl⟩
    · exact Mirrors.fail ⟨_, hfile, rfl⟩ _

theorem mirrors_handleClose (hs : Mirrors R s s') (t : StorageTask) :
    Mirrors R (handleClose (env.transforming T) s t) (handleClose (env.transforming T') s' t) := by
  have hnone := hs.isNone
  obtain ⟨d, hd, rfl⟩ := hs
  unfold handleClose
  rw [hnone]
  refine mirrors_ite ?_ (mirrors_ite ?_ (mirrors_ite ?_ ?_))
  · exact Mirrors.fail ⟨d, hd, rfl⟩ _
  · exact Mirrors.fail ⟨d, hd, rfl⟩ _
  · exact Mirrors.fail ⟨d, hd, rfl⟩ _
  · exact ⟨d.closed, hd.closed, rfl⟩

theorem mirrors_handleGet (hs : Mirrors (ReadAlike T T') s s') (t : StorageTask) :
    Mirrors (ReadAlike T T') (handleGet (env.transforming T) s t)
      (handleGet (env.transforming T') s' t) := by
  have hnone := hs.isNone
  have hfetch := hs.fetch t.key
  unfold handleGet
  rw [hnone]
  refine mirrors_ite (hs.fail _) ?_
  generalize s.tdb.fetch t.key = o at hfetch ⊢
  generalize s'.tdb.fetch t.key = o' at hfetch ⊢
  cases hfetch with
  | none => exact hs.fail _
  | @some r r' hr =>
    dsimp only [Env.transforming]
    rw [hr t.id]
    cases transformRead (T' t.id) r' with
    | error e => exact hs.fail _
    | ok data => exact hs.complete _ true

theorem mirrors_handleSet (hs : Mirrors (ReadAlike T T') s s') {t : StorageTask}
    (hw : WrittenAlike T T' t.id t.data) :
    Mirrors (ReadAlike T T') (handleSet (env.transforming T) s t)
      (handleSet (env.transforming T') s' t) := by
  have hnone := hs.isNone
  have hlookup := hs.lookupTxn t.txnId
  have htxn := hs.txn
  unfold handleSet
  rw [hnone, hlookup, htxn]
  refine mirrors_ite (hs.fail _) (mirrors_ite ?_ (mirrors_ite hs ?_))
  · cases s.lookupTxn t.txnId with
    | none => exact hs.fail _
    | some x => exact hs.modifyMsgs t.txnId _
  · dsimp only [Env.transforming]
    rcases hw with ⟨e, he, he'⟩ | ⟨r, r', hr, hr', halike⟩
    · rw [he, he']
      exact hs.fail _
    · rw [hr, hr']
      obtain ⟨d, hd, rfl⟩ := hs
      refine mirrors_ite ?_ ?_
      · exact ⟨d.store t.key r', hd.store t.key halike, rfl⟩
      · exact Mirrors.fail ⟨d, hd, rfl⟩ _

theorem mirrors_handleCountKeys (hs : Mirrors R s s') (t : StorageTask) :
    Mirrors R (handleCountKeys s t) (handleCountKeys s' t) := by
  unfold handleCountKeys
  rw [hs.count]
  exact hs.complete _ true

theorem mirrors_handleTxnBegin (hs : Mirrors R s s') (t : StorageTask) :
    Mirrors R (handleTxnBegin s t) (handleTxnBegin s' t) := by
  have hnone := hs.isNone
  obtain ⟨d, hd, rfl⟩ := hs
  unfold handleTxnBegin
  rw [hnone]
  refine mirrors_ite ?_ ?_
  · exact Mirrors.fail ⟨d, hd, rfl⟩ t
  · exact ⟨d, hd, rfl⟩

theorem mirrors_handleTxnCancel (hs : Mirrors R s s') (t : StorageTask) :
    Mirrors R (handleTxnCancel s t) (handleTxnCancel s' t) := by
  have hnone := hs.isNone
  have hlookup := hs.lookupTxn t.txnId
  unfold handleTxnCancel
  rw [hnone, hlookup]
  refine mirrors_ite (hs.fail t) ?_
  cases s.lookupTxn t.txnId with
  | none => exact hs.complete t true
  | some x =>
    obtain ⟨d, hd, rfl⟩ := hs
    exact ⟨d, hd, rfl⟩

/-! ## Commits -/

theorem mirrors_runMsgs (env : Env) (id : ℕ) : ∀ (ms : List StorageTask) {s s' : Storage h},
    Mirrors (ReadAlike T T') s s' → (∀ m ∈ ms, WrittenAlike T T' m.id m.data) →
    Mirrors (ReadAlike T T') (runMsgs (env.transforming T) id ms s).1
        (runMsgs (env.transforming T') id ms s').1 ∧
      (runMsgs (env.transforming T') id ms s').2 = (runMsgs (env.transforming T) id ms s).2
  | [], _, _, hs, _ => ⟨hs, rfl⟩
  | m :: ms, s, s', hs, hms => by
    have hset : Mirrors (ReadAlike T T') (handleSet (env.transforming T) s m)
        (handleSet (env.transforming T') s' m) := mirrors_handleSet hs (hms m List.mem_cons_self)
    have hlookup := hset.lookupTxn id
    rw [runMsgs, runMsgs, hlookup]
    split_ifs
    · exact ⟨hset, rfl⟩
    · exact mirrors_runMsgs env id ms hset fun m' hm' => hms m' (List.mem_cons_of_mem m hm')

theorem mirrors_txnStateRun (env : Env) (hs : Mirrors (ReadAlike T T') s s') {x : TxnState} (id : ℕ)
    (hx : ∀ m ∈ x.msgs, WrittenAlike T T' m.id m.data) (e : Option GError) :
    Mirrors (ReadAlike T T') (txnStateRun (env.transforming T) s x id e).1
        (txnStateRun (env.transforming T') s' x id e).1 ∧
      (txnStateRun (env.transforming T') s' x id e).2 =
        (txnStateRun (env.transforming T) s x id e).2 := by
  have hrev : Mirrors (ReadAlike T T') (s.modifyMsgs id List.reverse)
      (s'.modifyMsgs id List.reverse) := hs.modifyMsgs id List.reverse
  obtain ⟨hrun, hb⟩ := mirrors_runMsgs env id x.msgs.reverse hrev
    fun m hm => hx m (List.mem_reverse.mp hm)
  unfold txnStateRun
  dsimp only
  generalize runMsgs (env.transforming T) id x.msgs.reverse _ = p at hrun hb ⊢
  generalize runMsgs (env.transforming T') id x.msgs.reverse _ = p' at hrun hb ⊢
  obtain ⟨s₁, b⟩ := p
  obtain ⟨s₂, b'⟩ := p'
  obtain rfl : b' = b := hb
  cases b' with
  | true => exact ⟨hrun, rfl⟩
  | false =>
    cases e with
    | some e => exact ⟨hrun, rfl⟩
    | none =>
      dsimp only
      rw [hrun.lookupTxn]
      exact ⟨hrun.setTxnError id none, rfl⟩

theorem mirrors_finishTxn {p p' : Storage h × Bool × Option GError} (hs : Mirrors R p.1 p'.1)
    (heq : p'.2 = p.2) (x : TxnState) (t : StorageTask) :
    Mirrors R (finishTxn (env.transforming T) p.1 x { t with error := p.2.2 } p.2.1)
      (finishTxn (env.transforming T') p'.1 x { t with error := p'.2.2 } p'.2.1) := by
  obtain ⟨s, b, e⟩ := p
  obtain ⟨s', b', e'⟩ := p'
  obtain ⟨rfl, rfl⟩ : b' = b ∧ e' = e := Prod.ext_iff.mp heq
  have hsucceed : ∀ {s s' : Storage h} {ok : Bool}, Mirrors R s s' → ∀ t : StorageTask, Mirrors R
      (let s := { s with txnState := s.txnState.erase (h.firstWord x.txnId), txn := 0 }
        if ok then storageTaskSucceed s t
        else storageTaskFail { s with tdb := s.tdb.transactionRecover } t)
      (let s := { s' with txnState := s'.txnState.erase (h.firstWord x.txnId), txn := 0 }
        if ok then storageTaskSucceed s t
        else storageTaskFail { s with tdb := s.tdb.transactionRecover } t) := by
    rintro s _ ok ⟨d, hd, rfl⟩ t
    refine mirrors_ite ⟨d, hd, rfl⟩ ?_
    exact Mirrors.fail (s := { s with txnState := s.txnState.erase (h.firstWord x.txnId), txn := 0 })
      ⟨d, hd, rfl⟩ t
  obtain ⟨d, hd, rfl⟩ := hs
  cases b' with
  | false => exact hsucceed ⟨d, hd, rfl⟩ _
  | true => exact hsucceed ⟨_, hd.transactionCommit _, rfl⟩ _

theorem mirrors_commitTxn (env : Env) (hs : Mirrors (ReadAlike T T') s s')
    (hlog : s.Logged fun m => WrittenAlike T T' m.id m.data) (t : StorageTask) :
    Mirrors (ReadAlike T T') (commitTxn (env.transforming T) s t).1
        (commitTxn (env.transforming T') s' t).1 ∧
      (commitTxn (env.transforming T') s' t).2 = (commitTxn (env.transforming T) s t).2 := by
  have hnone := hs.isNone
  have htxn := hs.txn
  have hlookup := hs.lookupTxn t.txnId
  unfold commitTxn
  rw [hnone, htxn]
  by_cases hc : s.tdb.ctx.isNone = true
  · rw [if_pos hc, if_pos hc]
    exact ⟨hs.fail _, rfl⟩
  rw [if_neg hc, if_neg hc]
  by_cases hq : s.txn ≠ 0 ∧ s.txn ≠ t.txnId
  · rw [if_pos hq, if_pos hq]
    obtain ⟨d, hd, rfl⟩ := hs
    exact ⟨⟨d, hd, rfl⟩, rfl⟩
  rw [if_neg hq, if_neg hq]
  obtain ⟨d, hd, rfl⟩ := hs
  have hcur : Mirrors (ReadAlike T T') { s with txn := t.txnId } { s with txn := t.txnId, tdb := d } :=
    ⟨d, hd, rfl⟩
  dsimp only
  rw [hcur.lookupTxn]
  cases hl : s.lookupTxn t.txnId with
  | none =>
    have hl' : ({ s with txn := t.txnId } : Storage h).lookupTxn t.txnId = none := hl
    rw [hl']
    exact ⟨hcur.fail _, rfl⟩
  | some x =>
    have hl' : ({ s with txn := t.txnId } : Storage h).lookupTxn t.txnId = some x := hl
    rw [hl']
    dsimp only
    by_cases hst : ¬ (env.transforming T t.id).tdbTransactionStart = true
    · have hst' : ¬ (env.transforming T' t.id).tdbTransactionStart = true := hst
      rw [if_pos hst, if_pos hst']
      exact ⟨hcur.fail _, rfl⟩
    · have hst' : ¬ ¬ (env.transforming T' t.id).tdbTransactionStart = true := hst
      rw [if_neg hst, if_neg hst']
      have hbegan : Mirrors (ReadAlike T T')
          { s with txn := t.txnId, tdb := s.tdb.transactionStart }
          { s with txn := t.txnId, tdb := d.transactionStart } := ⟨_, hd.transactionStart, rfl⟩
      obtain ⟨hrun, heq⟩ := mirrors_txnStateRun env hbegan t.txnId (hlog.of_lookup hl) t.error
      exact ⟨mirrors_finishTxn hrun heq x t, rfl⟩

theorem mirrors_popCommit (hs : Mirrors R s s') :
    Option.Rel (fun p q => p.1 = q.1 ∧ Mirrors R p.2 q.2) (popCommit s) (popCommit s') := by
  obtain ⟨d, hd, rfl⟩ := hs
  unfold popCommit
  dsimp only
  cases s.txnCommits with
  | nil => exact Option.Rel.none
  | cons t rest => exact Option.Rel.some ⟨rfl, d, hd, rfl⟩

theorem mirrors_handleTxnCommit (hs : Mirrors (ReadAlike T T') s s')
    (hlog : s.Logged fun m => WrittenAlike T T' m.id m.data) (t : StorageTask) :
    Mirrors (ReadAlike T T') (handleTxnCommit (env.transforming T) s t)
      (handleTxnCommit (env.transforming T') s' t) := by
  have hqueue : s'.txnCommits = s.txnCommits := by
    obtain ⟨d, _, rfl⟩ := hs
    rfl
  unfold handleTxnCommit
  rw [hqueue]
  refine (drain_relates (R := fun s s' => Mirrors (ReadAlike T T') s s' ∧
    s.Logged fun m => WrittenAlike T T' m.id m.data) ?_ ?_ _ ⟨hs, hlog⟩).1
  · rintro s s' t ⟨hs, hlog⟩
    obtain ⟨hcommit, hb⟩ := mirrors_commitTxn env hs hlog t
    exact ⟨⟨hcommit, logged_commitTxn hlog t⟩, hb.symm⟩
  · rintro s s' ⟨hs, hlog⟩
    have hpop := mirrors_popCommit hs
    have hrest : ∀ p, popCommit s = some p →
        p.2.Logged fun m => WrittenAlike T T' m.id m.data := fun p hp => by
      obtain ⟨rest, _, hp⟩ := popCommit_eq hp
      rw [hp]
      exact hlog
    generalize popCommit s = o at hpop hrest ⊢
    generalize popCommit s' = o' at hpop ⊢
    cases hpop with
    | none => exact Option.Rel.none
    | some hpq => exact Option.Rel.some ⟨hpq.1, hpq.2, hrest _ rfl⟩

/-! ## Runs -/

/-- **One message** keeps the storages alike. -/
theorem mirrors_handleMessage (hs : Mirrors (ReadAlike T T') s s')
    (hlog : s.Logged fun m => WrittenAlike T T' m.id m.data) {t : StorageTask}
    (ht : t.what = .messageSet → WrittenAlike T T' t.id t.data) :
    Mirrors (ReadAlike T T') (handleMessage (env.transforming T) s t)
      (handleMessage (env.transforming T') s' t) := by
  have hstopped : s'.stopped = s.stopped := by
    obtain ⟨d, _, rfl⟩ := hs
    rfl
  by_cases hstop : s.stopped = true
  · rwa [handleMessage_stopped _ hstop, handleMessage_stopped _ (hstopped.trans hstop)]
  have hrun : s.stopped = false := Bool.eq_false_of_not_eq_true hstop
  rw [handleMessage_eq _ hrun, handleMessage_eq _ (hstopped.trans hrun)]
  cases hw : t.what with
  | messageOpen => exact mirrors_handleOpen hs t
  | messageClose => exact mirrors_handleClose hs t
  | messageGet => exact mirrors_handleGet hs t
  | messageSet => exact mirrors_handleSet hs (ht hw)
  | messageCountKeys => exact mirrors_handleCountKeys hs t
  | messageTxnBegin => exact mirrors_handleTxnBegin hs t
  | messageTxnCommit => exact mirrors_handleTxnCommit hs hlog t
  | messageTxnCancel => exact mirrors_handleTxnCancel hs t

theorem mirrors_run : ∀ (ts : List StorageTask) {s s' : Storage h}, Mirrors (ReadAlike T T') s s' →
    (s.Logged fun m => WrittenAlike T T' m.id m.data) →
    (∀ t ∈ ts, t.what = .messageSet → WrittenAlike T T' t.id t.data) →
    Mirrors (ReadAlike T T') (run (env.transforming T) s ts) (run (env.transforming T') s' ts)
  | [], _, _, hs, _, _ => hs
  | t :: ts, _, _, hs, hlog, hts =>
    mirrors_run ts (mirrors_handleMessage hs hlog (hts t List.mem_cons_self))
      (logged_handleMessage hlog (hts t List.mem_cons_self))
      fun t' ht' => hts t' (List.mem_cons_of_mem t ht')

theorem Mirrors.keepsRecords (hs : Mirrors R s s') {t : StorageTask}
    (hk : KeepsRecords (env.transforming T) s t) : KeepsRecords (env.transforming T') s' t := by
  obtain ⟨d, hd, rfl⟩ := hs
  intro hw hc ht
  have hkeys := hd.disk t.key
  rw [hk hw (hd.ctx_eq_none.mp hc) ht] at hkeys
  exact AList.ext (List.forall₂_nil_left_iff.mp hkeys)

theorem keepsRecords_mirrored : ∀ (ts : List StorageTask) {s s' : Storage h},
    Mirrors (ReadAlike T T') s s' → (s.Logged fun m => WrittenAlike T T' m.id m.data) →
    (∀ t ∈ ts, t.what = .messageSet → WrittenAlike T T' t.id t.data) →
    Along (handleMessage (env.transforming T)) (KeepsRecords (env.transforming T)) s ts →
    Along (handleMessage (env.transforming T')) (KeepsRecords (env.transforming T')) s' ts
  | [], _, _, _, _, _, _ => trivial
  | t :: ts, _, _, hs, hlog, hts, hk =>
    ⟨hs.keepsRecords hk.1, keepsRecords_mirrored ts
      (mirrors_handleMessage hs hlog (hts t List.mem_cons_self))
      (logged_handleMessage hlog (hts t List.mem_cons_self))
      (fun t' ht' => hts t' (List.mem_cons_of_mem t ht')) hk.2⟩

/-- **Two storages on disks with the same keys**, whose records are read alike. -/
theorem mirrors_run_init {disk disk' : Bytes → Records}
    (hdisk : ∀ f, SameKeys (ReadAlike T T') (disk f) (disk' f)) {ts : List StorageTask}
    (hts : ∀ t ∈ ts, t.what = .messageSet → WrittenAlike T T' t.id t.data) :
    Mirrors (ReadAlike T T') (run (env.transforming T) (catalinaStorageInit h disk) ts)
      (run (env.transforming T') (catalinaStorageInit h disk') ts) := by
  refine mirrors_run ts ⟨{ disk := disk' }, ⟨hdisk, Option.Rel.none⟩, rfl⟩ ?_ hts
  exact fun _ hp => absurd hp List.not_mem_nil

end Mirrors

/-! ## A storage without a transform -/

section Transparent

variable {T : ℕ → Option Transform}

/-- Every get reads the record `r` as the data `x`. -/
def ReadAs (T : ℕ → Option Transform) (r x : Bytes) : Prop := ∀ i, transformRead (T i) r = .ok x

/-- The task `i` can write the data `x`, and every get reads them back. -/
def GivenBack (T : ℕ → Option Transform) (i : ℕ) (x : Bytes) : Prop :=
  ∃ r, transformWrite (T i) x = .ok r ∧ ReadAs T r x

theorem GivenBack.writtenAlike {i : ℕ} {x : Bytes} (hx : GivenBack T i x) :
    WrittenAlike T (fun _ => none) i x := by
  obtain ⟨r, hr, hread⟩ := hx
  exact Or.inr ⟨r, x, hr, rfl, hread⟩

theorem givenBack_zlib {z : Zlib} {o : ℕ → ByteOrder} {fuel : ℕ → ℕ} {t : ℕ → CatalinaZlibTransform}
    (hT : ∀ i, T i = some (zlibTransform z (o i) (fuel i) (t i))) {x : Bytes} (hx : x ≠ [])
    (hlen : x.length < 2 ^ 32) {i : ℕ} {y : Bytes} (hz : z.RoundTrips (t i).gintLevel x y)
    (hy : y.length + 5 < 2 ^ 32) (hfuel : Raw (t i) x ∨ y.length / chunk < fuel i) :
    GivenBack T i x := by
  refine ⟨encoded (t i) x y, ?_, fun j => ?_⟩
  · rw [hT i]
    unfold transformWrite zlibTransform
    dsimp only
    rw [zlibTransformRealWrite_eq (o i) (fuel i) hz hlen hy, if_pos hfuel]
    rfl
  · rw [hT j, transformRead_zlib (t j) hz hlen hy, if_neg hx]

/-- Set some data and get them. -/
def setAndGet (i j : ℕ) (x : Bytes) : List StorageTask :=
  [openTask 0 [47], setTask i 0 [1] x, getTask j [1]]

/-- The answers of a `tdb` that never fails, with the transforms `T`. -/
def transformed (T : ℕ → Option Transform) : Env := Env.transforming (fun _ => {}) T

/-- The storage after the first of these messages. -/
def openedOn (h : Host) (disk : Bytes → Records) : Storage h :=
  storageTaskSucceed { tdb := { disk := disk, ctx := some { file := [47] } } } (openTask 0 [47])

variable {disk disk' : Bytes → Records} {i j : ℕ} {x r : Bytes} {e : GError}

theorem run_setAndGet (T : ℕ → Option Transform) (disk : Bytes → Records) (i j : ℕ) (x : Bytes) :
    run (transformed T) (catalinaStorageInit h disk) (setAndGet i j x) =
      handleGet (transformed T) (handleSet (transformed T) (openedOn h disk) (setTask i 0 [1] x))
        (getTask j [1]) := by
  have hopen : handleMessage (transformed T) (catalinaStorageInit h disk) (openTask 0 [47]) =
      openedOn h disk := rfl
  have hset : handleMessage (transformed T) (openedOn h disk) (setTask i 0 [1] x) =
      handleSet (transformed T) (openedOn h disk) (setTask i 0 [1] x) := handleMessage_set _ rfl rfl
  have hrun : (handleSet (transformed T) (openedOn h disk) (setTask i 0 [1] x)).stopped = false :=
    (frame_handleSet _ _ _).stopped
  unfold run setAndGet
  rw [List.foldl_cons, hopen, List.foldl_cons, hset]
  exact handleMessage_eq (transformed T) hrun (getTask j [1])

theorem setOutcome_setTask (T : ℕ → Option Transform) (i : ℕ) (x : Bytes) :
    setOutcome (transformed T) (setTask i 0 [1] x) = transformWrite (T i) x := by
  unfold setOutcome transformed Env.transforming setTask
  dsimp only
  cases transformWrite (T i) x <;> rfl

theorem replies_of_unwritten (hw : transformWrite (T i) x = .error e) :
    [{ openTask 0 [47] with success := true },
        { (setTask i 0 [1] x).setError e with success := false }] <+:
      (run (transformed T) (catalinaStorageInit h disk) (setAndGet i j x)).replies := by
  have hset : handleSet (transformed T) (openedOn h disk) (setTask i 0 [1] x) =
      storageTaskFail (openedOn h disk) ((setTask i 0 [1] x).setError e) :=
    handleSet_failed (Option.some_ne_none _) rfl ((setOutcome_setTask T i x).trans hw)
  have hpre : (handleSet (transformed T) (openedOn h disk) (setTask i 0 [1] x)).replies <+:
      (handleMessage (transformed T) (handleSet (transformed T) (openedOn h disk) (setTask i 0 [1] x))
        (getTask j [1])).replies := prefix_handleMessage _ _
  rw [handleMessage_eq _ (frame_handleSet _ _ _).stopped, hset, replies_fail] at hpre
  rw [run_setAndGet, hset]
  exact hpre

theorem replies_of_written (hw : transformWrite (T i) x = .ok r) :
    (run (transformed T) (catalinaStorageInit h disk) (setAndGet i j x)).replies =
      [{ openTask 0 [47] with success := true }, { setTask i 0 [1] x with success := true },
        match transformRead (T j) r with
        | .error e => { (getTask j [1]).setError e with success := false }
        | .ok data => { getTask j [1] with data := data, success := true }] := by
  have hset : handleSet (transformed T) (openedOn h disk) (setTask i 0 [1] x) =
      storageTaskSucceed { openedOn h disk with tdb := (openedOn h disk).tdb.store [1] r }
        (setTask i 0 [1] x) :=
    handleSet_stored (Option.some_ne_none _) rfl ((setOutcome_setTask T i x).trans hw)
  have hfetch : (storageTaskSucceed
      { openedOn h disk with tdb := (openedOn h disk).tdb.store [1] r }
      (setTask i 0 [1] x)).tdb.fetch (getTask j [1]).key = some r := by
    rw [Tdb.fetch_eq (f := [47]) rfl]
    exact AList.lookup_insert _
  rw [run_setAndGet, hset]
  unfold handleGet
  rw [if_neg (by exact Bool.false_ne_true), hfetch]
  dsimp only [transformed, Env.transforming, getTask]
  cases transformRead (T j) r with
  | error e => exact replies_fail _ _
  | ok data => rfl

/-- **Where a set and a get answer as without a transform**, the get has read the data. -/
theorem read_of_setAndGet
    (heq : (run (transformed T) (catalinaStorageInit h disk) (setAndGet i j x)).replies =
      (run (transformed fun _ => none) (catalinaStorageInit h disk') (setAndGet i j x)).replies) :
    ∃ r, transformWrite (T i) x = .ok r ∧ transformRead (T j) r = .ok x := by
  rw [replies_of_written (T := fun _ => none) (x := x) rfl] at heq
  cases hw : transformWrite (T i) x with
  | error e =>
    obtain ⟨l, hl⟩ := heq ▸ replies_of_unwritten hw
    injection hl with _ hl
    injection hl with hl _
    cases congrArg StorageTask.success hl
  | ok r =>
    rw [replies_of_written hw] at heq
    injection heq with _ heq
    injection heq with _ heq
    injection heq with heq _
    refine ⟨r, rfl, ?_⟩
    cases hr : transformRead (T j) r with
    | error e =>
      rw [hr] at heq
      cases congrArg StorageTask.success heq
    | ok data =>
      rw [hr] at heq
      exact congrArg Except.ok (congrArg StorageTask.data heq)

theorem mirrors_plain (env : Env) (hdisk : ∀ f, SameKeys (ReadAs T) (disk f) (disk' f))
    {ts : List StorageTask}
    (hdata : ∀ t ∈ ts, t.what = .messageSet → GivenBack T t.id t.data) :
    Mirrors (ReadAs T) (run (env.transforming T) (catalinaStorageInit h disk) ts)
      (run (env.transforming fun _ => none) (catalinaStorageInit h disk') ts) := by
  have hdisk' : ∀ f, SameKeys (ReadAlike T fun _ => none) (disk f) (disk' f) := hdisk
  exact mirrors_run_init hdisk' fun t ht hw => (hdata t ht hw).writtenAlike

/-- The sets of a run carry data that meet `D`. -/
def Sets (D : Bytes → Prop) (ts : List StorageTask) : Prop :=
  ∀ t ∈ ts, t.what = .messageSet → D t.data

/-- **A transform cannot be seen exactly if it gives back the data**: over every run that sets data of
`D`, whatever `tdb` answers, the replies are those of a storage without a transform. -/
theorem transparent_iff (h : Host) {D : Bytes → Prop}
    (hdisk : ∀ f, SameKeys (ReadAs T) (disk f) (disk' f)) :
    (∀ (env : Env) (ts : List StorageTask), Sets D ts →
      (run (env.transforming T) (catalinaStorageInit h disk) ts).replies =
        (run (env.transforming fun _ => none) (catalinaStorageInit h disk') ts).replies) ↔
      ∀ x, D x → ∀ i, GivenBack T i x := by
  constructor
  · intro heq x hx i
    have hsets : ∀ j, Sets D (setAndGet i j x) := by
      rintro j t ht hw
      rcases List.mem_cons.mp ht with rfl | ht
      · cases hw
      rcases List.mem_cons.mp ht with rfl | ht
      · exact hx
      · obtain rfl := List.mem_singleton.mp ht
        cases hw
    have hread : ∀ j, ∃ r, transformWrite (T i) x = .ok r ∧ transformRead (T j) r = .ok x :=
      fun j => read_of_setAndGet (heq (fun _ => {}) (setAndGet i j x) (hsets j))
    obtain ⟨r, hr, _⟩ := hread 0
    refine ⟨r, hr, fun j => ?_⟩
    obtain ⟨r', hr', hx'⟩ := hread j
    obtain rfl : r = r' := Except.ok.inj (hr.symm.trans hr')
    exact hx'
  · intro hD env ts hts
    obtain ⟨d, _, hd⟩ := mirrors_plain (h := h) env hdisk
      fun t ht hw => hD t.data (hts t ht hw) t.id
    rw [hd]

/-- A process that compresses everything. -/
def zeroWatermark : ℕ → Option Transform :=
  fun _ => some (zlibTransform storedZlib .little 1 { watermark := 0, level := 0 })

theorem givenBack_zeroWatermark (i : ℕ) {x : Bytes} (hx : x ≠ []) (hlen : x.length ≤ 100) :
    GivenBack zeroWatermark i x := by
  have hy : (storedStream x).length ≤ 200 := by
    simp [storedStream, leBytes, beBytes]
    omega
  refine givenBack_zlib (fun _ => rfl) hx (by omega) (storedZlib_roundTrips 0 x) (by omega)
    (Or.inr ?_)
  unfold chunk
  omega

theorem transparent_iff_zeroWatermark :
    (run (Env.transforming (fun _ => {}) zeroWatermark) (catalinaStorageInit lp64 fun _ => ∅)
      mixedRun).replies =
        (run (Env.transforming (fun _ => {}) fun _ => none) (catalinaStorageInit lp64 fun _ => ∅)
          mixedRun).replies := by
  have hdata : ∀ x : Bytes, x ≠ [] ∧ x.length ≤ 100 → ∀ i, GivenBack zeroWatermark i x :=
    fun x hx i => givenBack_zeroWatermark i hx.1 hx.2
  have hsets : Sets (fun x => x ≠ [] ∧ x.length ≤ 100) mixedRun := by
    unfold Sets
    decide
  exact (transparent_iff lp64 fun _ => sameKeys_empty).mpr hdata _ mixedRun hsets

/-- What the outside sees of the storage is what it sees of the serial machine, and the records of
every file are read as the machine's. -/
structure Represents (T : ℕ → Option Transform) (s : Storage h) (a : Serial) : Prop where
  file : s.tdb.file = a.opened
  records : ∀ f k, Option.Rel (ReadAs T) ((s.tdb.view f).lookup k) (a.maps f k)
  replies : s.replies.map (fun r => r.answer r.success) = a.replies

/-- **A storage with a transform that gives back the data refines the serial transactional map**, if no
open empties a file with records. -/
theorem transformed_refines_serial {env : Env} (he : Succeeds env)
    (hdisk : ∀ f, SameKeys (ReadAs T) (disk f) (disk' f)) (ts : List StorageTask)
    (hdata : ∀ t ∈ ts, t.what = .messageSet → GivenBack T t.id t.data)
    (hkeep : Along (handleMessage (env.transforming T)) (KeepsRecords (env.transforming T))
      (catalinaStorageInit h disk) ts)
    (hids : ∀ t ∈ ts, t.txnId < 2 ^ 32) (hbegins : begins ts < 2 ^ 32)
    (hissued : ∀ r ∈ (run (env.transforming T) (catalinaStorageInit h disk) ts).replies,
      r.txnId < 2 ^ 32)
    (hok : NoFailedCommit (run (env.transforming T) (catalinaStorageInit h disk) ts)) :
    Represents T (run (env.transforming T) (catalinaStorageInit h disk) ts)
      ((Serial.init disk').run ts) := by
  have hplain : env.transforming (fun _ => none) = env := by
    funext i
    obtain ⟨hT, _⟩ := he i
    rw [Env.transforming, ← hT]
  obtain ⟨d, hd, hrun⟩ := mirrors_plain (h := h) env hdisk hdata
  have hdisk' : ∀ f, SameKeys (ReadAlike T fun _ => none) (disk f) (disk' f) := hdisk
  have hkeep' := keepsRecords_mirrored ts ⟨{ disk := disk' }, ⟨hdisk', Option.Rel.none⟩, rfl⟩
    (fun _ hp => absurd hp List.not_mem_nil) (fun t ht hw => (hdata t ht hw).writtenAlike) hkeep
  rw [hplain] at hrun hkeep'
  have hagrees : Agrees (run env (catalinaStorageInit h disk') ts) ((Serial.init disk').run ts) := by
    refine (sim_run he ts (inv_init disk') (sim_init disk') hkeep' hids ?_ ?_ ?_).agrees
    · rw [hrun]
      exact hissued
    · simpa [Serial.init] using hbegins
    · rw [hrun]
      exact hok
  rw [hrun] at hagrees
  refine ⟨hd.file.symm.trans hagrees.file, fun f k => ?_, hagrees.replies⟩
  rw [← hagrees.maps f k]
  exact (hd.view f).lookup k

end Transparent

end Catalina
