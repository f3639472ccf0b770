import Catalina.Storage.Calls

/-!
# Synchronous and asynchronous calls

* `Interchangeable`: both forms of a call do and tell the same, and a length of `-1` is that of a
  string with its NUL; `Alike`: what the arguments and the storage have to meet.
* `getResult`, `set_answers`: what the handlers answer; `duplicate_explicit`: lengths.
* `syncCall_refused`, `catalinaStorageSet_told`, `catalinaStorageGet_told`: what a synchronous call
  tells.
* **`interchangeable_iff`**: the calls are interchangeable exactly if they are alike.
* `empty_value_stored`: a value of length zero.
-/

namespace Catalina

variable {ω : Type} {h : Host}

/-! ## What is compared -/

/-- The number of bytes up to the first NUL, and this. -/
def explicitLength (p : Option Bytes) (length : ℤ) : ℤ :=
  match p with
  | none => length
  | some p => if length = -1 then (p.takeWhile (· ≠ 0)).length + 1 else length

/-- The call with explicit lengths. -/
def PlainCall.explicit : PlainCall ω → PlainCall ω
  | .set key keyLength value valueLength =>
    .set key (explicitLength key keyLength) value (explicitLength value valueLength)
  | .get key keyLength => .get key (explicitLength key keyLength)
  | .setValue key keyLength v => .setValue key (explicitLength key keyLength) v
  | .getValue key keyLength => .getValue key (explicitLength key keyLength)

/-- A pointer with length `-1` leads to a string that ends with a NUL. -/
def Terminated (p : Option Bytes) (length : ℤ) : Prop := length = -1 → ∀ bs ∈ p, 0 ∈ bs

def PlainCall.Terminated : PlainCall ω → Prop
  | .set key keyLength value valueLength =>
    Catalina.Terminated key keyLength ∧ Catalina.Terminated value valueLength
  | .get key keyLength => Catalina.Terminated key keyLength
  | .setValue key keyLength _ => Catalina.Terminated key keyLength
  | .getValue key keyLength => Catalina.Terminated key keyLength

/-- Both calls tell the same and leave the same storage, the one they found if they refuse, and the
lengths `-1` stand for those of the strings. -/
structure Interchangeable (env : Env) (heap : Heap) (s : Storage h)
    (formatter : Option (Formatter ω)) (useIdle : Bool) (call : PlainCall ω) : Prop where
  told : (syncCall env heap s formatter call).2 = (asyncCall env heap s formatter useIdle call).2
  defined : (syncCall env heap s formatter call).2 ≠ .undefined
  store : (syncCall env heap s formatter call).1.core =
    (asyncCall env heap s formatter useIdle call).1.core
  refused : (syncCall env heap s formatter call).2 = .refused →
    (syncCall env heap s formatter call).1.core = s.core
  explicit : call.Terminated →
    syncCall env heap s formatter call.explicit = syncCall env heap s formatter call ∧
      asyncCall env heap s formatter useIdle call.explicit =
        asyncCall env heap s formatter useIdle call

/-- A get of the key fails for another reason than the state of the storage. -/
def FailsOtherwise (env : Env) (s : Storage h) (key : Bytes) : Prop :=
  s.tdb.ctx ≠ none ∧ match s.tdb.fetch key with
    | none => True
    | some record => ∃ e, transformRead (env 1).transform record = .error e ∧ e.code ≠ .storageState

/-- What a call has to meet. A set: its key is refused, or its value is accepted by the checks of
the asynchronous call. A call that reads a value without a formatter: the get of an accepted key
does not fail otherwise. A call that stores a value: there is a formatter that does not fail, and if
the key is accepted it serializes the value to some bytes or ends the process. -/
def Alike (env : Env) (s : Storage h) (formatter : Option (Formatter ω)) : PlainCall ω → Prop
  | .set key keyLength value valueLength =>
    duplicate key keyLength = none ∨ duplicate value valueLength ≠ none
  | .get _ _ => True
  | .setValue key keyLength v =>
    ∃ f, formatter = some f ∧
      match f.serialize v with
      | .error _ => duplicate key keyLength ≠ none
      | .ok (.error _) => False
      | .ok (.ok buffer) => duplicate key keyLength = none ∨ buffer ≠ []
  | .getValue key keyLength =>
    formatter = none → ∀ bs ∈ duplicate key keyLength, ¬ FailsOtherwise env s bs

section Compare

variable {env : Env} {heap : Heap} {s s' : Storage h} {formatter : Option (Formatter ω)}
  {useIdle : Bool} {call : PlainCall ω}

/-! ## What the handlers answer -/

/-- What a get answers. -/
def getResult (env : Env) (s : Storage h) (i : ℕ) (key : Bytes) : Except GError Bytes :=
  if s.tdb.ctx.isNone then .error ⟨.storageState, "Storage is not currently open"⟩
  else
    match s.tdb.fetch key with
    | none => .error ⟨.storageNoSuchKey, (env i).tdbErrorstr⟩
    | some record => transformRead (env i).transform record

def getReply (i : ℕ) (key : Bytes) : Except GError Bytes → StorageTask
  | .error e => { getTask i key with error := some e, success := false }
  | .ok data => { getTask i key with data, success := true }

theorem handleMessage_getTask (hrun : s.stopped = false) (i : ℕ) (key : Bytes) :
    handleMessage env s (getTask i key) =
      { s with replies := s.replies ++ [getReply i key (getResult env s i key)] } := by
  refine (handleMessage_eq env hrun _).trans ?_
  change handleGet env s (getTask i key) = _
  unfold handleGet getResult
  split_ifs
  · rfl
  · change (match s.tdb.fetch key with | none => _ | some record => _) = _
    cases s.tdb.fetch key with
    | none => rfl
    | some record =>
      change (match transformRead (env i).transform record with | .error e => _ | .ok data => _) = _
      dsimp only
      cases transformRead (env i).transform record with
      | error e => rfl
      | ok data => rfl

theorem failsOtherwise_iff {key : Bytes} : FailsOtherwise env s key ↔
    ∃ e, getResult env s 1 key = .error e ∧ e.code ≠ .storageState := by
  unfold FailsOtherwise getResult
  by_cases hc : s.tdb.ctx = none
  · rw [if_pos (by rw [hc]; rfl)]
    constructor
    · exact fun hf => absurd hc hf.1
    · rintro ⟨e, he, hne⟩
      cases he
      exact absurd rfl hne
  · rw [if_neg (by simpa using hc)]
    cases s.tdb.fetch key with
    | none => exact ⟨fun _ => ⟨_, rfl, nofun⟩, fun _ => ⟨hc, trivial⟩⟩
    | some record => exact ⟨fun hf => hf.2, fun hf => ⟨hc, hf⟩⟩

theorem set_answers (hrun : s.stopped = false) (i : ℕ) (key data : Bytes) :
    ∃ rs, (handleMessage env s (setTask i 0 key data)).replies = s.replies ++ rs ∧
      (rs = [] ∨ ∃ r, rs = [r] ∧ r.id = i) := by
  rw [handleMessage_set env hrun (t := setTask i 0 key data) rfl]
  have h₁ := handleSet_step env s (setTask i 0 key data)
  generalize handleSet env s (setTask i 0 key data) = s' at h₁ ⊢
  cases h₁ with
  | closed e _ => exact ⟨_, replies_fail s _, Or.inr ⟨_, rfl, rfl⟩⟩
  | unknown e _ h₀ _ _ => exact absurd rfl h₀
  | queued x _ h₀ _ _ => exact absurd rfl h₀
  | dropped _ _ _ => exact ⟨[], (List.append_nil _).symm, Or.inl rfl⟩
  | failed e _ _ _ => exact ⟨_, replies_fail s _, Or.inr ⟨_, rfl, rfl⟩⟩
  | stored d _ _ _ => exact ⟨_, rfl, Or.inr ⟨_, rfl, rfl⟩⟩

theorem toldOf_proper (call : PlainCall ω) (rs : List StorageTask) :
    toldOf call rs ≠ .undefined ∧ toldOf call rs ≠ .refused := by
  unfold toldOf
  split
  · exact ⟨nofun, nofun⟩
  · split_ifs
    · cases call <;> exact ⟨nofun, nofun⟩
    · exact ⟨nofun, nofun⟩

theorem told_wait {α : Type} {i : ℕ} {rs : List StorageTask} {f : StorageTask → α} {g : α → Told}
    (hr : s'.replies = s.replies ++ rs) (hrs : rs = [] ∨ ∃ r, rs = [r] ∧ r.id = i)
    (hfg : ∀ r, g (f r) = call.outcome { data := r.data }) :
    (storageTaskWait s s' i f).told g = toldOf call rs := by
  rcases hrs with rfl | ⟨r, rfl, rfl⟩
  · rw [storageTaskWait_none (by rw [hr, List.append_nil])]
    rfl
  · rw [storageTaskWait_append hr, toldOf]
    split_ifs
    · exact hfg r
    · rfl

/-! ## Lengths -/

theorem duplicate_eq_none {p : Bytes} {length : ℤ} :
    duplicate (some p) length = none ↔ ¬ (length = -1 ∨ 0 < length) := by
  unfold duplicate
  dsimp only
  by_cases hl : length = -1 ∨ 0 < length
  · rw [if_pos hl]
    exact ⟨nofun, fun hn => absurd hl hn⟩
  · rw [if_neg hl]
    exact ⟨fun _ => hl, fun _ => rfl⟩

theorem duplicate_eq_some {p : Option Bytes} {length : ℤ} {k : Bytes} :
    duplicate p length = some k ↔
      ∃ q, p = some q ∧ (length = -1 ∨ 0 < length) ∧ sized q length = k := by
  unfold duplicate
  cases p with
  | none => exact ⟨nofun, nofun⟩
  | some q =>
    dsimp only
    split_ifs with hl
    · exact ⟨fun hk => ⟨q, rfl, hl, Option.some.inj hk⟩, fun ⟨q', hq, _, hk⟩ => by
        cases hq
        rw [hk]⟩
    · exact ⟨nofun, fun ⟨_, _, hl', _⟩ => absurd hl' hl⟩

theorem take_terminated : ∀ {p : Bytes}, 0 ∈ p →
    p.take ((p.takeWhile (· ≠ 0)).length + 1) = p.takeWhile (· ≠ 0) ++ [0]
  | [], hp => absurd hp List.not_mem_nil
  | b :: p, hp => by
    by_cases hb : b = 0
    · subst hb
      rfl
    · have hp' : 0 ∈ p := (List.mem_cons.mp hp).resolve_left fun h₀ => hb h₀.symm
      rw [List.takeWhile_cons_of_pos (by simpa using hb), List.length_cons, List.take_succ_cons,
        take_terminated hp', List.cons_append]

theorem sized_explicit {p : Bytes} {length : ℤ} (ht : Terminated (some p) length) :
    sized p (explicitLength (some p) length) = sized p length := by
  unfold explicitLength
  dsimp only
  split_ifs with hl
  · rw [sized, if_neg (by omega), sized, if_pos hl, ← take_terminated (ht hl p rfl)]
    congr 1
  · rfl

theorem accepted_explicit (p : Option Bytes) (length : ℤ) :
    (explicitLength p length = -1 ∨ 0 < explicitLength p length) ↔ (length = -1 ∨ 0 < length) := by
  unfold explicitLength
  cases p with
  | none => rfl
  | some p =>
    dsimp only
    split_ifs with hl
    · exact ⟨fun _ => Or.inl hl, fun _ => Or.inr (by omega)⟩
    · rfl

theorem duplicate_explicit {p : Option Bytes} {length : ℤ} (ht : Terminated p length) :
    duplicate p (explicitLength p length) = duplicate p length := by
  cases p with
  | none => rfl
  | some p =>
    unfold duplicate
    dsimp only
    rw [sized_explicit ht]
    exact if_congr (accepted_explicit (some p) length) rfl rfl

theorem readable_explicit (p : Option Bytes) (length : ℤ) :
    readable p (explicitLength p length) = readable p length := by
  unfold readable explicitLength
  cases p with
  | none => rfl
  | some p =>
    dsimp only
    split_ifs <;> first | rfl | omega

/-! ## What the synchronous calls tell -/

/-- The key that a call passes on. -/
def PlainCall.record : PlainCall ω → Option Bytes
  | .set key keyLength _ _ => duplicate key keyLength
  | .get key keyLength => duplicate key keyLength
  | .setValue key keyLength _ => duplicate key keyLength
  | .getValue key keyLength => duplicate key keyLength

theorem syncCall_refused (hn : call.record = none) :
    syncCall env heap s formatter call = (s, .refused) := by
  cases call with
  | set key keyLength value valueLength =>
    cases key with
    | none => rfl
    | some p =>
      have hneg := duplicate_eq_none.mp hn
      rw [syncCall, syncSet]
      cases readable value valueLength with
      | none => exact if_pos hneg
      | some v =>
        dsimp only
        rw [catalinaStorageSet, if_neg hneg]
        rfl
  | get key keyLength =>
    cases key with
    | none => rfl
    | some p =>
      rw [syncCall, catalinaStorageGet, if_neg (duplicate_eq_none.mp hn)]
      rfl
  | setValue key keyLength v =>
    cases key with
    | none => rfl
    | some p =>
      rw [syncCall]
      unfold catalinaStorageSetValue
      rw [if_neg (duplicate_eq_none.mp hn)]
      rfl
  | getValue key keyLength =>
    cases key with
    | none => rfl
    | some p => rw [syncCall, if_neg (duplicate_eq_none.mp hn)]

theorem catalinaStorageSet_told {p value : Bytes} {keyLength valueLength : ℤ} {i : ℕ}
    {rs : List StorageTask} (hl : keyLength = -1 ∨ 0 < keyLength)
    (hcall : ∀ r : StorageTask, Told.succeeded [] none = call.outcome { data := r.data })
    (hs : handleMessage env s (setTask i 0 (sized p keyLength) (sized value valueLength)) = s')
    (hr : s'.replies = s.replies ++ rs) (hrs : rs = [] ∨ ∃ r, rs = [r] ∧ r.id = i) :
    (catalinaStorageSet env s i 0 p keyLength value valueLength).1 = s' ∧
      (catalinaStorageSet env s i 0 p keyLength value valueLength).2.told
        (fun _ => .succeeded [] none) = toldOf call rs := by
  rw [catalinaStorageSet, if_pos hl]
  dsimp only
  rw [hs]
  exact ⟨rfl, told_wait hr hrs hcall⟩

theorem catalinaStorageGet_told (hrun : s.stopped = false) {p : Bytes} {keyLength : ℤ} (i : ℕ)
    (hl : keyLength = -1 ∨ 0 < keyLength) : catalinaStorageGet env s i p keyLength =
      ({ s with replies := s.replies ++
          [getReply i (sized p keyLength) (getResult env s i (sized p keyLength))] },
        match getResult env s i (sized p keyLength) with
        | .error e => .failed (some e)
        | .ok data => .succeeded data) := by
  rw [catalinaStorageGet, if_pos hl]
  dsimp only
  rw [handleMessage_getTask hrun]
  refine congrArg (Prod.mk _) ?_
  have hwait : ∀ x, storageTaskWait s { s with replies := s.replies ++
      [getReply i (sized p keyLength) x] } i StorageTask.data = match x with
        | .error e => .failed (some e)
        | .ok data => .succeeded data := fun x => by
    cases x with
    | error e => exact storageTaskWait_append (t := getReply i (sized p keyLength) (.error e)) rfl _
    | ok data => exact storageTaskWait_append (t := getReply i (sized p keyLength) (.ok data)) rfl _
  exact hwait _

/-! ## The comparison -/

theorem asyncCall_congr {call' : PlainCall ω}
    (hc : (idleClient s formatter useIdle).call call'.async =
      (idleClient s formatter useIdle).call call.async)
    (ho : call'.told = call.told) :
    asyncCall env heap s formatter useIdle call' = asyncCall env heap s formatter useIdle call := by
  unfold asyncCall
  rw [hc, ho]

theorem catalinaStorageSet_key {p : Bytes} {keyLength : ℤ} (hk : Terminated (some p) keyLength)
    (i : ℕ) (v : Bytes) (valueLength : ℤ) :
    catalinaStorageSet env s i 0 p (explicitLength (some p) keyLength) v valueLength =
      catalinaStorageSet env s i 0 p keyLength v valueLength := by
  simp only [catalinaStorageSet, accepted_explicit, sized_explicit hk]

theorem catalinaStorageSet_value {v : Bytes} {valueLength : ℤ}
    (hv : Terminated (some v) valueLength) (i : ℕ) (p : Bytes) (keyLength : ℤ) :
    catalinaStorageSet env s i 0 p keyLength v (explicitLength (some v) valueLength) =
      catalinaStorageSet env s i 0 p keyLength v valueLength := by
  simp only [catalinaStorageSet, sized_explicit hv]

theorem catalinaStorageGet_explicit {p : Bytes} {keyLength : ℤ} (i : ℕ)
    (hk : Terminated (some p) keyLength) :
    catalinaStorageGet env s i p (explicitLength (some p) keyLength) =
      catalinaStorageGet env s i p keyLength := by
  simp only [catalinaStorageGet, accepted_explicit, sized_explicit hk]

theorem syncSet_explicit {p : Bytes} {value : Option Bytes} {keyLength valueLength : ℤ}
    (hk : Terminated (some p) keyLength) (hv : Terminated value valueLength) :
    syncSet env s p (explicitLength (some p) keyLength) value (explicitLength value valueLength) =
      syncSet env s p keyLength value valueLength := by
  cases value with
  | none =>
    change syncSet env s p (explicitLength (some p) keyLength) none valueLength = _
    simp only [syncSet, accepted_explicit, catalinaStorageSet_key hk]
  | some v =>
    by_cases hl : valueLength < -1
    · have hsame : explicitLength (some v) valueLength = valueLength := if_neg (by omega)
      rw [hsame]
      simp only [syncSet, accepted_explicit, catalinaStorageSet_key hk]
    · have hread : readable (some v) valueLength = some v := if_neg hl
      simp only [syncSet, readable_explicit, hread, catalinaStorageSet_key hk,
        catalinaStorageSet_value hv]

theorem syncCall_explicit (ht : call.Terminated) :
    syncCall env heap s formatter call.explicit = syncCall env heap s formatter call := by
  cases call with
  | set key keyLength value valueLength =>
    cases key with
    | none => rfl
    | some p =>
      rw [PlainCall.explicit, syncCall, syncCall, syncSet_explicit ht.1 ht.2]
  | get key keyLength =>
    cases key with
    | none => rfl
    | some p =>
      rw [PlainCall.explicit, syncCall, syncCall, catalinaStorageGet_explicit 0 ht]
  | setValue key keyLength v =>
    cases key with
    | none => rfl
    | some p =>
      rw [PlainCall.explicit, syncCall, syncCall]
      unfold catalinaStorageSetValue
      simp only [accepted_explicit, catalinaStorageSet_key ht]
  | getValue key keyLength =>
    cases key with
    | none => rfl
    | some p =>
      rw [PlainCall.explicit, syncCall, syncCall]
      unfold catalinaStorageGetValue
      simp only [accepted_explicit, catalinaStorageGet_explicit 1 ht]

theorem asyncCall_explicit (ht : call.Terminated) :
    asyncCall env heap s formatter useIdle call.explicit =
      asyncCall env heap s formatter useIdle call := by
  cases call with
  | set key keyLength value valueLength =>
    refine asyncCall_congr ?_ rfl
    change AsyncStorage.setAsync _ _ _ _ _ _ _ = AsyncStorage.setAsync _ _ _ _ _ _ _
    unfold AsyncStorage.setAsync
    rw [duplicate_explicit ht.1, duplicate_explicit ht.2]
  | get key keyLength =>
    refine asyncCall_congr ?_ rfl
    change AsyncStorage.getAsync _ _ _ _ = AsyncStorage.getAsync _ _ _ _
    unfold AsyncStorage.getAsync
    rw [duplicate_explicit ht]
  | setValue key keyLength v =>
    refine asyncCall_congr ?_ rfl
    change AsyncStorage.setValueAsync _ _ _ _ _ = AsyncStorage.setValueAsync _ _ _ _ _
    unfold AsyncStorage.setValueAsync AsyncStorage.setAsync
    rw [duplicate_explicit ht]
  | getValue key keyLength =>
    refine asyncCall_congr ?_ rfl
    change AsyncStorage.getValueAsync _ _ _ = AsyncStorage.getValueAsync _ _ _
    unfold AsyncStorage.getValueAsync AsyncStorage.getAsync
    rw [duplicate_explicit ht]

theorem interchangeable_of_eq
    (heq : syncCall env heap s formatter call = asyncCall env heap s formatter useIdle call)
    (hdef : (syncCall env heap s formatter call).2 ≠ .undefined)
    (href : (syncCall env heap s formatter call).2 = .refused →
      (syncCall env heap s formatter call).1.core = s.core) :
    Interchangeable env heap s formatter useIdle call :=
  ⟨congrArg Prod.snd heq, hdef, congrArg (fun p => p.1.core) heq, href,
    fun ht => ⟨syncCall_explicit ht, asyncCall_explicit ht⟩⟩

theorem interchangeable_refused (hsync : syncCall env heap s formatter call = (s, .refused))
    (hasync : asyncCall env heap s formatter useIdle call = (s, .refused)) :
    Interchangeable env heap s formatter useIdle call :=
  interchangeable_of_eq (hsync.trans hasync.symm) (by rw [hsync]; exact nofun)
    fun _ => by rw [hsync]

theorem not_interchangeable {a b : Told}
    (hsync : (syncCall env heap s formatter call).2 = a)
    (hasync : (asyncCall env heap s formatter useIdle call).2 = b) (hne : a ≠ b) :
    ¬ Interchangeable env heap s formatter useIdle call :=
  fun hi => hne (hsync.symm.trans (hi.told.trans hasync))

theorem wait_not_refused {α : Type} {i : ℕ} {f : StorageTask → α} {g : α → Told}
    (hg : ∀ a, g a ≠ .refused) : (storageTaskWait s s' i f).told g ≠ .refused := by
  unfold storageTaskWait
  split
  · exact nofun
  · split_ifs
    · exact hg _
    · exact nofun

theorem catalinaStorageSet_not_refused {p : Bytes} {keyLength : ℤ}
    (hl : keyLength = -1 ∨ 0 < keyLength) (i : ℕ) (v : Bytes) (valueLength : ℤ) :
    (catalinaStorageSet env s i 0 p keyLength v valueLength).2.told (fun _ => .succeeded [] none) ≠
      .refused := by
  rw [catalinaStorageSet, if_pos hl]
  exact wait_not_refused fun _ => nofun

theorem syncSet_not_refused {p : Bytes} {keyLength : ℤ} (hl : keyLength = -1 ∨ 0 < keyLength)
    (value : Option Bytes) (valueLength : ℤ) :
    (syncSet env s p keyLength value valueLength).2 ≠ .refused := by
  unfold syncSet
  cases readable value valueLength with
  | some v => exact catalinaStorageSet_not_refused hl 0 v valueLength
  | none =>
    dsimp only
    rw [if_neg (not_not.mpr hl)]
    split_ifs
    · exact nofun
    · exact catalinaStorageSet_not_refused hl 0 [] 0

theorem interchangeable_answered {rs : List StorageTask}
    (hsync : syncCall env heap s formatter call = (s', toldOf call rs))
    (hasync : asyncCall env heap s formatter useIdle call = (s', toldOf call rs)) :
    Interchangeable env heap s formatter useIdle call := by
  refine interchangeable_of_eq (hsync.trans hasync.symm) ?_ fun href => ?_
  · rw [hsync]
    exact (toldOf_proper call rs).1
  · rw [hsync] at href
    exact absurd href (toldOf_proper call rs).2

theorem set_iff (hrun : s.stopped = false) {key value : Option Bytes} {keyLength valueLength : ℤ} :
    Interchangeable env heap s formatter useIdle (.set key keyLength value valueLength) ↔
      Alike env s formatter (.set key keyLength value valueLength) := by
  rw [Alike]
  cases hk : duplicate key keyLength with
  | none =>
    refine iff_of_true ?_ (Or.inl rfl)
    exact interchangeable_refused (syncCall_refused hk) (asyncCall_set_refused (Or.inl hk))
  | some k =>
    obtain ⟨p, rfl, hl, hsize⟩ := duplicate_eq_some.mp hk
    cases hv : duplicate value valueLength with
    | none =>
      refine iff_of_false (not_interchangeable rfl (congrArg Prod.snd
        (asyncCall_set_refused (Or.inr hv))) (syncSet_not_refused hl value valueLength)) ?_
      exact fun hor => hor.elim nofun fun hne => hne rfl
    | some v =>
      obtain ⟨q, rfl, hl', rfl⟩ := duplicate_eq_some.mp hv
      refine iff_of_true ?_ (Or.inr (Option.some_ne_none _))
      obtain ⟨rs, hr, hrs⟩ := @set_answers h env s hrun 0 k (sized q valueLength)
      subst hsize
      have hread : readable (some q) valueLength = some q := if_neg (by omega)
      have hset : (catalinaStorageSet env s 0 0 p keyLength q valueLength).1 = _ ∧ _ =
          toldOf (PlainCall.set (some p) keyLength (some q) valueLength : PlainCall ω) rs :=
        catalinaStorageSet_told hl (fun _ => rfl) rfl hr hrs
      have hc : (idleClient s formatter useIdle).call
          (PlainCall.set (some p) keyLength (some q) valueLength : PlainCall ω).async =
            (idleClient s formatter useIdle).post .client
              (setTask · 0 (sized p keyLength) (sized q valueLength)) := by
        change AsyncStorage.setAsync _ _ _ _ _ _ _ = _
        unfold AsyncStorage.setAsync
        rw [hk, hv]
      refine interchangeable_answered ?_
        (asyncCall_client hc hrun (running_handleMessage hrun fun ho => What.noConfusion ho) rfl hr hrs)
      rw [syncCall, syncSet, hread]
      exact Prod.ext hset.1 hset.2

theorem get_iff (hrun : s.stopped = false) {key : Option Bytes} {keyLength : ℤ} :
    Interchangeable env heap s formatter useIdle (.get key keyLength) ↔
      Alike env s formatter (.get key keyLength) := by
  refine iff_of_true ?_ trivial
  cases hk : duplicate key keyLength with
  | none => exact interchangeable_refused (syncCall_refused hk) (asyncCall_get_refused hk)
  | some k =>
    obtain ⟨p, rfl, hl, rfl⟩ := duplicate_eq_some.mp hk
    have hc : (idleClient s formatter useIdle).call
        (PlainCall.get (some p) keyLength : PlainCall ω).async =
          (idleClient s formatter useIdle).post .client (getTask · (sized p keyLength)) := by
      change AsyncStorage.getAsync _ _ _ _ = _
      unfold AsyncStorage.getAsync
      rw [hk]
    have hs : handleMessage env s (getTask 0 (sized p keyLength)) = _ :=
      handleMessage_getTask hrun 0 _
    have hrun' : ({ s with replies := s.replies ++ [getReply 0 (sized p keyLength)
        (getResult env s 0 (sized p keyLength))] } : Storage h).stopped = false := hrun
    have hid : (getReply 0 (sized p keyLength) (getResult env s 0 (sized p keyLength))).id = 0 := by
      cases getResult env s 0 (sized p keyLength) <;> rfl
    refine interchangeable_answered ?_ (asyncCall_client hc hrun hrun' hs rfl (Or.inr ⟨_, rfl, hid⟩))
    rw [syncCall, catalinaStorageGet_told hrun 0 hl]
    cases getResult env s 0 (sized p keyLength) <;> rfl

theorem not_interchangeable_of_undefined
    (ha : (asyncCall env heap s formatter useIdle call).2 = .undefined) :
    ¬ Interchangeable env heap s formatter useIdle call := fun hi => hi.defined (hi.told.trans ha)

theorem syncCall_setValue {f : Formatter ω} {v : GValue ω} {p buffer : Bytes} {keyLength : ℤ}
    (hl : keyLength = -1 ∨ 0 < keyLength) (hser : f.serialize v = .ok (.ok buffer)) :
    syncCall env heap s (some f) (.setValue (some p) keyLength v) =
      (catalinaStorageSet env s 1 0 p keyLength buffer buffer.length).map id
        (CallResult.told fun _ => .succeeded [] none) := by
  rw [syncCall]
  unfold catalinaStorageSetValue
  rw [if_pos hl]
  dsimp only
  rw [hser]
  rfl

theorem syncCall_setValue_stopped {f : Formatter ω} {v : GValue ω} {p : Bytes} {keyLength : ℤ}
    {stop : Stop} (hl : keyLength = -1 ∨ 0 < keyLength) (hser : f.serialize v = .error stop) :
    syncCall env heap s (some f) (.setValue (some p) keyLength v) = (s, .stopped stop) := by
  rw [syncCall]
  unfold catalinaStorageSetValue
  rw [if_pos hl]
  dsimp only
  rw [hser]
  rfl

/-- A value whose serialization ends the process. The asynchronous call serializes it first. -/
theorem setValue_stopped_iff {f : Formatter ω} {key : Option Bytes} {keyLength : ℤ} {v : GValue ω}
    {stop : Stop} (hser : f.serialize v = .error stop) :
    Interchangeable env heap s (some f) useIdle (.setValue key keyLength v) ↔
      duplicate key keyLength ≠ none := by
  have hasync : asyncCall env heap s (some f) useIdle (.setValue key keyLength v) = _ :=
    asyncCall_setValue_stopped hser
  cases hk : duplicate key keyLength with
  | none =>
    refine iff_of_false (not_interchangeable (congrArg Prod.snd (syncCall_refused hk))
      (congrArg Prod.snd hasync) nofun) (not_not.mpr rfl)
  | some k =>
    obtain ⟨p, rfl, hl, rfl⟩ := duplicate_eq_some.mp hk
    have hsync : syncCall env heap s (some f) (.setValue (some p) keyLength v) = _ :=
      syncCall_setValue_stopped hl hser
    refine iff_of_true (interchangeable_of_eq (hsync.trans hasync.symm) ?_ ?_)
      (Option.some_ne_none _)
    · rw [hsync]
      exact nofun
    · rw [hsync]
      exact nofun

/-- A value that is serialized. The asynchronous call refuses an empty buffer. -/
theorem setValue_serialized_iff (hrun : s.stopped = false) {f : Formatter ω} {key : Option Bytes}
    {keyLength : ℤ} {v : GValue ω} {buffer : Bytes} (hser : f.serialize v = .ok (.ok buffer)) :
    Interchangeable env heap s (some f) useIdle (.setValue key keyLength v) ↔
      duplicate key keyLength = none ∨ buffer ≠ [] := by
  cases hk : duplicate key keyLength with
  | none =>
    refine iff_of_true ?_ (Or.inl rfl)
    exact interchangeable_refused (syncCall_refused hk)
      (asyncCall_setValue_refused hser (Or.inl hk))
  | some k =>
    obtain ⟨p, rfl, hl, hsize⟩ := duplicate_eq_some.mp hk
    by_cases hne : buffer = []
    · refine iff_of_false (not_interchangeable rfl (congrArg Prod.snd
        (asyncCall_setValue_refused hser (Or.inr hne))) ?_) ?_
      · rw [syncCall_setValue hl hser]
        exact catalinaStorageSet_not_refused hl 1 buffer buffer.length
      · exact fun hor => hor.elim nofun fun hne' => hne' hne
    · refine iff_of_true ?_ (Or.inr hne)
      obtain ⟨rs, hr, hrs⟩ := @set_answers h env s hrun 1 k buffer
      refine interchangeable_answered ?_
        (asyncCall_setValue hser hne hk hrun (running_handleMessage hrun fun ho => What.noConfusion ho)
          rfl hr hrs)
      subst hsize
      have hset : (catalinaStorageSet env s 1 0 p keyLength buffer buffer.length).1 = _ ∧ _ =
          toldOf (PlainCall.setValue (some p) keyLength v) rs :=
        catalinaStorageSet_told hl (fun _ => rfl) (by rw [sized_buffer]) hr hrs
      rw [syncCall_setValue hl hser]
      exact Prod.ext hset.1 hset.2

theorem setValue_some_iff (hrun : s.stopped = false) {f : Formatter ω} {key : Option Bytes}
    {keyLength : ℤ} {v : GValue ω} :
    Interchangeable env heap s (some f) useIdle (.setValue key keyLength v) ↔
      match f.serialize v with
      | .error _ => duplicate key keyLength ≠ none
      | .ok (.error _) => False
      | .ok (.ok buffer) => duplicate key keyLength = none ∨ buffer ≠ [] := by
  cases hser : f.serialize v with
  | error stop => exact setValue_stopped_iff hser
  | ok x =>
    cases x with
    | error e =>
      refine iff_of_false (not_interchangeable_of_undefined (asyncCall_setValue_undefined hrun ?_))
        not_false
      rintro f' hf'
      obtain rfl := Option.some.inj hf'
      exact ⟨e, hser⟩
    | ok buffer => exact setValue_serialized_iff hrun hser

theorem setValue_iff (hrun : s.stopped = false) {key : Option Bytes} {keyLength : ℤ} {v : GValue ω} :
    Interchangeable env heap s formatter useIdle (.setValue key keyLength v) ↔
      Alike env s formatter (.setValue key keyLength v) := by
  rw [Alike]
  cases formatter with
  | none =>
    refine iff_of_false (not_interchangeable_of_undefined (asyncCall_setValue_undefined hrun nofun)) ?_
    exact nofun
  | some f =>
    rw [setValue_some_iff hrun]
    exact ⟨fun hm => ⟨f, rfl, hm⟩, fun ⟨f', hf', hm⟩ => by
      obtain rfl := Option.some.inj hf'
      exact hm⟩

/-- What a client that asks for a value is told, given what the get answers. -/
def toldValue (heap : Heap) (formatter : Option (Formatter ω)) : Except GError Bytes → Told
  | .error e => .failed (some e.code)
  | .ok data =>
    match formatter with
    | none => .failed (some .storageState)
    | some f =>
      match f.deserialize (heap.block data) data.length with
      | .error stop => .stopped stop
      | .ok r => r.told

theorem toldValue_defined (x : Except GError Bytes) : toldValue heap formatter x ≠ .undefined := by
  unfold toldValue
  split
  · exact nofun
  · split
    · exact nofun
    · split
      · exact nofun
      · unfold ReadResult.told
        split_ifs <;> exact nofun

theorem asyncCall_getValue_told (hrun : s.stopped = false) {k : Bytes} {key : Option Bytes}
    {keyLength : ℤ} (hk : duplicate key keyLength = some k) :
    asyncCall env heap s formatter useIdle (.getValue key keyLength) =
      ({ s with replies := s.replies ++ [getReply 1 k (getResult env s 1 k)] },
        toldValue heap formatter (getResult env s 1 k)) := by
  have hid : (getReply 1 k (getResult env s 1 k)).id = 1 := by
    cases getResult env s 1 k <;> rfl
  have hrun' : ({ s with replies := s.replies ++ [getReply 1 k (getResult env s 1 k)] } :
    Storage h).stopped = false := hrun
  rw [asyncCall_getValue hk hrun hrun' (handleMessage_getTask hrun 1 k) rfl hid]
  refine congrArg (Prod.mk _) ?_
  cases getResult env s 1 k with
  | error e => rfl
  | ok data =>
    cases formatter with
    | none => rfl
    | some f =>
      change (match f.deserialize (heap.block data) data.length with | .error _ => _ | .ok _ => _) =
        match f.deserialize (heap.block data) data.length with | .error _ => _ | .ok _ => _
      cases f.deserialize (heap.block data) data.length <;> rfl

theorem syncCall_getValue (hrun : s.stopped = false) {f : Formatter ω} {p : Bytes} {keyLength : ℤ}
    (hl : keyLength = -1 ∨ 0 < keyLength) :
    syncCall env heap s (some f) (.getValue (some p) keyLength) =
      ({ s with replies := s.replies ++
          [getReply 1 (sized p keyLength) (getResult env s 1 (sized p keyLength))] },
        toldValue heap (some f) (getResult env s 1 (sized p keyLength))) := by
  rw [syncCall, if_pos hl, catalinaStorageGetValue, if_pos hl]
  dsimp only
  rw [catalinaStorageGet_told hrun 1 hl]
  dsimp only
  cases getResult env s 1 (sized p keyLength) with
  | error e => rfl
  | ok data =>
    dsimp only [toldValue]
    cases f.deserialize (heap.block data) data.length <;> rfl

theorem syncCall_getValue_unformatted {p : Bytes} {keyLength : ℤ}
    (hl : keyLength = -1 ∨ 0 < keyLength) :
    syncCall env heap s (none : Option (Formatter ω)) (.getValue (some p) keyLength) =
      (s, .failed (some .storageState)) := by
  rw [syncCall, if_pos hl, catalinaStorageGetValue, if_pos hl]
  rfl

theorem toldValue_unformatted_iff {k : Bytes} :
    toldValue heap (none : Option (Formatter ω)) (getResult env s 1 k) =
      .failed (some .storageState) ↔ ¬ FailsOtherwise env s k := by
  rw [failsOtherwise_iff]
  cases getResult env s 1 k with
  | ok data =>
    refine iff_of_true rfl ?_
    rintro ⟨e, he, _⟩
    cases he
  | error e =>
    constructor
    · rintro htold ⟨e', he, hne⟩
      obtain rfl := Except.error.inj he
      exact hne (Option.some.inj (Told.failed.inj htold))
    · intro hok
      have hcode : e.code = .storageState := by
        by_contra hne
        exact hok ⟨e, rfl, hne⟩
      rw [toldValue, hcode]

theorem getValue_unformatted_iff (hrun : s.stopped = false) {p : Bytes} {keyLength : ℤ}
    (hl : keyLength = -1 ∨ 0 < keyLength)
    (hk : duplicate (some p) keyLength = some (sized p keyLength)) :
    Interchangeable env heap s (none : Option (Formatter ω)) useIdle
        (.getValue (some p) keyLength) ↔ ¬ FailsOtherwise env s (sized p keyLength) := by
  have hsync : syncCall env heap s (none : Option (Formatter ω)) (.getValue (some p) keyLength) =
      _ := syncCall_getValue_unformatted hl
  have hasync : asyncCall env heap s none useIdle
      (.getValue (some p) keyLength : PlainCall ω) = _ := asyncCall_getValue_told hrun hk
  have hiff : toldValue heap (none : Option (Formatter ω)) (getResult env s 1 (sized p keyLength)) =
      .failed (some .storageState) ↔ _ := toldValue_unformatted_iff
  constructor
  · intro hi
    have htold := hi.told
    rw [hsync, hasync] at htold
    exact hiff.mp htold.symm
  · intro hok
    refine ⟨?_, ?_, ?_, ?_, fun ht => ⟨syncCall_explicit ht, asyncCall_explicit ht⟩⟩
    · rw [hsync, hasync, hiff.mpr hok]
    · rw [hsync]
      intro hn
      cases hn
    · rw [hsync, hasync]
      rfl
    · rw [hsync]
      intro hn
      cases hn

theorem getValue_iff (hrun : s.stopped = false) {key : Option Bytes} {keyLength : ℤ} :
    Interchangeable env heap s formatter useIdle (.getValue key keyLength) ↔
      Alike env s formatter (.getValue key keyLength) := by
  rw [Alike]
  cases hk : duplicate key keyLength with
  | none =>
    refine iff_of_true ?_ fun _ bs hbs => ?_
    · exact interchangeable_refused (syncCall_refused hk) (asyncCall_getValue_refused hk)
    · cases hbs
  | some k =>
    obtain ⟨p, rfl, hl, rfl⟩ := duplicate_eq_some.mp hk
    cases formatter with
    | some f =>
      have hsync : syncCall env heap s (some f) (.getValue (some p) keyLength) = _ :=
        syncCall_getValue hrun hl
      have hasync : asyncCall env heap s (some f) useIdle (.getValue (some p) keyLength) = _ :=
        asyncCall_getValue_told hrun hk
      refine iff_of_true (interchangeable_of_eq (hsync.trans hasync.symm) ?_ fun _ => ?_)
        fun hn => absurd hn (Option.some_ne_none f)
      · rw [hsync]
        dsimp only
        exact toldValue_defined _
      · rw [hsync]
        rfl
    | none =>
      rw [getValue_unformatted_iff hrun hl hk]
      constructor
      · rintro hok - bs hbs
        obtain rfl := Option.some.inj hbs
        exact hok
      · exact fun hok => hok rfl _ rfl

end Compare

/-- **The synchronous and the asynchronous calls are interchangeable**, while the process runs, exactly
if the arguments and the storage are such that their checks agree. -/
theorem interchangeable_iff (env : Env) (heap : Heap) (s : Storage h) (hrun : s.stopped = false)
    (formatter : Option (Formatter ω)) (useIdle : Bool) (call : PlainCall ω) :
    Interchangeable env heap s formatter useIdle call ↔ Alike env s formatter call := by
  cases call with
  | set key keyLength value valueLength => exact set_iff hrun
  | get key keyLength => exact get_iff hrun
  | setValue key keyLength v => exact setValue_iff hrun
  | getValue key keyLength => exact getValue_iff hrun

/-- A get of a key that is not there, without a formatter, as bytes and as a value. -/
theorem interchangeable_iff_missing :
    (∀ useIdle, Interchangeable (fun _ => {}) plainHeap
        (run (fun _ => {}) (catalinaStorageInit lp64 fun _ => ∅) [openTask 0 [47]])
        (none : Option (Formatter Unit)) useIdle (.get (some [107]) 1)) ∧
      ∀ useIdle, ¬ Interchangeable (fun _ => {}) plainHeap
        (run (fun _ => {}) (catalinaStorageInit lp64 fun _ => ∅) [openTask 0 [47]])
        (none : Option (Formatter Unit)) useIdle (.getValue (some [107]) 1) := by
  refine ⟨fun useIdle => (interchangeable_iff _ _ _ rfl _ _ _).mpr trivial, fun useIdle hi => ?_⟩
  have halike := (interchangeable_iff _ _ _ rfl _ _ _).mp hi rfl [107] rfl
  exact halike ⟨nofun, trivial⟩

/-- **An empty value is stored by the one call and refused by the other.** -/
theorem empty_value_stored : ¬ Interchangeable (fun _ => {}) plainHeap
    (run (fun _ => {}) (catalinaStorageInit lp64 fun _ => ∅) [openTask 0 [47]])
    (none : Option (Formatter Unit)) false (.set (some [107]) 1 (some [7]) 0) := by
  intro hi
  have htold := hi.told
  exact absurd htold nofun

end Catalina
