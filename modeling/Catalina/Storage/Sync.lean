import Catalina.Storage.Contract

/-!
# The synchronous calls

`catalina_storage_set` and `catalina_storage_get` post a task and wait for its answer.

* `sized`: the buffer that a pointer and a length stand for.
* `CallResult`: what a call returns.
* `storingSet_of_succeeded`: a plain set that succeeds stores; `get_of_holds`: what a get returns.
* `get_after_set`: both together.
-/

namespace Catalina

/-- The buffer at `p` with the given length; `-1` if it ends with its first NUL. -/
def sized (p : Bytes) (length : ℤ) : Bytes :=
  if length = -1 then p.takeWhile (· ≠ 0) ++ [0] else p.take length.toNat

/-- What a synchronous call returns: nothing but `FALSE` for bad arguments, `FALSE` and the error of
the task, `TRUE` and a value, or it never returns. -/
inductive CallResult (α : Type)
  | refused
  | failed (error : Option GError)
  | succeeded (value : α)
  | waiting
deriving DecidableEq, Repr

variable {h : Host} (env : Env) (s : Storage h)

/-- `storage_task_wait` for the task `id`, whose answer is turned into a value by `f`. -/
def storageTaskWait {α : Type} (s s' : Storage h) (id : ℕ) (f : StorageTask → α) : CallResult α :=
  match (s'.replies.drop s.replies.length).find? (·.id = id) with
  | none => .waiting
  | some t => if t.success then .succeeded (f t) else .failed t.error

/-- `catalina_storage_set`. -/
def catalinaStorageSet (id txnId : ℕ) (key : Bytes) (keyLength : ℤ) (value : Bytes)
    (valueLength : ℤ) : Storage h × CallResult Unit :=
  if keyLength = -1 ∨ 0 < keyLength then
    let s' := handleMessage env s (setTask id txnId (sized key keyLength) (sized value valueLength))
    (s', storageTaskWait s s' id fun _ => ())
  else (s, .refused)

/-- `catalina_storage_get`. -/
def catalinaStorageGet (id : ℕ) (key : Bytes) (keyLength : ℤ) : Storage h × CallResult Bytes :=
  if keyLength = -1 ∨ 0 < keyLength then
    let s' := handleMessage env s (getTask id (sized key keyLength))
    (s', storageTaskWait s s' id StorageTask.data)
  else (s, .refused)

variable {env s} {i j : ℕ} {key value : Bytes} {keyLength valueLength : ℤ}

theorem storageTaskWait_append {α : Type} {s' : Storage h} {t : StorageTask}
    (hr : s'.replies = s.replies ++ [t]) (f : StorageTask → α) :
    storageTaskWait s s' t.id f = if t.success then .succeeded (f t) else .failed t.error := by
  unfold storageTaskWait
  rw [hr, List.drop_left, List.find?_cons_of_pos (by simp)]

theorem storageTaskWait_none {α : Type} {s' : Storage h} (hr : s'.replies = s.replies) (id : ℕ)
    (f : StorageTask → α) : storageTaskWait s s' id f = .waiting := by
  unfold storageTaskWait
  rw [hr, List.drop_length]
  rfl

/-- A process that has ended answers no call. -/
theorem running_of_answer {α : Type} {t : StorageTask} {id : ℕ} {f : StorageTask → α}
    (hs : storageTaskWait s (handleMessage env s t) id f ≠ .waiting) : s.stopped = false := by
  by_contra hstop
  rw [handleMessage_stopped env (Bool.eq_true_of_not_eq_false hstop)] at hs
  exact hs (storageTaskWait_none rfl id f)

theorem storingSet_of_succeeded
    (hs : (catalinaStorageSet env s i 0 key keyLength value valueLength).2 = .succeeded ()) :
    s.stopped = false ∧ (keyLength = -1 ∨ 0 < keyLength) ∧
      ∃ f, StoringSet f (sized key keyLength) (sized value valueLength) env s
        (setTask i 0 (sized key keyLength) (sized value valueLength)) := by
  unfold catalinaStorageSet at hs
  split_ifs at hs with hk
  dsimp only at hs
  have hrun : s.stopped = false := running_of_answer fun hw => nomatch hs.symm.trans hw
  refine ⟨hrun, hk, ?_⟩
  rw [handleMessage_set env hrun rfl] at hs
  have h₁ := handleSet_step env s (setTask i 0 (sized key keyLength) (sized value valueLength))
  generalize hp : handleSet env s _ = s' at h₁ hs
  have hfail : ∀ e, storageTaskWait s (storageTaskFail s (StorageTask.setError
      (setTask i 0 (sized key keyLength) (sized value valueLength)) e)) i (fun _ => ()) ≠
        .succeeded () := by
    intro e
    have hw := storageTaskWait_append (replies_fail s (StorageTask.setError
      (setTask i 0 (sized key keyLength) (sized value valueLength)) e)) fun _ => ()
    exact hw ▸ nofun
  cases h₁ with
  | closed e _ => exact absurd hs (hfail e)
  | unknown e _ h₀ _ _ => exact absurd rfl h₀
  | queued y _ h₀ _ _ => exact absurd rfl h₀
  | dropped _ _ _ =>
    rw [storageTaskWait_none rfl] at hs
    cases hs
  | failed e _ _ _ => exact absurd hs (hfail e)
  | stored r hc _ _ =>
    obtain ⟨f, hf⟩ := Tdb.ctx_ne_none_iff.mp hc
    exact ⟨f, rfl, rfl, rfl, hf, _, by rw [hp]; rfl, rfl⟩

theorem get_of_holds {f r : Bytes} (hrun : s.stopped = false) (hk : keyLength = -1 ∨ 0 < keyLength)
    (hf : s.tdb.file = some f) (hs : Holds f (sized key keyLength) r s.tdb) :
    (catalinaStorageGet env s j key keyLength).2 =
      match transformRead (env j).transform r with
      | .error e => .failed (some e)
      | .ok data => .succeeded data := by
  unfold catalinaStorageGet
  rw [if_pos hk]
  dsimp only
  rw [handleMessage_get j hrun hf hs]
  cases transformRead (env j).transform r with
  | error e => exact storageTaskWait_append (replies_fail s _) StorageTask.data
  | ok v => exact storageTaskWait_append (replies_complete s _ true) StorageTask.data

/-- **A get right after a plain set that succeeds** reads the record that was stored. -/
theorem get_after_set
    (hs : (catalinaStorageSet env s i 0 key keyLength value valueLength).2 = .succeeded ()) :
    ∃ r, transformWrite (env i).transform (sized value valueLength) = .ok r ∧
      (catalinaStorageGet env (catalinaStorageSet env s i 0 key keyLength value valueLength).1 j key
        keyLength).2 = match transformRead (env j).transform r with
          | .error e => .failed (some e)
          | .ok data => .succeeded data := by
  obtain ⟨hrun, hk, f, hstore⟩ := storingSet_of_succeeded hs
  obtain ⟨r, hr, hholds⟩ := holds_of_storingSet hstore
  have heq : (catalinaStorageSet env s i 0 key keyLength value valueLength).1 =
      handleSet env s (setTask i 0 (sized key keyLength) (sized value valueLength)) := by
    unfold catalinaStorageSet
    rw [if_pos hk]
    exact handleMessage_set env hrun
      (t := setTask i 0 (sized key keyLength) (sized value valueLength)) rfl
  have hframe := frame_handleSet env s (setTask i 0 (sized key keyLength) (sized value valueLength))
  refine ⟨r, hr, ?_⟩
  rw [heq]
  exact get_of_holds (hframe.stopped.trans hrun) hk (hframe.file.trans hstore.file) hholds

end Catalina
