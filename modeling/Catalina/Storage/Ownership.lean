import Mathlib.Data.Multiset.Bind
import Catalina.Storage.Once
import Catalina.Storage.Replies
import Catalina.Storage.Tasks

/-!
# Who completes and who releases a task

Every task that still has to be completed has one owner: a message, a log, the queue of commits, or
a task whose callback will complete it. A task that is completed is owned by its callback alone.

* `Tasks.owed`: the tasks that are going to be completed or read, given the tasks that wait for an
  answer; `Tasks.Sound`: none of them twice, each at its point of life.
* `Tasks.Loose`: a task that has been taken out, with what its callback completes.
* `sound_answer`, `sound_runIdle`, `sound_handle`, `sound_call`: what the steps keep.
* **`tasks_faultless`**: in a run whose values are all serialized, nothing goes wrong with a task.
* `no_formatter_released_twice`: without a formatter something does.
-/

namespace Catalina

variable {ω : Type} {h : Host} {env : Env} {heap : Heap}

/-- The task that a callback completes. -/
def Callback.target : Callback → Multiset ℕ
  | .client => 0
  | .getValueAsyncCb task => {task}
  | .setValueAsyncCb task => {task}

theorem notMem_client {o : ℕ} : o ∉ Callback.client.target := Multiset.notMem_zero o

namespace Tasks

/-! ## Owners -/

/-- A task, and the one that its callback completes. -/
def chain (c : Tasks ω) (i : ℕ) : Multiset ℕ := {i} + (c.task i).callback.target

/-- The tasks that are going to be completed or read if those in `W` are answered. -/
def owed (c : Tasks ω) (W : Multiset ℕ) : Multiset ℕ := (W + ↑c.idle).bind c.chain

/-- The tasks in `W` wait for an answer, those scheduled for their callback, and those that their
callbacks complete for these; none is among them twice, and nothing has gone wrong. -/
structure Sound (c : Tasks ω) (W : Multiset ℕ) : Prop where
  once : (c.owed W).Nodup
  known : ∀ i ∈ c.owed W, i < c.next
  created : ∀ i ∈ W, (c.task i).life = .created
  completed : ∀ i ∈ c.idle, (c.task i).life = .completed
  clients : ∀ i ∈ W + ↑c.idle, ∀ o ∈ (c.task i).callback.target,
    (c.task o).callback = .client ∧ (c.task o).life = .created
  faultless : c.faults = []

/-- The task `i` is in nobody's hands; what its callback completes waits for that. -/
structure Loose (c : Tasks ω) (i : ℕ) (cb : Callback) (l : Life) (W : Multiset ℕ) : Prop where
  sound : c.Sound (cb.target + W)
  out : i ∉ c.owed (cb.target + W)
  callback : (c.task i).callback = cb
  life : (c.task i).life = l
  known : i < c.next
  clients : ∀ o ∈ cb.target, (c.task o).callback = .client

section Sound

variable {c c' : Tasks ω} {W W' : Multiset ℕ} {i o : ℕ} {cb : Callback} {l l' : Life}

theorem mem_owed : o ∈ c.owed W ↔ ∃ i, (i ∈ W ∨ i ∈ c.idle) ∧ o ∈ c.chain i := by
  unfold owed
  rw [Multiset.mem_bind]
  refine exists_congr fun i => ?_
  rw [Multiset.mem_add, Multiset.mem_coe]

theorem mem_owed_self (hi : i ∈ W ∨ i ∈ c.idle) : i ∈ c.owed W :=
  mem_owed.mpr ⟨i, hi, Multiset.mem_add.mpr (Or.inl (Multiset.mem_singleton_self i))⟩

theorem owed_add (V W : Multiset ℕ) : c.owed (V + W) = V.bind c.chain + c.owed W := by
  unfold owed
  rw [add_assoc, Multiset.add_bind]

theorem owed_singleton (i : ℕ) (W : Multiset ℕ) : c.owed ({i} + W) = c.chain i + c.owed W := by
  rw [owed_add, Multiset.singleton_bind]

theorem owed_target (hcl : ∀ o ∈ cb.target, (c.task o).callback = .client) :
    c.owed (cb.target + W) = cb.target + c.owed W := by
  cases cb with
  | client =>
    change c.owed (0 + W) = 0 + c.owed W
    rw [zero_add, zero_add]
  | getValueAsyncCb o | setValueAsyncCb o =>
    have ho : (c.task o).callback = .client := hcl o (Multiset.mem_singleton_self o)
    change c.owed ({o} + W) = {o} + c.owed W
    rw [owed_singleton, chain, ho]
    rfl

theorem Sound.mono (hs : c.Sound W) (hle : W' ≤ W) : c.Sound W' := by
  have hsub : ∀ i ∈ W', i ∈ W := fun i hi => Multiset.mem_of_le hle hi
  have howed : c.owed W' ≤ c.owed W := by
    obtain ⟨V, rfl⟩ := Multiset.le_iff_exists_add.mp hle
    rw [add_comm, owed_add]
    exact Multiset.le_add_left _ _
  exact
    { once := Multiset.nodup_of_le howed hs.once
      known := fun i hi => hs.known i (Multiset.mem_of_le howed hi)
      created := fun i hi => hs.created i (hsub i hi)
      completed := hs.completed
      clients := fun i hi => hs.clients i (Multiset.mem_of_le (add_le_add_left hle _) hi)
      faultless := hs.faultless }

theorem task_update_of_ne (f : AsyncTask → AsyncTask) {j : ℕ} (hj : j ≠ i) :
    (c.update i f).task j = c.task j := Function.update_of_ne hj _ _

theorem task_update_self (c : Tasks ω) (i : ℕ) (f : AsyncTask → AsyncTask) :
    (c.update i f).task i = f (c.task i) := Function.update_self ..

/-- **The tasks that are owed are as they were**, and nothing else has changed. -/
theorem Sound.congr (hs : c.Sound W) (hi : i ∉ c.owed W) (hidle : c'.idle = c.idle)
    (hnext : c.next ≤ c'.next) (hfaults : c'.faults = c.faults)
    (htask : ∀ j, j ≠ i → c'.task j = c.task j) : c'.Sound W ∧ c'.owed W = c.owed W := by
  have hne : ∀ j ∈ c.owed W, c'.task j = c.task j := fun j hj =>
    htask j fun hji => hi (hji ▸ hj)
  have hpend : ∀ j ∈ W + ↑c.idle, c'.task j = c.task j := fun j hj =>
    hne j (mem_owed_self (by simpa using hj))
  have htarget : ∀ j ∈ W + ↑c.idle, ∀ o ∈ (c.task j).callback.target, c'.task o = c.task o :=
    fun j hj o ho => hne o (mem_owed.mpr ⟨j, by simpa using hj, Multiset.mem_add.mpr (Or.inr ho)⟩)
  have howed : c'.owed W = c.owed W := by
    unfold owed
    rw [hidle]
    exact Multiset.bind_congr fun j hj => by rw [chain, chain, hpend j hj]
  refine ⟨?_, howed⟩
  exact
    { once := howed ▸ hs.once
      known := fun j hj => (hs.known j (howed ▸ hj)).trans_le hnext
      created := fun j hj => by
        rw [hpend j (Multiset.mem_add.mpr (Or.inl hj))]
        exact hs.created j hj
      completed := fun j hj => by
        rw [hidle] at hj
        rw [hpend j (Multiset.mem_add.mpr (Or.inr (Multiset.mem_coe.mpr hj)))]
        exact hs.completed j hj
      clients := fun j hj o ho => by
        rw [hidle] at hj
        rw [hpend j hj] at ho
        rw [htarget j hj o ho]
        exact hs.clients j hj o ho
      faultless := hfaults.trans hs.faultless }

theorem Sound.settings (hs : c.Sound W) (f : Option (Formatter ω)) (b : Bool) (x : Option Stop) :
    { c with formatter := f, useIdle := b, stopped := x }.Sound W :=
  ⟨hs.once, hs.known, hs.created, hs.completed, hs.clients, hs.faultless⟩

theorem Sound.update (hs : c.Sound W) (hi : i ∉ c.owed W) (f : AsyncTask → AsyncTask) :
    (c.update i f).Sound W ∧ (c.update i f).owed W = c.owed W :=
  hs.congr hi rfl (le_refl _) rfl fun _ hj => task_update_of_ne f hj

/-! ## Taking a task out and putting it back -/

theorem Sound.take {q : List ℕ} (hs : { c with idle := q }.Sound W')
    (hpend : W' + ↑q = {i} + (W + ↑c.idle)) (hW : W ≤ W') (hq : c.idle ⊆ q) :
    c.Loose i (c.task i).callback (c.task i).life W := by
  have hmem : i ∈ W' + ↑q := by
    rw [hpend]
    exact Multiset.mem_add.mpr (Or.inl (Multiset.mem_singleton_self i))
  have hcl : ∀ o ∈ (c.task i).callback.target,
    (c.task o).callback = .client ∧ (c.task o).life = .created := hs.clients i hmem
  have hclient := fun o ho => (hcl o ho).1
  have hsplit : ({ c with idle := q } : Tasks ω).owed W' =
      {i} + c.owed ((c.task i).callback.target + W) := by
    rw [owed_target hclient, ← add_assoc]
    change (W' + ↑q).bind c.chain = _
    rw [hpend, Multiset.add_bind, Multiset.singleton_bind]
    rfl
  have honce := hs.once
  have hknown := hs.known
  rw [hsplit] at honce hknown
  obtain ⟨hout, hnodup⟩ := Multiset.nodup_cons.mp honce
  refine ⟨?_, hout, rfl, rfl, hknown i (Multiset.mem_cons_self i _), hclient⟩
  refine ⟨hnodup, fun j hj => hknown j (Multiset.mem_cons_of_mem hj), ?_, ?_, ?_, hs.faultless⟩
  · intro j hj
    rcases Multiset.mem_add.mp hj with hj | hj
    · exact (hcl j hj).2
    · exact hs.created j (Multiset.mem_of_le hW hj)
  · exact fun j hj => hs.completed j (hq hj)
  · intro j hj o ho
    rw [add_assoc, Multiset.mem_add] at hj
    rcases hj with hj | hj
    · rw [hclient j hj] at ho
      exact absurd ho (Multiset.notMem_zero o)
    · refine hs.clients j ?_ o ho
      rw [hpend]
      exact Multiset.mem_add.mpr (Or.inr hj)

theorem Loose.put {q : List ℕ} (hl : c.Loose i cb l W) (hpend : W' + ↑q = {i} + (W + ↑c.idle))
    (hW : ∀ j ∈ W', j ∈ W ∨ j = i ∧ l = .created)
    (hq : ∀ j ∈ q, j ∈ c.idle ∨ j = i ∧ l = .completed) : { c with idle := q }.Sound W' := by
  have hs := hl.sound
  have hsplit : ({ c with idle := q } : Tasks ω).owed W' = {i} + c.owed (cb.target + W) := by
    rw [owed_target hl.clients, ← add_assoc, ← hl.callback]
    change (W' + ↑q).bind c.chain = _
    rw [hpend, Multiset.add_bind, Multiset.singleton_bind]
    rfl
  refine ⟨?_, ?_, ?_, ?_, ?_, hs.faultless⟩
  · rw [hsplit]
    exact Multiset.nodup_cons.mpr ⟨hl.out, hs.once⟩
  · intro j hj
    rw [hsplit] at hj
    rcases Multiset.mem_add.mp hj with hj | hj
    · exact Multiset.mem_singleton.mp hj ▸ hl.known
    · exact hs.known j hj
  · intro j hj
    rcases hW j hj with hj | ⟨rfl, rfl⟩
    · exact hs.created j (Multiset.mem_add.mpr (Or.inr hj))
    · exact hl.life
  · intro j hj
    rcases hq j hj with hj | ⟨rfl, rfl⟩
    · exact hs.completed j hj
    · exact hl.life
  · intro j hj o ho
    change j ∈ W' + ↑q at hj
    rw [hpend] at hj
    rcases Multiset.mem_add.mp hj with hj | hj
    · rw [Multiset.mem_singleton.mp hj] at ho
      change o ∈ (c.task i).callback.target at ho
      rw [hl.callback] at ho
      exact ⟨hl.clients o ho, hs.created o (Multiset.mem_add.mpr (Or.inl ho))⟩
    · refine hs.clients j ?_ o ho
      rw [add_assoc]
      exact Multiset.mem_add.mpr (Or.inr hj)

theorem Sound.answered (hs : c.Sound ({i} + W)) : c.Loose i (c.task i).callback .created W := by
  have hlife := hs.created i (Multiset.mem_add.mpr (Or.inl (Multiset.mem_singleton_self i)))
  rw [← hlife]
  exact Sound.take hs (add_assoc _ _ _) (Multiset.le_add_left _ _) (List.Subset.refl _)

theorem Sound.scheduled {n : ℕ} (hs : c.Sound W) (hn : c.idle[n]? = some i) :
    { c with idle := c.idle.eraseIdx n }.Loose i (c.task i).callback .completed W := by
  obtain ⟨hlt, rfl⟩ := List.getElem?_eq_some_iff.mp hn
  have hperm := Multiset.coe_eq_coe.mpr (List.getElem_cons_eraseIdx_perm hlt)
  rw [← hs.completed _ (List.getElem_mem hlt)]
  refine Sound.take (c := { c with idle := c.idle.eraseIdx n }) hs ?_ (le_refl _)
    (List.eraseIdx_sublist c.idle n).subset
  rw [← hperm, ← Multiset.cons_coe, ← Multiset.singleton_add]
  exact add_left_comm _ _ _

theorem Loose.schedule (hl : c.Loose i cb .completed W) :
    { c with idle := c.idle ++ [i] }.Sound W := by
  refine hl.put ?_ (fun j hj => Or.inl hj) fun j hj => ?_
  · rw [← Multiset.coe_add, Multiset.coe_singleton]
    abel
  · rw [List.mem_append, List.mem_singleton] at hj
    exact hj.imp_right fun hji => ⟨hji, rfl⟩

theorem Loose.post (hl : c.Loose i cb .created W) : c.Sound ({i} + W) := by
  refine hl.put (q := c.idle) (add_assoc _ _ _) (fun j hj => ?_) fun j hj => Or.inl hj
  rw [Multiset.mem_add, Multiset.mem_singleton] at hj
  exact hj.symm.imp_right fun hji => ⟨hji, rfl⟩

theorem Loose.update (hl : c.Loose i cb l W) {f : AsyncTask → AsyncTask}
    (hf : (f (c.task i)).callback = (c.task i).callback) (hlife : (f (c.task i)).life = l') :
    (c.update i f).Loose i cb l' W := by
  obtain ⟨hs, howed⟩ := hl.sound.update hl.out f
  refine ⟨hs, howed ▸ hl.out, ?_, ?_, hl.known, fun o ho => ?_⟩
  · rw [task_update_self, hf, hl.callback]
  · rw [task_update_self, hlife]
  · have hmem : o ∈ c.owed (cb.target + W) :=
      mem_owed_self (Or.inl (Multiset.mem_add.mpr (Or.inl ho)))
    rw [task_update_of_ne f (by rintro rfl; exact hl.out hmem)]
    exact hl.clients o ho

/-! ## Completions and callbacks -/

theorem read_eq (hl : (c.task i).life ≠ .released) : c.read i = c := if_neg hl

theorem Loose.free (hl : c.Loose i cb l W) (hne : l ≠ .released) :
    (c.storageTaskFree i).Loose i cb .released W := by
  rw [storageTaskFree, if_neg (by rwa [hl.life])]
  exact hl.update rfl rfl

theorem sound_completeTask {run : Tasks ω → ℕ → Tasks ω} (hl : c.Loose i cb .created W)
    (hrun : ∀ c', c'.Loose i cb .completed W → (run c' i).Sound W) (success : Bool) :
    (completeTask run c i success).Sound W := by
  have hdone : (c.update i fun t =>
      { t with life := if t.life = .created then .completed else t.life, success }).Loose i cb
        .completed W := hl.update rfl (if_pos hl.life)
  unfold completeTask
  rw [if_pos hl.life]
  dsimp only
  split_ifs
  · exact hdone.schedule
  · exact hrun _ hdone

theorem sound_finish (hl : c.Loose i .client .completed W) : (c.finish i).Sound W := by
  have hread : c.read i = c := read_eq (by rw [hl.life]; decide)
  have hfin : { c with finished := c.finished ++ [(i, c.task i)] }.Loose i .client .completed W :=
    ⟨⟨hl.sound.once, hl.sound.known, hl.sound.created, hl.sound.completed, hl.sound.clients,
      hl.sound.faultless⟩, hl.out, hl.callback, hl.life, hl.known, hl.clients⟩
  unfold finish
  rw [hread]
  have hs := (hfin.free (by decide)).sound
  rwa [Callback.target, zero_add] at hs

theorem sound_completeValue (hl : c.Loose i .client .created W) (success : Bool) :
    (c.completeValue i success).Sound W :=
  sound_completeTask hl (fun _ hl' => sound_finish hl') success

theorem Loose.internal (hl : c.Loose i cb .completed W) (ho : cb.target = {o}) :
    (((c.read i).storageTaskFree i).read o).Loose o .client .created W := by
  have hmem : o ∈ cb.target := by rw [ho]; exact Multiset.mem_singleton_self o
  have hfree := hl.free (by decide)
  have hs := hfree.sound
  rw [ho] at hs
  have hown := hs.answered
  rw [hfree.clients o hmem] at hown
  rw [read_eq (i := i) (by rw [hl.life]; decide), read_eq (by rw [hown.life]; decide)]
  exact hown

theorem sound_getValueAsyncCb (hl : c.Loose i (.getValueAsyncCb o) .completed W) :
    (c.getValueAsyncCb heap i o).Sound W := by
  have hown := hl.internal rfl
  unfold getValueAsyncCb
  generalize ((c.read i).storageTaskFree i).read o = c₁ at hown ⊢
  dsimp only
  split_ifs
  · split
    · exact sound_completeValue (hown.update rfl (by exact hown.life)) false
    · split
      · have hs := hown.sound
        rw [Callback.target, zero_add] at hs
        exact hs.settings _ _ _
      · exact sound_completeValue (hown.update rfl (by exact hown.life)) _
  · exact sound_completeValue (hown.update rfl (by exact hown.life)) false

theorem sound_setValueAsyncCb (hl : c.Loose i (.setValueAsyncCb o) .completed W) :
    (c.setValueAsyncCb i o).Sound W := by
  have hown := hl.internal rfl
  unfold setValueAsyncCb
  exact sound_completeValue (hown.update rfl hown.life) _

theorem sound_runCallback (hl : c.Loose i cb .completed W) : (runCallback heap c i).Sound W := by
  unfold runCallback
  rw [hl.callback]
  cases cb with
  | client => exact sound_finish hl
  | getValueAsyncCb o => exact sound_getValueAsyncCb hl
  | setValueAsyncCb o => exact sound_setValueAsyncCb hl

/-- **An answer** completes its task and whatever hangs on it. -/
theorem sound_answer {r : StorageTask} (hs : c.Sound ({r.id} + W)) : (answer heap c r).Sound W := by
  have hl := hs.answered
  exact sound_completeTask (hl.update rfl hl.life) (fun _ hl' => sound_runCallback hl') r.success

theorem sound_answers : ∀ (rs : List StorageTask) {c : Tasks ω}, c.Sound (ids rs + W) →
    (rs.foldl (answer heap) c).Sound W
  | [], c, hs => by rwa [ids_nil, zero_add] at hs
  | r :: rs, c, hs => by
    rw [ids_cons, add_assoc] at hs
    exact sound_answers rs (sound_answer hs)

theorem sound_runIdle (hs : c.Sound W) (n : ℕ) : (c.runIdle heap n).Sound W := by
  unfold runIdle
  cases hn : c.idle[n]? with
  | none => exact hs
  | some i => exact sound_runCallback (hs.scheduled hn)

theorem Sound.new (hs : c.Sound (cb.target + W))
    (hcl : ∀ o ∈ cb.target, (c.task o).callback = .client) :
    (c.storageTaskNew cb).Loose c.next cb .created W := by
  have hout : c.next ∉ c.owed (cb.target + W) := fun hn => lt_irrefl _ (hs.known _ hn)
  have htask : ∀ j, j ≠ c.next → (c.storageTaskNew cb).task j = c.task j := fun j hj =>
    Function.update_of_ne hj _ _
  have hself : (c.storageTaskNew cb).task c.next = { callback := cb } := Function.update_self ..
  obtain ⟨hs', howed⟩ : (c.storageTaskNew cb).Sound _ ∧ (c.storageTaskNew cb).owed _ = _ :=
    hs.congr hout rfl (Nat.le_succ _) rfl htask
  refine ⟨hs', howed ▸ hout, by rw [hself], by rw [hself], Nat.lt_succ_self _, fun o ho => ?_⟩
  have hmem : o ∈ c.owed (cb.target + W) :=
    mem_owed_self (Or.inl (Multiset.mem_add.mpr (Or.inl ho)))
  rw [htask o (by rintro rfl; exact hout hmem)]
  exact hcl o ho

end Sound

end Tasks

/-! ## Messages and calls -/

namespace AsyncStorage

/-- The tasks that wait for an answer: on their way, in a log or in the queue. -/
def waiting (c : AsyncStorage h ω) : Multiset ℕ :=
  ids c.posted + (ids c.storage.logTasks + ids c.storage.txnCommits)

/-- Nothing has gone wrong with a task, and nothing will with those there are. -/
def Sound (c : AsyncStorage h ω) : Prop := c.tasks.Sound c.waiting

/-- Every value that is stored finds a formatter, and is serialized. -/
def Serializes (c : AsyncStorage h ω) (a : AsyncEvent ω) : Prop :=
  match a with
  | .call (.setValueAsync _ _ _ v) =>
    ∃ f, c.tasks.formatter = some f ∧ ∀ e, f.serialize v ≠ .ok (.error e)
  | _ => True

variable {c : AsyncStorage h ω}

/-- **A message that reaches its handler** turns tasks that wait into answers. -/
theorem sound_replies (hs : c.Sound) {n : ℕ} {t : StorageTask} (hn : c.posted[n]? = some t) :
    ∃ rs, (handleMessage env c.storage t).replies = c.storage.replies ++ rs ∧
      c.tasks.Sound (ids rs +
        waiting ⟨handleMessage env c.storage t, c.tasks, c.posted.eraseIdx n⟩) := by
  obtain ⟨hlt, rfl⟩ := List.getElem?_eq_some_iff.mp hn
  obtain ⟨rs, hrs⟩ : c.storage.replies <+: (handleMessage env c.storage c.posted[n]).replies :=
    prefix_handleMessage c.storage c.posted[n]
  have hle := held_handleMessage_le env c.storage c.posted[n]
  have hposted : ids c.posted = {c.posted[n].id} + ids (c.posted.eraseIdx n) :=
    (Multiset.coe_eq_coe.mpr ((List.getElem_cons_eraseIdx_perm hlt).map StorageTask.id)).symm
  rw [Storage.held, Storage.held, ← hrs, ids_append] at hle
  have hcancel : ids rs + (ids (handleMessage env c.storage c.posted[n]).logTasks +
      ids (handleMessage env c.storage c.posted[n]).txnCommits) ≤
        {c.posted[n].id} + (ids c.storage.logTasks + ids c.storage.txnCommits) := by
    refine le_of_add_le_add_left (a := ids c.storage.replies) ?_
    calc _ = _ := by abel
      _ ≤ _ := hle
      _ = _ := by abel
  refine ⟨rs, hrs.symm, Tasks.Sound.mono hs ?_⟩
  unfold waiting
  rw [hposted]
  dsimp only
  calc _ = ids (c.posted.eraseIdx n) + (ids rs +
          (ids (handleMessage env c.storage c.posted[n]).logTasks +
            ids (handleMessage env c.storage c.posted[n]).txnCommits)) := by abel
    _ ≤ ids (c.posted.eraseIdx n) +
          ({c.posted[n].id} + (ids c.storage.logTasks + ids c.storage.txnCommits)) :=
        add_le_add_right hcancel _
    _ = _ := by abel

theorem handle_eq {n : ℕ} {t : StorageTask} {rs : List StorageTask} (hn : c.posted[n]? = some t)
    (hrs : (handleMessage env c.storage t).replies = c.storage.replies ++ rs) :
    c.handle env heap n = ⟨handleMessage env c.storage t, rs.foldl (Tasks.answer heap) c.tasks,
      c.posted.eraseIdx n⟩ := by
  unfold handle
  rw [hn]
  dsimp only
  rw [hrs, List.drop_left]

theorem sound_handle (hs : c.Sound) (n : ℕ) : (c.handle env heap n).Sound := by
  cases hn : c.posted[n]? with
  | none =>
    unfold handle
    rw [hn]
    exact hs
  | some t =>
    obtain ⟨rs, hrs, hsound⟩ := sound_replies hs hn
    rw [handle_eq hn hrs]
    exact Tasks.sound_answers rs hsound

theorem sound_post {cb : Callback} {message : ℕ → StorageTask} (hid : ∀ i, (message i).id = i)
    (hs : c.tasks.Sound (cb.target + c.waiting))
    (hcl : ∀ o ∈ cb.target, (c.tasks.task o).callback = .client) : (c.post cb message).Sound := by
  have hw : (c.post cb message).waiting = {c.tasks.next} + c.waiting := by
    unfold waiting post
    rw [ids_append, ids_cons, ids_nil, hid]
    dsimp only
    abel
  unfold Sound
  rw [hw]
  exact (hs.new hcl).post

theorem sound_post_client {message : ℕ → StorageTask} (hid : ∀ i, (message i).id = i)
    (hs : c.Sound) : (c.post .client message).Sound :=
  sound_post hid (by rwa [Callback.target, zero_add]) fun o ho => absurd ho notMem_client

theorem sound_getAsync {cb : Callback} (hs : c.tasks.Sound (cb.target + c.waiting))
    (hcl : ∀ o ∈ cb.target, (c.tasks.task o).callback = .client) (key : Option Bytes)
    (keyLength : ℤ) : (c.getAsync cb key keyLength).Sound := by
  unfold getAsync
  cases duplicate key keyLength with
  | none => exact hs.mono (Multiset.le_add_left _ _)
  | some key => exact sound_post (fun _ => rfl) hs hcl

theorem sound_setAsync {cb : Callback} (hs : c.tasks.Sound (cb.target + c.waiting))
    (hcl : ∀ o ∈ cb.target, (c.tasks.task o).callback = .client) (txnId : ℕ) (key : Option Bytes)
    (keyLength : ℤ) (value : Option Bytes) (valueLength : ℤ) :
    (c.setAsync cb txnId key keyLength value valueLength).Sound := by
  unfold setAsync
  cases duplicate key keyLength with
  | none => exact hs.mono (Multiset.le_add_left _ _)
  | some key =>
    cases duplicate value valueLength with
    | none => exact hs.mono (Multiset.le_add_left _ _)
    | some value => exact sound_post (fun _ => rfl) hs hcl

theorem sound_valueTask (hs : c.Sound) {cb : Callback} (hcb : cb.target = {c.tasks.next}) :
    (c.tasks.storageTaskNew .client).Sound (cb.target + c.waiting) ∧
      ∀ o ∈ cb.target, ((c.tasks.storageTaskNew .client).task o).callback = .client := by
  have hnew : (c.tasks.storageTaskNew .client).Loose c.tasks.next .client .created c.waiting :=
    Tasks.Sound.new (by rwa [Callback.target, zero_add]) fun o ho => absurd ho notMem_client
  rw [hcb]
  exact ⟨hnew.post, fun o ho => Multiset.mem_singleton.mp ho ▸ hnew.callback⟩

theorem sound_getValueAsync (hs : c.Sound) (key : Option Bytes) (keyLength : ℤ) :
    (c.getValueAsync key keyLength).Sound := by
  obtain ⟨hs', hcl⟩ := sound_valueTask hs
    (rfl : (Callback.getValueAsyncCb c.tasks.next).target = {c.tasks.next})
  unfold getValueAsync
  exact sound_getAsync hs' hcl key keyLength

theorem sound_setValueAsync (hs : c.Sound) (txnId : ℕ) (key : Option Bytes) (keyLength : ℤ)
    {v : GValue ω} (hv : ∃ f, c.tasks.formatter = some f ∧ ∀ e, f.serialize v ≠ .ok (.error e)) :
    (c.setValueAsync txnId key keyLength v).Sound := by
  obtain ⟨hs', hcl⟩ := sound_valueTask hs
    (rfl : (Callback.setValueAsyncCb c.tasks.next).target = {c.tasks.next})
  obtain ⟨f, hf, hser⟩ := hv
  have hf' : (c.tasks.storageTaskNew .client).formatter = some f := hf
  unfold setValueAsync
  dsimp only
  rw [hf']
  dsimp only
  split
  · have hs₀ := hs'.mono (Multiset.le_add_left _ _)
    exact ⟨hs₀.once, hs₀.known, hs₀.created, hs₀.completed, hs₀.clients, hs₀.faultless⟩
  · next e he => exact absurd he (hser e)
  · exact sound_setAsync hs' hcl txnId key keyLength _ _

theorem sound_call (hs : c.Sound) {a : AsyncCall ω} (ha : c.Serializes (.call a)) :
    (c.call a).Sound := by
  cases a with
  | openAsync path =>
    cases path with
    | none => exact hs
    | some path => exact sound_post_client (fun _ => rfl) hs
  | closeAsync => exact sound_post_client (fun _ => rfl) hs
  | getAsync key keyLength =>
    exact sound_getAsync (by rwa [Callback.target, zero_add])
      (fun o ho => absurd ho notMem_client) key keyLength
  | setAsync txnId key keyLength value valueLength =>
    exact sound_setAsync (by rwa [Callback.target, zero_add])
      (fun o ho => absurd ho notMem_client) txnId key keyLength value valueLength
  | getValueAsync key keyLength => exact sound_getValueAsync hs key keyLength
  | setValueAsync txnId key keyLength v => exact sound_setValueAsync hs txnId key keyLength ha
  | transactionBeginAsync => exact sound_post_client (fun _ => rfl) hs
  | transactionCommitAsync txnId => exact sound_post_client (fun _ => rfl) hs
  | transactionCancelAsync txnId => exact sound_post_client (fun _ => rfl) hs

theorem sound_step (hs : c.Sound) {a : AsyncEvent ω} (ha : c.Serializes a) :
    (c.step env heap a).Sound := by
  unfold step
  split_ifs
  · exact hs
  · cases a with
    | call a => exact sound_call hs ha
    | handle n => exact sound_handle hs n
    | idle n => exact Tasks.sound_runIdle hs n
    | setFormatter f => exact Tasks.Sound.settings hs f _ _
    | setUseIdle b => exact Tasks.Sound.settings hs _ b _

theorem sound_new (disk : Bytes → Records) (formatter : Option (Formatter ω)) (useIdle : Bool) :
    (catalinaStorageNew h disk formatter useIdle).Sound where
  once := Multiset.nodup_zero
  known _ hi := absurd hi (Multiset.notMem_zero _)
  created _ hi := absurd hi (Multiset.notMem_zero _)
  completed _ hi := absurd hi List.not_mem_nil
  clients _ hi := absurd hi (Multiset.notMem_zero _)
  faultless := rfl

end AsyncStorage

/-- **In a run that serializes every value it stores, no task is completed twice, released twice or
read after its release**, whatever the handlers answer and wherever the callbacks run. -/
theorem tasks_faultless (env : Env) (heap : Heap) (disk : Bytes → Records)
    (formatter : Option (Formatter ω)) (useIdle : Bool) (as : List (AsyncEvent ω))
    (ha : Along (AsyncStorage.step env heap) AsyncStorage.Serializes
      (catalinaStorageNew h disk formatter useIdle) as) :
    Along (AsyncStorage.step env heap) (fun c a => (c.step env heap a).tasks.faults = [])
      (catalinaStorageNew h disk formatter useIdle) as := by
  refine Along.imp (fun c a hs ha => ?_) (AsyncStorage.sound_new disk formatter useIdle) ha
  have hstep : (c.step env heap a).Sound := AsyncStorage.sound_step hs ha
  exact ⟨hstep, hstep.faultless⟩

/-- A formatter that serializes every value to one byte. -/
def byteFormatter : Formatter Unit where
  serialize _ := .ok (.ok [7])
  deserialize _ _ := .ok ⟨true, some .void, none⟩

/-- A value that is stored and read again, with callbacks in the main loop. -/
def storeAndRead : List (AsyncEvent Unit) :=
  [.call (.openAsync (some [47])), .handle 0, .idle 0,
    .call (.setValueAsync 0 (some [107]) 1 .void), .call (.getValueAsync (some [107]) 1),
    .handle 0, .idle 0, .handle 0, .idle 0, .idle 0, .idle 0]

theorem tasks_faultless_storeAndRead :
    Along (AsyncStorage.step (fun _ => {}) plainHeap)
      (fun c a => (c.step (fun _ => {}) plainHeap a).tasks.faults = [])
      (catalinaStorageNew lp64 (fun _ => ∅) (some byteFormatter) true) storeAndRead := by
  refine tasks_faultless _ _ _ _ _ _ ⟨trivial, trivial, trivial,
    ⟨byteFormatter, rfl, fun e he => ?_⟩, trivial, trivial, trivial, trivial, trivial, trivial,
    trivial, trivial⟩
  cases he

/-- A value that is stored without a formatter. -/
def storeUnformatted : List (AsyncEvent Unit) :=
  [.call (.setValueAsync 0 (some [107]) 1 .void), .idle 0]

/-- **Without a formatter the task of `catalina_storage_set_value_async` is released twice**, and
with callbacks in the main loop it is read after its release. -/
theorem no_formatter_released_twice :
    ¬ Along (AsyncStorage.step (fun _ => {}) plainHeap)
        (fun c a => (c.step (fun _ => {}) plainHeap a).tasks.faults = [])
        (catalinaStorageNew lp64 (fun _ => ∅) none false) storeUnformatted ∧
      ¬ Along (AsyncStorage.step (fun _ => {}) plainHeap)
        (fun c a => (c.step (fun _ => {}) plainHeap a).tasks.faults = [])
        (catalinaStorageNew lp64 (fun _ => ∅) none true) storeUnformatted :=
  ⟨fun hnone => absurd hnone.1 (by decide), fun hnone => absurd hnone.2.1 (by decide)⟩

end Catalina
