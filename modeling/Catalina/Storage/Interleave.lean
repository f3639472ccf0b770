import Mathlib.Data.Multiset.Range
import Catalina.Storage.Once
import Catalina.Storage.Threads

/-!
# Interleaved handlers

However the threads take turns, the storage is that of a run that handles one message after the
other.

* `ThreadStep`, `step_cases`: what one step does.
* `Work.Agrees`: what a handler has seen is still so; `work_answers`: then it answers as if its
  message had been handled at once. `tdb_concurrent`: a concurrent message leaves the database.
* `Serialized`: the invariant. **`threads_serialized`**.
-/

namespace Catalina

variable {h : Host} {env : Env} {s s' : Storage h} {t : StorageTask} {w w' : Work}
  {c c' : Threads h} {e : ThreadEvent}

/-! ## Steps -/

/-- What one step does. -/
inductive ThreadStep (env : Env) (c : Threads h) : ThreadEvent → Threads h → Prop
  | call (a : PublicCall) : ThreadStep env c (.call a) (c.call a)
  | nested {n : ℕ} {a : Handler} {stage : Stage} {r : StorageTask} {rs : List StorageTask}
      (p : PublicCall) (ha : c.active[n]? = some a) (hp : a.phase = .completing stage (r :: rs))
      (hr : (c.task r.id).isSync = false) :
      ThreadStep env c (.nested n p) ((({ c with delivered := c.delivered ++ [r] } :
        Threads h).call p).setPhase n a
          (if p.isSync then .inCallback c.next rs else .completing .reached rs))
  | wait {i : ℕ} {k : SyncTask} (hk : (c.task i).wait = some k) :
      ThreadStep env c (.wait i) (c.setTask i k)
  | wake {i : ℕ} {k : SyncTask} (hk : (c.task i).wake = some k) :
      ThreadStep env c (.wake i) (c.setTask i k)
  | resume {i : ℕ} {k : SyncTask} (hk : (c.task i).resume = some k) :
      ThreadStep env c (.resume i) (c.setTask i k)
  | take {n : ℕ} {t : StorageTask} (ht : c.posted[n]? = some t) (hadm : c.admits t = true) :
      ThreadStep env c (.take n)
        { c with posted := c.posted.eraseIdx n, active := c.active ++ [{ task := t }] }
  | looked {n : ℕ} {a : Handler} {w w' : Work} (ha : c.active[n]? = some a)
      (hp : a.phase = .working w) (hw : work env c.storage a.task w = .inl w') :
      ThreadStep env c (.advance n) ((c.touch a.task.id).setPhase n a (.working w'))
  | worked {n : ℕ} {a : Handler} {w : Work} {s : Storage h} (ha : c.active[n]? = some a)
      (hp : a.phase = .working w) (hw : work env c.storage a.task w = .inr s) :
      ThreadStep env c (.advance n) (({ c.touch a.task.id with
        storage := s, handled := c.handled ++ [a.task] } : Threads h).setPhase n a
          (.completing .reached (s.replies.drop c.storage.replies.length)))
  | ended {n : ℕ} {a : Handler} {stage : Stage} (ha : c.active[n]? = some a)
      (hp : a.phase = .completing stage []) :
      ThreadStep env c (.advance n) { c with active := c.active.eraseIdx n }
  | completed {n : ℕ} {a : Handler} {stage : Stage} {r : StorageTask} {rs : List StorageTask}
      {k : SyncTask} (ha : c.active[n]? = some a) (hp : a.phase = .completing stage (r :: rs))
      (hr : (c.task r.id).isSync = true) (hk : (c.task r.id).complete r stage = some k) :
      ThreadStep env c (.advance n) (((c.touch r.id).setTask r.id k).setPhase n a
        (match stage.next with
        | some stage => .completing stage (r :: rs)
        | none => .completing .reached rs))
  | delivered {n : ℕ} {a : Handler} {stage : Stage} {r : StorageTask} {rs : List StorageTask}
      (ha : c.active[n]? = some a) (hp : a.phase = .completing stage (r :: rs))
      (hr : (c.task r.id).isSync = false) :
      ThreadStep env c (.advance n)
        (({ c with delivered := c.delivered ++ [r] } : Threads h).setPhase n a
          (.completing .reached rs))
  | back {n : ℕ} {a : Handler} {i : ℕ} {rs : List StorageTask} (ha : c.active[n]? = some a)
      (hp : a.phase = .inCallback i rs) (hi : (c.task i).freed = true) :
      ThreadStep env c (.advance n) (c.setPhase n a (.completing .reached rs))

theorem advance_cases {n : ℕ} {a : Handler} (ha : c.active[n]? = some a)
    (hstep : c.advance env n a = some c') : ThreadStep env c (.advance n) c' := by
  unfold Threads.advance at hstep
  split at hstep
  · next w hp =>
    dsimp only [Threads.touch] at hstep
    split at hstep
    · next w' hw =>
      obtain rfl := Option.some.inj hstep
      exact .looked ha hp hw
    · next s hw =>
      obtain rfl := Option.some.inj hstep
      exact .worked ha hp hw
  · next hp =>
    obtain rfl := Option.some.inj hstep
    exact .ended ha hp
  · next stage r rs hp =>
    split_ifs at hstep with hr
    · split at hstep
      · cases hstep
      · next k hk =>
        obtain rfl := Option.some.inj hstep
        exact .completed ha hp hr hk
    · obtain rfl := Option.some.inj hstep
      exact .delivered ha hp (Bool.eq_false_iff.mpr hr)
  · next i rs hp =>
    split_ifs at hstep with hi
    obtain rfl := Option.some.inj hstep
    exact .back ha hp hi

theorem step_cases (hstep : c.step env e = some c') : ThreadStep env c e c' := by
  replace hstep := (Threads.running_of_step hstep).2
  cases e with
  | call a =>
    obtain rfl := Option.some.inj hstep
    exact .call a
  | nested n p =>
    obtain ⟨a, ha, hn⟩ := Option.bind_eq_some_iff.mp hstep
    unfold Threads.nested at hn
    split at hn
    · next stage r rs hp =>
      split at hn
      · next hr =>
        obtain rfl := Option.some.inj hn
        exact .nested p ha hp hr.2
      · cases hn
    · cases hn
  | wait i =>
    obtain ⟨k, hk, rfl⟩ := Option.map_eq_some_iff.mp hstep
    exact .wait hk
  | wake i =>
    obtain ⟨k, hk, rfl⟩ := Option.map_eq_some_iff.mp hstep
    exact .wake hk
  | resume i =>
    obtain ⟨k, hk, rfl⟩ := Option.map_eq_some_iff.mp hstep
    exact .resume hk
  | take n =>
    change c.take n = some c' at hstep
    unfold Threads.take at hstep
    split at hstep
    · cases hstep
    · next t ht =>
      split_ifs at hstep with hadm
      obtain rfl := Option.some.inj hstep
      exact .take ht hadm
  | advance n =>
    obtain ⟨a, ha, hadv⟩ := Option.bind_eq_some_iff.mp hstep
    exact advance_cases ha hadv

/-! ## Handlers at work -/

/-- What the handler of `t` has seen of the database `d` is still so. -/
def Work.Agrees (d : Tdb) (t : StorageTask) : Work → Prop
  | .started => True
  | .fetched record => t.what = .messageGet ∧ d.ctx ≠ none ∧ record = d.fetch t.key
  | .counting left count => t.what = .messageCountKeys ∧ count + left.length = d.count

theorem work_looks (hagree : w.Agrees s.tdb t) (hw : work env s t w = .inl w') :
    w'.Agrees s.tdb t := by
  cases w with
  | started =>
    simp only [work] at hw
    split at hw
    · next hwhat =>
      split_ifs at hw with hc
      obtain rfl := Sum.inl.inj hw
      exact ⟨hwhat, by simpa using hc, rfl⟩
    · next hwhat =>
      obtain rfl := Sum.inl.inj hw
      exact ⟨hwhat, by rw [Nat.zero_add, Tdb.length_records]⟩
    · cases hw
  | fetched record => cases hw
  | counting left count =>
    cases left with
    | nil => cases hw
    | cons x left =>
      obtain rfl := Sum.inl.inj hw
      obtain ⟨hwhat, hcount⟩ := hagree
      refine ⟨hwhat, ?_⟩
      rw [← hcount, List.length_cons]
      omega

/-- **A handler answers** as if its message had been handled when it had its answer. -/
theorem work_answers (hrun : s.stopped = false) (hagree : w.Agrees s.tdb t)
    (hw : work env s t w = .inr s') : s' = handleMessage env s t := by
  cases w with
  | started =>
    simp only [work] at hw
    split at hw
    · next hwhat =>
      split_ifs at hw with hc
      obtain rfl := Sum.inr.inj hw
      rw [handleMessage_eq env hrun, hwhat]
      exact (if_pos hc).symm
    · cases hw
    · next hget hcount =>
      obtain rfl := Sum.inr.inj hw
      unfold handleMessage
      rw [if_neg (by rw [hrun]; exact Bool.false_ne_true)]
      split
      · exact absurd ‹_› hget
      · exact absurd ‹_› hcount
      · rfl
  | fetched record =>
    obtain rfl := Sum.inr.inj hw
    obtain ⟨hwhat, hc, rfl⟩ := hagree
    rw [handleMessage_eq env hrun, hwhat]
    change _ = handleGet env s t
    rw [handleGet, if_neg (by simpa using hc)]
    rfl
  | counting left count =>
    cases left with
    | cons x left => cases hw
    | nil =>
      obtain rfl := Sum.inr.inj hw
      obtain ⟨hwhat, rfl⟩ := hagree
      have heq : handleMessage env s t = handleCountKeys s t := by
        rw [handleMessage_eq env hrun, hwhat]
      rw [heq]
      rfl

/-- **A concurrent message leaves the database as it is.** -/
theorem tdb_concurrent (env : Env) (s : Storage h) (ht : t.exclusive = false) :
    (handleMessage env s t).tdb = s.tdb := by
  have hwhat : t.what = .messageGet ∨ t.what = .messageCountKeys := by
    unfold StorageTask.exclusive at ht
    split at ht
    · exact Or.inl ‹_›
    · exact Or.inr ‹_›
    · cases ht
  have h₁ := handleMessage_step env s t
  generalize handleMessage env s t = s' at h₁ ⊢
  cases h₁ with
  | stopped _ => rfl
  | failed t' _ _ _ _ => exact tdb_fail s t'
  | answered t' _ _ _ => rfl
  | set hw _ | commit hw _ | notOpened _ hw _ _ _ | opened hw _ _ _ | ended hw _ _ | closed hw _ _ _
  | began hw _ | cancelled _ hw _ _ => simp [hw] at hwhat

/-! ## Runs -/

/-- The message of a handler that has no answer yet. -/
def Handler.inHand (a : Handler) : Multiset ℕ :=
  match a.phase with
  | .working _ => {a.task.id}
  | _ => 0

/-- The messages of the handlers at work. -/
def Threads.inHand (c : Threads h) : Multiset ℕ := (c.active.map Handler.inHand).sum

/-- The state `s₀` and the messages handled so far explain the storage; every message is posted, in
hand or handled, once; an exclusive handler is alone; what the handlers at work have seen is so. -/
structure Serialized (env : Env) (s₀ : Storage h) (c : Threads h) : Prop where
  storage : c.storage = run env s₀ c.handled
  once : ids c.handled + c.inHand + ids c.posted = Multiset.range c.next
  alone : c.active.length ≤ 1 ∨ ∀ a ∈ c.active, a.task.exclusive = false
  agrees : ∀ a ∈ c.active, ∀ w, a.phase = .working w → w.Agrees c.storage.tdb a.task

variable {s₀ : Storage h} {n : ℕ} {a b : Handler} {phase : Phase}

theorem run_concat (env : Env) (s : Storage h) (ts : List StorageTask) (t : StorageTask) :
    run env s (ts ++ [t]) = handleMessage env (run env s ts) t := by
  unfold run
  rw [List.foldl_append]
  rfl

theorem id_message (i : ℕ) (p : PublicCall) : (p.message i).id = i := by cases p <;> rfl

theorem ids_call {posted : List StorageTask} {m : Multiset ℕ} {next : ℕ} (p : PublicCall)
    (hids : m + ids posted = Multiset.range next) :
    m + ids (posted ++ [p.message next]) = Multiset.range (next + 1) := by
  rw [ids_append, ids_cons, ids_nil, id_message, Multiset.range_succ, ← hids,
    ← Multiset.singleton_add]
  abel

theorem sum_active_eq {M : Type} [AddCommMonoid M] (f : Handler → M) (ha : c.active[n]? = some a)
    (phase : Phase) : ∃ m, (c.active.map f).sum = m + f a ∧
      ((c.setPhase n a phase).active.map f).sum = m + f { a with phase } :=
  ⟨_, (sum_map_eraseIdx f ha).symm, (sum_map_set f ha { a with phase }).symm⟩

theorem inHand_eq (ha : c.active[n]? = some a) (phase : Phase) : ∃ m, c.inHand = m + a.inHand ∧
    (c.setPhase n a phase).inHand = m + { a with phase }.inHand :=
  sum_active_eq Handler.inHand ha phase

theorem Handler.inHand_working (hp : a.phase = .working w) : a.inHand = {a.task.id} := by
  unfold Handler.inHand
  rw [hp]

theorem Handler.inHand_completing {stage : Stage} {rs : List StorageTask}
    (hp : a.phase = .completing stage rs) : a.inHand = 0 := by
  unfold Handler.inHand
  rw [hp]

theorem Handler.inHand_inCallback {i : ℕ} {rs : List StorageTask}
    (hp : a.phase = .inCallback i rs) : a.inHand = 0 := by
  unfold Handler.inHand
  rw [hp]

theorem alone_setPhase (ha : c.active[n]? = some a)
    (halone : c.active.length ≤ 1 ∨ ∀ a ∈ c.active, a.task.exclusive = false) :
    (c.setPhase n a phase).active.length ≤ 1 ∨
      ∀ b ∈ (c.setPhase n a phase).active, b.task.exclusive = false := by
  refine halone.imp (fun hl => ?_) fun hall b hb => ?_
  · exact (List.length_set ..).trans_le hl
  · rcases List.mem_or_eq_of_mem_set hb with hb | heq
    · exact hall b hb
    · rw [heq]
      exact hall a (List.mem_of_getElem? ha)

theorem agrees_setPhase {d : Tdb}
    (hagree : ∀ a ∈ c.active, ∀ w, a.phase = .working w → w.Agrees d a.task)
    (hphase : ∀ w, phase = .working w → w.Agrees d a.task) :
    ∀ b ∈ (c.setPhase n a phase).active, ∀ w, b.phase = .working w → w.Agrees d b.task := by
  intro b hb
  rcases List.mem_or_eq_of_mem_set hb with hb | heq
  · exact hagree b hb
  · rw [heq]
    exact hphase

theorem Serialized.setPhase (hc : Serialized env s₀ c) (ha : c.active[n]? = some a)
    (h₀ : a.inHand = 0) (h₁ : { a with phase }.inHand = 0) (hphase : ∀ w, phase ≠ .working w) :
    Serialized env s₀ (c.setPhase n a phase) where
  storage := hc.storage
  once := by
    obtain ⟨m, hm, hm'⟩ := inHand_eq ha phase
    rw [hm', h₁, ← h₀, ← hm]
    exact hc.once
  alone := alone_setPhase ha hc.alone
  agrees := agrees_setPhase hc.agrees fun w hw => absurd hw (hphase w)

theorem Serialized.call (hc : Serialized env s₀ c) (p : PublicCall) :
    Serialized env s₀ (c.call p) where
  storage := hc.storage
  once := ids_call p hc.once
  alone := hc.alone
  agrees := hc.agrees

theorem Serialized.congr (hc : Serialized env s₀ c) {task : ℕ → SyncTask}
    {delivered : List StorageTask} {faults : List ℕ} :
    Serialized env s₀ { c with task, delivered, faults } := ⟨hc.storage, hc.once, hc.alone, hc.agrees⟩

theorem ids_eraseIdx : ∀ {ts : List StorageTask} {n : ℕ}, ts[n]? = some t →
    ids (ts.eraseIdx n) + {t.id} = ids ts
  | u :: ts, 0, ht => by
    obtain rfl : u = t := Option.some.inj ht
    rw [List.eraseIdx_cons_zero, ids_cons, add_comm]
  | u :: ts, n + 1, ht => by
    have ih : ids (ts.eraseIdx n) + {t.id} = ids ts := ids_eraseIdx ht
    rw [List.eraseIdx_cons_succ, ids_cons, ids_cons, add_assoc, ih]

theorem Serialized.take (hc : Serialized env s₀ c) (ht : c.posted[n]? = some t)
    (hadm : c.admits t = true) :
    Serialized env s₀
      { c with posted := c.posted.eraseIdx n, active := c.active ++ [{ task := t }] } where
  storage := hc.storage
  once := by
    have hposted : ids (c.posted.eraseIdx n) + {t.id} = ids c.posted := ids_eraseIdx ht
    have hin : ((c.active ++ [({ task := t } : Handler)]).map Handler.inHand).sum =
        c.inHand + {t.id} := by
      rw [List.map_append, List.sum_append]
      rfl
    unfold Threads.inHand
    rw [hin, ← hc.once, ← hposted]
    abel
  alone := by
    unfold Threads.admits at hadm
    split_ifs at hadm with hex
    · refine Or.inl ?_
      rw [List.isEmpty_iff.mp hadm]
      rfl
    · refine Or.inr fun b hb => ?_
      rcases List.mem_append.mp hb with hb | hb
      · simpa using List.all_eq_true.mp hadm b hb
      · rw [List.mem_singleton.mp hb]
        exact Bool.eq_false_iff.mpr hex
  agrees b hb w hw := by
    rcases List.mem_append.mp hb with hb | hb
    · exact hc.agrees b hb w hw
    · rw [List.mem_singleton.mp hb] at hw ⊢
      obtain rfl : Work.started = w := Phase.working.inj hw
      trivial

theorem Serialized.agrees_worked (hc : Serialized env s₀ c) (ha : c.active[n]? = some a)
    {rs : List StorageTask} {stage : Stage} :
    ∀ b ∈ (c.setPhase n a (.completing stage rs)).active, ∀ w, b.phase = .working w →
      w.Agrees (handleMessage env c.storage a.task).tdb b.task := by
  rcases hc.alone with hl | hall
  · intro b hb w hw
    -- the handler that has moved is the only one
    obtain ⟨hn, _⟩ := List.getElem?_eq_some_iff.mp ha
    obtain rfl : n = 0 := by omega
    obtain ⟨x, hx⟩ := List.length_eq_one_iff.mp (by omega : c.active.length = 1)
    change b ∈ c.active.set 0 _ at hb
    rw [hx, List.set_cons_zero, List.mem_singleton] at hb
    rw [hb] at hw
    cases hw
  · rw [tdb_concurrent env c.storage (hall a (List.mem_of_getElem? ha))]
    exact agrees_setPhase hc.agrees fun w hw => nomatch hw

theorem Serialized.worked (hc : Serialized env s₀ c) (ha : c.active[n]? = some a)
    (hrun : c.storage.stopped = false) (hp : a.phase = .working w)
    (hw : work env c.storage a.task w = .inr s) {rs : List StorageTask} :
    Serialized env s₀ (({ c with storage := s, handled := c.handled ++ [a.task] } :
      Threads h).setPhase n a (.completing .reached rs)) := by
  obtain rfl := work_answers hrun (hc.agrees a (List.mem_of_getElem? ha) w hp) hw
  refine ⟨?_, ?_, alone_setPhase (c := c) ha hc.alone, hc.agrees_worked ha⟩
  · change handleMessage env c.storage a.task = run env s₀ (c.handled ++ [a.task])
    rw [run_concat, ← hc.storage]
  · obtain ⟨m, hm, hm'⟩ := inHand_eq ha (.completing .reached rs)
    change ids (c.handled ++ [a.task]) + (c.setPhase n a (.completing .reached rs)).inHand +
      ids c.posted = Multiset.range c.next
    rw [← hc.once, hm, hm', Handler.inHand_working hp, Handler.inHand_completing rfl, ids_append,
      ids_cons, ids_nil]
    abel

theorem Serialized.looked (hc : Serialized env s₀ c) (ha : c.active[n]? = some a)
    (hp : a.phase = .working w) (hw : work env c.storage a.task w = .inl w') :
    Serialized env s₀ (c.setPhase n a (.working w')) where
  storage := hc.storage
  once := by
    obtain ⟨m, hm, hm'⟩ := inHand_eq ha (.working w')
    have hsame : (c.setPhase n a (.working w')).inHand = c.inHand := by
      rw [hm', hm, Handler.inHand_working hp, Handler.inHand_working rfl]
    rw [hsame]
    exact hc.once
  alone := alone_setPhase ha hc.alone
  agrees := agrees_setPhase hc.agrees fun _ hw' => by
    obtain rfl := Phase.working.inj hw'
    exact work_looks (hc.agrees a (List.mem_of_getElem? ha) w hp) hw

theorem Serialized.ended (hc : Serialized env s₀ c) (ha : c.active[n]? = some a)
    (h₀ : a.inHand = 0) : Serialized env s₀ { c with active := c.active.eraseIdx n } where
  storage := hc.storage
  once := by
    have hin : ((c.active.eraseIdx n).map Handler.inHand).sum + a.inHand = c.inHand :=
      sum_map_eraseIdx Handler.inHand ha
    rw [h₀, add_zero] at hin
    rw [← hc.once, ← hin]
    rfl
  alone := hc.alone.imp (List.length_eraseIdx_le ..).trans fun hall b hb =>
    hall b (List.mem_of_mem_eraseIdx hb)
  agrees b hb := hc.agrees b (List.mem_of_mem_eraseIdx hb)

theorem Serialized.step (hc : Serialized env s₀ c) (hstep : c.step env e = some c') :
    Serialized env s₀ c' := by
  cases step_cases hstep with
  | call p => exact hc.call p
  | @nested n a stage r rs p ha hp _ =>
    refine Serialized.setPhase (c := Threads.call _ p) ((hc.congr).call p) ha
      (Handler.inHand_completing hp) ?_ ?_
    · split_ifs <;> rfl
    · split_ifs <;> exact nofun
  | wait _ | wake _ | resume _ => exact hc.congr
  | take ht hadm => exact hc.take ht hadm
  | looked ha hp hw => exact (hc.looked ha hp hw).congr
  | worked ha hp hw => exact (hc.worked ha (Threads.running_of_step hstep).1 hp hw).congr
  | ended ha hp => exact hc.ended ha (Handler.inHand_completing hp)
  | completed ha hp hr hk =>
    refine (hc.setPhase ha (Handler.inHand_completing hp) ?_ ?_).congr
    · split <;> rfl
    · split <;> exact nofun
  | delivered ha hp hr =>
    refine (hc.setPhase ha (Handler.inHand_completing hp) ?_ ?_).congr
    · rfl
    · exact nofun
  | back ha hp hi =>
    refine hc.setPhase ha (Handler.inHand_inCallback hp) ?_ ?_
    · rfl
    · exact nofun

theorem serialized_init (disk : Bytes → Records) (useIdle : Bool) :
    Serialized env (catalinaStorageInit h disk) (Threads.init h disk useIdle) where
  storage := rfl
  once := rfl
  alone := Or.inl (Nat.zero_le 1)
  agrees _ ha := absurd ha List.not_mem_nil

theorem handled_step (hstep : c.step env e = some c') : c.handled <+: c'.handled := by
  cases step_cases hstep with
  | worked _ _ _ => exact List.prefix_append _ _
  | call _ | nested _ _ _ _ | wait _ | wake _ | resume _ | take _ _ | looked _ _ _ | ended _ _
  | completed _ _ _ _ | delivered _ _ _ | back _ _ _ => exact List.prefix_refl _

/-- **Every interleaving is serial.** The storage is that of the messages handled so far, one after
the other; every message is posted, in hand or handled, and is there once; and the order of those
handled never changes, so that a message handled before another one is posted precedes it. -/
theorem threads_serialized (env : Env) (disk : Bytes → Records) (useIdle : Bool)
    (es es' : List ThreadEvent) (c c' : Threads h)
    (hc : exec (Threads.step env) (Threads.init h disk useIdle) es = some c)
    (hc' : exec (Threads.step env) c es' = some c') :
    c.storage = run env (catalinaStorageInit h disk) c.handled ∧
      ids c.handled + c.inHand + ids c.posted = Multiset.range c.next ∧
      c.handled <+: c'.handled := by
  have hserial : Serialized env (catalinaStorageInit h disk) c :=
    exec_invariant (E := fun _ => True) (fun _ _ _ hs _ => hs.step) (serialized_init disk useIdle)
      (fun _ _ => trivial) hc
  refine ⟨hserial.storage, hserial.once, ?_⟩
  exact exec_relates (R := fun c c' => c.handled <+: c'.handled) (E := fun _ => True)
    (I := fun _ => True) (fun c => List.prefix_refl c.handled) (fun _ _ _ => List.IsPrefix.trans)
    (fun _ _ _ _ _ hs => ⟨trivial, handled_step hs⟩) trivial (fun _ _ => trivial) hc'

/-- The state after some events of threads around an empty storage. -/
def threadsAfter (useIdle : Bool) (es : List ThreadEvent) : Threads lp64 :=
  (exec (Threads.step fun _ => {}) (Threads.init lp64 (fun _ => ∅) useIdle) es).getD
    (Threads.init lp64 (fun _ => ∅) useIdle)

/-- An open that returns; then a set, a get and a count are called, and the get and the count are
handled together. -/
def overlappingCalls : List ThreadEvent :=
  [.call (.open [47]), .wait 0, .take 0] ++ List.replicate 6 (.advance 0) ++
    [.resume 0, .call (.set 0 [1] [10]), .call (.get [1]), .call .countKeys, .wait 1, .take 0] ++
    List.replicate 6 (.advance 0) ++
    [.take 0, .take 0, .advance 0, .advance 1, .advance 0, .advance 1, .advance 1]

/-- The overlapping calls, with the count completed and its caller still to sleep. -/
theorem threads_serialized_overlapping :
    (threadsAfter true overlappingCalls).storage =
        run (fun _ => {}) (catalinaStorageInit lp64 fun _ => ∅)
          (threadsAfter true overlappingCalls).handled ∧
      ids (threadsAfter true overlappingCalls).handled +
          (threadsAfter true overlappingCalls).inHand +
          ids (threadsAfter true overlappingCalls).posted =
        Multiset.range (threadsAfter true overlappingCalls).next ∧
      (threadsAfter true overlappingCalls).handled <+:
        (threadsAfter true (overlappingCalls ++ [.advance 0])).handled :=
  threads_serialized (fun _ => {}) (fun _ => ∅) true overlappingCalls [.advance 0] _ _ rfl rfl

end Catalina
