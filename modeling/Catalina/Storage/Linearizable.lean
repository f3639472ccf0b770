import Catalina.Storage.Handshake
import Catalina.Storage.Transparent

/-!
# The storage is a linearizable map

The layers together: threads that call the storage, handlers that overlap, a transform between the
storage and its files, and the serial transactional map at the other end.

* `Threads.Answer`: an answer that a caller has got.
* `Linearizes`: what callers are answered is what the serial machine answers, in an order in which a
  call that has got its answer is before every call that is made later.
* **`linearizable`**.
-/

namespace Catalina

variable {h : Host} {env : Env} {c c' : Threads h} {r : StorageTask}

/-- A caller has got the answer `r`: its synchronous call has returned it, or its callback has been
given it. -/
def Threads.Answer (c : Threads h) (r : StorageTask) : Prop :=
  ((c.task r.id).isSync = true ∧ (c.task r.id).caller = .returned (some r)) ∨ r ∈ c.delivered

theorem Handshake.mem_replies_of_answer (hk : Handshake c) (hr : c.Answer r) :
    r ∈ c.storage.replies := by
  rcases hr with ⟨hsync, hret⟩ | hr
  · obtain ⟨r', hr', _, hmem⟩ := hk.answer_of_returned hsync hret
    obtain rfl : r = r' := Option.some.inj hr'
    exact hmem
  · exact Multiset.mem_of_le hk.delivered_le hr

/-- The serial machine in the state `a` explains what the callers have seen up to `c'`. Its messages
are those handled, and the calls that had their answers at `c` come before those made later. -/
structure Linearizes (a : Serial) (c c' : Threads h) : Prop where
  returned : ∀ i answer, (c'.task i).isSync = true → (c'.task i).caller = .returned answer →
    ∃ r, answer = some r ∧ r.id = i
  answers : ∀ r, c'.Answer r → a.replies.filter (·.id = r.id) = [r.answer r.success]
  order : ∀ r, c.Answer r → ∀ j ∈ ids c'.handled, c.next ≤ j →
    [r.id, j].Sublist (c'.handled.map StorageTask.id)

section Linearizes

variable {disk : Bytes → Records}

theorem filter_answers {rs : List StorageTask} {l : List StorageTask} (i : ℕ)
    (hl : rs.map (fun r => r.answer r.success) = l) :
    l.filter (·.id = i) = (rs.filter (·.id = i)).map fun r => r.answer r.success := by
  rw [← hl, List.filter_map]
  rfl

theorem precedes_of_answer (hk : Handshake c) (hs : Serialized env (catalinaStorageInit h disk) c)
    (hpre : c.handled <+: c'.handled) (hr : c.Answer r) {j : ℕ} (hj : j ∈ ids c'.handled)
    (hlater : c.next ≤ j) : [r.id, j].Sublist (c'.handled.map StorageTask.id) := by
  obtain ⟨later, heq⟩ := hpre
  have hmem : r.id ∈ c.handled.map StorageTask.id := by
    have hids : r.id ∈ ids c.storage.replies := mem_ids_iff.mpr ⟨r, hk.mem_replies_of_answer hr, rfl⟩
    exact Multiset.mem_of_le hs.replies_le hids
  have hold : j ∉ c.handled.map StorageTask.id := fun hin => by
    have hrange : j ∈ Multiset.range c.next := by
      rw [← hs.once, add_assoc]
      exact Multiset.mem_add.mpr (Or.inl hin)
    exact absurd (Multiset.mem_range.mp hrange) (by omega)
  have hnew : j ∈ later.map StorageTask.id := by
    have hall : j ∈ c'.handled.map StorageTask.id := hj
    rw [← heq, List.map_append] at hall
    exact (List.mem_append.mp hall).resolve_left hold
  rw [← heq, List.map_append]
  exact (List.singleton_sublist.mpr hmem).append (List.singleton_sublist.mpr hnew)

end Linearizes

/-- **The storage is a linearizable transactional map.** However threads call it and its handlers
take turns, woken by signals only: if the transforms give back the data that are set, no open empties
a file with records, ids stay below `2 ^ 32`, `tdb` succeeds and no commit fails, there is one order of
the messages, which respects the order in which calls return and are made, such that every answer is
the one of the serial machine and the files hold what the machine's maps hold. -/
theorem linearizable {T : ℕ → Option Transform} (he : Succeeds env) {disk plain : Bytes → Records}
    (hdisk : ∀ f, SameKeys (ReadAs T) (disk f) (plain f)) (useIdle : Bool)
    (es es' : List ThreadEvent) (hes : ∀ e ∈ es ++ es', ∀ i, e ≠ .wake i)
    (hc : exec (Threads.step (env.transforming T)) (Threads.init h disk useIdle) es = some c)
    (hc' : exec (Threads.step (env.transforming T)) c es' = some c')
    (hdata : ∀ t ∈ c'.handled, t.what = .messageSet → GivenBack T t.id t.data)
    (hkeep : Along (handleMessage (env.transforming T)) (KeepsRecords (env.transforming T))
      (catalinaStorageInit h disk) c'.handled)
    (hids : ∀ t ∈ c'.handled, t.txnId < 2 ^ 32) (hbegins : begins c'.handled < 2 ^ 32)
    (hissued : ∀ r ∈ c'.storage.replies, r.txnId < 2 ^ 32) (hok : NoFailedCommit c'.storage) :
    Represents T c'.storage ((Serial.init plain).run c'.handled) ∧
      Linearizes ((Serial.init plain).run c'.handled) c c' := by
  obtain ⟨hs, hk⟩ := handshake_run (fun e he => hes e (List.mem_append_left es' he)) hc
  obtain ⟨hs', hk'⟩ := handshake_run hes (exec_trans hc hc')
  have hrep : Represents T c'.storage ((Serial.init plain).run c'.handled) := by
    rw [hs'.storage] at hissued hok ⊢
    exact transformed_refines_serial he hdisk c'.handled hdata hkeep hids hbegins hissued hok
  refine ⟨hrep, ⟨fun i answer hsync hret => ?_, fun r hr => ?_, fun r hr j hj hlater => ?_⟩⟩
  · obtain ⟨r, hanswer, hi, _⟩ := hk'.answer_of_returned hsync hret
    exact ⟨r, hanswer, hi⟩
  · have hmem := hk'.mem_replies_of_answer hr
    rw [filter_answers r.id hrep.replies, filter_id hs'.replies_nodup hmem]
    rfl
  · have hpre : c.handled <+: c'.handled :=
      exec_relates (R := fun c c' => c.handled <+: c'.handled) (E := fun _ => True)
        (I := fun _ => True) (fun c => List.prefix_refl c.handled)
        (fun _ _ _ => List.IsPrefix.trans) (fun _ _ _ _ _ hs => ⟨trivial, handled_step hs⟩) trivial
        (fun _ _ => trivial) hc'
    exact precedes_of_answer hk hs hpre hr hj hlater

/-- The state after some events of threads around a storage that compresses everything. -/
def compressedAfter (es : List ThreadEvent) : Threads lp64 :=
  (exec (Threads.step (Env.transforming (fun _ => {}) zeroWatermark))
    (Threads.init lp64 (fun _ => ∅) true) es).getD (Threads.init lp64 (fun _ => ∅) true)

/-- The overlapping calls, until the get returns. -/
def overlappingGet : List ThreadEvent :=
  overlappingCalls ++ [.wait 2] ++ List.replicate 4 (.advance 0) ++ [.resume 2]

/-- The open has returned when the other calls are made; the get returns what has been set. -/
theorem linearizable_overlapping :
    Represents zeroWatermark (compressedAfter overlappingGet).storage
        ((Serial.init fun _ => ∅).run (compressedAfter overlappingGet).handled) ∧
      Linearizes ((Serial.init fun _ => ∅).run (compressedAfter overlappingGet).handled)
        (compressedAfter (overlappingGet.take 10)) (compressedAfter overlappingGet) ∧
      (compressedAfter overlappingGet).Answer
        { getTask 2 [1] with data := [10], success := true } := by
  have he : Succeeds fun _ => {} := fun _ => ⟨rfl, rfl, rfl, rfl, rfl, rfl⟩
  have hes : ∀ e ∈ overlappingGet.take 10 ++ overlappingGet.drop 10, ∀ i, e ≠ .wake i := by
    rw [List.take_append_drop]
    simp [overlappingGet, overlappingCalls]
  have hdata : ∀ t ∈ (compressedAfter overlappingGet).handled, t.what = .messageSet →
      t.data ≠ [] ∧ t.data.length ≤ 100 := by decide
  have hrest : exec (Threads.step (Env.transforming (fun _ => {}) zeroWatermark))
      (compressedAfter (overlappingGet.take 10)) (overlappingGet.drop 10) =
        some (compressedAfter overlappingGet) := rfl
  have hlin := linearizable he (fun _ => sameKeys_empty) true (overlappingGet.take 10) _ hes rfl hrest
    (fun t ht hw => givenBack_zeroWatermark t.id (hdata t ht hw).1 (hdata t ht hw).2)
    (Along.of_forall (fun _ _ _ _ ht => Bool.noConfusion ht) _ _) (by decide) (by decide)
    (by decide) (by unfold NoFailedCommit; decide)
  exact ⟨hlin.1, hlin.2, Or.inl ⟨rfl, rfl⟩⟩

end Catalina
