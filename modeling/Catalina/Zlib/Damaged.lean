import Catalina.Zlib.Chunks

/-!
# Reading damaged records

The flag byte, the length and the stream of a record are taken from the input as they are.

* `ReadsSafely`: the read returns, and every byte of its output comes from the input or from
  `inflate`.
* `Intact`: when it does; **`readsSafely_iff`**: exactly then.
* `damaged_records`: a record without a tail is read outside its bounds, and a text of six bytes aborts
  the process.
-/

namespace Catalina

/-- The part of a record that `inflate` is given. -/
def streamOf (input : Bytes) : Bytes := input.take (guint (input.length - 5))

/-- The length in the tail of a record. -/
def declaredLength (input : Bytes) : ℕ := ofBeBytes ((input.drop (input.length - 5)).take 4)

/-- Every byte of the output was copied from the input or written by `inflate`. -/
def Produced (z : Zlib) (input output : Bytes) : Prop :=
  if input.getLast? = some 0 then output = input.dropLast
  else
    let r := z.inflate (streamOf input) (declaredLength input)
    output.length ≤ r.written.length ∧ output = r.written.take output.length

/-- The read of `input` answers `FALSE`, or `TRUE` with an output whose bytes are all produced. It
does not look at memory outside the input and does not abort the process. -/
def ReadsSafely (z : Zlib) (o : ByteOrder) (t : CatalinaZlibTransform) (input : Bytes) : Prop :=
  ∃ r, zlibTransformRealRead z o t input = .ok r ∧
    ∀ output, r = .ok output → Produced z input (output.getD [])

/-- There is a flag byte and it is `0`, or `inflate` cannot be set up, or there is a tail and the stream
in front of it ends and has at least as many bytes as the tail says. -/
def Intact (z : Zlib) (input : Bytes) : Prop :=
  input ≠ [] ∧ (input.getLast? = some 0 ∨ z.inflateInit = false ∨
    5 ≤ input.length ∧
      (z.inflate (streamOf input) (declaredLength input)).streamEnd = true ∧
        declaredLength input ≤ (z.inflate (streamOf input) (declaredLength input)).written.length)

theorem getD_allocated (bytes : Bytes) : (allocated bytes).getD [] = bytes := by
  unfold allocated
  split_ifs with h
  · exact h.symm
  · rfl

theorem declaredLength_eq (o : ByteOrder) {input : Bytes} (h : 5 ≤ input.length) :
    toBE o 4 (ofImage o ((input.drop (input.length - 5)).take 4)) = declaredLength input := by
  have hlen : ((input.drop (input.length - 5)).take 4).length = 4 := by
    rw [List.length_take, List.length_drop]
    omega
  have hbe := toBE_ofImage o ((input.drop (input.length - 5)).take 4)
  rwa [hlen] at hbe

theorem zlibTransformRealRead_tail {z : Zlib} (o : ByteOrder) (t : CatalinaZlibTransform)
    {input : Bytes} {last : UInt8} (hlast : input.getLast? = some last) (hflag : last ≠ 0)
    (hinit : z.inflateInit = true) (hlong : 5 ≤ input.length) :
    zlibTransformRealRead z o t input =
      if (z.inflate (streamOf input) (declaredLength input)).streamEnd then
        .ok (.ok (allocated (padTo 0 (declaredLength input)
          ((z.inflate (streamOf input) (declaredLength input)).written.take
            (declaredLength input)))))
      else .error .aborted := by
  unfold zlibTransformRealRead
  rw [hlast]
  dsimp only
  rw [if_neg hflag, hinit, if_neg (by decide), if_neg (Nat.not_lt.mpr hlong),
    declaredLength_eq o hlong]
  rfl

theorem produced_tail_iff {z : Zlib} {input : Bytes} (hflag : input.getLast? ≠ some 0) :
    Produced z input ((allocated (padTo 0 (declaredLength input)
        ((z.inflate (streamOf input) (declaredLength input)).written.take
          (declaredLength input)))).getD []) ↔
      declaredLength input ≤ (z.inflate (streamOf input) (declaredLength input)).written.length := by
  unfold Produced
  rw [if_neg hflag, getD_allocated]
  dsimp only
  generalize (z.inflate (streamOf input) (declaredLength input)).written = written
  have hlen : (padTo 0 (declaredLength input) (written.take (declaredLength input))).length =
      declaredLength input := by
    rw [padTo, List.length_append, List.length_replicate, List.length_take]
    omega
  rw [hlen]
  refine and_iff_left_of_imp fun hfull => ?_
  rw [padTo, List.length_take, Nat.min_eq_left hfull, Nat.sub_self, List.replicate_zero,
    List.append_nil]

theorem readsSafely_tail_iff {z : Zlib} (o : ByteOrder) (t : CatalinaZlibTransform) {input : Bytes}
    {last : UInt8} (hlast : input.getLast? = some last) (hflag : last ≠ 0)
    (hinit : z.inflateInit = true) (hlong : 5 ≤ input.length) :
    ReadsSafely z o t input ↔
      (z.inflate (streamOf input) (declaredLength input)).streamEnd = true ∧
        declaredLength input ≤
          (z.inflate (streamOf input) (declaredLength input)).written.length := by
  have hcompressed : input.getLast? ≠ some 0 := by
    rw [hlast]
    exact fun h => hflag (Option.some.inj h)
  unfold ReadsSafely
  rw [zlibTransformRealRead_tail o t hlast hflag hinit hlong, ← produced_tail_iff hcompressed]
  split_ifs with hend
  · constructor
    · rintro ⟨_, hr, hout⟩
      obtain rfl := Except.ok.inj hr
      exact ⟨hend, hout _ rfl⟩
    · rintro ⟨_, hproduced⟩
      refine ⟨_, rfl, fun output h => ?_⟩
      cases h
      exact hproduced
  · refine iff_of_false (fun ⟨_, hr, _⟩ => by cases hr) fun h => hend h.1

/-- **The read is safe exactly when the record is intact.** -/
theorem readsSafely_iff (z : Zlib) (o : ByteOrder) (t : CatalinaZlibTransform) (input : Bytes) :
    ReadsSafely z o t input ↔ Intact z input := by
  unfold ReadsSafely Intact
  cases hlast : input.getLast? with
  | none =>
    have hnil : input = [] := List.getLast?_eq_none_iff.mp hlast
    rw [zlibTransformRealRead, hlast]
    exact iff_of_false (fun ⟨_, hr, _⟩ => by cases hr) fun h => h.1 hnil
  | some last =>
    have hne : input ≠ [] := fun hnil => by
      rw [hnil] at hlast
      cases hlast
    by_cases hzero : last = 0
    · rw [hzero] at hlast ⊢
      rw [zlibTransformRealRead, hlast]
      refine iff_of_true ⟨_, rfl, fun output h => ?_⟩ ⟨hne, Or.inl rfl⟩
      cases h
      rw [Produced, if_pos hlast, getD_allocated]
    have hflag : ¬ some last = some 0 := fun h => hzero (Option.some.inj h)
    by_cases hinit : z.inflateInit = false
    · rw [zlibTransformRealRead, hlast]
      dsimp only
      rw [if_neg hzero, if_pos hinit]
      exact iff_of_true ⟨_, rfl, fun output h => by cases h⟩ ⟨hne, Or.inr (Or.inl hinit)⟩
    by_cases hshort : input.length < 5
    · rw [zlibTransformRealRead, hlast]
      dsimp only
      rw [if_neg hzero, if_neg hinit, if_pos hshort]
      refine iff_of_false (fun ⟨_, hr, _⟩ => by cases hr) ?_
      rintro ⟨_, h | h | ⟨h, _⟩⟩
      · exact hflag h
      · exact hinit h
      · omega
    have hlong := Nat.not_lt.mp hshort
    refine (readsSafely_tail_iff o t hlast hzero (Bool.not_eq_false _ ▸ hinit) hlong).trans ?_
    constructor
    · exact fun h => ⟨hne, Or.inr (Or.inr ⟨hlong, h⟩)⟩
    · rintro ⟨_, h | h | ⟨_, h⟩⟩
      · exact absurd h hflag
      · exact absurd h hinit
      · exact h

/-- **Records written before the transform was installed**: `abc` is too short for a tail, and `hello!`
is no stream. -/
theorem damaged_records :
    zlibTransformRealRead storedZlib .little {} [97, 98, 99] = .error .outOfBounds ∧
      zlibTransformRealRead storedZlib .little {} [104, 101, 108, 108, 111, 33] = .error .aborted ∧
        ¬ ReadsSafely storedZlib .little {} [97, 98, 99] ∧
          ¬ ReadsSafely storedZlib .little {} [104, 101, 108, 108, 111, 33] := by
  have hshort : zlibTransformRealRead storedZlib .little {} [97, 98, 99] = .error .outOfBounds := rfl
  have htext : zlibTransformRealRead storedZlib .little {} [104, 101, 108, 108, 111, 33] =
      .error .aborted := by decide
  refine ⟨hshort, htext, fun ⟨_, hr, _⟩ => ?_, fun ⟨_, hr, _⟩ => ?_⟩
  · rw [hshort] at hr
    cases hr
  · rw [htext] at hr
    cases hr

end Catalina
