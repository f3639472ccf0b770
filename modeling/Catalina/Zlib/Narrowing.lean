import Catalina.Zlib.RoundTrip

/-!
# Lengths that do not fit

The length of the input reaches `deflate` and the tail as a `guint`, and the length of the stream is
counted in one. The input length itself is a `gsize`.

* `Zlib.Fails`: `deflate` reports an error before the end of the stream.
* `NotTruncated`: the write answers `FALSE`, or `TRUE` with all of the input and exact lengths.
* **`notTruncated_iff`**: exactly when the lengths fit, or nothing is compressed.
* `empty_stream_for_input`: an input of `2 ^ 32` bytes that is written as the empty one.
-/

namespace Catalina

/-- From the state `strm` on, `deflate` fills some chunks and then reports an error. -/
inductive Zlib.Fails (z : Zlib) : z.Stream → Prop
  | now {strm : z.Stream} (he : (z.deflate strm chunk).streamError = true) : z.Fails strm
  | later {strm : z.Stream} (he : (z.deflate strm chunk).streamError = false)
    (hfull : chunk ≤ (z.deflate strm chunk).written.length)
    (hnext : z.Fails (z.deflate strm chunk).next) : z.Fails strm

theorem deflateLoop_fails {z : Zlib} {strm : z.Stream} (hf : z.Fails strm) :
    ∃ N, ∀ fuel, N ≤ fuel → ∀ parts length, deflateLoop z fuel strm parts length = .ok none := by
  induction hf with
  | now he =>
    refine ⟨1, fun fuel hfuel parts length => ?_⟩
    obtain ⟨n, rfl⟩ := Nat.exists_eq_add_of_le' hfuel
    rw [deflateLoop]
    exact if_pos he
  | later he hfull _ ih =>
    obtain ⟨N, hN⟩ := ih
    refine ⟨N + 1, fun fuel hfuel parts length => ?_⟩
    obtain ⟨n, rfl⟩ : ∃ n, fuel = n + 1 := ⟨fuel - 1, by omega⟩
    rw [deflateLoop]
    dsimp only
    rw [he, if_neg Bool.false_ne_true, Nat.sub_eq_zero_of_le hfull, if_pos rfl]
    exact hN n (by omega) _ _

theorem Zlib.Emits.not_fails {z : Zlib} {strm : z.Stream} {s : Bytes} (hs : z.Emits strm s) :
    ¬ z.Fails strm := by
  intro hf
  induction hf generalizing s with
  | now he =>
    rw [(hs.step chunk_pos).1] at he
    cases he
  | later _ _ _ ih => exact ih (hs.step chunk_pos).2.2.1

/-! ## Where the lengths end up -/

theorem length_copyParts {length : ℕ} : ∀ {parts : List Bytes} {offset : ℕ} {buf buf' : Bytes},
    copyParts length parts offset buf = .ok buf' → buf'.length = buf.length
  | [], _, _, _, h => by
    cases h
    rfl
  | part :: parts, offset, buf, buf', h => by
    rw [copyParts] at h
    split_ifs at h with hle
    · exact (length_blitOrStop h).1
    · dsimp only at h
      cases hblit : blitOrStop buf offset (part.take (min (guintSub length offset) chunk)) with
      | error e =>
        rw [hblit] at h
        cases h
      | ok b =>
        rw [hblit] at h
        exact (length_copyParts h).trans (length_blitOrStop hblit).1

theorem length_joinParts {o : ByteOrder} {n length : ℕ} {parts : List Bytes} {r : TransformResult}
    (h : joinParts o n length parts = .ok r) :
    ∃ output, r = .ok (some output) ∧ output.length = guint (length + 5) := by
  unfold joinParts at h
  dsimp only at h
  split_ifs at h with hshort
  obtain ⟨b₁, h₁, h⟩ := bind_eq_ok h
  obtain ⟨b₂, h₂, h⟩ := bind_eq_ok h
  obtain ⟨b₃, h₃, h⟩ := bind_eq_ok h
  have hlen : b₃.length = guint (length + 5) := by
    rw [length_copyParts h₃, (length_blitOrStop h₂).1, (length_blitOrStop h₁).1, padTo,
      List.nil_append, List.length_replicate, List.length_nil, Nat.sub_zero]
  have hne : b₃ ≠ [] := by
    rintro rfl
    rw [List.length_nil] at hlen
    omega
  refine ⟨b₃, ?_, hlen⟩
  rw [allocated, if_neg hne] at h
  exact (Except.ok.inj h).symm

/-! ## Nothing is lost -/

/-- What `TRUE` promises of the output for `x`, whose stream is `s`: a copy of `x`, or `deflate` was
given all of `x`, the tail holds the length of `x`, and the output is five bytes longer than `s`. -/
def Complete (t : CatalinaZlibTransform) (x s output : Bytes) : Prop :=
  if Raw t x then output = x ++ [0]
  else x.take (guint x.length) = x ∧
    ofBeBytes ((output.drop (output.length - 5)).take 4) = x.length ∧
      output.length = s.length + 5

/-- The write of `x` answers `FALSE`, or `TRUE` with a complete output. -/
def NotTruncated (z : Zlib) (o : ByteOrder) (fuel : ℕ) (t : CatalinaZlibTransform) (x s : Bytes) :
    Prop :=
  (∃ e, zlibTransformRealWrite z o fuel t x = .ok (.fail e)) ∨
    ∃ output, zlibTransformRealWrite z o fuel t x = .ok (.ok (some output)) ∧ Complete t x s output

variable {z : Zlib} {o : ByteOrder} {t : CatalinaZlibTransform} {x s : Bytes}

theorem complete_of_fits (hraw : ¬ Raw t x) (hx : x.length < 2 ^ 32) :
    Complete t x s (s ++ beBytes 4 x.length ++ [1]) := by
  have hlen : (s ++ beBytes 4 x.length ++ [1]).length = s.length + 5 := by simp
  unfold Complete
  rw [if_neg hraw, guint_of_lt hx, List.take_length, hlen, Nat.add_sub_cancel, List.append_assoc,
    List.drop_left]
  refine ⟨rfl, ?_, rfl⟩
  rw [List.take_left' (length_beBytes 4 x.length)]
  exact ofBeBytes_beBytes hx

theorem notTruncated_emits_iff {strm : z.Stream} (hraw : ¬ Raw t x)
    (hinit : z.deflateInit t.gintLevel (x.take (guint x.length)) = some strm)
    (hemits : z.Emits strm s) {fuel : ℕ} (hfuel : s.length / chunk + 1 ≤ fuel) :
    NotTruncated z o fuel t x s ↔ x.length < 2 ^ 32 ∧ s.length + 5 < 2 ^ 32 := by
  have hwrite := zlibTransformRealWrite_emits o fuel hraw hinit hemits
  rw [if_pos (by omega)] at hwrite
  constructor
  · rintro (⟨e, he⟩ | ⟨output, houtput, hcomplete⟩)
    · obtain ⟨_, hr, _⟩ := length_joinParts (hwrite.symm.trans he)
      cases hr
    · obtain ⟨_, hr, hlen⟩ := length_joinParts (hwrite.symm.trans houtput)
      cases hr
      obtain ⟨hgiven, _, hexact⟩ := (if_neg hraw).mp hcomplete
      have h₁ := guint_lt x.length
      have h₂ := guint_lt (guint s.length + 5)
      have h₃ := congrArg List.length hgiven
      rw [List.length_take] at h₃
      omega
  · rintro ⟨hx, hs⟩
    rw [guint_of_lt (by omega), joinParts_pieces o _ hs] at hwrite
    exact Or.inr ⟨_, hwrite, complete_of_fits hraw hx⟩

/-- **The write does not truncate exactly when the lengths fit**, the input is copied or the
compressor refuses. -/
theorem notTruncated_iff (hz : ∀ strm, z.deflateInit t.gintLevel (x.take (guint x.length)) =
      some strm → z.Emits strm s ∨ z.Fails strm) :
    ∃ N, ∀ fuel, N ≤ fuel → (NotTruncated z o fuel t x s ↔
      Raw t x ∨
        (∀ strm, z.deflateInit t.gintLevel (x.take (guint x.length)) = some strm → z.Fails strm) ∨
          x.length < 2 ^ 32 ∧ s.length + 5 < 2 ^ 32) := by
  by_cases hraw : Raw t x
  · refine ⟨0, fun fuel _ => iff_of_true (Or.inr ⟨_, zlibTransformRealWrite_raw o fuel hraw, ?_⟩)
      (Or.inl hraw)⟩
    exact (if_pos hraw).mpr rfl
  have hwm : ¬ x.length ≤ guint t.watermark := hraw
  cases hinit : z.deflateInit t.gintLevel (x.take (guint x.length)) with
  | none =>
    refine ⟨0, fun fuel _ => iff_of_true (Or.inl ⟨zlibInitError, ?_⟩) (Or.inr (Or.inl nofun))⟩
    unfold zlibTransformRealWrite
    rw [if_neg hwm, hinit]
  | some strm =>
    rcases hz strm hinit with hemits | hfails
    · refine ⟨s.length / chunk + 1, fun fuel hfuel => ?_⟩
      rw [notTruncated_emits_iff hraw hinit hemits hfuel]
      constructor
      · exact fun hlen => Or.inr (Or.inr hlen)
      · rintro (h | hrefused | hlen)
        · exact absurd h hraw
        · exact absurd (hrefused strm rfl) hemits.not_fails
        · exact hlen
    · obtain ⟨N, hN⟩ := deflateLoop_fails hfails
      refine ⟨N, fun fuel hfuel => iff_of_true (Or.inl ⟨zlibDeflateError, ?_⟩) (Or.inr (Or.inl ?_))⟩
      · unfold zlibTransformRealWrite
        rw [if_neg hwm, hinit]
        dsimp only
        rw [hN fuel hfuel]
      · intro strm' hstrm
        cases hstrm
        exact hfails

theorem notTruncated_iff_stored : ∃ N, ∀ fuel, N ≤ fuel →
    (NotTruncated storedZlib .little fuel { level := 0 } [97] (storedStream [97]) ↔
      Raw { level := 0 } [97] ∨
        (∀ strm, storedZlib.deflateInit 0 (([97] : Bytes).take (guint 1)) = some strm →
          storedZlib.Fails strm) ∨
          ([97] : Bytes).length < 2 ^ 32 ∧ (storedStream [97]).length + 5 < 2 ^ 32) :=
  notTruncated_iff fun strm hstrm => by
    obtain rfl : storedStream [97] = strm := Option.some.inj hstrm
    exact Or.inl (storedZlib_emits _)

/-- What is written for an input of `2 ^ 32` bytes is the empty stream and the length zero. -/
theorem write_wrapped {x : Bytes} (hx : x.length = 2 ^ 32) :
    zlibTransformRealWrite storedZlib .little 1 { level := 0 } x =
      .ok (.ok (some (storedStream [] ++ [0, 0, 0, 0] ++ [1]))) := by
  have hraw : ¬ Raw { level := 0 } x := by
    unfold Raw
    rw [hx]
    decide
  have hinit : storedZlib.deflateInit (CatalinaZlibTransform.gintLevel { level := 0 })
      (x.take (guint x.length)) = some (storedStream []) := by
    rw [hx, show guint (2 ^ 32) = 0 from by decide, List.take_zero]
    rfl
  have hstream : (storedStream []).length + 5 < 2 ^ 32 := by decide
  rw [zlibTransformRealWrite_emits .little 1 hraw hinit (storedZlib_emits _),
    if_pos (by decide), guint_of_lt (by omega), joinParts_pieces .little _ hstream, hx]
  rfl

/-- **An input of `2 ^ 32` bytes is written as the empty one**, with success. -/
theorem empty_stream_for_input :
    zlibTransformRealWrite storedZlib .little 1 { level := 0 } (List.replicate (2 ^ 32) 0) =
        .ok (.ok (some (storedStream [] ++ [0, 0, 0, 0] ++ [1]))) ∧
      ¬ NotTruncated storedZlib .little 1 { level := 0 } (List.replicate (2 ^ 32) 0)
        (storedStream []) := by
  have hx : (List.replicate (2 ^ 32) (0 : UInt8)).length = 2 ^ 32 := List.length_replicate
  generalize List.replicate (2 ^ 32) (0 : UInt8) = x at hx ⊢
  have hwrite := write_wrapped hx
  have hraw : ¬ Raw { level := 0 } x := by
    unfold Raw
    rw [hx]
    decide
  refine ⟨hwrite, ?_⟩
  rintro (⟨e, he⟩ | ⟨output, houtput, hcomplete⟩)
  · rw [hwrite] at he
    cases he
  · obtain ⟨hgiven, _, _⟩ := (if_neg hraw).mp hcomplete
    rw [hx, show guint (2 ^ 32) = 0 from by decide, List.take_zero] at hgiven
    rw [← hgiven] at hx
    cases hx

end Catalina
