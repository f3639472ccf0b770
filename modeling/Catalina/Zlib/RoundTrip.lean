import Catalina.Zlib.Chunks

/-!
# What the zlib transform writes it reads back

* `Zlib.RoundTrips`: what is assumed of the library for one input.
* `encoded`: what is written; `zlibTransformRealWrite_eq`, `zlibTransformRealRead_encoded`.
* **`zlib_round_trip`**: reading what is written gives the input back.
-/

namespace Catalina

/-- The library compresses `x` to the stream `s` and inflates it again. -/
structure Zlib.RoundTrips (z : Zlib) (level : ℤ) (x s : Bytes) : Prop where
  deflateInit : ∃ strm, z.deflateInit level x = some strm ∧ z.Emits strm s
  inflateInit : z.inflateInit = true
  inflate : z.inflate s x.length = ⟨true, x⟩

/-! ## Writing and reading -/

/-- The transform does not compress `x`. -/
def Raw (t : CatalinaZlibTransform) (x : Bytes) : Prop := x.length ≤ guint t.watermark

instance (t : CatalinaZlibTransform) (x : Bytes) : Decidable (Raw t x) := by
  unfold Raw
  infer_instance

/-- What is written for `x`, whose stream is `s`. -/
def encoded (t : CatalinaZlibTransform) (x s : Bytes) : Bytes :=
  if Raw t x then x ++ [0] else s ++ beBytes 4 x.length ++ [1]

theorem zlibTransformRealWrite_raw {z : Zlib} (o : ByteOrder) (fuel : ℕ) {t : CatalinaZlibTransform}
    {x : Bytes} (hraw : Raw t x) :
    zlibTransformRealWrite z o fuel t x = .ok (.ok (some (x ++ [0]))) := by
  unfold zlibTransformRealWrite
  exact if_pos hraw

theorem zlibTransformRealWrite_emits {z : Zlib} (o : ByteOrder) (fuel : ℕ)
    {t : CatalinaZlibTransform} {x s : Bytes} {strm : z.Stream} (hraw : ¬ Raw t x)
    (hinit : z.deflateInit t.gintLevel (x.take (guint x.length)) = some strm)
    (hemits : z.Emits strm s) :
    zlibTransformRealWrite z o fuel t x =
      if s.length / chunk < fuel then joinParts o x.length (guint s.length) (pieces s).reverse
      else .error .running := by
  have hwm : ¬ x.length ≤ guint t.watermark := hraw
  have hloop := deflateLoop_eq fuel [] 0 hemits
  rw [List.append_nil, Nat.zero_add] at hloop
  change deflateLoop z fuel strm [] 0 = _ at hloop
  unfold zlibTransformRealWrite
  rw [if_neg hwm, hinit]
  dsimp only
  rw [hloop]
  by_cases hfuel : s.length / chunk < fuel
  · rw [if_pos hfuel, if_pos hfuel]
    exact if_neg (not_not.mpr rfl)
  · rw [if_neg hfuel, if_neg hfuel]

theorem zlibTransformRealWrite_eq {z : Zlib} (o : ByteOrder) (fuel : ℕ) {t : CatalinaZlibTransform}
    {x s : Bytes} (hz : z.RoundTrips t.gintLevel x s) (hx : x.length < 2 ^ 32)
    (hs : s.length + 5 < 2 ^ 32) :
    zlibTransformRealWrite z o fuel t x =
      if Raw t x ∨ s.length / chunk < fuel then .ok (.ok (some (encoded t x s)))
      else .error .running := by
  unfold encoded
  by_cases hraw : Raw t x
  · rw [if_pos (Or.inl hraw), if_pos hraw, zlibTransformRealWrite_raw o fuel hraw]
  · obtain ⟨strm, hinit, hemits⟩ := hz.deflateInit
    have hin : x.take (guint x.length) = x := by rw [guint_of_lt hx, List.take_length]
    rw [zlibTransformRealWrite_emits o fuel hraw (hin.symm ▸ hinit) hemits, if_neg hraw]
    by_cases hfuel : s.length / chunk < fuel
    · rw [if_pos hfuel, if_pos (Or.inr hfuel), guint_of_lt (by omega), joinParts_pieces o _ hs]
    · rw [if_neg hfuel, if_neg (not_or.mpr ⟨hraw, hfuel⟩)]

theorem zlibTransformRealRead_encoded {z : Zlib} (o : ByteOrder) (r t : CatalinaZlibTransform)
    {x s : Bytes} (hz : z.RoundTrips t.gintLevel x s) (hx : x.length < 2 ^ 32)
    (hs : s.length + 5 < 2 ^ 32) :
    zlibTransformRealRead z o r (encoded t x s) = .ok (.ok (allocated x)) := by
  unfold encoded
  split_ifs with hraw
  · simp [zlibTransformRealRead]
  · have hlen : (s ++ beBytes 4 x.length ++ [1]).length = s.length + 5 := by simp
    have hsub : s.length + 5 - 5 = s.length := Nat.add_sub_cancel _ _
    have hlength : toBE o 4 (ofImage o (beBytes 4 x.length)) = x.length := by
      have hbe := toBE_ofImage o (beBytes 4 x.length)
      rw [length_beBytes, ofBeBytes_beBytes hx] at hbe
      exact hbe
    have hmiddle : ((s ++ beBytes 4 x.length ++ [1]).drop s.length).take 4 = beBytes 4 x.length := by
      rw [List.append_assoc, List.drop_left]
      exact List.take_left' (length_beBytes 4 x.length)
    have hstream : (s ++ beBytes 4 x.length ++ [1]).take s.length = s := by
      rw [List.append_assoc, List.take_left]
    unfold zlibTransformRealRead
    rw [List.getLast?_concat]
    dsimp only
    rw [if_neg (by decide), hz.inflateInit, if_neg (by decide), hlen, if_neg (by omega), hsub,
      hmiddle, hlength, guint_of_lt (by omega), hstream, hz.inflate]
    dsimp only
    rw [if_pos rfl, List.take_length, padTo, Nat.sub_self, List.replicate_zero, List.append_nil]

/-- **Reading what is written gives the input back**, for every input, watermark and level of the
writer and of the reader, and byte order of their hosts. -/
theorem zlib_round_trip {z : Zlib} (o o' : ByteOrder) (t r : CatalinaZlibTransform) {x s : Bytes}
    (hz : z.RoundTrips t.gintLevel x s) (hx : x.length < 2 ^ 32) (hs : s.length + 5 < 2 ^ 32) :
    ∃ n, ∀ fuel, n ≤ fuel → ∃ y, zlibTransformRealWrite z o fuel t x = .ok (.ok (some y)) ∧
      ∃ output, zlibTransformRealRead z o' r y = .ok (.ok output) ∧
        output.getD [] = x ∧ outputLength output = x.length := by
  refine ⟨s.length / chunk + 1, fun fuel hfuel => ⟨encoded t x s, ?_, allocated x,
    zlibTransformRealRead_encoded o' r t hz hx hs, ?_⟩⟩
  · rw [zlibTransformRealWrite_eq o fuel hz hx hs, if_pos (Or.inr (by omega))]
  · unfold outputLength allocated
    split_ifs with hnil
    · rw [hnil]
      exact ⟨rfl, rfl⟩
    · exact ⟨rfl, rfl⟩

theorem storedZlib_roundTrips (level : ℤ) (x : Bytes) :
    storedZlib.RoundTrips level x (storedStream x) where
  deflateInit := ⟨storedStream x, rfl, storedZlib_emits (storedStream x)⟩
  inflateInit := rfl
  inflate := by
    have hdata : ((storedStream x).drop 7).take x.length = x := by
      unfold storedStream
      rw [List.append_assoc _ x, List.drop_left' (by simp), List.take_left]
    unfold storedZlib
    dsimp only
    rw [hdata, if_pos rfl]

/-- The round trip of an input whose stream takes two chunks. -/
theorem zlib_round_trip_stored : ∃ n, ∀ fuel, n ≤ fuel → ∃ y,
    zlibTransformRealWrite storedZlib .little fuel { level := 0 } (List.replicate 20000 97) =
        .ok (.ok (some y)) ∧
      ∃ output, zlibTransformRealRead storedZlib .big { watermark := 9 } y = .ok (.ok output) ∧
        output.getD [] = List.replicate 20000 97 ∧
          outputLength output = (List.replicate 20000 (97 : UInt8)).length :=
  zlib_round_trip .little .big { level := 0 } { watermark := 9 } (storedZlib_roundTrips 0 _)
    (by rw [List.length_replicate]; decide)
    (by rw [length_storedStream, List.length_replicate]; decide)

end Catalina
