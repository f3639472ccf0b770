import Catalina.Zlib.Model

/-!
# The stream in chunks

`deflate` fills one chunk after the other. The size of what it put into a chunk is not kept; the loop
that joins the chunks computes it again from the length of the stream.

* `Zlib.Emits`: successive calls of `deflate` emit the pieces of one stream.
* `fills`: what stands in the chunks of a stream; `pieces`: the chunks.
* `copyFilled`: the loop that joins the chunks, stopped where it reads behind what a chunk holds.
* `deflateLoop_eq`, `copyFilled_eq`, `joinParts_pieces`: the chunks are collected and joined again.
* **`reassembled`**: all of it, for every stream.
-/

namespace Catalina

/-! ## The library -/

/-- From the state `strm` on, successive calls of `deflate` with `Z_FINISH` emit consecutive pieces
of `s`, filling the output space unless the stream has ended; then the input has been used up. -/
def Zlib.Emits (z : Zlib) (strm : z.Stream) (s : Bytes) : Prop :=
  ∃ P : z.Stream → Bytes → Prop, P strm s ∧ ∀ strm s n, P strm s → 0 < n →
    (z.deflate strm n).streamError = false ∧ (z.deflate strm n).written = s.take n ∧
      P (z.deflate strm n).next (s.drop n) ∧ (s.length < n → (z.deflate strm n).availIn = 0)

/-! ## Chunks -/

theorem chunk_pos : 0 < chunk := by decide

/-- The bytes of a stream that each chunk gets. A stream that ends with a full chunk has an empty one
behind it. -/
def fills (s : Bytes) : List Bytes :=
  if s.length < chunk then [s] else s.take chunk :: fills (s.drop chunk)
termination_by s.length
decreasing_by
  have := chunk_pos
  rw [List.length_drop]
  omega

theorem fills_short {s : Bytes} (hs : s.length < chunk) : fills s = [s] := by
  rw [fills, if_pos hs]

theorem fills_long {s : Bytes} (hs : chunk ≤ s.length) :
    fills s = s.take chunk :: fills (s.drop chunk) := by
  rw [fills, if_neg (Nat.not_lt.mpr hs)]

theorem flatten_fills (s : Bytes) : (fills s).flatten = s := by
  induction s using fills.induct with
  | case1 s hs => rw [fills_short hs, List.flatten_singleton]
  | case2 s hs ih =>
    rw [fills_long (Nat.not_lt.mp hs), List.flatten_cons, ih, List.take_append_drop]

theorem length_fills (s : Bytes) : (fills s).length = s.length / chunk + 1 := by
  induction s using fills.induct with
  | case1 s hs => rw [fills_short hs, Nat.div_eq_of_lt hs, List.length_singleton]
  | case2 s hs ih =>
    have hs : chunk ≤ s.length := Nat.not_lt.mp hs
    rw [fills_long hs, List.length_cons, ih, List.length_drop, Nat.div_eq_sub_div chunk_pos hs]

/-- The chunks of a stream. -/
def pieces (s : Bytes) : List Bytes :=
  if s.length < chunk then [padTo 0 chunk s]
  else padTo 0 chunk (s.take chunk) :: pieces (s.drop chunk)
termination_by s.length
decreasing_by
  have := chunk_pos
  rw [List.length_drop]
  omega

theorem pieces_short {s : Bytes} (hs : s.length < chunk) : pieces s = [padTo 0 chunk s] := by
  rw [pieces, if_pos hs]

theorem pieces_long {s : Bytes} (hs : chunk ≤ s.length) :
    pieces s = padTo 0 chunk (s.take chunk) :: pieces (s.drop chunk) := by
  rw [pieces, if_neg (Nat.not_lt.mpr hs)]

theorem pieces_eq (s : Bytes) : pieces s = (fills s).map (padTo 0 chunk) := by
  induction s using fills.induct with
  | case1 s hs => rw [pieces_short hs, fills_short hs, List.map_singleton]
  | case2 s hs ih =>
    have hs : chunk ≤ s.length := Nat.not_lt.mp hs
    rw [pieces_long hs, fills_long hs, List.map_cons, ih]

/-! ## Collecting the chunks -/

theorem Zlib.Emits.step {z : Zlib} {strm : z.Stream} {s : Bytes} (hs : z.Emits strm s) {n : ℕ}
    (hn : 0 < n) : (z.deflate strm n).streamError = false ∧
      (z.deflate strm n).written = s.take n ∧ z.Emits (z.deflate strm n).next (s.drop n) ∧
        (s.length < n → (z.deflate strm n).availIn = 0) := by
  obtain ⟨P, hP, hstep⟩ := hs
  obtain ⟨h₁, h₂, h₃, h₄⟩ := hstep strm s n hP hn
  exact ⟨h₁, h₂, ⟨P, h₃, hstep⟩, h₄⟩

theorem guint_add_guint (x y : ℕ) : guint (guint x + y) = guint (x + y) := by
  unfold guint
  exact Nat.mod_add_mod x (2 ^ 32) y

/-- **The loop collects the chunks of the stream**, if it is given the time; their length is counted
in a `guint`. -/
theorem deflateLoop_eq {z : Zlib} (fuel : ℕ) : ∀ {strm : z.Stream} {s : Bytes} (parts : List Bytes)
    (length : ℕ), z.Emits strm s →
      deflateLoop z fuel strm parts (guint length) =
        if s.length / chunk < fuel then
          .ok (some ((pieces s).reverse ++ parts, guint (length + s.length), 0))
        else .error .running := by
  induction fuel with
  | zero =>
    intro strm s parts length _
    rw [deflateLoop, if_neg (Nat.not_lt_zero _)]
  | succ fuel ih =>
    intro strm s parts length hs
    obtain ⟨herr, hout, hnext, hin⟩ := hs.step chunk_pos
    rw [deflateLoop]
    dsimp only
    rw [herr, hout, if_neg Bool.false_ne_true, List.length_take]
    by_cases hlong : chunk ≤ s.length
    · have hdiv : s.length / chunk = (s.drop chunk).length / chunk + 1 := by
        rw [List.length_drop, Nat.div_eq_sub_div chunk_pos hlong]
      have hrest : s.length = chunk + (s.drop chunk).length := by
        rw [List.length_drop]
        omega
      rw [Nat.min_eq_left hlong, Nat.sub_self, if_pos rfl, Nat.sub_zero, guint_add_guint,
        ih _ _ hnext, hdiv, pieces_long hlong, List.reverse_cons, List.append_assoc,
        List.singleton_append, Nat.add_assoc, ← hrest]
      exact if_congr Nat.succ_lt_succ_iff.symm rfl rfl
    · have hshort : s.length < chunk := Nat.not_le.mp hlong
      have hle := Nat.le_of_lt hshort
      rw [Nat.min_eq_right hle, if_neg (Nat.sub_ne_zero_of_lt hshort), Nat.sub_sub_self hle,
        guint_add_guint, hin hshort, Nat.div_eq_of_lt hshort, if_pos (Nat.succ_pos fuel),
        List.take_of_length_le hle, pieces_short hshort]
      rfl

/-! ## Joining the chunks -/

/-- The loop that copies the chunks into the output buffer, given what `deflate` put into them: it is
stopped where it reads more than that. -/
def copyFilled (length : ℕ) : List Bytes → ℕ → Bytes → Except Stop Bytes
  | [], _, buf => .ok buf
  | part :: parts, offset, buf =>
    if length ≤ chunk then
      if part.length < length then .error .outOfBounds else blitOrStop buf 0 (part.take length)
    else
      let have' := min (guintSub length offset) chunk
      if part.length < have' then .error .outOfBounds
      else
        match blitOrStop buf offset (part.take have') with
        | .error e => .error e
        | .ok buf => copyFilled length parts (guint (offset + have')) buf

theorem copyParts_of_copyFilled {length : ℕ} : ∀ {parts : List Bytes} {offset : ℕ} {buf buf' : Bytes},
    copyFilled length parts offset buf = .ok buf' →
      copyParts length (parts.map (padTo 0 chunk)) offset buf = .ok buf'
  | [], _, _, _, h => h
  | part :: parts, offset, buf, buf', h => by
    rw [copyFilled] at h
    rw [List.map_cons, copyParts]
    by_cases hle : length ≤ chunk
    · rw [if_pos hle] at h ⊢
      split_ifs at h with hpart
      rwa [take_padTo _ (Nat.not_lt.mp hpart)]
    · rw [if_neg hle] at h ⊢
      dsimp only at h ⊢
      split_ifs at h with hpart
      rw [take_padTo _ (Nat.not_lt.mp hpart)]
      cases hblit : blitOrStop buf offset (part.take (min (guintSub length offset) chunk)) with
      | error e =>
        rw [hblit] at h
        cases h
      | ok b =>
        rw [hblit] at h
        exact copyParts_of_copyFilled h

theorem copyFilled_fills {length : ℕ} (hlong : chunk < length) (hlt : length < 2 ^ 32) :
    ∀ (s done junk tail : Bytes), done.length + s.length = length → junk.length = s.length →
      copyFilled length (fills s) done.length (done ++ junk ++ tail) = .ok (done ++ s ++ tail) := by
  intro s
  induction s using fills.induct with
  | case1 s hs =>
    intro done junk tail hlen hjunk
    have hleft : guintSub length done.length = s.length := by
      rw [guintSub_of_le hlt (by omega)]
      omega
    rw [fills_short hs, copyFilled, if_neg (Nat.not_le.mpr hlong)]
    dsimp only
    rw [hleft, Nat.min_eq_left (Nat.le_of_lt hs), if_neg (Nat.lt_irrefl _), List.take_length,
      blitOrStop_middle _ _ _ rfl hjunk.symm]
    rfl
  | case2 s hs ih =>
    intro done junk tail hlen hjunk
    have hs : chunk ≤ s.length := Nat.not_lt.mp hs
    have hleft : guintSub length done.length = s.length := by
      rw [guintSub_of_le hlt (by omega)]
      omega
    have hfull : (s.take chunk).length = chunk := by rw [List.length_take, Nat.min_eq_left hs]
    have hcopy : blitOrStop (done ++ junk ++ tail) done.length (s.take chunk) =
        .ok (done ++ s.take chunk ++ (junk.drop chunk ++ tail)) := by
      have hmid : (s.take chunk).length = (junk.take chunk).length := by
        rw [hfull, List.length_take, hjunk, Nat.min_eq_left hs]
      have hsplit : junk ++ tail = junk.take chunk ++ (junk.drop chunk ++ tail) := by
        rw [← List.append_assoc, List.take_append_drop]
      rw [← blitOrStop_middle _ _ _ rfl hmid, List.append_assoc done junk, hsplit,
        ← List.append_assoc done]
    have hnext : guint (done.length + chunk) = (done ++ s.take chunk).length := by
      rw [List.length_append, hfull]
      exact guint_of_lt (by omega)
    rw [fills_long hs, copyFilled, if_neg (Nat.not_le.mpr hlong)]
    dsimp only
    rw [hleft, Nat.min_eq_right hs, hfull, if_neg (Nat.lt_irrefl _), List.take_take, Nat.min_self,
      hcopy]
    dsimp only
    rw [hnext, ← List.append_assoc, ih (done ++ s.take chunk) (junk.drop chunk) tail
      (by simp only [List.length_append, List.length_drop, hfull]; omega)
      (by simp only [List.length_drop, hjunk])]
    rw [List.append_assoc done, List.take_append_drop]

/-- **The loop joins the chunks of a stream** and reads no more than they hold. -/
theorem copyFilled_eq {s junk : Bytes} (hs : s.length < 2 ^ 32) (hjunk : junk.length = s.length)
    (tail : Bytes) : copyFilled s.length (fills s) 0 (junk ++ tail) = .ok (s ++ tail) := by
  by_cases hlong : chunk < s.length
  · exact copyFilled_fills hlong hs s [] junk tail (Nat.zero_add _) hjunk
  · have hle : s.length ≤ chunk := Nat.not_lt.mp hlong
    -- the shortcut: everything is in the first chunk
    have hfirst : ∃ ps, fills s = s :: ps := by
      rcases Nat.lt_or_eq_of_le hle with hlt | heq
      · exact ⟨[], fills_short hlt⟩
      · refine ⟨fills (s.drop chunk), ?_⟩
        rw [fills_long (Nat.le_of_eq heq.symm), List.take_of_length_le hle]
    obtain ⟨ps, hps⟩ := hfirst
    rw [hps, copyFilled, if_pos hle, if_neg (Nat.lt_irrefl _), List.take_length]
    exact @blitOrStop_middle [] junk tail s 0 rfl hjunk.symm

/-- **The tail and the joined chunks.** -/
theorem joinParts_pieces (o : ByteOrder) (n : ℕ) {s : Bytes} (hs : s.length + 5 < 2 ^ 32) :
    joinParts o n s.length (pieces s).reverse = .ok (.ok (some (s ++ beBytes 4 n ++ [1]))) := by
  have hlen : guint (s.length + 5) = s.length + 5 := guint_of_lt hs
  have hlow : beBytes 4 (guint n) = beBytes 4 n := beBytes_mod 4 n
  have hzero : padTo (0 : UInt8) (s.length + 5) [] =
      List.replicate s.length 0 ++ List.replicate 4 0 ++ [0] := by
    rw [padTo, List.nil_append, List.length_nil, Nat.sub_zero, ← List.replicate_one,
      List.replicate_append_replicate, List.replicate_append_replicate]
  have hlength := @blitOrStop_middle (List.replicate s.length 0) (List.replicate 4 0) [0]
    (beBytes 4 n) s.length (List.length_replicate).symm (by simp)
  have hflag := @blitOrStop_middle (List.replicate s.length 0 ++ beBytes 4 n) [0] [] [1]
    (s.length + 4) (by simp) rfl
  rw [List.append_nil, List.append_nil] at hflag
  have hjoin := copyParts_of_copyFilled (@copyFilled_eq s (List.replicate s.length 0) (by omega)
    List.length_replicate (beBytes 4 n ++ [1]))
  unfold joinParts
  dsimp only
  rw [hlen, if_neg (by omega), image_toBE, hlow, hzero, Nat.add_sub_cancel, hlength,
    List.reverse_reverse]
  change (do
    let output ← blitOrStop _ (s.length + 4) [1]
    let output ← copyParts s.length (pieces s) 0 output
    return TransformResult.ok (allocated output) : Except Stop TransformResult) = _
  rw [hflag]
  change (do
    let output ← copyParts s.length (pieces s) 0 _
    return TransformResult.ok (allocated output) : Except Stop TransformResult) = _
  rw [List.append_assoc, pieces_eq, hjoin]
  change Except.ok (TransformResult.ok (allocated _)) = _
  rw [allocated, if_neg (by simp), List.append_assoc]

/-! ## The whole way -/

/-- **A stream that `deflate` delivers in chunks is put together again.** The loop that collects them
ends after one round for each full chunk and one more. The loop that joins them, started on any
output buffer of the right length with the tail `tail` at its end, reads no chunk behind the bytes
of the stream and writes nowhere else; the output is the stream, the length of the input and the
flag. -/
theorem reassembled {z : Zlib} {strm : z.Stream} {s : Bytes} (hz : z.Emits strm s)
    (hs : s.length + 5 < 2 ^ 32) (o : ByteOrder) (inputLength : ℕ) :
    (∀ fuel, deflateLoop z fuel strm [] 0 =
      if s.length / chunk + 1 ≤ fuel then
        .ok (some (((fills s).map (padTo 0 chunk)).reverse, s.length, 0))
      else .error .running) ∧
    ((fills s).length = s.length / chunk + 1 ∧ (fills s).flatten = s) ∧
    (∀ junk tail : Bytes, junk.length = s.length →
      copyFilled s.length (fills s) 0 (junk ++ tail) = .ok (s ++ tail)) ∧
    joinParts o inputLength s.length ((fills s).map (padTo 0 chunk)).reverse =
      .ok (.ok (some (s ++ beBytes 4 inputLength ++ [1]))) := by
  refine ⟨fun fuel => ?_, ⟨length_fills s, flatten_fills s⟩,
    fun junk tail hjunk => copyFilled_eq (by omega) hjunk tail, ?_⟩
  · have hloop := deflateLoop_eq fuel [] 0 hz
    rw [pieces_eq, List.append_nil, Nat.zero_add, guint_of_lt (x := s.length) (by omega)] at hloop
    exact hloop
  · rw [← pieces_eq]
    exact joinParts_pieces o inputLength hs

/-- The checksum at the end of a zlib stream. -/
def adler32 (x : Bytes) : ℕ :=
  let (a, b) := x.foldl (fun (a, b) c => ((a + c.toNat) % 65521, (b + a + c.toNat) % 65521)) (1, 0)
  b * 65536 + a

/-- The stream of a short input at level 0: one stored block. -/
def storedStream (x : Bytes) : Bytes :=
  [0x78, 0x01, 0x01] ++ leBytes 2 x.length ++ leBytes 2 (65535 - x.length) ++ x ++
    beBytes 4 (adler32 x)

/-- The library at level 0, on short inputs. -/
def storedZlib : Zlib where
  Stream := Bytes
  deflateInit _ x := some (storedStream x)
  deflate strm n := ⟨false, strm.take n, 0, strm.drop n⟩
  inflateInit := true
  inflate y n :=
    let x := (y.drop 7).take n
    if y = storedStream x then ⟨true, x⟩ else ⟨false, []⟩

theorem storedZlib_emits (s : Bytes) : storedZlib.Emits s s :=
  ⟨Eq, rfl, fun strm s n heq _ => by
    obtain rfl := heq
    exact ⟨rfl, rfl, rfl, fun _ => rfl⟩⟩

@[simp] theorem length_storedStream (x : Bytes) : (storedStream x).length = x.length + 11 := by
  simp [storedStream]
  omega

/-- A stream of two chunks, and one of `chunk` bytes, behind which there is an empty chunk. -/
theorem reassembled_stored :
    let s := storedStream (List.replicate 20000 97)
    let t := storedStream (List.replicate 16373 97)
    ((∀ fuel, deflateLoop storedZlib fuel s [] 0 =
        if s.length / chunk + 1 ≤ fuel then
          .ok (some (((fills s).map (padTo 0 chunk)).reverse, s.length, 0))
        else .error .running) ∧
      ((fills s).length = s.length / chunk + 1 ∧ (fills s).flatten = s) ∧
      (∀ junk tail : Bytes, junk.length = s.length →
        copyFilled s.length (fills s) 0 (junk ++ tail) = .ok (s ++ tail)) ∧
      joinParts .big 20000 s.length ((fills s).map (padTo 0 chunk)).reverse =
        .ok (.ok (some (s ++ beBytes 4 20000 ++ [1])))) ∧
    (∀ fuel, deflateLoop storedZlib fuel t [] 0 =
        if t.length / chunk + 1 ≤ fuel then
          .ok (some (((fills t).map (padTo 0 chunk)).reverse, t.length, 0))
        else .error .running) ∧
      ((fills t).length = t.length / chunk + 1 ∧ (fills t).flatten = t) ∧
      (∀ junk tail : Bytes, junk.length = t.length →
        copyFilled t.length (fills t) 0 (junk ++ tail) = .ok (t ++ tail)) ∧
      joinParts .little 16373 t.length ((fills t).map (padTo 0 chunk)).reverse =
        .ok (.ok (some (t ++ beBytes 4 16373 ++ [1]))) :=
  have hlen : ∀ n : ℕ, n + 16 < 2 ^ 32 →
      (storedStream (List.replicate n 97)).length + 5 < 2 ^ 32 := fun n hn => by
    rwa [length_storedStream, List.length_replicate]
  ⟨reassembled (storedZlib_emits _) (hlen 20000 (by decide)) .big 20000,
    reassembled (storedZlib_emits _) (hlen 16373 (by decide)) .little 16373⟩

end Catalina
