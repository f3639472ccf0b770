import Catalina.Host

/-!
# The zlib transform

`CatalinaZlibTransform` puts a tail behind the data: one byte `0` if it is not compressed, and
otherwise the length of the data in four bytes and the byte `1`. The compressed data comes out of
`deflate` in chunks, which are collected in a list and joined.

* `Zlib`: the calls of the library, which is outside the repository.
* `deflateLoop`, `copyParts`: the two loops of `catalina_zlib_transform_real_write`.
* `zlibTransformRealWrite`, `zlibTransformRealRead`: the interface methods.
* `zlibTransform`: the transform that a storage uses.
-/

namespace Catalina

/-- One call of `deflate` with `Z_FINISH`. -/
structure Deflated (σ : Type) where
  streamError : Bool
  written : Bytes
  availIn : ℕ
  next : σ

/-- One call of `inflate`. -/
structure Inflated where
  streamEnd : Bool
  written : Bytes
deriving DecidableEq, Repr

/-- The library. `deflateInit` answers `none` unless it returns `Z_OK`; it is given the input that
is attached to the stream right after it. -/
structure Zlib where
  Stream : Type
  deflateInit : ℤ → Bytes → Option Stream
  deflate : Stream → ℕ → Deflated Stream
  inflateInit : Bool
  inflate : Bytes → ℕ → Inflated

/-- `CHUNK`. -/
def chunk : ℕ := 16384

/-- `CatalinaZlibTransformPrivate`: a `gsize` and a `guint`. -/
structure CatalinaZlibTransform where
  watermark : ℕ := 0
  level : ℕ := 6
deriving DecidableEq, Repr

namespace CatalinaZlibTransform

/-- The level as the `gint` that `deflateInit` is given. -/
def gintLevel (t : CatalinaZlibTransform) : ℤ := (t.level : ℤ).bmod (2 ^ 32)

end CatalinaZlibTransform

/-- The error of a failing initialization. -/
def zlibInitError : GError := ⟨.zlibTransformZlib, "There was an error initializing Zlib"⟩

/-- The error of a failing `deflate`. -/
def zlibDeflateError : GError :=
  ⟨.zlibTransformZlib, "There was an internal error within zlib during compression"⟩

variable (z : Zlib) (o : ByteOrder)

/-- The loop that compresses until the end of the input: the chunks, last one first, their length
and the input left, or `none` if `deflate` fails. -/
def deflateLoop : ℕ → z.Stream → List Bytes → ℕ → Except Stop (Option (List Bytes × ℕ × ℕ))
  | 0, _, _, _ => .error .running
  | fuel + 1, strm, parts, length =>
    let d := z.deflate strm chunk
    let availOut := chunk - d.written.length
    if d.streamError then .ok none
    else
      let parts := padTo 0 chunk d.written :: parts
      let length := guint (length + (chunk - availOut))
      if availOut = 0 then deflateLoop fuel d.next parts length
      else .ok (some (parts, length, d.availIn))

/-- The loop that copies the chunks into the output buffer. -/
def copyParts (length : ℕ) : List Bytes → ℕ → Bytes → Except Stop Bytes
  | [], _, buf => .ok buf
  | part :: parts, offset, buf =>
    if length ≤ chunk then blitOrStop buf 0 (part.take length)
    else
      let have' := min (guintSub length offset) chunk
      match blitOrStop buf offset (part.take have') with
      | .error e => .error e
      | .ok buf => copyParts length parts (guint (offset + have')) buf

/-- The end of `catalina_zlib_transform_real_write`: the tail, and the chunks in front of it. -/
def joinParts (inputLength length : ℕ) (parts : List Bytes) : Except Stop TransformResult :=
  let outputLength := guint (length + 5)
  if outputLength < 5 then .error .outOfBounds
  else do
    -- set the tail on the end
    let belength := toBE o 4 (guint inputLength)
    let output ← blitOrStop (padTo 0 outputLength []) (outputLength - 5) (image o 4 belength)
    let output ← blitOrStop output (outputLength - 1) [1]
    -- copy the resulting chunks into the output buffer
    let output ← copyParts length parts.reverse 0 output
    return .ok (allocated output)

/-- `catalina_zlib_transform_real_write`. -/
def zlibTransformRealWrite (fuel : ℕ) (t : CatalinaZlibTransform) (input : Bytes) :
    Except Stop TransformResult :=
  -- only compress if the input buffer is large enough
  if input.length ≤ guint t.watermark then .ok (.ok (some (input ++ [0])))
  else
    match z.deflateInit t.gintLevel (input.take (guint input.length)) with
    | none => .ok (.fail zlibInitError)
    | some strm =>
      match deflateLoop z fuel strm [] 0 with
      | .error e => .error e
      | .ok none => .ok (.fail zlibDeflateError)
      | .ok (some (parts, length, availIn)) =>
        if availIn ≠ 0 then .error .aborted else joinParts o input.length length parts

/-- `catalina_zlib_transform_real_read`, which does not look at the transform. -/
def zlibTransformRealRead (_t : CatalinaZlibTransform) (input : Bytes) : Except Stop TransformResult :=
  match input.getLast? with
  | none => .error .outOfBounds
  | some last =>
    if last = 0 then .ok (.ok (allocated input.dropLast))
    else if z.inflateInit = false then .ok (.fail zlibInitError)
    else if input.length < 5 then .error .outOfBounds
    else
      let length := toBE o 4 (ofImage o ((input.drop (input.length - 5)).take 4))
      let r := z.inflate (input.take (guint (input.length - 5))) length
      if r.streamEnd then .ok (.ok (allocated (padTo 0 length (r.written.take length))))
      else .error .aborted

/-- A call that does not return is taken for a failing one: no answer comes from it either. -/
def answer : Except Stop TransformResult → TransformResult
  | .ok r => r
  | .error _ => .fail zlibDeflateError

/-- The transform as a storage uses it. -/
def zlibTransform (fuel : ℕ) (t : CatalinaZlibTransform) : Transform where
  read input := answer (zlibTransformRealRead z o t input)
  write input := answer (zlibTransformRealWrite z o fuel t input)

end Catalina
