import Catalina.Lib.Buffer
import Catalina.Lib.Endian

/-!
# Hosts, byte strings and errors

* `Host`: the byte order and the width of `glong` on which the C code depends.
* `Host.firstWord`, `Host.incFirstWord`: the 32 bits that `g_int_hash`, `g_int_equal` and
  `g_atomic_int_inc` see behind a pointer to a `gulong`.
* `GError`: error domain, code and text; `Stop`: how a call can end without returning.
* `Transform`: the interface `CatalinaTransform`.
-/

namespace Catalina

/-- A buffer with its length. -/
abbrev Bytes := List UInt8

/-- The width of `glong` and `gulong`. -/
inductive LongSize
  | four
  | eight
deriving DecidableEq, Repr

/-- What the C code depends on. -/
structure Host where
  order : ByteOrder
  long : LongSize
deriving DecidableEq, Repr

/-- A little-endian host with 64-bit longs. -/
def lp64 : Host := ⟨.little, .eight⟩

namespace Host

variable (h : Host)

/-- The first 32 bits of the `gulong` `x` in memory, as an int of the host. -/
def firstWord (x : ℕ) : ℕ :=
  match h.order, h.long with
  | .big, .eight => x / 2 ^ 32 % 2 ^ 32
  | _, _ => x % 2 ^ 32

/-- The `gulong` `x` after a 32-bit increment at its address. -/
def incFirstWord (x : ℕ) : ℕ :=
  match h.order, h.long with
  | .big, .eight => (x / 2 ^ 32 + 1) % 2 ^ 32 * 2 ^ 32 + x % 2 ^ 32
  | _, _ => x / 2 ^ 32 * 2 ^ 32 + (x + 1) % 2 ^ 32

/-- The first word of a `gulong` is its low word. -/
def LowFirst : Prop := ¬ (h.order = .big ∧ h.long = .eight)

instance : Decidable h.LowFirst := by unfold LowFirst; infer_instance

variable {h}

theorem firstWord_of_lowFirst (hl : h.LowFirst) (x : ℕ) : h.firstWord x = x % 2 ^ 32 := by
  unfold firstWord
  split
  · next ho hw => exact absurd ⟨ho, hw⟩ hl
  · rfl

theorem incFirstWord_of_lowFirst (hl : h.LowFirst) (x : ℕ) :
    h.incFirstWord x = x / 2 ^ 32 * 2 ^ 32 + (x + 1) % 2 ^ 32 := by
  unfold incFirstWord
  split
  · next ho hw => exact absurd ⟨ho, hw⟩ hl
  · rfl

theorem firstWord_eq_iff (hl : h.LowFirst) {x y : ℕ} (hx : x < 2 ^ 32) (hy : y < 2 ^ 32) :
    h.firstWord x = h.firstWord y ↔ x = y := by
  rw [firstWord_of_lowFirst hl, firstWord_of_lowFirst hl, Nat.mod_eq_of_lt hx, Nat.mod_eq_of_lt hy]

end Host

/-! ## Machine words -/

/-- A number as a `guint`. -/
def guint (x : ℕ) : ℕ := x % 2 ^ 32

/-- The difference of two `guint`s. -/
def guintSub (x y : ℕ) : ℕ := guint (x + (2 ^ 32 - y))

theorem guint_of_lt {x : ℕ} (hx : x < 2 ^ 32) : guint x = x := by
  unfold guint
  exact Nat.mod_eq_of_lt hx

theorem guint_lt (x : ℕ) : guint x < 2 ^ 32 := by
  unfold guint
  exact Nat.mod_lt x (by decide)

theorem guintSub_of_le {x y : ℕ} (hx : x < 2 ^ 32) (hy : y ≤ x) : guintSub x y = x - y := by
  unfold guintSub guint
  omega

/-! ## Errors and results -/

/-- The codes of the three error domains: `CATALINA_STORAGE_ERROR`,
`CATALINA_BINARY_FORMATTER_ERROR` and `CATALINA_ZLIB_TRANSFORM_ERROR`. -/
inductive ErrorCode
  | storageState
  | storageDb
  | storageNoSuchKey
  | storageNoSuchTxn
  | binaryFormatterBadType
  | binaryFormatterBadData
  | zlibTransformZlib
deriving DecidableEq, Repr

structure GError where
  code : ErrorCode
  message : String
deriving DecidableEq, Repr

/-- How a call can end without returning: the process is aborted by `g_error` or `g_assert`, memory
outside a buffer is touched, or the loop is still running. -/
inductive Stop
  | aborted
  | outOfBounds
  | running
deriving DecidableEq, Repr

/-- The address and the bytes of a block got from `g_malloc`, which answers `NULL` for length
zero. -/
def allocated (bytes : Bytes) : Option Bytes := if bytes = [] then none else some bytes

theorem bind_eq_ok {ε α β : Type} {a : Except ε α} {f : α → Except ε β} {b : β}
    (h : a >>= f = .ok b) : ∃ x, a = .ok x ∧ f x = .ok b := by
  cases a with
  | error e => cases h
  | ok x => exact ⟨x, rfl, h⟩

/-- A copy that may go outside its buffer. -/
def blitOrStop (buf : Bytes) (off : ℕ) (src : Bytes) : Except Stop Bytes :=
  match blit buf off src with
  | some buf => .ok buf
  | none => .error .outOfBounds

theorem blitOrStop_middle (pre mid post : Bytes) {src : Bytes} {off : ℕ} (hoff : off = pre.length)
    (hlen : src.length = mid.length) :
    blitOrStop (pre ++ mid ++ post) off src = .ok (pre ++ src ++ post) := by
  rw [blitOrStop, blit_middle hoff hlen]

theorem blitOrStop_append (buf : Bytes) (off : ℕ) (xs ys : Bytes) :
    blitOrStop buf off (xs ++ ys) =
      blitOrStop buf off xs >>= fun b => blitOrStop b (off + xs.length) ys := by
  unfold blitOrStop
  rw [blit_append]
  cases blit buf off xs <;> rfl

theorem length_blitOrStop {buf buf' src : Bytes} {off : ℕ} (h : blitOrStop buf off src = .ok buf') :
    buf'.length = buf.length ∧ off + src.length ≤ buf.length := by
  unfold blitOrStop at h
  split at h
  · next b hb =>
    cases h
    exact length_blit hb
  · cases h

/-- What a transform answers: `FALSE` and an error, or `TRUE`, the output pointer (`none` is
`NULL`) and the output length, which is the length of the buffer. -/
inductive TransformResult
  | fail (error : GError)
  | ok (output : Option Bytes)
deriving DecidableEq, Repr

/-- The output length of a successful call. -/
def outputLength (output : Option Bytes) : ℕ := (output.getD []).length

/-- `CatalinaTransformIface`. -/
structure Transform where
  read : Bytes → TransformResult
  write : Bytes → TransformResult

/-- The rule of `catalina_transform_read` and `catalina_transform_write`: on success with output
length zero the input buffer continues to be used. -/
def TransformResult.byRule (input : Bytes) : TransformResult → Option Bytes
  | .fail _ => none
  | .ok output => some (if outputLength output = 0 then input else output.getD [])

end Catalina
