import Catalina.Formatter.Steps

/-!
# The readers of numbers and their writers

Every number has a writer and a reader of its own, which the public interface offers beside those for
`GValue`s.

* `Scalar`: the types of these numbers; `Scalar.write`, `Scalar.call`: the writer and the reader, which
  stores the number in a variable of the caller.
* `Scalar.write_eq`: what the writer makes of a number; `Scalar.call_written`, `Scalar.call_other`: what
  the readers make of that.
* `Same`, `Kept`: what is asked of the number that comes back, and the numbers for which it is so.
* `Inverts`, `Rejects`: the reader gives the number back; the reader of another type refuses it.
* **`scalars_iff`**: so it is for all numbers but the `gboolean`s whose low byte alone is zero.
* `boolean_read_as_false`: one of these.
-/

namespace Catalina

open Probe

/-- The numbers that are stored in binary. -/
inductive Scalar
  | boolean
  | char
  | uchar
  | short
  | ushort
  | int
  | uint
  | long
  | ulong
  | int64
  | uint64
deriving DecidableEq, Repr

namespace Scalar

/-- The bits of the C type, on a host with 64-bit longs. -/
def bits : Scalar → ℕ
  | .char | .uchar => 8
  | .short | .ushort => 16
  | .boolean | .int | .uint => 32
  | .long | .ulong | .int64 | .uint64 => 64

def tag : Scalar → Tag
  | .boolean => .boolean
  | .char => .char
  | .uchar => .uchar
  | .short => .short
  | .ushort => .ushort
  | .int => .int
  | .uint => .uint
  | .long => .long
  | .ulong => .ulong
  | .int64 => .int64
  | .uint64 => .uint64

/-- The bytes behind the tag. -/
def size : Scalar → ℕ
  | .boolean | .char | .uchar => 1
  | .short | .ushort => 2
  | .int | .uint => 4
  | .long | .ulong | .int64 | .uint64 => 8

/-- The writer, on a host with 64-bit longs. -/
def write (o : ByteOrder) : (t : Scalar) → BitVec t.bits → Bytes
  | .boolean, x => writeBoolean x
  | .char, x => writeChar x
  | .uchar, x => writeUchar x
  | .short, x => writeShort o x
  | .ushort, x => writeUshort o x
  | .int, x => writeInt o x
  | .uint, x => writeUint o x
  | .long, x => writeLong ⟨o, .eight⟩ x.toNat
  | .ulong, x => writeUlong ⟨o, .eight⟩ x.toNat
  | .int64, x => writeInt64 o x
  | .uint64, x => writeUint64 o x

/-- What the reader assigns: `none` where it answers `FALSE`, which is before it assigns anything. -/
def read (o : ByteOrder) (lim buffer length : ℕ) : (t : Scalar) → Probe Stop (Option (BitVec t.bits))
  | .boolean => readBoolean o lim buffer length
  | .char => readChar o lim buffer length
  | .uchar => readUchar o lim buffer length
  | .short => readShort o lim buffer length
  | .ushort => readUshort o lim buffer length
  | .int => readInt o lim buffer length
  | .uint => readUint o lim buffer length
  | .long => do return (← readLong ⟨o, .eight⟩ lim buffer length).map (BitVec.ofNat 64)
  | .ulong => do return (← readUlong ⟨o, .eight⟩ lim buffer length).map (BitVec.ofNat 64)
  | .int64 => readInt64 o lim buffer length
  | .uint64 => readUint64 o lim buffer length

/-- The call with a variable that holds `old`: the answer, and what the variable holds then. -/
def call (o : ByteOrder) (t : Scalar) (old : BitVec t.bits) (lim buffer length : ℕ) :
    Probe Stop (Bool × BitVec t.bits) := do
  let r ← t.read o lim buffer length
  return (r.isSome, r.getD old)

/-- The number that the reader makes of its bytes. -/
def ofWord : (t : Scalar) → ℕ → BitVec t.bits
  | .boolean, x => gchar 32 x
  | t, x => BitVec.ofNat t.bits x

theorem tag_injective {t t' : Scalar} (h : t.tag = t'.tag) : t = t' := by
  cases t <;> cases t' <;> first | rfl | cases h

/-! ## What is written and what is read -/

theorem write_eq (o : ByteOrder) (t : Scalar) (x : BitVec t.bits) :
    t.write o x = t.tag.id :: beBytes t.size x.toNat := by
  cases t with
  | boolean | char | uchar => rfl
  | short | ushort | int | uint | long | ulong | int64 | uint64 => exact writeWord_eq o _ _ _

theorem length_write (o : ByteOrder) (t : Scalar) (x : BitVec t.bits) :
    (t.write o x).length = 1 + t.size := by
  rw [write_eq, List.length_cons, length_beBytes, Nat.add_comm]

variable {m : Memory} {lim a l : ℕ} (o : ByteOrder) {t : Scalar}

theorem read_run (ht : m a = t.tag.id) : (t.read o lim a l).run m =
    ⟨decide (l = 1 + t.size → a < lim ∧ (t.size = 0 ∨ a + 1 + t.size ≤ lim)),
      .ok ((if l = 1 + t.size then some (ofBeBytes (bytesAt m (a + 1) t.size)) else none).map
        t.ofWord), m⟩ := by
  cases t with
  | boolean | char | uchar | short | ushort | int | uint | long | ulong | int64 | uint64 =>
    exact map_ok (readWord_run o ht _) _

theorem read_other (ht : m a ≠ t.tag.id) : (t.read o lim a l).run m =
    ⟨decide (l = 1 + t.size → a < lim), .ok none, m⟩ := by
  cases t with
  | boolean | char | uchar | short | ushort | int | uint | long | ulong | int64 | uint64 =>
    exact map_ok (readWord_other o ht _ _) _

/-- The number that comes back. -/
def reread (v : BitVec t.bits) : BitVec t.bits := t.ofWord (v.toNat % 256 ^ t.size)

/-- **The reader of the type** answers `TRUE` and stores the number that was written, or what is left of
it. -/
theorem call_written (o' : ByteOrder) {v : BitVec t.bits} (hm : Stored m a (t.write o v))
    (old : BitVec t.bits) :
    (t.call o' old (a + (t.write o v).length) a (t.write o v).length).run m =
      ⟨true, .ok (true, reread v), m⟩ := by
  rw [length_write]
  rw [write_eq, stored_cons] at hm
  obtain ⟨htag, hbytes⟩ := hm
  have hword : ofBeBytes (bytesAt m (a + 1) t.size) = v.toNat % 256 ^ t.size := by
    rw [Stored, length_beBytes] at hbytes
    rw [hbytes, ofBeBytes_beBytes_mod]
  have hrun : (t.read o' (a + (1 + t.size)) a (1 + t.size)).run m = _ := read_run o' htag
  rw [if_pos rfl, hword] at hrun
  unfold call
  rw [map_ok hrun]
  simp only [Ran.mk.injEq, and_true, decide_eq_true_eq]
  exact ⟨by omega, rfl⟩

/-- **The reader of another type** answers `FALSE` and stores nothing. -/
theorem call_other (o' : ByteOrder) {t' : Scalar} (hne : t' ≠ t) {v : BitVec t.bits}
    (hm : Stored m a (t.write o v)) (old : BitVec t'.bits) :
    (t'.call o' old (a + (t.write o v).length) a (t.write o v).length).run m =
      ⟨true, .ok (false, old), m⟩ := by
  rw [length_write]
  rw [write_eq, stored_cons] at hm
  have htag : m a ≠ t'.tag.id := fun h =>
    hne (tag_injective (Tag.id_injective (h.symm.trans hm.1)))
  have hrun : (t'.read o' (a + (1 + t.size)) a (1 + t.size)).run m = _ := read_other o' htag
  unfold call
  rw [map_ok hrun]
  simp only [Ran.mk.injEq, and_true, decide_eq_true_eq]
  exact ⟨by omega, rfl⟩

/-! ## What comes back -/

/-- `x` is what is asked for in place of `v`: the number itself, or a `gboolean` that is zero if `v` is. -/
def Same : (t : Scalar) → BitVec t.bits → BitVec t.bits → Prop
  | .boolean, v, x => x ≠ 0 ↔ v ≠ 0
  | _, v, x => x = v

/-- A `gboolean` that is not zero has a low byte that is not zero. -/
def Kept : (t : Scalar) → BitVec t.bits → Prop
  | .boolean, v => v = 0 ∨ v.toNat % 256 ≠ 0
  | _, _ => True

theorem gchar_eq_zero (x : ℕ) : gchar 32 x = 0 ↔ x % 256 = 0 := by
  unfold gchar
  rw [← BitVec.toInt_inj, BitVec.toInt_signExtend_of_le (by decide),
    show (0 : BitVec 32).toInt = (0 : BitVec 8).toInt from rfl, BitVec.toInt_inj,
    ← BitVec.toNat_inj, BitVec.toNat_ofNat]
  rfl

theorem same_reread_iff (v : BitVec t.bits) : t.Same v (reread v) ↔ t.Kept v := by
  cases t with
  | boolean =>
    have hz : reread (t := boolean) v = 0 ↔ v.toNat % 256 = 0 := by
      rw [← gchar_eq_zero, ← gchar_mod]
      rfl
    change (¬ reread (t := boolean) v = 0 ↔ v ≠ 0) ↔ v = 0 ∨ v.toNat % 256 ≠ 0
    rw [hz]
    by_cases h₀ : v = 0
    · subst h₀
      exact ⟨fun _ => .inl rfl, fun _ => ⟨fun h => absurd rfl h, fun h => absurd rfl h⟩⟩
    · exact ⟨fun h => .inr (h.mpr h₀), fun h => ⟨fun _ => h₀, fun _ => h.resolve_left h₀⟩⟩
  | char | uchar | short | ushort | int | uint | long | ulong | int64 | uint64 =>
    exact iff_of_true (ofNat_toNat_mod (by decide) v) trivial

/-! ## The pairs -/

/-- The reader of the type makes the number of what the writer made of it, wherever that stands. -/
def Inverts (o o' : ByteOrder) (t : Scalar) (v : BitVec t.bits) : Prop :=
  ∀ m a old, Stored m a (t.write o v) → ∃ x, t.Same v x ∧
    (t.call o' old (a + (t.write o v).length) a (t.write o v).length).run m = ⟨true, .ok (true, x), m⟩

/-- The reader of `t'` answers `FALSE` to it and leaves its variable alone. -/
def Rejects (o o' : ByteOrder) (t' t : Scalar) (v : BitVec t.bits) : Prop :=
  ∀ m a old, Stored m a (t.write o v) →
    (t'.call o' old (a + (t.write o v).length) a (t.write o v).length).run m =
      ⟨true, .ok (false, old), m⟩

theorem inverts_iff {o o' : ByteOrder} {v : BitVec t.bits} : Inverts o o' t v ↔ t.Kept v := by
  rw [← same_reread_iff]
  constructor
  · intro h
    obtain ⟨x, hx, hcall⟩ := h _ 0 0 (stored_memoryOf (t.write o v))
    rw [call_written o o' (stored_memoryOf (t.write o v))] at hcall
    cases hcall
    exact hx
  · exact fun h m a old hm => ⟨reread v, h, call_written o o' hm old⟩

/-- **The reader of a type inverts its writer and the readers of the other types reject what it
writes**, for all numbers but the `gboolean`s that are not zero and have a low byte of zero. -/
theorem scalars_iff (o o' : ByteOrder) (t : Scalar) (v : BitVec t.bits) :
    (Inverts o o' t v ∧ ∀ t', t' ≠ t → Rejects o o' t' t v) ↔ t.Kept v :=
  ⟨fun h => inverts_iff.mp h.1,
    fun h => ⟨inverts_iff.mpr h, fun _ hne _ _ old hm => call_other o o' hne hm old⟩⟩

/-- The low byte of 256 is zero, and `FALSE` comes back. -/
theorem boolean_read_as_false :
    (boolean.call .little 1 2 0 2).run (memoryOf (boolean.write .little 256)) =
        ⟨true, .ok (true, 0), memoryOf (boolean.write .little 256)⟩ ∧
      ¬ Inverts .little .little boolean 256 := by
  refine ⟨call_written .little .little (stored_memoryOf _) _, fun h => ?_⟩
  exact absurd (inverts_iff.mp h)
    (show ¬ ((256 : BitVec 32) = 0 ∨ (256 : BitVec 32).toNat % 256 ≠ 0) by decide)

end Scalar

end Catalina
