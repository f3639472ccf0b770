import Catalina.Formatter.Steps

/-!
# Long integers on other hosts

A `glong` is written into a slot of eight bytes, from its front on, and the reader copies eight bytes
into a `glong` of its own.

* `LongSize.ofSigned`, `LongSize.toSigned`: a number and its bits in a `glong`.
* `readWord_written`: what a reader makes of the bytes of a writer.
* `LongPortable`, `UlongPortable`: a number that is written on one host and read on another.
* **`portable_iff`**: exactly with a reader whose `glong` has eight bytes and a writer whose `glong` has
  them too, or the number zero.
* `one_is_not_portable`: the number one, written with four bytes and read with eight.
-/

namespace Catalina

open Probe

namespace LongSize

/-- The number of values of a `gulong`. -/
def range (l : LongSize) : ℕ := 256 ^ l.bytes

/-- The numbers that a `glong` can hold. -/
def IsLong (l : LongSize) (n : ℤ) : Prop := -(l.range / 2 : ℕ) ≤ n ∧ n < (l.range / 2 : ℕ)

/-- The bits of a number in a `glong`. -/
def ofSigned (l : LongSize) (n : ℤ) : ℕ := (n % l.range).toNat

/-- The number that a `glong` of the given bits holds. -/
def toSigned (l : LongSize) (x : ℕ) : ℤ := if x < l.range / 2 then x else x - l.range

theorem range_four : LongSize.four.range = 4294967296 := rfl

theorem range_eight : LongSize.eight.range = 18446744073709551616 := rfl

theorem ofSigned_lt (l : LongSize) (n : ℤ) : l.ofSigned n < l.range := by
  unfold ofSigned
  cases l with
  | four => rw [range_four]; omega
  | eight => rw [range_eight]; omega

theorem toSigned_ofSigned {l : LongSize} {n : ℤ} (hn : l.IsLong n) :
    l.toSigned (l.ofSigned n) = n := by
  unfold IsLong at hn
  unfold toSigned ofSigned
  cases l with
  | four =>
    rw [range_four] at hn ⊢
    split_ifs <;> omega
  | eight =>
    rw [range_eight] at hn ⊢
    split_ifs <;> omega

theorem toSigned_shifted {n : ℤ} (hn : LongSize.four.IsLong n) :
    LongSize.eight.toSigned (LongSize.four.ofSigned n * 4294967296) = n ↔ n = 0 := by
  unfold IsLong at hn
  unfold toSigned ofSigned
  rw [range_four] at hn ⊢
  rw [range_eight]
  split_ifs <;> omega

end LongSize

/-! ## Reading what was written -/

variable {h h' : Host} {m : Memory} {a : ℕ}

theorem ofBeBytes_zeros (k : ℕ) : ofBeBytes (zeros k) = 0 := by
  rw [ofBeBytes, zeros, List.reverse_replicate]
  induction k with
  | zero => rfl
  | succ k ih =>
    rw [List.replicate_succ, ofLeBytes, ih]
    rfl

theorem ofBeBytes_slot {o : ByteOrder} {tag : Tag} {size x : ℕ} (hsize : size ≤ 8)
    (hx : x < 256 ^ size) (hm : Stored m a (writeWord o tag size 8 x)) :
    m a = tag.id ∧ ofBeBytes (bytesAt m (a + 1) 8) = x * 256 ^ (8 - size) := by
  obtain ⟨htag, hbytes⟩ := stored_cons.mp hm
  rw [image_toBE] at hbytes
  have hlen : (beBytes size x ++ zeros (8 - size)).length = 8 := by
    rw [List.length_append, length_beBytes, length_zeros]
    omega
  unfold Stored at hbytes
  rw [hlen] at hbytes
  refine ⟨htag, ?_⟩
  rw [hbytes, ofBeBytes_append, ofBeBytes_beBytes hx, length_zeros, ofBeBytes_zeros, Nat.add_zero]

/-- **What a reader makes of the bytes of a writer**: a `glong` of four bytes has no room for the slot,
and one of eight bytes gets the bits of the writer in front. -/
theorem readWord_written (h h' : Host) {tag : Tag} {x : ℕ} (hx : x < h.long.range)
    (hm : Stored m a (writeWord h.order tag h.long.bytes 8 x)) :
    (readWord h'.order tag h'.long.bytes 8 (a + 9) a 9).run m =
      ⟨true, match h'.long with
        | .four => .error .outOfBounds
        | .eight => .ok (some (x * 256 ^ (8 - h.long.bytes))), m⟩ := by
  obtain ⟨htag, hslot⟩ := ofBeBytes_slot (by cases h.long <;> decide) hx hm
  cases hlong : h'.long with
  | four =>
    have hstop : ∀ r : Probe Stop (Option ℕ), (stop .outOfBounds >>= fun _ : PUnit => r).run m =
        ⟨true, .error .outOfBounds, m⟩ := fun _ => rfl
    unfold readWord
    rw [if_neg (by decide), run_peekByte_bind, if_neg (by simpa using htag), run_peek_bind,
      if_pos (by decide), hstop]
    simp
  | eight =>
    have hrun : (readWord h'.order tag 8 8 (a + 9) a 9).run m = _ := readWord_run h'.order htag 8
    rw [if_pos rfl, hslot] at hrun
    rw [show LongSize.eight.bytes = 8 from rfl, hrun]
    simp

/-! ## Portable numbers -/

/-- The `glong` `n`, written on the host `h`, is read on the host `h'` as itself, and the reader writes
into its own variable only. -/
def LongPortable (h h' : Host) (n : ℤ) : Prop :=
  ∀ m a, Stored m a (writeLong h (h.long.ofSigned n)) →
    ∃ x, (readLong h' (a + 9) a 9).run m = ⟨true, .ok (some x), m⟩ ∧ h'.long.toSigned x = n

/-- The `gulong` `n`. -/
def UlongPortable (h h' : Host) (n : ℕ) : Prop :=
  ∀ m a, Stored m a (writeUlong h n) →
    (readUlong h' (a + 9) a 9).run m = ⟨true, .ok (some n), m⟩

/-- The reader has room for the slot, and the writer fills it or the number is zero. -/
def SlotFits (h h' : Host) (n : ℤ) : Prop := h'.long = .eight ∧ (h.long = .eight ∨ n = 0)

theorem longPortable_iff {n : ℤ} (hn : h.long.IsLong n) : LongPortable h h' n ↔ SlotFits h h' n := by
  unfold LongPortable SlotFits
  have hrun : ∀ m a, Stored m a (writeLong h (h.long.ofSigned n)) →
      (readLong h' (a + 9) a 9).run m = _ := fun m a hm =>
    readWord_written h h' (h.long.ofSigned_lt n) hm
  cases hlong : h'.long with
  | four =>
    refine iff_of_false (fun hall => ?_) fun hfit => by cases hfit.1
    obtain ⟨x, hx, _⟩ := hall _ 0 (stored_memoryOf _)
    rw [hrun _ 0 (stored_memoryOf _), hlong] at hx
    cases hx
  | eight =>
    rw [hlong] at hrun
    cases hwriter : h.long with
    | eight =>
      rw [hwriter] at hn hrun
      refine iff_of_true (fun m a hm => ⟨_, hrun m a hm, ?_⟩) ⟨rfl, Or.inl rfl⟩
      rw [show 8 - LongSize.eight.bytes = 0 from rfl, Nat.pow_zero, Nat.mul_one]
      exact LongSize.toSigned_ofSigned hn
    | four =>
      rw [hwriter] at hn hrun
      have hshift := LongSize.toSigned_shifted hn
      have hpow : 256 ^ (8 - LongSize.four.bytes) = 4294967296 := rfl
      constructor
      · intro hall
        obtain ⟨x, hx, hval⟩ := hall _ 0 (stored_memoryOf _)
        rw [hrun _ 0 (stored_memoryOf _), hpow] at hx
        cases hx
        exact ⟨rfl, Or.inr (hshift.mp hval)⟩
      · rintro ⟨_, hw | hzero⟩
        · cases hw
        · exact fun m a hm => ⟨_, hrun m a hm, hpow.symm ▸ hshift.mpr hzero⟩

theorem ulongPortable_iff {n : ℕ} (hn : n < h.long.range) :
    UlongPortable h h' n ↔ SlotFits h h' n := by
  unfold UlongPortable SlotFits
  have hrun : ∀ m a, Stored m a (writeUlong h n) → (readUlong h' (a + 9) a 9).run m = _ :=
    fun m a hm => readWord_written h h' hn hm
  cases hlong : h'.long with
  | four =>
    refine iff_of_false (fun hall => ?_) fun hfit => by cases hfit.1
    have hx := hall _ 0 (stored_memoryOf _)
    rw [hrun _ 0 (stored_memoryOf _), hlong] at hx
    cases hx
  | eight =>
    rw [hlong] at hrun
    cases hwriter : h.long with
    | eight =>
      rw [hwriter] at hrun
      refine iff_of_true (fun m a hm => ?_) ⟨rfl, Or.inl rfl⟩
      rw [hrun m a hm, show 8 - LongSize.eight.bytes = 0 from rfl, Nat.pow_zero, Nat.mul_one]
    | four =>
      rw [hwriter] at hrun
      have hpow : 256 ^ (8 - LongSize.four.bytes) = 4294967296 := rfl
      constructor
      · intro hall
        have hx := hall _ 0 (stored_memoryOf _)
        rw [hrun _ 0 (stored_memoryOf _), hpow] at hx
        have hval : n * 4294967296 = n := Option.some.inj (Except.ok.inj (congrArg Ran.result hx))
        exact ⟨rfl, Or.inr (by omega)⟩
      · rintro ⟨_, hw | hzero⟩
        · cases hw
        · intro m a hm
          have hval : n * 4294967296 = n := by omega
          rw [hrun m a hm, hpow, hval]

/-- **Long integers are portable exactly where the slot fits**, for every pair of hosts and every
number that both can hold. -/
theorem portable_iff (h h' : Host) :
    (∀ n : ℤ, h.long.IsLong n → h'.long.IsLong n → (LongPortable h h' n ↔ SlotFits h h' n)) ∧
      ∀ n : ℕ, n < h.long.range → n < h'.long.range → (UlongPortable h h' n ↔ SlotFits h h' n) :=
  ⟨fun _ hn _ => longPortable_iff hn, fun _ hn _ => ulongPortable_iff hn⟩

/-- The number one, from a little-endian host to a big-endian one, both with 64-bit longs. -/
theorem portable_one : LongPortable lp64 ⟨.big, .eight⟩ 1 :=
  ((portable_iff lp64 ⟨.big, .eight⟩).1 1 ⟨by decide, by decide⟩ ⟨by decide, by decide⟩).mpr
    ⟨rfl, Or.inl rfl⟩

/-- **The number one** is written by a host with 32-bit longs and read as `2 ^ 32` by one with 64-bit
longs; in the other direction the reader writes outside its variable. -/
theorem one_is_not_portable :
    ¬ LongPortable ⟨.little, .four⟩ ⟨.little, .eight⟩ 1 ∧
      ¬ LongPortable ⟨.little, .eight⟩ ⟨.little, .four⟩ 1 := by
  refine ⟨fun hall => ?_, fun hall => ?_⟩
  · obtain ⟨x, hx, hval⟩ := hall _ 0 (stored_memoryOf _)
    have hread : ((readLong ⟨.little, .eight⟩ 9 0 9).run
        (memoryOf (writeLong ⟨.little, .four⟩ 1))).result = .ok (some 4294967296) := rfl
    have heq := hread.symm.trans (congrArg Ran.result hx)
    cases heq
    exact absurd hval (by decide)
  · obtain ⟨x, hx, _⟩ := hall _ 0 (stored_memoryOf _)
    have hread : ((readLong ⟨.little, .four⟩ 9 0 9).run
        (memoryOf (writeLong ⟨.little, .eight⟩ 1))).result = .error .outOfBounds := rfl
    have heq := hread.symm.trans (congrArg Ran.result hx)
    cases heq

end Catalina
