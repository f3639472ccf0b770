import Mathlib.Algebra.Order.Ring.Nat
import Mathlib.Data.List.Basic
import Mathlib.Data.Nat.Basic

/-!
# Machine words as bytes

A word of `w` bytes is a natural number below `256 ^ w`.

* `leBytes`, `ofLeBytes`: the bytes of a word, least significant first, and back;
  `beBytes`, `ofBeBytes`: most significant first.
* `image`, `ofImage`: how a host of a given byte order holds a word in memory.
* `toBE`: the swap between the host's order and big-endian (its own inverse).
* **`image_toBE`**, **`toBE_ofImage`**: storing the swapped word writes the big-endian bytes
  whatever the host, and loading them and swapping gives the word back.
-/

namespace Catalina

/-- The order in which a host holds the bytes of a word. -/
inductive ByteOrder
  | little
  | big
deriving DecidableEq, Repr

/-- The `w` low bytes of `x`, least significant first. -/
def leBytes : ℕ → ℕ → List UInt8
  | 0, _ => []
  | w + 1, x => UInt8.ofNat x :: leBytes w (x / 256)

/-- The number whose bytes are given, least significant first. -/
def ofLeBytes : List UInt8 → ℕ
  | [] => 0
  | b :: bs => b.toNat + 256 * ofLeBytes bs

@[simp] theorem length_leBytes (w x : ℕ) : (leBytes w x).length = w := by
  induction w generalizing x with
  | zero => rfl
  | succ w ih => rw [leBytes, List.length_cons, ih]

theorem ofLeBytes_leBytes (w x : ℕ) : ofLeBytes (leBytes w x) = x % 256 ^ w := by
  induction w generalizing x with
  | zero => simp [leBytes, ofLeBytes, Nat.mod_one]
  | succ w ih =>
    have h : (UInt8.ofNat x).toNat = x % 256 := by simp
    rw [leBytes, ofLeBytes, ih, h, Nat.pow_succ, Nat.mul_comm (256 ^ w) 256, Nat.mod_mul]

theorem ofLeBytes_append (as bs : List UInt8) :
    ofLeBytes (as ++ bs) = ofLeBytes as + 256 ^ as.length * ofLeBytes bs := by
  induction as with
  | nil => simp [ofLeBytes]
  | cons a as ih =>
    rw [List.cons_append, ofLeBytes, ofLeBytes, ih, List.length_cons, Nat.pow_succ,
      Nat.mul_comm (256 ^ as.length) 256, Nat.mul_assoc, Nat.mul_add, Nat.add_assoc]

theorem leBytes_ofLeBytes (bs : List UInt8) : leBytes bs.length (ofLeBytes bs) = bs := by
  induction bs with
  | nil => rfl
  | cons b bs ih =>
    have hb : b.toNat < 256 := b.toNat_lt
    have h₁ : UInt8.ofNat (b.toNat + 256 * ofLeBytes bs) = b := by
      apply UInt8.toNat_inj.mp
      rw [UInt8.toNat_ofNat']
      omega
    have h₂ : (b.toNat + 256 * ofLeBytes bs) / 256 = ofLeBytes bs := by omega
    rw [List.length_cons, ofLeBytes, leBytes, h₁, h₂, ih]

/-- The `w` low bytes of `x`, most significant first. -/
def beBytes (w x : ℕ) : List UInt8 := (leBytes w x).reverse

/-- The number whose bytes are given, most significant first. -/
def ofBeBytes (bs : List UInt8) : ℕ := ofLeBytes bs.reverse

@[simp] theorem length_beBytes (w x : ℕ) : (beBytes w x).length = w := by simp [beBytes]

theorem ofBeBytes_beBytes_mod (w x : ℕ) : ofBeBytes (beBytes w x) = x % 256 ^ w := by
  rw [ofBeBytes, beBytes, List.reverse_reverse, ofLeBytes_leBytes]

theorem ofBeBytes_beBytes {w x : ℕ} (hx : x < 256 ^ w) : ofBeBytes (beBytes w x) = x := by
  rw [ofBeBytes_beBytes_mod, Nat.mod_eq_of_lt hx]

theorem beBytes_ofBeBytes (bs : List UInt8) : beBytes bs.length (ofBeBytes bs) = bs := by
  have h := leBytes_ofLeBytes bs.reverse
  rw [List.length_reverse] at h
  rw [beBytes, ofBeBytes, h, List.reverse_reverse]

theorem ofBeBytes_append (as bs : List UInt8) :
    ofBeBytes (as ++ bs) = ofBeBytes as * 256 ^ bs.length + ofBeBytes bs := by
  rw [ofBeBytes, List.reverse_append, ofLeBytes_append, List.length_reverse, Nat.add_comm,
    Nat.mul_comm]
  rfl

theorem beBytes_mod (w x : ℕ) : beBytes w (x % 256 ^ w) = beBytes w x := by
  have h := beBytes_ofBeBytes (beBytes w x)
  rwa [length_beBytes, ofBeBytes_beBytes_mod] at h

theorem ofNat_toNat_mod {w k : ℕ} (h : 2 ^ w = 256 ^ k) (x : BitVec w) :
    BitVec.ofNat w (x.toNat % 256 ^ k) = x := by
  rw [← h, Nat.mod_eq_of_lt x.isLt, BitVec.ofNat_toNat, BitVec.setWidth_eq]

/-- The word `x` as a host holds it in memory. -/
def image (o : ByteOrder) (w x : ℕ) : List UInt8 :=
  match o with
  | .little => leBytes w x
  | .big => beBytes w x

/-- The word a host reads from memory. -/
def ofImage (o : ByteOrder) (bs : List UInt8) : ℕ :=
  match o with
  | .little => ofLeBytes bs
  | .big => ofBeBytes bs

@[simp] theorem length_image (o : ByteOrder) (w x : ℕ) : (image o w x).length = w := by
  cases o <;> simp [image]

/-- The word with its bytes in the opposite order. -/
def swapBytes (w x : ℕ) : ℕ := ofBeBytes (leBytes w x)

/-- From the host's order to big-endian, and back. -/
def toBE (o : ByteOrder) (w x : ℕ) : ℕ :=
  match o with
  | .little => swapBytes w x
  | .big => x

/-- **Storing the swapped word writes its big-endian bytes.** -/
theorem image_toBE (o : ByteOrder) (w x : ℕ) : image o w (toBE o w x) = beBytes w x := by
  cases o with
  | big => rfl
  | little =>
    have h := leBytes_ofLeBytes (leBytes w x).reverse
    rw [List.length_reverse, length_leBytes] at h
    rw [image, toBE, swapBytes, ofBeBytes, h, beBytes]

/-- **Loading a word and swapping it reads its bytes as big-endian.** -/
theorem toBE_ofImage (o : ByteOrder) (bs : List UInt8) :
    toBE o bs.length (ofImage o bs) = ofBeBytes bs := by
  cases o with
  | big => rfl
  | little => rw [ofImage, toBE, swapBytes, leBytes_ofLeBytes]

end Catalina
