import Mathlib.Algebra.Order.Archimedean.Basic
import Mathlib.Algebra.Order.Field.Power
import Mathlib.Algebra.Order.Ring.Abs
import Mathlib.Algebra.Order.Round
import Mathlib.Data.Nat.Log
import Mathlib.Data.Rat.Cast.Order
import Mathlib.Data.Rat.Floor
import Mathlib.Tactic.FieldSimp
import Mathlib.Tactic.Linarith
import Mathlib.Tactic.NormNum
import Mathlib.Tactic.Positivity
import Mathlib.Tactic.Ring

/-!
# Binary floating-point numbers

* `IeeeFormat`: the widths of the exponent and of the fraction; `binary32`, `binary64`.
* `IeeeFormat.value`: the number that some bits hold, if they hold one.
* **`IeeeFormat.exists_value`**: an integer with few bits, and zeros behind them, is held by some bits.
* **`IeeeFormat.Normal.exists_value_near`**: a number in the normal range is next to one that is.
-/

namespace Catalina

structure IeeeFormat where
  expBits : ℕ
  fracBits : ℕ
  expBits_ge : 2 ≤ expBits
deriving DecidableEq, Repr

def binary32 : IeeeFormat := ⟨8, 23, by decide⟩

def binary64 : IeeeFormat := ⟨11, 52, by decide⟩

namespace IeeeFormat

variable (F : IeeeFormat)

/-- The number of bits, the sign included. -/
def width : ℕ := 1 + F.expBits + F.fracBits

def bias : ℕ := 2 ^ (F.expBits - 1) - 1

/-- The number without its sign, of a fraction and an exponent field. -/
def magnitude (fraction field : ℕ) : ℚ :=
  if field = 0 then fraction * 2 ^ (1 - F.bias - F.fracBits : ℤ)
  else (2 ^ F.fracBits + fraction) * 2 ^ (field - F.bias - F.fracBits : ℤ)

/-- The number that the bits `x` hold; `none` for an infinity or a NaN. -/
def value (x : ℕ) : Option ℚ :=
  let fraction := x % 2 ^ F.fracBits
  let field := x / 2 ^ F.fracBits % 2 ^ F.expBits
  let negative := x / 2 ^ F.fracBits / 2 ^ F.expBits % 2 = 1
  if field = 2 ^ F.expBits - 1 then none
  else some (if negative then -F.magnitude fraction field else F.magnitude fraction field)

/-- The bits with the given sign, exponent field and fraction. -/
def pack (negative : Bool) (field fraction : ℕ) : ℕ :=
  (negative.toNat * 2 ^ F.expBits + field) * 2 ^ F.fracBits + fraction

variable {F}

theorem two_mul_bias : 2 * F.bias + 2 = 2 ^ F.expBits := by
  have h : 2 ^ F.expBits = 2 * 2 ^ (F.expBits - 1) := by
    rw [← Nat.pow_succ', Nat.succ_eq_add_one, Nat.sub_add_cancel (Nat.le_of_succ_le F.expBits_ge)]
  have hpos : 0 < 2 ^ (F.expBits - 1) := Nat.two_pow_pos _
  unfold bias
  omega

theorem pack_lt {negative : Bool} {field fraction : ℕ} (hfield : field < 2 ^ F.expBits)
    (hfraction : fraction < 2 ^ F.fracBits) : F.pack negative field fraction < 2 ^ F.width := by
  have hsign : negative.toNat ≤ 1 := Bool.toNat_le negative
  have hhigh : negative.toNat * 2 ^ F.expBits + field + 1 ≤ 2 * 2 ^ F.expBits := by
    have := Nat.mul_le_mul_right (2 ^ F.expBits) hsign
    omega
  have hmul := Nat.mul_le_mul_right (2 ^ F.fracBits) hhigh
  rw [Nat.add_mul, Nat.one_mul] at hmul
  rw [width, Nat.pow_add, Nat.pow_add, Nat.pow_one, pack]
  omega

theorem value_pack {negative : Bool} {field fraction : ℕ} (hfield : field < 2 ^ F.expBits - 1)
    (hfraction : fraction < 2 ^ F.fracBits) : F.value (F.pack negative field fraction) =
      some (if negative then -F.magnitude fraction field else F.magnitude fraction field) := by
  have hpos : 0 < 2 ^ F.fracBits := Nat.two_pow_pos _
  have hfield' : field < 2 ^ F.expBits := by omega
  have hhigh : F.pack negative field fraction / 2 ^ F.fracBits =
      negative.toNat * 2 ^ F.expBits + field := by
    rw [pack, Nat.mul_comm, Nat.mul_add_div hpos, Nat.div_eq_of_lt hfraction, Nat.add_zero]
  have hlow : F.pack negative field fraction % 2 ^ F.fracBits = fraction := by
    rw [pack, Nat.mul_add_mod_self_right, Nat.mod_eq_of_lt hfraction]
  have hexp : (negative.toNat * 2 ^ F.expBits + field) % 2 ^ F.expBits = field := by
    rw [Nat.mul_add_mod_self_right, Nat.mod_eq_of_lt hfield']
  have hsign : (negative.toNat * 2 ^ F.expBits + field) / 2 ^ F.expBits = negative.toNat := by
    rw [Nat.mul_comm, Nat.mul_add_div (Nat.two_pow_pos _), Nat.div_eq_of_lt hfield', Nat.add_zero]
  unfold value
  dsimp only
  rw [hhigh, hlow, hexp, hsign, if_neg (Nat.ne_of_lt hfield)]
  cases negative <;> rfl

theorem exists_magnitude {n s : ℕ} (hn : n < 2 ^ (F.fracBits + 1)) (hs : s + F.fracBits ≤ F.bias) :
    ∃ field fraction, field < 2 ^ F.expBits - 1 ∧ fraction < 2 ^ F.fracBits ∧
      F.magnitude fraction field = n * 2 ^ s := by
  have hbias : 2 * F.bias + 2 = 2 ^ F.expBits := two_mul_bias
  by_cases hzero : n = 0
  · refine ⟨0, 0, by omega, Nat.two_pow_pos _, ?_⟩
    rw [hzero]
    simp [magnitude]
  -- the bits are moved up until the first one is in its place
  obtain ⟨t, ht⟩ : ∃ t, Nat.log 2 n + t = F.fracBits :=
    ⟨F.fracBits - Nat.log 2 n, Nat.add_sub_cancel' (Nat.le_of_lt_succ
      (Nat.log_lt_of_lt_pow hzero hn))⟩
  have hlow : 2 ^ F.fracBits ≤ n * 2 ^ t := by
    rw [← ht, Nat.pow_add]
    exact Nat.mul_le_mul_right _ (Nat.pow_log_le_self 2 hzero)
  have hhigh : n * 2 ^ t < 2 * 2 ^ F.fracBits := by
    have h := Nat.lt_pow_succ_log_self (b := 2) (by decide) n
    rw [← ht, Nat.pow_add, ← Nat.mul_assoc, ← Nat.pow_succ']
    exact Nat.mul_lt_mul_of_pos_right h (Nat.two_pow_pos _)
  have hpos : s + F.bias + F.fracBits - t ≠ 0 := by
    have : 0 < F.bias := by
      have h₁ : 2 ^ 2 ≤ 2 ^ F.expBits := Nat.pow_le_pow_right (by decide) F.expBits_ge
      omega
    omega
  refine ⟨s + F.bias + F.fracBits - t, n * 2 ^ t - 2 ^ F.fracBits, by omega, by omega, ?_⟩
  have hsum : ((2 : ℚ) ^ F.fracBits + ((n * 2 ^ t - 2 ^ F.fracBits : ℕ) : ℚ)) = n * 2 ^ t := by
    rw [Nat.cast_sub hlow]
    push_cast
    ring
  have hexp : (((s + F.bias + F.fracBits - t : ℕ) : ℤ) - F.bias - F.fracBits : ℤ) = s - t := by
    omega
  rw [magnitude, if_neg hpos, hsum, hexp, zpow_sub₀ (by norm_num), zpow_natCast, zpow_natCast]
  field_simp

theorem exists_value {M : ℤ} {s : ℕ} (hM : |M| < 2 ^ (F.fracBits + 1))
    (hs : s + F.fracBits ≤ F.bias) :
    ∃ x, x < 2 ^ F.width ∧ F.value x = some ((M * 2 ^ s : ℤ) : ℚ) := by
  have hlt : M.natAbs < 2 ^ (F.fracBits + 1) := by
    have h := hM
    rw [Int.abs_eq_natAbs] at h
    exact_mod_cast h
  obtain ⟨field, fraction, hfield, hfraction, hmagnitude⟩ := exists_magnitude hlt hs
  refine ⟨F.pack (decide (M < 0)) field fraction,
    pack_lt (Nat.lt_of_lt_of_le hfield (Nat.sub_le _ _)) hfraction, ?_⟩
  rw [value_pack hfield hfraction, hmagnitude]
  have habs : (M.natAbs : ℚ) = |(M : ℚ)| := by
    rw [← Int.cast_abs, Int.abs_eq_natAbs]
    rfl
  rw [habs]
  by_cases hneg : M < 0
  · rw [if_pos (by simpa using hneg), abs_of_neg (by exact_mod_cast hneg)]
    push_cast
    rw [neg_mul, neg_neg]
  · rw [if_neg (by simpa using hneg), abs_of_nonneg (by exact_mod_cast not_lt.mp hneg)]
    push_cast
    rfl

/-! ## The nearest one -/

/-- The numbers with the full precision. -/
def Normal (F : IeeeFormat) (q : ℚ) : Prop :=
  (2 : ℚ) ^ (1 - F.bias : ℤ) ≤ |q| ∧ |q| < 2 ^ (F.bias : ℤ)

theorem value_zero : F.value 0 = some 0 := by
  have hfour : 2 ^ 2 ≤ 2 ^ F.expBits := Nat.pow_le_pow_right (by decide) F.expBits_ge
  unfold value
  rw [Nat.zero_mod, Nat.zero_div, Nat.zero_mod, Nat.zero_div, Nat.zero_mod]
  dsimp only
  rw [if_neg (by omega), if_neg (by decide), magnitude, if_pos rfl, Nat.cast_zero, zero_mul]

theorem magnitude_eq {m e : ℤ} (hlow : 2 ^ F.fracBits ≤ m) (he : 1 - (F.bias : ℤ) ≤ e) :
    F.magnitude (m - 2 ^ F.fracBits).toNat (e + F.bias).toNat = m * 2 ^ (e - F.fracBits) := by
  have hfield : (e + F.bias).toNat ≠ 0 := by omega
  have hfraction : (((m - 2 ^ F.fracBits).toNat : ℕ) : ℚ) = m - 2 ^ F.fracBits := by
    have hcast : (((m - 2 ^ F.fracBits).toNat : ℕ) : ℤ) = m - 2 ^ F.fracBits :=
      Int.toNat_of_nonneg (by omega)
    exact_mod_cast congrArg (Int.cast : ℤ → ℚ) hcast
  have hexp : (((e + F.bias).toNat : ℤ) - F.bias - F.fracBits : ℤ) = e - F.fracBits := by omega
  rw [magnitude, if_neg hfield, hfraction, hexp, add_sub_cancel]

theorem exists_significand_near (p : ℕ) {q : ℚ} (hpos : 0 < q) : ∃ e m : ℤ,
    (2 : ℚ) ^ e ≤ q ∧ q < 2 ^ (e + 1) ∧ 2 ^ p ≤ m ∧ m ≤ 2 * 2 ^ p ∧
      2 ^ (p + 1) * |(m : ℚ) * 2 ^ (e - p) - q| ≤ q := by
  obtain ⟨e, hle, hlt⟩ := exists_mem_Ico_zpow hpos (one_lt_two : (1 : ℚ) < 2)
  have hu : (0 : ℚ) < 2 ^ (e - p) := zpow_pos two_pos _
  obtain ⟨m, hm⟩ : ∃ m, m = round (q / 2 ^ (e - p)) := ⟨_, rfl⟩
  have hnear : |q / 2 ^ (e - p) - m| ≤ 1 / 2 := hm ▸ abs_sub_round _
  have hplace : (2 : ℚ) ^ e = 2 ^ p * 2 ^ (e - p) := by
    rw [← zpow_natCast, ← zpow_add₀ two_ne_zero, add_sub_cancel]
  have hfirst : (2 : ℚ) ^ p ≤ q / 2 ^ (e - p) := by
    rw [le_div_iff₀ hu, ← hplace]
    exact hle
  have hlast : q / 2 ^ (e - p) < 2 * 2 ^ p := by
    rw [div_lt_iff₀ hu, mul_assoc, ← hplace, ← zpow_one_add₀ two_ne_zero, add_comm]
    exact hlt
  obtain ⟨hnear₁, hnear₂⟩ := abs_le.mp hnear
  have hm₁ : 2 ^ p ≤ m := by
    have h₁ : ((2 ^ p : ℤ) : ℚ) < (m + 1 : ℤ) := by
      push_cast
      linarith
    have h₂ : (2 ^ p : ℤ) < m + 1 := by exact_mod_cast h₁
    omega
  have hm₂ : m ≤ 2 * 2 ^ p := by
    have h₁ : (m : ℚ) < (2 * 2 ^ p + 1 : ℤ) := by
      push_cast
      linarith
    have h₂ : m < 2 * 2 ^ p + 1 := by exact_mod_cast h₁
    omega
  have hdiff : |(m : ℚ) * 2 ^ (e - p) - q| = |q / 2 ^ (e - p) - m| * 2 ^ (e - p) := by
    rw [← abs_of_pos hu, ← abs_mul, abs_of_pos hu, sub_mul, div_mul_cancel₀ _ hu.ne', abs_sub_comm]
  refine ⟨e, m, hle, hlt, hm₁, hm₂, ?_⟩
  rw [hdiff, pow_succ]
  calc _ = |q / 2 ^ (e - p) - m| * 2 * (2 ^ p * 2 ^ (e - p)) := by ring
    _ ≤ 1 * (2 ^ p * 2 ^ (e - p)) := by
        gcongr
        linarith
    _ ≤ q := by rw [one_mul, ← hplace]; exact hle

/-- **A number in the normal range is next to a magnitude.** -/
theorem exists_magnitude_near {q : ℚ} (hlow : (2 : ℚ) ^ (1 - F.bias : ℤ) ≤ q)
    (hhigh : q < 2 ^ (F.bias : ℤ)) : ∃ field fraction, field < 2 ^ F.expBits - 1 ∧
      fraction < 2 ^ F.fracBits ∧ 2 ^ (F.fracBits + 1) * |F.magnitude fraction field - q| ≤ q := by
  have hbias : 2 * F.bias + 2 = 2 ^ F.expBits := two_mul_bias
  have hpos : 0 < q := (zpow_pos two_pos _).trans_le hlow
  obtain ⟨e, m, hle, hlt, hm₁, hm₂, herror⟩ := exists_significand_near F.fracBits hpos
  have hge : 1 - (F.bias : ℤ) ≤ e :=
    Int.lt_add_one_iff.mp ((zpow_lt_zpow_iff_right₀ one_lt_two).mp (hlow.trans_lt hlt))
  have hbelow : e < F.bias := (zpow_lt_zpow_iff_right₀ one_lt_two).mp (hle.trans_lt hhigh)
  by_cases htop : m < 2 * 2 ^ F.fracBits
  · refine ⟨(e + F.bias).toNat, (m - 2 ^ F.fracBits).toNat, by omega, ?_, ?_⟩
    · zify
      omega
    · rw [magnitude_eq hm₁ hge]
      exact herror
  · -- the significand is the first one with the next exponent
    have hm₃ : m = 2 * 2 ^ F.fracBits := by omega
    refine ⟨(e + 1 + F.bias).toNat, ((2 : ℤ) ^ F.fracBits - 2 ^ F.fracBits).toNat, by omega, ?_, ?_⟩
    · rw [sub_self]
      exact Nat.two_pow_pos _
    · rw [magnitude_eq (le_refl _) (by omega)]
      have hnext : (((2 : ℤ) ^ F.fracBits : ℤ) : ℚ) * 2 ^ (e + 1 - F.fracBits) =
          m * 2 ^ (e - F.fracBits) := by
        rw [hm₃, show e + 1 - (F.fracBits : ℤ) = 1 + (e - F.fracBits) by ring,
          zpow_one_add₀ two_ne_zero]
        push_cast
        ring
      rw [hnext]
      exact herror

theorem Normal.exists_value_near {q : ℚ} (hq : F.Normal q) : ∃ x, x < 2 ^ F.width ∧
    ∃ v, F.value x = some v ∧ 2 ^ (F.fracBits + 1) * |v - q| ≤ |q| := by
  obtain ⟨field, fraction, hfield, hfraction, hnear⟩ := exists_magnitude_near hq.1 hq.2
  refine ⟨F.pack (decide (q < 0)) field fraction,
    pack_lt (Nat.lt_of_lt_of_le hfield (Nat.sub_le _ _)) hfraction, _, value_pack hfield hfraction, ?_⟩
  by_cases hneg : q < 0
  · rw [if_pos (by simpa using hneg)]
    rw [abs_of_neg hneg] at hnear ⊢
    rwa [← neg_add', abs_neg, ← sub_neg_eq_add]
  · rw [if_neg (by simpa using hneg)]
    rwa [abs_of_nonneg (not_lt.mp hneg)] at hnear ⊢

end IeeeFormat

end Catalina
