import Mathlib.Algebra.Order.Field.Power
import Mathlib.Algebra.Order.Ring.Abs
import Mathlib.Data.Rat.Cast.Order
import Mathlib.Tactic.FieldSimp
import Mathlib.Tactic.Linarith
import Mathlib.Tactic.NormNum
import Mathlib.Tactic.Positivity
import Mathlib.Tactic.Ring

/-!
# Decimal texts and significant digits

* `decimalValue`: the number that a decimal text denotes, in plain or exponent notation.
* `RoundedTo k q d`: `d` is `q` rounded to `k` significant decimal digits; ties go either way.
* `FewDigits k n`: the integer `n` has at most `k` significant digits.
* **`RoundedTo.eq_of_fewDigits`**, **`RoundedTo.of_not_fewDigits`**: an integer is rounded to itself
  exactly if it has few digits, and to a multiple of ten otherwise.
* **`RoundedTo.again`**: a number next to what rounding has made is rounded to the same.
-/

namespace Catalina

/-! ## Texts -/

/-- The characters `0` to `9`. -/
def isDigit (b : UInt8) : Bool := 48 ≤ b && b ≤ 57

/-- The number with the given digits. -/
def digitsValue (bs : List UInt8) : ℕ := bs.foldl (fun n b => 10 * n + (b.toNat - 48)) 0

/-- The number behind an optional sign. -/
def signedValue : List UInt8 → ℤ
  | 45 :: bs => -digitsValue bs
  | 43 :: bs => digitsValue bs
  | bs => digitsValue bs

/-- An unsigned number with an optional fraction and an optional exponent. -/
def unsignedDecimal (bs : List UInt8) : Option ℚ :=
  let whole := bs.takeWhile isDigit
  let rest := bs.dropWhile isDigit
  let fraction := if rest.head? = some 46 then rest.tail.takeWhile isDigit else []
  let rest := if rest.head? = some 46 then rest.tail.dropWhile isDigit else rest
  let mantissa : ℚ := digitsValue (whole ++ fraction) / 10 ^ fraction.length
  if whole = [] then none
  else match rest with
    | [] => some mantissa
    | 101 :: exponent => some (mantissa * 10 ^ signedValue exponent)
    | _ => none

/-- The number that a text denotes. -/
def decimalValue : List UInt8 → Option ℚ
  | 45 :: bs => (unsignedDecimal bs).map fun q => -q
  | bs => unsignedDecimal bs

/-! ## Rounding -/

/-- `d` is a multiple of `10 ^ e` next to `q`, where `q` has `k` digits in front of that place. -/
def RoundedTo (k : ℕ) (q d : ℚ) : Prop :=
  (q = 0 ∧ d = 0) ∨ ∃ e c : ℤ, 10 ^ (e + k - 1) ≤ |q| ∧ |q| < 10 ^ (e + k) ∧ d = c * 10 ^ e ∧
    |q - d| ≤ 10 ^ e / 2

/-- The integer `n` is written with at most `k` digits and zeros behind them. -/
def FewDigits (k : ℕ) (n : ℤ) : Prop := ∃ c : ℤ, ∃ j : ℕ, n = c * 10 ^ j ∧ |c| < 10 ^ k

variable {k : ℕ} {n : ℤ} {d : ℚ}

theorem ten_zpow_lt {a b : ℤ} : (10 : ℚ) ^ a < 10 ^ b ↔ a < b := zpow_lt_zpow_iff_right₀ (by norm_num)

theorem eq_of_lt {a c e : ℤ} (h : |(a * 10 ^ e - c * 10 ^ e : ℚ)| < 10 ^ e) : a = c := by
  have hpos : (0 : ℚ) < 10 ^ e := by positivity
  rw [← sub_mul, abs_mul, abs_of_pos hpos] at h
  have hlt : |((a - c : ℤ) : ℚ)| < 1 := by
    push_cast
    nlinarith
  have hzero : a - c = 0 := Int.abs_lt_one_iff.mp (by exact_mod_cast hlt)
  omega

theorem eq_of_near {a c e : ℤ} (h : |(a * 10 ^ e - c * 10 ^ e : ℚ)| ≤ 10 ^ e / 2) : a = c :=
  eq_of_lt (h.trans_lt (half_lt_self (by positivity)))

theorem FewDigits.multiple (hn : FewDigits k n) {e : ℤ} (hlow : (10 : ℚ) ^ (e + k - 1) ≤ |(n : ℚ)|) :
    ∃ a : ℤ, (n : ℚ) = a * 10 ^ e := by
  by_cases he : e ≤ 0
  · obtain ⟨i, rfl⟩ : ∃ i : ℕ, e = -i := ⟨(-e).toNat, by omega⟩
    refine ⟨n * 10 ^ i, ?_⟩
    rw [zpow_neg, zpow_natCast]
    push_cast
    field_simp
  · obtain ⟨c, j, rfl, hc⟩ := hn
    obtain ⟨i, rfl⟩ : ∃ i : ℕ, e = i := ⟨e.toNat, by omega⟩
    by_cases hij : i ≤ j
    · obtain ⟨r, rfl⟩ := Nat.exists_eq_add_of_le hij
      refine ⟨c * 10 ^ r, ?_⟩
      rw [zpow_natCast]
      push_cast
      ring
    · -- the number would be too small
      have hc' : |(c : ℚ)| < 10 ^ k := by exact_mod_cast hc
      have habs : |((c * 10 ^ j : ℤ) : ℚ)| < 10 ^ ((j : ℤ) + k) := by
        push_cast
        rw [abs_mul, abs_of_pos (by positivity : (0 : ℚ) < 10 ^ j), zpow_add₀ (by norm_num),
          zpow_natCast, zpow_natCast, mul_comm]
        gcongr
      have hlt := ten_zpow_lt.mp (hlow.trans_lt habs)
      omega

/-- **An integer with few digits is rounded to itself.** -/
theorem RoundedTo.eq_of_fewDigits (h : RoundedTo k n d) (hn : FewDigits k n) : d = n := by
  rcases h with ⟨hn₀, hd₀⟩ | ⟨e, c, hlow, _, rfl, hnear⟩
  · rw [hn₀, hd₀]
  · obtain ⟨a, ha⟩ := hn.multiple hlow
    rw [ha] at hnear ⊢
    rw [eq_of_near hnear]

/-- **An integer with more digits is rounded to another one**, which is a multiple of ten and not far
away. -/
theorem RoundedTo.of_not_fewDigits (h : RoundedTo k n d) (hn : ¬ FewDigits k n) :
    ∃ c : ℤ, ∃ e : ℕ, 0 < e ∧ d = ((c * 10 ^ e : ℤ) : ℚ) ∧ c * 10 ^ e ≠ n ∧
      10 ^ (e + k) ≤ 10 * |n| ∧ 2 * |n - c * 10 ^ e| ≤ 10 ^ e := by
  rcases h with ⟨hn₀, _⟩ | ⟨e, c, hlow, hhigh, rfl, hnear⟩
  · exact absurd ⟨0, 0, by simpa using hn₀, by positivity⟩ hn
  have hlarge : (10 : ℤ) ^ k ≤ |n| := by
    by_contra hlt
    exact hn ⟨n, 0, by simp, not_le.mp hlt⟩
  have hlarge' : (10 : ℚ) ^ (k : ℤ) ≤ |(n : ℚ)| := by
    rw [zpow_natCast]
    exact_mod_cast hlarge
  have he : 0 < e := by
    have hlt := ten_zpow_lt.mp (hlarge'.trans_lt hhigh)
    omega
  obtain ⟨i, rfl⟩ : ∃ i : ℕ, e = i := ⟨e.toNat, by omega⟩
  have hd : (c : ℚ) * 10 ^ (i : ℤ) = ((c * 10 ^ i : ℤ) : ℚ) := by
    rw [zpow_natCast]
    push_cast
    rfl
  rw [hd] at hnear ⊢
  have hnear' : 2 * |n - c * 10 ^ i| ≤ 10 ^ i := by
    rw [zpow_natCast] at hnear
    have h₁ : (2 : ℚ) * |(n : ℚ) - ((c * 10 ^ i : ℤ) : ℚ)| ≤ 10 ^ i := by linarith
    exact_mod_cast h₁
  refine ⟨c, i, by omega, rfl, fun heq => ?_, ?_, hnear'⟩
  · -- the quotient would have few digits
    refine hn ⟨c, i, heq.symm, ?_⟩
    have hlt : |(c : ℚ)| * 10 ^ i < 10 ^ k * 10 ^ i := by
      rw [← heq, zpow_add₀ (by norm_num), zpow_natCast, zpow_natCast] at hhigh
      push_cast at hhigh
      rw [abs_mul, abs_of_pos (by positivity : (0 : ℚ) < 10 ^ i)] at hhigh
      linarith
    exact_mod_cast lt_of_mul_lt_mul_right hlt (by positivity)
  · have h₁ : (10 : ℚ) ^ (i + k) ≤ 10 * |(n : ℚ)| := by
      have hstep : (10 : ℚ) ^ ((i : ℤ) + k) = 10 * 10 ^ ((i : ℤ) + k - 1) := by
        rw [← zpow_one_add₀ (by norm_num)]
        ring_nf
      rw [← zpow_natCast, Nat.cast_add, hstep]
      linarith
    exact_mod_cast h₁

/-! ## Rounding twice -/

variable {q y d' : ℚ}

theorem RoundedTo.near (h : RoundedTo (k + 1) q d) : 2 * 10 ^ k * |q - d| ≤ |q| := by
  rcases h with ⟨rfl, rfl⟩ | ⟨e, c, hlow, _, _, hnear⟩
  · simp
  · have hplace : (10 : ℚ) ^ (e + (k + 1 : ℕ) - 1) = 10 ^ k * 10 ^ e := by
      rw [← zpow_natCast, ← zpow_add₀ (by norm_num)]
      congr 1
      push_cast
      ring
    rw [hplace] at hlow
    calc 2 * 10 ^ k * |q - d| ≤ 2 * 10 ^ k * (10 ^ e / 2) := by gcongr
      _ = 10 ^ k * 10 ^ e := by ring
      _ ≤ |q| := hlow

/-- **What rounding makes** of a number that is not zero has `k` digits. -/
theorem RoundedTo.digits (h : RoundedTo (k + 1) q d) (hq : q ≠ 0) :
    ∃ c e : ℤ, d = c * 10 ^ e ∧ 10 ^ k ≤ |c| ∧ |c| < 10 ^ (k + 1) := by
  obtain ⟨e, c, hlow, hhigh, rfl, hnear⟩ := h.resolve_left fun hzero => hq hzero.1
  have hu : (0 : ℚ) < 10 ^ e := zpow_pos (by norm_num) e
  have hlow' : 10 ^ k * (10 : ℚ) ^ e ≤ |q| := by
    refine le_of_eq_of_le ?_ hlow
    rw [← zpow_natCast, ← zpow_add₀ (by norm_num)]
    congr 1
    push_cast
    ring
  have hhigh' : |q| < 10 ^ (k + 1) * (10 : ℚ) ^ e := by
    refine lt_of_lt_of_eq hhigh ?_
    rw [← zpow_natCast, ← zpow_add₀ (by norm_num), add_comm]
  have hc : |(c : ℚ) * 10 ^ e| = |(c : ℚ)| * 10 ^ e := by rw [abs_mul, abs_of_pos hu]
  have h₁ := abs_sub_abs_le_abs_sub q (c * 10 ^ e : ℚ)
  have h₂ := abs_sub_abs_le_abs_sub (c * 10 ^ e : ℚ) q
  rw [abs_sub_comm] at h₂
  rw [hc] at h₁ h₂
  have hc₁ : 10 ^ k ≤ |c| := by
    have hlt : (((10 ^ k : ℤ) : ℚ)) < ((|c| + 1 : ℤ) : ℚ) := by
      refine lt_of_mul_lt_mul_right ?_ hu.le
      push_cast
      linarith
    have hlt' : (10 : ℤ) ^ k < |c| + 1 := by exact_mod_cast hlt
    omega
  have hc₂ : |c| ≤ 10 ^ (k + 1) := by
    have hlt : ((|c| : ℤ) : ℚ) < ((10 ^ (k + 1) + 1 : ℤ) : ℚ) := by
      refine lt_of_mul_lt_mul_right ?_ hu.le
      push_cast
      linarith
    have hlt' : |c| < (10 : ℤ) ^ (k + 1) + 1 := by exact_mod_cast hlt
    omega
  rcases hc₂.lt_or_eq with hlt | heq
  · exact ⟨c, e, rfl, hc₁, hlt⟩
  · -- a power of ten is written with the next exponent
    have hten : (0 : ℤ) < 10 ^ k := by positivity
    have hlast : (10 : ℤ) ^ k < 10 ^ (k + 1) := pow_lt_pow_right₀ (by norm_num) (Nat.lt_succ_self k)
    have hnext : (10 : ℚ) ^ (e + 1) = 10 * 10 ^ e := by rw [zpow_add_one₀ (by norm_num), mul_comm]
    rcases (abs_eq (by positivity)).mp heq with rfl | rfl
    · refine ⟨10 ^ k, e + 1, ?_, (abs_of_pos hten).ge, (abs_of_pos hten).trans_lt hlast⟩
      rw [hnext]
      push_cast
      ring
    · refine ⟨-10 ^ k, e + 1, ?_, ?_, ?_⟩
      · rw [hnext]
        push_cast
        ring
      · rw [abs_neg, abs_of_pos hten]
      · rwa [abs_neg, abs_of_pos hten]

theorem place_le {c e e' : ℤ} (hd : |d| = |(c : ℚ)| * 10 ^ e) (hc : |c| < 10 ^ k)
    (hnear : 2 * |y - d| < 10 ^ e) (hlow : 10 ^ (e' + k - 1) ≤ |y|) : e' ≤ e := by
  have hc' : |(c : ℚ)| ≤ 10 ^ k - 1 := by
    have hle : |c| ≤ 10 ^ k - 1 := by omega
    exact_mod_cast hle
  have hbelow : |d| ≤ 10 ^ k * 10 ^ e - 10 ^ e := by
    rw [hd, ← sub_one_mul]
    gcongr
  have hplace : (10 : ℚ) ^ (e' + k - 1) < 10 ^ (e + k) := by
    rw [zpow_add₀ (by norm_num : (10 : ℚ) ≠ 0) e, zpow_natCast]
    refine hlow.trans_lt ?_
    have htri := abs_sub_abs_le_abs_sub y d
    have hdist := abs_nonneg (y - d)
    linarith
  have hlt := ten_zpow_lt.mp hplace
  omega

theorem dist_lt_half {m e : ℤ} (hd : |d| = |(m : ℚ)| * 10 ^ e) (hhigh : |y| < 10 ^ k * 10 ^ e)
    (hnear : 2 * 10 ^ k * |y - d| < |d|) : |y - d| < 10 ^ e / 2 := by
  have hv : (0 : ℚ) < 10 ^ e := zpow_pos (by norm_num) e
  have hT : (1 : ℚ) ≤ 10 ^ k := one_le_pow₀ (by norm_num)
  have htri := abs_sub_abs_le_abs_sub d y
  rw [abs_sub_comm] at htri
  have hdist : |y - d| < 10 ^ e := by nlinarith
  have hm : |m| ≤ 10 ^ k := by
    have hlt : ((|m| : ℤ) : ℚ) < ((10 ^ k + 1 : ℤ) : ℚ) := by
      refine lt_of_mul_lt_mul_right ?_ hv.le
      push_cast
      linarith
    exact Int.lt_add_one_iff.mp (by exact_mod_cast hlt)
  have hm' : |(m : ℚ)| ≤ 10 ^ k := by exact_mod_cast hm
  have hle : |d| ≤ 10 ^ k * 10 ^ e := by
    rw [hd]
    gcongr
  nlinarith

/-- **Rounding again** a number that is near enough to what rounding has made gives the same. -/
theorem RoundedTo.again {b : ℚ} (h : RoundedTo (k + 1) q d) (hq : q ≠ 0) (hb : 2 * 10 ^ (k + 1) < b)
    (hnear : b * |y - d| ≤ |d|) (hy : RoundedTo (k + 1) y d') : d' = d := by
  obtain ⟨c, e, hd, hc₁, hc₂⟩ := h.digits hq
  have hu : (0 : ℚ) < 10 ^ e := zpow_pos (by norm_num) e
  have habs : |d| = |(c : ℚ)| * 10 ^ e := by rw [hd, abs_mul, abs_of_pos hu]
  have hc₁' : (10 : ℚ) ^ k ≤ |(c : ℚ)| := by exact_mod_cast hc₁
  have hc₂' : |(c : ℚ)| < 10 ^ (k + 1) := by exact_mod_cast hc₂
  have hpos : 0 < |d| := habs ▸ mul_pos (lt_of_lt_of_le (by positivity) hc₁') hu
  -- the distance is small against the last digit
  have hsmall : 2 * 10 ^ (k + 1) * |y - d| < |d| := by
    rcases (abs_nonneg (y - d)).eq_or_lt with hzero | hdist
    · rwa [← hzero, mul_zero]
    · exact (mul_lt_mul_of_pos_right hb hdist).trans_le hnear
  have hhalf : 2 * |y - d| < 10 ^ e := by
    refine lt_of_mul_lt_mul_left (a := (10 : ℚ) ^ (k + 1)) ?_ (by positivity)
    calc 10 ^ (k + 1) * (2 * |y - d|) = 2 * 10 ^ (k + 1) * |y - d| := by ring
      _ < |(c : ℚ)| * 10 ^ e := habs ▸ hsmall
      _ ≤ 10 ^ (k + 1) * 10 ^ e := by gcongr
  rcases hy with ⟨rfl, -⟩ | ⟨e', c', hlow, hhigh, rfl, hround⟩
  · rw [zero_sub, abs_neg] at hsmall
    have hT : (1 : ℚ) ≤ 10 ^ (k + 1) := one_le_pow₀ (by norm_num)
    nlinarith
  obtain ⟨i, rfl⟩ := Int.le.dest (place_le habs hc₂ hhalf hlow)
  have hv : (0 : ℚ) < 10 ^ e' := zpow_pos (by norm_num) e'
  have hmultiple : d = (c * 10 ^ i : ℤ) * 10 ^ e' := by
    rw [hd, zpow_add₀ (by norm_num), zpow_natCast]
    push_cast
    ring
  have hlast : |y - d| < 10 ^ e' / 2 := by
    refine dist_lt_half (m := c * 10 ^ i) ?_ ?_ hsmall
    · rw [hmultiple, abs_mul, abs_of_pos hv]
    · rwa [mul_comm, ← zpow_natCast, ← zpow_add₀ (by norm_num)]
  have hdist := abs_sub_le (c' * 10 ^ e' : ℚ) y d
  rw [abs_sub_comm _ y, hmultiple] at hdist
  rw [hmultiple] at hlast ⊢
  rw [eq_of_lt (a := c') (c := c * 10 ^ i) (e := e') (by linarith)]

end Catalina
