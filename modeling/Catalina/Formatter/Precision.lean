import Catalina.Formatter.WholeNumbers

/-!
# The precision of floating-point values

A floating-point number is stored as a text of few digits, so that it comes back as another number.
That one is next to the number in the text, and is printed as this text again.

* `ConvertsNearest`, `SameConversion`: what is expected of `strtod` and `strtof` beyond whole numbers.
* `Detour`: the C library works as expected on the numbers that turn up.
* `detour_settles`: how far off the number is, and that it stays the same from then on.
* **`precision_lost_once`**: over any number of trips through the formatter.
-/

namespace Catalina

/-! ## The C library -/

/-- The text `s` of a number in the normal range, or of zero, is converted to a nearest one. -/
def ConvertsNearest (F : IeeeFormat) {w : ℕ} (strto : CString → Strto w) (s : CString) : Prop :=
  ∀ d, decimalValue s.chars = some d → d = 0 ∨ F.Normal d → (strto s).errno = false ∧
    ∃ v, F.value (strto s).value.toNat = some v ∧
      ∀ (y : BitVec w) (q : ℚ), F.value y.toNat = some q → |v - d| ≤ |q - d|

/-- Two texts of one number are converted alike. -/
def SameConversion (F : IeeeFormat) {w : ℕ} (strto : CString → Strto w) (s t : CString) : Prop :=
  ∀ d, decimalValue s.chars = some d → decimalValue t.chars = some d →
    (strto t).errno = (strto s).errno ∧
      F.value (strto t).value.toNat = F.value (strto s).value.toNat

section Detour

variable {F : IeeeFormat} {k w : ℕ} {print : BitVec w → CString} {strto : CString → Strto w}
  {x : BitVec w} {q : ℚ}

/-- The numbers that turn up for `x`: itself, and what comes back for it. -/
def TurnsUp (F : IeeeFormat) {w : ℕ} (print : BitVec w → CString) (strto : CString → Strto w)
    (x y : BitVec w) : Prop :=
  y = x ∨ F.value y.toNat = F.value (strto (print x)).value.toNat

/-- `%g` with `k` significant digits and `strtod` or `strtof` work as expected for `x`. -/
structure Detour (F : IeeeFormat) (k : ℕ) {w : ℕ} (print : BitVec w → CString)
    (strto : CString → Strto w) (x : BitVec w) : Prop where
  prints : ∀ y, TurnsUp F print strto x y → PrintsRounded F k print y
  nearest : ConvertsNearest F strto (print x)
  same : ∀ y, TurnsUp F print strto x y → SameConversion F strto (print x) (print y)

/-- The numbers that do not leave the normal range when they are rounded. -/
def IeeeFormat.InRange (F : IeeeFormat) (q : ℚ) : Prop :=
  q = 0 ∨ (2 : ℚ) ^ (2 - F.bias : ℤ) ≤ |q| ∧ |q| ≤ 2 ^ (F.bias - 1 : ℤ)

theorem RoundedTo.normal {d : ℚ} (h : RoundedTo (k + 1) q d) (hlow : (2 : ℚ) ^ (2 - F.bias : ℤ) ≤ |q|)
    (hhigh : |q| ≤ 2 ^ (F.bias - 1 : ℤ)) : F.Normal d := by
  have hpow : (1 : ℚ) ≤ 10 ^ k := one_le_pow₀ (by norm_num)
  have hnear : 2 * |q - d| ≤ |q| :=
    calc 2 * |q - d| ≤ 2 * 10 ^ k * |q - d| := by
          gcongr
          linarith
      _ ≤ |q| := h.near
  have h₁ := abs_sub_abs_le_abs_sub q d
  have h₂ := abs_sub_abs_le_abs_sub d q
  rw [abs_sub_comm] at h₂
  have hhalf : (2 : ℚ) ^ (2 - F.bias : ℤ) = 2 * 2 ^ (1 - F.bias : ℤ) := by
    rw [← zpow_one_add₀ two_ne_zero]
    congr 1
    ring
  have hdouble : (2 : ℚ) ^ (F.bias : ℤ) = 2 * 2 ^ (F.bias - 1 : ℤ) := by
    rw [← zpow_one_add₀ two_ne_zero]
    congr 1
    ring
  have hpos : (0 : ℚ) < 2 ^ (F.bias - 1 : ℤ) := zpow_pos two_pos _
  constructor <;> linarith

theorem Detour.near {d v : ℚ} (hround : RoundedTo (k + 1) q d) (hk : 2 * 10 ^ (k + 1) < (2 : ℚ) ^ w)
    (hconv : 2 ^ w * |v - d| ≤ |d|) : 10 ^ k * |v - q| ≤ |q| := by
  have hnear := hround.near
  have hten : (0 : ℚ) < 10 ^ k := by positivity
  have htri := abs_sub_le v d q
  rw [abs_sub_comm d q] at htri
  have hd := abs_sub_abs_le_abs_sub d q
  rw [abs_sub_comm] at hd
  have hdist := abs_nonneg (v - d)
  have hone : (1 : ℚ) ≤ 10 ^ k := one_le_pow₀ (by norm_num)
  have hle : |d| ≤ 2 * |q| := by nlinarith [abs_nonneg (q - d)]
  have hconv' : 20 * 10 ^ k * |v - d| ≤ 2 * |q| := by
    refine (mul_le_mul_of_nonneg_right ?_ hdist).trans (hconv.trans hle)
    rw [pow_succ] at hk
    linarith
  calc 10 ^ k * |v - q| ≤ 10 ^ k * (|v - d| + |q - d|) := by gcongr
    _ = 10 ^ k * |v - d| + 10 ^ k * |q - d| := mul_add _ _ _
    _ ≤ |q| := by linarith [abs_nonneg q]

/-- **A number that makes the detour settles**: what comes back is near to it, and comes back as it
is from any bits that hold it. -/
theorem detour_settles (hw : w = F.width) (hk : 2 * 10 ^ (k + 1) < (2 : ℚ) ^ (F.fracBits + 1))
    (hx : F.value x.toNat = some q) (hq : F.InRange q) (hc : Detour F (k + 1) print strto x) :
    (strto (print x)).errno = false ∧ ∃ v, F.value (strto (print x)).value.toNat = some v ∧
      10 ^ k * |v - q| ≤ |q| ∧ ∀ y : BitVec w, F.value y.toNat = some v →
        (strto (print y)).errno = false ∧ F.value (strto (print y)).value.toNat = some v := by
  obtain ⟨-, d, hd, hround⟩ := hc.prints x (Or.inl rfl) q hx
  -- a text of the same number is converted like that of `x`
  have hback : ∀ {y : BitVec w} {v : ℚ}, TurnsUp F print strto x y → F.value y.toNat = some v →
      (∀ d', RoundedTo (k + 1) v d' → d' = d) → (strto (print x)).errno = false →
      (strto (print y)).errno = false ∧
        F.value (strto (print y)).value.toNat = F.value (strto (print x)).value.toNat := by
    intro y v hy hv hagain herrno
    obtain ⟨-, d', hd', hround'⟩ := hc.prints y hy v hv
    obtain ⟨herrno', hvalue⟩ := hc.same y hy d hd (hagain d' hround' ▸ hd')
    exact ⟨herrno'.trans herrno, hvalue⟩
  rcases hq with rfl | ⟨hlow, hhigh⟩
  · have hzero : ∀ d', RoundedTo (k + 1) 0 d' → d' = 0 := by
      rintro d' (⟨-, hd'⟩ | ⟨e, c, hfirst, -⟩)
      · exact hd'
      · rw [abs_zero] at hfirst
        exact absurd hfirst (not_le.mpr (zpow_pos (by norm_num) _))
    obtain rfl := hzero d hround
    obtain ⟨herrno, v, hv, hnear⟩ := hc.nearest 0 hd (Or.inl rfl)
    have hv₀ : v = 0 := by
      have h₀ := hnear (BitVec.ofNat w 0) 0 (by
        rw [BitVec.toNat_ofNat, Nat.zero_mod, IeeeFormat.value_zero])
      rwa [sub_zero, sub_zero, abs_zero, abs_nonpos_iff] at h₀
    subst hv₀
    refine ⟨herrno, 0, hv, by norm_num, fun y hy => ?_⟩
    obtain ⟨herrno', hvalue⟩ := hback (Or.inr (hy.trans hv.symm)) hy hzero herrno
    exact ⟨herrno', hvalue.trans hv⟩
  · have hq₀ : q ≠ 0 := fun hq₀ => by
      rw [hq₀, abs_zero] at hlow
      exact absurd hlow (not_le.mpr (zpow_pos two_pos _))
    have hnormal : F.Normal d := hround.normal hlow hhigh
    obtain ⟨herrno, v, hv, hnear⟩ := hc.nearest d hd (Or.inr hnormal)
    obtain ⟨y, hy, u, hu, hclose⟩ := hnormal.exists_value_near
    have hyu : F.value (BitVec.ofNat w y).toNat = some u := by
      rw [BitVec.toNat_ofNat, Nat.mod_eq_of_lt (hw ▸ hy), hu]
    have hvd : 2 ^ (F.fracBits + 1) * |v - d| ≤ |d| :=
      (mul_le_mul_of_nonneg_left (hnear _ u hyu) (by positivity)).trans hclose
    refine ⟨herrno, v, hv, Detour.near hround hk hvd, fun y hy => ?_⟩
    obtain ⟨herrno', hvalue⟩ := hback (Or.inr (hy.trans hv.symm)) hy
      (fun d' hd' => hround.again hq₀ hk hvd hd') herrno
    exact ⟨herrno', hvalue.trans hv⟩

end Detour

/-! ## Trips through the formatter -/

section Trips

variable {P : Process} {ω : Type} {w : World P.types ω} {entry : List ℕ → ℕ}

/-- The value with the bits `x` in it comes back as the number `v`, and so does what has come back,
for `n` times. -/
def Trips (P : Process) {ω : Type} (w : World P.types ω) (entry : List ℕ → ℕ) (F : IeeeFormat)
    {b : ℕ} (mk : BitVec b → Plain) (v : ℚ) : ℕ → BitVec b → Prop
  | 0, _ => True
  | n + 1, x => ComesBack P w entry (mk x) fun p =>
      ∃ y, p = mk y ∧ F.value y.toNat = some v ∧ Trips P w entry F mk v n y

theorem comesBack_double_iff {x : BitVec 64} {q : ℚ} {wanted : Plain → Prop}
    (hx : binary64.value x.toNat = some q) (hprint : PrintsRounded binary64 8 P.printDouble x) :
    ComesBack P w entry (.double x) wanted ↔ (P.strtod (P.printDouble x)).errno = false ∧
      wanted (.double (P.strtod (P.printDouble x)).value) :=
  comesBack_iff (.double x) (length_printed (Nat.le_refl 8) (hprint _ hx).1)

theorem comesBack_float_iff {x : BitVec 32} {q : ℚ} {wanted : Plain → Prop}
    (hx : binary32.value x.toNat = some q) (hprint : PrintsRounded binary32 6 P.printFloat x) :
    ComesBack P w entry (.float x) wanted ↔ (P.strtof (P.printFloat x)).errno = false ∧
      wanted (.float (P.strtof (P.printFloat x)).value) :=
  comesBack_iff (.float x) (length_printed (by decide) (hprint _ hx).1)

variable {F : IeeeFormat} {k b : ℕ} {mk : BitVec b → Plain} {print : BitVec b → CString}
  {strto : CString → Strto b} {x : BitVec b} {q v : ℚ}

theorem trips_of_settled
    (hback : ∀ y, F.value y.toNat = some v → ∀ wanted : Plain → Prop,
      (ComesBack P w entry (mk y) wanted ↔
        (strto (print y)).errno = false ∧ wanted (mk (strto (print y)).value)))
    (hsettled : ∀ y : BitVec b, F.value y.toNat = some v →
      (strto (print y)).errno = false ∧ F.value (strto (print y)).value.toNat = some v) :
    ∀ (n : ℕ) (y : BitVec b), F.value y.toNat = some v → Trips P w entry F mk v n y
  | 0, _, _ => trivial
  | n + 1, y, hy => by
    obtain ⟨herrno, hvalue⟩ := hsettled y hy
    exact (hback y hy _).mpr ⟨herrno, _, rfl, hvalue, trips_of_settled hback hsettled n _ hvalue⟩

theorem trips_of_detour
    (hback : ∀ (y : BitVec b) (q : ℚ), F.value y.toNat = some q → PrintsRounded F (k + 1) print y →
      ∀ wanted : Plain → Prop, (ComesBack P w entry (mk y) wanted ↔
        (strto (print y)).errno = false ∧ wanted (mk (strto (print y)).value)))
    (hb : b = F.width) (hk : 2 * 10 ^ (k + 1) < (2 : ℚ) ^ (F.fracBits + 1))
    (hx : F.value x.toNat = some q) (hq : F.InRange q) (hc : Detour F (k + 1) print strto x) :
    ∃ v : ℚ, 10 ^ k * |v - q| ≤ |q| ∧ ∀ n, Trips P w entry F mk v n x := by
  obtain ⟨herrno, v, hv, hnear, hsettled⟩ := detour_settles hb hk hx hq hc
  refine ⟨v, hnear, fun n => ?_⟩
  cases n with
  | zero => trivial
  | succ n =>
    have htrips := trips_of_settled (fun y hy =>
      hback y v hy (hc.prints y (Or.inr (hy.trans hv.symm)))) hsettled n _ hv
    exact (hback x q hx (hc.prints x (Or.inl rfl)) _).mpr ⟨herrno, _, rfl, hv, htrips⟩

end Trips

/-- **Precision is lost once.** For every number that a `gdouble` or a `gfloat` holds, zero or of a
magnitude away from the ends of the range, what comes back from the formatter is off by at most one
part in `10 ^ 7` or in `10 ^ 5`, and comes back as it is from any number of further trips. -/
theorem precision_lost_once (P : Process) {ω : Type} (w : World P.types ω) (entry : List ℕ → ℕ) :
    (∀ (x : BitVec 64) (q : ℚ), binary64.value x.toNat = some q → binary64.InRange q →
      Detour binary64 8 P.printDouble P.strtod x → ∃ v : ℚ, 10 ^ 7 * |v - q| ≤ |q| ∧
        ∀ n, Trips P w entry binary64 .double v n x) ∧
    ∀ (x : BitVec 32) (q : ℚ), binary32.value x.toNat = some q → binary32.InRange q →
      Detour binary32 6 P.printFloat P.strtof x → ∃ v : ℚ, 10 ^ 5 * |v - q| ≤ |q| ∧
        ∀ n, Trips P w entry binary32 .float v n x := by
  constructor
  · intro x q hx hq hc
    exact trips_of_detour (fun y q hy hprint wanted => comesBack_double_iff hy hprint) rfl
      (by norm_num [binary64]) hx hq hc
  · intro x q hx hq hc
    exact trips_of_detour (fun y q hy hprint wanted => comesBack_float_iff hy hprint) rfl
      (by norm_num [binary32]) hx hq hc

/-! ## A number with nine digits -/

/-- A C library that knows one text, which denotes what it is converted to. -/
theorem detour_constant {F : IeeeFormat} {k b : ℕ} {s : CString} {x y₀ : BitVec b} {q d : ℚ}
    (hs : s.strlen ≤ k + 8) (hd : decimalValue s.chars = some d)
    (hy₀ : F.value y₀.toNat = some d) (hx : F.value x.toNat = some q) (hround : RoundedTo k q d)
    (hround' : RoundedTo k d d) : Detour F k (fun _ => s) (fun _ => ⟨y₀, false, 1⟩) x where
  prints := by
    rintro y (rfl | hy) q' hq'
    · obtain rfl := Option.some.inj (hx.symm.trans hq')
      exact ⟨hs, d, hd, hround⟩
    · obtain rfl := Option.some.inj (hy₀.symm.trans (hy.symm.trans hq'))
      exact ⟨hs, d, hd, hround'⟩
  nearest := by
    intro d' hd' _
    obtain rfl := Option.some.inj (hd.symm.trans hd')
    refine ⟨rfl, d, hy₀, fun _ q' _ => ?_⟩
    rw [sub_self, abs_zero]
    exact abs_nonneg _
  same _ _ _ _ _ := ⟨rfl, rfl⟩

theorem IeeeFormat.inRange_of_le {F : IeeeFormat} {q : ℚ} (hF : 31 ≤ F.bias) (hlow : 1 ≤ |q|)
    (hhigh : |q| ≤ 2 ^ 30) : F.InRange q := by
  have hhigh' : (2 : ℚ) ^ (30 : ℤ) ≤ 2 ^ (F.bias - 1 : ℤ) :=
    zpow_le_zpow_right₀ one_le_two (by omega)
  exact Or.inr ⟨(zpow_le_one_of_nonpos₀ one_le_two (by omega)).trans hlow, hhigh.trans hhigh'⟩

/-- The number 123456789 comes back as another one, and the number one as itself. -/
theorem precision_lost_once_nineDigits :
    (∃ v : ℚ, 10 ^ 7 * |v - (123456789 : ℤ)| ≤ |((123456789 : ℤ) : ℚ)| ∧
      ∀ n, Trips nineDigits (noObjects nineDigits.types) (fun _ => 0) binary64 .double v n
        0x419D6F3454000000) ∧
    ∃ v : ℚ, 10 ^ 5 * |v - (1 : ℤ)| ≤ |((1 : ℤ) : ℚ)| ∧
      ∀ n, Trips one (noObjects one.types) (fun _ => 0) binary32 .float v n 0x3F800000 := by
  have hx : binary64.value (0x419D6F3454000000 : BitVec 64).toNat = some ((123456789 : ℤ) : ℚ) := by
    decide +kernel
  have hy : binary64.value (0x419D6F3458000000 : BitVec 64).toNat = some ((123456790 : ℤ) : ℚ) := by
    decide +kernel
  have hfloat : binary32.value (0x3F800000 : BitVec 32).toNat = some ((1 : ℤ) : ℚ) := by
    decide +kernel
  constructor
  · refine (precision_lost_once nineDigits _ _).1 _ _ hx
      (IeeeFormat.inRange_of_le (by decide) (by norm_num) (by norm_num)) ?_
    refine detour_constant (by decide) (by decide +kernel) hy hx (Or.inr ⟨1, 12345679, ?_⟩)
      (Or.inr ⟨1, 12345679, ?_⟩)
    · norm_num [abs_of_pos]
    · norm_num [abs_of_pos]
  · refine (precision_lost_once one _ _).2 _ _ hfloat
      (IeeeFormat.inRange_of_le (by decide) (by norm_num) (by norm_num)) ?_
    have hone : RoundedTo 6 ((1 : ℤ) : ℚ) ((1 : ℤ) : ℚ) := by
      rw [Int.cast_one]
      exact_mod_cast roundedTo_one (k := 6) (by decide)
    exact detour_constant (by decide) (by decide +kernel) hfloat hfloat hone hone

end Catalina
