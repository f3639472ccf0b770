import Catalina.Formatter.RoundTrip
import Catalina.Lib.Decimal
import Catalina.Lib.Ieee

/-!
# Whole numbers in floating-point values

A floating-point number is written as a decimal text of 8 or 6 significant digits.

* `PrintsRounded`, `ConvertsExactly`: what is expected of `printf` and of `strtod` and `strtof`.
* `ComesBack`: what `catalina_formatter_serialize` makes of a value is answered with a value as wanted.
* `converts_iff`: a whole number survives the detour exactly if it has few digits.
* **`whole_numbers_iff`**: for all integers up to `2 ^ 53` in a `gdouble` and `2 ^ 24` in a `gfloat`.
* `nine_digits_are_lost`: 123456789 comes back as 123456790.
-/

namespace Catalina

/-! ## The C library -/

/-- `%g` with `k` significant digits prints the number in `x` rounded, in a short text. -/
def PrintsRounded (F : IeeeFormat) (k : ℕ) {w : ℕ} (print : BitVec w → CString) (x : BitVec w) :
    Prop :=
  ∀ q, F.value x.toNat = some q → (print x).strlen ≤ k + 8 ∧
    ∃ d, decimalValue (print x).chars = some d ∧ RoundedTo k q d

/-- The text `s` of a whole number that can be represented is converted to this number. -/
def ConvertsExactly (F : IeeeFormat) {w : ℕ} (strto : CString → Strto w) (s : CString) : Prop :=
  ∀ p : ℤ, decimalValue s.chars = some (p : ℚ) → (∃ y : BitVec w, F.value y.toNat = some (p : ℚ)) →
    (strto s).errno = false ∧ F.value (strto s).value.toNat = some (p : ℚ)

section Detour

variable {F : IeeeFormat} {k w : ℕ} {print : BitVec w → CString} {strto : CString → Strto w}
  {x : BitVec w} {n : ℤ}

theorem exists_value_even {c : ℤ} {e : ℕ} (hw : w = F.width) (hF : 1 + F.fracBits ≤ F.bias)
    (he : 0 < e) (hlt : |c * 10 ^ e| < 2 * 2 ^ (F.fracBits + 1)) :
    ∃ y : BitVec w, F.value y.toNat = some ((c * 10 ^ e : ℤ) : ℚ) := by
  obtain ⟨i, rfl⟩ : ∃ i, e = i + 1 := ⟨e - 1, by omega⟩
  have htwo : c * 10 ^ (i + 1) = c * (5 * 10 ^ i) * 2 ^ 1 := by ring
  rw [htwo] at hlt ⊢
  have hhalf : |c * (5 * 10 ^ i)| < 2 ^ (F.fracBits + 1) := by
    rw [abs_mul, show |(2 : ℤ) ^ 1| = 2 from rfl] at hlt
    omega
  obtain ⟨y, hy, hval⟩ := F.exists_value (s := 1) hhalf hF
  refine ⟨BitVec.ofNat w y, ?_⟩
  rw [BitVec.toNat_ofNat, Nat.mod_eq_of_lt (hw ▸ hy), hval]

/-- **A whole number survives the detour over its text exactly if it has few digits.** -/
theorem converts_iff (hw : w = F.width) (hF : 1 + F.fracBits ≤ F.bias) (hk : 1 ≤ k)
    (hn : |n| ≤ 2 ^ (F.fracBits + 1)) (hx : F.value x.toNat = some (n : ℚ))
    (hprint : PrintsRounded F k print x) (hstrto : ConvertsExactly F strto (print x)) :
    (strto (print x)).errno = false ∧ F.value (strto (print x)).value.toNat = some (n : ℚ) ↔
      FewDigits k n := by
  obtain ⟨_, d, hd, hround⟩ := hprint _ hx
  constructor
  · rintro ⟨_, hback⟩
    by_contra hfew
    obtain ⟨c, e, he, rfl, hne, hlarge, hnear⟩ := hround.of_not_fewDigits hfew
    -- what was printed is not far away, so that it is converted to itself
    have hten : (10 : ℤ) ^ (e + 1) ≤ 10 ^ (e + k) := pow_le_pow_right₀ (by norm_num) (by omega)
    have hle : (10 : ℤ) ^ e ≤ |n| := by
      rw [pow_succ] at hten
      omega
    have hlt : |c * 10 ^ e| < 2 * 2 ^ (F.fracBits + 1) := by
      have htri := abs_sub_abs_le_abs_sub (c * 10 ^ e) n
      rw [abs_sub_comm] at htri
      have hpos : (0 : ℤ) < 2 ^ (F.fracBits + 1) := by positivity
      omega
    obtain ⟨_, hconv⟩ := hstrto _ hd (exists_value_even hw hF he hlt)
    rw [hback] at hconv
    exact hne (by exact_mod_cast (Option.some.inj hconv).symm)
  · intro hfew
    obtain rfl := hround.eq_of_fewDigits hfew
    exact hstrto n hd ⟨x, hx⟩

end Detour

/-! ## Serializing and deserializing -/

section ComesBack

variable (P : Process) {ω : Type} (w : World P.types ω) (entry : List ℕ → ℕ)

/-- The value is serialized, and wherever these bytes stand, they are deserialized, on a host of any
byte order, to a value as wanted. -/
def ComesBack (p : Plain) (wanted : Plain → Prop) : Prop :=
  ∃ bs, (∃ N, ∀ n, N ≤ n → realSerialize P w entry n (.plain p) = .ok bs) ∧
    ∀ o m, Stored m 0 bs → ∃ q, wanted q ∧ ∃ N, ∀ n, N ≤ n →
      ((realDeserialize (P.on o) n bs.length).run m).result = .ok ⟨true, some (.plain q), none⟩

variable {P w entry}

theorem realSerialize_plain (entry' : List ℕ → ℕ) (n : ℕ) (p : Plain) :
    realSerialize P w entry n (.plain p) = realSerialize P w entry' n (.plain p) := by
  have hwrite : writeValue P w entry n [] (.plain p) = writeValue P w entry' n [] (.plain p) := by
    cases n <;> cases p <;> rfl
  unfold realSerialize
  rw [hwrite]

theorem comesBack_iff {p : Plain} {bs : Bytes} {wanted : Plain → Prop}
    (he : Encodes P w (.plain p) bs) (hs : bs.length + 2 < 2 ^ 32) :
    ComesBack P w entry p wanted ↔ p.Rereads P ∧ wanted (p.reread P) := by
  obtain ⟨N, hN⟩ := serializes_of_encodes (show ∀ path, guint ((fun _ : List ℕ => 0) path) = 0 from
    fun _ => rfl) he hs
  have hser : ∀ n, N ≤ n → realSerialize P w entry n (.plain p) = .ok (1 :: 0 :: bs) :=
    fun n hn => (realSerialize_plain _ n p).trans (hN n hn)
  have hlen : (1 :: 0 :: bs : Bytes).length = bs.length + 2 := rfl
  have hread : ∀ {m}, Stored m 0 (1 :: 0 :: bs) → ∀ {v : Option (GValue GObject)},
      Decodes P m (.value 2 bs.length v) ↔ p.Rereads P ∧ v = some (.plain (p.reread P)) :=
    fun hm => decodes_plain_iff he (by omega) (stored_cons.mp (stored_cons.mp hm).2).2
  constructor
  · rintro ⟨bs', ⟨K, hK⟩, hback⟩
    obtain rfl := Except.ok.inj ((hK (K + N) (by omega)).symm.trans (hser (K + N) (by omega)))
    have hm := stored_memoryOf (1 :: 0 :: bs)
    obtain ⟨q, hq, L, hL⟩ := hback P.order _ hm
    have hres := hL L (Nat.le_refl L)
    rw [hlen, realDeserialize_result, if_pos (stored_cons.mp hm).1, guintSub_of_le hs (by omega),
      Nat.add_sub_cancel] at hres
    obtain ⟨hre, hv⟩ := (hread hm).mp (decodes_of_value decodes_of_readProps hres rfl).1
    cases hv
    exact ⟨hre, hq⟩
  · rintro ⟨hre, hw⟩
    refine ⟨_, ⟨N, hser⟩, fun o m hm => ⟨_, hw, ?_⟩⟩
    rw [hlen]
    exact deserializes_of_decodes hm hs (decodes_on o ((hread hm).mpr ⟨hre, rfl⟩))

variable {n : ℤ}

/-- The `gdouble` in `x`, which holds `n`, comes back as a `gdouble` that holds `n`. -/
def DoubleSurvives (P : Process) {ω : Type} (w : World P.types ω) (entry : List ℕ → ℕ)
    (x : BitVec 64) (n : ℤ) : Prop :=
  ComesBack P w entry (.double x) fun q => ∃ y, q = .double y ∧ binary64.value y.toNat = some (n : ℚ)

/-- The `gfloat` in `x`. -/
def FloatSurvives (P : Process) {ω : Type} (w : World P.types ω) (entry : List ℕ → ℕ)
    (x : BitVec 32) (n : ℤ) : Prop :=
  ComesBack P w entry (.float x) fun q => ∃ y, q = .float y ∧ binary32.value y.toNat = some (n : ℚ)

theorem length_printed {t : Tag} {s : CString} {k : ℕ} (hk : k ≤ 8) (hs : s.strlen ≤ k + 8) :
    (textBytes t s).length + 2 < 2 ^ 32 := by
  rw [length_textBytes]
  omega

theorem doubleSurvives_iff {x : BitVec 64} (hx : binary64.value x.toNat = some (n : ℚ))
    (hprint : PrintsRounded binary64 8 P.printDouble x) : DoubleSurvives P w entry x n ↔
      (P.strtod (P.printDouble x)).errno = false ∧
        binary64.value (P.strtod (P.printDouble x)).value.toNat = some (n : ℚ) := by
  unfold DoubleSurvives
  rw [comesBack_iff (.double x) (length_printed (Nat.le_refl 8) (hprint _ hx).1)]
  simp [Plain.Rereads, Plain.reread]

theorem floatSurvives_iff {x : BitVec 32} (hx : binary32.value x.toNat = some (n : ℚ))
    (hprint : PrintsRounded binary32 6 P.printFloat x) : FloatSurvives P w entry x n ↔
      (P.strtof (P.printFloat x)).errno = false ∧
        binary32.value (P.strtof (P.printFloat x)).value.toNat = some (n : ℚ) := by
  unfold FloatSurvives
  rw [comesBack_iff (.float x) (length_printed (by decide) (hprint _ hx).1)]
  simp [Plain.Rereads, Plain.reread]

end ComesBack

/-- **Whole numbers survive exactly with at most 8 significant digits in a `gdouble` and 6 in a
`gfloat`**, for every process whose C library prints and converts as expected. -/
theorem whole_numbers_iff (P : Process) {ω : Type} (w : World P.types ω) (entry : List ℕ → ℕ) :
    (∀ n : ℤ, |n| ≤ 2 ^ 53 → ∀ x : BitVec 64, binary64.value x.toNat = some (n : ℚ) →
      PrintsRounded binary64 8 P.printDouble x →
      ConvertsExactly binary64 P.strtod (P.printDouble x) →
      (DoubleSurvives P w entry x n ↔ FewDigits 8 n)) ∧
    ∀ n : ℤ, |n| ≤ 2 ^ 24 → ∀ x : BitVec 32, binary32.value x.toNat = some (n : ℚ) →
      PrintsRounded binary32 6 P.printFloat x →
      ConvertsExactly binary32 P.strtof (P.printFloat x) →
      (FloatSurvives P w entry x n ↔ FewDigits 6 n) := by
  constructor
  · intro n hn x hx hprint hstrto
    rw [doubleSurvives_iff hx hprint]
    exact converts_iff rfl (by decide) (by decide) hn hx hprint hstrto
  · intro n hn x hx hprint hstrto
    rw [floatSurvives_iff hx hprint]
    exact converts_iff rfl (by decide) (by decide) hn hx hprint hstrto

/-! ## Two numbers -/

/-- A process that prints every number as the one text and reads every text as the one number. -/
def printing (text : CString) (x : BitVec 64) (y : BitVec 32) : Process :=
  { sampleProcess with
    printDouble := fun _ => text
    printFloat := fun _ => text
    strtod := fun _ => ⟨x, false, 1⟩
    strtof := fun _ => ⟨y, false, 1⟩ }

/-- An object world without objects. -/
def noObjects (ts : TypeSystem) : World ts Empty where
  cls := nofun
  property := nofun
  typed := nofun
  instanceOf := nofun

theorem convertsExactly_of_value {F : IeeeFormat} {w : ℕ} {strto : CString → Strto w} {s : CString}
    {n : ℤ} (hs : decimalValue s.chars = some (n : ℚ)) (herrno : (strto s).errno = false)
    (hval : F.value (strto s).value.toNat = some (n : ℚ)) : ConvertsExactly F strto s := by
  intro p hp _
  rw [hs] at hp
  exact ⟨herrno, hval.trans hp⟩

/-- The number one. -/
def one : Process := printing ⟨[49], by decide⟩ 0x3FF0000000000000 0x3F800000

theorem fewDigits_one {k : ℕ} (hk : 0 < k) : FewDigits k 1 :=
  ⟨1, 0, rfl, one_lt_pow₀ (by norm_num) (Nat.ne_of_gt hk)⟩

theorem roundedTo_one {k : ℕ} (hk : 0 < k) : RoundedTo k (1 : ℤ) 1 := by
  obtain ⟨j, rfl⟩ : ∃ j, k = j + 1 := ⟨k - 1, by omega⟩
  refine Or.inr ⟨-j, 10 ^ j, ?_, ?_, ?_, ?_⟩
  · norm_num
  · norm_num
  · rw [zpow_neg, zpow_natCast]
    push_cast
    field_simp
  · norm_num
    positivity

/-- The number one survives in a `gdouble` and in a `gfloat`. -/
theorem whole_numbers_one :
    DoubleSurvives one (noObjects one.types) (fun _ => 0) 0x3FF0000000000000 1 ∧
      FloatSurvives one (noObjects one.types) (fun _ => 0) 0x3F800000 1 := by
  have hdouble : binary64.value (0x3FF0000000000000 : BitVec 64).toNat = some ((1 : ℤ) : ℚ) := by
    decide +kernel
  have hfloat : binary32.value (0x3F800000 : BitVec 32).toNat = some ((1 : ℤ) : ℚ) := by
    decide +kernel
  have htext : decimalValue [49] = some ((1 : ℤ) : ℚ) := by decide +kernel
  obtain ⟨hd, hf⟩ := whole_numbers_iff one (noObjects one.types) fun _ => 0
  constructor
  · refine (hd 1 (by norm_num) _ hdouble (fun q hq => ?_)
      (convertsExactly_of_value htext rfl hdouble)).mpr (fewDigits_one (by decide))
    obtain rfl := Option.some.inj (hdouble.symm.trans hq)
    exact ⟨by decide, _, htext, roundedTo_one (by decide)⟩
  · refine (hf 1 (by norm_num) _ hfloat (fun q hq => ?_)
      (convertsExactly_of_value htext rfl hfloat)).mpr (fewDigits_one (by decide))
    obtain rfl := Option.some.inj (hfloat.symm.trans hq)
    exact ⟨by decide, _, htext, roundedTo_one (by decide)⟩

/-- The text `1.2345679e+08`, for the `gdouble` 123456790. -/
def nineDigits : Process :=
  printing ⟨[49, 46, 50, 51, 52, 53, 54, 55, 57, 101, 43, 48, 56], by decide⟩ 0x419D6F3458000000 0

/-- **The number 123456789** is printed and converted as expected, and does not come back. -/
theorem nine_digits_are_lost :
    binary64.value (0x419D6F3454000000 : BitVec 64).toNat = some ((123456789 : ℤ) : ℚ) ∧
      PrintsRounded binary64 8 nineDigits.printDouble 0x419D6F3454000000 ∧
      ConvertsExactly binary64 nineDigits.strtod (nineDigits.printDouble 0x419D6F3454000000) ∧
      ¬ DoubleSurvives nineDigits (noObjects nineDigits.types) (fun _ => 0) 0x419D6F3454000000
        123456789 := by
  have hx : binary64.value (0x419D6F3454000000 : BitVec 64).toNat = some ((123456789 : ℤ) : ℚ) := by
    decide +kernel
  have hy : binary64.value (0x419D6F3458000000 : BitVec 64).toNat = some ((123456790 : ℤ) : ℚ) := by
    decide +kernel
  have htext : decimalValue [49, 46, 50, 51, 52, 53, 54, 55, 57, 101, 43, 48, 56] =
      some ((123456790 : ℤ) : ℚ) := by
    decide +kernel
  have hround : RoundedTo 8 (123456789 : ℤ) (123456790 : ℤ) := by
    refine Or.inr ⟨1, 12345679, ?_⟩
    norm_num [abs_of_pos]
  have hprint : PrintsRounded binary64 8 nineDigits.printDouble 0x419D6F3454000000 := by
    intro q hq
    obtain rfl := Option.some.inj (hx.symm.trans hq)
    exact ⟨by decide, _, htext, hround⟩
  refine ⟨hx, hprint, convertsExactly_of_value htext rfl hy, fun h => ?_⟩
  have hback := ((doubleSurvives_iff hx hprint).mp h).2
  have hne := Option.some.inj (hy.symm.trans hback)
  norm_num at hne

end Catalina
