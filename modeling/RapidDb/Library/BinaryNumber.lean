import Mathlib.Algebra.Order.Field.Rat
import Mathlib.Data.Nat.Log
import Mathlib.Order.WithBot
import Mathlib.Tactic.FieldSimp
import Mathlib.Tactic.NormNum

/-!
# Binary floating point numbers

A number is a pattern of bits: the sign, the exponent and the fraction. Its exact value is a
rational number or an infinity; a pattern that stands for no number is excluded. An integer
becomes a number by rounding to the nearest multiple of the last place, ties to even. Integers
with few digits are kept, and no integer crosses one of them.
-/

namespace RapidDb

/-- The exact values of numbers with both infinities. -/
abbrev Extended : Type := WithBot (WithTop ℚ)

namespace Extended

/-- The exact value of a rational number. -/
def ofRat (value : ℚ) : Extended := ((value : WithTop ℚ) : WithBot (WithTop ℚ))

@[simp]
theorem ofRat_lt_ofRat {value1 value2 : ℚ} : ofRat value1 < ofRat value2 ↔ value1 < value2 := by
  simp [ofRat]

@[simp]
theorem ofRat_le_ofRat {value1 value2 : ℚ} : ofRat value1 ≤ ofRat value2 ↔ value1 ≤ value2 := by
  simp [ofRat]

@[simp]
theorem ofRat_inj {value1 value2 : ℚ} : ofRat value1 = ofRat value2 ↔ value1 = value2 := by
  simp [ofRat]

@[simp]
theorem ofRat_lt_top {value : ℚ} : ofRat value < ⊤ :=
  WithBot.coe_lt_coe.mpr (WithTop.coe_lt_top value)

@[simp]
theorem bot_lt_ofRat {value : ℚ} : ⊥ < ofRat value :=
  WithBot.bot_lt_coe _

end Extended

/-- The widths of the exponent and of the fraction. -/
structure BinaryFormat where
  exponentBits : ℕ
  fractionBits : ℕ

namespace BinaryFormat

def lastExponent (format : BinaryFormat) : ℕ := 2 ^ format.exponentBits - 1

def bias (format : BinaryFormat) : ℕ := 2 ^ (format.exponentBits - 1) - 1

def single : BinaryFormat where
  exponentBits := 8
  fractionBits := 23

def double : BinaryFormat where
  exponentBits := 11
  fractionBits := 52

end BinaryFormat

def BinaryFormat.fraction (format : BinaryFormat) (bits : ℕ) : ℕ :=
  bits % 2 ^ format.fractionBits

def BinaryFormat.exponent (format : BinaryFormat) (bits : ℕ) : ℕ :=
  bits / 2 ^ format.fractionBits % 2 ^ format.exponentBits

def BinaryFormat.negative (format : BinaryFormat) (bits : ℕ) : Bool :=
  bits / 2 ^ (format.exponentBits + format.fractionBits) % 2 = 1

/-- A pattern of bits that stands for a number. -/
structure BinaryNumber (format : BinaryFormat) where
  bits : ℕ
  bits_lt : bits < 2 ^ (1 + format.exponentBits + format.fractionBits)
  isNumber : format.exponent bits = format.lastExponent → format.fraction bits = 0

namespace BinaryNumber

variable {format : BinaryFormat}

/-- The exact value of a pattern. The smallest exponent has no leading one. -/
def exact (number : BinaryNumber format) : Extended :=
  let sign : ℚ := if format.negative number.bits then -1 else 1
  let place : ℤ := (format.bias : ℤ) + format.fractionBits
  if format.exponent number.bits = format.lastExponent then
    if format.negative number.bits then ⊥ else ((⊤ : WithTop ℚ) : WithBot (WithTop ℚ))
  else if format.exponent number.bits = 0 then
    Extended.ofRat (sign * format.fraction number.bits * 2 ^ (1 - place))
  else
    Extended.ofRat (sign * (2 ^ format.fractionBits + format.fraction number.bits : ℕ) *
      2 ^ ((format.exponent number.bits : ℤ) - place))

/-- No exponent and no fraction are the number 0. -/
theorem exact_zero {number : BinaryNumber format} (finite : format.lastExponent ≠ 0)
    (noExponent : format.exponent number.bits = 0) (noFraction : format.fraction number.bits = 0) :
    number.exact = .ofRat 0 := by
  simp [exact, noExponent, noFraction, finite.symm]

/-- A leading one alone is a power of two. -/
theorem exact_power {number : BinaryNumber format} {power : ℕ}
    (positive : format.negative number.bits = false)
    (finite : format.exponent number.bits ≠ format.lastExponent)
    (exponentEq : format.exponent number.bits = format.bias + power) (normal : 0 < format.bias)
    (noFraction : format.fraction number.bits = 0) :
    number.exact = .ofRat (2 ^ power) := by
  have someExponent : format.exponent number.bits ≠ 0 := by omega
  have place : ((format.bias + power : ℕ) : ℤ) - (format.bias + format.fractionBits) =
      power - format.fractionBits := by
    omega
  rw [exponentEq] at finite someExponent
  simp only [exact, positive, exponentEq, if_neg finite, if_neg someExponent, noFraction, place]
  congr 1
  rw [zpow_sub₀ (by norm_num)]
  simp only [zpow_natCast]
  field_simp
  norm_num

end BinaryNumber

/-- The exponent and the fraction of a pattern in one number. -/
def BinaryFormat.magnitude (format : BinaryFormat) (bits : ℕ) : ℕ :=
  bits % 2 ^ (format.exponentBits + format.fractionBits)

/-- The absolute value of a finite pattern, as a multiple of the smallest positive number. -/
def BinaryFormat.digits (format : BinaryFormat) (bits : ℕ) : ℕ :=
  if format.exponent bits = 0 then format.fraction bits
  else (2 ^ format.fractionBits + format.fraction bits) * 2 ^ (format.exponent bits - 1)

namespace BinaryFormat

variable (format : BinaryFormat)

theorem fraction_lt (bits : ℕ) : format.fraction bits < 2 ^ format.fractionBits :=
  Nat.mod_lt _ (Nat.two_pow_pos _)

theorem exponent_le (bits : ℕ) : format.exponent bits ≤ format.lastExponent := by
  have lt : format.exponent bits < 2 ^ format.exponentBits := Nat.mod_lt _ (Nat.two_pow_pos _)
  unfold lastExponent
  omega

theorem magnitude_eq (bits : ℕ) :
    format.magnitude bits =
      2 ^ format.fractionBits * format.exponent bits + format.fraction bits := by
  unfold magnitude
  rw [Nat.add_comm, pow_add, Nat.mod_mul, Nat.add_comm]
  rfl

theorem digits_lt (bits : ℕ) :
    format.digits bits < 2 ^ format.fractionBits * 2 ^ format.exponent bits := by
  have fractionLt := format.fraction_lt bits
  unfold digits
  split
  · rename_i noExponent
    rw [noExponent, pow_zero, Nat.mul_one]
    exact fractionLt
  · rename_i someExponent
    obtain ⟨exponent, exponentEq⟩ := Nat.exists_eq_succ_of_ne_zero someExponent
    rw [exponentEq, Nat.succ_sub_one, pow_succ, Nat.mul_comm (2 ^ exponent), ← Nat.mul_assoc]
    apply Nat.mul_lt_mul_of_pos_right
    · omega
    · exact Nat.two_pow_pos _

theorem le_digits {bits : ℕ} (someExponent : format.exponent bits ≠ 0) :
    2 ^ format.fractionBits * 2 ^ (format.exponent bits - 1) ≤ format.digits bits := by
  rw [digits, if_neg someExponent]
  exact Nat.mul_le_mul_right _ (Nat.le_add_right _ _)

/-- The exponent decides, then the fraction. -/
theorem digits_lt_digits {bits1 bits2 : ℕ}
    (less : format.magnitude bits1 < format.magnitude bits2) :
    format.digits bits1 < format.digits bits2 := by
  rw [magnitude_eq, magnitude_eq] at less
  have fractionLt1 := format.fraction_lt bits1
  have fractionLt2 := format.fraction_lt bits2
  rcases lt_trichotomy (format.exponent bits1) (format.exponent bits2) with
    smaller | same | greater
  · have someExponent : format.exponent bits2 ≠ 0 := by omega
    calc
      format.digits bits1 < 2 ^ format.fractionBits * 2 ^ format.exponent bits1 :=
        format.digits_lt bits1
      _ ≤ 2 ^ format.fractionBits * 2 ^ (format.exponent bits2 - 1) := by
        apply Nat.mul_le_mul_left
        apply Nat.pow_le_pow_right (by decide)
        omega
      _ ≤ format.digits bits2 := format.le_digits someExponent
  · rw [same, Nat.add_lt_add_iff_left] at less
    unfold digits
    rw [same]
    split
    · exact less
    · apply Nat.mul_lt_mul_of_pos_right
      · omega
      · exact Nat.two_pow_pos _
  · have scaled := Nat.mul_le_mul_left (2 ^ format.fractionBits) (Nat.succ_le_of_lt greater)
    rw [Nat.mul_succ] at scaled
    omega

theorem parts_eq_iff (bits1 bits2 : ℕ) :
    format.magnitude bits1 = format.magnitude bits2 ↔
      format.exponent bits1 = format.exponent bits2 ∧
        format.fraction bits1 = format.fraction bits2 := by
  have fractionLt1 := format.fraction_lt bits1
  have fractionLt2 := format.fraction_lt bits2
  rw [magnitude_eq, magnitude_eq]
  constructor
  · intro same
    have sameFraction : format.fraction bits1 = format.fraction bits2 := by
      have remainder := congrArg (· % 2 ^ format.fractionBits) same
      simpa only [Nat.mul_add_mod, Nat.mod_eq_of_lt fractionLt1, Nat.mod_eq_of_lt fractionLt2] using
        remainder
    rw [sameFraction, Nat.add_right_cancel_iff] at same
    exact ⟨Nat.eq_of_mul_eq_mul_left (Nat.two_pow_pos _) same, sameFraction⟩
  · rintro ⟨sameExponent, sameFraction⟩
    rw [sameExponent, sameFraction]

theorem digits_lt_digits_iff (bits1 bits2 : ℕ) :
    format.digits bits1 < format.digits bits2 ↔
      format.magnitude bits1 < format.magnitude bits2 := by
  refine ⟨?_, format.digits_lt_digits⟩
  intro less
  rcases lt_trichotomy (format.magnitude bits1) (format.magnitude bits2) with
    smaller | same | greater
  · exact smaller
  · rcases (format.parts_eq_iff bits1 bits2).mp same with ⟨sameExponent, sameFraction⟩
    unfold digits at less
    rw [sameExponent, sameFraction] at less
    exact absurd less (lt_irrefl _)
  · exact absurd (format.digits_lt_digits greater) (not_lt_of_gt less)

theorem digits_pos_iff (bits : ℕ) : 0 < format.digits bits ↔ 0 < format.magnitude bits := by
  have zero : format.digits 0 = 0 := by simp [digits, exponent, fraction]
  have zeroMagnitude : format.magnitude 0 = 0 := Nat.zero_mod _
  have iff := format.digits_lt_digits_iff 0 bits
  rwa [zero, zeroMagnitude] at iff

end BinaryFormat

namespace BinaryNumber

variable {format : BinaryFormat}

def signed (isNegative : Bool) (value : ℕ) : ℤ :=
  if isNegative then -value else value

/-- The magnitude of a pattern with its sign. -/
def rank (number : BinaryNumber format) : ℤ :=
  signed (format.negative number.bits) (format.magnitude number.bits)

theorem exact_of_finite {number : BinaryNumber format}
    (finite : format.exponent number.bits ≠ format.lastExponent) :
    number.exact = .ofRat ((signed (format.negative number.bits) (format.digits number.bits) : ℤ) *
      2 ^ (1 - ((format.bias : ℤ) + format.fractionBits))) := by
  have sign (value : ℕ) : ((signed (format.negative number.bits) value : ℤ) : ℚ) =
      (if format.negative number.bits then -1 else 1) * value := by
    unfold signed
    split <;> simp
  simp only [exact, if_neg finite, sign, BinaryFormat.digits]
  split
  · rfl
  · rename_i someExponent
    obtain ⟨exponent, exponentEq⟩ := Nat.exists_eq_succ_of_ne_zero someExponent
    have place : ((exponent + 1 : ℕ) : ℤ) - (format.bias + format.fractionBits) =
        exponent + (1 - (format.bias + format.fractionBits)) := by
      omega
    rw [exponentEq, Nat.succ_eq_add_one, place, Nat.add_sub_cancel, zpow_add₀ (by norm_num)]
    congr 1
    push_cast
    simp only [mul_assoc, zpow_natCast]

theorem signed_lt_signed {value : ℕ → ℕ} {magnitude : ℕ → ℕ}
    (less : ∀ bits1 bits2, value bits1 < value bits2 ↔ magnitude bits1 < magnitude bits2)
    (positive : ∀ bits, 0 < value bits ↔ 0 < magnitude bits) (negative1 negative2 : Bool)
    (bits1 bits2 : ℕ) :
    signed negative1 (value bits1) < signed negative2 (value bits2) ↔
      signed negative1 (magnitude bits1) < signed negative2 (magnitude bits2) := by
  have less12 := less bits1 bits2
  have less21 := less bits2 bits1
  have positive1 := positive bits1
  have positive2 := positive bits2
  unfold signed
  cases negative1 <;> cases negative2 <;>
    simp only [Bool.false_eq_true, if_false, if_true] <;> omega

theorem magnitude_of_infinite {number : BinaryNumber format}
    (infinite : format.exponent number.bits = format.lastExponent) :
    format.magnitude number.bits = 2 ^ format.fractionBits * format.lastExponent := by
  rw [format.magnitude_eq, infinite, number.isNumber infinite, Nat.add_zero]

theorem magnitude_of_finite {number : BinaryNumber format}
    (finite : format.exponent number.bits ≠ format.lastExponent) :
    format.magnitude number.bits < 2 ^ format.fractionBits * format.lastExponent := by
  have exponentLt : format.exponent number.bits + 1 ≤ format.lastExponent :=
    lt_of_le_of_ne (format.exponent_le _) finite
  have scaled := Nat.mul_le_mul_left (2 ^ format.fractionBits) exponentLt
  have fractionLt := format.fraction_lt number.bits
  rw [Nat.mul_succ] at scaled
  rw [format.magnitude_eq]
  omega

/-- The exact values are ordered like the magnitudes with their signs. -/
theorem exact_lt_exact (some : 0 < format.exponentBits) (number1 number2 : BinaryNumber format) :
    number1.exact < number2.exact ↔ number1.rank < number2.rank := by
  have lastPos : 0 < format.lastExponent := by
    have := Nat.one_lt_two_pow some.ne'
    unfold BinaryFormat.lastExponent
    omega
  obtain ⟨limit, limitEq⟩ : ∃ limit, 2 ^ format.fractionBits * format.lastExponent = limit :=
    ⟨_, rfl⟩
  have limitPos : 0 < limit := limitEq ▸ Nat.mul_pos (Nat.two_pow_pos _) lastPos
  by_cases infinite1 : format.exponent number1.bits = format.lastExponent
  · have magnitude1 := (magnitude_of_infinite infinite1).trans limitEq
    by_cases infinite2 : format.exponent number2.bits = format.lastExponent
    · have magnitude2 := (magnitude_of_infinite infinite2).trans limitEq
      simp only [exact, if_pos infinite1, if_pos infinite2, rank, magnitude1, magnitude2, signed]
      cases format.negative number1.bits <;> cases format.negative number2.bits <;> simp [limitPos]
    · have magnitude2 := magnitude_of_finite infinite2
      rw [limitEq] at magnitude2
      rw [exact_of_finite infinite2]
      simp only [exact, if_pos infinite1, rank, magnitude1, signed]
      cases format.negative number1.bits <;> cases format.negative number2.bits <;>
        simp <;> omega
  · have magnitude1 := magnitude_of_finite infinite1
    rw [limitEq] at magnitude1
    by_cases infinite2 : format.exponent number2.bits = format.lastExponent
    · have magnitude2 := (magnitude_of_infinite infinite2).trans limitEq
      rw [exact_of_finite infinite1]
      simp only [exact, if_pos infinite2, rank, magnitude2, signed]
      cases format.negative number1.bits <;> cases format.negative number2.bits <;>
        simp <;> omega
    · have magnitude2 := magnitude_of_finite infinite2
      rw [limitEq] at magnitude2
      rw [exact_of_finite infinite1, exact_of_finite infinite2, Extended.ofRat_lt_ofRat,
        mul_lt_mul_iff_left₀ (zpow_pos (by norm_num) _), Int.cast_lt]
      exact signed_lt_signed format.digits_lt_digits_iff format.digits_pos_iff _ _ _ _

end BinaryNumber

/-- The nearest number with a mantissa of so many bits, ties to an even mantissa. -/
def roundNat (precision value : ℕ) : ℕ :=
  if value < 2 ^ precision then value
  else
    let shift := Nat.log 2 value + 1 - precision
    let mantissa := value / 2 ^ shift
    let rest := 2 * (value % 2 ^ shift)
    let up := 2 ^ shift < rest ∨ rest = 2 ^ shift ∧ mantissa % 2 = 1
    (if up then mantissa + 1 else mantissa) * 2 ^ shift

def roundInt (precision : ℕ) (value : ℤ) : ℤ :=
  value.sign * roundNat precision value.natAbs

theorem roundNat_of_lt {precision value : ℕ} (small : value < 2 ^ precision) :
    roundNat precision value = value :=
  if_pos small

/-- A value with more digits than the mantissa keeps its leading power of two. -/
theorem le_roundNat {precision value : ℕ} (some : 0 < precision) (large : 2 ^ precision ≤ value) :
    2 ^ precision ≤ roundNat precision value := by
  have positive : value ≠ 0 := by
    have := Nat.two_pow_pos precision
    omega
  have digits : precision ≤ Nat.log 2 value := Nat.le_log_of_pow_le (by decide) large
  have leading : 2 ^ Nat.log 2 value ≤ value := Nat.pow_log_le_self 2 positive
  rw [roundNat, if_neg (not_lt_of_ge large)]
  dsimp only
  generalize shiftEq : Nat.log 2 value + 1 - precision = shift
  have split : Nat.log 2 value = (precision - 1) + shift := by omega
  have mantissaLe : 2 ^ (precision - 1) ≤ value / 2 ^ shift := by
    rw [Nat.le_div_iff_mul_le (Nat.two_pow_pos shift), ← pow_add, ← split]
    exact leading
  have kept : 2 ^ (precision - 1) * 2 ^ shift ≤ value / 2 ^ shift * 2 ^ shift :=
    Nat.mul_le_mul_right _ mantissaLe
  calc
    2 ^ precision ≤ 2 ^ Nat.log 2 value := Nat.pow_le_pow_right (by decide) digits
    _ = 2 ^ (precision - 1) * 2 ^ shift := by rw [split, pow_add]
    _ ≤ value / 2 ^ shift * 2 ^ shift := kept
    _ ≤ _ := by
      apply Nat.mul_le_mul_right
      split <;> omega

theorem roundInt_of_lt {precision : ℕ} {value : ℤ} (small : value.natAbs < 2 ^ precision) :
    roundInt precision value = value := by
  rw [roundInt, roundNat_of_lt small, Int.sign_mul_natAbs]

/-- Rounding does not move a value to or across a number with few digits. -/
theorem roundInt_cmp {precision : ℕ} (some : 0 < precision) {small : ℤ}
    (smallLt : small.natAbs < 2 ^ precision) (value : ℤ) :
    (roundInt precision value < small ↔ value < small) ∧
      (small < roundInt precision value ↔ small < value) := by
  by_cases valueLt : value.natAbs < 2 ^ precision
  · rw [roundInt_of_lt valueLt]
    exact ⟨Iff.rfl, Iff.rfl⟩
  · have large := le_roundNat some (not_lt.mp valueLt)
    rw [not_lt] at valueLt
    rcases lt_trichotomy value 0 with negative | rfl | positive
    · rw [roundInt, Int.sign_eq_neg_one_of_neg negative]
      omega
    · simp at valueLt
    · rw [roundInt, Int.sign_eq_one_of_pos positive]
      omega

end RapidDb
