import Mathlib.Data.Nat.Bitwise
import RapidDb.DataType.KeyColumn
import RapidDb.Library.BinaryNumber

/-!
# Floating point numbers in a key

For a key the bits of a number are changed so that comparing the bytes compares the numbers: a
positive number gets its sign bit set, a negative one has bits flipped. The mask for negative
numbers flips the fraction and leaves the exponent as it is. Reading the bytes back gives the
bits in every case. The order is right except between two negative numbers of different
exponents, which come out in the wrong order, and between the two zeros, which are equal as
numbers and have different keys.
-/

namespace RapidDb

open Bytes

/-- The common body of `FloatToBytes` and `DoubleToBytes`, for the little-endian build. For a
key the bytes are swapped before they are stored. -/
def realToBytes (size signMask negativeMask : ℕ) (dval : ℕ) (bkey : Bool) : List Byte :=
  if bkey then
    let p := if dval &&& signMask ≠ 0 then dval ^^^ negativeMask else dval ^^^ signMask
    (writeLE size p).reverse
  else
    writeLE size dval

/-- The common body of `FloatFromBytes` and `DoubleFromBytes`. -/
def realFromBytes (size signMask negativeMask : ℕ) (pArr : List Byte) (bkey : Bool) : ℕ :=
  if bkey then
    let val := readLE size (pArr.take size).reverse
    if val &&& signMask ≠ 0 then val ^^^ signMask else val ^^^ negativeMask
  else
    readLE size pArr

def doubleToBytes (dval : BinaryNumber .double) (bkey : Bool) : List Byte :=
  realToBytes 8 0x8000000000000000 0x800fffffffffffff dval.bits bkey

def doubleFromBytes (pArr : List Byte) (bkey : Bool) : ℕ :=
  realFromBytes 8 0x8000000000000000 0x800fffffffffffff pArr bkey

def floatToBytes (dval : BinaryNumber .single) (bkey : Bool) : List Byte :=
  realToBytes 4 0x80000000 0x807fffff dval.bits bkey

def floatFromBytes (pArr : List Byte) (bkey : Bool) : ℕ :=
  realFromBytes 4 0x80000000 0x807fffff pArr bkey

namespace BinaryFormat

variable (format : BinaryFormat)

def signMask : ℕ := 2 ^ (format.exponentBits + format.fractionBits)

/-- The sign bit and the fraction of a format. -/
def negativeMask : ℕ := format.signMask + (2 ^ format.fractionBits - 1)

/-- What is stored for a pattern in a key, most significant byte first. -/
def keyBits (bits : ℕ) : ℕ :=
  if format.negative bits then
    2 ^ format.fractionBits * format.exponent bits +
      (2 ^ format.fractionBits - 1 - format.fraction bits)
  else
    format.signMask + format.magnitude bits

theorem magnitude_lt (bits : ℕ) : format.magnitude bits < format.signMask :=
  Nat.mod_lt _ (Nat.two_pow_pos _)

variable {format}

theorem bits_eq {bits : ℕ}
    (bitsLt : bits < 2 ^ (1 + format.exponentBits + format.fractionBits)) :
    bits = if format.negative bits then format.signMask + format.magnitude bits
      else format.magnitude bits := by
  have whole := Nat.div_add_mod bits format.signMask
  have double : 2 ^ (1 + format.exponentBits + format.fractionBits) = 2 * format.signMask := by
    rw [Nat.add_assoc, pow_add, pow_one]
    rfl
  have quotientLt : bits / format.signMask < 2 := by
    apply Nat.div_lt_of_lt_mul
    rw [Nat.mul_comm]
    omega
  have remainder : bits % format.signMask = format.magnitude bits := rfl
  have negativeIff : format.negative bits = decide (bits / format.signMask % 2 = 1) := rfl
  rw [negativeIff]
  rw [remainder] at whole
  rcases Nat.lt_succ_iff_lt_or_eq.mp quotientLt with zero | one
  · have quotientEq : bits / format.signMask = 0 := Nat.lt_one_iff.mp zero
    rw [quotientEq] at whole ⊢
    simpa using whole.symm
  · rw [one] at whole ⊢
    simpa using whole.symm

theorem and_signMask (bits : ℕ) :
    bits &&& format.signMask ≠ 0 ↔ format.negative bits = true := by
  have positive : 0 < format.signMask := Nat.two_pow_pos _
  have bit : bits &&& format.signMask =
      (bits.testBit (format.exponentBits + format.fractionBits)).toNat * format.signMask :=
    Nat.and_two_pow _ _
  have negativeEq :
      bits.testBit (format.exponentBits + format.fractionBits) = format.negative bits :=
    Nat.testBit_eq_decide_div_mod_eq
  rw [bit, negativeEq]
  cases format.negative bits <;> simp [positive.ne']

theorem xor_lowMask {width value : ℕ} (lt : value < 2 ^ width) :
    value ^^^ (2 ^ width - 1) = 2 ^ width - 1 - value := by
  rw [Nat.sub_sub, Nat.add_comm]
  apply Nat.eq_of_testBit_eq
  intro place
  rw [Nat.testBit_xor, Nat.testBit_two_pow_sub_one, Nat.testBit_two_pow_sub_succ lt]
  by_cases inside : place < width
  · simp [inside]
  · have high : value.testBit place = false :=
      Nat.testBit_lt_two_pow (lt_of_lt_of_le lt (Nat.pow_le_pow_right (by decide) (by omega)))
    simp [inside, high]

theorem magnitude_xor (bits : ℕ) :
    format.magnitude bits ^^^ (2 ^ format.fractionBits - 1) =
      2 ^ format.fractionBits * format.exponent bits +
        (2 ^ format.fractionBits - 1 - format.fraction bits) := by
  have fractionLt := format.fraction_lt bits
  have positive := Nat.two_pow_pos format.fractionBits
  have lowLt : 2 ^ format.fractionBits - 1 < 2 ^ format.fractionBits := by omega
  rw [← xor_lowMask fractionLt,
    ← Nat.div_add_mod (format.magnitude bits ^^^ (2 ^ format.fractionBits - 1))
      (2 ^ format.fractionBits)]
  rw [Nat.xor_div_two_pow, Nat.xor_mod_two_pow, Nat.div_eq_of_lt lowLt, Nat.mod_eq_of_lt lowLt,
    Nat.xor_zero, format.magnitude_eq, Nat.mul_add_div positive, Nat.mul_add_mod,
    Nat.div_eq_of_lt fractionLt, Nat.mod_eq_of_lt fractionLt, Nat.add_zero]

theorem negativeMask_eq :
    format.negativeMask = format.signMask ^^^ (2 ^ format.fractionBits - 1) := by
  have lowLt : 2 ^ format.fractionBits - 1 < format.signMask := by
    have positive := Nat.two_pow_pos format.fractionBits
    have le : 2 ^ format.fractionBits ≤ format.signMask :=
      Nat.pow_le_pow_right (by decide) (Nat.le_add_left _ _)
    omega
  have wide : 2 ^ format.fractionBits - 1 < 2 ^ (format.exponentBits + format.fractionBits + 1) :=
    lt_trans lowLt (Nat.pow_lt_pow_right (by decide) (Nat.lt_succ_self _))
  have flipped : (2 ^ format.fractionBits - 1) ^^^ format.signMask =
      2 ^ format.fractionBits - 1 + format.signMask :=
    (DigitType.xor_two_pow wide).trans (if_pos lowLt)
  rw [Nat.xor_comm, flipped, negativeMask, Nat.add_comm]

theorem xor_keyMask {bits : ℕ}
    (bitsLt : bits < 2 ^ (1 + format.exponentBits + format.fractionBits)) :
    (if bits &&& format.signMask ≠ 0 then bits ^^^ format.negativeMask
      else bits ^^^ format.signMask) = format.keyBits bits := by
  have shape := bits_eq bitsLt
  have magnitudeLt := format.magnitude_lt bits
  have flipped : bits ^^^ format.signMask =
      if bits < format.signMask then bits + format.signMask else bits - format.signMask := by
    apply DigitType.xor_two_pow
    rwa [Nat.add_assoc, Nat.add_comm 1] at bitsLt
  simp only [and_signMask, keyBits]
  split
  · rename_i isNegative
    rw [if_pos isNegative] at shape
    rw [negativeMask_eq, ← Nat.xor_assoc, flipped, if_neg (by omega), ← magnitude_xor]
    congr 1
    omega
  · rename_i notNegative
    rw [if_neg notNegative] at shape
    rw [flipped, if_pos (by omega)]
    omega

theorem keyBits_lt_iff (bits : ℕ) :
    format.keyBits bits < format.signMask ↔ format.negative bits = true := by
  have magnitudeLt := format.magnitude_lt bits
  have fractionLt := format.fraction_lt bits
  unfold keyBits
  split
  · rename_i isNegative
    have scaled : 2 ^ format.fractionBits * (format.exponent bits + 1) ≤ format.signMask := by
      have exponentLt : format.exponent bits < 2 ^ format.exponentBits :=
        Nat.mod_lt _ (Nat.two_pow_pos _)
      rw [signMask, Nat.add_comm format.exponentBits, pow_add]
      exact Nat.mul_le_mul_left _ exponentLt
    rw [Nat.mul_succ] at scaled
    simp only [isNegative, iff_true]
    omega
  · rename_i notNegative
    have notLess : ¬format.signMask + format.magnitude bits < format.signMask := by omega
    exact iff_of_false notLess notNegative

theorem keyBits_lt (bits : ℕ) : format.keyBits bits < 2 * format.signMask := by
  have magnitudeLt := format.magnitude_lt bits
  by_cases isNegative : format.negative bits = true
  · have low := (keyBits_lt_iff bits).mpr isNegative
    omega
  · rw [keyBits, if_neg isNegative]
    omega

theorem keyBits_and_signMask (bits : ℕ) :
    format.keyBits bits &&& format.signMask ≠ 0 ↔ ¬format.negative bits = true := by
  have lt := @keyBits_lt format bits
  have positive : 0 < format.signMask := Nat.two_pow_pos _
  rw [and_signMask, ← keyBits_lt_iff bits, Nat.not_lt]
  have negativeIff : format.negative (format.keyBits bits) =
      decide (format.keyBits bits / format.signMask % 2 = 1) := rfl
  rw [negativeIff, decide_eq_true_eq]
  constructor
  · intro odd
    by_contra low
    rw [Nat.div_eq_of_lt (Nat.lt_of_not_ge low)] at odd
    exact absurd odd (by decide)
  · intro high
    have one : format.keyBits bits / format.signMask = 1 :=
      Nat.div_eq_of_lt_le (by omega) (by omega)
    rw [one]

end BinaryFormat

namespace BinaryNumber

variable {format : BinaryFormat}

/-- When the keys of two numbers come in the order of the numbers: two negative numbers have the
same exponent, and two zeros the same sign. -/
def KeysInOrder (number1 number2 : BinaryNumber format) : Prop :=
  (format.negative number1.bits → format.negative number2.bits →
    format.exponent number1.bits = format.exponent number2.bits) ∧
  (format.magnitude number1.bits = 0 → format.magnitude number2.bits = 0 →
    format.negative number1.bits = format.negative number2.bits)

/-- The bits in the key are ordered like the numbers in exactly these cases. -/
theorem keyBits_inOrder_iff (number1 number2 : BinaryNumber format) :
    ((format.keyBits number1.bits < format.keyBits number2.bits ↔ number1.rank < number2.rank) ∧
      (format.keyBits number2.bits < format.keyBits number1.bits ↔
        number2.rank < number1.rank)) ↔ KeysInOrder number1 number2 := by
  have low1 := format.keyBits_lt_iff number1.bits
  have low2 := format.keyBits_lt_iff number2.bits
  have fractionLt1 := format.fraction_lt number1.bits
  have fractionLt2 := format.fraction_lt number2.bits
  have magnitude1 := format.magnitude_eq number1.bits
  have magnitude2 := format.magnitude_eq number2.bits
  unfold KeysInOrder rank signed
  cases negative1 : format.negative number1.bits <;> cases negative2 : format.negative number2.bits
  · simp only [BinaryFormat.keyBits, negative1, negative2, Bool.false_eq_true, if_false]
    simp
  · rw [negative1] at low1
    rw [negative2] at low2
    simp at low1 low2 ⊢
    omega
  · rw [negative1] at low1
    rw [negative2] at low2
    simp at low1 low2 ⊢
    omega
  · simp only [BinaryFormat.keyBits, negative1, negative2, if_true]
    rcases lt_trichotomy (format.exponent number1.bits) (format.exponent number2.bits) with
      smaller | same | greater
    · have scaled := Nat.mul_le_mul_left (2 ^ format.fractionBits) (Nat.succ_le_of_lt smaller)
      rw [Nat.mul_succ] at scaled
      simp [smaller.ne]
      omega
    · rw [same] at magnitude1 ⊢
      simp
      omega
    · have scaled := Nat.mul_le_mul_left (2 ^ format.fractionBits) (Nat.succ_le_of_lt greater)
      rw [Nat.mul_succ] at scaled
      simp [greater.ne']
      omega

end BinaryNumber

section RealBytes

variable {format : BinaryFormat} {size : ℕ}

theorem length_realToBytes (signMask negativeMask dval : ℕ) (bkey : Bool) :
    (realToBytes size signMask negativeMask dval bkey).length = size := by
  unfold realToBytes
  split <;> simp

theorem readBE_realToBytes (fits : 8 * size = 1 + format.exponentBits + format.fractionBits)
    (number : BinaryNumber format) :
    readBE (realToBytes size format.signMask format.negativeMask number.bits true) =
      format.keyBits number.bits := by
  have keyLt : format.keyBits number.bits < 256 ^ size := by
    have width : 256 ^ size = 2 * format.signMask := by
      have base : 256 = 2 ^ 8 := rfl
      rw [base, ← pow_mul, fits, Nat.add_assoc, pow_add, pow_one]
      rfl
    rw [width]
    exact BinaryFormat.keyBits_lt _
  rw [realToBytes, if_pos rfl, BinaryFormat.xor_keyMask number.bits_lt, readBE_reverse,
    length_writeLE, readLE_writeLE]
  exact Nat.mod_eq_of_lt keyLt

theorem compares_realToBytes (fits : 8 * size = 1 + format.exponentBits + format.fractionBits)
    (number1 number2 : BinaryNumber format) :
    Compares (bytesCompare
        (realToBytes size format.signMask format.negativeMask number1.bits true)
        (realToBytes size format.signMask format.negativeMask number2.bits true))
      (format.keyBits number1.bits) (format.keyBits number2.bits) := by
  have compares := compares_bytesCompare
    (realToBytes size format.signMask format.negativeMask number1.bits true)
    (realToBytes size format.signMask format.negativeMask number2.bits true)
  have sameLength :
      (realToBytes size format.signMask format.negativeMask number1.bits true).length =
        (realToBytes size format.signMask format.negativeMask number2.bits true).length := by
    rw [length_realToBytes, length_realToBytes]
  constructor
  · rw [compares.neg, ← (compares_readBE sameLength).1, readBE_realToBytes fits,
      readBE_realToBytes fits]
  · rw [compares.pos, ← (compares_readBE sameLength.symm).1, readBE_realToBytes fits,
      readBE_realToBytes fits]

theorem realKeys_compare_iff (some : 0 < format.exponentBits)
    (fits : 8 * size = 1 + format.exponentBits + format.fractionBits)
    (number1 number2 : BinaryNumber format) :
    Compares (bytesCompare
        (realToBytes size format.signMask format.negativeMask number1.bits true)
        (realToBytes size format.signMask format.negativeMask number2.bits true))
      number1.exact number2.exact ↔ number1.KeysInOrder number2 := by
  have keys := compares_realToBytes fits number1 number2
  rw [← BinaryNumber.keyBits_inOrder_iff, ← BinaryNumber.exact_lt_exact some,
    ← BinaryNumber.exact_lt_exact some, ← keys.neg, ← keys.pos]
  constructor
  · rintro ⟨neg, pos⟩
    exact ⟨neg, pos⟩
  · rintro ⟨neg, pos⟩
    exact ⟨neg, pos⟩

theorem realFromBytes_realToBytes
    (fits : 8 * size = 1 + format.exponentBits + format.fractionBits)
    (number : BinaryNumber format) :
    realFromBytes size format.signMask format.negativeMask
      (realToBytes size format.signMask format.negativeMask number.bits true) true =
      number.bits := by
  have stored := readBE_realToBytes fits number
  have whole : (realToBytes size format.signMask format.negativeMask number.bits true).take size =
      realToBytes size format.signMask format.negativeMask number.bits true :=
    List.take_of_length_le (length_realToBytes _ _ _ _).le
  have swapped := readBE_reverse
    (realToBytes size format.signMask format.negativeMask number.bits true).reverse
  rw [List.reverse_reverse, List.length_reverse, length_realToBytes, stored] at swapped
  have flipped := BinaryFormat.xor_keyMask number.bits_lt
  simp only [BinaryFormat.and_signMask] at flipped
  simp only [realFromBytes, if_true, whole, ← swapped, BinaryFormat.keyBits_and_signMask]
  by_cases isNegative : format.negative number.bits = true
  · rw [if_pos isNegative] at flipped
    rw [if_neg (not_not.mpr isNegative), ← flipped, Nat.xor_assoc, Nat.xor_self, Nat.xor_zero]
  · rw [if_neg isNegative] at flipped
    rw [if_pos isNegative, ← flipped, Nat.xor_assoc, Nat.xor_self, Nat.xor_zero]

end RealBytes

/-- What a key column of type `DOUBLE` needs of two numbers: the keys compare like the numbers,
and each key gives back its bits. -/
def DoubleKeysRight (number1 number2 : BinaryNumber .double) : Prop :=
  Compares (bytesCompare (doubleToBytes number1 true) (doubleToBytes number2 true))
      number1.exact number2.exact ∧
    doubleFromBytes (doubleToBytes number1 true) true = number1.bits ∧
    doubleFromBytes (doubleToBytes number2 true) true = number2.bits

/-- What a key column of type `FLOAT` needs of two numbers. -/
def FloatKeysRight (number1 number2 : BinaryNumber .single) : Prop :=
  Compares (bytesCompare (floatToBytes number1 true) (floatToBytes number2 true))
      number1.exact number2.exact ∧
    floatFromBytes (floatToBytes number1 true) true = number1.bits ∧
    floatFromBytes (floatToBytes number2 true) true = number2.bits

theorem doubleToBytes_eq (number : BinaryNumber .double) (bkey : Bool) :
    doubleToBytes number bkey =
      realToBytes 8 BinaryFormat.double.signMask BinaryFormat.double.negativeMask number.bits
        bkey :=
  rfl

theorem doubleFromBytes_eq (pArr : List Byte) (bkey : Bool) :
    doubleFromBytes pArr bkey =
      realFromBytes 8 BinaryFormat.double.signMask BinaryFormat.double.negativeMask pArr bkey :=
  rfl

theorem floatToBytes_eq (number : BinaryNumber .single) (bkey : Bool) :
    floatToBytes number bkey =
      realToBytes 4 BinaryFormat.single.signMask BinaryFormat.single.negativeMask number.bits
        bkey :=
  rfl

theorem floatFromBytes_eq (pArr : List Byte) (bkey : Bool) :
    floatFromBytes pArr bkey =
      realFromBytes 4 BinaryFormat.single.signMask BinaryFormat.single.negativeMask pArr bkey :=
  rfl

/-- Keys of floating point numbers are right except for negative numbers with different exponents
and for the two zeros. -/
theorem realKeysRight_iff (double1 double2 : BinaryNumber .double)
    (single1 single2 : BinaryNumber .single) :
    (DoubleKeysRight double1 double2 ↔ double1.KeysInOrder double2) ∧
      (FloatKeysRight single1 single2 ↔ single1.KeysInOrder single2) := by
  constructor
  · have order := @realKeys_compare_iff .double 8 (by decide) rfl double1 double2
    have back1 := @realFromBytes_realToBytes .double 8 rfl double1
    have back2 := @realFromBytes_realToBytes .double 8 rfl double2
    simp only [DoubleKeysRight, doubleToBytes_eq, doubleFromBytes_eq]
    exact ⟨fun right => order.mp right.1, fun inOrder => ⟨order.mpr inOrder, back1, back2⟩⟩
  · have order := @realKeys_compare_iff .single 4 (by decide) rfl single1 single2
    have back1 := @realFromBytes_realToBytes .single 4 rfl single1
    have back2 := @realFromBytes_realToBytes .single 4 rfl single2
    simp only [FloatKeysRight, floatToBytes_eq, floatFromBytes_eq]
    exact ⟨fun right => order.mp right.1, fun inOrder => ⟨order.mpr inOrder, back1, back2⟩⟩

def minusOne : BinaryNumber .double where
  bits := 0xbff0000000000000
  bits_lt := by decide
  isNumber := by decide

def minusTwo : BinaryNumber .double where
  bits := 0xc000000000000000
  bits_lt := by decide
  isNumber := by decide

/-- The key of -1 comes before the one of -2. -/
theorem not_realKeysRight :
    ¬((∀ number1 number2, DoubleKeysRight number1 number2) ∧
      ∀ number1 number2, FloatKeysRight number1 number2) := by
  rintro ⟨right, -⟩
  rcases right minusOne minusTwo with ⟨⟨neg, -⟩, -⟩
  have before : bytesCompare (doubleToBytes minusOne true) (doubleToBytes minusTwo true) < 0 := by
    decide
  have less := neg.mp before
  rw [BinaryNumber.exact_lt_exact (by decide)] at less
  exact absurd less (by decide)

end RapidDb
