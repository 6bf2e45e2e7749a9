import RapidDb.DataType.ValueOrder

/-!
# Types without one order

Outside the condition some values contradict each other. Two text types are equal when their
bytes differ, the empty text and one of 2 ^ 31 bytes are each less than the other, a NULL equals
the number 0 of another type but not of its own, a `ULONG` from 2 ^ 63 on is less than the 0 of
another integer type, and beyond 2 ^ 53 two integers are equal to the same fraction.
-/

namespace RapidDb

open Bytes

namespace DigitType

def zero (type : DigitType) : type.Value :=
  ⟨0, by cases type <;> decide⟩

end DigitType

namespace IDataValue

def zeroOf : DataType → IDataValue
  | .char => digit .char (some (DigitType.zero .char))
  | .short => digit .short (some (DigitType.zero .short))
  | .int => digit .int (some (DigitType.zero .int))
  | .long => digit .long (some (DigitType.zero .long))
  | .byte => digit .byte (some (DigitType.zero .byte))
  | .ushort => digit .ushort (some (DigitType.zero .ushort))
  | .uint => digit .uint (some (DigitType.zero .uint))
  | .ulong => digit .ulong (some (DigitType.zero .ulong))
  | .float => float (some ⟨0, by decide, by decide⟩)
  | .double => double (some ⟨0, by decide, by decide⟩)
  | .bool => bool (some false)
  | .dateTime => dateTime (some 0)
  | .fixChar => fixChar (some [])
  | .varChar => varChar (some [])
  | .blob => blob (some [])
  | .valNull => valNull

def nullOf : DataType → IDataValue
  | .char => digit .char none
  | .short => digit .short none
  | .int => digit .int none
  | .long => digit .long none
  | .byte => digit .byte none
  | .ushort => digit .ushort none
  | .uint => digit .uint none
  | .ulong => digit .ulong none
  | .float => float none
  | .double => double none
  | .bool => bool none
  | .dateTime => dateTime none
  | .fixChar => fixChar none
  | .varChar => varChar none
  | .blob => blob none
  | .valNull => valNull

@[simp]
theorem getDataType_zeroOf (type : DataType) : (zeroOf type).getDataType = type := by
  cases type <;> rfl

@[simp]
theorem getDataType_nullOf (type : DataType) : (nullOf type).getDataType = type := by
  cases type <;> rfl

theorem isNull_zeroOf {type : DataType} (value : type ≠ .valNull) :
    (zeroOf type).isNull = false := by
  cases type <;> first | rfl | exact absurd rfl value

@[simp]
theorem getLong_zeroOf (type : DataType) : (zeroOf type).getLong = 0 := by
  cases type <;> rfl

@[simp]
theorem getLong_nullOf (type : DataType) : (nullOf type).getLong = 0 := by
  cases type <;> rfl

@[simp]
theorem getDouble_nullOf (type : DataType) : (nullOf type).getDouble = .ofRat 0 := by
  cases type <;> rfl

@[simp]
theorem getDouble_zeroOf (type : DataType) : (zeroOf type).getDouble = .ofRat 0 := by
  cases type with
  | float | double =>
      simp only [zeroOf, getDouble]
      apply BinaryNumber.exact_zero <;> decide
  | _ => simp [zeroOf, getDouble, DigitType.zero, roundInt]

theorem getBuff_zeroOf {type : DataType} (array : type.isArrayType = true) :
    (zeroOf type).getBuff = [] := by
  have member := DataType.isArrayType_iff.mp array
  simp only [List.mem_cons, List.not_mem_nil, or_false] at member
  rcases member with rfl | rfl | rfl <;> rfl

theorem textLength_eq_zero_of_value (type : DataType) :
    (zeroOf type).textLength = 0 ∧ (nullOf type).textLength = 0 := by
  cases type <;> exact ⟨rfl, rfl⟩

variable {checked : Bool} {kinds : List ValueKind} {kind : ValueKind}

theorem zeroOf_mem (kindMem : kind ∈ kinds) (value : kind.dataType ≠ .valNull) :
    zeroOf kind.dataType ∈ valuesOf kinds := by
  refine ⟨kind, kindMem, getDataType_zeroOf _, ?_, ?_⟩
  · rw [isNull_zeroOf value]
    intro isNull
    cases isNull
  · rw [(textLength_eq_zero_of_value _).1]
    exact Nat.zero_le _

theorem nullOf_mem (kindMem : kind ∈ kinds) (nullable : kind.nullable = true) :
    nullOf kind.dataType ∈ valuesOf kinds :=
  ⟨kind, kindMem, getDataType_nullOf _, fun _ => nullable,
    le_of_eq_of_le (textLength_eq_zero_of_value _).2 (Nat.zero_le _)⟩

theorem operatorEq_zeros {dv1 dv2 : IDataValue} (different : dv1.getDataType ≠ dv2.getDataType)
    (digital1 : dv1.isDigital = true) (digital2 : dv2.isDigital = true) (long1 : dv1.getLong = 0)
    (long2 : dv2.getLong = 0) (double1 : dv1.getDouble = .ofRat 0)
    (double2 : dv2.getDouble = .ofRat 0) : operatorEq checked dv1 dv2 = some true := by
  simp [operatorEq, different, digital1, digital2, long1, long2, double1, double2]

theorem answering_of_laws (laws : (operators checked).TotalPreorder (valuesOf kinds)) :
    Answering checked kinds := by
  intro kind kindMem
  constructor
  · intro isBlob
    have one := laws.exactlyOne _ (zeroOf_mem kindMem (by simp [isBlob])) _
      (zeroOf_mem kindMem (by simp [isBlob]))
    simp only [isBlob, zeroOf] at one
    simp [Comparison.ExactlyOne, operators, Comparison.complete, operatorGt, GT, sameGT,
      isDataValueDigit] at one
  · rintro rfl isDate
    have one := laws.exactlyOne _ (zeroOf_mem kindMem (by simp [isDate])) _
      (zeroOf_mem kindMem (by simp [isDate]))
    have notDigital : DataType.isDigital .dateTime = false := rfl
    simp only [isDate, zeroOf] at one
    simp [Comparison.ExactlyOne, operators, Comparison.complete, operatorGt, GT,
      isDataValueDigit, isDigital, getDataType, notDigital] at one

theorem not_laws_of_arrays (laws : (operators checked).TotalPreorder (valuesOf kinds))
    {kind1 kind2 : ValueKind} (kindMem1 : kind1 ∈ kinds) (kindMem2 : kind2 ∈ kinds)
    (different : kind1.dataType ≠ kind2.dataType) (array1 : kind1.dataType.isArrayType = true)
    (array2 : kind2.dataType.isArrayType = true) : False := by
  have value {type : DataType} (array : type.isArrayType = true) :
      type ≠ .valNull ∧ type.isDigital = false ∧ type.isAutoPrimaryKey = false := by
    have member := DataType.isArrayType_iff.mp array
    simp only [List.mem_cons, List.not_mem_nil, or_false] at member
    rcases member with rfl | rfl | rfl <;> decide
  have one := laws.exactlyOne _ (zeroOf_mem kindMem1 (value array1).1) _
    (zeroOf_mem kindMem2 (value array2).1)
  have same : bytesEqual [] [] = true := rfl
  have order : bytesCompareInt [] [] = 0 := rfl
  simp [Comparison.ExactlyOne, operators, Comparison.complete, operatorEq, operatorGt, operatorGe,
    different, isDigital, isAutoPrimaryKey, isArrayType, value array1, array1,
    getBuff_zeroOf array1, getBuff_zeroOf array2, same, order] at one

/-- A text of a type. -/
def textOf (type : DataType) (bysValue : List Byte) : IDataValue :=
  match type with
  | .fixChar => fixChar (some bysValue)
  | .varChar => varChar (some bysValue)
  | _ => blob (some bysValue)

/-- Texts of one class are compared with `BytesCompare`. -/
theorem operators_textOf {type : DataType} (text : type = .fixChar ∨ type = .varChar)
    (bysValue1 bysValue2 : List Byte) :
    (operators checked).gt (textOf type bysValue1) (textOf type bysValue2) =
        some (decide (0 < bytesCompareInt bysValue1 bysValue2)) ∧
      (operators checked).lt (textOf type bysValue1) (textOf type bysValue2) =
        some (!decide (0 ≤ bytesCompareInt bysValue1 bysValue2)) := by
  rcases text with rfl | rfl
  · exact ⟨rfl, congrArg (fun answer => some (!answer)) (Bool.not_not _)⟩
  · exact ⟨rfl, congrArg (fun answer => some (!answer)) (Bool.not_not _)⟩

/-- Both differences of the lengths are the least `int`. -/
theorem bytesCompareInt_far {far : List Byte} (length : far.length = 2 ^ 31) :
    bytesCompareInt [] far < 0 ∧ bytesCompareInt far [] < 0 := by
  constructor
  · simp [bytesCompareInt, length, compareWords, compareBytes]
    decide
  · simp [bytesCompareInt, length, compareWords, compareBytes]
    decide

theorem textOf_mem (kindMem : kind ∈ kinds) (array : kind.dataType.isArrayType = true)
    {bysValue : List Byte} (within : bysValue.length ≤ kind.maxLength) :
    textOf kind.dataType bysValue ∈ valuesOf kinds := by
  refine ⟨kind, kindMem, ?_, ?_, ?_⟩
  · have isArray := DataType.isArrayType_iff.mp array
    simp only [List.mem_cons, List.not_mem_nil, or_false] at isArray
    rcases isArray with type | type | type <;> rw [type] <;> rfl
  · intro isNull
    cases type : kind.dataType <;> rw [type] at isNull <;> cases isNull
  · cases type : kind.dataType <;> simpa only [textOf, textLength] using within

theorem shortTexts_of_laws (laws : (operators checked).TotalPreorder (valuesOf kinds)) :
    ShortTexts kinds := by
  intro kind kindMem array
  by_contra long
  obtain ⟨far, length⟩ : ∃ bysValue : List Byte, bysValue.length = 2 ^ 31 :=
    ⟨List.replicate (2 ^ 31) 0, List.length_replicate⟩
  have text : kind.dataType = .fixChar ∨ kind.dataType = .varChar := by
    have isArray := DataType.isArrayType_iff.mp array
    simp only [List.mem_cons, List.not_mem_nil, or_false] at isArray
    have notBlob := (answering_of_laws laws kind kindMem).1
    tauto
  rcases bytesCompareInt_far length with ⟨less, less'⟩
  have swap := laws.swap _ (textOf_mem kindMem array (le_of_eq_of_le length (by omega))) _
    (@textOf_mem kinds kind kindMem array [] (Nat.zero_le _))
  rw [(operators_textOf text far []).1, (operators_textOf text [] far).2,
    decide_eq_false (by omega), decide_eq_false (by omega)] at swap
  cases swap

theorem ne_valNull_of_isDigital {type : DataType} (digital : type.isDigital = true) :
    type ≠ .valNull := by
  rintro rfl
  have member := DataType.isDigital_iff.mp digital
  simp at member

theorem isDataValueDigit_of_isDigital {dv : IDataValue} (digital : dv.isDigital = true) :
    dv.isDataValueDigit = true := by
  have member := DataType.isDigital_iff.mp digital
  cases dv with
  | fixChar | varChar | blob | valNull => simp [getDataType] at member
  | _ => rfl

theorem number_nullOf (type : DataType) : (nullOf type).number = ⊥ := by
  cases type <;> rfl

theorem not_laws_of_null (laws : (operators checked).TotalPreorder (valuesOf kinds))
    {kind1 kind2 : ValueKind} (kindMem1 : kind1 ∈ kinds) (kindMem2 : kind2 ∈ kinds)
    (different : kind1.dataType ≠ kind2.dataType) (digital1 : kind1.dataType.isDigital = true)
    (digital2 : kind2.dataType.isDigital = true) (nullable : kind1.nullable = true) : False := by
  have null := nullOf_mem kindMem1 nullable
  have zero1 := zeroOf_mem kindMem1 (ne_valNull_of_isDigital digital1)
  have zero2 := zeroOf_mem kindMem2 (ne_valNull_of_isDigital digital2)
  have same1 : operatorEq checked (nullOf kind1.dataType) (zeroOf kind2.dataType) = some true := by
    apply operatorEq_zeros <;> simp [different, isDigital, digital1, digital2]
  have same2 : operatorEq checked (zeroOf kind2.dataType) (zeroOf kind1.dataType) = some true := by
    apply operatorEq_zeros <;> simp [different.symm, isDigital, digital1, digital2]
  have same := laws.trans _ null _ zero2 _ zero1 same1 same2
  have digital : (nullOf kind1.dataType).isDigital = true := by simp [isDigital, digital1]
  have answers := @answers_number checked _ (zeroOf kind1.dataType) (by simp)
    (isDataValueDigit_of_isDigital digital)
    fun _ => digital
  have value := number_eq (by simp [isDigital, digital1])
    (isNull_zeroOf (ne_valNull_of_isDigital digital1))
  rw [number_nullOf, value] at answers
  have answer := same.symm.trans answers.1
  simp at answer

/-- The `ULONG` 2 ^ 63. -/
def ulongHigh : IDataValue := digit .ulong (some ⟨2 ^ 63, by decide, by decide⟩)

theorem not_laws_of_ulong (laws : (operators checked).TotalPreorder (valuesOf kinds))
    {kind1 kind2 : ValueKind} (kindMem1 : kind1 ∈ kinds) (kindMem2 : kind2 ∈ kinds)
    (isUlong : kind1.dataType = .ulong) (integer : kind2.dataType.isAutoPrimaryKey = true)
    (different : kind2.dataType ≠ .ulong) : False := by
  have digital : kind2.dataType.isDigital = true := by
    have member := DataType.isAutoPrimaryKey_iff.mp integer
    apply DataType.isDigital_iff.mpr
    simp only [List.mem_cons, List.not_mem_nil, or_false] at member ⊢
    tauto
  have high : ulongHigh ∈ valuesOf kinds :=
    ⟨kind1, kindMem1, isUlong.symm, (nomatch ·), Nat.zero_le _⟩
  have zero1 := zeroOf_mem kindMem1 (by simp [isUlong])
  have zero2 := zeroOf_mem kindMem2 (ne_valNull_of_isDigital digital)
  have highType : ulongHigh.getDataType = .ulong := rfl
  have highLong : ulongHigh.getLong = -2 ^ 63 := by decide
  have ulongInteger : DataType.isAutoPrimaryKey .ulong = true := rfl
  have less1 : (operators checked).lt ulongHigh (zeroOf kind2.dataType) = some true := by
    simp [operators, Comparison.complete, operatorGe, highType, different.symm, isAutoPrimaryKey,
      ulongInteger, integer, highLong]
  have same2 : operatorEq checked (zeroOf kind2.dataType) (zeroOf kind1.dataType) = some true := by
    apply operatorEq_zeros <;> simp [isUlong, different, isDigital, digital]
    rfl
  have less := laws.lt_of_lt_of_eq _ high _ zero2 _ zero1 less1 same2
  rw [isUlong] at less
  cases checked <;> exact absurd less (by decide)

def powerOf : DataType → IDataValue
  | .float => float (some ⟨180 * 2 ^ 23, by decide, by decide⟩)
  | _ => double (some ⟨1076 * 2 ^ 52, by decide, by decide⟩)

theorem getDouble_powerOf {type : DataType} (fraction : type = .float ∨ type = .double) :
    (powerOf type).getDataType = type ∧ (powerOf type).isNull = false ∧
      (powerOf type).getDouble = .ofRat (2 ^ 53) := by
  rcases fraction with rfl | rfl
  · refine ⟨rfl, rfl, ?_⟩
    simp only [powerOf, getDouble]
    apply BinaryNumber.exact_power <;> decide
  · refine ⟨rfl, rfl, ?_⟩
    simp only [powerOf, getDouble]
    apply BinaryNumber.exact_power <;> decide

theorem roundInt_wide : roundInt 53 (2 ^ 53) = 2 ^ 53 ∧ roundInt 53 (2 ^ 53 + 1) = 2 ^ 53 := by
  have log1 : Nat.log 2 (2 ^ 53) = 53 := Nat.log_pow (by decide) 53
  have log2 : Nat.log 2 (2 ^ 53 + 1) = 53 := by
    rw [Nat.log_eq_iff (by decide)]
    decide
  have round1 : roundNat 53 (2 ^ 53) = 2 ^ 53 := by
    simp only [roundNat, log1]
    decide
  have round2 : roundNat 53 (2 ^ 53 + 1) = 2 ^ 53 := by
    simp only [roundNat, log2]
    decide
  constructor
  · exact congrArg (fun mantissa : ℕ => (1 : ℤ) * mantissa) round1
  · exact congrArg (fun mantissa : ℕ => (1 : ℤ) * mantissa) round2

theorem operatorEq_different {type : DigitType} (value1 value2 : type.Value)
    (different : value1.val ≠ value2.val) :
    operatorEq checked (digit type (some value1)) (digit type (some value2)) = some false := by
  have digital : (digit type (some value1)).isDigital = true := by
    apply DataType.isDigital_iff.mpr
    cases type <;> simp [getDataType, DigitType.dataType]
  rw [(@answers_number _ (digit type (some value1)) (digit type (some value2)) rfl rfl fun _ =>
    digital).1]
  simp [number, nullsRank, different]

theorem not_laws_of_long (laws : (operators checked).TotalPreorder (valuesOf kinds))
    {kind1 kind2 : ValueKind} (kindMem1 : kind1 ∈ kinds) (kindMem2 : kind2 ∈ kinds)
    (wide : kind1.dataType = .long ∨ kind1.dataType = .ulong)
    (fraction : kind2.dataType = .float ∨ kind2.dataType = .double) : False := by
  have integer : ∃ type : DigitType, kind1.dataType = type.dataType ∧ type.minValue ≤ 0 ∧
      2 ^ 53 + 1 ≤ type.maxValue := by
    rcases wide with isLong | isUlong
    · exact ⟨.long, isLong, by decide, by decide⟩
    · exact ⟨.ulong, isUlong, by decide, by decide⟩
  rcases integer with ⟨type, typeEq, minLe, maxGe⟩
  rcases getDouble_powerOf fraction with ⟨powerType, powerNull, powerDouble⟩
  have power : powerOf kind2.dataType ∈ valuesOf kinds := by
    refine ⟨kind2, kindMem2, powerType, ?_, ?_⟩
    · rw [powerNull]
      intro isNull
      cases isNull
    · rcases fraction with isFloat | isDouble
      · rw [isFloat]
        exact Nat.zero_le _
      · rw [isDouble]
        exact Nat.zero_le _
  have member (value : type.Value) : digit type (some value) ∈ valuesOf kinds :=
    ⟨kind1, kindMem1, typeEq.symm, (nomatch ·), Nat.zero_le _⟩
  have digital1 : kind1.dataType.isDigital = true := by rcases wide with h | h <;> rw [h] <;> rfl
  have digital2 : kind2.dataType.isDigital = true := by
    rcases fraction with h | h <;> rw [h] <;> rfl
  have notInteger : kind2.dataType.isAutoPrimaryKey = false := by
    rcases fraction with h | h <;> rw [h] <;> rfl
  have different : kind1.dataType ≠ kind2.dataType := by
    rcases wide with h1 | h1 <;> rcases fraction with h2 | h2 <;> rw [h1, h2] <;> decide
  have same (value : type.Value) (rounded : roundInt 53 value.val = 2 ^ 53) :
      operatorEq checked (digit type (some value)) (powerOf kind2.dataType) = some true := by
    have valueType : (digit type (some value)).getDataType = kind1.dataType := typeEq.symm
    have valueDouble : (digit type (some value)).getDouble = .ofRat (2 ^ 53) := by
      simp only [getDouble, rounded]
      norm_num
    simp [operatorEq, isAutoPrimaryKey, isDigital, valueType, powerType, different, notInteger,
      digital1, digital2, valueDouble, powerDouble]
  let low : type.Value := ⟨2 ^ 53, by omega, by omega⟩
  let high : type.Value := ⟨2 ^ 53 + 1, by omega, by omega⟩
  have sameLow := same low roundInt_wide.1
  have sameHigh := same high roundInt_wide.2
  have equal := laws.trans _ (member low) _ power _ (member high) sameLow
    (laws.symm _ (member high) _ power sameHigh)
  have unequal := @operatorEq_different checked _ low high (by simp [low, high])
  have answer := equal.symm.trans unequal
  cases answer

theorem ableCompare_cases {type1 type2 : DataType} (able : type1.ableCompare type2 = true)
    (different : type1 ≠ type2) : type1.isDigital = true ∧ type2.isDigital = true ∨
      type1.isArrayType = true ∧ type2.isArrayType = true := by
  rw [DataType.ableCompare, if_neg different] at able
  split at able
  · next digital => exact Or.inl (Bool.and_eq_true_iff.mp digital)
  · exact Or.inr (Bool.and_eq_true_iff.mp able)

theorem ordered_of_laws (comparable : MutuallyComparable kinds)
    (laws : (operators checked).TotalPreorder (valuesOf kinds)) : Ordered checked kinds := by
  refine ⟨answering_of_laws laws, ?_⟩
  by_cases oneType : OneType kinds
  · exact Or.inl ⟨oneType, shortTexts_of_laws laws⟩
  · right
    simp only [OneType, not_forall] at oneType
    rcases oneType with ⟨kind1, kindMem1, kind2, kindMem2, different⟩
    have bothDigital {kind kind'} (mem : kind ∈ kinds) (mem' : kind' ∈ kinds)
        (unlike : kind.dataType ≠ kind'.dataType) :
        kind.dataType.isDigital = true ∧ kind'.dataType.isDigital = true := by
      rcases ableCompare_cases (comparable kind mem kind' mem') unlike with digital | arrays
      · exact digital
      · exact (not_laws_of_arrays laws mem mem' unlike arrays.1 arrays.2).elim
    have other (kind) (mem : kind ∈ kinds) : ∃ kind' ∈ kinds, kind.dataType ≠ kind'.dataType := by
      by_cases like : kind.dataType = kind1.dataType
      · exact ⟨kind2, kindMem2, like ▸ different⟩
      · exact ⟨kind1, kindMem1, like⟩
    constructor
    · intro kind mem
      rcases other kind mem with ⟨kind', mem', unlike⟩
      exact (bothDigital mem mem' unlike).1
    · intro kind mem
      rcases other kind mem with ⟨kind', mem', unlike⟩
      rcases bothDigital mem mem' unlike with ⟨digital, digital'⟩
      rw [← Bool.not_eq_true]
      intro nullable
      exact not_laws_of_null laws mem mem' unlike digital digital' nullable
    · intro kind mem isUlong kind' mem' integer
      by_contra notUlong
      exact not_laws_of_ulong laws mem mem' isUlong integer notUlong
    · intro kind mem wide kind' mem'
      constructor
      · intro isFloat
        exact not_laws_of_long laws mem mem' wide (Or.inl isFloat)
      · intro isDouble
        exact not_laws_of_long laws mem mem' wide (Or.inr isDouble)

/-- Values that may be compared have one order exactly under the condition. -/
theorem oneOrder_iff_ordered (comparable : MutuallyComparable kinds) :
    OneOrder checked (valuesOf kinds) ↔ Ordered checked kinds := by
  constructor
  · intro oneOrder
    exact ordered_of_laws comparable oneOrder.laws
  · exact oneOrder_of_ordered

theorem oneOrder_iff_ordered_integers :
    MutuallyComparable [⟨.int, false, 0⟩, ⟨.long, false, 0⟩, ⟨.bool, false, 0⟩] ∧
      (OneOrder true (valuesOf [⟨.int, false, 0⟩, ⟨.long, false, 0⟩, ⟨.bool, false, 0⟩]) ↔
        Ordered true [⟨.int, false, 0⟩, ⟨.long, false, 0⟩, ⟨.bool, false, 0⟩]) :=
  ⟨by decide, oneOrder_iff_ordered (by decide)⟩

/-- The text a is not equal to itself as a fixed and as a variable text. -/
theorem not_oneOrder_texts :
    MutuallyComparable [⟨.fixChar, false, 1⟩, ⟨.varChar, false, 1⟩] ∧
      operatorEq false (fixChar (some [97])) (varChar (some [97])) = some false ∧
      operatorEq false (fixChar (some [97])) (varChar (some [98])) = some true ∧
      ¬OneOrder false (valuesOf [⟨.fixChar, false, 1⟩, ⟨.varChar, false, 1⟩]) := by
  refine ⟨by decide, by decide, by decide, ?_⟩
  intro oneOrder
  exact @not_laws_of_arrays _ _ oneOrder.laws ⟨.fixChar, false, 1⟩ ⟨.varChar, false, 1⟩ (by simp)
    (by simp) (by decide) (by decide) (by decide)

end IDataValue

end RapidDb
