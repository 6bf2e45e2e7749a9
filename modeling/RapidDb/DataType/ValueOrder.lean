import RapidDb.DataType.DataValue

/-!
# One order of the values

The values of a query range or of an `IN` list come from columns and constants of a few types,
some of which admit NULL. The operators order all these values consistently exactly when the
types can be compared at all and either there is one type, for texts with lengths whose
differences are `int`s, or the types are digital without NULL, `ULONG` meets no other integer
type, and `LONG` and `ULONG` meet neither `FLOAT` nor `DOUBLE`. Then every comparison agrees with
the exact numbers.
-/

namespace RapidDb

open Bytes

/-- A type of values, with or without NULL, and the greatest length of its texts. -/
structure ValueKind where
  dataType : DataType
  nullable : Bool
  maxLength : ℕ
deriving DecidableEq, Repr

/-- The rank of a value that may be NULL. -/
def nullsRank {T R : Type} (rank : T → R) : Option T → WithBot R
  | none => ⊥
  | some value => (rank value : WithBot R)

@[simp]
theorem nullsRank_map {T U R : Type} (rank : U → R) (f : T → U) (value : Option T) :
    nullsRank rank (value.map f) = nullsRank (fun v => rank (f v)) value := by
  cases value <;> rfl

section

variable {T R : Type} [LinearOrder R] {rank : T → R}

theorem nulls_answers {equal greater atLeast : T → T → Bool}
    (equalRank : ∀ v1 v2, equal v1 v2 = decide (rank v1 = rank v2))
    (greaterRank : ∀ v1 v2, greater v1 v2 = decide (rank v2 < rank v1))
    (atLeastRank : ∀ v1 v2, atLeast v1 v2 = decide (rank v2 ≤ rank v1)) (value other : Option T) :
    Comparison.Answers (nullsRank rank value) (nullsRank rank other)
      (some (nullsEqual equal value other)) (some (nullsGreater greater value other))
      (some (nullsAtLeast atLeast value other)) := by
  cases value <;> cases other <;>
    simp [Comparison.Answers, nullsEqual, nullsGreater, nullsAtLeast, nullsRank, equalRank,
      greaterRank, atLeastRank]

end

namespace IDataValue

/-- The exact number of a digital value or a date, below all others for NULL. -/
def number : IDataValue → WithBot Extended
  | digit _ value => nullsRank (fun v => .ofRat (v.val : ℤ)) value
  | float value => nullsRank BinaryNumber.exact value
  | double value => nullsRank BinaryNumber.exact value
  | bool value => nullsRank (fun v => .ofRat v.toNat) value
  | dateTime value => nullsRank (fun v => .ofRat v.val) value
  | _ => ⊥

/-- The bytes of a text, below all others for NULL. -/
def text : IDataValue → WithBot (List Byte)
  | fixChar bysValue | varChar bysValue => nullsRank id bysValue
  | _ => ⊥

/-- The number of bytes of a text. -/
def textLength : IDataValue → ℕ
  | fixChar (some bysValue) | varChar (some bysValue) | blob (some bysValue) => bysValue.length
  | _ => 0

def valuesOf (kinds : List ValueKind) : Set IDataValue :=
  {dv | ∃ kind ∈ kinds, dv.getDataType = kind.dataType ∧
    (dv.isNull = true → kind.nullable = true) ∧ dv.textLength ≤ kind.maxLength}

/-- The operators describe one order of the values, for ordered sets and for lookups. -/
structure OneOrder (checked : Bool) (values : Set IDataValue) : Prop where
  laws : (operators checked).TotalPreorder values
  cmp : IsStrictWeakOrder values fun ldv rdv => dataValueCmp checked ldv rdv = some true
  equal : Equivalence fun ldv rdv : values => dataValueEqual checked ldv rdv = some true

theorem OneOrder.of_laws {checked : Bool} {values : Set IDataValue}
    (laws : (operators checked).TotalPreorder values) : OneOrder checked values where
  laws := laws
  cmp := laws.strictWeakOrder
  equal := laws.equivalence

variable {checked : Bool} {dv1 dv2 : IDataValue}

theorem operators_same (sameType : dv1.getDataType = dv2.getDataType)
    (passes : dv1.isDataValueDigit = true → checked = true → dv1.isDigital = true) :
    operatorEq checked dv1 dv2 = dv1.sameEQ dv2 ∧ operatorGt checked dv1 dv2 = dv1.sameGT dv2 ∧
      operatorGe checked dv1 dv2 = dv1.sameGE dv2 := by
  have guard : (dv1.isDataValueDigit && checked && !dv2.isDigital) = false := by
    have digital : dv2.isDigital = dv1.isDigital := by rw [isDigital, isDigital, sameType]
    rw [digital]
    cases isDigit : dv1.isDataValueDigit
    · rfl
    · cases isChecked : checked
      · rfl
      · simp [passes isDigit isChecked]
  have twice (answer : Option Bool) : (answer.map not).map not = answer := by
    rcases answer with - | - | - <;> rfl
  simp [operatorEq, operatorGt, operatorGe, EQ, GT, LT, sameType, guard, twice]

theorem exact_answers {format : BinaryFormat} (value1 value2 : Option (BinaryNumber format)) :
    Comparison.Answers (nullsRank BinaryNumber.exact value1) (nullsRank BinaryNumber.exact value2)
      (some (nullsEqual (fun v1 v2 => v1 = v2) (value1.map BinaryNumber.exact)
        (value2.map BinaryNumber.exact)))
      (some (nullsGreater (fun v1 v2 => v1 > v2) (value1.map BinaryNumber.exact)
        (value2.map BinaryNumber.exact)))
      (some (nullsAtLeast (fun v1 v2 => v1 ≥ v2) (value1.map BinaryNumber.exact)
        (value2.map BinaryNumber.exact))) := by
  have answers := @nulls_answers _ _ _ (fun v : Extended => v) (fun v1 v2 => v1 = v2)
    (fun v1 v2 => v1 > v2) (fun v1 v2 => v1 ≥ v2) (by simp) (by simp) (by simp)
    (value1.map BinaryNumber.exact) (value2.map BinaryNumber.exact)
  simpa only [nullsRank_map] using answers

/-- Numbers of one type compare as they should, NULL being the least. -/
theorem answers_number (sameType : dv1.getDataType = dv2.getDataType)
    (isDigit : dv1.isDataValueDigit = true) (passes : checked = true → dv1.isDigital = true) :
    Comparison.Answers dv1.number dv2.number (operatorEq checked dv1 dv2)
      (operatorGt checked dv1 dv2) (operatorGe checked dv1 dv2) := by
  rcases operators_same sameType fun _ => passes with ⟨eqSame, gtSame, geSame⟩
  rw [eqSame, gtSame, geSame]
  cases dv1 with
  | digit type1 value1 =>
      cases dv2 with
      | digit type2 value2 =>
          have answers := @nulls_answers _ _ _ (fun v : ℤ => Extended.ofRat v)
            (fun v1 v2 => v1 = v2)
            (fun v1 v2 => v1 > v2) (fun v1 v2 => v1 ≥ v2) (by simp) (by simp) (by simp)
            (value1.map Subtype.val) (value2.map Subtype.val)
          simp only [nullsRank_map] at answers
          exact answers
      | _ => cases type1 <;> cases sameType
  | float value1 =>
      cases dv2 with
      | digit type2 value2 => cases type2 <;> cases sameType
      | float value2 => exact exact_answers value1 value2
      | _ => cases sameType
  | double value1 =>
      cases dv2 with
      | digit type2 value2 => cases type2 <;> cases sameType
      | double value2 => exact exact_answers value1 value2
      | _ => cases sameType
  | bool value1 =>
      cases dv2 with
      | digit type2 value2 => cases type2 <;> cases sameType
      | bool value2 =>
          exact nulls_answers (by decide) (by decide) (by decide) value1 value2
      | _ => cases sameType
  | dateTime value1 =>
      cases dv2 with
      | digit type2 value2 => cases type2 <;> cases sameType
      | dateTime value2 =>
          exact nulls_answers (by simp [Fin.ext_iff]) (by simp) (by simp) value1 value2
      | _ => cases sameType
  | fixChar => cases isDigit
  | varChar => cases isDigit
  | blob => cases isDigit
  | valNull => cases isDigit

theorem bytes_answers {equal : List Byte → List Byte → Bool}
    (equalIff : ∀ bys1 bys2, bys1.length < 2 ^ 31 → bys2.length < 2 ^ 31 →
      (equal bys1 bys2 = true ↔ bys1 = bys2))
    {bysValue1 bysValue2 : Option (List Byte)} (short1 : ∀ bys ∈ bysValue1, bys.length < 2 ^ 31)
    (short2 : ∀ bys ∈ bysValue2, bys.length < 2 ^ 31) :
    Comparison.Answers (nullsRank id bysValue1) (nullsRank id bysValue2)
      (some (nullsEqual equal bysValue1 bysValue2))
      (some (nullsGreater (fun bys1 bys2 => bytesCompareInt bys1 bys2 > 0) bysValue1 bysValue2))
      (some (nullsAtLeast (fun bys1 bys2 => bytesCompareInt bys1 bys2 ≥ 0) bysValue1
        bysValue2)) := by
  have short {bysValue : Option (List Byte)} (within : ∀ bys ∈ bysValue, bys.length < 2 ^ 31) :
      ∃ value : Option ShortBytes, value.map Subtype.val = bysValue := by
    cases bysValue with
    | none => exact ⟨none, rfl⟩
    | some bys => exact ⟨some ⟨bys, within bys rfl⟩, rfl⟩
  obtain ⟨value1, rfl⟩ := short short1
  obtain ⟨value2, rfl⟩ := short short2
  have answers := @nulls_answers _ _ _ (fun bys : ShortBytes => bys.1)
    (fun bys1 bys2 => equal bys1.1 bys2.1) (fun bys1 bys2 => bytesCompareInt bys1.1 bys2.1 > 0)
    (fun bys1 bys2 => bytesCompareInt bys1.1 bys2.1 ≥ 0)
    (fun bys1 bys2 => by
      rw [Bool.eq_iff_iff, equalIff bys1.1 bys2.1 bys1.2 bys2.2]
      simp)
    (fun bys1 bys2 => by
      rw [decide_eq_decide]
      exact (compares_bytesCompareInt bys1 bys2).pos)
    (fun bys1 bys2 => by
      rw [decide_eq_decide, ge_iff_le, ← not_lt, (compares_bytesCompareInt bys1 bys2).neg, not_lt])
    value1 value2
  cases value1 <;> cases value2 <;> exact answers

theorem answers_text (sameType : dv1.getDataType = dv2.getDataType)
    (isText : dv1.getDataType ∈ [.fixChar, .varChar, .valNull])
    (short1 : dv1.textLength < 2 ^ 31) (short2 : dv2.textLength < 2 ^ 31) :
    Comparison.Answers dv1.text dv2.text (operatorEq checked dv1 dv2)
      (operatorGt checked dv1 dv2) (operatorGe checked dv1 dv2) := by
  have notDigit : dv1.isDataValueDigit = true → checked = true → dv1.isDigital = true := by
    intro isDigit
    cases dv1 with
    | digit type1 => cases type1 <;> simp [getDataType, DigitType.dataType] at isText
    | fixChar | varChar | blob | valNull => cases isDigit
    | _ => simp [getDataType] at isText
  rcases operators_same sameType notDigit with ⟨eqSame, gtSame, geSame⟩
  rw [eqSame, gtSame, geSame]
  cases dv1 with
  | fixChar bysValue1 =>
      cases dv2 with
      | digit type2 => cases type2 <;> cases sameType
      | fixChar bysValue2 =>
          apply bytes_answers
          · intro bys1 bys2 short1 short2
            rw [decide_eq_true_iff, bytesCompareInt_eq (narrowed_of_short short1 short2)]
            exact (compares_bytesCompare bys1 bys2).zero
          · rintro bys rfl
            exact short1
          · rintro bys rfl
            exact short2
      | _ => cases sameType
  | varChar bysValue1 =>
      cases dv2 with
      | digit type2 => cases type2 <;> cases sameType
      | varChar bysValue2 =>
          apply bytes_answers
          · intro bys1 bys2 short1 short2
            have zero := (compares_bytesCompare bys1 bys2).zero
            rw [← bytesCompareInt_eq (narrowed_of_short short1 short2)] at zero
            constructor
            · intro answer
              split at answer
              · cases answer
              · exact zero.mp (of_decide_eq_true answer)
            · rintro rfl
              simp [zero]
          · rintro bys rfl
            exact short1
          · rintro bys rfl
            exact short2
      | _ => cases sameType
  | valNull =>
      cases dv2 with
      | digit type2 => cases type2 <;> cases sameType
      | valNull => simp [Comparison.Answers, sameEQ, sameGT, sameGE]
      | _ => cases sameType
  | digit type1 => cases type1 <;> simp [getDataType, DigitType.dataType] at isText
  | _ => simp [getDataType] at isText

/-- The exact number of a digital value that is not NULL. -/
def exactValue : IDataValue → Extended
  | digit _ (some value) => .ofRat (value.val : ℤ)
  | float (some value) => value.exact
  | double (some value) => value.exact
  | bool (some value) => .ofRat value.toNat
  | _ => .ofRat 0

theorem digital_cases (digital : dv1.isDigital = true) (notNull : dv1.isNull = false) :
    (∃ type value, dv1 = digit type (some value)) ∨ (∃ value, dv1 = float (some value)) ∨
      (∃ value, dv1 = double (some value)) ∨ ∃ value, dv1 = bool (some value) := by
  cases dv1 with
  | digit type value =>
      cases value with
      | none => cases notNull
      | some value => exact Or.inl ⟨type, value, rfl⟩
  | float value | double value | bool value =>
      cases value with
      | none => cases notNull
      | some value => simp
  | _ =>
      have member := DataType.isDigital_iff.mp digital
      simp [getDataType] at member

theorem integer_cases (integer : dv1.isAutoPrimaryKey = true) (notNull : dv1.isNull = false) :
    ∃ type value, dv1 = digit type (some value) := by
  cases dv1 with
  | digit type value =>
      cases value with
      | none => cases notNull
      | some value => exact ⟨type, value, rfl⟩
  | _ =>
      have member := DataType.isAutoPrimaryKey_iff.mp integer
      simp [getDataType] at member

theorem number_eq (digital : dv1.isDigital = true) (notNull : dv1.isNull = false) :
    dv1.number = (dv1.exactValue : WithBot Extended) := by
  rcases digital_cases digital notNull with
    ⟨type, value, rfl⟩ | ⟨value, rfl⟩ | ⟨value, rfl⟩ | ⟨value, rfl⟩ <;> rfl

theorem getDouble_eq (digital : dv1.isDigital = true) (notNull : dv1.isNull = false)
    (notLong : dv1.getDataType ≠ .long) (notUlong : dv1.getDataType ≠ .ulong) :
    dv1.getDouble = dv1.exactValue := by
  rcases digital_cases digital notNull with
    ⟨type, ⟨value, above, below⟩, rfl⟩ | ⟨value, rfl⟩ | ⟨value, rfl⟩ | ⟨value, rfl⟩
  · have small : value.natAbs < 2 ^ 53 := by
      cases type with
      | long => exact absurd rfl notLong
      | ulong => exact absurd rfl notUlong
      | _ =>
          simp only [DigitType.minValue, DigitType.maxValue] at above below
          omega
    simp [getDouble, exactValue, roundInt_of_lt small]
  · rfl
  · rfl
  · rfl

theorem getLong_eq (integer : dv1.isAutoPrimaryKey = true) (notNull : dv1.isNull = false)
    (notUlong : dv1.getDataType ≠ .ulong) : dv1.exactValue = .ofRat (dv1.getLong : ℤ) := by
  rcases integer_cases integer notNull with ⟨type, ⟨value, above, below⟩, rfl⟩
  have kept : toInt64 value = value := by
    rw [toInt64]
    cases type with
    | ulong => exact absurd rfl notUlong
    | _ =>
        simp only [DigitType.minValue, DigitType.maxValue] at above below
        omega
  simp [exactValue, getLong, kept]

theorem getDouble_cmp_bool (integer : dv1.isAutoPrimaryKey = true) (notNull1 : dv1.isNull = false)
    (isBool : dv2.getDataType = .bool) (notNull2 : dv2.isNull = false) :
    (dv1.getDouble < dv2.getDouble ↔ dv1.exactValue < dv2.exactValue) ∧
      (dv2.getDouble < dv1.getDouble ↔ dv2.exactValue < dv1.exactValue) := by
  rcases integer_cases integer notNull1 with ⟨type1, value1, rfl⟩
  have digital : dv2.isDigital = true := by rw [isDigital, isBool]; rfl
  rcases digital_cases digital notNull2 with
    ⟨type2, value2, rfl⟩ | ⟨value2, rfl⟩ | ⟨value2, rfl⟩ | ⟨value2, rfl⟩
  · cases type2 <;> cases isBool
  · cases isBool
  · cases isBool
  · have small : (value2.toNat : ℤ).natAbs < 2 ^ 53 := by cases value2 <;> decide
    have compare := roundInt_cmp (by decide) small value1.val
    have cast : (value2.toNat : ℚ) = ((value2.toNat : ℤ) : ℚ) := by simp
    simp only [getDouble, exactValue, Extended.ofRat_lt_ofRat, cast, Int.cast_lt]
    exact compare

theorem answers_long (different : dv1.getDataType ≠ dv2.getDataType)
    (integer1 : dv1.isAutoPrimaryKey = true) (integer2 : dv2.isAutoPrimaryKey = true)
    (notNull1 : dv1.isNull = false) (notNull2 : dv2.isNull = false)
    (notUlong1 : dv1.getDataType ≠ .ulong) (notUlong2 : dv2.getDataType ≠ .ulong) :
    Comparison.Answers dv1.exactValue dv2.exactValue (operatorEq checked dv1 dv2)
      (operatorGt checked dv1 dv2) (operatorGe checked dv1 dv2) := by
  simp only [operatorEq, operatorGt, operatorGe, if_neg different, integer1, integer2,
    Bool.and_self, if_true]
  apply Comparison.Answers.of_converted
  rw [getLong_eq integer1 notNull1 notUlong1, getLong_eq integer2 notNull2 notUlong2]
  simp

theorem answers_double (different : dv1.getDataType ≠ dv2.getDataType)
    (digital1 : dv1.isDigital = true) (digital2 : dv2.isDigital = true)
    (notIntegers : (dv1.isAutoPrimaryKey && dv2.isAutoPrimaryKey) = false)
    (keeps : (dv1.getDouble < dv2.getDouble ↔ dv1.exactValue < dv2.exactValue) ∧
      (dv2.getDouble < dv1.getDouble ↔ dv2.exactValue < dv1.exactValue)) :
    Comparison.Answers dv1.exactValue dv2.exactValue (operatorEq checked dv1 dv2)
      (operatorGt checked dv1 dv2) (operatorGe checked dv1 dv2) := by
  simp only [operatorEq, operatorGt, operatorGe, if_neg different, notIntegers, digital1, digital2,
    Bool.and_self, if_true, Bool.false_eq_true, if_false]
  exact Comparison.Answers.of_converted keeps

end IDataValue

/-- Any two of the kinds may be compared. -/
def MutuallyComparable (kinds : List ValueKind) : Prop :=
  ∀ kind1 ∈ kinds, ∀ kind2 ∈ kinds, kind1.dataType.ableCompare kind2.dataType = true

instance (kinds : List ValueKind) : Decidable (MutuallyComparable kinds) :=
  inferInstanceAs (Decidable (∀ kind1 ∈ kinds, ∀ kind2 ∈ kinds, _))

def Answering (checked : Bool) (kinds : List ValueKind) : Prop :=
  ∀ kind ∈ kinds, kind.dataType ≠ .blob ∧ (checked = true → kind.dataType ≠ .dateTime)

def OneType (kinds : List ValueKind) : Prop :=
  ∀ kind1 ∈ kinds, ∀ kind2 ∈ kinds, kind1.dataType = kind2.dataType

/-- The texts of one type have lengths whose differences are `int`s. -/
def ShortTexts (kinds : List ValueKind) : Prop :=
  ∀ kind ∈ kinds, kind.dataType.isArrayType = true → kind.maxLength < 2 ^ 31

/-- Digital types without NULL whose conversions keep the order. -/
structure ExactDigits (kinds : List ValueKind) : Prop where
  digital : ∀ kind ∈ kinds, kind.dataType.isDigital = true
  notNull : ∀ kind ∈ kinds, kind.nullable = false
  ulongAlone : ∀ kind1 ∈ kinds, kind1.dataType = .ulong → ∀ kind2 ∈ kinds,
    kind2.dataType.isAutoPrimaryKey = true → kind2.dataType = .ulong
  longWhole : ∀ kind1 ∈ kinds, kind1.dataType = .long ∨ kind1.dataType = .ulong →
    ∀ kind2 ∈ kinds, kind2.dataType ≠ .float ∧ kind2.dataType ≠ .double

/-- The condition under which the operators agree on one order. -/
def Ordered (checked : Bool) (kinds : List ValueKind) : Prop :=
  Answering checked kinds ∧ (OneType kinds ∧ ShortTexts kinds ∨ ExactDigits kinds)

namespace IDataValue

variable {checked : Bool} {kinds : List ValueKind}

theorem isDataValueDigit_of_not_text {dv : IDataValue}
    (notText : dv.getDataType ∉ [.fixChar, .varChar, .valNull]) (notBlob : dv.getDataType ≠ .blob) :
    dv.isDataValueDigit = true := by
  cases dv with
  | fixChar | varChar | valNull => simp [getDataType] at notText
  | blob => exact absurd rfl notBlob
  | _ => rfl

theorem isDigital_of_isDataValueDigit {dv : IDataValue} (isDigit : dv.isDataValueDigit = true)
    (notDate : dv.getDataType ≠ .dateTime) : dv.isDigital = true := by
  apply DataType.isDigital_iff.mpr
  cases dv with
  | digit type => cases type <;> simp [getDataType, DigitType.dataType]
  | dateTime => exact absurd rfl notDate
  | fixChar | varChar | blob | valNull => cases isDigit
  | _ => simp [getDataType]

theorem laws_oneType (answering : Answering checked kinds) (oneType : OneType kinds)
    (shortTexts : ShortTexts kinds) :
    (operators checked).TotalPreorder (valuesOf kinds) := by
  have sameType (dv1 : IDataValue) (mem1 : dv1 ∈ valuesOf kinds) (dv2 : IDataValue)
      (mem2 : dv2 ∈ valuesOf kinds) : dv1.getDataType = dv2.getDataType := by
    rcases mem1 with ⟨kind1, kindMem1, type1, -⟩
    rcases mem2 with ⟨kind2, kindMem2, type2, -⟩
    rw [type1, type2]
    exact oneType kind1 kindMem1 kind2 kindMem2
  have returning (dv : IDataValue) (mem : dv ∈ valuesOf kinds) :
      dv.getDataType ≠ .blob ∧ (checked = true → dv.getDataType ≠ .dateTime) := by
    rcases mem with ⟨kind, kindMem, type, -⟩
    rw [type]
    exact answering kind kindMem
  have short (dv : IDataValue) (mem : dv ∈ valuesOf kinds) : dv.textLength < 2 ^ 31 := by
    rcases mem with ⟨kind, kindMem, type, -, within⟩
    by_cases array : kind.dataType.isArrayType = true
    · exact lt_of_le_of_lt within (shortTexts kind kindMem array)
    · rw [← type] at array
      cases dv with
      | fixChar | varChar | blob =>
        exact absurd (DataType.isArrayType_iff.mpr (by simp [getDataType])) array
      | _ => exact Nat.two_pow_pos 31
  by_cases isText : ∀ dv ∈ valuesOf kinds, dv.getDataType ∈ [.fixChar, .varChar, .valNull]
  · apply Comparison.TotalPreorder.of_rank text
    intro dv1 mem1 dv2 mem2
    exact answers_text (sameType dv1 mem1 dv2 mem2) (isText dv1 mem1) (short dv1 mem1)
      (short dv2 mem2)
  · simp only [not_forall] at isText
    rcases isText with ⟨dv, mem, notText⟩
    apply Comparison.TotalPreorder.of_rank number
    intro dv1 mem1 dv2 mem2
    rw [sameType dv mem dv1 mem1] at notText
    have isDigit := isDataValueDigit_of_not_text notText (returning dv1 mem1).1
    exact answers_number (sameType dv1 mem1 dv2 mem2) isDigit fun isChecked =>
      isDigital_of_isDataValueDigit isDigit ((returning dv1 mem1).2 isChecked)

theorem getDouble_cmp_wide {dv1 dv2 : IDataValue} (digital2 : dv2.isDigital = true)
    (null1 : dv1.isNull = false) (null2 : dv2.isNull = false)
    (notIntegers : (dv1.isAutoPrimaryKey && dv2.isAutoPrimaryKey) = false)
    (wide : dv1.getDataType = .long ∨ dv1.getDataType = .ulong)
    (whole : dv2.getDataType ≠ .float ∧ dv2.getDataType ≠ .double) :
    (dv1.getDouble < dv2.getDouble ↔ dv1.exactValue < dv2.exactValue) ∧
      (dv2.getDouble < dv1.getDouble ↔ dv2.exactValue < dv1.exactValue) := by
  have integer1 : dv1.isAutoPrimaryKey = true := by
    rcases wide with isLong | isUlong
    · rw [isAutoPrimaryKey, isLong]
      rfl
    · rw [isAutoPrimaryKey, isUlong]
      rfl
  rw [integer1, Bool.true_and] at notIntegers
  have isBool : dv2.getDataType = .bool := by
    have notInteger := DataType.isAutoPrimaryKey_iff.not.mp (Bool.eq_false_iff.mp notIntegers)
    have member := DataType.isDigital_iff.mp digital2
    simp only [List.mem_cons, List.not_mem_nil, or_false] at notInteger member
    tauto
  exact getDouble_cmp_bool integer1 null1 isBool null2

theorem answers_exactDigits (exactDigits : ExactDigits kinds) {dv1 dv2 : IDataValue}
    (mem1 : dv1 ∈ valuesOf kinds) (mem2 : dv2 ∈ valuesOf kinds) :
    Comparison.Answers dv1.number dv2.number (operatorEq checked dv1 dv2)
      (operatorGt checked dv1 dv2) (operatorGe checked dv1 dv2) := by
  rcases mem1 with ⟨kind1, kindMem1, type1, null1, -⟩
  rcases mem2 with ⟨kind2, kindMem2, type2, null2, -⟩
  have digital1 : dv1.isDigital = true := by
    rw [isDigital, type1]
    exact exactDigits.digital kind1 kindMem1
  have digital2 : dv2.isDigital = true := by
    rw [isDigital, type2]
    exact exactDigits.digital kind2 kindMem2
  simp only [exactDigits.notNull kind1 kindMem1, Bool.false_eq_true, imp_false,
    Bool.not_eq_true] at null1
  simp only [exactDigits.notNull kind2 kindMem2, Bool.false_eq_true, imp_false,
    Bool.not_eq_true] at null2
  by_cases sameType : dv1.getDataType = dv2.getDataType
  · have isDigit : dv1.isDataValueDigit = true := by
      rcases digital_cases digital1 null1 with
        ⟨type, value, rfl⟩ | ⟨value, rfl⟩ | ⟨value, rfl⟩ | ⟨value, rfl⟩ <;> rfl
    exact answers_number sameType isDigit fun _ => digital1
  · have answers : Comparison.Answers dv1.exactValue dv2.exactValue (operatorEq checked dv1 dv2)
        (operatorGt checked dv1 dv2) (operatorGe checked dv1 dv2) := by
      cases integers : dv1.isAutoPrimaryKey && dv2.isAutoPrimaryKey with
      | true =>
          rw [Bool.and_eq_true] at integers
          have ulong1 := exactDigits.ulongAlone kind1 kindMem1
          have ulong2 := exactDigits.ulongAlone kind2 kindMem2
          simp only [← type1] at ulong1
          simp only [← type2] at ulong2
          apply answers_long sameType integers.1 integers.2 null1 null2
          · intro isUlong
            have other := ulong1 isUlong kind2 kindMem2 (type2 ▸ integers.2)
            exact sameType (by rw [isUlong, type2, other])
          · intro isUlong
            have other := ulong2 isUlong kind1 kindMem1 (type1 ▸ integers.1)
            exact sameType (by rw [isUlong, type1, other])
      | false =>
          apply answers_double sameType digital1 digital2 integers
          by_cases wide1 : dv1.getDataType = .long ∨ dv1.getDataType = .ulong
          · have whole := exactDigits.longWhole kind1 kindMem1 (type1 ▸ wide1) kind2 kindMem2
            rw [← type2] at whole
            exact getDouble_cmp_wide digital2 null1 null2 integers wide1 whole
          · by_cases wide2 : dv2.getDataType = .long ∨ dv2.getDataType = .ulong
            · have whole := exactDigits.longWhole kind2 kindMem2 (type2 ▸ wide2) kind1 kindMem1
              rw [← type1] at whole
              rw [Bool.and_comm] at integers
              exact (getDouble_cmp_wide digital1 null2 null1 integers wide2 whole).symm
            · rw [not_or] at wide1 wide2
              rw [getDouble_eq digital1 null1 wide1.1 wide1.2,
                getDouble_eq digital2 null2 wide2.1 wide2.2]
              exact ⟨Iff.rfl, Iff.rfl⟩
    rw [number_eq digital1 null1, number_eq digital2 null2]
    simpa [Comparison.Answers] using answers

theorem oneOrder_of_ordered (ordered : Ordered checked kinds) :
    OneOrder checked (valuesOf kinds) := by
  rcases ordered with ⟨answering, ⟨oneType, shortTexts⟩ | exactDigits⟩
  · exact .of_laws (laws_oneType answering oneType shortTexts)
  · apply OneOrder.of_laws
    apply Comparison.TotalPreorder.of_rank number
    intro dv1 mem1 dv2 mem2
    exact answers_exactDigits exactDigits mem1 mem2

end IDataValue

end RapidDb
