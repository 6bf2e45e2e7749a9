import RapidDb.DataType.KeyColumn
import RapidDb.Library.BinaryNumber
import RapidDb.Library.Comparison

/-!
# Data values and their operators

A data value carries its type and either a value or NULL. The operators of `IDataValue` go to
the virtual `EQ`, `GT` and `LT` for two values of one type. Two different integer types are
compared as `int64_t`, two other different digital types as `double`, and two different array
types byte by byte. In these branches a NULL counts as the number 0 or as the empty text. The
parameter `checked` says whether assertions are compiled in.
-/

namespace RapidDb

open Bytes

inductive DataType where
  | char
  | short
  | int
  | long
  | byte
  | ushort
  | uint
  | ulong
  | fixChar
  | varChar
  | dateTime
  | float
  | double
  | blob
  | bool
  | valNull
deriving DecidableEq, Repr

namespace DataType

def INDEX_TYPE : ℕ := 0x10000

def FIX_LEN : ℕ := 0x20000

def ARRAY_TYPE : ℕ := 0x40000

def DIGITAL_TYPE : ℕ := 0x80000

def AUTO_INC_TYPE : ℕ := 0x100000

/-- The number of the enumeration, with the properties of the type as bits. -/
def code : DataType → ℕ
  | char => AUTO_INC_TYPE + DIGITAL_TYPE + INDEX_TYPE + FIX_LEN + 1
  | short => AUTO_INC_TYPE + DIGITAL_TYPE + INDEX_TYPE + FIX_LEN + 2
  | int => AUTO_INC_TYPE + DIGITAL_TYPE + INDEX_TYPE + FIX_LEN + 3
  | long => AUTO_INC_TYPE + DIGITAL_TYPE + INDEX_TYPE + FIX_LEN + 4
  | byte => AUTO_INC_TYPE + DIGITAL_TYPE + INDEX_TYPE + FIX_LEN + 5
  | ushort => AUTO_INC_TYPE + DIGITAL_TYPE + INDEX_TYPE + FIX_LEN + 6
  | uint => AUTO_INC_TYPE + DIGITAL_TYPE + INDEX_TYPE + FIX_LEN + 7
  | ulong => AUTO_INC_TYPE + DIGITAL_TYPE + INDEX_TYPE + FIX_LEN + 8
  | fixChar => INDEX_TYPE + FIX_LEN + ARRAY_TYPE + 9
  | varChar => INDEX_TYPE + ARRAY_TYPE + 10
  | dateTime => INDEX_TYPE + FIX_LEN + 11
  | float => DIGITAL_TYPE + INDEX_TYPE + FIX_LEN + 12
  | double => DIGITAL_TYPE + INDEX_TYPE + FIX_LEN + 13
  | blob => ARRAY_TYPE + 14
  | bool => DIGITAL_TYPE + FIX_LEN + 15
  | valNull => 127

def isAutoPrimaryKey (type : DataType) : Bool :=
  type.code &&& AUTO_INC_TYPE = AUTO_INC_TYPE

def isDigital (type : DataType) : Bool :=
  type.code &&& DIGITAL_TYPE = DIGITAL_TYPE

def isArrayType (type : DataType) : Bool :=
  type.code &&& ARRAY_TYPE = ARRAY_TYPE

theorem isDigital_iff {type : DataType} : type.isDigital = true ↔
    type ∈ [char, short, int, long, byte, ushort, uint, ulong, float, double, bool] := by
  cases type <;> decide

theorem isAutoPrimaryKey_iff {type : DataType} : type.isAutoPrimaryKey = true ↔
    type ∈ [char, short, int, long, byte, ushort, uint, ulong] := by
  cases type <;> decide

theorem isArrayType_iff {type : DataType} :
    type.isArrayType = true ↔ type ∈ [fixChar, varChar, blob] := by
  cases type <;> decide

/-- `AbleCompare` looks at the types of the two values only. -/
def ableCompare (type1 type2 : DataType) : Bool :=
  if type1 = type2 then true
  else if type1.isDigital && type2.isDigital then true
  else type1.isArrayType && type2.isArrayType

end DataType

def DigitType.dataType : DigitType → DataType
  | char => .char
  | short => .short
  | int => .int
  | long => .long
  | byte => .byte
  | ushort => .ushort
  | uint => .uint
  | ulong => .ulong

instance neZero_dateTime : NeZero (2 ^ 64) := ⟨by decide⟩

/-- A data value. It is `none` for `NULL_VALUE`; a fixed text is as long as its column. -/
inductive IDataValue where
  | digit (type : DigitType) (value : Option type.Value)
  | float (value : Option (BinaryNumber .single))
  | double (value : Option (BinaryNumber .double))
  | bool (value : Option Bool)
  | dateTime (value : Option (Fin (2 ^ 64)))
  | fixChar (bysValue : Option (List Byte))
  | varChar (bysValue : Option (List Byte))
  | blob (bysValue : Option (List Byte))
  | valNull

/-- The comparison operators of one class: a NULL is equal to a NULL and less than a value. -/
def nullsEqual {T : Type} (equal : T → T → Bool) : Option T → Option T → Bool
  | none, other => other.isNone
  | some _, none => false
  | some value, some other => equal value other

def nullsGreater {T : Type} (greater : T → T → Bool) : Option T → Option T → Bool
  | none, _ => false
  | some _, none => true
  | some value, some other => greater value other

def nullsAtLeast {T : Type} (atLeast : T → T → Bool) : Option T → Option T → Bool
  | none, other => other.isNone
  | some _, none => true
  | some value, some other => atLeast value other

/-- The conversion to `int64_t`. -/
def toInt64 (value : ℤ) : ℤ :=
  (value + 2 ^ 63) % 2 ^ 64 - 2 ^ 63

namespace IDataValue

def getDataType : IDataValue → DataType
  | digit type _ => type.dataType
  | float _ => .float
  | double _ => .double
  | bool _ => .bool
  | dateTime _ => .dateTime
  | fixChar _ => .fixChar
  | varChar _ => .varChar
  | blob _ => .blob
  | valNull => .valNull

def isNull : IDataValue → Bool
  | digit _ value => value.isNone
  | float value => value.isNone
  | double value => value.isNone
  | bool value => value.isNone
  | dateTime value => value.isNone
  | fixChar bysValue | varChar bysValue | blob bysValue => bysValue.isNone
  | valNull => true

def isAutoPrimaryKey (dv : IDataValue) : Bool := dv.getDataType.isAutoPrimaryKey

def isDigital (dv : IDataValue) : Bool := dv.getDataType.isDigital

def isArrayType (dv : IDataValue) : Bool := dv.getDataType.isArrayType

/-- `GetLong`. The operators ask only the integer types for it. -/
def getLong : IDataValue → ℤ
  | digit _ (some value) => toInt64 value.val
  | _ => 0

def getDouble : IDataValue → Extended
  | digit _ (some value) => .ofRat (roundInt 53 value.val : ℤ)
  | float (some value) => value.exact
  | double (some value) => value.exact
  | bool (some value) => .ofRat value.toNat
  | dateTime (some value) => .ofRat (roundInt 53 value.val : ℤ)
  | _ => .ofRat 0

/-- The `GetDataLength` bytes at `GetBuff`. -/
def getBuff : IDataValue → List Byte
  | digit type (some value) => type.toBytes value.val false
  | float (some value) => writeLE 4 value.bits
  | double (some value) => writeLE 8 value.bits
  | bool (some value) => writeLE 1 value.toNat
  | dateTime (some value) => writeLE 8 value.val
  | fixChar (some bysValue) => bysValue
  | varChar (some bysValue) => bysValue
  | blob (some bysValue) => bysValue
  | _ => []

/-- The class is an instance of the template `DataValueDigit`. -/
def isDataValueDigit : IDataValue → Bool
  | digit _ _ | float _ | double _ | bool _ | dateTime _ => true
  | _ => false

/-- The `operator==` of the class of both values. -/
def sameEQ : IDataValue → IDataValue → Option Bool
  | digit _ value1, digit _ value2 =>
      nullsEqual (fun v1 v2 => v1 = v2) (value1.map Subtype.val) (value2.map Subtype.val)
  | float value1, float value2 =>
      nullsEqual (fun v1 v2 => v1 = v2) (value1.map BinaryNumber.exact)
        (value2.map BinaryNumber.exact)
  | double value1, double value2 =>
      nullsEqual (fun v1 v2 => v1 = v2) (value1.map BinaryNumber.exact)
        (value2.map BinaryNumber.exact)
  | bool value1, bool value2 => nullsEqual (fun v1 v2 => v1 = v2) value1 value2
  | dateTime value1, dateTime value2 => nullsEqual (fun v1 v2 => v1 = v2) value1 value2
  | fixChar bysValue1, fixChar bysValue2 =>
      nullsEqual (fun bys1 bys2 => bytesCompareInt bys1 bys2 = 0) bysValue1 bysValue2
  | varChar bysValue1, varChar bysValue2 =>
      nullsEqual (fun bys1 bys2 => if bys1.length ≠ bys2.length then false
        else bytesCompareInt bys1 bys2 = 0) bysValue1 bysValue2
  | blob bysValue1, blob bysValue2 =>
      nullsEqual (fun bys1 bys2 => if bys1.length ≠ bys2.length then false
        else bytesCompareInt bys1 bys2 = 0) bysValue1 bysValue2
  | valNull, valNull => true
  | _, _ => none

/-- The `operator>` of the class of both values. `DataValueBlob::GT` aborts. -/
def sameGT : IDataValue → IDataValue → Option Bool
  | digit _ value1, digit _ value2 =>
      nullsGreater (fun v1 v2 => v1 > v2) (value1.map Subtype.val) (value2.map Subtype.val)
  | float value1, float value2 =>
      nullsGreater (fun v1 v2 => v1 > v2) (value1.map BinaryNumber.exact)
        (value2.map BinaryNumber.exact)
  | double value1, double value2 =>
      nullsGreater (fun v1 v2 => v1 > v2) (value1.map BinaryNumber.exact)
        (value2.map BinaryNumber.exact)
  | bool value1, bool value2 => nullsGreater (fun v1 v2 => v1 > v2) value1 value2
  | dateTime value1, dateTime value2 => nullsGreater (fun v1 v2 => v1 > v2) value1 value2
  | fixChar bysValue1, fixChar bysValue2 | varChar bysValue1, varChar bysValue2 =>
      nullsGreater (fun bys1 bys2 => bytesCompareInt bys1 bys2 > 0) bysValue1 bysValue2
  | valNull, valNull => false
  | _, _ => none

/-- The `operator>=` of the class of both values. -/
def sameGE : IDataValue → IDataValue → Option Bool
  | digit _ value1, digit _ value2 =>
      nullsAtLeast (fun v1 v2 => v1 ≥ v2) (value1.map Subtype.val) (value2.map Subtype.val)
  | float value1, float value2 =>
      nullsAtLeast (fun v1 v2 => v1 ≥ v2) (value1.map BinaryNumber.exact)
        (value2.map BinaryNumber.exact)
  | double value1, double value2 =>
      nullsAtLeast (fun v1 v2 => v1 ≥ v2) (value1.map BinaryNumber.exact)
        (value2.map BinaryNumber.exact)
  | bool value1, bool value2 => nullsAtLeast (fun v1 v2 => v1 ≥ v2) value1 value2
  | dateTime value1, dateTime value2 => nullsAtLeast (fun v1 v2 => v1 ≥ v2) value1 value2
  | fixChar bysValue1, fixChar bysValue2 | varChar bysValue1, varChar bysValue2 =>
      nullsAtLeast (fun bys1 bys2 => bytesCompareInt bys1 bys2 ≥ 0) bysValue1 bysValue2
  | valNull, valNull => true
  | _, _ => none

variable (checked : Bool)

/-- The virtual `EQ`. A digit class asserts that the other value is digital. -/
def EQ (dv1 dv2 : IDataValue) : Option Bool :=
  if dv1.isDataValueDigit && checked && !dv2.isDigital then none
  else if dv1.getDataType = dv2.getDataType then dv1.sameEQ dv2
  else if dv1.isDataValueDigit then
    if dv1.isNull then some dv2.isNull
    else if dv2.isNull then some false
    else if dv1.isAutoPrimaryKey && dv2.isAutoPrimaryKey then
      some (dv1.getLong = dv2.getLong)
    else if dv2.isDigital then some (dv1.getDouble = dv2.getDouble)
    else some false
  else if dv1.getDataType = .valNull then some false
  else none

/-- The virtual `GT`. -/
def GT (dv1 dv2 : IDataValue) : Option Bool :=
  if dv1.isDataValueDigit && checked && !dv2.isDigital then none
  else if dv1.getDataType = dv2.getDataType then dv1.sameGT dv2
  else if dv1.isDataValueDigit then
    if dv1.isNull then some false
    else if dv2.isNull then some true
    else if dv1.isAutoPrimaryKey && dv2.isAutoPrimaryKey then
      some (dv1.getLong > dv2.getLong)
    else if dv2.isDigital then some (dv1.getDouble > dv2.getDouble)
    else some false
  else if dv1.getDataType = .valNull then some false
  else none

/-- The virtual `LT`. Of one class it is the complement of its `operator>=`. -/
def LT (dv1 dv2 : IDataValue) : Option Bool :=
  if dv1.isDataValueDigit && checked && !dv2.isDigital then none
  else if dv1.getDataType = dv2.getDataType then (dv1.sameGE dv2).map not
  else if dv1.isDataValueDigit then
    if dv2.isNull then some false
    else if dv1.isNull then some true
    else if dv1.isAutoPrimaryKey && dv2.isAutoPrimaryKey then
      some (dv1.getLong < dv2.getLong)
    else if dv2.isDigital then some (dv1.getDouble < dv2.getDouble)
    else some false
  else if dv1.getDataType = .valNull then some (!dv2.isNull)
  else none

/-- The operator `==`. The array branch takes the answer of `BytesEqual` for an order, and both
of its tests look at the first value. -/
def operatorEq (dv1 dv2 : IDataValue) : Option Bool :=
  if dv1.getDataType = dv2.getDataType then EQ checked dv1 dv2
  else if dv1.isAutoPrimaryKey && dv2.isAutoPrimaryKey then some (dv1.getLong = dv2.getLong)
  else if dv1.isDigital && dv2.isDigital then some (dv1.getDouble = dv2.getDouble)
  else if dv1.isArrayType && dv1.isArrayType then
    some ((bytesEqual dv1.getBuff dv2.getBuff).toNat = 0)
  else some false

def operatorGt (dv1 dv2 : IDataValue) : Option Bool :=
  if dv1.getDataType = dv2.getDataType then GT checked dv1 dv2
  else if dv1.isAutoPrimaryKey && dv2.isAutoPrimaryKey then some (dv1.getLong > dv2.getLong)
  else if dv1.isDigital && dv2.isDigital then some (dv1.getDouble > dv2.getDouble)
  else if dv1.isArrayType && dv1.isArrayType then
    some (bytesCompareInt dv1.getBuff dv2.getBuff > 0)
  else some (!dv1.isDigital)

def operatorGe (dv1 dv2 : IDataValue) : Option Bool :=
  if dv1.getDataType = dv2.getDataType then (LT checked dv1 dv2).map not
  else if dv1.isAutoPrimaryKey && dv2.isAutoPrimaryKey then some (dv1.getLong ≥ dv2.getLong)
  else if dv1.isDigital && dv2.isDigital then some (dv1.getDouble ≥ dv2.getDouble)
  else if dv1.isArrayType && dv1.isArrayType then
    some (bytesCompareInt dv1.getBuff dv2.getBuff ≥ 0)
  else some (!dv1.isDigital)

/-- The six operators; `!=`, `<` and `<=` are the complements of `==`, `>=` and `>`. -/
def operators : Comparison IDataValue :=
  .complete (operatorEq checked) (operatorGt checked) (operatorGe checked)

def dataValueEqual (ldv rdv : IDataValue) : Option Bool := (operators checked).eq ldv rdv

def dataValueCmp (ldv rdv : IDataValue) : Option Bool := (operators checked).lt ldv rdv

end IDataValue

end RapidDb
