import RapidDb.DataType.KeyColumn

/-!
# Value columns

The columns of the value part of a record may have any type. An integer is stored with its least
significant byte first, a text or a blob as its bytes, and NULL as nothing. Reading the stored
bytes back gives the value.
-/

namespace RapidDb

open Bytes

/-- The type of a value column. `DATETIME` is stored like `ULONG`; of `FLOAT` and `DOUBLE` only
the bits are stored and read. -/
inductive ValueColumn where
  | digit (type : DigitType)
  | bool
  | float
  | double
  | fixChar (maxLength : ℕ)
  | varChar (maxLength : ℕ)
  | blob (maxLength : ℕ)
deriving DecidableEq, Repr

/-- `DigitalFromBytes` for a value: the bytes in two's complement. -/
def DigitType.fromBytes (type : DigitType) (content : List Byte) : ℤ :=
  let val := readLE type.size content
  if type.signed ∧ 2 ^ (8 * type.size - 1) ≤ val then val - 2 ^ (8 * type.size) else val

namespace ValueColumn

/-- `IsFixLength` and `GetMaxLength` of a column. -/
def columnType : ValueColumn → ColumnType
  | digit type => ⟨true, type.size⟩
  | bool => ⟨true, 1⟩
  | float => ⟨true, 4⟩
  | double => ⟨true, 8⟩
  | fixChar maxLength => ⟨true, maxLength⟩
  | varChar maxLength | blob maxLength => ⟨false, maxLength⟩

/-- The values of a column that are not null. -/
def Value : ValueColumn → Type
  | digit type => type.Value
  | bool => Bool
  | float => Fin (256 ^ 4)
  | double => Fin (256 ^ 8)
  | fixChar maxLength => {bysValue : List Byte // bysValue.length = maxLength}
  | varChar maxLength | blob maxLength => {bysValue : List Byte // bysValue.length ≤ maxLength}

/-- The lengths are of type `uint32_t`, and `AddColumn` takes a text column only with one. -/
def Sized : ValueColumn → Prop
  | digit _ | bool | float | double => True
  | fixChar maxLength | varChar maxLength | blob maxLength => 0 < maxLength ∧ maxLength < 2 ^ 32

/-- `WriteData` of a value that is not null, for a value. -/
def writeData : (column : ValueColumn) → column.Value → List Byte
  | digit type, value => type.toBytes value.val false
  | bool, value => writeLE 1 (Bool.toNat value)
  | float, value => writeLE 4 value.val
  | double, value => writeLE 8 value.val
  | fixChar _, value => value.val
  | varChar _, value => value.val
  | blob _, value => value.val

/-- `ReadData` of bytes of a value, none if they are not the bytes of one. -/
def readData : (column : ValueColumn) → List Byte → Option column.Value
  | digit type, content =>
      let value := type.fromBytes content
      if inside : type.minValue ≤ value ∧ value ≤ type.maxValue then some ⟨value, inside⟩ else none
  | bool, content => some (decide (readLE 1 content ≠ 0))
  | float, content => some ⟨readLE 4 content, readLE_lt 4 content⟩
  | double, content => some ⟨readLE 8 content, readLE_lt 8 content⟩
  | fixChar maxLength, content =>
      if whole : content.length = maxLength then some ⟨content, whole⟩ else none
  | varChar maxLength, content =>
      if fits : content.length ≤ maxLength then some ⟨content, fits⟩ else none
  | blob maxLength, content =>
      if fits : content.length ≤ maxLength then some ⟨content, fits⟩ else none

theorem fromBytes_toBytes {type : DigitType} (value : type.Value) :
    type.fromBytes (type.toBytes value.val false) = value.val := by
  obtain ⟨value, lower, upper⟩ := value
  simp only [DigitType.fromBytes, DigitType.toBytes, Bool.false_eq_true, if_false, readLE_writeLE]
  cases type <;>
    simp only [DigitType.minValue, DigitType.maxValue, DigitType.toBits, DigitType.size,
      DigitType.signed, Bool.false_eq_true, false_and, true_and, if_false] at lower upper ⊢ <;>
    (try split) <;> omega

theorem readData_writeData (column : ValueColumn) (value : column.Value) :
    column.readData (column.writeData value) = some value := by
  cases column with
  | digit type =>
      have same := fromBytes_toBytes value
      exact (dif_pos (same.symm ▸ value.property)).trans (congrArg some (Subtype.ext same))
  | bool =>
      change some (decide (readLE 1 (writeLE 1 (Bool.toNat value)) ≠ 0)) = some value
      rw [readLE_writeLE]
      cases value <;> rfl
  | float =>
      apply congrArg some
      apply Fin.ext
      exact (readLE_writeLE 4 value.val).trans (Nat.mod_eq_of_lt value.isLt)
  | double =>
      apply congrArg some
      apply Fin.ext
      exact (readLE_writeLE 8 value.val).trans (Nat.mod_eq_of_lt value.isLt)
  | fixChar maxLength => exact dif_pos value.property
  | varChar maxLength => exact dif_pos value.property
  | blob maxLength => exact dif_pos value.property

theorem length_writeData {column : ValueColumn} (sized : column.Sized) (value : column.Value) :
    if column.columnType.isFixLength then
      (column.writeData value).length = column.columnType.maxLength ∧
        0 < (column.writeData value).length
    else
      (column.writeData value).length < 2 ^ 32 := by
  cases column with
  | digit type =>
      have length : (type.toBytes value.val false).length = type.size :=
        DigitType.length_toBytes value.val false
      exact ⟨length, lt_of_lt_of_eq type.size_pos length.symm⟩
  | bool => exact ⟨rfl, Nat.one_pos⟩
  | float => exact ⟨length_writeLE 4 _, by simp [writeData]⟩
  | double => exact ⟨length_writeLE 8 _, by simp [writeData]⟩
  | fixChar maxLength => exact ⟨value.property, lt_of_lt_of_eq sized.1 value.property.symm⟩
  | varChar maxLength => exact lt_of_le_of_lt value.property sized.2
  | blob maxLength => exact lt_of_le_of_lt value.property sized.2

theorem maxLength_lt {column : ValueColumn} (sized : column.Sized) :
    column.columnType.maxLength < 2 ^ 32 := by
  cases column with
  | digit type => cases type <;> decide
  | bool | float | double => decide
  | fixChar maxLength | varChar maxLength | blob maxLength => exact sized.2

end ValueColumn

end RapidDb
