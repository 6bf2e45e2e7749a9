import RapidDb.DataType.DataValue
import RapidDb.DataType.FloatKey
import RapidDb.DataType.ValueColumn
import RapidDb.Library.Buffer

/-!
# The lengths of stored values

`GetPersistenceLength` announces how many bytes `WriteData` stores of a value in a key or in the
value part of a record. The other `WriteData` puts a tag in front of the value, and for a class of
variable length the length, and returns how many bytes it has taken. The next value starts there.

A text of fixed length returns four bytes less than it has written, and a variable text that is
longer than its column is announced with the length of the column.
-/

namespace RapidDb

open Bytes

inductive ValueType where
  | nullValue
  | soleValue
  | bytesValue
deriving DecidableEq, Repr

/-- The parts of `DataValueVarChar` and `DataValueBlob`. In `bysValue` are the bytes that can be
read at the pointer. -/
structure VarLenValue where
  valType : ValueType
  maxLength : ℕ
  soleLength : ℕ
  bysValue : List Byte
  holds : valType ≠ .nullValue → soleLength ≤ bysValue.length
  soleLength_lt : soleLength < 256 ^ 4

/-- The parts of `DataValueFixChar`. -/
structure FixLenValue where
  valType : ValueType
  maxLength : ℕ
  bysValue : List Byte
  holds : valType ≠ .nullValue → maxLength ≤ bysValue.length
  maxLength_lt : maxLength < 256 ^ 4

theorem readLE_four_lt (buffer : List Byte) : readLE 4 buffer < 256 ^ 4 :=
  readLE_lt 4 buffer

theorem readLE_eight_lt (buffer : List Byte) : readLE 8 buffer < 256 ^ 8 :=
  readLE_lt 8 buffer

namespace VarLenValue

/-- The bytes of a value that is not NULL. -/
def content (dv : VarLenValue) : List Byte :=
  dv.bysValue.take dv.soleLength

def value (dv : VarLenValue) : Option (List Byte) :=
  if dv.valType = .nullValue then none else some dv.content

theorem length_content {dv : VarLenValue} (notNull : dv.valType ≠ .nullValue) :
    dv.content.length = dv.soleLength :=
  List.length_take_of_le (dv.holds notNull)

end VarLenValue

namespace FixLenValue

def content (dv : FixLenValue) : List Byte :=
  dv.bysValue.take dv.maxLength

def value (dv : FixLenValue) : Option (List Byte) :=
  if dv.valType = .nullValue then none else some dv.content

theorem length_content {dv : FixLenValue} (notNull : dv.valType ≠ .nullValue) :
    dv.content.length = dv.maxLength :=
  List.length_take_of_le (dv.holds notNull)

end FixLenValue

/-- The values of all classes; floating point numbers are given by their bits. -/
inductive TypedValue where
  | digit (type : DigitType) (value : Option type.Value)
  | float (value : Option (Fin (256 ^ 4)))
  | double (value : Option (Fin (256 ^ 8)))
  | bool (value : Option Bool)
  | dateTime (value : Option DigitType.ulong.Value)
  | fixChar (dv : FixLenValue)
  | varChar (dv : VarLenValue)
  | blob (dv : VarLenValue)
  | valNull

def VALUE_TYPE : ℕ := 0x80

def DATE_TYPE : ℕ := 0x7F

namespace TypedValue

def getDataType : TypedValue → DataType
  | digit type _ => type.dataType
  | float _ => .float
  | double _ => .double
  | bool _ => .bool
  | dateTime _ => .dateTime
  | fixChar _ => .fixChar
  | varChar _ => .varChar
  | blob _ => .blob
  | valNull => .valNull

def isNull : TypedValue → Bool
  | digit _ value => value.isNone
  | float value => value.isNone
  | double value => value.isNone
  | bool value => value.isNone
  | dateTime value => value.isNone
  | fixChar dv => dv.valType = .nullValue
  | varChar dv | blob dv => dv.valType = .nullValue
  | valNull => true

/-- `sizeof(T)` of the classes that are made from `DataValueDigit`. -/
def size : TypedValue → ℕ
  | digit type _ => type.size
  | float _ => 4
  | double _ => 8
  | bool _ => 1
  | dateTime _ => 8
  | _ => 0

/-- `DigitalToBytes` of the value, or of 0 for NULL. -/
def digitalToBytes (bkey : Bool) : TypedValue → List Byte
  | digit type value => type.toBytes ((value.map Subtype.val).getD 0) bkey
  | float value => realToBytes 4 0x80000000 0x807fffff ((value.map Fin.val).getD 0) bkey
  | double value =>
      realToBytes 8 0x8000000000000000 0x800fffffffffffff ((value.map Fin.val).getD 0) bkey
  | bool value => writeLE 1 (value.getD false).toNat
  | dateTime value => DigitType.ulong.toBytes ((value.map Subtype.val).getD 0) bkey
  | _ => []

/-- `GetPersistenceLength`. -/
def persistenceLength (svPos : SavePosition) : TypedValue → ℕ
  | fixChar dv =>
      match svPos with
      | .key => dv.maxLength
      | .value => if dv.valType = .nullValue then 0 else dv.maxLength
  | varChar dv =>
      match svPos with
      | .key =>
          if dv.valType = .nullValue then 1
          else if dv.soleLength < dv.maxLength then dv.soleLength + 1
          else dv.maxLength
      | .value => if dv.valType = .nullValue then 0 else dv.soleLength
  | blob dv => if dv.valType = .nullValue then 0 else dv.soleLength
  | valNull => 0
  | dv =>
      match svPos with
      | .key => dv.size
      | .value => if dv.isNull then 0 else dv.size

/-- `WriteData` in a key or a value: the bytes that are written, and the length that is returned.
A blob in a key stops at an assertion when these are compiled in. -/
def writeData (checked : Bool) (svPos : SavePosition) : TypedValue → Option (List Byte × ℕ)
  | fixChar dv =>
      match svPos with
      | .key =>
          if dv.valType = .nullValue then some (List.replicate dv.maxLength 32, dv.maxLength)
          else some (dv.content, dv.maxLength)
      | .value =>
          if dv.valType = .nullValue then some ([], 0) else some (dv.content, dv.maxLength)
  | varChar dv =>
      match svPos with
      | .key =>
          if dv.valType = .nullValue then some ([0], 1)
          else if dv.soleLength < dv.maxLength then some (dv.content ++ [0], dv.soleLength + 1)
          else some (dv.content, dv.maxLength)
      | .value =>
          if dv.valType = .nullValue then some ([], 0) else some (dv.content, dv.soleLength)
  | blob dv =>
      if checked && svPos = .key then none
      else if dv.valType = .nullValue then some ([], 0)
      else some (dv.content, dv.soleLength)
  | valNull => some ([], 0)
  | dv =>
      match svPos with
      | .key => some (dv.digitalToBytes true, dv.size)
      | .value => if dv.isNull then some ([], 0) else some (dv.digitalToBytes false, dv.size)

def tag (type : DataType) (isNull : Bool) : Byte :=
  Fin.ofNat 256 (if isNull then type.code % 256 &&& DATE_TYPE
    else VALUE_TYPE ||| (type.code % 256 &&& DATE_TYPE))

/-- `WriteData` with a tag: the bytes that are written, and the length that is returned. -/
def writeTagged : TypedValue → List Byte × ℕ
  | fixChar dv =>
      if dv.valType = .nullValue then ([tag .fixChar true], 1)
      else (tag .fixChar false :: writeLE 4 dv.maxLength ++ dv.content, dv.maxLength + 1)
  | varChar dv =>
      if dv.valType = .nullValue then ([tag .varChar true], 1)
      else (tag .varChar false :: writeLE 4 dv.soleLength ++ dv.content, dv.soleLength + 4 + 1)
  | blob dv =>
      if dv.valType = .nullValue then ([tag .blob true], 1)
      else (tag .blob false :: writeLE 4 dv.soleLength ++ dv.content, dv.soleLength + 4 + 1)
  | valNull => ([], 0)
  | dv =>
      if dv.isNull then ([tag dv.getDataType true], 1)
      else (tag dv.getDataType false :: dv.digitalToBytes false, dv.size + 1)

/-- `DigitalFromBytes` into an object of a class that is made from `DataValueDigit`. -/
def digitalFromBytes (buffer : List Byte) : TypedValue → TypedValue
  | digit type _ =>
      let value := type.fromBytes buffer
      digit type (if inside : type.minValue ≤ value ∧ value ≤ type.maxValue then
        some ⟨value, inside⟩ else none)
  | float _ => float (some ⟨readLE 4 buffer, readLE_four_lt buffer⟩)
  | double _ => double (some ⟨readLE 8 buffer, readLE_eight_lt buffer⟩)
  | bool _ => bool (some (readLE 1 buffer ≠ 0))
  | dateTime _ =>
      let value := DigitType.ulong.fromBytes buffer
      dateTime (if inside : DigitType.ulong.minValue ≤ value ∧ value ≤ DigitType.ulong.maxValue then
        some ⟨value, inside⟩ else none)
  | dv => dv

end TypedValue

namespace VarLenValue

def null (maxLength : ℕ) : VarLenValue where
  valType := .nullValue
  maxLength := maxLength
  soleLength := 0
  bysValue := []
  holds := fun notNull => absurd rfl notNull
  soleLength_lt := by decide

/-- The length in front of the bytes says how many of them are read. -/
def fromBytes (maxLength : ℕ) (buffer : List Byte) : VarLenValue where
  valType := .soleValue
  maxLength := maxLength
  soleLength := readLE 4 buffer
  bysValue := (padTo (readLE 4 buffer) (buffer.drop 4)).take (readLE 4 buffer)
  holds := by
    intro _
    simp only [padTo, List.length_take, List.length_append, List.length_replicate]
    omega
  soleLength_lt := readLE_four_lt buffer

end VarLenValue

namespace FixLenValue

def null (dv : FixLenValue) : FixLenValue where
  valType := .nullValue
  maxLength := dv.maxLength
  bysValue := []
  holds := fun notNull => absurd rfl notNull
  maxLength_lt := dv.maxLength_lt

/-- The stored length becomes that of the object. -/
def fromBytes (buffer : List Byte) : FixLenValue where
  valType := .soleValue
  maxLength := readLE 4 buffer
  bysValue := (padTo (readLE 4 buffer) (buffer.drop 4)).take (readLE 4 buffer)
  holds := by
    intro _
    simp only [padTo, List.length_take, List.length_append, List.length_replicate]
    omega
  maxLength_lt := readLE_four_lt buffer

end FixLenValue

namespace TypedValue

/-- Whether the tag says that a value follows. -/
def hasValue (buffer : List Byte) : Bool :=
  readLE 1 buffer &&& VALUE_TYPE ≠ 0

/-- `ReadData` of a tagged value into an object: the object afterwards, and the length that is
returned; none for a text or a blob of no byte, for which `CachePool::Apply(0)` crashes. -/
def readTagged (buffer : List Byte) : TypedValue → Option (TypedValue × ℕ)
  | fixChar dv =>
      if hasValue buffer then
        let dv := FixLenValue.fromBytes (buffer.drop 1)
        if dv.maxLength = 0 then none else some (fixChar dv, dv.maxLength + 1)
      else some (fixChar dv.null, 1)
  | varChar dv =>
      if hasValue buffer then
        let dv := VarLenValue.fromBytes dv.maxLength (buffer.drop 1)
        if dv.soleLength = 0 then none else some (varChar dv, dv.soleLength + 4 + 1)
      else some (varChar (VarLenValue.null dv.maxLength), 1)
  | blob dv =>
      if hasValue buffer then
        let dv := VarLenValue.fromBytes dv.maxLength (buffer.drop 1)
        if dv.soleLength = 0 then none else some (blob dv, dv.soleLength + 4 + 1)
      else some (blob (VarLenValue.null dv.maxLength), 1)
  | valNull => some (valNull, 0)
  | digit type value =>
      some (if hasValue buffer then
        ((digit type value).digitalFromBytes (buffer.drop 1), type.size + 1)
      else (digit type none, 1))
  | float value =>
      some (if hasValue buffer then ((float value).digitalFromBytes (buffer.drop 1), 4 + 1)
      else (float none, 1))
  | double value =>
      some (if hasValue buffer then ((double value).digitalFromBytes (buffer.drop 1), 8 + 1)
      else (double none, 1))
  | bool value =>
      some (if hasValue buffer then ((bool value).digitalFromBytes (buffer.drop 1), 1 + 1)
      else (bool none, 1))
  | dateTime value =>
      some (if hasValue buffer then ((dateTime value).digitalFromBytes (buffer.drop 1), 8 + 1)
      else (dateTime none, 1))

def SameClass : TypedValue → TypedValue → Prop
  | digit type1 _, digit type2 _ => type1 = type2
  | float _, float _ => True
  | double _, double _ => True
  | bool _, bool _ => True
  | dateTime _, dateTime _ => True
  | fixChar _, fixChar _ => True
  | varChar _, varChar _ => True
  | blob _, blob _ => True
  | valNull, valNull => True
  | _, _ => False

/-- The values of two objects of one class are the same. -/
def SameValue : TypedValue → TypedValue → Prop
  | fixChar dv1, fixChar dv2 => dv1.value = dv2.value
  | varChar dv1, varChar dv2 => dv1.value = dv2.value
  | blob dv1, blob dv2 => dv1.value = dv2.value
  | dv1, dv2 => dv1 = dv2

/-- Values written one after another, each where the length returned for the one before ends. -/
def writeAll : List TypedValue → ℕ → List Byte → List Byte × List ℕ
  | [], _, buffer => (buffer, [])
  | dv :: values, pos, buffer =>
      let (bytes, length) := dv.writeTagged
      let (buffer, lengths) := writeAll values (pos + length) (overwrite pos bytes buffer)
      (buffer, length :: lengths)

def readAll : List TypedValue → ℕ → List Byte → Option (List TypedValue × List ℕ)
  | [], _, _ => some ([], [])
  | dv :: objects, pos, buffer =>
      (dv.readTagged (buffer.drop pos)).bind fun (dv, length) =>
        (readAll objects (pos + length) buffer).map fun (values, lengths) =>
          (dv :: values, length :: lengths)

/-!
## The lengths
-/

/-- `WriteData` writes as many bytes as are announced, and returns their number. -/
def LengthsRight (checked : Bool) (dv : TypedValue) : Prop :=
  ∀ svPos, ∃ bytes, dv.writeData checked svPos = some (bytes, dv.persistenceLength svPos) ∧
    bytes.length = dv.persistenceLength svPos

/-- The values whose lengths are announced as they are: a variable text is not longer than its
column, and no assertion keeps a blob out of a key. -/
def Announced (checked : Bool) : TypedValue → Prop
  | varChar dv => dv.valType = .nullValue ∨ dv.soleLength ≤ dv.maxLength
  | blob _ => checked = false
  | _ => True

theorem length_digitalToBytes (dv : TypedValue) (bkey : Bool) :
    (dv.digitalToBytes bkey).length = dv.size := by
  cases dv with
  | digit type value => exact DigitType.length_toBytes _ bkey
  | dateTime value => exact DigitType.length_toBytes _ bkey
  | float value | double value => exact length_realToBytes _ _ _ bkey
  | bool value => exact length_writeLE 1 _
  | fixChar dv | varChar dv | blob dv | valNull => rfl

theorem lengthsRight_of_digital {checked : Bool} {dv : TypedValue}
    (write : ∀ svPos, dv.writeData checked svPos =
      match svPos with
      | .key => some (dv.digitalToBytes true, dv.size)
      | .value => if dv.isNull then some ([], 0) else some (dv.digitalToBytes false, dv.size))
    (announce : ∀ svPos, dv.persistenceLength svPos =
      match svPos with
      | .key => dv.size
      | .value => if dv.isNull then 0 else dv.size) :
    dv.LengthsRight checked := by
  intro svPos
  rw [write, announce]
  cases svPos with
  | key => exact ⟨_, rfl, length_digitalToBytes dv true⟩
  | value =>
      dsimp only
      split
      · exact ⟨_, rfl, rfl⟩
      · exact ⟨_, rfl, length_digitalToBytes dv false⟩

theorem lengthsRight_fixChar (checked : Bool) (dv : FixLenValue) :
    (fixChar dv).LengthsRight checked := by
  intro svPos
  by_cases isNull : dv.valType = .nullValue
  · cases svPos <;> simp [writeData, persistenceLength, isNull]
  · cases svPos <;> simp [writeData, persistenceLength, isNull, FixLenValue.length_content isNull]

theorem lengthsRight_varChar_iff (checked : Bool) (dv : VarLenValue) :
    (varChar dv).LengthsRight checked ↔ (varChar dv).Announced checked := by
  by_cases isNull : dv.valType = .nullValue
  · refine iff_of_true ?_ (Or.inl isNull)
    intro svPos
    cases svPos <;> simp [writeData, persistenceLength, isNull]
  · have length := VarLenValue.length_content isNull
    constructor
    · intro right
      rcases right .key with ⟨bytes, write, lengthEq⟩
      by_cases short : dv.soleLength < dv.maxLength
      · exact Or.inr short.le
      · simp only [writeData, persistenceLength, isNull, short, if_false, Option.some.injEq,
          Prod.mk.injEq, and_true] at write lengthEq
        subst write
        exact Or.inr (by omega)
    · intro announced svPos
      have within : dv.soleLength ≤ dv.maxLength := announced.resolve_left isNull
      cases svPos with
      | key =>
          by_cases short : dv.soleLength < dv.maxLength
          · simp [writeData, persistenceLength, isNull, short, length]
          · simp [writeData, persistenceLength, isNull, short, length]
            omega
      | value => simp [writeData, persistenceLength, isNull, length]

theorem lengthsRight_blob_iff (checked : Bool) (dv : VarLenValue) :
    (blob dv).LengthsRight checked ↔ (blob dv).Announced checked := by
  cases checked with
  | true =>
      refine iff_of_false ?_ (by simp [Announced])
      intro right
      rcases right .key with ⟨bytes, write, -⟩
      cases write
  | false =>
      refine iff_of_true ?_ rfl
      intro svPos
      by_cases isNull : dv.valType = .nullValue
      · simp [writeData, persistenceLength, isNull]
      · simp [writeData, persistenceLength, isNull, VarLenValue.length_content isNull]

theorem lengthsRight_iff (checked : Bool) (dv : TypedValue) :
    dv.LengthsRight checked ↔ dv.Announced checked := by
  cases dv with
  | digit type value | float value | double value | bool value | dateTime value =>
      exact iff_of_true (lengthsRight_of_digital (fun _ => rfl) fun _ => rfl) trivial
  | fixChar dv => exact iff_of_true (lengthsRight_fixChar checked dv) trivial
  | varChar dv => exact lengthsRight_varChar_iff checked dv
  | blob dv => exact lengthsRight_blob_iff checked dv
  | valNull => exact iff_of_true (fun _ => ⟨[], rfl, rfl⟩) trivial

/-!
## Tagged values
-/

/-- The values whose tagged form is as long as the length that is returned. -/
def CountsAll : TypedValue → Prop
  | fixChar dv => dv.valType = .nullValue
  | _ => True

theorem length_writeTagged_iff (dv : TypedValue) :
    dv.writeTagged.1.length = dv.writeTagged.2 ↔ dv.CountsAll := by
  cases dv with
  | digit type value | float value | double value | bool value | dateTime value =>
      refine iff_of_true ?_ trivial
      simp only [writeTagged]
      split
      · rfl
      · simp [length_digitalToBytes]
  | fixChar dv =>
      by_cases isNull : dv.valType = .nullValue
      · simp [writeTagged, CountsAll, isNull]
      · simp [writeTagged, CountsAll, isNull, FixLenValue.length_content isNull]
  | varChar dv | blob dv =>
      refine iff_of_true ?_ trivial
      by_cases isNull : dv.valType = .nullValue
      · simp [writeTagged, isNull]
      · simp [writeTagged, isNull, VarLenValue.length_content isNull]
        omega
  | valNull => exact iff_of_true rfl trivial

theorem tag_and_VALUE_TYPE (type : DataType) (isNull : Bool) :
    decide ((tag type isNull).val &&& VALUE_TYPE ≠ 0) = !isNull := by
  cases type <;> cases isNull <;> decide

theorem hasValue_tag (type : DataType) (isNull : Bool) (rest : List Byte) :
    hasValue (tag type isNull :: rest) = !isNull := by
  unfold hasValue
  simp only [readLE, Nat.mul_zero, Nat.add_zero]
  exact tag_and_VALUE_TYPE type isNull

theorem take_padTo {length : ℕ} {content : List Byte} (lengthEq : content.length = length)
    (lengthLt : length < 256 ^ 4) (rest : List Byte) :
    readLE 4 (writeLE 4 length ++ (content ++ rest)) = length ∧
      (padTo length ((writeLE 4 length ++ (content ++ rest)).drop 4)).take length = content := by
  refine ⟨?_, ?_⟩
  · rw [readLE_writeLE_append]
    exact Nat.mod_eq_of_lt lengthLt
  · rw [padTo, List.drop_left' (length_writeLE 4 _), List.append_assoc, List.take_left' lengthEq]

theorem content_fromBytes (maxLength : ℕ) (buffer : List Byte) :
    (VarLenValue.fromBytes maxLength buffer).content =
      (padTo (readLE 4 buffer) (buffer.drop 4)).take (readLE 4 buffer) := by
  simp [VarLenValue.content, VarLenValue.fromBytes]

theorem content_fixFromBytes (buffer : List Byte) :
    (FixLenValue.fromBytes buffer).content =
      (padTo (readLE 4 buffer) (buffer.drop 4)).take (readLE 4 buffer) := by
  simp [FixLenValue.content, FixLenValue.fromBytes]

theorem value_fromBytes {dv : VarLenValue} (notNull : dv.valType ≠ .nullValue) (maxLength : ℕ)
    (rest : List Byte) :
    (VarLenValue.fromBytes maxLength (writeLE 4 dv.soleLength ++ (dv.content ++ rest))).soleLength =
        dv.soleLength ∧
      dv.value = (VarLenValue.fromBytes maxLength
        (writeLE 4 dv.soleLength ++ (dv.content ++ rest))).value := by
  rcases take_padTo (VarLenValue.length_content notNull) dv.soleLength_lt rest with
    ⟨stored, content⟩
  refine ⟨stored, ?_⟩
  rw [VarLenValue.value, if_neg notNull, VarLenValue.value,
    if_neg (by simp [VarLenValue.fromBytes]), content_fromBytes, stored, content]

theorem value_fixFromBytes {dv : FixLenValue} (notNull : dv.valType ≠ .nullValue)
    (rest : List Byte) :
    (FixLenValue.fromBytes (writeLE 4 dv.maxLength ++ (dv.content ++ rest))).maxLength =
        dv.maxLength ∧
      dv.value =
        (FixLenValue.fromBytes (writeLE 4 dv.maxLength ++ (dv.content ++ rest))).value := by
  rcases take_padTo (FixLenValue.length_content notNull) dv.maxLength_lt rest with
    ⟨stored, content⟩
  refine ⟨stored, ?_⟩
  rw [FixLenValue.value, if_neg notNull, FixLenValue.value,
    if_neg (by simp [FixLenValue.fromBytes]), content_fixFromBytes, stored, content]

theorem readLE_append_of_length {width : ℕ} {content : List Byte} (length : content.length = width)
    (rest : List Byte) : readLE width (content ++ rest) = readLE width content := by
  rw [← readLE_take_of_le le_rfl, List.take_left' length]

theorem fromBytes_append {type : DigitType} (value : type.Value) (rest : List Byte) :
    type.fromBytes (type.toBytes value.val false ++ rest) = value.val := by
  have length : (type.toBytes value.val false).length = type.size :=
    DigitType.length_toBytes value.val false
  have same := readLE_append_of_length length rest
  refine Eq.trans ?_ (ValueColumn.fromBytes_toBytes value)
  simp only [DigitType.fromBytes, same]

/-- A text or a blob that is not NULL has a byte. -/
def Readable : TypedValue → Prop
  | fixChar dv => dv.valType = .nullValue ∨ dv.maxLength ≠ 0
  | varChar dv | blob dv => dv.valType = .nullValue ∨ dv.soleLength ≠ 0
  | _ => True

theorem readTagged_of_not_readable {dv object : TypedValue} (sameClass : dv.SameClass object)
    (empty : ¬dv.Readable) (rest : List Byte) :
    object.readTagged (dv.writeTagged.1 ++ rest) = none := by
  cases dv with
  | fixChar dv =>
      obtain ⟨notNull, length⟩ := not_or.mp empty
      cases object with
      | fixChar object =>
          have stored := (value_fixFromBytes notNull rest).1.trans (not_not.mp length)
          simp [readTagged, writeTagged, notNull, hasValue_tag, stored]
      | _ => exact sameClass.elim
  | varChar dv =>
      obtain ⟨notNull, length⟩ := not_or.mp empty
      cases object with
      | varChar object =>
          have stored := (value_fromBytes notNull object.maxLength rest).1.trans (not_not.mp length)
          simp [readTagged, writeTagged, notNull, hasValue_tag, stored]
      | _ => exact sameClass.elim
  | blob dv =>
      obtain ⟨notNull, length⟩ := not_or.mp empty
      cases object with
      | blob object =>
          have stored := (value_fromBytes notNull object.maxLength rest).1.trans (not_not.mp length)
          simp [readTagged, writeTagged, notNull, hasValue_tag, stored]
      | _ => exact sameClass.elim
  | _ => exact absurd trivial empty

/-- A value is read back by any object of its class, whatever follows, and the reader returns the
length that the writer has returned. -/
theorem readTagged_writeTagged {dv object : TypedValue} (sameClass : dv.SameClass object)
    (readable : dv.Readable) (rest : List Byte) :
    ∃ object', object.readTagged (dv.writeTagged.1 ++ rest) = some (object', dv.writeTagged.2) ∧
      dv.SameValue object' := by
  cases dv with
  | digit type value =>
      cases object with
      | digit type' value' =>
          cases sameClass
          cases value with
          | none => simp [readTagged, writeTagged, isNull, hasValue_tag, SameValue]
          | some value =>
              have inside := value.property
              simp [readTagged, writeTagged, isNull, hasValue_tag, SameValue, digitalFromBytes,
                digitalToBytes, fromBytes_append, size]
              exact inside
      | _ => exact sameClass.elim
  | float value =>
      cases object with
      | float value' =>
          cases value with
          | none => simp [readTagged, writeTagged, isNull, hasValue_tag, SameValue]
          | some value =>
              simp [readTagged, writeTagged, isNull, hasValue_tag, SameValue, digitalFromBytes,
                digitalToBytes, realToBytes, readLE_writeLE_append, size]
              exact Fin.ext (Nat.mod_eq_of_lt value.isLt).symm
      | _ => exact sameClass.elim
  | double value =>
      cases object with
      | double value' =>
          cases value with
          | none => simp [readTagged, writeTagged, isNull, hasValue_tag, SameValue]
          | some value =>
              simp [readTagged, writeTagged, isNull, hasValue_tag, SameValue, digitalFromBytes,
                digitalToBytes, realToBytes, readLE_writeLE_append, size]
              exact Fin.ext (Nat.mod_eq_of_lt value.isLt).symm
      | _ => exact sameClass.elim
  | bool value =>
      cases object with
      | bool value' =>
          rcases value with _ | _ | _ <;>
            simp [readTagged, writeTagged, isNull, hasValue_tag, SameValue, digitalFromBytes,
              digitalToBytes, readLE_writeLE_append, size]
      | _ => exact sameClass.elim
  | dateTime value =>
      cases object with
      | dateTime value' =>
          cases value with
          | none => simp [readTagged, writeTagged, isNull, hasValue_tag, SameValue]
          | some value =>
              have inside := value.property
              simp [readTagged, writeTagged, isNull, hasValue_tag, SameValue, digitalFromBytes,
                digitalToBytes, fromBytes_append, size]
              exact inside
      | _ => exact sameClass.elim
  | fixChar dv =>
      cases object with
      | fixChar object =>
          by_cases isNull : dv.valType = .nullValue
          · simp [readTagged, writeTagged, isNull, hasValue_tag, SameValue, FixLenValue.value,
              FixLenValue.null]
          · rcases value_fixFromBytes isNull rest with ⟨length, value⟩
            simp [readTagged, writeTagged, isNull, hasValue_tag, SameValue, length, value,
              readable.resolve_left isNull]
      | _ => exact sameClass.elim
  | varChar dv =>
      cases object with
      | varChar object =>
          by_cases isNull : dv.valType = .nullValue
          · simp [readTagged, writeTagged, isNull, hasValue_tag, SameValue, VarLenValue.value,
              VarLenValue.null]
          · rcases value_fromBytes isNull object.maxLength rest with ⟨length, value⟩
            simp [readTagged, writeTagged, isNull, hasValue_tag, SameValue, length, value,
              readable.resolve_left isNull]
      | _ => exact sameClass.elim
  | blob dv =>
      cases object with
      | blob object =>
          by_cases isNull : dv.valType = .nullValue
          · simp [readTagged, writeTagged, isNull, hasValue_tag, SameValue, VarLenValue.value,
              VarLenValue.null]
          · rcases value_fromBytes isNull object.maxLength rest with ⟨length, value⟩
            simp [readTagged, writeTagged, isNull, hasValue_tag, SameValue, length, value,
              readable.resolve_left isNull]
      | _ => exact sameClass.elim
  | valNull =>
      cases object with
      | valNull => exact ⟨valNull, rfl, rfl⟩
      | _ => exact sameClass.elim

/-!
## Sequences
-/

theorem writeAll_lengths (values : List TypedValue) (pos : ℕ) (buffer : List Byte) :
    (writeAll values pos buffer).2 = values.map fun dv => dv.writeTagged.2 := by
  induction values generalizing pos buffer with
  | nil => rfl
  | cons dv values ih => exact congrArg (_ :: ·) (ih _ _)

theorem writeAll_eq {values : List TypedValue}
    (counted : ∀ dv ∈ values, dv.writeTagged.1.length = dv.writeTagged.2) {pos : ℕ}
    {buffer : List Byte}
    (room : pos + (values.flatMap fun dv => dv.writeTagged.1).length ≤ buffer.length) :
    (writeAll values pos buffer).1 =
      overwrite pos (values.flatMap fun dv => dv.writeTagged.1) buffer := by
  induction values generalizing pos buffer with
  | nil => simp [writeAll, overwrite]
  | cons dv values ih =>
      have length := counted dv List.mem_cons_self
      rw [List.flatMap_cons, List.length_append] at room
      have fits : pos + dv.writeTagged.1.length ≤ buffer.length := by omega
      have front : (buffer.take pos ++ dv.writeTagged.1).length =
          pos + dv.writeTagged.1.length := by
        rw [List.length_append, List.length_take_of_le (by omega)]
      simp only [writeAll]
      rw [ih (fun other mem => counted other (List.mem_cons_of_mem _ mem)), ← length]
      · simp only [overwrite, List.flatMap_cons]
        rw [← List.append_assoc (buffer.take pos), List.take_left' front, List.drop_append, front,
          List.drop_eq_nil_of_le (by rw [front]; omega), List.drop_drop]
        simp only [List.append_assoc, List.nil_append, List.length_append]
        congr 4
        omega
      · rw [← length, length_overwrite fits]
        omega

/-- The values are read back if each of them is readable, and the reader gets no further than
the first that is not. -/
theorem readAll_iff {values objects : List TypedValue}
    (counted : ∀ dv ∈ values, dv.writeTagged.1.length = dv.writeTagged.2)
    (sameClass : List.Forall₂ SameClass values objects) {front rest : List Byte} :
    (∃ objects', readAll objects front.length
        (front ++ ((values.flatMap fun dv => dv.writeTagged.1) ++ rest)) =
          some (objects', values.map fun dv => dv.writeTagged.2) ∧
        List.Forall₂ SameValue values objects') ↔
      ∀ dv ∈ values, dv.Readable := by
  induction sameClass generalizing front with
  | nil => exact iff_of_true ⟨[], rfl, List.Forall₂.nil⟩ (fun _ mem => absurd mem List.not_mem_nil)
  | @cons dv object values objects same sameRest ih =>
      have length := counted dv List.mem_cons_self
      have tail := @ih (fun other mem => counted other (List.mem_cons_of_mem _ mem))
        (front ++ dv.writeTagged.1)
      rw [List.length_append, length] at tail
      rw [List.forall_mem_cons]
      by_cases readable : dv.Readable
      · rcases readTagged_writeTagged same readable
          ((values.flatMap fun dv => dv.writeTagged.1) ++ rest) with ⟨object', read, value⟩
        simp only [List.append_assoc] at tail
        rw [← tail]
        simp only [readAll, List.flatMap_cons, List.append_assoc, List.drop_left, read,
          Option.bind_some, Option.map_eq_some_iff, List.map_cons]
        constructor
        · rintro ⟨_, ⟨⟨objects', lengths⟩, readRest, both⟩, values'⟩
          cases both
          cases values' with
          | cons _ valuesRest => exact ⟨readable, objects', readRest, valuesRest⟩
        · rintro ⟨-, objects', readRest, valuesRest⟩
          exact ⟨_, ⟨_, readRest, rfl⟩, List.Forall₂.cons value valuesRest⟩
      · refine iff_of_false ?_ fun all => readable all.1
        rintro ⟨objects', read, -⟩
        simp [readAll, readTagged_of_not_readable same readable] at read

/-- Values that are written one after another with their tags into a buffer with room are read
back, and every length that is returned is the number of bytes written. -/
def SequenceRight (values : List TypedValue) : Prop :=
  ∀ objects buffer, List.Forall₂ SameClass values objects →
    (values.flatMap fun dv => dv.writeTagged.1).length ≤ buffer.length →
      (writeAll values 0 buffer).2 = values.map (fun dv => dv.writeTagged.1.length) ∧
        ∃ objects', readAll objects 0 (writeAll values 0 buffer).1 =
            some (objects', values.map fun dv => dv.writeTagged.1.length) ∧
          List.Forall₂ SameValue values objects'

theorem sameClass_refl (dv : TypedValue) : dv.SameClass dv := by
  cases dv <;> trivial

theorem sequenceRight_iff (values : List TypedValue) :
    SequenceRight values ↔ ∀ dv ∈ values, dv.CountsAll ∧ dv.Readable := by
  -- once every value is counted, the bytes and the lengths are those of `readAll_iff`
  have reads (counted : ∀ dv ∈ values, dv.writeTagged.1.length = dv.writeTagged.2)
      {objects : List TypedValue} {buffer : List Byte}
      (sameClass : List.Forall₂ SameClass values objects)
      (room : (values.flatMap fun dv => dv.writeTagged.1).length ≤ buffer.length) :
      (∃ objects', readAll objects 0 (writeAll values 0 buffer).1 =
          some (objects', values.map fun dv => dv.writeTagged.1.length) ∧
        List.Forall₂ SameValue values objects') ↔ ∀ dv ∈ values, dv.Readable := by
    have lengths : values.map (fun dv => dv.writeTagged.1.length) =
        values.map fun dv => dv.writeTagged.2 := List.map_inj_left.mpr counted
    rw [writeAll_eq counted (by omega), lengths]
    exact @readAll_iff values objects counted sameClass [] (buffer.drop
      (0 + (values.flatMap fun dv => dv.writeTagged.1).length))
  constructor
  · intro right
    have same := List.forall₂_same.mpr fun dv (_ : dv ∈ values) => sameClass_refl dv
    rcases right values (List.replicate (values.flatMap fun dv => dv.writeTagged.1).length 0)
      same (by simp) with ⟨lengths, read⟩
    rw [writeAll_lengths] at lengths
    have counted : ∀ dv ∈ values, dv.writeTagged.1.length = dv.writeTagged.2 :=
      fun dv mem => (List.map_inj_left.mp lengths dv mem).symm
    intro dv mem
    exact ⟨(length_writeTagged_iff dv).mp (counted dv mem), (reads counted same (by simp)).mp read
      dv mem⟩
  · intro right objects buffer sameClass room
    have counted : ∀ dv ∈ values, dv.writeTagged.1.length = dv.writeTagged.2 :=
      fun dv mem => (length_writeTagged_iff dv).mpr (right dv mem).1
    refine ⟨?_, (reads counted sameClass room).mpr fun dv mem => (right dv mem).2⟩
    rw [writeAll_lengths]
    exact List.map_inj_left.mpr fun dv mem => (counted dv mem).symm

/-- The announced lengths are right for all values but a variable text that is longer than its
column and a blob in a key, and the tagged ones for all sequences without a text of fixed length
that is not NULL and without an empty text or blob. -/
theorem storedLengths_iff (checked : Bool) (dv : TypedValue) (values : List TypedValue) :
    (LengthsRight checked dv ↔ dv.Announced checked) ∧
      (SequenceRight values ↔ ∀ dv ∈ values, dv.CountsAll ∧ dv.Readable) :=
  ⟨lengthsRight_iff checked dv, sequenceRight_iff values⟩

def twoLetters : FixLenValue where
  valType := .soleValue
  maxLength := 2
  bysValue := [97, 98]
  holds := fun _ => le_rfl
  maxLength_lt := by decide

theorem not_storedLengths :
    ¬((∀ dv, LengthsRight false dv) ∧ ∀ values, SequenceRight values) := by
  rintro ⟨-, right⟩
  have counted := (sequenceRight_iff [fixChar twoLetters]).mp (right _) _ List.mem_cons_self
  cases counted.1

end TypedValue

end RapidDb
