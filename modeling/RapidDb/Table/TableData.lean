import RapidDb.Core.CoreEnum
import RapidDb.DataType.DataValue
import RapidDb.DataType.ValueColumn
import RapidDb.Library.Codec

/-!
# Storing table definitions

The row of a table in the system tables holds its definition as one blob. `CalcSize` announces
the length of the blob, `SaveData` writes it into a buffer and `LoadData` builds the table from
it, each in its own walk over the columns and indexes.
-/

namespace RapidDb

open Bytes

/-- The size of the numbers `UI16_LEN`, `UI32_LEN` and `UI64_LEN`. -/
def UI16_LEN : ℕ := 2

def UI32_LEN : ℕ := 4

def UI64_LEN : ℕ := 8

def DataType.all : List DataType :=
  [.char, .short, .int, .long, .byte, .ushort, .uint, .ulong, .fixChar, .varChar, .dateTime, .float,
    .double, .blob, .bool, .valNull]

def DataType.ofCode (code : ℕ) : Option DataType :=
  DataType.all.find? fun type => type.code = code

namespace IndexType

def code : IndexType → ℕ
  | unknown => 0
  | primary => 1
  | hidePrimary => 2
  | unique => 3
  | nonUnique => 4

def ofCode : ℕ → Option IndexType
  | 0 => some unknown
  | 1 => some primary
  | 2 => some hidePrimary
  | 3 => some unique
  | 4 => some nonUnique
  | _ => none

end IndexType

namespace IDataValue

/-- `GetPersistenceLength` for a value. -/
def persistenceLength : IDataValue → ℕ
  | digit type (some _) => type.size
  | float (some _) => 4
  | double (some _) => 8
  | bool (some _) => 1
  | dateTime (some _) => 8
  | fixChar (some bysValue) => bysValue.length
  | varChar (some bysValue) => bysValue.length
  | blob (some bysValue) => bysValue.length
  | _ => 0

/-- `WriteData` for a value. -/
def writeData : IDataValue → List Byte
  | digit type (some value) => type.toBytes value.val false
  | float (some value) => writeLE 4 value.bits
  | double (some value) => writeLE 8 value.bits
  | bool (some value) => writeLE 1 value.toNat
  | dateTime (some value) => writeLE 8 value.val
  | fixChar (some bysValue) => bysValue
  | varChar (some bysValue) => bysValue
  | blob (some bysValue) => bysValue
  | _ => []

/-- The pattern of bits as a number, none if it stands for no number. -/
def readNumber (format : BinaryFormat) (bits : ℕ) : Option (BinaryNumber format) :=
  if inside : bits < 2 ^ (1 + format.exponentBits + format.fractionBits) then
    if isNumber : format.exponent bits = format.lastExponent → format.fraction bits = 0 then
      some ⟨bits, inside, isNumber⟩
    else none
  else none

def readDigit (type : DigitType) (buffer : List Byte) : Option (IDataValue × List Byte) := do
  let (content, buffer) ← takeBytes type.size buffer
  let value ← (ValueColumn.digit type).readData content
  return (digit type (some value), buffer)

/-- `ReadData` for a value, into a value that `DataValueFactory` makes with the length. A number
takes as many bytes as its type has. -/
def readData (type : DataType) (len : ℕ) (buffer : List Byte) : Option (IDataValue × List Byte) :=
  match type with
  | .char => readDigit .char buffer
  | .short => readDigit .short buffer
  | .int => readDigit .int buffer
  | .long => readDigit .long buffer
  | .byte => readDigit .byte buffer
  | .ushort => readDigit .ushort buffer
  | .uint => readDigit .uint buffer
  | .ulong => readDigit .ulong buffer
  | .float => do
      let (bits, buffer) ← takeField 4 buffer
      let value ← readNumber .single bits
      return (float (some value), buffer)
  | .double => do
      let (bits, buffer) ← takeField 8 buffer
      let value ← readNumber .double bits
      return (double (some value), buffer)
  | .bool => do
      let (value, buffer) ← takeField 1 buffer
      return (bool (some (value ≠ 0)), buffer)
  | .dateTime => do
      let (value, buffer) ← takeField 8 buffer
      return (dateTime (some (Fin.ofNat (2 ^ 64) value)), buffer)
  | .fixChar => do
      let (bysValue, buffer) ← takeBytes len buffer
      return (fixChar (some bysValue), buffer)
  | .varChar => do
      let (bysValue, buffer) ← takeBytes len buffer
      return (varChar (some bysValue), buffer)
  | .blob => do
      let (bysValue, buffer) ← takeBytes len buffer
      return (blob (some bysValue), buffer)
  | .valNull => none

end IDataValue

structure PhysColumn where
  name : List Byte
  index : ℕ
  dataType : DataType
  nullable : Bool
  charset : BitVec 16
  maxLength : BitVec 32
  initVal : BitVec 64
  incStep : BitVec 64
  comments : List Byte
  defaultVal : Option IDataValue

namespace PhysColumn

/-- `GetPersistenceLength` of the default value, or 0. -/
def defaultLength (column : PhysColumn) : ℕ :=
  match column.defaultVal with
  | none => 0
  | some value => value.persistenceLength

def calcSize (column : PhysColumn) : ℕ :=
  UI16_LEN + column.name.length + UI32_LEN + (1 + UI16_LEN + UI32_LEN + UI64_LEN + UI64_LEN) +
    (UI16_LEN + column.comments.length) + (2 + column.defaultLength)

def writeDefault (column : PhysColumn) : List Byte :=
  match column.defaultVal with
  | none => []
  | some value => value.writeData

/-- The bytes `WriteData` stores one after the other. -/
def writeData (column : PhysColumn) : List Byte :=
  writeLE UI16_LEN column.name.length ++ column.name ++
    writeLE UI32_LEN column.dataType.code ++
    writeLE 1 (if column.nullable then 0 else 1) ++
    writeLE UI16_LEN column.charset.toNat ++
    writeLE UI32_LEN column.maxLength.toNat ++
    writeLE UI64_LEN column.initVal.toNat ++
    writeLE UI64_LEN column.incStep.toNat ++
    writeLE UI16_LEN column.comments.length ++ column.comments ++
    writeLE UI16_LEN column.defaultLength ++ column.writeDefault

/-- The default value of `ReadData`, none for the length 0. -/
def readDefault (dataType : DataType) (len : ℕ) (buffer : List Byte) :
    Option (Option IDataValue × List Byte) :=
  if len > 0 then (IDataValue.readData dataType len buffer).map fun read => (some read.1, read.2)
  else some (none, buffer)

/-- `ReadData` of the column at a position. -/
def readData (index : ℕ) (buffer : List Byte) : Option (PhysColumn × List Byte) := do
  let (len, buffer) ← takeField UI16_LEN buffer
  let (name, buffer) ← takeBytes len buffer
  let (code, buffer) ← takeField UI32_LEN buffer
  let dataType ← DataType.ofCode code
  let (notNull, buffer) ← takeField 1 buffer
  let (charset, buffer) ← takeField UI16_LEN buffer
  let (maxLength, buffer) ← takeField UI32_LEN buffer
  let (initVal, buffer) ← takeField UI64_LEN buffer
  let (incStep, buffer) ← takeField UI64_LEN buffer
  let (len, buffer) ← takeField UI16_LEN buffer
  let (comments, buffer) ← takeBytes len buffer
  let (len, buffer) ← takeField UI16_LEN buffer
  let (defaultVal, buffer) ← readDefault dataType len buffer
  return ({ name, index, dataType, nullable := notNull = 0, charset := .ofNat 16 charset,
            maxLength := .ofNat 32 maxLength, initVal := .ofNat 64 initVal,
            incStep := .ofNat 64 incStep, comments, defaultVal }, buffer)

end PhysColumn

structure IndexProp.IndexColumn where
  colName : List Byte
  colPos : ℕ
deriving DecidableEq

structure IndexProp where
  name : List Byte
  position : ℕ
  type : IndexType
  vctCol : List IndexProp.IndexColumn
deriving DecidableEq

/-- A hash map as its entries. Inserting a key that is there changes nothing. -/
def KeyMap (K : Type) : Type := List (K × ℕ)

def KeyMap.find {K : Type} [DecidableEq K] (map : KeyMap K) (key : K) : Option ℕ :=
  (List.find? (fun entry => entry.1 = key) map).map Prod.snd

def KeyMap.empty {K : Type} : KeyMap K := []

def KeyMap.insert {K : Type} [DecidableEq K] (map : KeyMap K) (key : K) (value : ℕ) : KeyMap K :=
  if (map.find key).isSome then map else List.append map [(key, value)]

namespace IndexProp

def calcSize (prop : IndexProp) : ℕ :=
  UI16_LEN + prop.name.length + (1 + UI16_LEN) +
    (prop.vctCol.map fun col => UI16_LEN + col.colName.length).sum

def writeColumn (col : IndexColumn) : List Byte :=
  writeLE UI16_LEN col.colName.length ++ col.colName

def write (prop : IndexProp) : List Byte :=
  writeLE UI16_LEN prop.name.length ++ prop.name ++ writeLE 1 prop.type.code ++
    writeLE UI16_LEN prop.vctCol.length ++ prop.vctCol.flatMap writeColumn

/-- The loop of `Read`, which looks the position of each column up by its name. -/
def readColumn (mapColumnPos : KeyMap (List Byte)) (buffer : List Byte) :
    Option (IndexColumn × List Byte) := do
  let (len, buffer) ← takeField UI16_LEN buffer
  let (colName, buffer) ← takeBytes len buffer
  let colPos ← mapColumnPos.find colName
  return ({ colName, colPos }, buffer)

def read (mapColumnPos : KeyMap (List Byte)) (position : ℕ) (buffer : List Byte) :
    Option (IndexProp × List Byte) := do
  let (len, buffer) ← takeField UI16_LEN buffer
  let (name, buffer) ← takeBytes len buffer
  let (code, buffer) ← takeField 1 buffer
  let type ← IndexType.ofCode code
  let (len, buffer) ← takeField UI16_LEN buffer
  let (vctCol, buffer) ← takeMany (fun _ => readColumn mapColumnPos) 0 len buffer
  return ({ name, position, type, vctCol }, buffer)

end IndexProp

structure PhysTable where
  fullName : List Byte
  dtCreate : BitVec 64
  dtLastUpdate : BitVec 64
  vctColumn : List PhysColumn
  mapColumnPos : KeyMap (List Byte)
  vctIndex : List IndexProp
  mapIndexNamePos : KeyMap (List Byte)
  mapIndexFirstField : KeyMap ℕ

namespace PhysTable

def MAJOR_VERSION : ℕ := 1

def MINOR_VERSION : ℕ := 0

def PATCH_VERSION : ℕ := 0

/-- `CalcSize`. The sum has the type `uint32_t`. -/
def calcSize (table : PhysTable) : ℕ :=
  (UI32_LEN + UI32_LEN + (UI16_LEN + table.fullName.length) + (UI64_LEN + UI64_LEN) + UI16_LEN +
    (table.vctColumn.map PhysColumn.calcSize).sum + UI16_LEN +
    (table.vctIndex.map IndexProp.calcSize).sum) % 2 ^ 32

/-- The bytes that `SaveData` stores one after the other behind the place of the length. -/
def content (table : PhysTable) : List Byte :=
  writeLE UI16_LEN MAJOR_VERSION ++ writeLE 1 MINOR_VERSION ++ writeLE 1 PATCH_VERSION ++
    writeLE UI16_LEN table.fullName.length ++ table.fullName ++
    writeLE UI64_LEN table.dtCreate.toNat ++
    writeLE UI64_LEN table.dtLastUpdate.toNat ++
    writeLE UI16_LEN table.vctColumn.length ++ table.vctColumn.flatMap PhysColumn.writeData ++
    writeLE UI16_LEN table.vctIndex.length ++ table.vctIndex.flatMap IndexProp.write

/-- `SaveData` into a buffer. The length goes to where the pointer stands at the end. -/
def saveData (table : PhysTable) (bys : List Byte) : Option (List Byte × ℕ) := do
  let buf := UI32_LEN
  let bys ← store buf table.content bys
  let buf := buf + table.content.length
  let sz := buf % 2 ^ 32
  let bys ← store buf (writeLE UI32_LEN sz) bys
  return (bys, sz)

/-- The loop of `LoadData` over the columns fills the map. -/
def addColumns : List PhysColumn → KeyMap (List Byte) → KeyMap (List Byte)
  | [], mapColumnPos => mapColumnPos
  | column :: columns, mapColumnPos =>
      addColumns columns (mapColumnPos.insert column.name column.index)

/-- The loop of `LoadData` over the indexes fills the maps. An index without columns has no
first one. -/
def addIndexes : List IndexProp → KeyMap (List Byte) → KeyMap ℕ →
    Option (KeyMap (List Byte) × KeyMap ℕ)
  | [], mapIndexNamePos, mapIndexFirstField => some (mapIndexNamePos, mapIndexFirstField)
  | prop :: props, mapIndexNamePos, mapIndexFirstField => do
      let first ← prop.vctCol.head?
      addIndexes props (mapIndexNamePos.insert prop.name prop.position)
        (mapIndexFirstField.insert first.colPos prop.position)

/-- `LoadData` into an empty table. It gives the number of bytes it has read. -/
def loadData (bys : List Byte) : Option (PhysTable × ℕ) := do
  let (_, buf) ← takeField UI32_LEN bys
  let (major, buf) ← takeField UI16_LEN buf
  let (minor, buf) ← takeField 1 buf
  let (patch, buf) ← takeField 1 buf
  if ¬(major = MAJOR_VERSION ∧ minor = MINOR_VERSION ∧ patch = PATCH_VERSION) then none
  let (len, buf) ← takeField UI16_LEN buf
  let (fullName, buf) ← takeBytes len buf
  let (dtCreate, buf) ← takeField UI64_LEN buf
  let (dtLastUpdate, buf) ← takeField UI64_LEN buf
  let (len, buf) ← takeField UI16_LEN buf
  let (vctColumn, buf) ← takeMany PhysColumn.readData 0 len buf
  let mapColumnPos := addColumns vctColumn .empty
  let (len, buf) ← takeField UI16_LEN buf
  let (vctIndex, buf) ← takeMany (IndexProp.read mapColumnPos) 0 len buf
  let (mapIndexNamePos, mapIndexFirstField) ← addIndexes vctIndex .empty .empty
  return ({ fullName, dtCreate := .ofNat 64 dtCreate, dtLastUpdate := .ofNat 64 dtLastUpdate,
            vctColumn, mapColumnPos, vctIndex, mapIndexNamePos, mapIndexFirstField },
    bys.length - buf.length)

end PhysTable

end RapidDb
