import RapidDb.Core.CoreEnum
import RapidDb.Library.Bytes

/-!
# The bytes of a leaf record

A record starts with its total length and its key length, two bytes each, and its
key. A primary record goes on with the version byte, the record stamp, the length
of its value and, unless an overflow page holds it, the value; a secondary record
goes on with the primary key and the record stamp.

Column values are seen through the interface `IDataValue`: what `WriteData` stores
and the length `GetPersistenceLength` announces for it.
-/

namespace RapidDb

open Bytes

/-- `REC_OVERFLOW`, the bit of the version byte that says the value is in an overflow page. -/
def recOverflow : ℕ := 0x80

/-- `REC_DELETE`, the bit of the version byte that says the record has been deleted. -/
def recDeleteFlag : ℕ := 0x40

def maxKeyLength : ℕ := 2000

def maxRecordLength : ℕ := 8180

def indexPageSize : ℕ := 16384

inductive SavePosition where
  | key
  | value
deriving DecidableEq, Repr

/-- A column value as the record code sees it through `IDataValue`. -/
structure DataValue where
  isNull : Bool
  isFixLength : Bool
  persistenceLength : SavePosition → ℕ
  writeData : SavePosition → List Byte

/-- A value column of an index as the record code sees it through `IDataValue`. -/
structure ColumnType where
  isFixLength : Bool
  maxLength : ℕ
deriving DecidableEq, Repr

/-- The part of an `IndexTree` that reading and building records uses. -/
structure IndexFormat where
  indexType : IndexType
  vctValue : List ColumnType
deriving DecidableEq, Repr

/-- `GetValVarLen`: four bytes for each value column of variable length. -/
def IndexFormat.valVarLen (format : IndexFormat) : ℕ :=
  (format.vctValue.filter fun column => !column.isFixLength).length * 4

/-- The pages that hold the value of a record too long for a leaf page. -/
structure OverflowPage where
  pageId : PageID
  pageNum : ℕ
  bysPage : List Byte
  pageStatus : PageStatus
deriving DecidableEq, Repr

/-- The reflected CRC-32 step for one bit. -/
def crc32Bit (crc : ℕ) : ℕ :=
  if crc % 2 = 1 then (crc / 2) ^^^ 0xEDB88320 else crc / 2

def crc32Byte (crc : ℕ) (byte : Byte) : ℕ :=
  (List.range 8).foldl (fun crc _ => crc32Bit crc) (crc ^^^ byte.val)

/-- The reflected CRC-32, with which the samples stand for `boost::crc_32_type`. -/
def crc32 (bytes : List Byte) : ℕ := bytes.foldl crc32Byte 0xFFFFFFFF ^^^ 0xFFFFFFFF

namespace RecStruct

/-!
## Fields

The accessors below are the pointers `RecStruct` sets into the buffer of a primary record.
-/

def totalLen (bys : List Byte) : ℕ := fieldAt 2 0 bys

def keyLen (bys : List Byte) : ℕ := fieldAt 2 2 bys

/-- `_bysKey`, cut to the key's length. -/
def bysKey (bys : List Byte) : List Byte := slice 4 (keyLen bys) bys

def byVerFlow (bys : List Byte) : ℕ := fieldAt 1 (4 + keyLen bys) bys

def stamp (bys : List Byte) : ℕ := fieldAt 8 (4 + keyLen bys + 1) bys

def valLen (bys : List Byte) : ℕ := fieldAt 4 (4 + keyLen bys + 1 + 8) bys

/-- Whether the version byte says that an overflow page holds the value. -/
def hasOverflow (bys : List Byte) : Bool := byVerFlow bys &&& recOverflow != 0

/-- `_bysValStart`: the bytes of the overflow page (none when it is not loaded) or those
behind the header. -/
def bysValStart (bys : List Byte) (overflowPage : Option OverflowPage) :
    Option (List Byte) :=
  if hasOverflow bys then
    overflowPage.map OverflowPage.bysPage
  else
    some (bys.drop (4 + keyLen bys + 1 + 8 + 4))

end RecStruct

/-- The null bits of a row, eight columns in a byte. -/
def nullBitmap (vctVal : List DataValue) : List Byte :=
  (List.range ((vctVal.length + 7) / 8)).map fun byteIndex =>
    Fin.ofNat 256 <| ((List.range 8).map fun bit =>
      if (vctVal[byteIndex * 8 + bit]?.map DataValue.isNull).getD false then 2 ^ bit else 0).sum

/-- `FillValueBuff`: null bits, the lengths of the variable columns, the column contents. -/
def fillValueBuff (format : IndexFormat) (vctVal : List DataValue) : List Byte :=
  let varFieldsLen := (vctVal.filter fun value => !value.isFixLength).flatMap fun value =>
    writeLE 4 (value.writeData .value).length
  nullBitmap vctVal ++ (padTo format.valVarLen varFieldsLen).take format.valVarLen ++
    vctVal.flatMap fun value => value.writeData .value

/-- `CalcKeyLength`: the length of a key, a sum in 32 bits, `UINT16_MAX` when it exceeds the
limit. -/
def calcKeyLength (vctKey : List DataValue) : ℕ :=
  let lenKey := (vctKey.map fun value => value.persistenceLength .key).sum % 2 ^ 32
  if lenKey > maxKeyLength then 2 ^ 16 - 1 else lenKey

/-- `CalcValueLength`: the length of a version's value; a delete has none. -/
def calcValueLength (format : IndexFormat) (vctVal : List DataValue) (type : ActionType) : ℕ :=
  if type = .delete then
    0
  else
    (vctVal.length + 7) / 8 + format.valVarLen +
      (vctVal.map fun value => value.persistenceLength .value).sum

/-- The longest value a record may keep in its leaf page; the difference is one of
unsigned 32-bit integers. -/
def maxValueLength (lenKey : ℕ) : ℕ :=
  (maxRecordLength + 2 ^ 32 - (lenKey + 4 + (1 + 8 + 4))) % 2 ^ 32

/-- The number of pages an overflow value needs. -/
def overflowPageNum (lenVal : ℕ) : ℕ :=
  (lenVal + indexPageSize - 1) / indexPageSize % 2 ^ 16

/-- `ApplyOvfPage` once the tree has found the page id. -/
def OverflowPage.new (pageId : PageID) (pageNum : ℕ) : OverflowPage where
  pageId := pageId
  pageNum := pageNum
  bysPage := List.replicate (indexPageSize * pageNum) 0
  pageStatus := .valid

/-- The overflow page a value of length `lenVal` gets, its first bytes the value. -/
def overflowPageFor (pageId : PageID) (lenKey lenVal : ℕ) (value : List Byte) :
    Option OverflowPage :=
  if lenVal > maxValueLength lenKey then
    let page := OverflowPage.new pageId (overflowPageNum lenVal)
    some { page with bysPage := value ++ page.bysPage.drop value.length }
  else
    none

/-- `FillHeaderBuff`, `FillKeyBuff` and `FillValueBuff` into a new buffer of a primary record.
The header behind the value length is there for a value in an overflow page only. -/
def primaryBytes (crc32 : List Byte → ℕ) (totalLen : ℕ) (key : List Byte) (recStamp lenVal : ℕ)
    (type : ActionType) (overflowPage : Option OverflowPage) (value : List Byte) : List Byte :=
  let verFlow := (if overflowPage.isSome then recOverflow else 0) +
    (if type = .delete then recDeleteFlag else 0) + 1
  let header := writeLE 2 totalLen ++ writeLE 2 key.length ++ key ++ writeLE 1 verFlow ++
    writeLE 8 recStamp ++ writeLE 4 lenVal
  padTo (totalLen % 2 ^ 16) <| header ++
    match overflowPage with
    | some page =>
        writeLE 4 (crc32 (page.bysPage.take lenVal)) ++ writeLE 4 page.pageId ++
          writeLE 2 page.pageNum
    | none => value

/-- The bytes of a secondary record: the key, the primary key and the record stamp. -/
def secondaryBytes (key bysPri : List Byte) (recStamp : ℕ) : List Byte :=
  let totalLen := key.length + bysPri.length + 4 + 8
  writeLE 2 totalLen ++ writeLE 2 key.length ++ key ++ bysPri ++ writeLE 8 recStamp

end RapidDb
