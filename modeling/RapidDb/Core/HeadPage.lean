import RapidDb.Core.RecordFormat
import RapidDb.Library.Buffer

/-!
# The head page of an index file

The page keeps its counters and ids in fields of its own, and `SaveToBuffer` writes them to their
places in the buffer, those of four bytes with writes of eight. Every write spoils the four bytes
behind it, and the next write puts them right; the last of them ends in four bytes that nothing
uses. What is said about the free pages goes to the buffer at once.

The atomic variants of the counters add the same number and are not told apart.
-/

namespace RapidDb

open Bytes

namespace IndexType

/-- The value of an index type, in the order of the enumeration. -/
def value : IndexType → UInt8
  | unknown => 0
  | primary => 1
  | hidePrimary => 2
  | unique => 3
  | nonUnique => 4

/-- A byte that is none of the values is read as `UNKNOWN`. -/
def ofValue (byte : UInt8) : IndexType :=
  if byte = 1 then primary else if byte = 2 then hidePrimary else if byte = 3 then unique
  else if byte = 4 then nonUnique else unknown

@[simp]
theorem ofValue_value (type : IndexType) : ofValue type.value = type := by
  cases type <;> decide

end IndexType

structure FileVersion where
  majorVer : UInt16
  minorVer : UInt8
  patchVer : UInt8
deriving DecidableEq, Repr

/-- `CURRENT_FILE_VERSION`. -/
def currentFileVersion : FileVersion := ⟨1, 0, 0⟩

namespace CachePage

/-! ## Reading and writing the buffer of a page -/

def readByte (pos : ℕ) (bysPage : List Byte) : UInt8 := UInt8.ofNat (fieldAt 1 pos bysPage)

def readShort (pos : ℕ) (bysPage : List Byte) : UInt16 := UInt16.ofNat (fieldAt 2 pos bysPage)

def readInt (pos : ℕ) (bysPage : List Byte) : UInt32 := UInt32.ofNat (fieldAt 4 pos bysPage)

def readLong (pos : ℕ) (bysPage : List Byte) : UInt64 := UInt64.ofNat (fieldAt 8 pos bysPage)

def writeByte (pos : ℕ) (value : UInt8) : List Byte → List Byte := overwriteField 1 pos value.toNat

def writeShort (pos : ℕ) (value : UInt16) : List Byte → List Byte :=
  overwriteField 2 pos value.toNat

def writeInt (pos : ℕ) (value : UInt32) : List Byte → List Byte := overwriteField 4 pos value.toNat

def writeLong (pos : ℕ) (value : UInt64) : List Byte → List Byte := overwriteField 8 pos value.toNat

end CachePage

structure HeadPage where
  bysPage : List Byte
  keyAlterableFieldCount : UInt16 := 0
  valueAlterableFieldCount : UInt16 := 0
  recordVerCount : UInt8 := 1
  indexType : IndexType := .primary
  totalPageCount : UInt32 := 0
  rootPageId : UInt32 := 0
  beginLeafPageId : UInt32 := 0
  endLeafPageId : UInt32 := 0
  totalRecordCount : UInt64 := 0
  autoIncrementKey : UInt64 := 0
  currRecordStamp : UInt64 := 0
  bDirty : Bool := false
  pageStatus : PageStatus := .empty
deriving DecidableEq, Repr

/-- The arguments of `WriteGabage`. -/
structure GarbageInfo where
  totalPage : UInt32
  pageId : UInt32
  usedPage : UInt16
  crc32 : UInt32
deriving DecidableEq, Repr

namespace HeadPage

open CachePage

def headPageSize : ℕ := 4096

def crc32HeadOffset : ℕ := headPageSize - 4

def pageTypeOffset : ℕ := 0
def indexTypeOffset : ℕ := 1
def recordVersionCountOffset : ℕ := 2
def fileVersionOffset : ℕ := 4
def keyAlterableFieldCountOffset : ℕ := 8
def valueAlterableFieldCountOffset : ℕ := 10
def garbagePageOffset : ℕ := 12
def garbagePagesNumOffset : ℕ := 16
def grabageTotalItemsOffset : ℕ := 20
def garbageCrc32Offset : ℕ := 24
def totalPagesCountOffset : ℕ := 28
def rootPageOffset : ℕ := 32
def beginLeafPageOffset : ℕ := 36
def endLeafPageOffset : ℕ := 40
def totalRecordCountOffset : ℕ := 48
def autoIncrementKeyOffset : ℕ := 56
def currentRecordStampOffset : ℕ := 64

/-- `PageType::HEAD_PAGE`. -/
def headPageType : UInt8 := 1

def writeFileVersion (bysPage : List Byte) : List Byte :=
  let bysPage := writeShort fileVersionOffset currentFileVersion.majorVer bysPage
  let bysPage := writeByte (fileVersionOffset + 2) currentFileVersion.minorVer bysPage
  writeByte (fileVersionOffset + 3) currentFileVersion.patchVer bysPage

def readFileVersion (bysPage : List Byte) : FileVersion :=
  ⟨readShort fileVersionOffset bysPage, readByte (fileVersionOffset + 2) bysPage,
    readByte (fileVersionOffset + 3) bysPage⟩

/-- `InitHeadPage`. -/
def initHeadPage (iType : IndexType) (vctVal : List ColumnType) (page : HeadPage) : HeadPage :=
  let count := UInt16.ofNat (vctVal.filter fun dv => !dv.isFixLength).length
  let bysPage := List.replicate headPageSize 0
  let bysPage := writeByte pageTypeOffset headPageType bysPage
  let bysPage := writeByte indexTypeOffset iType.value bysPage
  let bysPage := writeByte recordVersionCountOffset 1 bysPage
  let bysPage := writeFileVersion bysPage
  let bysPage := writeShort keyAlterableFieldCountOffset 0 bysPage
  let bysPage := writeShort valueAlterableFieldCountOffset count bysPage
  { page with
    bysPage
    pageStatus := .valid
    indexType := iType
    recordVerCount := 1
    keyAlterableFieldCount := 0
    valueAlterableFieldCount := count }

/-- `InitParameters`, none where one of its assertions fails. -/
def initParameters (page : HeadPage) : Option HeadPage :=
  let bysPage := page.bysPage
  if readByte pageTypeOffset bysPage = headPageType ∧
      currentFileVersion = readFileVersion bysPage then
    some
      { page with
        pageStatus := .valid
        indexType := IndexType.ofValue (readByte indexTypeOffset bysPage)
        keyAlterableFieldCount := readShort keyAlterableFieldCountOffset bysPage
        valueAlterableFieldCount := readShort valueAlterableFieldCountOffset bysPage
        recordVerCount := (readInt recordVersionCountOffset bysPage).toUInt8
        totalPageCount := readInt totalPagesCountOffset bysPage
        rootPageId := readInt rootPageOffset bysPage
        beginLeafPageId := readInt beginLeafPageOffset bysPage
        endLeafPageId := readInt endLeafPageOffset bysPage
        totalRecordCount := readLong totalRecordCountOffset bysPage
        currRecordStamp := readLong currentRecordStampOffset bysPage
        autoIncrementKey := readLong autoIncrementKeyOffset bysPage }
  else none

/-- The writes of `SaveToBuffer` before the check sum. -/
def writeFields (page : HeadPage) : List Byte :=
  let bysPage := writeByte recordVersionCountOffset page.recordVerCount page.bysPage
  let bysPage := writeLong totalPagesCountOffset page.totalPageCount.toUInt64 bysPage
  let bysPage := writeLong rootPageOffset page.rootPageId.toUInt64 bysPage
  let bysPage := writeLong beginLeafPageOffset page.beginLeafPageId.toUInt64 bysPage
  let bysPage := writeLong endLeafPageOffset page.endLeafPageId.toUInt64 bysPage
  let bysPage := writeLong totalRecordCountOffset page.totalRecordCount bysPage
  let bysPage := writeLong currentRecordStampOffset page.currRecordStamp bysPage
  writeLong autoIncrementKeyOffset page.autoIncrementKey bysPage

section Checksum

-- `boost::crc_32_type` over a byte string.
variable (crc32 : List Byte → ℕ)

def saveToBuffer (page : HeadPage) : Bool × HeadPage :=
  if !page.bDirty || page.pageStatus ≠ .valid then (false, page)
  else
    let bysPage := page.writeFields
    let checksum := UInt32.ofNat (crc32 (bysPage.take crc32HeadOffset))
    (true, { page with bysPage := writeInt crc32HeadOffset checksum bysPage, bDirty := false })

/-! ## The updates -/

def getAndIncRecordStamp (page : HeadPage) (num : UInt64) : UInt64 × HeadPage :=
  (page.currRecordStamp,
    { page with bDirty := true, currRecordStamp := page.currRecordStamp + num })

def setRecordStamp (page : HeadPage) (recordStamp : UInt64) : HeadPage :=
  { page with currRecordStamp := recordStamp, bDirty := true }

def getAndIncTotalPageCount (page : HeadPage) (pageNum : UInt32) : UInt32 × HeadPage :=
  (page.totalPageCount,
    { page with bDirty := true, totalPageCount := page.totalPageCount + pageNum })

def setTotalPageCount (page : HeadPage) (totalPage : UInt32) : HeadPage :=
  { page with totalPageCount := totalPage, bDirty := true }

/-- The number of records to add is signed, and is added with its bits. -/
def getAndIncTotalRecordCount (page : HeadPage) (recNum : UInt64) : UInt64 × HeadPage :=
  (page.totalRecordCount,
    { page with bDirty := true, totalRecordCount := page.totalRecordCount + recNum })

def setTotalRecordCount (page : HeadPage) (totalRecNum : UInt64) : HeadPage :=
  { page with totalRecordCount := totalRecNum, bDirty := true }

def setRootPageID (page : HeadPage) (pid : UInt32) : HeadPage :=
  { page with rootPageId := pid, bDirty := true }

def setBeginLeafPageID (page : HeadPage) (pid : UInt32) : HeadPage :=
  { page with beginLeafPageId := pid, bDirty := true }

def setEndLeafPageID (page : HeadPage) (pid : UInt32) : HeadPage :=
  { page with endLeafPageId := pid, bDirty := true }

def getAndIncAutoIncrementKey (page : HeadPage) (step : UInt64) : UInt64 × HeadPage :=
  (page.autoIncrementKey,
    { page with bDirty := true, autoIncrementKey := page.autoIncrementKey + step })

def setAutoIncrementKey (page : HeadPage) (key : UInt64) : HeadPage :=
  { page with autoIncrementKey := key, bDirty := true }

def writeGabage (page : HeadPage) (info : GarbageInfo) : HeadPage :=
  let bysPage := writeInt garbagePageOffset info.pageId page.bysPage
  let bysPage := writeShort garbagePagesNumOffset info.usedPage bysPage
  let bysPage := writeInt grabageTotalItemsOffset info.totalPage bysPage
  let bysPage := writeInt garbageCrc32Offset info.crc32 bysPage
  { page with bysPage, bDirty := true }

inductive Update where
  | getAndIncRecordStamp (num : UInt64)
  | setRecordStamp (recordStamp : UInt64)
  | getAndIncTotalPageCount (pageNum : UInt32)
  | setTotalPageCount (totalPage : UInt32)
  | getAndIncTotalRecordCount (recNum : UInt64)
  | setTotalRecordCount (totalRecNum : UInt64)
  | setRootPageID (pid : UInt32)
  | setBeginLeafPageID (pid : UInt32)
  | setEndLeafPageID (pid : UInt32)
  | getAndIncAutoIncrementKey (step : UInt64)
  | setAutoIncrementKey (key : UInt64)
  | writeGabage (info : GarbageInfo)
  | setDirty
  /-- The page is handed to the reader or to the writer, or comes back. -/
  | setPageStatus (status : PageStatus)
  | saveToBuffer

def update (page : HeadPage) : Update → HeadPage
  | .getAndIncRecordStamp num => (page.getAndIncRecordStamp num).2
  | .setRecordStamp recordStamp => page.setRecordStamp recordStamp
  | .getAndIncTotalPageCount pageNum => (page.getAndIncTotalPageCount pageNum).2
  | .setTotalPageCount totalPage => page.setTotalPageCount totalPage
  | .getAndIncTotalRecordCount recNum => (page.getAndIncTotalRecordCount recNum).2
  | .setTotalRecordCount totalRecNum => page.setTotalRecordCount totalRecNum
  | .setRootPageID pid => page.setRootPageID pid
  | .setBeginLeafPageID pid => page.setBeginLeafPageID pid
  | .setEndLeafPageID pid => page.setEndLeafPageID pid
  | .getAndIncAutoIncrementKey step => (page.getAndIncAutoIncrementKey step).2
  | .setAutoIncrementKey key => page.setAutoIncrementKey key
  | .writeGabage info => page.writeGabage info
  | .setDirty => { page with bDirty := true }
  | .setPageStatus status => { page with pageStatus := status }
  | .saveToBuffer => (page.saveToBuffer crc32).2

/-- The head page of a new file or of one that has been read, and what becomes of it. -/
inductive Reached : HeadPage → Prop
  | create (bysPage : List Byte) (iType : IndexType) (vctVal : List ColumnType) :
      Reached (initHeadPage iType vctVal { bysPage })
  | load (bysPage : List Byte) (page : HeadPage) (size : bysPage.length = headPageSize)
      (init : initParameters { bysPage } = some page) : Reached page
  | update (page : HeadPage) (change : Update) (reached : Reached page) :
      Reached (page.update crc32 change)

/-- The bytes that `SaveToBuffer` has to leave alone. -/
structure KeepsHead (before after : List Byte) : Prop where
  pageType : readByte pageTypeOffset after = readByte pageTypeOffset before
  indexType : readByte indexTypeOffset after = readByte indexTypeOffset before
  fileVersion : readFileVersion after = readFileVersion before
  keyCount :
    readShort keyAlterableFieldCountOffset after = readShort keyAlterableFieldCountOffset before
  valueCount :
    readShort valueAlterableFieldCountOffset after = readShort valueAlterableFieldCountOffset before
  /-- All bytes of the garbage information, those that no field uses among them. -/
  garbage : slice garbagePageOffset 16 after = slice garbagePageOffset 16 before

/-- A page read from the buffer of this one has its counters and ids. -/
def Restores (page : HeadPage) : Prop :=
  ∀ other : HeadPage, initParameters { other with bysPage := page.bysPage } =
    some { page with bDirty := other.bDirty, pageStatus := .valid }

/-! ## Reading what has been written -/

/-- The buffer that `SaveToBuffer` leaves. -/
def savedBytes (page : HeadPage) : List Byte :=
  writeInt crc32HeadOffset (UInt32.ofNat (crc32 (page.writeFields.take crc32HeadOffset)))
    page.writeFields

/-- The writes with their widths and places. -/
def savedFields (page : HeadPage) (checksum : ℕ) : List Field :=
  [⟨1, 2, page.recordVerCount.toNat⟩, ⟨8, 28, page.totalPageCount.toNat⟩,
    ⟨8, 32, page.rootPageId.toNat⟩, ⟨8, 36, page.beginLeafPageId.toNat⟩,
    ⟨8, 40, page.endLeafPageId.toNat⟩, ⟨8, 48, page.totalRecordCount.toNat⟩,
    ⟨8, 64, page.currRecordStamp.toNat⟩, ⟨8, 56, page.autoIncrementKey.toNat⟩,
    ⟨4, 4092, checksum⟩]

theorem savedBytes_eq (page : HeadPage) :
    ∃ checksum, page.savedBytes crc32 = overwriteFields (page.savedFields checksum) page.bysPage :=
  ⟨_, rfl⟩

section Saved

variable {crc32} {page : HeadPage} (size : page.bysPage.length = headPageSize)
include size

theorem savedFields_fit (checksum : ℕ) :
    ∀ field ∈ page.savedFields checksum, field.offset + field.width ≤ page.bysPage.length := by
  simp [savedFields, size, headPageSize]

theorem length_savedBytes : (page.savedBytes crc32).length = headPageSize := by
  rcases page.savedBytes_eq crc32 with ⟨checksum, same⟩
  rw [same, length_overwriteFields (savedFields_fit size checksum), size]

theorem slice_savedBytes {start length : ℕ} (apart : start + length ≤ 2 ∨ 3 ≤ start)
    (front : start + length ≤ 28) :
    slice start length (page.savedBytes crc32) = slice start length page.bysPage := by
  rcases page.savedBytes_eq crc32 with ⟨checksum, same⟩
  rw [same]
  apply slice_overwriteFields_of_apart (savedFields_fit size checksum)
  simp only [savedFields, List.forall_mem_cons]
  refine ⟨apart, ?_, ?_, ?_, ?_, ?_, ?_, ?_, ?_, by simp⟩ <;> omega

theorem fieldAt_savedBytes :
    fieldAt 1 2 (page.savedBytes crc32) = page.recordVerCount.toNat ∧
      fieldAt 4 28 (page.savedBytes crc32) = page.totalPageCount.toNat ∧
      fieldAt 4 32 (page.savedBytes crc32) = page.rootPageId.toNat ∧
      fieldAt 4 36 (page.savedBytes crc32) = page.beginLeafPageId.toNat ∧
      fieldAt 4 40 (page.savedBytes crc32) = page.endLeafPageId.toNat ∧
      fieldAt 8 48 (page.savedBytes crc32) = page.totalRecordCount.toNat ∧
      fieldAt 8 64 (page.savedBytes crc32) = page.currRecordStamp.toNat ∧
      fieldAt 8 56 (page.savedBytes crc32) = page.autoIncrementKey.toNat := by
  rcases page.savedBytes_eq crc32 with ⟨checksum, same⟩
  have fits := savedFields_fit size checksum
  rw [same]
  refine ⟨?_, ?_, ?_, ?_, ?_, ?_, ?_, ?_⟩
  · have small := page.recordVerCount.toNat_lt
    exact fieldAt_overwriteFields 0 rfl fits (by simp) (by simp [savedFields]) (by omega)
  · have small := page.totalPageCount.toNat_lt
    exact fieldAt_overwriteFields 1 rfl fits (by simp) (by simp [savedFields]) (by omega)
  · have small := page.rootPageId.toNat_lt
    exact fieldAt_overwriteFields 2 rfl fits (by simp) (by simp [savedFields]) (by omega)
  · have small := page.beginLeafPageId.toNat_lt
    exact fieldAt_overwriteFields 3 rfl fits (by simp) (by simp [savedFields]) (by omega)
  · have small := page.endLeafPageId.toNat_lt
    exact fieldAt_overwriteFields 4 rfl fits (by simp) (by simp [savedFields]) (by omega)
  · have small := page.totalRecordCount.toNat_lt
    exact fieldAt_overwriteFields 5 rfl fits (by simp) (by simp [savedFields]) (by omega)
  · have small := page.currRecordStamp.toNat_lt
    exact fieldAt_overwriteFields 6 rfl fits (by simp) (by simp [savedFields]) (by omega)
  · have small := page.autoIncrementKey.toNat_lt
    exact fieldAt_overwriteFields 7 rfl fits (by simp) (by simp [savedFields]) (by omega)

theorem keepsHead_savedBytes : KeepsHead page.bysPage (page.savedBytes crc32) := by
  have fields (width start : ℕ) (apart : start + width ≤ 2 ∨ 3 ≤ start)
      (front : start + width ≤ 28) :
      fieldAt width start (page.savedBytes crc32) = fieldAt width start page.bysPage :=
    fieldAt_eq_of_slice_eq (slice_savedBytes size apart front)
  refine ⟨?_, ?_, ?_, ?_, ?_, ?_⟩
  · exact congrArg UInt8.ofNat (fields 1 0 (by omega) (by omega))
  · exact congrArg UInt8.ofNat (fields 1 1 (by omega) (by omega))
  · unfold readFileVersion readShort readByte fileVersionOffset
    rw [fields 2 4 (by omega) (by omega), fields 1 (4 + 2) (by omega) (by omega),
      fields 1 (4 + 3) (by omega) (by omega)]
  · exact congrArg UInt16.ofNat (fields 2 8 (by omega) (by omega))
  · exact congrArg UInt16.ofNat (fields 2 10 (by omega) (by omega))
  · exact slice_savedBytes size (by simp [garbagePageOffset]) (by simp [garbagePageOffset])

end Saved

/-! ## What holds in every state -/

/-- The buffer has the type and the version of a head page and the fields that no save writes. -/
structure Headed (page : HeadPage) : Prop where
  size : page.bysPage.length = headPageSize
  pageType : readByte pageTypeOffset page.bysPage = headPageType
  fileVersion : currentFileVersion = readFileVersion page.bysPage
  indexType : IndexType.ofValue (readByte indexTypeOffset page.bysPage) = page.indexType
  keyCount : readShort keyAlterableFieldCountOffset page.bysPage = page.keyAlterableFieldCount
  valueCount : readShort valueAlterableFieldCountOffset page.bysPage = page.valueAlterableFieldCount

/-- The buffer has the counters and ids of the page. -/
structure Stored (page : HeadPage) : Prop where
  recordVerCount : (readInt recordVersionCountOffset page.bysPage).toUInt8 = page.recordVerCount
  totalPageCount : readInt totalPagesCountOffset page.bysPage = page.totalPageCount
  rootPageId : readInt rootPageOffset page.bysPage = page.rootPageId
  beginLeafPageId : readInt beginLeafPageOffset page.bysPage = page.beginLeafPageId
  endLeafPageId : readInt endLeafPageOffset page.bysPage = page.endLeafPageId
  totalRecordCount : readLong totalRecordCountOffset page.bysPage = page.totalRecordCount
  currRecordStamp : readLong currentRecordStampOffset page.bysPage = page.currRecordStamp
  autoIncrementKey : readLong autoIncrementKeyOffset page.bysPage = page.autoIncrementKey

/-- A page that is not dirty has its counters in the buffer. -/
structure Sound (page : HeadPage) : Prop where
  headed : page.Headed
  stored : page.bDirty = false → page.Stored

theorem Headed.restores {page : HeadPage} (headed : page.Headed) (stored : page.Stored) :
    page.Restores := by
  intro other
  unfold initParameters
  dsimp only
  rw [if_pos ⟨headed.pageType, headed.fileVersion⟩]
  simp only [headed.indexType, headed.keyCount, headed.valueCount, stored.recordVerCount,
    stored.totalPageCount, stored.rootPageId, stored.beginLeafPageId, stored.endLeafPageId,
    stored.totalRecordCount, stored.currRecordStamp, stored.autoIncrementKey]

theorem toUInt8_readInt (pos : ℕ) (bysPage : List Byte) :
    (readInt pos bysPage).toUInt8 = readByte pos bysPage := by
  have low : readLE 4 (bysPage.drop pos) % 256 = readLE 1 (bysPage.drop pos) := by
    cases bysPage.drop pos with
    | nil => rfl
    | cons byte rest =>
        have less := byte.isLt
        simp only [readLE]
        omega
  apply UInt8.toNat_inj.mp
  simp only [readInt, readByte, fieldAt, UInt32.toNat_toUInt8, UInt32.toNat_ofNat',
    UInt8.toNat_ofNat']
  omega

variable {crc32}

theorem saveToBuffer_of_refused {page : HeadPage}
    (refused : page.bDirty = false ∨ page.pageStatus ≠ .valid) :
    page.saveToBuffer crc32 = (false, page) := by
  unfold saveToBuffer
  rw [if_pos (by simpa using refused)]

theorem saveToBuffer_of_dirty {page : HeadPage} (dirty : page.bDirty = true)
    (valid : page.pageStatus = .valid) :
    page.saveToBuffer crc32 =
      (true, { page with bysPage := page.savedBytes crc32, bDirty := false }) := by
  unfold saveToBuffer
  rw [if_neg (by simp [dirty, valid])]
  rfl

theorem Headed.keeps {page page' : HeadPage} (headed : page.Headed)
    (kept : KeepsHead page.bysPage page'.bysPage)
    (size : page'.bysPage.length = headPageSize) (indexType : page'.indexType = page.indexType)
    (keyCount : page'.keyAlterableFieldCount = page.keyAlterableFieldCount)
    (valueCount : page'.valueAlterableFieldCount = page.valueAlterableFieldCount) :
    page'.Headed where
  size := size
  pageType := kept.pageType.trans headed.pageType
  fileVersion := headed.fileVersion.trans kept.fileVersion.symm
  indexType := by rw [kept.indexType, headed.indexType, indexType]
  keyCount := by rw [kept.keyCount, headed.keyCount, keyCount]
  valueCount := by rw [kept.valueCount, headed.valueCount, valueCount]

theorem KeepsHead.refl (bysPage : List Byte) : KeepsHead bysPage bysPage :=
  ⟨rfl, rfl, rfl, rfl, rfl, rfl⟩

theorem stored_savedBytes {page : HeadPage} (size : page.bysPage.length = headPageSize) :
    Stored { page with bysPage := page.savedBytes crc32, bDirty := false } := by
  rcases fieldAt_savedBytes size with
    ⟨versions, total, root, first, last, records, stamp, key⟩
  constructor
  · rw [toUInt8_readInt]
    unfold readByte recordVersionCountOffset
    rw [versions, UInt8.ofNat_toNat]
  · unfold readInt totalPagesCountOffset
    rw [total, UInt32.ofNat_toNat]
  · unfold readInt rootPageOffset
    rw [root, UInt32.ofNat_toNat]
  · unfold readInt beginLeafPageOffset
    rw [first, UInt32.ofNat_toNat]
  · unfold readInt endLeafPageOffset
    rw [last, UInt32.ofNat_toNat]
  · unfold readLong totalRecordCountOffset
    rw [records, UInt64.ofNat_toNat]
  · unfold readLong currentRecordStampOffset
    rw [stamp, UInt64.ofNat_toNat]
  · unfold readLong autoIncrementKeyOffset
    rw [key, UInt64.ofNat_toNat]

theorem Sound.saveToBuffer (crc32 : List Byte → ℕ) {page : HeadPage} (sound : page.Sound) :
    (page.saveToBuffer crc32).2.Sound ∧
      KeepsHead page.bysPage (page.saveToBuffer crc32).2.bysPage := by
  by_cases refused : page.bDirty = false ∨ page.pageStatus ≠ .valid
  · rw [saveToBuffer_of_refused refused]
    exact ⟨sound, KeepsHead.refl _⟩
  · simp only [not_or, Bool.not_eq_false, not_not] at refused
    have size := sound.headed.size
    rw [saveToBuffer_of_dirty refused.1 refused.2]
    refine ⟨⟨?_, fun _ => stored_savedBytes size⟩, keepsHead_savedBytes size⟩
    exact sound.headed.keeps (keepsHead_savedBytes size) (length_savedBytes size) rfl rfl rfl

theorem Sound.dirty {page page' : HeadPage} (sound : page.Sound) (dirty : page'.bDirty = true)
    (buffer : page'.bysPage = page.bysPage) (indexType : page'.indexType = page.indexType)
    (keyCount : page'.keyAlterableFieldCount = page.keyAlterableFieldCount)
    (valueCount : page'.valueAlterableFieldCount = page.valueAlterableFieldCount) :
    page'.Sound := by
  refine ⟨sound.headed.keeps (buffer ▸ KeepsHead.refl _) (buffer ▸ sound.headed.size) indexType
    keyCount valueCount, fun clean => ?_⟩
  rw [dirty] at clean
  cases clean

theorem fieldAt_replicate_zero (width offset size : ℕ) :
    fieldAt width offset (List.replicate size 0) = 0 := by
  unfold fieldAt
  rw [List.drop_replicate]
  induction width generalizing offset with
  | zero => rfl
  | succ width ih =>
      cases remaining : size - offset with
      | zero => rfl
      | succ rest =>
          have zeros := ih (offset + 1)
          rw [show size - (offset + 1) = rest by omega] at zeros
          simp [List.replicate_succ, readLE, zeros]

/-- The writes of `InitHeadPage`. -/
def initFields (iType : IndexType) (count : UInt16) : List Field :=
  [⟨1, 0, 1⟩, ⟨1, 1, iType.value.toNat⟩, ⟨1, 2, 1⟩, ⟨2, 4, 1⟩, ⟨1, 6, 0⟩, ⟨1, 7, 0⟩, ⟨2, 8, 0⟩,
    ⟨2, 10, count.toNat⟩]

theorem sound_initHeadPage (bysPage : List Byte) (iType : IndexType) (vctVal : List ColumnType) :
    (initHeadPage iType vctVal { bysPage }).Sound := by
  generalize countEq : UInt16.ofNat (vctVal.filter fun dv => !dv.isFixLength).length = count
  have buffer : (initHeadPage iType vctVal { bysPage }).bysPage =
      overwriteFields (initFields iType count) (List.replicate headPageSize 0) := by
    rw [← countEq]
    rfl
  have counted : (initHeadPage iType vctVal { bysPage }).valueAlterableFieldCount = count := countEq
  have fits : ∀ field ∈ initFields iType count,
      field.offset + field.width ≤ (List.replicate headPageSize (0 : Byte)).length := by
    rw [List.length_replicate]
    simp [initFields, headPageSize]
  have written {width offset value : ℕ} (position : ℕ)
      (found : (initFields iType count)[position]? = some ⟨width, offset, value⟩)
      (apart : ∀ other ∈ (initFields iType count).drop (position + 1),
        offset + width ≤ other.offset ∨ other.offset + other.width ≤ offset)
      (small : value < 256 ^ width) :
      fieldAt width offset (initHeadPage iType vctVal { bysPage }).bysPage = value := by
    rw [buffer]
    exact fieldAt_overwriteFields position found fits le_rfl apart small
  have zeros (width start : ℕ) (behind : 12 ≤ start) :
      fieldAt width start (initHeadPage iType vctVal { bysPage }).bysPage = 0 := by
    rw [buffer, fieldAt_eq_of_slice_eq (slice_overwriteFields_of_apart fits ?_),
      fieldAt_replicate_zero]
    simp only [initFields, List.forall_mem_cons]
    refine ⟨?_, ?_, ?_, ?_, ?_, ?_, ?_, ?_, by simp⟩ <;> omega
  refine ⟨⟨?_, ?_, ?_, ?_, ?_, ?_⟩, fun _ => ⟨?_, ?_, ?_, ?_, ?_, ?_, ?_, ?_⟩⟩
  · rw [buffer, length_overwriteFields fits, List.length_replicate]
  · have type := written 0 rfl (by simp [initFields]) (by simp)
    exact congrArg UInt8.ofNat type
  · unfold readFileVersion readShort readByte fileVersionOffset
    rw [written 3 rfl (by simp [initFields]) (by simp),
      written 4 rfl (by simp [initFields]) (by simp),
      written 5 rfl (by simp [initFields]) (by simp)]
    decide
  · have small := iType.value.toNat_lt
    unfold readByte indexTypeOffset
    rw [written 1 rfl (by simp [initFields]) (by omega), UInt8.ofNat_toNat]
    exact IndexType.ofValue_value iType
  · have keyCount := written 6 rfl (by simp [initFields]) (by simp)
    exact congrArg UInt16.ofNat keyCount
  · have small := count.toNat_lt
    unfold readShort valueAlterableFieldCountOffset
    rw [written 7 rfl (by simp [initFields]) (by omega), UInt16.ofNat_toNat, counted]
  · rw [toUInt8_readInt]
    have versions := written 2 rfl (by simp [initFields]) (by simp)
    exact congrArg UInt8.ofNat versions
  · exact congrArg UInt32.ofNat (zeros 4 28 (by omega))
  · exact congrArg UInt32.ofNat (zeros 4 32 (by omega))
  · exact congrArg UInt32.ofNat (zeros 4 36 (by omega))
  · exact congrArg UInt32.ofNat (zeros 4 40 (by omega))
  · exact congrArg UInt64.ofNat (zeros 8 48 (by omega))
  · exact congrArg UInt64.ofNat (zeros 8 64 (by omega))
  · exact congrArg UInt64.ofNat (zeros 8 56 (by omega))

theorem Sound.load {bysPage : List Byte} {page : HeadPage} (size : bysPage.length = headPageSize)
    (init : initParameters { bysPage } = some page) : page.Sound := by
  unfold initParameters at init
  rcases Option.ite_none_right_eq_some.mp init with ⟨asserted, same⟩
  cases same
  exact ⟨⟨size, asserted.1, asserted.2, rfl, rfl, rfl⟩, fun _ =>
    ⟨rfl, rfl, rfl, rfl, rfl, rfl, rfl, rfl⟩⟩

theorem Sound.writeGabage {page : HeadPage} (sound : page.Sound) (info : GarbageInfo) :
    (page.writeGabage info).Sound := by
  have size := sound.headed.size
  have buffer : (page.writeGabage info).bysPage =
      overwriteFields [⟨4, 12, info.pageId.toNat⟩, ⟨2, 16, info.usedPage.toNat⟩,
        ⟨4, 20, info.totalPage.toNat⟩, ⟨4, 24, info.crc32.toNat⟩] page.bysPage := rfl
  have fits : ∀ field ∈ [(⟨4, 12, info.pageId.toNat⟩ : Field), ⟨2, 16, info.usedPage.toNat⟩,
      ⟨4, 20, info.totalPage.toNat⟩, ⟨4, 24, info.crc32.toNat⟩],
      field.offset + field.width ≤ page.bysPage.length := by
    simp [size, headPageSize]
  have fields (width start : ℕ) (front : start + width ≤ 12) :
      fieldAt width start (page.writeGabage info).bysPage = fieldAt width start page.bysPage := by
    rw [buffer]
    apply fieldAt_eq_of_slice_eq
    apply slice_overwriteFields_of_apart fits
    simp only [List.forall_mem_cons]
    refine ⟨?_, ?_, ?_, ?_, by simp⟩ <;> omega
  refine ⟨⟨?_, ?_, ?_, ?_, ?_, ?_⟩, fun clean => by cases clean⟩
  · rw [buffer, length_overwriteFields fits, size]
  · exact (congrArg UInt8.ofNat (fields 1 0 (by omega))).trans sound.headed.pageType
  · rw [sound.headed.fileVersion]
    unfold readFileVersion readShort readByte fileVersionOffset
    rw [fields 2 4 (by omega), fields 1 (4 + 2) (by omega), fields 1 (4 + 3) (by omega)]
  · refine Eq.trans ?_ sound.headed.indexType
    exact congrArg (fun byte => IndexType.ofValue (UInt8.ofNat byte)) (fields 1 1 (by omega))
  · exact (congrArg UInt16.ofNat (fields 2 8 (by omega))).trans sound.headed.keyCount
  · exact (congrArg UInt16.ofNat (fields 2 10 (by omega))).trans sound.headed.valueCount

theorem Sound.update {page : HeadPage} (sound : page.Sound) (change : Update) :
    (page.update crc32 change).Sound := by
  cases change with
  | getAndIncRecordStamp num => exact sound.dirty rfl rfl rfl rfl rfl
  | setRecordStamp recordStamp => exact sound.dirty rfl rfl rfl rfl rfl
  | getAndIncTotalPageCount pageNum => exact sound.dirty rfl rfl rfl rfl rfl
  | setTotalPageCount totalPage => exact sound.dirty rfl rfl rfl rfl rfl
  | getAndIncTotalRecordCount recNum => exact sound.dirty rfl rfl rfl rfl rfl
  | setTotalRecordCount totalRecNum => exact sound.dirty rfl rfl rfl rfl rfl
  | setRootPageID pid => exact sound.dirty rfl rfl rfl rfl rfl
  | setBeginLeafPageID pid => exact sound.dirty rfl rfl rfl rfl rfl
  | setEndLeafPageID pid => exact sound.dirty rfl rfl rfl rfl rfl
  | getAndIncAutoIncrementKey step => exact sound.dirty rfl rfl rfl rfl rfl
  | setAutoIncrementKey key => exact sound.dirty rfl rfl rfl rfl rfl
  | writeGabage info => exact sound.writeGabage info
  | setDirty => exact sound.dirty rfl rfl rfl rfl rfl
  | setPageStatus status =>
      rcases sound with ⟨⟨size, pageType, fileVersion, indexType, keyCount, valueCount⟩, stored⟩
      refine ⟨⟨size, pageType, fileVersion, indexType, keyCount, valueCount⟩, fun clean => ?_⟩
      rcases stored clean with ⟨versions, total, root, first, last, records, stamp, key⟩
      exact ⟨versions, total, root, first, last, records, stamp, key⟩
  | saveToBuffer => exact (sound.saveToBuffer crc32).1

theorem Reached.sound {page : HeadPage} (reached : Reached crc32 page) : page.Sound := by
  induction reached with
  | create bysPage iType vctVal => exact sound_initHeadPage bysPage iType vctVal
  | load bysPage page size init => exact Sound.load size init
  | update page change _ sound => exact sound.update change

/-- Behind any updates, a save leaves the fields alone that it does not write, and a page that is
read from the buffer has all counters and ids; only while the page is not valid, a save of a changed
page is refused and does nothing. -/
theorem saveToBuffer_restores {page : HeadPage} (reached : Reached crc32 page) :
    KeepsHead page.bysPage (page.saveToBuffer crc32).2.bysPage ∧
      (page.pageStatus = .valid → (page.saveToBuffer crc32).2.Restores) ∧
      (page.pageStatus ≠ .valid → page.saveToBuffer crc32 = (false, page)) := by
  have sound := reached.sound
  refine ⟨(sound.saveToBuffer crc32).2, fun valid => ?_, fun invalid =>
    saveToBuffer_of_refused (Or.inr invalid)⟩
  have saved := (sound.saveToBuffer crc32).1
  apply saved.headed.restores
  apply saved.stored
  by_cases dirty : page.bDirty = true
  · rw [saveToBuffer_of_dirty dirty valid]
  · have clean := Bool.eq_false_of_not_eq_true dirty
    rw [saveToBuffer_of_refused (Or.inl clean)]
    exact clean

end Checksum

/-- A page with four-byte counters whose bytes are all set. -/
def fullCounters : HeadPage :=
  let page := initHeadPage .primary [] { bysPage := [] }
  let page := page.update crc32 (.setTotalPageCount 0xFFFFFFFF)
  let page := page.update crc32 (.setRootPageID 0xFFFFFFFE)
  page.update crc32 (.writeGabage ⟨1, 2, 3, 0xFFFFFFFD⟩)

theorem saveToBuffer_restores_fullCounters :
    KeepsHead fullCounters.bysPage (fullCounters.saveToBuffer crc32).2.bysPage ∧
      (fullCounters.saveToBuffer crc32).2.Restores := by
  have reached : Reached crc32 fullCounters := by
    unfold fullCounters
    apply Reached.update
    apply Reached.update
    apply Reached.update
    exact Reached.create [] .primary []
  have saved := saveToBuffer_restores reached
  exact ⟨saved.1, saved.2.1 rfl⟩

end HeadPage

end RapidDb
