import RapidDb.Core.BranchPage
import RapidDb.Core.HeadPage

/-!
# The image of a branch page

A branch page is saved as a table of positions and the records behind it, with the lengths, the
level and the marks in front and a check sum at the end. The records in memory point into the buffer
of the page, or into a buffer of their own until the next save. A save of changed records fills a
new buffer from where they point to and moves the pointers there; the old buffer goes back to the
pool. If only the parent page has changed, the buffer stays and so do the pointers.

The counters of a page are kept as numbers: a page is split long before they could reach `2 ^ 32`.
-/

namespace RapidDb

open Bytes

/-- The branch record of some bytes, with the child page that they name. -/
def BranchRecord.ofBytes (bysVal : List Byte) : BranchRecord where
  bysVal
  childPage := fieldAt 4 (bysVal.length - 4) bysVal

namespace BranchImage

open CachePage

def pageLevelOffset : ℕ := 0
def pageBeginEndOffset : ℕ := 1
def numRecordOffset : ℕ := 4
def totalDataLengthOffset : ℕ := 6
def parentPagePointerOffset : ℕ := 8
def dataBeginOffset : ℕ := 12
def crc32IndexOffset : ℕ := indexPageSize - 4

/-- A buffer from the pool of pages, with anything in it. -/
abbrev PageBuffer := { bysPage : List Byte // bysPage.length = indexPageSize }

/-- The bytes that the constructors of a branch record allocate and fill. -/
structure RecordBytes where
  bysVal : List Byte
  header : 2 ≤ bysVal.length
  totalLength : fieldAt 2 0 bysVal = bysVal.length

/-- Where `_bysVal` of a record points to. -/
inductive RecordPlace where
  /-- A buffer of its own, or the one of the page that the record has been moved from. -/
  | outside (record : RecordBytes)
  | inPage (offset : ℕ)

namespace RecordPlace

def memory (bysPage : List Byte) : RecordPlace → List Byte
  | outside record => record.bysVal
  | inPage offset => bysPage.drop offset

def getTotalLength (bysPage : List Byte) (place : RecordPlace) : ℕ :=
  fieldAt 2 0 (place.memory bysPage)

def bysVal (bysPage : List Byte) (place : RecordPlace) : List Byte :=
  (place.memory bysPage).take (place.getTotalLength bysPage)

/-- The length of the record in a page, with its position. -/
def recordLength (bysPage : List Byte) (place : RecordPlace) : ℕ :=
  place.getTotalLength bysPage + 2

end RecordPlace

/-- The branch page as an object, with its buffer. -/
structure PageObject where
  bysPage : List Byte
  vctRecord : List RecordPlace := []
  recordNum : ℕ := 0
  committedDataLength : ℕ := 0
  parentPageId : UInt32 := 0
  bDirty : Bool := false
  bRecordUpdated : Bool := false
  bNeedDisk : Bool := false
  pageStatus : PageStatus := .empty

namespace PageObject

/-! ## Loading -/

/-- The loop of `LoadRecords`. -/
def loadPlaces (bysPage : List Byte) : ℕ → ℕ → List RecordPlace
  | 0, _ => []
  | count + 1, pos =>
      .inPage (fieldAt 2 pos bysPage) :: loadPlaces bysPage count ((pos + 2) % 2 ^ 16)

/-- `LoadRecords`, none if an assertion fails or the counter of the loop never gets to the number of
records. -/
def loadRecords (page : PageObject) : Option PageObject :=
  if page.bDirty || !page.vctRecord.isEmpty || decide (2 ^ 16 ≤ page.recordNum) then none
  else some { page with vctRecord := loadPlaces page.bysPage page.recordNum dataBeginOffset }

/-- A short that is read into a field of 32 bits. -/
def signExtend (value : ℕ) : ℕ := if value < 2 ^ 15 then value else value + (2 ^ 32 - 2 ^ 16)

/-- `InitParameters`; the object of the parent page may be known already. -/
def initParameters (page : PageObject) (parentPage : Option UInt32) : Option PageObject :=
  let parentPageId := readInt parentPagePointerOffset page.bysPage
  let page :=
    { page with
      recordNum := signExtend (fieldAt 2 numRecordOffset page.bysPage)
      committedDataLength := signExtend (fieldAt 2 totalDataLengthOffset page.bysPage)
      parentPageId }
  match parentPage with
  | none => page.loadRecords
  | some parentId =>
      if parentId = parentPageId then page.loadRecords
      else { page with parentPageId := parentId, bDirty := true }.loadRecords

/-! ## Saving -/

/-- The loop of `SaveRecords`: where the next position and the next record go, and the pointer that
runs along. -/
def saveLoop (tmp : List Byte) :
    List RecordPlace → ℕ → ℕ → ℕ → List Byte → List Byte × List RecordPlace
  | [], _, _, _, bysPage => (bysPage, [])
  | rr :: vctRecord, offPos, recPos, bysRec, bysPage =>
      let bysPage := writeShort offPos (UInt16.ofNat recPos) bysPage
      let bysPage := overwrite bysRec (rr.bysVal tmp) bysPage
      let sz := rr.getTotalLength tmp
      let (bysPage, places) :=
        saveLoop tmp vctRecord ((offPos + 2) % 2 ^ 16) ((recPos + sz) % 2 ^ 16) (bysRec + sz)
          bysPage
      (bysPage, .inPage bysRec :: places)

/-- The part of `SaveRecords` for changed records. -/
def saveUpdated (page : PageObject) (fresh : PageBuffer) : PageObject :=
  let tmp := page.bysPage
  let bysPage := writeByte pageLevelOffset (readByte pageLevelOffset tmp) fresh.val
  let bysPage := writeByte pageBeginEndOffset (readByte pageBeginEndOffset tmp) bysPage
  let recPos := (dataBeginOffset + page.recordNum * 2) % 2 ^ 16
  let (bysPage, places) := saveLoop tmp page.vctRecord dataBeginOffset recPos recPos bysPage
  let bysPage := writeShort totalDataLengthOffset (UInt16.ofNat page.committedDataLength) bysPage
  let bysPage := writeShort numRecordOffset (UInt16.ofNat page.recordNum) bysPage
  { page with bysPage, vctRecord := places, bRecordUpdated := false }

-- `boost::crc_32_type` over a byte string.
variable (crc32 : List Byte → ℕ)

/-- `SaveRecords`, none if the page is not dirty. The lock of the page may be refused. -/
def saveRecords (page : PageObject) (fresh : PageBuffer) (locked : Bool) :
    Option (Bool × PageObject) :=
  if !page.bDirty then none
  else if page.pageStatus ≠ .valid ∨ maxDataLengthBranch < page.committedDataLength then
    some (false, page)
  else if !locked then some (false, page)
  else
    let page := if page.bRecordUpdated then page.saveUpdated fresh else page
    let bysPage := writeInt parentPagePointerOffset page.parentPageId page.bysPage
    let checksum := UInt32.ofNat (crc32 (bysPage.take crc32IndexOffset))
    let bysPage := writeInt crc32IndexOffset checksum bysPage
    some (true, { page with bysPage, bDirty := false, bNeedDisk := true })

/-! ## Changes -/

def isChangeable (page : PageObject) : Bool :=
  page.pageStatus = .valid || page.pageStatus = .writing

def insertRecord (page : PageObject) (record : RecordBytes) (pos : ℕ) : Option PageObject :=
  if page.isChangeable ∧ pos ≤ page.recordNum then
    some
      { page with
        committedDataLength := page.committedDataLength + (record.bysVal.length + 2)
        vctRecord := page.vctRecord.take pos ++ .outside record :: page.vctRecord.drop pos
        recordNum := page.recordNum + 1
        bRecordUpdated := true
        bDirty := true }
  else none

def deleteRecord (page : PageObject) (index : ℕ) : Option PageObject :=
  if page.isChangeable ∧ index < page.recordNum then
    page.vctRecord[index]?.map fun brDel =>
      { page with
        committedDataLength := page.committedDataLength - brDel.recordLength page.bysPage
        recordNum := page.recordNum - 1
        vctRecord := page.vctRecord.eraseIdx index
        bDirty := true
        bRecordUpdated := true }
  else none

def appendRecord (page : PageObject) (record : RecordBytes) : Bool × PageObject :=
  if maxDataLengthBranch * loadFactor / 100 < page.committedDataLength ∨
      maxDataLengthBranch < page.committedDataLength + record.bysVal.length + 2 then
    (false, page)
  else
    (true,
      { page with
        committedDataLength := page.committedDataLength + (record.bysVal.length + 2)
        vctRecord := page.vctRecord ++ [.outside record]
        recordNum := page.recordNum + 1
        bRecordUpdated := true
        bDirty := true })

/-- What `SplitPage` leaves in the page that it divides. -/
def dividePage (page : PageObject) : Option PageObject := do
  match ← Segments.cut (RecordPlace.recordLength page.bysPage)
      (maxDataLengthBranch * loadFactor / 100) maxDataLengthBranch (2 * page.vctRecord.length + 1)
      [] 0 page.vctRecord with
  | [] => none
  | (part, len) :: _ =>
      some
        { page with
          committedDataLength := len
          recordNum := part.length
          vctRecord := page.vctRecord.take part.length
          bRecordUpdated := true
          bDirty := true }

def setMark (page : PageObject) (bit : UInt8) (b : Bool) : PageObject :=
  let mark := readByte pageBeginEndOffset page.bysPage
  { page with
    bysPage :=
      writeByte pageBeginEndOffset (if b then mark ||| bit else mark &&& ~~~bit) page.bysPage }

/-- `SetBeginPage`. -/
def setBeginPage (page : PageObject) (bBegin : Bool) : PageObject := page.setMark 0x80 bBegin

/-- `SetEndPage`. -/
def setEndPage (page : PageObject) (bEnd : Bool) : PageObject := page.setMark 0x40 bEnd

inductive Change where
  | insertRecord (record : RecordBytes) (pos : ℕ)
  | deleteRecord (index : ℕ)
  | appendRecord (record : RecordBytes)
  | dividePage
  | setParentPageID (parentPageId : UInt32)
  | setBeginPage (bBegin : Bool)
  | setEndPage (bEnd : Bool)
  | setDirty
  /-- `SetRecordUpdated`, always together with `SetDirty`. -/
  | setRecordUpdated
  | setPageStatus (status : PageStatus)
  | saveRecords (fresh : PageBuffer) (locked : Bool)
  /-- The records are dropped while nobody refers to the page, and loaded again. -/
  | reload

def change (page : PageObject) : Change → Option PageObject
  | .insertRecord record pos => page.insertRecord record pos
  | .deleteRecord index => page.deleteRecord index
  | .appendRecord record => some (page.appendRecord record).2
  | .dividePage => page.dividePage
  | .setParentPageID parentPageId => some { page with parentPageId, bDirty := true }
  | .setBeginPage bBegin => some (page.setBeginPage bBegin)
  | .setEndPage bEnd => some (page.setEndPage bEnd)
  | .setDirty => some { page with bDirty := true }
  | .setRecordUpdated => some { page with bRecordUpdated := true, bDirty := true }
  | .setPageStatus status => some { page with pageStatus := status }
  | .saveRecords fresh locked => (page.saveRecords crc32 fresh locked).map Prod.snd
  | .reload => { page with vctRecord := [] }.loadRecords

def create (fresh : PageBuffer) (pageLevel : UInt8) (parentPageId : UInt32)
    (records : List RecordBytes) : PageObject where
  bysPage := writeByte pageBeginEndOffset 0 (writeByte pageLevelOffset pageLevel fresh.val)
  vctRecord := records.map .outside
  recordNum := records.length
  committedDataLength := (records.map fun record => record.bysVal.length + 2).sum
  parentPageId
  bDirty := true
  bRecordUpdated := true
  pageStatus := .valid

/-- The object of a page that is to be read. -/
def opened (bysPage : List Byte) : PageObject where
  bysPage

/-- The branch pages of a tree: new ones, those that are read from what another object of them has
saved, and what becomes of them. -/
inductive Reached : PageObject → Prop
  | create (fresh : PageBuffer) (pageLevel : UInt8) (parentPageId : UInt32)
      (records : List RecordBytes) : Reached (create fresh pageLevel parentPageId records)
  | load (page saved loaded : PageObject) (fresh : PageBuffer) (locked : Bool)
      (parentPage : Option UInt32) (reached : Reached page)
      (save : page.saveRecords crc32 fresh locked = some (true, saved))
      (init : (opened saved.bysPage).initParameters parentPage = some loaded) : Reached loaded
  | change (page page' : PageObject) (change : Change) (reached : Reached page)
      (changed : page.change crc32 change = some page') : Reached page'

/-- The records with their keys and child pages. -/
def records (page : PageObject) : List BranchRecord :=
  page.vctRecord.map fun place => BranchRecord.ofBytes (place.bysVal page.bysPage)

def toBranchPage (page : PageObject) : BranchPage where
  pageLevel := (readByte pageLevelOffset page.bysPage).toNat
  records := page.records
  parentPageId :=
    if page.parentPageId.toNat = pageNullPointer then none else some page.parentPageId.toNat
  endPage := readByte pageBeginEndOffset page.bysPage &&& 0x40 ≠ 0
  committedDataLength := page.committedDataLength

end PageObject

/-! ## Records in a buffer -/

namespace RecordPlace

/-- The record lies in the memory behind its pointer, in a page between the header and the check
sum. -/
def Whole (bysPage : List Byte) : RecordPlace → Prop
  | outside _ => True
  | inPage offset => dataBeginOffset ≤ offset ∧ 2 ≤ fieldAt 2 offset bysPage ∧
      offset + fieldAt 2 offset bysPage ≤ crc32IndexOffset

theorem getTotalLength_inPage (bysPage : List Byte) (offset : ℕ) :
    (inPage offset).getTotalLength bysPage = fieldAt 2 offset bysPage := by
  simp [getTotalLength, memory, fieldAt]

theorem bysVal_inPage (bysPage : List Byte) (offset : ℕ) :
    (inPage offset).bysVal bysPage = slice offset (fieldAt 2 offset bysPage) bysPage := by
  rw [bysVal, getTotalLength_inPage]
  rfl

theorem bysVal_outside (bysPage : List Byte) (record : RecordBytes) :
    (outside record).bysVal bysPage = record.bysVal := by
  unfold bysVal getTotalLength memory
  rw [record.totalLength, List.take_length]

variable {bysPage : List Byte} {place : RecordPlace}

theorem Whole.totalLength (whole : place.Whole bysPage) (size : bysPage.length = indexPageSize) :
    (place.bysVal bysPage).length = place.getTotalLength bysPage ∧
      fieldAt 2 0 (place.bysVal bysPage) = place.getTotalLength bysPage ∧
      2 ≤ place.getTotalLength bysPage := by
  cases place with
  | outside record =>
      rw [bysVal_outside]
      exact ⟨record.totalLength.symm, rfl, record.header.trans record.totalLength.ge⟩
  | inPage offset =>
      rcases whole with ⟨-, two, inside⟩
      rw [bysVal_inPage, getTotalLength_inPage]
      refine ⟨length_slice ?_, fieldAt_slice (by omega), two⟩
      unfold crc32IndexOffset at inside
      omega

/-- The part of the page that records and their positions lie in. -/
def SameData (before after : List Byte) : Prop :=
  slice dataBeginOffset (crc32IndexOffset - dataBeginOffset) after =
    slice dataBeginOffset (crc32IndexOffset - dataBeginOffset) before

variable {before after : List Byte}

theorem SameData.slice_eq (same : SameData before after) {start length : ℕ}
    (begins : dataBeginOffset ≤ start) (ends : start + length ≤ crc32IndexOffset) :
    slice start length after = slice start length before := by
  have inner (bysPage : List Byte) : slice (start - dataBeginOffset) length
      (slice dataBeginOffset (crc32IndexOffset - dataBeginOffset) bysPage) =
        slice start length bysPage := by
    rw [slice_slice (by omega), Nat.add_sub_cancel' begins]
  rw [← inner after, same, inner before]

theorem SameData.fieldAt_eq (same : SameData before after) {width start : ℕ}
    (begins : dataBeginOffset ≤ start) (ends : start + width ≤ crc32IndexOffset) :
    fieldAt width start after = fieldAt width start before :=
  fieldAt_eq_of_slice_eq (same.slice_eq begins ends)

theorem SameData.trans {last : List Byte} (same : SameData before after)
    (same' : SameData after last) : SameData before last :=
  Eq.trans same' same

theorem SameData.whole (same : SameData before after) (whole : place.Whole before) :
    place.Whole after ∧ place.getTotalLength after = place.getTotalLength before ∧
      place.bysVal after = place.bysVal before := by
  cases place with
  | outside record => exact ⟨trivial, rfl, rfl⟩
  | inPage offset =>
      rcases whole with ⟨begins, two, ends⟩
      have length : fieldAt 2 offset after = fieldAt 2 offset before :=
        same.fieldAt_eq begins (by omega)
      simp only [Whole, getTotalLength_inPage, bysVal_inPage, length]
      exact ⟨⟨begins, two, ends⟩, trivial, same.slice_eq begins ends⟩

end RecordPlace

open RecordPlace (SameData)

namespace PageObject

variable {bysPage : List Byte}

theorem sameData_overwriteField (size : bysPage.length = indexPageSize)
    {width offset : ℕ} (value : ℕ) (fits : offset + width ≤ indexPageSize)
    (apart : offset + width ≤ dataBeginOffset ∨ crc32IndexOffset ≤ offset) :
    SameData bysPage (overwriteField width offset value bysPage) := by
  apply slice_overwriteField_of_apart (by omega)
  unfold crc32IndexOffset dataBeginOffset indexPageSize at *
  omega

theorem loadPlaces_of_sameData {before after : List Byte} (same : SameData before after)
    {count pos : ℕ} (begins : dataBeginOffset ≤ pos) (ends : pos + 2 * count ≤ crc32IndexOffset) :
    loadPlaces after count pos = loadPlaces before count pos := by
  induction count generalizing pos with
  | zero => rfl
  | succ count ih =>
      have small : (pos + 2) % 2 ^ 16 = pos + 2 := by
        unfold crc32IndexOffset indexPageSize at ends
        omega
      rw [loadPlaces, loadPlaces, small, same.fieldAt_eq begins (by omega),
        ih (by omega) (by omega)]

/-! ## The loop of a save -/

/-- What the loop leaves: the bytes before the positions and between positions and records, the
positions of the records, and the records. -/
structure Laid (tmp bysPage : List Byte) (places : List RecordPlace) (offPos recPos : ℕ)
    (after : List Byte × List RecordPlace) : Prop where
  size : after.1.length = indexPageSize
  front : ∀ start length, start + length ≤ offPos →
    slice start length after.1 = slice start length bysPage
  between : ∀ start length, offPos + 2 * places.length ≤ start → start + length ≤ recPos →
    slice start length after.1 = slice start length bysPage
  positions : after.2 = loadPlaces after.1 places.length offPos
  records : after.2.map (RecordPlace.bysVal after.1) = places.map (RecordPlace.bysVal tmp)
  whole : ∀ place ∈ after.2, ∃ offset, place = .inPage offset ∧ recPos ≤ offset ∧
    2 ≤ fieldAt 2 offset after.1 ∧ offset + fieldAt 2 offset after.1 ≤
      recPos + (places.map (RecordPlace.getTotalLength tmp)).sum

theorem saveLoop_spec {tmp : List Byte} (tmpSize : tmp.length = indexPageSize)
    (places : List RecordPlace) (whole : ∀ place ∈ places, place.Whole tmp) {offPos recPos : ℕ}
    (size : bysPage.length = indexPageSize)
    (gap : offPos + 2 * places.length ≤ recPos)
    (room : recPos + (places.map (RecordPlace.getTotalLength tmp)).sum ≤ crc32IndexOffset) :
    Laid tmp bysPage places offPos recPos (saveLoop tmp places offPos recPos recPos bysPage) := by
  induction places generalizing offPos recPos bysPage with
  | nil => exact ⟨size, fun _ _ _ => rfl, fun _ _ _ _ => rfl, rfl, rfl, by simp [saveLoop]⟩
  | cons rr places ih =>
      rcases (whole rr (by simp)).totalLength tmpSize with ⟨length, total, two⟩
      simp only [List.map_cons, List.sum_cons, List.length_cons] at gap room
      have pageEnd : crc32IndexOffset = 16380 := rfl
      have pageSize : indexPageSize = 16384 := rfl
      have position : (UInt16.ofNat recPos).toNat = recPos := by
        rw [UInt16.toNat_ofNat']
        omega
      -- the buffer behind the position and the record
      let placed := overwriteField 2 offPos recPos bysPage
      let stored := overwrite recPos (rr.bysVal tmp) placed
      have placedSize : placed.length = indexPageSize :=
        (length_overwriteField (by omega)).trans size
      have storedSize : stored.length = indexPageSize :=
        (length_overwrite (by omega)).trans placedSize
      have rest : Laid tmp stored places (offPos + 2) (recPos + rr.getTotalLength tmp)
          (saveLoop tmp places (offPos + 2) (recPos + rr.getTotalLength tmp)
            (recPos + rr.getTotalLength tmp) stored) :=
        ih (fun place mem => whole place (by simp [mem])) storedSize (by omega) (by omega)
      have same : saveLoop tmp (rr :: places) offPos recPos recPos bysPage =
          ((saveLoop tmp places (offPos + 2) (recPos + rr.getTotalLength tmp)
              (recPos + rr.getTotalLength tmp) stored).1,
            .inPage recPos :: (saveLoop tmp places (offPos + 2) (recPos + rr.getTotalLength tmp)
              (recPos + rr.getTotalLength tmp) stored).2) := by
        rw [saveLoop]
        simp only [writeShort, position]
        rw [Nat.mod_eq_of_lt (by omega), Nat.mod_eq_of_lt (by omega)]
      rw [same]
      generalize saveLoop tmp places (offPos + 2) (recPos + rr.getTotalLength tmp)
        (recPos + rr.getTotalLength tmp) stored = after at rest
      have beside (start count : ℕ) (apart : start + count ≤ offPos ∨
          offPos + 2 ≤ start ∧ start + count ≤ recPos) :
          slice start count stored = slice start count bysPage := by
        refine Eq.trans (slice_overwrite_of_apart (by omega) (Or.inl (by omega))) ?_
        exact slice_overwriteField_of_apart (by omega) (by omega)
      have copied : slice recPos (rr.getTotalLength tmp) after.1 = rr.bysVal tmp := by
        rw [rest.between _ _ (by omega) (by omega), ← length]
        exact slice_overwrite (by omega)
      have header : fieldAt 2 recPos after.1 = rr.getTotalLength tmp := by
        rw [← total, ← copied, fieldAt_slice (by omega), Nat.add_zero]
      refine ⟨rest.size, ?_, ?_, ?_, ?_, ?_⟩
      · intro start count before
        rw [rest.front start count (by omega), beside start count (Or.inl before)]
      · intro start count behind before
        rw [List.length_cons] at behind
        rw [rest.between start count (by omega) (by omega)]
        exact beside start count (Or.inr ⟨by omega, before⟩)
      · have table : fieldAt 2 offPos after.1 = recPos := by
          rw [fieldAt_eq_of_slice_eq (rest.front offPos 2 le_rfl)]
          have kept : fieldAt 2 offPos stored = fieldAt 2 offPos placed :=
            fieldAt_overwrite_of_apart (by omega) (Or.inl (by omega))
          rw [kept, fieldAt_overwriteField (by omega) le_rfl]
          omega
        dsimp only
        rw [List.length_cons, loadPlaces, table, Nat.mod_eq_of_lt (by omega), rest.positions]
      · dsimp only
        rw [List.map_cons, List.map_cons, rest.records, RecordPlace.bysVal_inPage, header, copied]
      · dsimp only
        simp only [List.map_cons, List.sum_cons, List.forall_mem_cons]
        refine ⟨⟨recPos, rfl, le_rfl, by omega, by omega⟩, fun place mem => ?_⟩
        rcases rest.whole place mem with ⟨offset, rfl, behind, long, inside⟩
        exact ⟨offset, rfl, by omega, long, by omega⟩

/-! ## What holds in every state -/

/-- The buffer has the records of the page and their counters. -/
structure Stored (page : PageObject) : Prop where
  fits : page.committedDataLength ≤ maxDataLengthBranch
  recordNum : fieldAt 2 numRecordOffset page.bysPage = page.recordNum
  dataLength : fieldAt 2 totalDataLengthOffset page.bysPage = page.committedDataLength
  places : page.vctRecord = loadPlaces page.bysPage page.recordNum dataBeginOffset

/-- The counters are those of the records, and the buffer has them as long as they are not
changed. -/
structure Sound (page : PageObject) : Prop where
  size : page.bysPage.length = indexPageSize
  whole : ∀ place ∈ page.vctRecord, place.Whole page.bysPage
  recordNum : page.recordNum = page.vctRecord.length
  committed : page.committedDataLength =
    Segments.total (RecordPlace.recordLength page.bysPage) page.vctRecord
  clean : page.bDirty = false → page.bRecordUpdated = false
  stored : page.bRecordUpdated = false → page.Stored

variable {page : PageObject}

theorem Sound.lengths (sound : page.Sound) :
    page.committedDataLength = 2 * page.vctRecord.length +
      (page.vctRecord.map (RecordPlace.getTotalLength page.bysPage)).sum := by
  rw [sound.committed]
  generalize page.vctRecord = places
  induction places with
  | nil => rfl
  | cons place places ih =>
      rw [Segments.total_cons, ih, RecordPlace.recordLength]
      simp only [List.length_cons, List.map_cons, List.sum_cons]
      omega

theorem total_of_sameData {before after : List Byte} (same : SameData before after)
    {places : List RecordPlace} (whole : ∀ place ∈ places, place.Whole before) :
    Segments.total (RecordPlace.recordLength after) places =
      Segments.total (RecordPlace.recordLength before) places := by
  unfold Segments.total
  congr 1
  apply List.map_congr_left
  intro place mem
  unfold RecordPlace.recordLength
  rw [(same.whole (whole place mem)).2.1]

variable {page' : PageObject}

theorem Sound.header (sound : page.Sound)
    (size : page'.bysPage.length = indexPageSize) (same : SameData page.bysPage page'.bysPage)
    (counters : slice numRecordOffset 4 page'.bysPage = slice numRecordOffset 4 page.bysPage)
    (vctRecord : page'.vctRecord = page.vctRecord) (recordNum : page'.recordNum = page.recordNum)
    (committed : page'.committedDataLength = page.committedDataLength)
    (updated : page'.bRecordUpdated = page.bRecordUpdated)
    (clean : page'.bDirty = false → page.bRecordUpdated = false) : page'.Sound where
  size := size
  whole := by
    rw [vctRecord]
    exact fun place mem => (same.whole (sound.whole place mem)).1
  recordNum := by rw [recordNum, vctRecord, sound.recordNum]
  committed := by rw [committed, vctRecord, sound.committed, total_of_sameData same sound.whole]
  clean := fun notDirty => updated.trans (clean notDirty)
  stored := fun notUpdated => by
    have stored := sound.stored (updated ▸ notUpdated)
    have field (start : ℕ) (inside : start + 2 ≤ 4) :
        fieldAt 2 (numRecordOffset + start) page'.bysPage =
          fieldAt 2 (numRecordOffset + start) page.bysPage := by
      rw [← fieldAt_slice inside, counters, fieldAt_slice inside]
    have lengths := sound.lengths
    have fits := stored.fits
    have count := sound.recordNum
    refine ⟨by rw [committed]; exact fits, ?_, ?_, ?_⟩
    · rw [recordNum]
      exact (field 0 (by omega)).trans stored.recordNum
    · rw [committed]
      exact (field 2 (by omega)).trans stored.dataLength
    · rw [vctRecord, recordNum, loadPlaces_of_sameData same le_rfl, ← stored.places]
      have maxEq : maxDataLengthBranch = 16368 := rfl
      have endEq : crc32IndexOffset = 16380 := rfl
      have beginEq : dataBeginOffset = 12 := rfl
      omega

/-- What the writes behind the records of a save leave alone. -/
structure Sealed (before after : List Byte) : Prop where
  size : after.length = indexPageSize
  data : SameData before after
  begins : slice 0 8 after = slice 0 8 before

/-- The end of a save: the parent page and the check sum. -/
def sealPage (crc32 : List Byte → ℕ) (page : PageObject) : List Byte :=
  let bysPage := writeInt parentPagePointerOffset page.parentPageId page.bysPage
  writeInt crc32IndexOffset (UInt32.ofNat (crc32 (bysPage.take crc32IndexOffset))) bysPage

theorem sealed_sealPage (crc32 : List Byte → ℕ) (size : page.bysPage.length = indexPageSize) :
    Sealed page.bysPage (page.sealPage crc32) ∧
      readInt parentPagePointerOffset (page.sealPage crc32) = page.parentPageId := by
  have pageSize : indexPageSize = 16384 := rfl
  have endEq : crc32IndexOffset = 16380 := rfl
  have beginEq : dataBeginOffset = 12 := rfl
  have pointerEq : parentPagePointerOffset = 8 := rfl
  have middle : (writeInt parentPagePointerOffset page.parentPageId page.bysPage).length =
      indexPageSize := (length_overwriteField (by omega)).trans size
  have small := page.parentPageId.toNat_lt
  refine ⟨⟨(length_overwriteField (by omega)).trans middle, ?_, ?_⟩, ?_⟩
  · exact (sameData_overwriteField size _ (by omega) (by omega)).trans
      (sameData_overwriteField middle _ (by omega) (by omega))
  · exact (slice_overwriteField_of_apart (by omega) (by omega)).trans
      (slice_overwriteField_of_apart (by omega) (by omega))
  · have parent :
        fieldAt 4 parentPagePointerOffset (page.sealPage crc32) = page.parentPageId.toNat := by
      refine (fieldAt_overwriteField_of_apart (by omega) (by omega)).trans ?_
      refine (fieldAt_overwriteField (by omega) le_rfl).trans ?_
      omega
    unfold readInt
    rw [parent, UInt32.ofNat_toNat]

/-! ## A save and the image -/

/-- The bytes of the records, in their order. -/
def bysVals (page : PageObject) : List (List Byte) :=
  page.vctRecord.map (RecordPlace.bysVal page.bysPage)

/-- The buffer has the records that this page has, as the header says, and its marks. -/
structure Copies (page saved : PageObject) : Prop where
  bysVals : saved.bysVals = page.bysVals
  recordNum : saved.recordNum = page.recordNum
  committed : saved.committedDataLength = page.committedDataLength
  parentPageId : saved.parentPageId = page.parentPageId
  marks : slice 0 2 saved.bysPage = slice 0 2 page.bysPage

theorem saveUpdated_spec (sound : page.Sound)
    (fits : page.committedDataLength ≤ maxDataLengthBranch) (fresh : PageBuffer) :
    (page.saveUpdated fresh).bysPage.length = indexPageSize ∧
      (∀ place ∈ (page.saveUpdated fresh).vctRecord,
        place.Whole (page.saveUpdated fresh).bysPage) ∧
      (page.saveUpdated fresh).Stored ∧ page.Copies (page.saveUpdated fresh) := by
  have lengths := sound.lengths
  have pageSize : indexPageSize = 16384 := rfl
  have endEq : crc32IndexOffset = 16380 := rfl
  have beginEq : dataBeginOffset = 12 := rfl
  have maxEq : maxDataLengthBranch = 16368 := rfl
  have numEq : numRecordOffset = 4 := rfl
  have totalEq : totalDataLengthOffset = 6 := rfl
  have count := sound.recordNum
  -- the new buffer with the two bytes in front
  let leveled := writeByte pageLevelOffset (readByte pageLevelOffset page.bysPage) fresh.val
  let marked :=
    writeByte pageBeginEndOffset (readByte pageBeginEndOffset page.bysPage) leveled
  have leveledSize : leveled.length = indexPageSize :=
    (length_overwriteField (by rw [fresh.property]; decide)).trans fresh.property
  have markedSize : marked.length = indexPageSize :=
    (length_overwriteField (by rw [leveledSize]; decide)).trans leveledSize
  have byte (offset : ℕ) (inside : offset + 1 ≤ page.bysPage.length) :
      writeLE 1 (readByte offset page.bysPage).toNat = slice offset 1 page.bysPage := by
    have small : fieldAt 1 offset page.bysPage < 256 := fieldAt_lt 1 offset page.bysPage
    rw [readByte, UInt8.toNat_ofNat', Nat.mod_eq_of_lt small, writeLE_fieldAt inside]
  have sizeEq := sound.size
  have marks : slice 0 2 marked = slice 0 2 page.bysPage := by
    have first : slice 0 1 marked = slice 0 1 page.bysPage := by
      refine Eq.trans (slice_overwriteField_of_apart (by rw [leveledSize]; decide)
        (Or.inl (by decide))) ?_
      refine (slice_overwriteField (by rw [fresh.property]; decide)).trans ?_
      exact byte 0 (by omega)
    have second : slice 1 1 marked = slice 1 1 page.bysPage :=
      (slice_overwriteField (by rw [leveledSize]; decide)).trans (byte 1 (by omega))
    rw [slice_add 0 1 1, slice_add 0 1 1, first, second]
  have laid : Laid page.bysPage marked page.vctRecord dataBeginOffset
      (dataBeginOffset + page.recordNum * 2) (saveLoop page.bysPage page.vctRecord dataBeginOffset
        (dataBeginOffset + page.recordNum * 2) (dataBeginOffset + page.recordNum * 2) marked) :=
    saveLoop_spec sound.size page.vctRecord sound.whole markedSize (by omega) (by omega)
  have same : page.saveUpdated fresh = (
      let (bysPage, places) := saveLoop page.bysPage page.vctRecord dataBeginOffset
        (dataBeginOffset + page.recordNum * 2) (dataBeginOffset + page.recordNum * 2) marked
      { page with
        bysPage := overwriteField 2 numRecordOffset page.recordNum
          (overwriteField 2 totalDataLengthOffset page.committedDataLength bysPage)
        vctRecord := places
        bRecordUpdated := false }) := by
    have num : (UInt16.ofNat page.recordNum).toNat = page.recordNum := by
      rw [UInt16.toNat_ofNat']
      omega
    have total : (UInt16.ofNat page.committedDataLength).toNat = page.committedDataLength := by
      rw [UInt16.toNat_ofNat']
      omega
    unfold saveUpdated
    dsimp only
    rw [Nat.mod_eq_of_lt (by omega)]
    simp only [writeShort, num, total]
    rfl
  rw [same]
  generalize saveLoop page.bysPage page.vctRecord dataBeginOffset
    (dataBeginOffset + page.recordNum * 2) (dataBeginOffset + page.recordNum * 2) marked = after
    at laid
  have afterSize := laid.size
  dsimp only
  -- the counters go in front of the records
  have totalSize : (overwriteField 2 totalDataLengthOffset page.committedDataLength
      after.1).length = indexPageSize := (length_overwriteField (by omega)).trans afterSize
  have finalSize : (overwriteField 2 numRecordOffset page.recordNum
      (overwriteField 2 totalDataLengthOffset page.committedDataLength after.1)).length =
        indexPageSize := (length_overwriteField (by omega)).trans totalSize
  have data : SameData after.1 (overwriteField 2 numRecordOffset page.recordNum
      (overwriteField 2 totalDataLengthOffset page.committedDataLength after.1)) :=
    (sameData_overwriteField afterSize _ (by omega) (by omega)).trans
      (sameData_overwriteField totalSize _ (by omega) (by omega))
  have whole : ∀ place ∈ after.2, place.Whole after.1 := by
    intro place mem
    rcases laid.whole place mem with ⟨offset, rfl, behind, two, inside⟩
    exact ⟨by omega, two, by omega⟩
  refine ⟨finalSize, fun place mem => (data.whole (whole place mem)).1, ⟨fits, ?_, ?_, ?_⟩,
    ⟨?_, rfl, rfl, rfl, ?_⟩⟩
  · exact (fieldAt_overwriteField (by omega) le_rfl).trans (Nat.mod_eq_of_lt (by omega))
  · refine (fieldAt_overwriteField_of_apart (by omega) (by omega)).trans ?_
    exact (fieldAt_overwriteField (by omega) le_rfl).trans (Nat.mod_eq_of_lt (by omega))
  · dsimp only
    rw [loadPlaces_of_sameData data le_rfl (by omega), count]
    exact laid.positions
  · have kept : after.2.map (RecordPlace.bysVal (overwriteField 2 numRecordOffset page.recordNum
        (overwriteField 2 totalDataLengthOffset page.committedDataLength after.1))) =
        after.2.map (RecordPlace.bysVal after.1) :=
      List.map_congr_left fun place mem => (data.whole (whole place mem)).2.2
    exact kept.trans laid.records
  · dsimp only
    rw [slice_overwriteField_of_apart (by omega) (by omega),
      slice_overwriteField_of_apart (by omega) (by omega), laid.front 0 2 (by omega)]
    exact marks

theorem Copies.refl (page : PageObject) : page.Copies page :=
  ⟨rfl, rfl, rfl, rfl, rfl⟩

theorem Sound.copied (sound : page.Sound) {saved : PageObject}
    (size : saved.bysPage.length = indexPageSize)
    (whole : ∀ place ∈ saved.vctRecord, place.Whole saved.bysPage) (stored : saved.Stored)
    (copies : page.Copies saved) (updated : saved.bRecordUpdated = false) : saved.Sound where
  size := size
  whole := whole
  recordNum := by
    have lengths := congrArg List.length copies.bysVals
    simp only [bysVals, List.length_map] at lengths
    rw [copies.recordNum, sound.recordNum, lengths]
  committed := by
    have total {page : PageObject} (size : page.bysPage.length = indexPageSize)
        (whole : ∀ place ∈ page.vctRecord, place.Whole page.bysPage) :
        Segments.total (RecordPlace.recordLength page.bysPage) page.vctRecord =
          (page.bysVals.map fun bysVal => bysVal.length + 2).sum := by
      unfold Segments.total bysVals
      rw [List.map_map]
      congr 1
      apply List.map_congr_left
      intro place mem
      rw [Function.comp_apply, ((whole place mem).totalLength size).1]
      rfl
    rw [copies.committed, sound.committed, total sound.size sound.whole, total size whole,
      copies.bysVals]
  clean := fun _ => updated
  stored := fun _ => stored

section Checksum

variable {crc32 : List Byte → ℕ} {fresh : PageBuffer}

theorem saveRecords_eq {locked : Bool} {saved : PageObject}
    (save : page.saveRecords crc32 fresh locked = some (true, saved)) :
    page.bDirty = true ∧ page.pageStatus = .valid ∧
      page.committedDataLength ≤ maxDataLengthBranch ∧
      ∃ moved, (moved = if page.bRecordUpdated then page.saveUpdated fresh else page) ∧
        saved =
          { moved with bysPage := moved.sealPage crc32, bDirty := false, bNeedDisk := true } := by
  unfold saveRecords at save
  split at save
  · cases save
  · rename_i dirty
    split at save
    · cases save
    · rename_i allowed
      split at save
      · cases save
      · simp only [not_or, not_not, Nat.not_lt] at allowed
        cases save
        exact ⟨by simpa using dirty, allowed.1, allowed.2, _, rfl, rfl⟩

/-- A saved page is sound, its buffer has what it had in memory, and so has the header. -/
theorem saveRecords_spec (sound : page.Sound) {locked : Bool}
    {saved : PageObject} (save : page.saveRecords crc32 fresh locked = some (true, saved)) :
    saved.Sound ∧ saved.Stored ∧ page.Copies saved ∧
      readInt parentPagePointerOffset saved.bysPage = page.parentPageId := by
  rcases saveRecords_eq save with ⟨-, -, fits, moved, movedEq, rfl⟩
  have middle : moved.Sound ∧ moved.bRecordUpdated = false ∧ page.Copies moved := by
    by_cases updated : page.bRecordUpdated = true
    · rw [if_pos updated] at movedEq
      rcases saveUpdated_spec sound fits fresh with ⟨size, whole, stored, copies⟩
      rw [← movedEq] at size whole stored copies
      have notUpdated : moved.bRecordUpdated = false := by
        rw [movedEq]
        rfl
      exact ⟨sound.copied size whole stored copies notUpdated, notUpdated, copies⟩
    · rw [if_neg updated] at movedEq
      subst movedEq
      exact ⟨sound, Bool.eq_false_of_not_eq_true updated, Copies.refl _⟩
  rcases middle with ⟨soundMoved, notUpdated, copies⟩
  rcases sealed_sealPage crc32 soundMoved.size with ⟨sealed, parent⟩
  have counters : slice numRecordOffset 4 (moved.sealPage crc32) =
      slice numRecordOffset 4 moved.bysPage := by
    have inner (bysPage : List Byte) : slice 4 4 (slice 0 8 bysPage) = slice (0 + 4) 4 bysPage :=
      slice_slice (by omega)
    refine (inner _).symm.trans ?_
    rw [sealed.begins]
    exact inner _
  have soundSaved : PageObject.Sound
      { moved with bysPage := moved.sealPage crc32, bDirty := false, bNeedDisk := true } :=
    soundMoved.header sealed.size sealed.data counters rfl rfl rfl rfl fun _ => notUpdated
  refine ⟨soundSaved, soundSaved.stored notUpdated, { copies with bysVals := ?_, marks := ?_ },
    parent.trans copies.parentPageId⟩
  · refine Eq.trans ?_ copies.bysVals
    exact List.map_congr_left fun place mem => (sealed.data.whole (soundMoved.whole place mem)).2.2
  · refine Eq.trans ?_ copies.marks
    have inner (bysPage : List Byte) : slice 0 2 (slice 0 8 bysPage) = slice (0 + 0) 2 bysPage :=
      slice_slice (by omega)
    refine (inner _).symm.trans ?_
    rw [sealed.begins]
    exact inner _

theorem initParameters_spec (sound : page.Sound) (stored : page.Stored)
    (parent : readInt parentPagePointerOffset page.bysPage = page.parentPageId)
    {parentPage : Option UInt32} (known : parentPage = none ∨ parentPage = some page.parentPageId) :
    (opened page.bysPage).initParameters parentPage =
      some
        { opened page.bysPage with
          vctRecord := page.vctRecord
          recordNum := page.recordNum
          committedDataLength := page.committedDataLength
          parentPageId := page.parentPageId } := by
  have lengths := sound.lengths
  have fits := stored.fits
  have count := sound.recordNum
  have maxEq : maxDataLengthBranch = 16368 := rfl
  have num : signExtend page.recordNum = page.recordNum := if_pos (by omega)
  have total : signExtend page.committedDataLength = page.committedDataLength :=
    if_pos (by omega)
  have load : (opened page.bysPage).initParameters parentPage = loadRecords
      { opened page.bysPage with
        recordNum := page.recordNum
        committedDataLength := page.committedDataLength
        parentPageId := page.parentPageId } := by
    unfold initParameters opened
    dsimp only
    rw [parent, stored.recordNum, stored.dataLength, num, total]
    rcases known with rfl | rfl
    · rfl
    · dsimp only
      rw [if_pos rfl]
  rw [load, stored.places]
  unfold loadRecords
  rw [if_neg (by simp [opened]; omega)]
  rfl

/-! ## Every change -/

theorem Sound.updated (sound : page.Sound) (bysPage : page'.bysPage = page.bysPage)
    (whole : ∀ place ∈ page'.vctRecord, place.Whole page.bysPage)
    (recordNum : page'.recordNum = page'.vctRecord.length) (committed : page'.committedDataLength =
      Segments.total (RecordPlace.recordLength page.bysPage) page'.vctRecord)
    (dirty : page'.bDirty = true) (recordUpdated : page'.bRecordUpdated = true) : page'.Sound where
  size := bysPage ▸ sound.size
  whole := bysPage ▸ whole
  recordNum := recordNum
  committed := bysPage ▸ committed
  clean := fun notDirty => by
    rw [dirty] at notDirty
    cases notDirty
  stored := fun notUpdated => by
    rw [recordUpdated] at notUpdated
    cases notUpdated

theorem recordLength_outside (bysPage : List Byte) (record : RecordBytes) :
    (RecordPlace.outside record).recordLength bysPage = record.bysVal.length + 2 :=
  congrArg (· + 2) record.totalLength

variable {record : RecordBytes}

theorem insertRecord_eq {pos : ℕ} (inserted : page.insertRecord record pos = some page') :
    pos ≤ page.recordNum ∧ page' =
      { page with
        committedDataLength := page.committedDataLength + (record.bysVal.length + 2)
        vctRecord := page.vctRecord.take pos ++ .outside record :: page.vctRecord.drop pos
        recordNum := page.recordNum + 1
        bRecordUpdated := true
        bDirty := true } := by
  unfold insertRecord at inserted
  rcases Option.ite_none_right_eq_some.mp inserted with ⟨asserted, same⟩
  exact ⟨asserted.2, (Option.some.inj same).symm⟩

theorem Sound.insertRecord (sound : page.Sound) {pos : ℕ}
    (inserted : page.insertRecord record pos = some page') : page'.Sound := by
  rcases insertRecord_eq inserted with ⟨posLe, rfl⟩
  rw [sound.recordNum] at posLe
  refine sound.updated rfl ?_ ?_ ?_ rfl rfl
  · intro place mem
    rcases List.mem_append.mp mem with mem | mem
    · exact sound.whole place (List.mem_of_mem_take mem)
    · rcases List.mem_cons.mp mem with rfl | mem
      · trivial
      · exact sound.whole place (List.mem_of_mem_drop mem)
  · simp only [List.length_append, List.length_take, List.length_cons, List.length_drop,
      sound.recordNum]
    omega
  · have parts := congrArg (Segments.total (RecordPlace.recordLength page.bysPage))
      (List.take_append_drop pos page.vctRecord)
    rw [Segments.total_append] at parts
    dsimp only
    rw [Segments.total_append, Segments.total_cons, recordLength_outside, sound.committed]
    omega

theorem deleteRecord_eq {index : ℕ} (deleted : page.deleteRecord index = some page') :
    ∃ brDel, page.vctRecord[index]? = some brDel ∧ page' =
      { page with
        committedDataLength := page.committedDataLength - brDel.recordLength page.bysPage
        recordNum := page.recordNum - 1
        vctRecord := page.vctRecord.eraseIdx index
        bDirty := true
        bRecordUpdated := true } := by
  unfold deleteRecord at deleted
  rcases Option.ite_none_right_eq_some.mp deleted with ⟨-, same⟩
  rcases Option.map_eq_some_iff.mp same with ⟨brDel, found, rfl⟩
  exact ⟨brDel, found, rfl⟩

theorem Sound.deleteRecord (sound : page.Sound) {index : ℕ}
    (deleted : page.deleteRecord index = some page') : page'.Sound := by
  rcases deleteRecord_eq deleted with ⟨brDel, found, rfl⟩
  rcases List.getElem?_eq_some_iff.mp found with ⟨inside, -⟩
  refine sound.updated rfl (fun place mem => sound.whole place (List.mem_of_mem_eraseIdx mem)) ?_ ?_
    rfl rfl
  · dsimp only
    rw [List.length_eraseIdx_of_lt inside, sound.recordNum]
  · dsimp only
    rw [sound.committed, Segments.total_eraseIdx found]
    omega

theorem Sound.appendRecord (sound : page.Sound) (record : RecordBytes) :
    (page.appendRecord record).2.Sound := by
  unfold PageObject.appendRecord
  split
  · exact sound
  · refine sound.updated rfl ?_ ?_ ?_ rfl rfl
    · intro place mem
      rcases List.mem_append.mp mem with mem | mem
      · exact sound.whole place mem
      · rw [List.mem_singleton.mp mem]
        trivial
    · simp [sound.recordNum]
    · dsimp only
      rw [Segments.total_append, Segments.total_cons, recordLength_outside, sound.committed]
      rfl

theorem Sound.dividePage (sound : page.Sound)
    (divided : page.dividePage = some page') : page'.Sound := by
  unfold PageObject.dividePage at divided
  rcases Option.bind_eq_some_iff.mp divided with ⟨parts, cut, first⟩
  cases parts with
  | nil => cases first
  | cons head parts =>
      rcases head with ⟨part, len⟩
      cases first
      have joined := Segments.cut_joined (fun _ => rfl)
        (fun place _ => Nat.succ_pos (place.getTotalLength page.bysPage + 1)) cut
      have totals := Segments.cut_totals rfl cut (part, len) (by simp)
      rw [List.nil_append, List.flatMap_cons] at joined
      have prefixEq : page.vctRecord.take part.length = part := by
        rw [← joined, List.take_left' rfl]
      refine sound.updated rfl (fun place mem => sound.whole place (List.mem_of_mem_take mem)) ?_ ?_
        rfl rfl
      · dsimp only
        rw [prefixEq]
      · dsimp only
        rw [prefixEq]
        exact totals

theorem Sound.setMark (sound : page.Sound) (bit : UInt8) (b : Bool) :
    (page.setMark bit b).Sound := by
  have size := sound.size
  have pageSize : indexPageSize = 16384 := rfl
  have markEq : pageBeginEndOffset = 1 := rfl
  have numEq : numRecordOffset = 4 := rfl
  refine sound.header ?_ (sameData_overwriteField size _ (by omega) (Or.inl (by decide))) ?_ rfl rfl
    rfl rfl sound.clean
  · exact (length_overwriteField (by omega)).trans size
  · exact slice_overwriteField_of_apart (by omega) (by omega)

theorem Sound.saveRecords (sound : page.Sound) {locked : Bool}
    {result : Bool × PageObject} (save : page.saveRecords crc32 fresh locked = some result) :
    result.2.Sound := by
  rcases result with ⟨success, saved⟩
  cases success with
  | true => exact (saveRecords_spec sound save).1
  | false =>
      have same : page = saved := by
        unfold PageObject.saveRecords at save
        split at save
        · cases save
        · split at save
          · exact congrArg Prod.snd (Option.some.inj save)
          · split at save
            · exact congrArg Prod.snd (Option.some.inj save)
            · cases save
      exact same ▸ sound

theorem reload_eq (sound : page.Sound)
    (loaded : loadRecords { page with vctRecord := [] } = some page') : page' = page := by
  unfold loadRecords at loaded
  rcases Option.ite_none_left_eq_some.mp loaded with ⟨asserted, same⟩
  cases same
  have clean : page.bDirty = false := by
    simp only [Bool.or_eq_true, not_or, Bool.not_eq_true] at asserted
    exact asserted.1.1
  have places := (sound.stored (sound.clean clean)).places
  dsimp only
  rw [← places]

theorem Sound.change (sound : page.Sound) {change : Change}
    (changed : page.change crc32 change = some page') : page'.Sound := by
  cases change with
  | insertRecord record pos => exact sound.insertRecord changed
  | deleteRecord index => exact sound.deleteRecord changed
  | appendRecord record => exact Option.some.inj changed ▸ sound.appendRecord record
  | dividePage => exact sound.dividePage changed
  | setParentPageID parentPageId =>
      rw [← Option.some.inj changed]
      exact sound.header sound.size rfl rfl rfl rfl rfl rfl fun notDirty => by cases notDirty
  | setBeginPage bBegin => exact Option.some.inj changed ▸ sound.setMark 0x80 bBegin
  | setEndPage bEnd => exact Option.some.inj changed ▸ sound.setMark 0x40 bEnd
  | setDirty =>
      rw [← Option.some.inj changed]
      exact sound.header sound.size rfl rfl rfl rfl rfl rfl fun notDirty => by cases notDirty
  | setRecordUpdated =>
      rw [← Option.some.inj changed]
      exact sound.updated rfl sound.whole sound.recordNum sound.committed rfl rfl
  | setPageStatus status =>
      rw [← Option.some.inj changed]
      exact sound.header sound.size rfl rfl rfl rfl rfl rfl sound.clean
  | saveRecords fresh locked =>
      rcases Option.map_eq_some_iff.mp changed with ⟨result, save, rfl⟩
      exact sound.saveRecords save
  | reload => exact reload_eq sound changed ▸ sound

theorem sound_create (fresh : PageBuffer) (pageLevel : UInt8) (parentPageId : UInt32)
    (records : List RecordBytes) : (create fresh pageLevel parentPageId records).Sound where
  size := by
    have leveled : (writeByte pageLevelOffset pageLevel fresh.val).length = indexPageSize :=
      (length_overwriteField (by rw [fresh.property]; decide)).trans fresh.property
    exact (length_overwriteField (by rw [leveled]; decide)).trans leveled
  whole := by
    intro place mem
    rcases List.mem_map.mp mem with ⟨record, -, rfl⟩
    trivial
  recordNum := (List.length_map _).symm
  committed := by
    unfold Segments.total create
    dsimp only
    rw [List.map_map]
    congr 1
    apply List.map_congr_left
    intro record _
    rw [Function.comp_apply, recordLength_outside]
  clean := fun notDirty => by cases notDirty
  stored := fun notUpdated => by cases notUpdated

theorem parent_of_loaded {parentPage : Option UInt32} {loaded : PageObject}
    (init : (opened bysPage).initParameters parentPage = some loaded) :
    parentPage = none ∨ parentPage = some (readInt parentPagePointerOffset bysPage) := by
  unfold initParameters at init
  cases parentPage with
  | none => exact Or.inl rfl
  | some parentId =>
      right
      dsimp only at init
      split at init
      · rename_i same
        exact congrArg some same
      · cases init

theorem Reached.sound (reached : Reached crc32 page) : page.Sound := by
  induction reached with
  | create fresh pageLevel parentPageId records =>
      exact sound_create fresh pageLevel parentPageId records
  | load page saved loaded fresh locked parentPage _ save init sound =>
      rcases saveRecords_spec sound save with ⟨soundSaved, stored, copies, parent⟩
      have known := parent_of_loaded init
      rw [parent, ← copies.parentPageId] at known
      rw [initParameters_spec soundSaved stored (parent.trans copies.parentPageId.symm) known]
        at init
      rw [← Option.some.inj init]
      exact { soundSaved with
        clean := fun _ => rfl,
        stored := fun _ => { stored with } }
  | change page page' change _ changed sound => exact sound.change changed

/-! ## The page without its buffer -/

theorem records_eq (page : PageObject) : page.records = page.bysVals.map BranchRecord.ofBytes := by
  simp [records, bysVals]

/-! ## The image of a page -/

/-- What a save leaves: the pointers are in the new buffer and denote the same bytes, the image ends
before the check sum, and the page that is loaded from the buffer is this one. -/
structure Image (page saved : PageObject) : Prop where
  bysVals : saved.bysVals = page.bysVals
  moved : ∀ place ∈ saved.vctRecord, ∃ offset, place = .inPage offset ∧
    dataBeginOffset ≤ offset ∧
      offset + place.getTotalLength saved.bysPage ≤ crc32IndexOffset
  ends : dataBeginOffset + saved.committedDataLength ≤ crc32IndexOffset
  loaded : ∀ parentPage, parentPage = none ∨ parentPage = some page.parentPageId →
    ∃ loaded, (opened saved.bysPage).initParameters parentPage = some loaded ∧
      loaded.bysVals = page.bysVals ∧ loaded.recordNum = page.recordNum ∧
      loaded.committedDataLength = page.committedDataLength ∧
      readByte pageLevelOffset loaded.bysPage = readByte pageLevelOffset page.bysPage ∧
      readByte pageBeginEndOffset loaded.bysPage = readByte pageBeginEndOffset page.bysPage ∧
      loaded.parentPageId = page.parentPageId ∧ loaded.toBranchPage = page.toBranchPage

theorem inPage_of_mem_loadPlaces {count pos : ℕ} {place : RecordPlace}
    (mem : place ∈ loadPlaces bysPage count pos) : ∃ offset, place = .inPage offset := by
  induction count generalizing pos with
  | zero => cases mem
  | succ count ih =>
      rcases List.mem_cons.mp mem with rfl | mem
      · exact ⟨_, rfl⟩
      · exact ih mem

theorem saveRecords_of_allowed (dirty : page.bDirty = true)
    (fits : page.committedDataLength ≤ maxDataLengthBranch) (valid : page.pageStatus = .valid) :
    ∃ saved, page.saveRecords crc32 fresh true = some (true, saved) := by
  unfold saveRecords
  rw [if_neg (by simp [dirty]), if_neg (by simp [valid, fits])]
  exact ⟨_, rfl⟩

/-- A page that fits is saved with its image, unless it is being written or somebody else has its
lock; then nothing is done. -/
theorem saveRecords_image (reached : Reached crc32 page) (dirty : page.bDirty = true)
    (fits : page.committedDataLength ≤ maxDataLengthBranch) (fresh : PageBuffer) (locked : Bool) :
    (page.pageStatus = .valid ∧ locked = true →
      ∃ saved, page.saveRecords crc32 fresh locked = some (true, saved) ∧ page.Image saved) ∧
    (¬(page.pageStatus = .valid ∧ locked = true) →
      page.saveRecords crc32 fresh locked = some (false, page)) := by
  refine ⟨?_, fun refused => ?_⟩
  · rintro ⟨valid, rfl⟩
    rcases saveRecords_of_allowed dirty fits valid with ⟨saved, save⟩
    refine ⟨saved, save, ?_⟩
    rcases saveRecords_spec reached.sound save with ⟨sound, stored, copies, parent⟩
    have marks (offset : ℕ) (inside : offset + 1 ≤ 2) :
        readByte offset saved.bysPage = readByte offset page.bysPage := by
      have field : fieldAt 1 (0 + offset) saved.bysPage = fieldAt 1 (0 + offset) page.bysPage := by
        rw [← fieldAt_slice inside, copies.marks, fieldAt_slice inside]
      rw [Nat.zero_add] at field
      exact congrArg UInt8.ofNat field
    refine ⟨copies.bysVals, ?_, ?_, ?_⟩
    · intro place mem
      have whole := sound.whole place mem
      rw [stored.places] at mem
      rcases inPage_of_mem_loadPlaces mem with ⟨offset, rfl⟩
      rw [RecordPlace.getTotalLength_inPage]
      exact ⟨offset, rfl, whole.1, whole.2.2⟩
    · have savedFits := stored.fits
      unfold maxDataLengthBranch at savedFits
      unfold dataBeginOffset crc32IndexOffset
      unfold indexPageSize at savedFits ⊢
      omega
    · intro parentPage known
      rw [← copies.parentPageId] at known parent
      have level := marks pageLevelOffset (by decide)
      have beginEnd := marks pageBeginEndOffset (by decide)
      refine ⟨_, initParameters_spec sound stored parent known, copies.bysVals, copies.recordNum,
        copies.committed, level, beginEnd, copies.parentPageId, ?_⟩
      have recordsEq : saved.records = page.records := by
        rw [records_eq, records_eq, copies.bysVals]
      unfold records at recordsEq
      simp only [toBranchPage, records, opened, level, beginEnd, copies.parentPageId,
        copies.committed, recordsEq]
  · unfold saveRecords
    rw [if_neg (by simp [dirty])]
    by_cases valid : page.pageStatus = .valid
    · have notLocked : locked = false := by
        cases locked with
        | false => rfl
        | true => exact absurd ⟨valid, rfl⟩ refused
      rw [if_neg (by simp [valid, fits]), if_pos (by simp [notLocked])]
    · rw [if_pos (Or.inl valid)]

end Checksum

/-- A branch record with a key of one byte. -/
def sampleBytes : RecordBytes where
  bysVal := [9, 0, 1, 0, 65, 3, 0, 0, 0]
  header := by decide
  totalLength := by decide

def zeroBuffer : PageBuffer := ⟨List.replicate indexPageSize 0, List.length_replicate⟩

theorem saveRecords_image_sample :
    ∃ saved, (create zeroBuffer 1 7 [sampleBytes, sampleBytes]).saveRecords crc32 zeroBuffer true =
      some (true, saved) ∧ (create zeroBuffer 1 7 [sampleBytes, sampleBytes]).Image saved :=
  (saveRecords_image (.create zeroBuffer 1 7 [sampleBytes, sampleBytes]) rfl (by decide)
    zeroBuffer true).1 ⟨rfl, rfl⟩

end PageObject

end BranchImage

end RapidDb
