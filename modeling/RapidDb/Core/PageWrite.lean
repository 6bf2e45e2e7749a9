import RapidDb.Core.RecordFormat
import RapidDb.Library.Transition

/-!
# Writing index pages

`SaveRecords` puts what a page is to have on disk into its buffer, with a checksum at the end,
unless the page is being written or too long. `SettleUpdatedPages` goes through the write map of a
range, saves the pages that are dirty and hands every page that has ever been saved to the page
writer, since `SetNeedDisk` sets the flag whatever its argument is. The writer takes the buffer of a
page when it gets to it, and the end of a write makes the status of the page `VALID`.

A split changes the end mark in the buffer before the page is saved. What it does to the page it
splits is one thing, the new pages and the changes of the parent page, of the children and of the
next leaf are others; they follow each other in one task, while the writer goes on. A change of a
page and its way into the write map are one step. Records are the bytes that are saved for them, the
version before for one that is not committed; a statement that ends may change them.
-/

namespace RapidDb

open Transition

namespace PageWrite

structure PageBuffer where
  /-- The byte with the begin and the end mark. -/
  beginEnd : Byte
  /-- The parent page, and the neighbours of a leaf. -/
  pointers : List Byte
  records : List Byte
  crc32 : ℕ
deriving DecidableEq, Repr

-- `boost::crc_32_type` over a byte string.
variable (crc32 : List Byte → ℕ)

namespace PageBuffer

def bytes (bysPage : PageBuffer) : List Byte :=
  bysPage.beginEnd :: (bysPage.pointers ++ bysPage.records)

/-- The checksum is that of the bytes before it. -/
def Sealed (bysPage : PageBuffer) : Prop := bysPage.crc32 = crc32 bysPage.bytes

def isEndPage (bysPage : PageBuffer) : Bool := bysPage.beginEnd &&& 0x40 ≠ 0

def setEndPage (bysPage : PageBuffer) (bEnd : Bool) : PageBuffer :=
  { bysPage with
    beginEnd := if bEnd then bysPage.beginEnd ||| 0x40 else bysPage.beginEnd &&& 0xBF }

end PageBuffer

/-- What the task of a range is doing with a page. -/
inductive PageStage where
  | idle
  /-- In `SplitPage`, before the page is saved. -/
  | splitting
  /-- In a pass over the write map, behind the save; whether the page leaves the map. -/
  | settling (move : Bool)
deriving DecidableEq, Repr

structure IndexPage where
  isLeaf : Bool
  bysPage : PageBuffer
  /-- Which buffer it is. -/
  buffer : ℕ
  pointers : List Byte
  records : List Byte
  /-- No record belongs to a statement that has not ended. -/
  stable : Bool := true
  committedDataLength : ℕ
  pageStatus : PageStatus := .valid
  bDirty : Bool := false
  bRecordUpdated : Bool := false
  bNeedDisk : Bool := false
  bWriteQueue : Bool := false
  stage : PageStage := .idle
  /-- The bytes that were handed to the writer last. -/
  written : Option (List Byte) := none
deriving DecidableEq, Repr

namespace IndexPage

def content (page : IndexPage) : List Byte :=
  page.bysPage.beginEnd :: (page.pointers ++ page.records)

/-- The end of `SaveRecords`. -/
def sealBuffer (page : IndexPage) : IndexPage :=
  let bysPage := { page.bysPage with pointers := page.pointers }
  { page with bysPage := { bysPage with crc32 := crc32 bysPage.bytes }, bNeedDisk := true }

/-- The records are put into a new buffer. -/
def renewBuffer (page : IndexPage) (buffer : ℕ) : IndexPage :=
  { page with
    bysPage := { page.bysPage with records := page.records }
    buffer := buffer
    bRecordUpdated := !page.stable }

/-- `SaveRecords` of both kinds of pages. The length of a leaf is calculated anew on the way; all
records of a branch page are stable. -/
def saveRecords (page : IndexPage) (maxDataLength buffer : ℕ) : Bool × IndexPage :=
  if page.pageStatus ≠ .valid ∨ maxDataLength < page.committedDataLength then (false, page)
  else if page.bRecordUpdated = false then (true, { page.sealBuffer crc32 with bDirty := false })
  else if page.isLeaf ∧ maxDataLength < page.records.length then
    (false, { page with committedDataLength := page.records.length })
  else
    (page.stable,
      { (page.renewBuffer buffer).sealBuffer crc32 with
        committedDataLength := if page.isLeaf then page.records.length else page.committedDataLength
        bDirty := !page.stable })

end IndexPage

structure Write where
  page : ℕ
  /-- The page as it was handed over. -/
  handed : PageBuffer
  /-- The buffer that the writer has taken. -/
  buffer : Option ℕ := none
deriving DecidableEq, Repr

structure PageWriter where
  pages : List IndexPage := []
  writes : List Write := []
  /-- How many buffers have been applied for. -/
  buffers : ℕ := 0
deriving DecidableEq, Repr

def PageWriter.setPage (writer : PageWriter) (p : ℕ) (page : IndexPage) : PageWriter :=
  { writer with pages := writer.pages.set p page }

structure PageValues where
  pointers : List Byte
  records : List Byte
  stable : Bool
  committedDataLength : ℕ

inductive WriteEvent where
  /-- A page is read from the file, or the root page of a new index written at once. -/
  | load (isLeaf : Bool) (beginEnd : Byte) (values : PageValues) (bNeedDisk : Bool)
  /-- A split makes a new page with a buffer that holds anything but the marks, and saves it, unless
  it is the new root page. -/
  | newPage (isLeaf : Bool) (bysPage : PageBuffer) (values : PageValues) (root : Bool)
  | changeRecords (p : ℕ) (values : PageValues)
  | changePointers (p : ℕ) (pointers : List Byte)
  /-- A statement ends. -/
  | resolve (p : ℕ) (records : List Byte) (stable : Bool)
  | beginSplit (p : ℕ) (values : PageValues)
  | endSplit (p : ℕ)
  /-- A pass over the write map saves a page. -/
  | save (p : ℕ)
  /-- It hands the page to the writer. -/
  | hand (p : ℕ)
  /-- The writer takes the buffer of a page. -/
  | prepare (k : ℕ)
  | complete (k : ℕ)

def IndexPage.update (page : IndexPage) (values : PageValues) : IndexPage :=
  { page with
    pointers := values.pointers
    records := values.records
    stable := values.stable
    committedDataLength := values.committedDataLength
    bDirty := true
    bRecordUpdated := true
    bWriteQueue := true }

def loadPage (isLeaf : Bool) (beginEnd : Byte) (values : PageValues) (bNeedDisk : Bool)
    (buffer : ℕ) : IndexPage :=
  let bytes := beginEnd :: (values.pointers ++ values.records)
  { isLeaf := isLeaf
    bysPage := ⟨beginEnd, values.pointers, values.records, crc32 bytes⟩
    buffer := buffer
    pointers := values.pointers
    records := values.records
    committedDataLength := values.committedDataLength
    bNeedDisk := bNeedDisk
    written := some bytes }

/-- A page of a split before it is saved. -/
def newPage (isLeaf : Bool) (bysPage : PageBuffer) (values : PageValues) (buffer : ℕ) : IndexPage :=
  let page : IndexPage :=
    { isLeaf := isLeaf
      bysPage := bysPage
      buffer := buffer
      pointers := values.pointers
      records := values.records
      committedDataLength := values.committedDataLength }
  page.update values

/-- `SetNeedDisk`, which does not look at its argument. -/
def IndexPage.setNeedDisk (page : IndexPage) (_b : Bool) : IndexPage :=
  { page with bNeedDisk := true }

/-- `AddWritePage`. -/
def PageWriter.addWritePage (writer : PageWriter) (p : ℕ) (page : IndexPage) : PageWriter :=
  { writer.setPage p
      { page.setNeedDisk false with
        pageStatus := .writing
        written := some page.bysPage.bytes } with
    writes := writer.writes ++ [{ page := p, handed := page.bysPage }] }

def IndexPage.leaveMap (page : IndexPage) (move : Bool) : IndexPage :=
  { page with stage := .idle, bWriteQueue := page.bWriteQueue && !move }

/-- A step on a page; none if the task is not there. -/
def pageStep (maxDataLength : ℕ) (writer : PageWriter) (p : ℕ) (page : IndexPage) :
    WriteEvent → Option PageWriter
  | .changeRecords _ values =>
      if page.isLeaf ∨ values.stable then some (writer.setPage p (page.update values)) else none
  | .changePointers _ pointers =>
      some (writer.setPage p
        { page with pointers := pointers, bDirty := true, bWriteQueue := true })
  | .resolve _ records stable =>
      if page.stable then none
      else some (writer.setPage p { page with records := records, stable := stable })
  | .beginSplit _ values =>
      if page.stage = .idle ∧ (page.isLeaf ∨ values.stable) then
        some (writer.setPage p { page.update values with
          bysPage :=
            if page.bysPage.isEndPage then page.bysPage.setEndPage false else page.bysPage
          stage := .splitting })
      else none
  | .endSplit _ =>
      if page.stage = .splitting then
        let saved := (page.saveRecords crc32 maxDataLength writer.buffers).2
        some { writer.setPage p
            { saved with bDirty := saved.bDirty || !page.isLeaf, stage := .idle } with
          buffers := writer.buffers + 1 }
      else none
  | .save _ =>
      if page.bWriteQueue = true ∧ page.stage = .idle then
        if page.bDirty then
          let saved := page.saveRecords crc32 maxDataLength writer.buffers
          some { writer.setPage p { saved.2 with stage := .settling saved.1 } with
            buffers := writer.buffers + 1 }
        else some (writer.setPage p { page with stage := .settling true })
      else none
  | .hand _ =>
      match page.stage with
      | .settling move =>
          if page.bNeedDisk then
            if page.pageStatus = .valid ∨ page.pageStatus = .writing then
              some (writer.addWritePage p (page.leaveMap move))
            else none
          else some (writer.setPage p (page.leaveMap move))
      | _ => none
  | _ => none

def next (maxDataLength : ℕ) (writer : PageWriter) (event : WriteEvent) : Option PageWriter :=
  match event with
  | .load isLeaf beginEnd values bNeedDisk =>
      some { writer with
        pages := writer.pages ++ [loadPage crc32 isLeaf beginEnd values bNeedDisk writer.buffers]
        buffers := writer.buffers + 1 }
  | .newPage isLeaf bysPage values root =>
      if isLeaf ∨ values.stable then
        let page := newPage isLeaf bysPage values writer.buffers
        some { writer with
          pages := writer.pages ++
            [if root then page else (page.saveRecords crc32 maxDataLength (writer.buffers + 1)).2]
          buffers := writer.buffers + 2 }
      else none
  | .changeRecords p _ | .changePointers p _ | .resolve p _ _ | .beginSplit p _ | .endSplit p
  | .save p | .hand p =>
      (writer.pages[p]?).bind fun page => pageStep crc32 maxDataLength writer p page event
  | .prepare k => do
      let write ← writer.writes[k]?
      let page ← writer.pages[write.page]?
      return { writer with writes := writer.writes.set k { write with buffer := page.buffer } }
  | .complete k => do
      let write ← writer.writes[k]?
      let page ← writer.pages[write.page]?
      if write.buffer = none then none
      else
        return { writer.setPage write.page { page with pageStatus := .valid } with
          writes := writer.writes.eraseIdx k }

/-! ## What is written -/

structure Written (writer : PageWriter) : Prop where
  /-- What is handed over carries its checksum. -/
  sealed : ∀ write ∈ writer.writes, write.handed.Sealed crc32
  /-- It stays as it is until the write has completed. -/
  unchanged : ∀ write ∈ writer.writes, ∃ page, writer.pages[write.page]? = some page ∧
    page.bysPage = write.handed ∧ ∀ buffer, write.buffer = some buffer → buffer = page.buffer
  /-- A page that has changed since is in the write map, to be saved or handed over. -/
  again : ∀ page ∈ writer.pages, ∀ bytes, page.written = some bytes → bytes ≠ page.content →
    page.bWriteQueue = true ∧ (page.bDirty = true ∨ page.bNeedDisk = true)

/-- A page is handed over when its last write has completed; a page with the end mark is split when
no write of it goes on, and it is short enough afterwards; and nothing changes a page in a split or
between its save and the end of its turn, but the end of a statement. -/
def RegularPage (maxDataLength : ℕ) (page : IndexPage) : WriteEvent → Prop
  | .changeRecords _ _ | .changePointers _ _ => page.stage = .idle
  | .resolve _ records _ => page.stage = .splitting → records.length ≤ maxDataLength
  | .beginSplit _ values => page.bysPage.isEndPage = true →
      page.pageStatus ≠ .writing ∧ values.committedDataLength ≤ maxDataLength ∧
        (page.isLeaf = true → values.records.length ≤ maxDataLength)
  | .hand _ => page.pageStatus ≠ .writing
  | _ => True

def WriteEvent.page : WriteEvent → Option ℕ
  | .changeRecords p _ | .changePointers p _ | .resolve p _ _ | .beginSplit p _ | .endSplit p
  | .save p | .hand p => some p
  | _ => none

def Regular (maxDataLength : ℕ) (writer : PageWriter) (event : WriteEvent) : Prop :=
  ∀ p ∈ event.page, ∀ page ∈ writer.pages[p]?, RegularPage maxDataLength page event

instance (maxDataLength : ℕ) (page : IndexPage) (event : WriteEvent) :
    Decidable (RegularPage maxDataLength page event) :=
  match event with
  | .changeRecords _ _ | .changePointers _ _ => inferInstanceAs (Decidable (page.stage = .idle))
  | .resolve _ _ _ | .beginSplit _ _ => inferInstanceAs (Decidable (_ → _))
  | .hand _ => inferInstanceAs (Decidable (page.pageStatus ≠ .writing))
  | .load _ _ _ _ | .newPage _ _ _ _ | .endSplit _ | .save _ | .prepare _ | .complete _ =>
      isTrue trivial

instance (maxDataLength : ℕ) (writer : PageWriter) (event : WriteEvent) :
    Decidable (Regular maxDataLength writer event) :=
  inferInstanceAs (Decidable (∀ p ∈ event.page, ∀ page ∈ writer.pages[p]?,
    RegularPage maxDataLength page event))

end PageWrite

end RapidDb
