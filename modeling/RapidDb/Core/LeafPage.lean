import RapidDb.Core.BranchPage

/-!
# Leaf pages

A leaf page keeps its records in the order of their index keys and two lengths: that of the
current versions and that of the committed ones. Both are adjusted by every operation and
computed anew when the page is saved.

Saving a page writes the committed version of each record into a new buffer, and the records
point into that buffer afterwards. Here a record keeps its bytes, so that it only keeps those
that were written.
-/

namespace RapidDb

open Bytes

/-- `IndexPage::MAX_DATA_LENGTH_LEAF`. -/
def maxDataLengthLeaf : ℕ := indexPageSize - 20 - 4

namespace LeafRecord

/-- The length of a version in a page, with its position. -/
def pageLength (record : LeafRecord) : ℕ := record.getTotalLength + 2

/-- The newest version that can be saved. -/
def stableVersion : LeafRecord → Option LeafRecord
  | unlocked body => some (unlocked body)
  | locked body lock => if (locked body lock).isStable then some (locked body lock) else none
  | versioned body lock undoRec =>
      if (versioned body lock undoRec).isStable then some (versioned body lock undoRec)
      else undoRec.stableVersion

/-- `SaveData`: the bytes written into the buffer of a page. -/
def saveData (record : LeafRecord) : List Byte :=
  record.body.bysVal.take record.getTotalLength

/-- `UpdateBysValue` with what `SaveData` has written. -/
def updateBysValue (record : LeafRecord) : LeafRecord :=
  record.withBody { record.body with bysVal := record.saveData, bSole := false }

/-- The record after its stable version has been written. -/
def saveStable : LeafRecord → LeafRecord
  | unlocked body => (unlocked body).updateBysValue
  | locked body lock =>
      if (locked body lock).isStable then (locked body lock).updateBysValue
      else locked body lock
  | versioned body lock undoRec =>
      if (versioned body lock undoRec).isStable then
        (versioned body lock undoRec).updateBysValue
      else
        versioned body lock undoRec.saveStable

/-- The record after a releasable lock has been released, if it is not deleted by that. -/
def releaseKept (record : LeafRecord) : Option (Option LeafRecord) :=
  record.releaseLock.map fun out => if out.result = .deleted then none else some out.record

/-- What `SaveRecords` does with a record first: releasing its lock and leaving it out if it has
been deleted. -/
def settleForSave (record : LeafRecord) : Option (Option LeafRecord) :=
  let released := if record.releaseLockAble then record.releaseKept else some (some record)
  released.map fun kept => kept.filter fun record => !(record.isStable && record.isDelete)

/-- What `SplitPage` does with a record first. -/
def settleForSplit (record : LeafRecord) : Option (Option LeafRecord) :=
  if record.releaseLockAble then record.releaseKept
  else some (if record.recLock.isNone && record.isDelete then none else some record)

end LeafRecord

structure LeafPage where
  records : List LeafRecord := []
  parentPageId : Option PageID
  prevPageId : Option PageID := none
  nextPageId : Option PageID := none
  endPage : Bool := false
  committedDataLength : ℤ := 0
  tempDataLength : ℤ := 0
deriving DecidableEq, Repr

namespace LeafPage

def isOverlength (page : LeafPage) : Bool :=
  maxDataLengthLeaf ≤ asUInt32 page.committedDataLength ||
    maxDataLengthLeaf ≤ asUInt32 page.tempDataLength

def insertRecord (page : LeafPage) (lr : LeafRecord) (pos : ℕ) : LeafPage :=
  { page with
    records := page.records.take pos ++ lr :: page.records.drop pos
    tempDataLength := page.tempDataLength + lr.pageLength
    committedDataLength :=
      if lr.recLock.isNone then page.committedDataLength + lr.pageLength
      else page.committedDataLength }

/-- The comparison of a record of the page with another one. -/
def compareAt (type : IndexType) (page : LeafPage) (rr : LeafRecord) (middle : ℕ) : ℤ :=
  (page.records[middle]?.map fun record =>
    bytesCompare (record.indexKey type) (rr.indexKey type)).getD 0

/-- `SearchRecord` over all records: `bFind` and the position. -/
def searchRecord (type : IndexType) (page : LeafPage) (rr : LeafRecord) : Bool × ℕ :=
  let recordNum := page.records.length
  BinarySearch.search (page.compareAt type rr) recordNum 0 recordNum

/-- `SearchKey` over all records for the bytes of a key: `bFind` and the position. -/
def searchKey (type : IndexType) (page : LeafPage) (key : List Byte) : Bool × ℕ :=
  let recordNum := page.records.length
  BinarySearch.searchFirst (type ≠ .nonUnique)
    (fun middle => (page.records[middle]?.map fun record => bytesCompare record.getKey key).getD 0)
    recordNum 0 recordNum

/-- `SearchKey` for a record. -/
def searchKeyOf (type : IndexType) (page : LeafPage) (rr : LeafRecord) : Bool × ℕ :=
  page.searchKey type rr.getKey

/-- The lengths of the current and of the stable versions of some records. -/
def dataLength (records : List LeafRecord) : ℕ × ℕ :=
  (Segments.total LeafRecord.pageLength records,
    Segments.total (fun record => (record.stableVersion.map LeafRecord.pageLength).getD 0) records)

/-- What `SaveRecords` leaves of a page, the versions it has written, and whether all records
are stable. -/
structure Saved where
  page : LeafPage
  vctLr : List LeafRecord
  bClean : Bool

def saveRecords (page : LeafPage) : Option Saved :=
  if maxDataLengthLeaf < asUInt32 page.committedDataLength then
    some { page := page, vctLr := [], bClean := false }
  else
    (page.records.mapM LeafRecord.settleForSave).map fun settled =>
      let records := settled.filterMap id
      let (tempLength, committedLength) := dataLength records
      let page :=
        { page with
          records := records
          committedDataLength := committedLength
          tempDataLength := tempLength }
      if maxDataLengthLeaf < committedLength then
        { page := page, vctLr := [], bClean := false }
      else
        { page := { page with records := records.map LeafRecord.saveStable }
          vctLr := records.filterMap LeafRecord.stableVersion
          bClean := records.all LeafRecord.isStable }

structure SplitPart where
  records : List LeafRecord
  committedLength : ℤ
  tempLength : ℤ
deriving DecidableEq, Repr

/-- The loop of `SplitPage` that finds the parts of a page. If a part does not fit any more, it
takes back the lengths of the last record, read from the version that can be saved. -/
def splitLoop : ℕ → List LeafRecord → ℤ → ℤ → List LeafRecord → Option (List SplitPart)
  | 0, _, _, _, _ => none
  | _ + 1, part, clen, tlen, [] => some (if 0 < tlen then [⟨part, clen, tlen⟩] else [])
  | fuel + 1, part, clen, tlen, lr :: rest =>
      lr.settleForSplit.bind fun
        | none => splitLoop fuel part clen tlen rest
        | some lr =>
            let version := lr.stableVersion
            let len := (version.map LeafRecord.pageLength).getD 0
            let clen := clen + len
            let tlen := tlen + lr.pageLength
            let maxLen : ℤ := maxDataLengthLeaf * loadFactor / 100
            if maxLen < clen ∨ maxLen < tlen then
              if maxDataLengthLeaf < clen ∨ maxDataLengthLeaf < tlen then
                version.bind fun version =>
                  (splitLoop fuel [] 0 0 (lr :: rest)).map
                    (⟨part, clen - len, tlen - version.pageLength⟩ :: ·)
              else
                (splitLoop fuel [] 0 0 rest).map (⟨part ++ [lr], clen, tlen⟩ :: ·)
            else
              splitLoop fuel (part ++ [lr]) clen tlen rest

/-- The parts of a page, from its first record on. -/
def splitParts (page : LeafPage) : Option (List SplitPart) :=
  splitLoop (2 * page.records.length + 1) [] 0 0 page.records

end LeafPage

/-!
## Records without locks
-/

namespace LeafRecord

/-- A record that can go into an index: it holds no lock and no overflow page, its bytes are as
long as its header says, and it fits into a leaf as the record made from it fits into a branch
page. -/
structure Insertable (type : IndexType) (record : LeafRecord) : Prop where
  noLock : record.recLock = none
  alive : record.isDelete = false
  noOverflow : record.body.overflowPage = none
  indexType : record.body.indexType = type
  total : record.getActualLength = record.body.bysVal.length
  key : record.getKeyLength + 12 ≤ record.body.bysVal.length
  value : record.getKeyLength + record.getValueLength + 4 ≤ record.body.bysVal.length
  fits : record.body.bysVal.length + 2 ≤ maxDataLengthLeaf
  branchFits : record.getKeyLength + record.getValueLength + 10 ≤ maxDataLengthBranch

def inPage (record : LeafRecord) : LeafRecord :=
  record.withBody { record.body with bSole := false }

section Insertable

variable {type : IndexType} {record : LeafRecord}

@[simp]
theorem indexKey_inPage (record : LeafRecord) :
    record.inPage.indexKey type = record.indexKey type := by
  cases record <;> rfl

@[simp]
theorem inPage_inPage (record : LeafRecord) : record.inPage.inPage = record.inPage := by
  cases record <;> rfl

variable (insertable : record.Insertable type)

include insertable

theorem Insertable.eq_unlocked : record = unlocked record.body := by
  have noLock := insertable.noLock
  cases record with
  | unlocked body => rfl
  | locked body lock => cases noLock
  | versioned body lock undoRec => cases noLock

theorem Insertable.pageLength_eq : record.pageLength = record.body.bysVal.length + 2 := by
  have alive : record.body.bDelete = false := insertable.alive
  rw [pageLength, getTotalLength, alive, ← insertable.total]
  rfl

theorem Insertable.stableVersion_eq : record.stableVersion = some record := by
  rw [insertable.eq_unlocked]
  rfl

theorem Insertable.releaseLockAble_eq : record.releaseLockAble = false := by
  rw [releaseLockAble, insertable.noLock]

theorem Insertable.settleForSave_eq : record.settleForSave = some (some record) := by
  simp [settleForSave, insertable.releaseLockAble_eq, insertable.alive]

theorem Insertable.settleForSplit_eq : record.settleForSplit = some (some record) := by
  simp [settleForSplit, insertable.releaseLockAble_eq, insertable.alive]

theorem Insertable.saveStable_eq : record.saveStable = record.inPage := by
  have alive : record.body.bDelete = false := insertable.alive
  have total := insertable.total
  have whole : record.saveData = record.body.bysVal := by
    rw [saveData, getTotalLength, alive, total]
    exact List.take_length
  have saved : record.updateBysValue = record.inPage := by
    rw [updateBysValue, whole]
    rfl
  rw [← saved]
  conv_lhs => rw [insertable.eq_unlocked]
  conv_rhs => rw [insertable.eq_unlocked]
  rfl

theorem Insertable.inPage : record.inPage.Insertable type := by
  rw [insertable.eq_unlocked]
  exact { insertable with noLock := rfl }

theorem Insertable.ofLeaf_spec (childPageId : PageID) :
    (BranchRecord.ofLeaf record childPageId).Valid ∧
      (BranchRecord.ofLeaf record childPageId).indexKey type = record.indexKey type ∧
      (BranchRecord.ofLeaf record childPageId).childPage = childPageId := by
  have total := insertable.total
  have key := insertable.key
  have value := insertable.value
  have fits := insertable.fits
  have branchFits := insertable.branchFits
  have typeEq := insertable.indexType
  have keyEq : record.getKeyLength = fieldAt 2 2 record.body.bysVal := rfl
  have maxLeaf : maxDataLengthLeaf = 16360 := rfl
  have maxBranch : maxDataLengthBranch = 16368 := rfl
  refine ⟨BranchRecord.valid_new (by omega) (by omega), ?_, rfl⟩
  rw [BranchRecord.ofLeaf, BranchRecord.indexKey_new _ (by omega) (by omega), indexKey]
  by_cases nonUnique : type = .nonUnique
  · have lenVal : record.getValueLength = record.body.bysVal.length - 12 - record.getKeyLength := by
      rw [getValueLength, typeEq, nonUnique, if_neg (by decide), total]
      omega
    have dataEq : record.getDataLength = record.body.bysVal.length - 12 := by
      rw [getDataLength, total]
      omega
    exact congrArg (indexBytes type record.body.bysVal) (by omega)
  · simp only [indexBytes, if_neg nonUnique]

end Insertable

end LeafRecord

namespace LeafPage

open LeafRecord

variable {type : IndexType} {records : List LeafRecord}

theorem splitLoop_eq_cut (plain : ∀ lr ∈ records, lr.Insertable type) (fuel : ℕ)
    (part : List LeafRecord) (len : ℕ) :
    splitLoop fuel part len len records =
      (Segments.cut LeafRecord.pageLength (maxDataLengthLeaf * loadFactor / 100)
        maxDataLengthLeaf fuel part len records).map
        (List.map fun part => ⟨part.1, part.2, part.2⟩) := by
  have limitEq : (maxDataLengthLeaf : ℤ) * loadFactor / 100 = 14724 := by decide
  have limitNat : maxDataLengthLeaf * loadFactor / 100 = 14724 := by decide
  have maxEq : maxDataLengthLeaf = 16360 := rfl
  induction fuel generalizing part len records with
  | zero => rfl
  | succ fuel ih =>
      cases records with
      | nil =>
          by_cases positive : 0 < len
          · simp [splitLoop, Segments.cut, positive]
          · simp [splitLoop, Segments.cut, positive]
      | cons lr rest =>
          have insertable := plain lr List.mem_cons_self
          have restPlain : ∀ lr ∈ rest, lr.Insertable type :=
            fun other mem => plain other (List.mem_cons_of_mem _ mem)
          have sum : (len : ℤ) + lr.pageLength = ((len + lr.pageLength : ℕ) : ℤ) := by simp
          have again := ih plain [] 0
          have next := ih restPlain [] 0
          have collect := ih restPlain (part ++ [lr]) (len + lr.pageLength)
          simp only [Nat.cast_zero] at again next
          simp only [splitLoop, insertable.settleForSplit_eq, insertable.stableVersion_eq,
            Option.bind_some, Option.map_some, Option.getD_some, or_self, Segments.cut, sum]
          simp only [limitEq, limitNat] at again next collect ⊢
          by_cases passes : 14724 < len + lr.pageLength
          · by_cases tooLong : maxDataLengthLeaf < len + lr.pageLength
            · rw [if_pos (by omega), if_pos (by omega), if_pos passes, if_pos tooLong, again]
              simp [Option.map_map, Function.comp_def]
            · rw [if_pos (by omega), if_neg (by omega), if_pos passes, if_neg tooLong, next]
              simp [Option.map_map, Function.comp_def]
          · rw [if_neg (by omega), if_neg passes, collect]

/-- A page whose records hold no locks, and whose lengths are those of its records. -/
structure Plain (type : IndexType) (page : LeafPage) : Prop where
  records : ∀ lr ∈ page.records, lr.Insertable type
  committed : page.committedDataLength = Segments.total pageLength page.records
  temp : page.tempDataLength = Segments.total pageLength page.records

variable {page : LeafPage}

theorem total_inPage (plain : ∀ lr ∈ records, lr.Insertable type) :
    Segments.total pageLength (records.map inPage) = Segments.total pageLength records := by
  simp only [Segments.total, List.map_map]
  refine congrArg List.sum (List.map_congr_left fun lr mem => ?_)
  have insertable := plain lr mem
  rw [Function.comp_apply, insertable.inPage.pageLength_eq, insertable.pageLength_eq,
    insertable.eq_unlocked]
  rfl

theorem total_stableVersion (plain : ∀ lr ∈ records, lr.Insertable type) :
    Segments.total (fun lr => (lr.stableVersion.map pageLength).getD 0) records =
      Segments.total pageLength records := by
  refine congrArg List.sum (List.map_congr_left fun lr mem => ?_)
  rw [(plain lr mem).stableVersion_eq]
  rfl

theorem Plain.splitParts_spec (plain : page.Plain type) :
    ∃ parts : List (List LeafRecord × ℕ),
      page.splitParts = some (parts.map fun part => ⟨part.1, part.2, part.2⟩) ∧
        parts.flatMap Prod.fst = page.records ∧
        ∀ part ∈ parts, Segments.Part pageLength (maxDataLengthLeaf * loadFactor / 100)
          maxDataLengthLeaf part := by
  have fits : ∀ lr ∈ page.records, 0 < lr.pageLength ∧ lr.pageLength ≤ maxDataLengthLeaf := by
    intro lr mem
    have insertable := plain.records lr mem
    rw [insertable.pageLength_eq]
    exact ⟨Nat.succ_pos _, insertable.fits⟩
  have limitLe : maxDataLengthLeaf * loadFactor / 100 ≤ maxDataLengthLeaf := by decide
  rcases Segments.cut_all limitLe fits with ⟨parts, cutEq, joined, all⟩
  have loop := splitLoop_eq_cut plain.records (2 * page.records.length + 1) [] 0
  rw [cutEq] at loop
  exact ⟨parts, loop, joined, all⟩

theorem Plain.saveRecords_eq (plain : page.Plain type)
    (fits : Segments.total pageLength page.records ≤ maxDataLengthLeaf) :
    page.saveRecords.map Saved.page = some { page with records := page.records.map inPage } := by
  have maxEq : maxDataLengthLeaf = 16360 := rfl
  have length : asUInt32 page.committedDataLength = Segments.total pageLength page.records := by
    rw [plain.committed]
    exact asUInt32_natCast (by omega)
  have settled : page.records.mapM settleForSave = some (page.records.map some) := by
    have same : ∀ records : List LeafRecord, (∀ lr ∈ records, lr.Insertable type) →
        records.mapM settleForSave = some (records.map some) := by
      intro records
      induction records with
      | nil => exact fun _ => rfl
      | cons lr records ih =>
          intro plain
          rw [List.mapM_cons, (plain lr List.mem_cons_self).settleForSave_eq,
            ih fun other mem => plain other (List.mem_cons_of_mem _ mem)]
          rfl
    exact same page.records plain.records
  have kept : (page.records.map some).filterMap id = page.records := by simp
  have saved : page.records.map saveStable = page.records.map inPage :=
    List.map_congr_left fun lr mem => (plain.records lr mem).saveStable_eq
  rw [saveRecords, if_neg (by omega), settled]
  simp only [Option.map_some, kept, dataLength, total_stableVersion plain.records]
  rw [if_neg (by omega), saved, ← plain.temp]
  have committed : (Segments.total pageLength page.records : ℤ) = page.committedDataLength :=
    plain.committed.symm
  simp only [committed, plain.temp]

theorem found_searchRecord (lr : LeafRecord)
    (sorted : (page.records.map (LeafRecord.indexKey type)).Pairwise (· < ·)) :
    BinarySearch.Found (page.records.map (LeafRecord.indexKey type)) (lr.indexKey type)
      (page.searchRecord type lr) := by
  have compares : ∀ (position : ℕ)
      (inside : position < (page.records.map (LeafRecord.indexKey type)).length),
      Compares (page.compareAt type lr position)
        (page.records.map (LeafRecord.indexKey type))[position] (lr.indexKey type) := by
    intro position inside
    rw [List.length_map] at inside
    simp only [compareAt, List.getElem?_eq_getElem inside, Option.map_some, Option.getD_some,
      List.getElem_map]
    exact compares_bytesCompare _ _
  have found := BinarySearch.found_search_all sorted compares
  rwa [List.length_map] at found

theorem searchRecord_new {lr : LeafRecord}
    (sorted : (page.records.map (LeafRecord.indexKey type)).Pairwise (· < ·))
    (isNew : lr.indexKey type ∉ page.records.map (LeafRecord.indexKey type)) :
    ∃ pos, page.searchRecord type lr = (false, pos) ∧
      (∀ other ∈ page.records.take pos, other.indexKey type < lr.indexKey type) ∧
      ∀ other ∈ page.records.drop pos, lr.indexKey type < other.indexKey type := by
  have found := found_searchRecord lr sorted
  generalize page.searchRecord type lr = result at found ⊢
  rcases result with ⟨_ | _, pos⟩
  · rcases found with ⟨before, behind⟩
    refine ⟨pos, rfl, fun other mem => before _ ?_, fun other mem => behind _ ?_⟩
    · rw [← List.map_take]
      exact List.mem_map_of_mem mem
    · rw [← List.map_drop]
      exact List.mem_map_of_mem mem
  · exact absurd (List.mem_of_getElem? found) isNew

theorem searchRecord_mem {lr : LeafRecord} (mem : lr ∈ page.records)
    (sorted : (page.records.map (LeafRecord.indexKey type)).Pairwise (· < ·)) :
    ∃ pos, page.searchRecord type lr = (true, pos) ∧ page.records[pos]? = some lr := by
  have found := found_searchRecord lr sorted
  have keyMem : lr.indexKey type ∈ page.records.map (LeafRecord.indexKey type) :=
    List.mem_map_of_mem mem
  generalize page.searchRecord type lr = result at found ⊢
  rcases result with ⟨_ | _, pos⟩
  · rcases found with ⟨before, behind⟩
    rw [← List.take_append_drop pos (page.records.map (LeafRecord.indexKey type)),
      List.mem_append] at keyMem
    rcases keyMem with keyMem | keyMem
    · exact absurd (before _ keyMem) (lt_irrefl _)
    · exact absurd (behind _ keyMem) (lt_irrefl _)
  · refine ⟨pos, rfl, ?_⟩
    rcases List.getElem?_of_mem mem with ⟨position, atPosition⟩
    have sameKey : (page.records.map (LeafRecord.indexKey type))[position]? =
        (page.records.map (LeafRecord.indexKey type))[pos]? := by
      rw [List.getElem?_map, atPosition]
      exact found.symm
    rcases List.getElem?_eq_some_iff.mp found with ⟨inside, -⟩
    have same : pos = position :=
      (List.getElem?_inj inside (sorted.imp ne_of_lt)).mp sameKey.symm
    rw [same, atPosition]

end LeafPage

end RapidDb
