import RapidDb.Core.LeafRecord
import RapidDb.Library.BinarySearch
import RapidDb.Library.OrderedCode
import RapidDb.Library.Segments
import RapidDb.Utils.BytesFuncs

/-!
# Branch pages

A branch record holds a key and the page it leads to. The key is copied from the last record
of that page, for a non-unique index together with the primary key behind it.

The length of a page is a `uint32_t` that is only added to and subtracted from. It is kept as
an integer here and read modulo `2 ^ 32`.
-/

namespace RapidDb

open Bytes

/-- The part of a record that decides its place in an index: its key, for a non-unique index
its key and its primary key. -/
def indexBytes (type : IndexType) (bysVal : List Byte) (dataLength : ℕ) : List Byte :=
  slice 4 (if type = .nonUnique then dataLength else fieldAt 2 2 bysVal) bysVal

def LeafRecord.indexKey (type : IndexType) (record : LeafRecord) : List Byte :=
  indexBytes type record.body.bysVal record.getDataLength

structure BranchRecord where
  bysVal : List Byte
  childPage : PageID
deriving DecidableEq, Repr

namespace BranchRecord

def getTotalLength (record : BranchRecord) : ℕ := fieldAt 2 0 record.bysVal

def getKeyLength (record : BranchRecord) : ℕ := fieldAt 2 2 record.bysVal

def getValueLength (type : IndexType) (record : BranchRecord) : ℕ :=
  if type = .nonUnique then
    (record.getTotalLength + 2 ^ 16 - (4 + 4 + record.getKeyLength) % 2 ^ 16) % 2 ^ 16
  else
    0

def getDataLength (record : BranchRecord) : ℕ :=
  (record.getTotalLength + 2 ^ 16 - (4 + 4)) % 2 ^ 16

def indexKey (type : IndexType) (record : BranchRecord) : List Byte :=
  indexBytes type record.bysVal record.getDataLength

/-- The constructor of `BranchRecord` from the bytes and the value length of another record. -/
def new (bysVal : List Byte) (lenVal : ℕ) (childPageId : PageID) : BranchRecord :=
  let lenKey := fieldAt 2 2 bysVal
  let totalLen := lenKey + lenVal + 4 + 4
  { bysVal := writeLE 2 totalLen ++ writeLE 2 lenKey ++ slice 4 (lenKey + lenVal) bysVal ++
      writeLE 4 childPageId
    childPage := childPageId }

def ofLeaf (record : LeafRecord) (childPageId : PageID) : BranchRecord :=
  new record.body.bysVal record.getValueLength childPageId

def ofBranch (type : IndexType) (record : BranchRecord) (childPageId : PageID) : BranchRecord :=
  new record.bysVal (record.getValueLength type) childPageId

end BranchRecord

/-- `IndexPage::LOAD_FACTOR`, in percent. -/
def loadFactor : ℕ := 90

/-- `IndexPage::LOAD_THRESHOLD`. -/
def loadThreshold : ℕ := indexPageSize * 5

/-- `IndexPage::MAX_DATA_LENGTH_BRANCH`. -/
def maxDataLengthBranch : ℕ := indexPageSize - 12 - 4

/-- The value of a `uint32_t` that is kept as an integer. -/
def asUInt32 (value : ℤ) : ℕ := (value % 2 ^ 32).toNat

theorem asUInt32_natCast {value : ℕ} (small : value < 2 ^ 32) : asUInt32 value = value := by
  rw [asUInt32, Int.emod_eq_of_lt (Int.natCast_nonneg value) (by omega), Int.toNat_natCast]

theorem asUInt32_natCast_le (value : ℕ) : asUInt32 value ≤ value := by
  rw [asUInt32]
  omega

/-- `PAGE_NULL_POINTER` is `none` in the links between pages. -/
structure BranchPage where
  pageLevel : ℕ
  records : List BranchRecord := []
  parentPageId : Option PageID
  endPage : Bool := false
  committedDataLength : ℤ := 0
deriving DecidableEq, Repr

namespace BranchPage

/-- The length of a record in a page, with its position. -/
def recordLength (record : BranchRecord) : ℕ := record.getTotalLength + 2

def isOverlength (page : BranchPage) : Bool :=
  maxDataLengthBranch ≤ asUInt32 page.committedDataLength

def needForceSplit (page : BranchPage) : Bool :=
  loadThreshold < asUInt32 page.committedDataLength

def deleteRecord (page : BranchPage) (index : ℕ) : Option (BranchRecord × BranchPage) :=
  page.records[index]?.map fun brDel =>
    (brDel,
      { page with
        records := page.records.eraseIdx index
        committedDataLength := page.committedDataLength - recordLength brDel })

def insertRecord (page : BranchPage) (record : BranchRecord) (pos : ℕ) : BranchPage :=
  { page with
    records := page.records.take pos ++ record :: page.records.drop pos
    committedDataLength := page.committedDataLength + recordLength record }

def insertRecords (page : BranchPage) : List BranchRecord → ℕ → BranchPage
  | [], _ => page
  | record :: records, pos => (page.insertRecord record pos).insertRecords records (pos + 1)

/-- The comparison of a record of the page with a key. -/
def compareAt (type : IndexType) (page : BranchPage) (key : List Byte) (middle : ℕ) : ℤ :=
  (page.records[middle]?.map fun record => bytesCompare (record.indexKey type) key).getD 0

/-- The search for the record that leads to a key, the last one if all are smaller. -/
def searchRecord (type : IndexType) (page : BranchPage) (key : List Byte) : ℕ :=
  let recordNum := page.records.length
  let pos := (BinarySearch.search (page.compareAt type key) recordNum 0 recordNum).2
  if recordNum ≤ pos then recordNum - 1 else pos

/-- The loop of `SplitPage` that finds the parts of a page and their lengths. -/
def splitParts (page : BranchPage) : Option (List (List BranchRecord × ℕ)) :=
  Segments.cut recordLength (maxDataLengthBranch * loadFactor / 100) maxDataLengthBranch
    (2 * page.records.length + 1) [] 0 page.records

end BranchPage

/-- What is searched for, by the overloaded functions for a record and for a key. A record comes
with its bytes that decide its place in the index. -/
inductive SearchTarget where
  | record (indexKey : List Byte)
  | key (bysKey : List Byte)
deriving DecidableEq, Repr

/-- The key, without the primary key that a non-unique index puts behind it. -/
def BranchRecord.getKey (record : BranchRecord) : List Byte :=
  slice 4 record.getKeyLength record.bysVal

namespace SearchTarget

def bytes : SearchTarget → List Byte
  | record indexKey => indexKey
  | key bysKey => bysKey

/-- `CompareTo` or `CompareKey` of a branch record. -/
def compareWith (type : IndexType) (br : BranchRecord) : SearchTarget → ℤ
  | record indexKey => bytesCompare (br.indexKey type) indexKey
  | key bysKey => bytesCompare br.getKey bysKey

/-- The search among branch records, the same one in `SearchRecord` and `SearchKey` of a branch
page, in `CalcIndexRange` and in `GetTopPage`. -/
def position (type : IndexType) (records : List BranchRecord) (target : SearchTarget) : ℕ :=
  let num := records.length
  let compare := fun middle => (records[middle]?.map fun br => target.compareWith type br).getD 0
  BinarySearch.clamp num <|
    match target with
    | record _ => (BinarySearch.search compare num 0 num).2
    | key _ => (BinarySearch.searchFirst (type ≠ .nonUnique) compare num 0 num).2

end SearchTarget

/-!
## Branch records
-/

namespace BranchRecord

/-- The lengths of a record are those of its bytes, and the record fits into a page. -/
structure Valid (record : BranchRecord) : Prop where
  total : record.getTotalLength = record.bysVal.length
  key : record.getKeyLength + 8 ≤ record.getTotalLength
  fits : BranchPage.recordLength record ≤ maxDataLengthBranch

section New

variable {bysVal : List Byte} {lenVal : ℕ} {childPageId : PageID}

theorem getTotalLength_new (small : fieldAt 2 2 bysVal + lenVal + 8 < 2 ^ 16) :
    (new bysVal lenVal childPageId).getTotalLength = fieldAt 2 2 bysVal + lenVal + 8 := by
  simp only [getTotalLength, new, fieldAt, List.drop_zero, List.append_assoc]
  rw [readLE_writeLE_append]
  exact Nat.mod_eq_of_lt small

theorem getKeyLength_new :
    (new bysVal lenVal childPageId).getKeyLength = fieldAt 2 2 bysVal := by
  simp only [getKeyLength, new, List.append_assoc]
  rw [fieldAt_append 2 _ (length_writeLE 2 _), readLE_writeLE_append]
  exact Nat.mod_eq_of_lt (fieldAt_lt 2 2 bysVal)

theorem slice_new {length : ℕ} (lengthLe : length ≤ fieldAt 2 2 bysVal + lenVal)
    (long : 4 + (fieldAt 2 2 bysVal + lenVal) ≤ bysVal.length) :
    slice 4 length (new bysVal lenVal childPageId).bysVal = slice 4 length bysVal := by
  have header : ∀ total key : ℕ, (writeLE 2 total ++ writeLE 2 key).length = 4 := by simp
  have copied : (slice 4 (fieldAt 2 2 bysVal + lenVal) bysVal).length =
      fieldAt 2 2 bysVal + lenVal := by
    simp only [slice, List.length_take, List.length_drop]
    omega
  simp only [new]
  rw [List.append_assoc (writeLE 2 _ ++ writeLE 2 _), slice, List.drop_left' (header _ _),
    List.take_append_of_le_length (by omega), slice, slice, List.take_take, min_eq_left lengthLe]

theorem length_new (long : 4 + (fieldAt 2 2 bysVal + lenVal) ≤ bysVal.length) :
    (new bysVal lenVal childPageId).bysVal.length = fieldAt 2 2 bysVal + lenVal + 8 := by
  simp only [new, List.length_append, length_writeLE, slice, List.length_take, List.length_drop]
  omega

theorem valid_new (long : 4 + (fieldAt 2 2 bysVal + lenVal) ≤ bysVal.length)
    (fits : fieldAt 2 2 bysVal + lenVal + 10 ≤ maxDataLengthBranch) :
    (new bysVal lenVal childPageId).Valid := by
  have maxEq : maxDataLengthBranch = 16368 := rfl
  have totalEq : (new bysVal lenVal childPageId).getTotalLength =
      fieldAt 2 2 bysVal + lenVal + 8 := getTotalLength_new (by omega)
  refine ⟨totalEq.trans (length_new long).symm, ?_, ?_⟩
  · rw [totalEq, getKeyLength_new]
    omega
  · rw [BranchPage.recordLength, totalEq]
    exact fits

end New

theorem indexKey_new {type : IndexType} {bysVal : List Byte} {lenVal : ℕ} (childPageId : PageID)
    (long : 4 + (fieldAt 2 2 bysVal + lenVal) ≤ bysVal.length)
    (small : fieldAt 2 2 bysVal + lenVal + 8 < 2 ^ 16) :
    (new bysVal lenVal childPageId).indexKey type =
      indexBytes type bysVal (fieldAt 2 2 bysVal + lenVal) := by
  have dataEq : (new bysVal lenVal childPageId).getDataLength = fieldAt 2 2 bysVal + lenVal := by
    rw [getDataLength, getTotalLength_new small]
    omega
  have keyEq : fieldAt 2 2 (new bysVal lenVal childPageId).bysVal = fieldAt 2 2 bysVal :=
    getKeyLength_new
  unfold indexKey indexBytes
  rw [dataEq, keyEq]
  split
  · exact slice_new le_rfl long
  · exact slice_new (Nat.le_add_right _ _) long

theorem getTotalLength_lt (record : BranchRecord) : record.getTotalLength < 2 ^ 16 :=
  fieldAt_lt 2 0 record.bysVal

theorem ofBranch_spec (type : IndexType) {record : BranchRecord} (valid : record.Valid)
    (childPageId : PageID) :
    (ofBranch type record childPageId).Valid ∧
      (ofBranch type record childPageId).indexKey type = record.indexKey type ∧
      (ofBranch type record childPageId).childPage = childPageId := by
  have total := valid.total
  have key := valid.key
  have fits := valid.fits
  have totalLt := record.getTotalLength_lt
  rw [BranchPage.recordLength] at fits
  have maxEq : maxDataLengthBranch = 16368 := rfl
  have keyEq : record.getKeyLength = fieldAt 2 2 record.bysVal := rfl
  unfold ofBranch getValueLength
  split
  · next nonUnique =>
      have lenVal : (record.getTotalLength + 2 ^ 16 - (4 + 4 + record.getKeyLength) % 2 ^ 16) %
          2 ^ 16 = record.getTotalLength - 8 - record.getKeyLength := by omega
      have lengths : fieldAt 2 2 record.bysVal + (record.getTotalLength - 8 - record.getKeyLength) =
          record.getTotalLength - 8 := by omega
      have dataEq : record.getDataLength = record.getTotalLength - 8 := by
        rw [getDataLength]
        omega
      rw [lenVal]
      refine ⟨valid_new (by omega) (by omega), ?_, rfl⟩
      rw [indexKey_new _ (by omega) (by omega), lengths, indexKey, dataEq]
  · next unique =>
      refine ⟨valid_new (by omega) (by omega), ?_, rfl⟩
      rw [indexKey_new _ (by omega) (by omega)]
      simp only [indexKey, indexBytes, if_neg unique]

end BranchRecord

namespace BranchPage

theorem records_insertRecords (page : BranchPage) (records : List BranchRecord) {pos : ℕ}
    (posLe : pos ≤ page.records.length) :
    (page.insertRecords records pos).records =
      page.records.take pos ++ (records ++ page.records.drop pos) := by
  induction records generalizing page pos with
  | nil => simp [insertRecords]
  | cons record records ih =>
      have front : (page.records.take pos ++ [record]).length = pos + 1 := by
        simp only [List.length_append, List.length_take_of_le posLe, List.length_singleton]
      have joined : (page.insertRecord record pos).records =
          (page.records.take pos ++ [record]) ++ page.records.drop pos := by
        simp [insertRecord]
      have inside : pos + 1 ≤ (page.insertRecord record pos).records.length := by
        rw [joined, List.length_append, front]
        omega
      rw [insertRecords, ih _ inside, joined, List.take_left' front, List.drop_left' front]
      simp

theorem committedDataLength_insertRecords (page : BranchPage) (records : List BranchRecord)
    (pos : ℕ) :
    (page.insertRecords records pos).committedDataLength =
      page.committedDataLength + Segments.total recordLength records := by
  induction records generalizing page pos with
  | nil => simp [insertRecords]
  | cons record records ih =>
      rw [insertRecords, ih]
      simp only [insertRecord, Segments.total_cons, Nat.cast_add]
      omega

@[simp]
theorem insertRecords_fields (page : BranchPage) (records : List BranchRecord) (pos : ℕ) :
    (page.insertRecords records pos).pageLevel = page.pageLevel ∧
      (page.insertRecords records pos).parentPageId = page.parentPageId ∧
      (page.insertRecords records pos).endPage = page.endPage := by
  induction records generalizing page pos with
  | nil => exact ⟨rfl, rfl, rfl⟩
  | cons record records ih => exact ih _ _

/-- The search in a branch page finds the record whose separator is the first one that is not
smaller than the key, or the last record. -/
theorem searchRecord_spec {type : IndexType} {page : BranchPage} (key : List Byte)
    (nonempty : page.records ≠ [])
    (sorted : (page.records.map (BranchRecord.indexKey type)).Pairwise (· < ·)) :
    ∃ left record right, page.records = left ++ record :: right ∧
      left.length = page.searchRecord type key ∧
      (∀ other ∈ left, other.indexKey type < key) ∧
      (right ≠ [] → key ≤ record.indexKey type) := by
  have compares : ∀ (position : ℕ)
      (inside : position < (page.records.map (BranchRecord.indexKey type)).length),
      Compares (page.compareAt type key position)
        (page.records.map (BranchRecord.indexKey type))[position] key := by
    intro position inside
    rw [List.length_map] at inside
    simp only [compareAt, List.getElem?_eq_getElem inside, Option.map_some, Option.getD_some,
      List.getElem_map]
    exact compares_bytesCompare _ _
  have first := (BinarySearch.found_search_all sorted compares).first sorted
  rw [List.length_map] at first
  exact BinarySearch.clamp_spec nonempty first

/-- A page whose length is that of its records. -/
structure Plain (page : BranchPage) : Prop where
  records : ∀ br ∈ page.records, br.Valid
  committed : page.committedDataLength = Segments.total recordLength page.records

theorem Plain.splitParts_spec {page : BranchPage} (plain : page.Plain) :
    ∃ parts, page.splitParts = some parts ∧ parts.flatMap Prod.fst = page.records ∧
      ∀ part ∈ parts, Segments.Part recordLength (maxDataLengthBranch * loadFactor / 100)
        maxDataLengthBranch part := by
  have limitLe : maxDataLengthBranch * loadFactor / 100 ≤ maxDataLengthBranch := by decide
  exact Segments.cut_all limitLe fun br mem => ⟨Nat.succ_pos _, (plain.records br mem).fits⟩

end BranchPage

/-!
## Searching among branch records
-/

namespace BranchRecord

theorem indexKey_of_unique {type : IndexType} (unique : type ≠ .nonUnique) (br : BranchRecord) :
    br.indexKey type = br.getKey := by
  rw [indexKey, indexBytes, if_neg unique]
  rfl

theorem getKey_prefix (type : IndexType) {br : BranchRecord} (valid : br.Valid) :
    br.getKey <+: br.indexKey type := by
  by_cases nonUnique : type = .nonUnique
  · have keyLe := valid.key
    have fits := valid.fits
    rw [BranchPage.recordLength] at fits
    have maxEq : maxDataLengthBranch = 16368 := rfl
    have lengthLe : br.getKeyLength ≤ br.getDataLength := by
      unfold getDataLength
      omega
    rw [indexKey, indexBytes, if_pos nonUnique, getKey, slice, slice]
    have shorter := List.take_prefix br.getKeyLength ((br.bysVal.drop 4).take br.getDataLength)
    rwa [List.take_take, min_eq_left lengthLe] at shorter
  · have same := indexKey_of_unique nonUnique br
    exact same ▸ List.prefix_rfl

end BranchRecord

namespace SearchTarget

/-- A key that is searched for in a non-unique index is not the beginning of the key of a record,
nor the other way round, unless the two are the same. -/
def Regular (type : IndexType) (br : BranchRecord) : SearchTarget → Prop
  | record _ => True
  | key bysKey =>
      type = .nonUnique → br.getKey <+: bysKey ∨ bysKey <+: br.getKey → br.getKey = bysKey

section Compare

variable {type : IndexType} {target : SearchTarget} {br br' : BranchRecord}

theorem compareWith_neg (valid : br.Valid) (regular : target.Regular type br) :
    target.compareWith type br < 0 ↔ br.indexKey type < target.bytes := by
  cases target with
  | record indexKey => exact (compares_bytesCompare _ _).neg
  | key bysKey =>
      refine (compares_bytesCompare br.getKey bysKey).neg.trans ?_
      by_cases nonUnique : type = .nonUnique
      · have apart : br.getKey <+: bysKey ∨ bysKey <+: br.getKey → br.getKey = bysKey :=
          regular nonUnique
        rcases br.getKey_prefix type valid with ⟨behind, indexEq⟩
        change br.getKey < bysKey ↔ br.indexKey type < bysKey
        rw [← indexEq]
        constructor
        · intro less
          have precedes := precedes_of_not_prefix less fun isPrefix =>
            less.ne (apart (Or.inl isPrefix))
          simpa using (precedes.append behind []).lt
        · intro less
          by_contra notLess
          rcases lt_or_eq_of_le (not_lt.mp notLess) with greater | same
          · have precedes := precedes_of_not_prefix greater fun isPrefix =>
              greater.ne (apart (Or.inr isPrefix)).symm
            have behindLt := (precedes.append [] behind).lt
            rw [List.append_nil] at behindLt
            exact lt_asymm less behindLt
          · rw [same] at less
            exact List.not_lt.mpr List.le_append_left less
      · rw [BranchRecord.indexKey_of_unique nonUnique]
        rfl

theorem compareWith_pos (valid : br.Valid) (regular : target.Regular type br)
    (valid' : br'.Valid) (regular' : target.Regular type br')
    (less : br.indexKey type < br'.indexKey type) (positive : 0 < target.compareWith type br) :
    0 < target.compareWith type br' := by
  cases target with
  | record indexKey =>
      have behind := (compares_bytesCompare (br.indexKey type) indexKey).pos.mp positive
      exact (compares_bytesCompare (br'.indexKey type) indexKey).pos.mpr (lt_trans behind less)
  | key bysKey =>
      have behind : bysKey < br.getKey := (compares_bytesCompare br.getKey bysKey).pos.mp positive
      refine (compares_bytesCompare br'.getKey bysKey).pos.mpr ?_
      by_cases nonUnique : type = .nonUnique
      · have apart : br.getKey <+: bysKey ∨ bysKey <+: br.getKey → br.getKey = bysKey :=
          regular nonUnique
        have precedes := precedes_of_not_prefix behind fun isPrefix =>
          behind.ne (apart (Or.inr isPrefix)).symm
        rcases br.getKey_prefix type valid with ⟨rest, indexEq⟩
        rcases br'.getKey_prefix type valid' with ⟨rest', indexEq'⟩
        by_contra notBehind
        rcases lt_or_eq_of_le (not_lt.mp notBehind) with before | same
        · have negative : br'.indexKey type < bysKey := by
            refine (compareWith_neg valid' regular').mp ?_
            exact (compares_bytesCompare br'.getKey bysKey).neg.mpr before
          have above := (precedes.append [] rest).lt
          rw [List.append_nil, indexEq] at above
          exact lt_asymm (lt_trans less negative) above
        · have above := (precedes.append rest' rest).lt
          rw [indexEq, ← same, indexEq'] at above
          exact lt_asymm less above
      · rw [BranchRecord.indexKey_of_unique nonUnique, BranchRecord.indexKey_of_unique nonUnique]
          at less
        exact lt_trans behind less

end Compare

section Position

variable {type : IndexType} {target : SearchTarget} {records : List BranchRecord}

theorem compares_position (records : List BranchRecord) {keyOf : BranchRecord → List Byte}
    {key : List Byte} (compares : ∀ br, Compares (target.compareWith type br) (keyOf br) key)
    (position : ℕ) (inside : position < (records.map keyOf).length) :
    Compares ((records[position]?.map fun br => target.compareWith type br).getD 0)
      (records.map keyOf)[position] key := by
  rw [List.length_map] at inside
  rw [List.getElem?_eq_getElem inside, Option.map_some, Option.getD_some, List.getElem_map]
  exact compares _

theorem sign_sorted (sorted : (records.map (BranchRecord.indexKey type)).Pairwise (· < ·))
    (valid : ∀ br ∈ records, br.Valid) (regular : ∀ br ∈ records, target.Regular type br) :
    (records.map fun br => (target.compareWith type br).sign).Pairwise (· ≤ ·) := by
  rw [List.pairwise_map] at sorted ⊢
  refine sorted.imp_of_mem ?_
  intro br br' mem mem' less
  have neg := compareWith_neg (valid br mem) (regular br mem)
  have neg' := compareWith_neg (valid br' mem') (regular br' mem')
  have pos := compareWith_pos (valid br mem) (regular br mem) (valid br' mem')
    (regular br' mem') less
  rcases lt_trichotomy (target.compareWith type br) 0 with isNeg | isZero | isPos
  · rw [Int.sign_eq_neg_one_of_neg isNeg]
    rcases Int.sign_trichotomy (target.compareWith type br') with sign | sign | sign <;> omega
  · have notNeg : ¬target.compareWith type br' < 0 := by
      intro isNeg'
      have isNeg := neg.mpr (lt_trans less (neg'.mp isNeg'))
      omega
    rw [isZero, Int.sign_zero]
    exact Int.sign_nonneg_iff.mpr (by omega)
  · rw [Int.sign_eq_one_of_pos isPos, Int.sign_eq_one_of_pos (pos isPos)]

/-- The search ends at the first record that is not smaller, or at the last one. -/
theorem position_spec (nonempty : records ≠ [])
    (sorted : (records.map (BranchRecord.indexKey type)).Pairwise (· < ·))
    (valid : ∀ br ∈ records, br.Valid) (regular : ∀ br ∈ records, target.Regular type br) :
    ∃ left br right, records = left ++ br :: right ∧ left.length = target.position type records ∧
      (∀ other ∈ left, other.indexKey type < target.bytes) ∧
      (right ≠ [] → target.bytes ≤ br.indexKey type) := by
  cases target with
  | record indexKey =>
      have same : ∀ br : BranchRecord,
          Compares ((record indexKey).compareWith type br) (br.indexKey type) indexKey :=
        fun br => compares_bytesCompare (br.indexKey type) indexKey
      have compares := compares_position records same
      have first := (BinarySearch.found_search_all sorted compares).first sorted
      rw [List.length_map] at first
      exact BinarySearch.clamp_spec nonempty first
  | key bysKey =>
      by_cases nonUnique : type = .nonUnique
      · have signs := sign_sorted sorted valid regular
        have compares : ∀ (position : ℕ)
            (inside : position <
              (records.map fun br => ((key bysKey).compareWith type br).sign).length),
            Compares ((records[position]?.map fun br => (key bysKey).compareWith type br).getD 0)
              (records.map fun br => ((key bysKey).compareWith type br).sign)[position]
                (0 : ℤ) := by
          intro position inside
          rw [List.length_map] at inside
          rw [List.getElem?_eq_getElem inside, Option.map_some, Option.getD_some, List.getElem_map]
          exact ⟨Int.sign_neg_iff.symm, Int.sign_pos_iff.symm⟩
        have first := BinarySearch.searchFirst_spec (decide (type ≠ .nonUnique)) signs
          (by simp [nonUnique]) compares
        rw [List.length_map] at first
        rcases BinarySearch.clamp_spec nonempty first with
          ⟨left, br, right, recordsEq, position, smaller, bound⟩
        refine ⟨left, br, right, recordsEq, position, ?_, ?_⟩
        · intro other mem
          have otherMem : other ∈ records := by simp [recordsEq, mem]
          refine (compareWith_neg (valid other otherMem) (regular other otherMem)).mp ?_
          exact Int.sign_neg_iff.mp (smaller other mem)
        · intro notLast
          have brMem : br ∈ records := by simp [recordsEq]
          refine le_of_not_gt fun less => ?_
          have negative := (compareWith_neg (valid br brMem) (regular br brMem)).mpr less
          exact absurd (Int.sign_neg_iff.mpr negative) (not_lt_of_ge (bound notLast))
      · have same : ∀ br : BranchRecord,
            Compares ((key bysKey).compareWith type br) (br.indexKey type) bysKey := by
          intro br
          rw [BranchRecord.indexKey_of_unique nonUnique]
          exact compares_bytesCompare br.getKey bysKey
        have compares := compares_position records same
        have first := BinarySearch.searchFirst_spec (decide (type ≠ .nonUnique))
          (sorted.imp le_of_lt) (fun _ => sorted) compares
        rw [List.length_map] at first
        exact BinarySearch.clamp_spec nonempty first

end Position

end SearchTarget

end RapidDb
