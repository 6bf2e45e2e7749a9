import RapidDb.Core.BranchSplit

/-!
# Which branch pages are divided well

A call of `SplitPage` is judged by the pages it leaves and by what it has done to the parent page
and to the children. It does well exactly when every record fits into a page, no part comes to
exactly the length of a page, the children that move are branch pages or in memory, and the parent
page has the record of the page under a separator that is not above its last key.
-/

namespace RapidDb

open Bytes

namespace BranchRecord

/-- The lengths of a record lie within its bytes, and those of a copy can be written down. -/
structure Readable (type : IndexType) (record : BranchRecord) : Prop where
  long : 4 + (record.getKeyLength + record.getValueLength type) ≤ record.bysVal.length
  small : record.getKeyLength + record.getValueLength type + 8 < 2 ^ 16

variable {type : IndexType} {record : BranchRecord}

theorem Readable.indexKey_ofBranch (readable : record.Readable type) (childPageId : PageID) :
    (ofBranch type record childPageId).indexKey type = record.indexKey type := by
  have long := readable.long
  have small := readable.small
  rw [ofBranch, indexKey_new childPageId long small, indexKey, indexBytes, indexBytes]
  split
  · next nonUnique =>
      rw [getValueLength, if_pos nonUnique] at small ⊢
      have totalLt := record.getTotalLength_lt
      have dataEq : record.getDataLength = fieldAt 2 2 record.bysVal +
          (record.getTotalLength + 2 ^ 16 - (4 + 4 + record.getKeyLength) % 2 ^ 16) % 2 ^ 16 := by
        rw [getDataLength]
        simp only [getKeyLength] at small ⊢
        omega
      rw [dataEq]
  · rfl

/-- What a constructor makes is readable, in an index that is unique also when the value that is
copied makes the total length wrap. -/
theorem readable_new {bysVal : List Byte} {lenVal : ℕ} (childPageId : PageID)
    (long : 4 + (fieldAt 2 2 bysVal + lenVal) ≤ bysVal.length)
    (smallKey : fieldAt 2 2 bysVal + 8 < 2 ^ 16)
    (small : type = .nonUnique → fieldAt 2 2 bysVal + lenVal + 8 < 2 ^ 16) :
    (new bysVal lenVal childPageId).Readable type := by
  have keyEq : (new bysVal lenVal childPageId).getKeyLength = fieldAt 2 2 bysVal :=
    getKeyLength_new
  have lengthEq : (new bysVal lenVal childPageId).bysVal.length =
      fieldAt 2 2 bysVal + lenVal + 8 := length_new long
  by_cases nonUnique : type = .nonUnique
  · have sum := small nonUnique
    have totalEq : (new bysVal lenVal childPageId).getTotalLength =
        fieldAt 2 2 bysVal + lenVal + 8 := getTotalLength_new sum
    have valueEq : (new bysVal lenVal childPageId).getValueLength type = lenVal := by
      rw [getValueLength, if_pos nonUnique, totalEq, keyEq]
      omega
    constructor
    · rw [keyEq, valueEq, lengthEq]
      omega
    · rw [keyEq, valueEq]
      exact sum
  · have valueEq : (new bysVal lenVal childPageId).getValueLength type = 0 := by
      rw [getValueLength, if_neg nonUnique]
    constructor
    · rw [keyEq, valueEq, lengthEq]
      omega
    · rw [keyEq, valueEq]
      exact smallKey

theorem Readable.ofBranch (readable : record.Readable type) (childPageId : PageID) :
    (ofBranch type record childPageId).Readable type :=
  readable_new childPageId readable.long
    (lt_of_le_of_lt (Nat.add_le_add_right (Nat.le_add_right _ _) 8) readable.small)
    fun _ => readable.small

end BranchRecord

namespace BranchSplit

open SiblingLinks (PageType)

variable {call : Call} {outcome : Outcome}

/-- The key of the last record of a page. -/
def lastKey (indexType : IndexType) (page : BranchPage) : List Byte :=
  (page.records.getLast?.map (BranchRecord.indexKey indexType)).getD []

/-- What a split is for. The record that was taken out of the parent page is that of the page. The
page and its new brothers, two or more, have the records of the page in their order, none is empty
or too long, and their lengths are those of their records. The parent page has one separator for
each of them, its last key, in the place of the old one. The children of the new pages point to them
and are of their own class. -/
structure WellSplit (call : Call) (outcome : Outcome) : Prop where
  own : ∀ old, call.brParentOld = some old → old.childPage = call.pageId
  several : 2 ≤ outcome.pages.length
  first : outcome.pages.head?.map Prod.fst = some call.pageId
  nonempty : ∀ new ∈ outcome.pages, new.2.records ≠ []
  below : ∀ new ∈ outcome.pages, new.2.isOverlength = false
  lengths : ∀ new ∈ outcome.pages,
    new.2.committedDataLength = Segments.total BranchPage.recordLength new.2.records
  joined : outcome.pages.flatMap (fun new => new.2.records) = call.page.records
  separators : outcome.parentPage.records.map (BranchRecord.entry call.indexType) =
    (call.parentPage.records.take call.posInParent).map (BranchRecord.entry call.indexType) ++
      (outcome.pages.map (fun new => (lastKey call.indexType new.2, new.1)) ++
        (call.parentPage.records.drop call.posInParent).map (BranchRecord.entry call.indexType))
  children : ∀ new ∈ outcome.pages.tail, ∀ br ∈ new.2.records,
    outcome.objects br.childPage = some ⟨childType call.page.pageLevel, new.1⟩

/-- The length up to which a part is filled. -/
def limitLen : ℕ := maxDataLengthBranch * loadFactor / 100

def Call.moved (call : Call) : List BranchRecord :=
  Segments.beyond BranchPage.recordLength limitLen maxDataLengthBranch 0 call.page.records

structure Divisible (call : Call) : Prop where
  own : ∀ old, call.brParentOld = some old → old.childPage = call.pageId
  separator : ∀ old, call.brParentOld = some old → ∀ last, call.page.records.getLast? = some last →
    old.indexKey call.indexType ≤ last.indexKey call.indexType
  fits : ∀ br ∈ call.page.records, BranchPage.recordLength br ≤ maxDataLengthBranch
  notFull : maxDataLengthBranch ∉
    Segments.fills BranchPage.recordLength limitLen maxDataLengthBranch 0 call.page.records
  children : ∀ br ∈ call.moved,
    ((call.objects br.childPage).map PageObject.type).getD .branchPage =
      childType call.page.pageLevel

/-- A call for a page that is too long. Its length is that of its records, which can be copied, and
no child hangs on two of them. -/
structure Call.Sound (call : Call) : Prop where
  overlength : call.page.isOverlength = true
  committed : call.page.committedDataLength =
    Segments.total BranchPage.recordLength call.page.records
  readable : ∀ br ∈ call.page.records, br.Readable call.indexType
  nodup : (call.page.records.map BranchRecord.childPage).Nodup
  oldReadable : ∀ old, call.brParentOld = some old → old.Readable call.indexType
  posLe : call.posInParent ≤ call.parentPage.records.length

/-!
## Children
-/

section Adopt

variable {objects : Objects} {parentPage child : PageID}

/-- The class of a page object, that of a branch page if it has to be made. -/
def objectType (objects : Objects) (child : PageID) : PageType :=
  ((objects child).map PageObject.type).getD .branchPage

theorem objectType_adopt (br : BranchRecord) :
    objectType (adopt parentPage objects br) child = objectType objects child := by
  by_cases same : child = br.childPage
  · subst same
    cases found : objects br.childPage with
    | none => simp [objectType, adopt, found]
    | some object => simp [objectType, adopt, found]
  · simp [objectType, adopt, same]

theorem objectType_foldl_adopt (records : List BranchRecord) :
    objectType (records.foldl (adopt parentPage) objects) child = objectType objects child := by
  induction records generalizing objects with
  | nil => rfl
  | cons br records ih => rw [List.foldl_cons, ih, objectType_adopt]

theorem objectType_adoptAll (pages : List (PageID × BranchPage)) :
    objectType (adoptAll pages objects) child = objectType objects child := by
  induction pages generalizing objects with
  | nil => rfl
  | cons new pages ih => rw [adoptAll, ih, objectType_foldl_adopt]

theorem foldl_adopt_other {records : List BranchRecord}
    (notChild : child ∉ records.map BranchRecord.childPage) :
    records.foldl (adopt parentPage) objects child = objects child := by
  induction records generalizing objects with
  | nil => rfl
  | cons br records ih =>
      rw [List.map_cons, List.mem_cons, not_or] at notChild
      rw [List.foldl_cons, ih notChild.2]
      simp [adopt, notChild.1]

theorem foldl_adopt_child {records : List BranchRecord}
    (isChild : child ∈ records.map BranchRecord.childPage) :
    (records.foldl (adopt parentPage) objects child).map PageObject.parentPage =
      some parentPage := by
  induction records generalizing objects with
  | nil => cases isChild
  | cons br records ih =>
      rw [List.foldl_cons]
      by_cases later : child ∈ records.map BranchRecord.childPage
      · exact ih later
      · rw [foldl_adopt_other later]
        rcases List.mem_cons.mp isChild with rfl | isLater
        · simp [adopt]
        · exact absurd isLater later

theorem adoptAll_other {pages : List (PageID × BranchPage)}
    (notChild : ∀ new ∈ pages, child ∉ new.2.records.map BranchRecord.childPage) :
    adoptAll pages objects child = objects child := by
  induction pages generalizing objects with
  | nil => rfl
  | cons new pages ih =>
      rw [adoptAll, ih fun other mem => notChild other (List.mem_cons_of_mem _ mem)]
      exact foldl_adopt_other (notChild new List.mem_cons_self)

theorem adoptAll_child {pages : List (PageID × BranchPage)}
    (nodup : ((pages.flatMap fun new => new.2.records).map BranchRecord.childPage).Nodup)
    {new : PageID × BranchPage} (newMem : new ∈ pages)
    (isChild : child ∈ new.2.records.map BranchRecord.childPage) :
    (adoptAll pages objects child).map PageObject.parentPage = some new.1 := by
  induction pages generalizing objects with
  | nil => cases newMem
  | cons first pages ih =>
      rw [List.flatMap_cons, List.map_append, List.nodup_append] at nodup
      rw [adoptAll]
      rcases List.mem_cons.mp newMem with rfl | later
      · rw [adoptAll_other]
        · exact foldl_adopt_child isChild
        · intro other otherMem again
          refine nodup.2.2 child isChild child ?_ rfl
          rcases List.mem_map.mp again with ⟨br, brMem, rfl⟩
          exact List.mem_map_of_mem (List.mem_flatMap.mpr ⟨other, otherMem, brMem⟩)
      · exact ih nodup.2.1 later

theorem adoptAll_eq {pages : List (PageID × BranchPage)}
    (nodup : ((pages.flatMap fun new => new.2.records).map BranchRecord.childPage).Nodup)
    {new : PageID × BranchPage} (newMem : new ∈ pages)
    (isChild : child ∈ new.2.records.map BranchRecord.childPage) :
    adoptAll pages objects child = some ⟨objectType objects child, new.1⟩ := by
  have parent := @adoptAll_child objects _ _ nodup _ newMem isChild
  have type := @objectType_adoptAll objects child pages
  rcases Option.map_eq_some_iff.mp parent with ⟨object, objectEq, parentEq⟩
  rw [← type, objectEq, objectType, objectEq, ← parentEq]
  rfl

end Adopt

/-!
## Entries
-/

section Entries

open IndexTree

variable {type : IndexType}

theorem newEntries_eq (parts : List (PageID × List BranchRecord))
    (nonempty : ∀ part ∈ parts, part.2 ≠ []) :
    ∃ entries, newEntries (BranchRecord.indexKey type) (BranchRecord.ofBranch type) parts =
        some entries ∧
      entries.map (fun entry => (entry.lastKey, entry.pageId)) =
        parts.map (fun part =>
          ((part.2.getLast?.map (BranchRecord.indexKey type)).getD [], part.1)) ∧
      ∀ entry ∈ entries, ∃ part ∈ parts, ∃ last ∈ part.2,
        entry.lastKey = last.indexKey type ∧ entry.record = last.ofBranch type entry.pageId := by
  induction parts with
  | nil => exact ⟨[], rfl, rfl, by simp⟩
  | cons part parts ih =>
      rcases ih fun other mem => nonempty other (List.mem_cons_of_mem _ mem) with
        ⟨entries, entriesEq, keys, all⟩
      have notEmpty := nonempty part List.mem_cons_self
      have isLast := List.getLast?_eq_some_getLast notEmpty
      refine ⟨⟨part.1, (part.2.getLast notEmpty).indexKey type,
        (part.2.getLast notEmpty).ofBranch type part.1⟩ :: entries, ?_, ?_, ?_⟩
      · simp [newEntries, isLast, entriesEq]
      · simp [isLast, keys]
      · intro entry mem
        rcases List.mem_cons.mp mem with rfl | mem
        · exact ⟨part, List.mem_cons_self, _, List.getLast_mem notEmpty, rfl, rfl⟩
        · rcases all entry mem with ⟨other, otherMem, rest⟩
          exact ⟨other, List.mem_cons_of_mem _ otherMem, rest⟩

theorem newRecords_eq_map {brParentOld : Option BranchRecord} {entries : List NewEntry}
    (notAbove : ∀ old, brParentOld = some old → ∀ final, entries.getLast? = some final →
      old.indexKey type ≤ final.lastKey) :
    newRecords type brParentOld entries = entries.map NewEntry.record := by
  induction entries with
  | nil => rfl
  | cons entry rest ih =>
      cases rest with
      | nil =>
          cases brParentOld with
          | none => rfl
          | some old =>
              have le := notAbove old rfl entry rfl
              have compares := compares_bytesCompare (old.indexKey type) entry.lastKey
              rw [newRecords, if_neg fun positive => not_lt_of_ge le (compares.pos.mp positive)]
              rfl
      | cons next rest =>
          rw [newRecords, ih fun old oldEq final isLast => notAbove old oldEq final
            (by simpa using isLast)]
          rfl

theorem splitRecords_eq_map {brParentOld : Option BranchRecord} {entries : List NewEntry}
    (notAbove : ∀ old, brParentOld = some old → ∀ final, entries.getLast? = some final →
      old.indexKey type ≤ final.lastKey) :
    splitRecords type brParentOld entries = entries.map NewEntry.record := by
  cases entries with
  | nil => rfl
  | cons entry rest =>
      cases rest with
      | nil => rfl
      | cons next rest =>
          rw [splitRecords, newRecords_eq_map fun old oldEq final isLast =>
            notAbove old oldEq final (by simpa using isLast)]
          rfl

theorem getLast?_newRecords {old : BranchRecord} {entries : List NewEntry} {final : NewEntry}
    (isLast : entries.getLast? = some final) (above : final.lastKey < old.indexKey type) :
    (newRecords type (some old) entries).getLast? = some (old.ofBranch type final.pageId) := by
  induction entries with
  | nil => cases isLast
  | cons entry rest ih =>
      cases rest with
      | nil =>
          cases isLast
          have compares := compares_bytesCompare (old.indexKey type) entry.lastKey
          rw [newRecords, if_pos (compares.pos.mpr above)]
          rfl
      | cons next rest =>
          rw [newRecords, List.getLast?_cons, ih (by simpa using isLast)]
          rfl

theorem map_entry_records {entries : List NewEntry} {parts : List (PageID × List BranchRecord)}
    (readable : ∀ part ∈ parts, ∀ br ∈ part.2, br.Readable type)
    (made : ∀ entry ∈ entries, ∃ part ∈ parts, ∃ last ∈ part.2,
      entry.lastKey = last.indexKey type ∧ entry.record = last.ofBranch type entry.pageId) :
    (entries.map NewEntry.record).map (BranchRecord.entry type) =
      entries.map fun entry => (entry.lastKey, entry.pageId) := by
  rw [List.map_map]
  refine List.map_congr_left fun entry mem => ?_
  rcases made entry mem with ⟨part, partMem, last, lastMem, keyEq, recordEq⟩
  have copied := (readable part partMem last lastMem).indexKey_ofBranch entry.pageId
  simp only [Function.comp_apply, BranchRecord.entry, recordEq, copied, keyEq]
  rfl

end Entries

/-!
## One split
-/

section Run

variable {first : List BranchRecord × ℕ} {parts : List (List BranchRecord × ℕ)}

/-- The parts with the identifiers of their pages. -/
def Call.pageParts (call : Call) (first : List BranchRecord × ℕ)
    (parts : List (List BranchRecord × ℕ)) : List (PageID × List BranchRecord × ℕ) :=
  (call.pageId, first) :: (call.newPageIds parts.length).zip parts

theorem length_newPageIds (call : Call) (pnum : ℕ) : (call.newPageIds pnum).length = pnum := by
  simp [Call.newPageIds]

theorem bounds_of_mem_newPageIds {pnum : ℕ} {pageId : PageID}
    (mem : pageId ∈ call.newPageIds pnum) :
    call.newPageId ≤ pageId ∧ pageId < call.newPageId + pnum := by
  rcases List.mem_map.mp mem with ⟨index, indexMem, rfl⟩
  have indexLt := List.mem_range.mp indexMem
  exact ⟨Nat.le_add_right _ index, Nat.add_lt_add_left indexLt _⟩

theorem nodup_newPageIds (call : Call) (pnum : ℕ) : (call.newPageIds pnum).Nodup := by
  apply List.nodup_range.map
  intro first second same
  exact Nat.add_left_cancel same

theorem map_snd_pageParts (call : Call) :
    (call.pageParts first parts).map Prod.snd = first :: parts := by
  rw [Call.pageParts, List.map_cons,
    List.map_snd_zip (le_of_eq (length_newPageIds call parts.length).symm)]

theorem Call.run_eq_some (result : call.run = some outcome) :
    ∃ first parts entries, call.page.splitParts = some (first :: parts) ∧
      IndexTree.newEntries (BranchRecord.indexKey call.indexType)
        (BranchRecord.ofBranch call.indexType)
        ((call.pageParts first parts).map fun part => (part.1, part.2.1)) = some entries ∧
      outcome.pages.map (fun new => (new.1, new.2.records, new.2.committedDataLength)) =
        (call.pageParts first parts).map (fun part => (part.1, part.2.1, (part.2.2 : ℤ))) ∧
      outcome.objects = adoptAll outcome.pages.tail call.objects ∧
      outcome.parentPage = call.parentPage.insertRecords
        (IndexTree.splitRecords call.indexType call.brParentOld entries) call.posInParent := by
  simp only [Call.run, Option.bind_eq_bind, Option.bind_eq_some_iff] at result
  rcases result with ⟨all, partsEq, result⟩
  cases all with
  | nil => cases result
  | cons first parts =>
      simp only at result
      split at result
      · cases result
      · rcases Option.bind_eq_some_iff.mp result with ⟨entries, entriesEq, outcomeEq⟩
        cases outcomeEq
        refine ⟨first, parts, entries, partsEq, ?_, ?_, rfl, rfl⟩
        · rw [← entriesEq, Call.pageParts, List.map_cons]
          congr 2
          rw [List.zip_map_right]
          rfl
        · rw [List.map_cons, IndexTree.map_newBranchPages]
          rfl

theorem Call.run_isSome (partsEq : call.page.splitParts = some (first :: parts))
    (several : parts ≠ []) (nonempty : ∀ part ∈ first :: parts, part.1 ≠ []) :
    ∃ outcome, call.run = some outcome := by
  have nonemptyParts : ∀ part ∈ (call.pageId, first.1) ::
      (call.newPageIds parts.length).zip (parts.map Prod.fst), part.2 ≠ [] := by
    intro part mem
    rcases List.mem_cons.mp mem with rfl | mem
    · exact nonempty first List.mem_cons_self
    · rcases List.mem_map.mp (List.of_mem_zip mem).2 with ⟨one, oneMem, oneEq⟩
      rw [← oneEq]
      exact nonempty one (List.mem_cons_of_mem _ oneMem)
  rcases @newEntries_eq call.indexType _ nonemptyParts with ⟨entries, entriesEq, -⟩
  have notSingle : (call.page.endPage && parts.isEmpty) = false := by simp [several]
  simp only [Call.run, partsEq, Option.bind_eq_bind, Option.bind_some, notSingle,
    Bool.false_eq_true, if_false, entriesEq]
  exact ⟨_, rfl⟩

theorem Call.parts_spec (fits : ∀ br ∈ call.page.records,
      BranchPage.recordLength br ≤ maxDataLengthBranch) :
    ∃ parts, call.page.splitParts = some parts ∧ parts.flatMap Prod.fst = call.page.records ∧
      (∀ part ∈ parts, Segments.Part BranchPage.recordLength limitLen maxDataLengthBranch part) ∧
      parts.tail.flatMap Prod.fst = call.moved ∧
      (maxDataLengthBranch ∈ parts.map Prod.snd ↔ maxDataLengthBranch ∈
        Segments.fills BranchPage.recordLength limitLen maxDataLengthBranch 0
          call.page.records) := by
  have limitLe : limitLen ≤ maxDataLengthBranch := by decide
  have positive : ∀ br ∈ call.page.records, 0 < BranchPage.recordLength br :=
    fun _ _ => Nat.succ_pos _
  rcases Segments.cut_all limitLe fun br mem => ⟨positive br mem, fits br mem⟩ with
    ⟨parts, partsEq, joined, all⟩
  exact ⟨parts, partsEq, joined, all,
    Segments.cut_beyond limitLe (Nat.zero_le _) positive partsEq,
    Segments.cut_lengths limitLe fits (Nat.zero_le _) partsEq (by decide)⟩

theorem Call.fits_of_run (result : call.run = some outcome) :
    ∀ br ∈ call.page.records, BranchPage.recordLength br ≤ maxDataLengthBranch := by
  rcases Call.run_eq_some result with ⟨first, parts, -, partsEq, -⟩
  intro br mem
  by_contra tooLong
  have limitLe : maxDataLengthBranch * loadFactor / 100 ≤ maxDataLengthBranch := by decide
  rw [BranchPage.splitParts, Segments.cut_eq_none limitLe mem (Nat.lt_of_not_ge tooLong)] at partsEq
  cases partsEq

/-- What a call that returns has done with the records. -/
structure Parted (call : Call) (outcome : Outcome) : Prop where
  count : call.page.splitParts.map List.length = some outcome.pages.length
  ids : outcome.pages.head?.map Prod.fst = some call.pageId
  joined : outcome.pages.flatMap (fun new => new.2.records) = call.page.records
  nonempty : ∀ new ∈ outcome.pages, new.2.records ≠ []
  lengths : ∀ new ∈ outcome.pages,
    new.2.committedDataLength = Segments.total BranchPage.recordLength new.2.records
  short : ∀ new ∈ outcome.pages,
    Segments.total BranchPage.recordLength new.2.records ≤ maxDataLengthBranch
  full : (∃ new ∈ outcome.pages,
      Segments.total BranchPage.recordLength new.2.records = maxDataLengthBranch) ↔
    maxDataLengthBranch ∈
      Segments.fills BranchPage.recordLength limitLen maxDataLengthBranch 0 call.page.records
  moved : outcome.pages.tail.flatMap (fun new => new.2.records) = call.moved
  objects : outcome.objects = adoptAll outcome.pages.tail call.objects

theorem Call.parted (result : call.run = some outcome) : Parted call outcome := by
  rcases Call.run_eq_some result with ⟨first, parts, entries, partsEq, -, pagesEq, objectsEq, -⟩
  rcases Call.parts_spec (Call.fits_of_run result) with ⟨all, allEq, joined, spec, moved, full⟩
  rw [partsEq, Option.some.injEq] at allEq
  subst allEq
  have recordsEq : outcome.pages.map (fun new => (new.2.records, new.2.committedDataLength)) =
      (first :: parts).map fun part => (part.1, (part.2 : ℤ)) := by
    rw [← map_snd_pageParts call, List.map_map]
    simpa [Function.comp_def] using congrArg (List.map Prod.snd) pagesEq
  have ofMem : ∀ new ∈ outcome.pages, ∃ part ∈ first :: parts, new.2.records = part.1 ∧
      new.2.committedDataLength = part.2 := by
    intro new mem
    have mapped : (new.2.records, new.2.committedDataLength) ∈
        (first :: parts).map fun part => (part.1, (part.2 : ℤ)) := by
      rw [← recordsEq]
      exact List.mem_map_of_mem mem
    rcases List.mem_map.mp mapped with ⟨part, partMem, partEq⟩
    exact ⟨part, partMem, (Prod.mk.inj partEq).1.symm, (Prod.mk.inj partEq).2.symm⟩
  have onlyRecords : outcome.pages.map (fun new => new.2.records) =
      (first :: parts).map Prod.fst := by
    simpa [Function.comp_def] using congrArg (List.map Prod.fst) recordsEq
  constructor
  · rw [partsEq, Option.map_some, ← List.length_map, ← recordsEq,
      List.length_map]
  · have heads := congrArg List.head? (congrArg (List.map Prod.fst) pagesEq)
    simpa [Call.pageParts, Function.comp_def] using heads
  · rw [← joined, List.flatMap_def, onlyRecords, ← List.flatMap_def]
  · intro new mem
    rcases ofMem new mem with ⟨part, partMem, same, -⟩
    rw [same]
    exact (spec part partMem).nonempty
  · intro new mem
    rcases ofMem new mem with ⟨part, partMem, same, lengthEq⟩
    rw [lengthEq, same, (spec part partMem).length]
  · intro new mem
    rcases ofMem new mem with ⟨part, partMem, same, -⟩
    rw [same, ← (spec part partMem).length]
    exact (spec part partMem).fits
  · rw [← full]
    constructor
    · rintro ⟨new, mem, totalEq⟩
      rcases ofMem new mem with ⟨part, partMem, same, -⟩
      rw [same, ← (spec part partMem).length] at totalEq
      exact List.mem_map.mpr ⟨part, partMem, totalEq⟩
    · intro mem
      rcases List.mem_map.mp mem with ⟨part, partMem, lengthEq⟩
      have recordsMem : part.1 ∈ outcome.pages.map (fun new => new.2.records) := by
        rw [onlyRecords]
        exact List.mem_map_of_mem partMem
      rcases List.mem_map.mp recordsMem with ⟨new, newMem, same⟩
      exact ⟨new, newMem, by rw [same, ← (spec part partMem).length, lengthEq]⟩
  · have tails := congrArg List.tail onlyRecords
    rw [List.map_cons, List.tail_cons, ← List.map_tail] at tails
    rw [← moved, List.tail_cons, List.flatMap_def, tails, ← List.flatMap_def]
  · exact objectsEq

/-- The entries of a call that returns are those of the pages it leaves. -/
theorem Call.entries_spec (sound : call.Sound) (result : call.run = some outcome) :
    ∃ entries,
      outcome.parentPage.records = call.parentPage.records.take call.posInParent ++
        (IndexTree.splitRecords call.indexType call.brParentOld entries ++
          call.parentPage.records.drop call.posInParent) ∧
      entries.map (fun entry => (entry.lastKey, entry.pageId)) =
        outcome.pages.map (fun new => (lastKey call.indexType new.2, new.1)) ∧
      (entries.map IndexTree.NewEntry.record).map (BranchRecord.entry call.indexType) =
        (entries.map fun entry => (entry.lastKey, entry.pageId)) ∧
      (∀ entry ∈ entries, ∃ last ∈ call.page.records,
        entry.record = last.ofBranch call.indexType entry.pageId) ∧
      outcome.parentPage.committedDataLength = call.parentPage.committedDataLength +
        Segments.total BranchPage.recordLength
          (IndexTree.splitRecords call.indexType call.brParentOld entries) := by
  have parted := Call.parted result
  rcases Call.run_eq_some result with
    ⟨first, parts, entries, -, entriesEq, pagesEq, -, parentEq⟩
  have named : (call.pageParts first parts).map (fun part => (part.1, part.2.1)) =
      outcome.pages.map fun new => (new.1, new.2.records) := by
    have two := congrArg (List.map fun triple : PageID × List BranchRecord × ℤ =>
      (triple.1, triple.2.1)) pagesEq
    simpa [Function.comp_def] using two.symm
  rw [named] at entriesEq
  have notEmpty : ∀ part ∈ outcome.pages.map fun new => (new.1, new.2.records), part.2 ≠ [] := by
    intro part mem
    rcases List.mem_map.mp mem with ⟨new, newMem, rfl⟩
    exact parted.nonempty new newMem
  have readable : ∀ part ∈ outcome.pages.map fun new => (new.1, new.2.records),
      ∀ br ∈ part.2, br.Readable call.indexType := by
    intro part mem br brMem
    rcases List.mem_map.mp mem with ⟨new, newMem, rfl⟩
    apply sound.readable
    rw [← parted.joined]
    exact List.mem_flatMap.mpr ⟨new, newMem, brMem⟩
  rcases newEntries_eq _ notEmpty with ⟨same, sameEq, keys, made⟩
  rw [entriesEq, Option.some.injEq] at sameEq
  subst sameEq
  refine ⟨entries, ?_, ?_, map_entry_records readable made, ?_, ?_⟩
  · rw [parentEq, BranchPage.records_insertRecords _ _ sound.posLe]
  · rw [keys, List.map_map]
    rfl
  · intro entry mem
    rcases made entry mem with ⟨part, partMem, last, lastMem, -, recordEq⟩
    rcases List.mem_map.mp partMem with ⟨new, newMem, rfl⟩
    refine ⟨last, ?_, recordEq⟩
    rw [← parted.joined]
    exact List.mem_flatMap.mpr ⟨new, newMem, lastMem⟩
  · rw [parentEq, BranchPage.committedDataLength_insertRecords]

theorem Parted.lastKey_eq (parted : Parted call outcome) {new : PageID × BranchPage}
    (isLast : outcome.pages.getLast? = some new) (type : IndexType) :
    lastKey type new.2 = lastKey type call.page := by
  rcases List.getLast?_eq_some_iff.mp isLast with ⟨init, pagesEq⟩
  have notEmpty : new.2.records ≠ [] := parted.nonempty new (by simp [pagesEq])
  rw [lastKey, lastKey, ← parted.joined, pagesEq, List.flatMap_append, List.flatMap_singleton,
    List.getLast?_append_of_ne_nil _ notEmpty]

theorem final_lastKey {entries : List IndexTree.NewEntry} {final : IndexTree.NewEntry}
    (parted : Parted call outcome)
    (keys : entries.map (fun entry => (entry.lastKey, entry.pageId)) =
      outcome.pages.map (fun new => (lastKey call.indexType new.2, new.1)))
    (isLast : entries.getLast? = some final) :
    final.lastKey = lastKey call.indexType call.page := by
  have lasts := congrArg List.getLast? keys
  rw [List.getLast?_map, List.getLast?_map, isLast, Option.map_some] at lasts
  rcases Option.map_eq_some_iff.mp lasts.symm with ⟨new, newLast, newEq⟩
  rw [← parted.lastKey_eq newLast]
  exact (Prod.mk.inj newEq).1.symm

theorem splitRecords_of_divisible {entries : List IndexTree.NewEntry} (divisible : Divisible call)
    (parted : Parted call outcome)
    (keys : entries.map (fun entry => (entry.lastKey, entry.pageId)) =
      outcome.pages.map (fun new => (lastKey call.indexType new.2, new.1))) :
    IndexTree.splitRecords call.indexType call.brParentOld entries =
      entries.map IndexTree.NewEntry.record := by
  refine splitRecords_eq_map fun old oldEq final isLast => ?_
  rw [final_lastKey parted keys isLast]
  have notEmpty : call.page.records ≠ [] := by
    intro empty
    have lengths := congrArg List.length keys
    rw [← parted.joined, List.flatMap_eq_nil_iff] at empty
    rw [List.length_map, List.length_map] at lengths
    have pages : outcome.pages = [] := by
      rw [List.eq_nil_iff_forall_not_mem]
      exact fun new mem => parted.nonempty new mem (empty new mem)
    rw [pages, List.length_nil, List.length_eq_zero_iff] at lengths
    rw [lengths] at isLast
    cases isLast
  have lastEq := List.getLast?_eq_some_getLast notEmpty
  simpa [lastKey, lastEq] using divisible.separator old oldEq _ lastEq

end Run

/-- A split that does what it is for was one of a page that can be divided. -/
theorem divisible_of_wellSplit (sound : call.Sound) (result : call.run = some outcome)
    (well : WellSplit call outcome) : Divisible call := by
  have parted := Call.parted result
  rcases Call.entries_spec sound result with ⟨entries, parentEq, keys, entryEq, -⟩
  refine ⟨well.own, ?_, Call.fits_of_run result, ?_, ?_⟩
  · intro old oldEq last lastEq
    by_contra above
    have pageKey : lastKey call.indexType call.page = last.indexKey call.indexType := by
      simp [lastKey, lastEq]
    have separators := well.separators
    rw [parentEq, List.map_append, List.map_append, oldEq, ← keys] at separators
    have same := (List.append_left_inj _).mp ((List.append_right_inj _).mp separators)
    have lengths := congrArg List.length keys
    have several := well.several
    rw [List.length_map, List.length_map] at lengths
    match entries, lengths with
    | [], lengths => rw [List.length_nil] at lengths; omega
    | [_], lengths => rw [List.length_singleton] at lengths; omega
    | entry :: next :: rest, _ =>
        rcases Option.isSome_iff_exists.mp (List.getLast?_isSome.mpr (List.cons_ne_nil next rest))
          with ⟨final, isLast⟩
        have finalKey := final_lastKey parted keys (by rw [List.getLast?_cons_cons, isLast])
        rw [pageKey] at finalKey
        have newLast := getLast?_newRecords isLast
          (by rw [finalKey]; exact lt_of_not_ge above)
        have ends := congrArg List.getLast? same
        rw [IndexTree.splitRecords, List.getLast?_map, List.getLast?_map, List.getLast?_cons,
          newLast, List.getLast?_cons_cons, isLast] at ends
        have keyEq : (old.ofBranch call.indexType final.pageId).indexKey call.indexType =
            final.lastKey := congrArg Prod.fst (Option.some.inj ends)
        rw [(sound.oldReadable old oldEq).indexKey_ofBranch, finalKey] at keyEq
        exact above (le_of_eq keyEq)
  · intro full
    rcases parted.full.mpr full with ⟨new, mem, totalEq⟩
    have notOverlength := well.below new mem
    rw [BranchPage.isOverlength, well.lengths new mem, totalEq] at notOverlength
    exact absurd notOverlength (by decide)
  · intro br mem
    rw [← parted.moved] at mem
    rcases List.mem_flatMap.mp mem with ⟨new, newMem, brMem⟩
    have adopted := well.children new newMem br brMem
    have type := @objectType_adoptAll call.objects br.childPage outcome.pages.tail
    rw [← parted.objects, objectType, adopted] at type
    exact type.symm

theorem wellSplit_of_divisible (sound : call.Sound) (divisible : Divisible call) :
    ∃ outcome, call.run = some outcome ∧ WellSplit call outcome := by
  rcases Call.parts_spec divisible.fits with ⟨all, partsEq, joined, spec, -, full⟩
  have long : maxDataLengthBranch ≤
      Segments.total BranchPage.recordLength call.page.records := by
    have overlength := sound.overlength
    rw [BranchPage.isOverlength, sound.committed, decide_eq_true_eq] at overlength
    exact le_trans overlength (asUInt32_natCast_le _)
  have several : ∃ first parts, all = first :: parts ∧ parts ≠ [] := by
    match all, joined, spec, full with
    | [], joined, _, _ =>
        rw [← joined] at long
        exact absurd long (by decide)
    | [only], joined, spec, full =>
        have onlySpec := spec only List.mem_cons_self
        rw [← joined, List.flatMap_singleton, ← onlySpec.length] at long
        refine absurd (full.mp ?_) divisible.notFull
        simp [le_antisymm onlySpec.fits long]
    | first :: second :: parts, _, _, _ => exact ⟨first, second :: parts, rfl, List.cons_ne_nil _ _⟩
  rcases several with ⟨first, parts, rfl, notSingle⟩
  rcases Call.run_isSome partsEq notSingle fun part mem => (spec part mem).nonempty with
    ⟨outcome, result⟩
  have parted := Call.parted result
  rcases Call.entries_spec sound result with ⟨entries, parentEq, keys, entryEq, -⟩
  refine ⟨outcome, result, divisible.own, ?_, parted.ids, parted.nonempty, ?_, parted.lengths,
    parted.joined, ?_, ?_⟩
  · have count := parted.count
    rw [partsEq, Option.map_some, Option.some.injEq, List.length_cons] at count
    have atLeast := List.length_pos_iff.mpr notSingle
    omega
  · intro new mem
    have short := parted.short new mem
    have notFull : Segments.total BranchPage.recordLength new.2.records ≠ maxDataLengthBranch :=
      fun isFull => divisible.notFull (parted.full.mp ⟨new, mem, isFull⟩)
    have maxEq : maxDataLengthBranch = 16368 := rfl
    rw [BranchPage.isOverlength, parted.lengths new mem, asUInt32_natCast (by omega)]
    simp only [decide_eq_false_iff_not]
    omega
  · rw [parentEq, splitRecords_of_divisible divisible parted keys, List.map_append, List.map_append,
      entryEq, keys]
  · intro new newMem br brMem
    have nodup : ((outcome.pages.tail.flatMap fun new => new.2.records).map
        BranchRecord.childPage).Nodup := by
      rw [parted.moved]
      exact sound.nodup.sublist ((Segments.beyond_suffix 0 _).sublist.map _)
    have mem : br ∈ call.moved := by
      rw [← parted.moved]
      exact List.mem_flatMap.mpr ⟨new, newMem, brMem⟩
    rw [parted.objects, adoptAll_eq nodup newMem (List.mem_map_of_mem brMem)]
    congr 2
    exact divisible.children br mem

/-!
## All splits of a call
-/

/-- A page whose length is that of its records, which can be copied and lead to different pages
below the first unused identifier. -/
structure PageSound (indexType : IndexType) (newPageId : PageID) (page : BranchPage) : Prop where
  committed : page.committedDataLength = Segments.total BranchPage.recordLength page.records
  readable : ∀ br ∈ page.records, br.Readable indexType
  nodup : (page.records.map BranchRecord.childPage).Nodup
  below : ∀ br ∈ page.records, br.childPage < newPageId

structure ChainSound (indexType : IndexType) (newPageId pageId : PageID) (page : BranchPage)
    (ancestors : List (PageID × BranchPage)) : Prop where
  page : PageSound indexType newPageId page
  pageIdLt : pageId < newPageId
  ancestors : ∀ ancestor ∈ ancestors,
    PageSound indexType newPageId ancestor.2 ∧ ancestor.1 < newPageId

theorem PageSound.mono {indexType : IndexType} {newPageId newPageId' : PageID} {page : BranchPage}
    (sound : PageSound indexType newPageId page) (le : newPageId ≤ newPageId') :
    PageSound indexType newPageId' page :=
  { sound with below := fun br mem => lt_of_lt_of_le (sound.below br mem) le }

section Chain

variable {indexType : IndexType} {newPageId pageId parentPageId : PageID} {objects : Objects}
  {page parentPage : BranchPage} {ancestors : List (PageID × BranchPage)}

theorem sound_root (chain : ChainSound indexType newPageId pageId page ancestors)
    (overlength : page.isOverlength = true) :
    (Call.root indexType newPageId objects pageId page).Sound where
  overlength := overlength
  committed := chain.page.committed
  readable := chain.page.readable
  nodup := chain.page.nodup
  oldReadable old oldEq := by cases oldEq
  posLe := le_rfl

theorem below_eq_some
    (callEq : Call.below indexType newPageId objects pageId page parentPageId parentPage =
      some call) :
    call.indexType = indexType ∧ call.newPageId = newPageId ∧ call.pageId = pageId ∧
      call.page = page ∧ ∃ left old right, parentPage.records = left ++ old :: right ∧
        call.brParentOld = some old ∧ call.parentPage.records = left ++ right ∧
        call.posInParent = left.length ∧
        call.parentPage.committedDataLength =
          parentPage.committedDataLength - BranchPage.recordLength old := by
  simp only [Call.below, Option.bind_eq_bind, Option.bind_eq_some_iff] at callEq
  rcases callEq with ⟨last, -, ⟨old, parent⟩, deleted, callEq⟩
  cases callEq
  rcases Option.map_eq_some_iff.mp deleted with ⟨record, atPos, deletedEq⟩
  cases deletedEq
  generalize parentPage.searchRecord indexType
    ((last.ofBranch indexType pageId).indexKey indexType) =
    pos at *
  have posLt := (List.getElem?_eq_some_iff.mp atPos).1
  refine ⟨rfl, rfl, rfl, rfl, parentPage.records.take pos, old, parentPage.records.drop (pos + 1),
    ?_, rfl, ?_, ?_, rfl⟩
  · rw [← (List.getElem?_eq_some_iff.mp atPos).2, List.getElem_cons_drop, List.take_append_drop]
  · rw [List.eraseIdx_eq_take_drop_succ]
  · rw [List.length_take_of_le posLt.le]

theorem map_fst_pages (result : call.run = some outcome) :
    ∃ pnum, outcome.newPageId = call.newPageId + pnum ∧
      outcome.pages.map Prod.fst = call.pageId :: call.newPageIds pnum := by
  simp only [Call.run, Option.bind_eq_bind, Option.bind_eq_some_iff] at result
  rcases result with ⟨all, partsEq, result⟩
  cases all with
  | nil => cases result
  | cons first parts =>
      simp only at result
      split at result
      · cases result
      · rcases Option.bind_eq_some_iff.mp result with ⟨entries, entriesEq, outcomeEq⟩
        cases outcomeEq
        refine ⟨parts.length, rfl, ?_⟩
        have lists := congrArg (List.map Prod.fst) (@IndexTree.map_newBranchPages
          call.page.pageLevel call.parentPageId call.page.endPage
          ((call.newPageIds parts.length).zip parts))
        rw [List.map_map, List.map_map] at lists
        have zipped := List.map_fst_zip (le_of_eq (length_newPageIds call parts.length))
        rw [List.map_cons]
        congr 1
        exact lists.trans zipped

variable
  (chain : ChainSound indexType newPageId pageId page ((parentPageId, parentPage) :: ancestors))
  (overlength : page.isOverlength = true)
  (callEq : Call.below indexType newPageId objects pageId page parentPageId parentPage = some call)

include chain overlength callEq

theorem sound_below : call.Sound := by
  rcases below_eq_some callEq with
    ⟨rfl, rfl, rfl, rfl, left, old, right, recordsEq, oldEq, keptEq, posEq, -⟩
  have parentSound := (chain.ancestors _ List.mem_cons_self).1
  refine ⟨overlength, chain.page.committed, chain.page.readable, chain.page.nodup, ?_, ?_⟩
  · intro other otherEq
    rw [oldEq] at otherEq
    cases otherEq
    exact parentSound.readable old (by simp [recordsEq])
  · rw [posEq, keptEq]
    simp

/-- The parent page is sound after a split, and its records lead to the pages of the split. -/
theorem pageSound_parent (result : call.run = some outcome) (well : WellSplit call outcome) :
    PageSound indexType outcome.newPageId outcome.parentPage ∧
      newPageId ≤ outcome.newPageId := by
  have sound := sound_below chain overlength callEq
  have divisible := divisible_of_wellSplit sound result well
  have parted := Call.parted result
  have parentSound := (chain.ancestors _ List.mem_cons_self).1
  rcases Call.entries_spec sound result with ⟨entries, parentEq, keys, -, made, committed⟩
  rw [splitRecords_of_divisible divisible parted keys] at parentEq committed
  rcases map_fst_pages result with ⟨pnum, newPageIdEq, idsEq⟩
  rcases below_eq_some callEq with
    ⟨rfl, rfl, rfl, rfl, left, old, right, recordsEq, oldEq, keptEq, posEq, lengthEq⟩
  have le : call.newPageId ≤ outcome.newPageId := newPageIdEq ▸ Nat.le_add_right _ pnum
  have own := well.own old oldEq
  have keptParent : outcome.parentPage.records =
      left ++ (entries.map IndexTree.NewEntry.record ++ right) := by
    rw [parentEq, keptEq, posEq, List.take_left, List.drop_left]
  have childrenEq : (entries.map IndexTree.NewEntry.record).map BranchRecord.childPage =
      call.pageId :: call.newPageIds pnum := by
    have ids := congrArg (List.map Prod.snd) keys
    rw [List.map_map, List.map_map] at ids
    rw [← idsEq, List.map_map]
    refine Eq.trans (List.map_congr_left fun entry mem => ?_) ids
    rcases made entry mem with ⟨last, -, recordEq⟩
    simp only [Function.comp_apply, recordEq]
    rfl
  refine ⟨⟨?_, ?_, ?_, ?_⟩, le⟩
  · rw [committed, lengthEq, parentSound.committed, keptParent, recordsEq]
    simp only [Segments.total_append, Segments.total_cons, Nat.cast_add]
    have exchanged : ∀ before old new behind : ℤ,
        before + (old + behind) - old + new = before + (new + behind) := by
      intro before old new behind
      omega
    exact exchanged _ _ _ _
  · intro br mem
    rw [keptParent, List.mem_append, List.mem_append] at mem
    rcases mem with mem | mem | mem
    · exact parentSound.readable br (by simp [recordsEq, mem])
    · rcases List.mem_map.mp mem with ⟨entry, entryMem, rfl⟩
      rcases made entry entryMem with ⟨last, lastMem, recordEq⟩
      rw [recordEq]
      exact (chain.page.readable last lastMem).ofBranch entry.pageId
    · exact parentSound.readable br (by simp [recordsEq, mem])
  · have nodup := parentSound.nodup
    have fresh : ∀ br ∈ parentPage.records, br.childPage ∉ call.newPageIds pnum := by
      intro br mem isNew
      exact absurd (parentSound.below br mem)
        (not_lt_of_ge (bounds_of_mem_newPageIds isNew).1)
    rw [recordsEq, List.map_append, List.map_cons, own] at nodup
    rw [keptParent, List.map_append, List.map_append, childrenEq, List.cons_append]
    have leftFresh : ∀ id ∈ left.map BranchRecord.childPage, id ∉ call.newPageIds pnum := by
      intro id mem
      rcases List.mem_map.mp mem with ⟨br, brMem, rfl⟩
      exact fresh br (by simp [recordsEq, brMem])
    have rightFresh : ∀ id ∈ right.map BranchRecord.childPage, id ∉ call.newPageIds pnum := by
      intro id mem
      rcases List.mem_map.mp mem with ⟨br, brMem, rfl⟩
      exact fresh br (by simp [recordsEq, brMem])
    have pageFresh : call.pageId ∉ call.newPageIds pnum := own ▸ fresh old (by simp [recordsEq])
    generalize left.map BranchRecord.childPage = leftIds at *
    generalize right.map BranchRecord.childPage = rightIds at *
    have newNodup := nodup_newPageIds call pnum
    simp only [List.nodup_append, List.nodup_cons, List.mem_append, List.mem_cons] at nodup ⊢
    grind
  · intro br mem
    rw [keptParent, List.mem_append, List.mem_append] at mem
    rcases mem with mem | mem | mem
    · exact lt_of_lt_of_le (parentSound.below br (by simp [recordsEq, mem])) le
    · have childMem := List.mem_map_of_mem (f := BranchRecord.childPage) mem
      rw [childrenEq, List.mem_cons] at childMem
      rcases childMem with same | isNew
      · rw [same]
        exact lt_of_lt_of_le chain.pageIdLt le
      · rw [newPageIdEq]
        exact (bounds_of_mem_newPageIds isNew).2
    · exact lt_of_lt_of_le (parentSound.below br (by simp [recordsEq, mem])) le

theorem ChainSound.parent (result : call.run = some outcome) (well : WellSplit call outcome) :
    ChainSound indexType outcome.newPageId parentPageId outcome.parentPage ancestors := by
  rcases pageSound_parent chain overlength callEq result well with ⟨parentSound, le⟩
  refine ⟨parentSound, lt_of_lt_of_le (chain.ancestors _ List.mem_cons_self).2 le, ?_⟩
  intro ancestor mem
  rcases chain.ancestors ancestor (List.mem_cons_of_mem _ mem) with ⟨sound, idLt⟩
  exact ⟨sound.mono le, lt_of_lt_of_le idLt le⟩

end Chain

/-- All splits of the call do what they are for. -/
def SplitsWell (indexType : IndexType) (newPageId : PageID) (objects : Objects) (pageId : PageID)
    (page : BranchPage) (ancestors : List (PageID × BranchPage)) : Prop :=
  ∃ steps, splitPage indexType newPageId objects pageId page ancestors = some steps ∧
    ∀ step ∈ steps, WellSplit step.1 step.2

/-- Every page that the call comes to can be divided: the page itself and, when the parent page is
far too long with the new records, the parent page in turn. -/
def Splittable (indexType : IndexType) :
    PageID → Objects → PageID → BranchPage → List (PageID × BranchPage) → Prop
  | newPageId, objects, pageId, page, [] =>
      Divisible (Call.root indexType newPageId objects pageId page)
  | newPageId, objects, pageId, page, (parentPageId, parentPage) :: ancestors =>
      ∃ call, Call.below indexType newPageId objects pageId page parentPageId parentPage =
          some call ∧ Divisible call ∧
        ∀ outcome, call.run = some outcome → outcome.parentPage.needForceSplit = true →
          Splittable indexType outcome.newPageId outcome.objects parentPageId outcome.parentPage
            ancestors

theorem isOverlength_of_needForceSplit {page : BranchPage} (force : page.needForceSplit = true) :
    page.isOverlength = true := by
  rw [BranchPage.needForceSplit, decide_eq_true_eq] at force
  rw [BranchPage.isOverlength, decide_eq_true_eq]
  have thresholdEq : loadThreshold = 81920 := rfl
  have maxEq : maxDataLengthBranch = 16368 := rfl
  omega

/-- For every branch page that is too long, below any ancestors, `SplitPage` returns and does what
it is for exactly when every page it comes to can be divided. -/
theorem splitsWell_iff {indexType : IndexType} {newPageId pageId : PageID} {objects : Objects}
    {page : BranchPage} {ancestors : List (PageID × BranchPage)}
    (overlength : page.isOverlength = true)
    (chain : ChainSound indexType newPageId pageId page ancestors) :
    SplitsWell indexType newPageId objects pageId page ancestors ↔
      Splittable indexType newPageId objects pageId page ancestors := by
  induction ancestors generalizing newPageId objects pageId page with
  | nil =>
      have sound := @sound_root _ _ _ objects _ _ chain overlength
      constructor
      · rintro ⟨steps, stepsEq, well⟩
        rcases Option.map_eq_some_iff.mp stepsEq with ⟨outcome, result, rfl⟩
        exact divisible_of_wellSplit sound result (well _ (List.mem_singleton_self _))
      · intro divisible
        rcases wellSplit_of_divisible sound divisible with ⟨outcome, result, well⟩
        refine ⟨[(_, outcome)], by rw [splitPage, result]; rfl, ?_⟩
        intro step mem
        rw [List.mem_singleton.mp mem]
        exact well
  | cons ancestor ancestors ih =>
      rcases ancestor with ⟨parentPageId, parentPage⟩
      constructor
      · rintro ⟨steps, stepsEq, well⟩
        simp only [splitPage, Option.bind_eq_bind, Option.bind_eq_some_iff] at stepsEq
        rcases stepsEq with ⟨call, callEq, outcome, result, stepsEq⟩
        have sound := sound_below chain overlength callEq
        have wellHere : WellSplit call outcome := by
          split at stepsEq
          · rcases Option.map_eq_some_iff.mp stepsEq with ⟨rest, -, rfl⟩
            exact well _ List.mem_cons_self
          · cases stepsEq
            exact well _ List.mem_cons_self
        refine ⟨call, callEq, divisible_of_wellSplit sound result wellHere, ?_⟩
        intro outcome' result' force
        rw [result, Option.some.injEq] at result'
        subst result'
        rw [if_pos force] at stepsEq
        rcases Option.map_eq_some_iff.mp stepsEq with ⟨rest, restEq, rfl⟩
        exact (ih (isOverlength_of_needForceSplit force)
          (chain.parent overlength callEq result wellHere)).mp
          ⟨rest, restEq, fun step mem => well step (List.mem_cons_of_mem _ mem)⟩
      · rintro ⟨call, callEq, divisible, above⟩
        have sound := sound_below chain overlength callEq
        rcases wellSplit_of_divisible sound divisible with ⟨outcome, result, well⟩
        by_cases force : outcome.parentPage.needForceSplit = true
        · rcases (ih (isOverlength_of_needForceSplit force)
            (chain.parent overlength callEq result well)).mpr (above outcome result force) with
            ⟨rest, restEq, wellRest⟩
          refine ⟨(call, outcome) :: rest, ?_, ?_⟩
          · simp [splitPage, callEq, result, force, restEq]
          · intro step mem
            rcases List.mem_cons.mp mem with rfl | mem
            · exact well
            · exact wellRest step mem
        · refine ⟨[(call, outcome)], by simp [splitPage, callEq, result, force], ?_⟩
          intro step mem
          rw [List.mem_singleton.mp mem]
          exact well

/-- A branch record with a key of equal bytes. -/
def sampleRecord (keyLength : ℕ) (byte : Byte) (childPageId : PageID) : BranchRecord :=
  .new (writeLE 2 0 ++ writeLE 2 keyLength ++ List.replicate keyLength byte) 0 childPageId

theorem sampleRecord_spec {keyLength : ℕ} (small : keyLength < 2 ^ 15) (byte : Byte)
    (childPageId : PageID) :
    BranchPage.recordLength (sampleRecord keyLength byte childPageId) = keyLength + 10 ∧
      (sampleRecord keyLength byte childPageId).Readable .primary := by
  have keyEq : fieldAt 2 2 (writeLE 2 0 ++ writeLE 2 keyLength ++
      List.replicate keyLength byte) = keyLength := by
    rw [List.append_assoc, fieldAt_append 2 _ (length_writeLE 2 0), readLE_writeLE_append]
    omega
  have long : 4 + (fieldAt 2 2 (writeLE 2 0 ++ writeLE 2 keyLength ++
      List.replicate keyLength byte) + 0) ≤
      (writeLE 2 0 ++ writeLE 2 keyLength ++ List.replicate keyLength byte).length := by
    rw [keyEq]
    simp only [List.length_append, length_writeLE, List.length_replicate]
    omega
  have totalEq : (sampleRecord keyLength byte childPageId).getTotalLength = keyLength + 8 := by
    rw [sampleRecord, BranchRecord.getTotalLength_new (by omega), keyEq]
  refine ⟨by rw [BranchPage.recordLength, totalEq], BranchRecord.readable_new _ long ?_ ?_⟩
  · rw [keyEq]
    omega
  · rintro ⟨⟩

/-- A root page over leaves with the given key lengths. -/
def samplePage (keyLengths : List ℕ) : BranchPage where
  pageLevel := 1
  records := keyLengths.zipIdx.map fun (keyLength, index) =>
    sampleRecord keyLength (Fin.ofNat 256 index) index
  parentPageId := none
  endPage := true
  committedDataLength := ((keyLengths.map fun keyLength => keyLength + 10).sum : ℕ)

theorem samplePage_spec {keyLengths : List ℕ} (small : ∀ keyLength ∈ keyLengths,
    keyLength < 2 ^ 15) :
    (samplePage keyLengths).records.map BranchPage.recordLength =
        keyLengths.map (fun keyLength => keyLength + 10) ∧
      PageSound .primary keyLengths.length (samplePage keyLengths) := by
  have lengths : (samplePage keyLengths).records.map BranchPage.recordLength =
      keyLengths.map fun keyLength => keyLength + 10 := by
    conv_rhs => rw [← List.zipIdx_map_fst 0 keyLengths]
    rw [samplePage, List.map_map, List.map_map]
    refine List.map_congr_left fun pair mem => ?_
    exact (sampleRecord_spec (small _ (List.fst_mem_of_mem_zipIdx mem)) _ _).1
  refine ⟨lengths, ?_, ?_, ?_, ?_⟩
  · rw [Segments.total, lengths]
    rfl
  · intro br mem
    rcases List.mem_map.mp mem with ⟨pair, pairMem, rfl⟩
    exact (sampleRecord_spec (small _ (List.fst_mem_of_mem_zipIdx pairMem)) _ _).2
  · have children : (samplePage keyLengths).records.map BranchRecord.childPage =
        List.range' 0 keyLengths.length := by
      rw [← List.zipIdx_map_snd 0 keyLengths, samplePage, List.map_map]
      rfl
    rw [children]
    exact List.nodup_range'
  · intro br mem
    rcases List.mem_map.mp mem with ⟨pair, pairMem, rfl⟩
    exact List.snd_lt_of_mem_zipIdx pairMem

def sampleObjects : Objects := fun _ => some ⟨.leafPage, 10⟩

def longKeys : List ℕ := List.replicate 9 1958

/-- Keys of records that come to the length of a page with the last one, and are below the limit
without it. -/
def fullKeys : List ℕ := List.replicate 8 1790 ++ [1958]

theorem splitsWell_longKeys :
    SplitsWell .primary 11 sampleObjects 10 (samplePage longKeys) [] ↔
      Splittable .primary 11 sampleObjects 10 (samplePage longKeys) [] := by
  have sound := (@samplePage_spec longKeys (by decide)).2
  exact splitsWell_iff (by decide) ⟨sound.mono (by decide), by decide, by simp⟩

/-- A root page that comes to exactly the length of a page with its last record stays as it is. -/
theorem not_splitsWell_fullKeys :
    ¬ SplitsWell .primary 11 sampleObjects 10 (samplePage fullKeys) [] := by
  rintro ⟨steps, stepsEq, well⟩
  rcases @samplePage_spec fullKeys (by decide) with ⟨lengths, pageSound⟩
  have sound := @sound_root _ 11 10 sampleObjects _ []
    ⟨pageSound.mono (by decide), by decide, by simp⟩ (by decide)
  rw [splitPage] at stepsEq
  rcases Option.map_eq_some_iff.mp stepsEq with ⟨outcome, result, rfl⟩
  have divisible := divisible_of_wellSplit sound result (well _ (List.mem_singleton_self _))
  apply divisible.notFull
  rw [Segments.fills_eq_map, Call.root, lengths]
  decide

end BranchSplit

end RapidDb
