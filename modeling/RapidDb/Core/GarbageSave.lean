import Mathlib.Algebra.Order.BigOperators.Group.List
import Mathlib.Data.List.Sort
import RapidDb.Core.GarbageOwner
import RapidDb.Core.RecordFormat

/-!
# Saving the free pages

The ranges are written into pages of the index file, and the head page stores where these pages
are. The pages are taken out of the free ones if there are enough, and from the end of the file
otherwise. A new owner reads the ranges from the file.

The check sum is that of a library and a parameter here. The pages of the list are always valid, so
`SavePage` never waits for them.
-/

namespace RapidDb

open Bytes Transition

/-- What the head page stores about the free pages. -/
structure GarbageHead where
  totalPage : ℕ := 0
  pageId : ℕ := 0
  usedPage : ℕ := 0
  crc32 : ℕ := 0
deriving DecidableEq, Repr

namespace GarbageOwner

/-- The number of pages that the list needs, six bytes for each range. -/
def listPageNum (owner : GarbageOwner) : ℕ :=
  (owner.treeFreePage.length * 6 + indexPageSize - 1) / indexPageSize % 2 ^ 16

/-- The bytes that are written for the ranges. -/
def listBytes (ranges : List (PageID × ℕ)) : List Byte :=
  ranges.flatMap fun (id, num) => writeLE 4 id ++ writeLE 2 num

/-- The ranges in the order of their first pages. -/
def inOrder (owner : GarbageOwner) : List (PageID × ℕ) :=
  owner.treeFreePage.insertionSort fun range range' => range.1 ≤ range'.1

/-- The bytes behind the list are those that the buffer had before. -/
def listBuffer (owner : GarbageOwner) (size : ℕ) (fresh : ℕ → Byte) : List Byte :=
  let list := listBytes owner.inOrder
  list ++ (List.range' list.length (size - list.length)).map fresh

/-- The loop of the constructor over the items of the list. -/
def readItems (buffer : List Byte) : ℕ → ℕ → GarbageOwner → Option GarbageOwner
  | 0, _, owner => some owner
  | items + 1, i, owner =>
      if i * 6 + 6 ≤ buffer.length then
        let id := fieldAt 4 (i * 6) buffer
        let num := fieldAt 2 (i * 6 + 4) buffer
        let owner := owner.insertPage id num
        readItems buffer items (i + 1)
          { owner with totalGarbagePages := (owner.totalGarbagePages + num) % 2 ^ 32 }
      else
        none

end GarbageOwner

/-- Pages that follow each other are written into the file. -/
def writePages (file : ℕ → List Byte) (first : ℕ) (bytes : List Byte) : ℕ → List Byte := fun id =>
  if first ≤ id ∧ id < first + bytes.length / indexPageSize then
    slice (indexPageSize * (id - first)) indexPageSize bytes
  else
    file id

def readPages (file : ℕ → List Byte) (first num : ℕ) : List Byte :=
  (List.range' first num).flatMap file

/-- The owner of the free pages, the head page and the file, with the pages that the tree has and
the owner at the time of the last `SavePage`. -/
structure GarbageFile where
  owner : GarbageOwner := {}
  firstPageId : ℕ := 0
  usedPageNum : ℕ := 0
  head : GarbageHead := {}
  totalPageCount : ℕ := 0
  file : ℕ → List Byte := fun _ => []
  owned : List ℕ := []
  saved : Option GarbageOwner := none

inductive GarbageFileEvent where
  | recyclePage (pid num : ℕ)
  | applyOvfPage (num choice : ℕ) (locked : Bool)
  | applyIndexPages (num choice : ℕ) (locked : Bool)
  | getAndIncTotalPageCount (num : ℕ)
  /-- The tree writes one of its pages. -/
  | writePage (id : ℕ) (bytes : List Byte)
  | savePage (choice : ℕ) (fresh : ℕ → Byte)
  /-- The file is closed and opened again. -/
  | restart

namespace GarbageFile

/-- The pages that the list is stored in. -/
def listPages (state : GarbageFile) : List ℕ := List.range' state.firstPageId state.usedPageNum

/-- `GetAndIncTotalPageCount`. -/
def grow (totalPageCount num : ℕ) : ℕ := (totalPageCount + num) % 2 ^ 32

/-- `SavePage`; none if it erases a range for whose length there is no set, or writes behind the
pages of the list. -/
def savePage (checksum : List Byte → ℕ) (state : GarbageFile) (choice : ℕ) (fresh : ℕ → Byte) :
    Option GarbageFile := do
  let owner ←
    if 0 < state.usedPageNum then state.owner.erasePage state.firstPageId state.usedPageNum
    else some state.owner
  if owner.totalGarbagePages = 0 then
    some
      { state with
        owner
        firstPageId := pageNullPointer
        usedPageNum := 0
        head := ⟨owner.totalGarbagePages, pageNullPointer, 0, 0⟩
        saved := some owner }
  else do
    let used := owner.listPageNum
    let (owner, applied) ← owner.applyOvfPage used choice true
    let (first, total) : ℕ × ℕ :=
      match applied with
      | some id => (id, state.totalPageCount)
      | none => (state.totalPageCount, grow state.totalPageCount used)
    if owner.treeFreePage.length * 6 ≤ indexPageSize * used then
      let bytes := owner.listBuffer (indexPageSize * used) fresh
      some
        { state with
          owner
          firstPageId := first
          usedPageNum := used
          head := ⟨owner.totalGarbagePages, first, used, checksum bytes⟩
          totalPageCount := total
          file := writePages state.file first bytes
          saved := some owner }
    else
      none

/-- The constructor: the owner with the place of the list; none if the check sum is wrong or it
reads behind the pages of the list. -/
def restore (checksum : List Byte → ℕ) (head : GarbageHead) (file : ℕ → List Byte) :
    Option (GarbageOwner × ℕ × ℕ) :=
  if head.usedPage = 0 then
    some ({}, head.pageId, head.usedPage)
  else
    let bytes := readPages file head.pageId head.usedPage
    if checksum bytes = head.crc32 then
      (GarbageOwner.readItems bytes head.totalPage 0 {}).map
        fun owner => (owner, head.pageId, head.usedPage)
    else
      none

def step (checksum : List Byte → ℕ) (state : GarbageFile) : GarbageFileEvent → Option GarbageFile
  | .recyclePage pid num =>
      (state.owner.recyclePage pid num).map fun owner =>
        { state with owner, owned := state.owned.filter (· ∉ List.range' pid num) }
  | .applyOvfPage num choice locked =>
      (state.owner.applyOvfPage num choice locked).map fun (owner, first) =>
        { state with owner, owned := GarbageOwner.pagesFrom num first ++ state.owned }
  | .applyIndexPages num choice locked =>
      (state.owner.applyIndexPages num choice locked).map fun (owner, pages) =>
        { state with owner, owned := pages ++ state.owned }
  | .getAndIncTotalPageCount num =>
      some
        { state with
          totalPageCount := grow state.totalPageCount num
          owned := List.range' state.totalPageCount num ++ state.owned }
  | .writePage id bytes => some { state with file := Function.update state.file id bytes }
  | .savePage choice fresh => state.savePage checksum choice fresh
  | .restart =>
      (restore checksum state.head state.file).map fun (owner, firstPageId, usedPageNum) =>
        { state with owner, firstPageId, usedPageNum, saved := some owner }

/-- The tree recycles and writes its own pages, the file does not outgrow the page ids, and it is
closed after `SavePage`. -/
def Permitted (state : GarbageFile) : GarbageFileEvent → Prop
  | .recyclePage pid num => num < 2 ^ 16 ∧ ∀ id ∈ List.range' pid num, id ∈ state.owned
  | .applyOvfPage num _ _ => num < 2 ^ 16
  | .applyIndexPages num _ _ => num < 2 ^ 16
  | .getAndIncTotalPageCount num => state.totalPageCount + num ≤ 2 ^ 32 - 1
  | .writePage id _ => id ∈ state.owned
  | .savePage _ _ => state.totalPageCount + state.owner.listPageNum ≤ 2 ^ 32 - 1
  | .restart => state.saved = some state.owner

end GarbageFile

namespace GarbageOwner

/-- Only single pages are left when the pages for the list are taken, and the list has a 16-bit
number of pages. -/
structure SinglesLeft (owner : GarbageOwner) : Prop where
  single : ∀ range ∈ owner.treeFreePage, range.2 = 1 ∨
    owner.listPageNum ≤ range.2 ∧ range.2 ≤ owner.listPageNum + 1 ∧
      ∀ other ∈ owner.treeFreePage, owner.listPageNum ≤ other.2 → other = range
  fits : owner.treeFreePage.length * 6 ≤ indexPageSize * (2 ^ 16 - 1)

end GarbageOwner

namespace GarbageFile

/-- The list has not been saved yet or was empty, and after this there is an item for each page of
the total. The other conditions are those of the bookkeeping. -/
def Regular (state : GarbageFile) : GarbageFileEvent → Prop
  | .recyclePage pid num => state.owner.RecycleFits pid num
  | .applyIndexPages num _ locked => state.owner.ServesIndexPages num locked
  | .savePage _ _ =>
      state.usedPageNum = 0 ∧ (state.owner.totalGarbagePages = 0 ∨ state.owner.SinglesLeft)
  | _ => True

def PermittedRegular (state : GarbageFile) (event : GarbageFileEvent) : Prop :=
  state.Permitted event ∧ state.Regular event

end GarbageFile

/-!
## Reading the list back
-/

namespace GarbageOwner

theorem length_listBytes (ranges : List (PageID × ℕ)) :
    (listBytes ranges).length = 6 * ranges.length := by
  induction ranges with
  | nil => rfl
  | cons range ranges ih =>
      rw [listBytes, List.flatMap_cons, List.length_append, List.length_append, length_writeLE,
        length_writeLE, ← listBytes, ih, List.length_cons]
      omega

theorem read_item {front : List Byte} {i id num : ℕ} (rest : List Byte)
    (length : front.length = i * 6) (idLt : id < 2 ^ 32) (numLt : num < 2 ^ 16) :
    fieldAt 4 (i * 6) (front ++ (writeLE 4 id ++ writeLE 2 num ++ rest)) = id ∧
      fieldAt 2 (i * 6 + 4) (front ++ (writeLE 4 id ++ writeLE 2 num ++ rest)) = num := by
  constructor
  · rw [fieldAt_append 4 _ length, List.append_assoc, readLE_writeLE_append]
    exact Nat.mod_eq_of_lt idLt
  · have split : front ++ (writeLE 4 id ++ writeLE 2 num ++ rest) =
        (front ++ writeLE 4 id) ++ (writeLE 2 num ++ rest) := by
      rw [List.append_assoc, List.append_assoc]
    have behind : (front ++ writeLE 4 id).length = i * 6 + 4 := by
      rw [List.length_append, length_writeLE, length]
    rw [split, fieldAt_append 2 _ behind, readLE_writeLE_append]
    exact Nat.mod_eq_of_lt numLt

theorem readItems_listBytes (ranges : List (PageID × ℕ)) {front junk buffer : List Byte} {i : ℕ}
    {owner : GarbageOwner} (bufferEq : buffer = front ++ (listBytes ranges ++ junk))
    (length : front.length = i * 6) (idLt : ∀ range ∈ ranges, range.1 < 2 ^ 32)
    (numLt : ∀ range ∈ ranges, range.2 < 2 ^ 16)
    (keys : ((ranges ++ owner.treeFreePage).map Prod.fst).Nodup)
    (mirrors : Mirrors owner.treeFreePage owner.rangePage) :
    ∃ owner', readItems buffer ranges.length i owner = some owner' ∧
      owner'.treeFreePage.Perm (ranges ++ owner.treeFreePage) ∧
      Mirrors owner'.treeFreePage owner'.rangePage ∧
      (owner.totalGarbagePages + (ranges.map Prod.snd).sum < 2 ^ 32 →
        owner'.totalGarbagePages = owner.totalGarbagePages + (ranges.map Prod.snd).sum) := by
  induction ranges generalizing front i owner with
  | nil => exact ⟨owner, rfl, List.Perm.refl _, mirrors, fun _ => rfl⟩
  | cons range ranges ih =>
      rcases range with ⟨id, num⟩
      have item : listBytes ((id, num) :: ranges) ++ junk =
          writeLE 4 id ++ writeLE 2 num ++ (listBytes ranges ++ junk) := by
        rw [listBytes, List.flatMap_cons, List.append_assoc]
        rfl
      rw [item] at bufferEq
      rcases List.forall_mem_cons.mp idLt with ⟨idLt, idsLt⟩
      rcases List.forall_mem_cons.mp numLt with ⟨numLt, numsLt⟩
      rcases read_item (listBytes ranges ++ junk) length idLt numLt with ⟨idRead, numRead⟩
      rw [← bufferEq] at idRead numRead
      have enough : i * 6 + 6 ≤ buffer.length := by
        rw [bufferEq]
        simp only [List.length_append, length_writeLE, length]
        omega
      have absent : id ∉ owner.treeFreePage.map Prod.fst := by
        rw [List.cons_append, List.map_cons, List.nodup_cons, List.map_append] at keys
        exact fun mem => keys.1 (List.mem_append_right _ mem)
      have tree : (owner.insertPage id num).treeFreePage = (id, num) :: owner.treeFreePage :=
        if_neg absent
      have nextMirrors : Mirrors (owner.insertPage id num).treeFreePage
          (owner.insertPage id num).rangePage := by
        rw [tree]
        exact mirrors.insert
      have nextKeys : ((ranges ++ (owner.insertPage id num).treeFreePage).map Prod.fst).Nodup := by
        rw [tree]
        exact (List.perm_middle.map Prod.fst).nodup_iff.mpr keys
      have nextFront : (front ++ (writeLE 4 id ++ writeLE 2 num)).length = (i + 1) * 6 := by
        simp only [List.length_append, length_writeLE, length]
        omega
      have nextBuffer : buffer =
          front ++ (writeLE 4 id ++ writeLE 2 num) ++ (listBytes ranges ++ junk) := by
        rw [bufferEq, List.append_assoc front]
      let next : GarbageOwner :=
        { owner.insertPage id num with
          totalGarbagePages := (owner.totalGarbagePages + num) % 2 ^ 32 }
      rcases @ih _ _ next nextBuffer nextFront idsLt numsLt nextKeys nextMirrors with
        ⟨owner', read, perm, mirrors', total⟩
      refine ⟨owner', ?_, ?_, mirrors', fun fits => ?_⟩
      · rw [List.length_cons, readItems, if_pos enough, idRead, numRead]
        exact read
      · refine perm.trans ?_
        show (ranges ++ (owner.insertPage id num).treeFreePage).Perm _
        rw [tree]
        exact List.perm_middle
      · rw [List.map_cons, List.sum_cons, ← Nat.add_assoc] at fits ⊢
        have small : (owner.totalGarbagePages + num) % 2 ^ 32 = owner.totalGarbagePages + num :=
          Nat.mod_eq_of_lt (Nat.lt_of_le_of_lt (Nat.le_add_right _ _) fits)
        have nextTotal : next.totalGarbagePages = owner.totalGarbagePages + num := small
        rw [nextTotal] at total
        exact total fits

end GarbageOwner

theorem readPages_writePages (file : ℕ → List Byte) (first num : ℕ) {bytes : List Byte}
    (length : bytes.length = indexPageSize * num) :
    readPages (writePages file first bytes) first num = bytes := by
  have part : ∀ count, count ≤ num →
      (List.range' first count).flatMap (writePages file first bytes) =
        bytes.take (indexPageSize * count) := by
    intro count le
    induction count with
    | zero => rw [Nat.mul_zero, List.take_zero, List.range'_zero, List.flatMap_nil]
    | succ count ih =>
        have inside : first ≤ first + count ∧
            first + count < first + bytes.length / indexPageSize := by
          rw [length, Nat.mul_div_cancel_left num (by decide : 0 < indexPageSize)]
          omega
        have page : writePages file first bytes (first + count) =
            slice (indexPageSize * count) indexPageSize bytes := by
          rw [writePages, if_pos inside, Nat.add_sub_cancel_left]
        rw [List.range'_1_concat, List.flatMap_append, ih (by omega), List.flatMap_singleton, page,
          slice, ← List.take_add, Nat.mul_succ]
  have whole := part num (Nat.le_refl num)
  rwa [← length, List.take_length] at whole

theorem readPages_update (file : ℕ → List Byte) {first num id : ℕ} (bytes : List Byte)
    (other : id ∉ List.range' first num) :
    readPages (Function.update file id bytes) first num = readPages file first num := by
  apply List.flatMap_congr
  intro page mem
  apply Function.update_of_ne
  rintro rfl
  exact other mem

/-!
## Saving
-/

namespace GarbageOwner

section Singles

variable {owner owner' : GarbageOwner} {id num num2 choice used : ℕ} {first : Option PageID}

theorem mem_insertPage {range : PageID × ℕ}
    (mem : range ∈ (owner.insertPage id num).treeFreePage) :
    range = (id, num) ∨ range ∈ owner.treeFreePage := by
  unfold insertPage at mem
  simp only at mem
  split at mem
  · exact Or.inr mem
  · exact List.mem_cons.mp mem

theorem length_insertPage :
    (owner.insertPage id num).treeFreePage.length ≤ owner.treeFreePage.length + 1 := by
  unfold insertPage
  simp only
  split
  · exact Nat.le_succ _
  · exact Nat.le_refl _

theorem takeRange_tree (mem : (id, num2) ∈ owner.treeFreePage)
    (taken : owner.takeRange num num2 id = some owner') :
    (∀ range ∈ owner'.treeFreePage, range ∈ owner.treeFreePage ∧ range.1 ≠ id ∨
        num < num2 ∧ range.2 = num2 - num) ∧
      owner'.treeFreePage.length ≤ owner.treeFreePage.length := by
  rcases Option.map_eq_some_iff.mp taken with ⟨erased, eraseEq, ownerEq⟩
  have tree : erased.treeFreePage = owner.treeFreePage.filter fun range => range.1 ≠ id := by
    unfold erasePage at eraseEq
    split at eraseEq
    · exact (Option.some.inj eraseEq) ▸ rfl
    · cases eraseEq
  have kept : ∀ range ∈ erased.treeFreePage, range ∈ owner.treeFreePage ∧ range.1 ≠ id := by
    intro range rangeMem
    rw [tree] at rangeMem
    exact ⟨(List.mem_filter.mp rangeMem).1, of_decide_eq_true (List.mem_filter.mp rangeMem).2⟩
  have shorter : erased.treeFreePage.length < owner.treeFreePage.length := by
    rw [tree]
    apply List.length_filter_lt_length_iff_exists.mpr
    exact ⟨(id, num2), mem, by simp⟩
  split at ownerEq
  · next more =>
      subst ownerEq
      constructor
      · intro range rangeMem
        rcases mem_insertPage rangeMem with rfl | rangeMem
        · exact Or.inr ⟨more, rfl⟩
        · exact Or.inl (kept range rangeMem)
      · exact Nat.le_trans length_insertPage shorter
  · subst ownerEq
    exact ⟨fun range rangeMem => Or.inl (kept range rangeMem), Nat.le_of_lt shorter⟩

theorem applyOvfPage_cases (valid : owner.Valid)
    (applied : owner.applyOvfPage used choice true = some (owner', first)) :
    owner' = owner ∧ first = none ∧ (∀ range ∈ owner.treeFreePage, range.2 < used) ∨
      ∃ id num2 taken, first = some id ∧ (id, num2) ∈ owner.treeFreePage ∧ used ≤ num2 ∧
        owner.takeRange used num2 id = some taken ∧
        owner'.treeFreePage = taken.treeFreePage := by
  unfold applyOvfPage at applied
  split at applied
  · next few =>
      cases applied
      refine Or.inl ⟨rfl, rfl, fun range mem => ?_⟩
      have le := List.le_sum_of_mem (List.mem_map_of_mem (f := Prod.snd) mem)
      rw [← valid.total] at le
      exact Nat.lt_of_le_of_lt le few
  · rw [if_neg (by decide)] at applied
    cases found : owner.lowerBound used with
    | none =>
        rw [found] at applied
        cases applied
        exact Or.inl ⟨rfl, rfl, valid.tidy.lowerBound_none found⟩
    | some entry =>
        rcases valid.tidy.firstOf_lowerBound found choice with ⟨fits, id, firstEq, mem⟩
        rcases valid.tidy.takeRange mem fits with ⟨taken, takeEq, -⟩
        rw [found] at applied
        simp only [firstEq, takeEq, Option.bind_eq_bind, Option.bind_some] at applied
        cases applied
        exact Or.inr ⟨id, entry.1, taken, rfl, mem, fits, takeEq, rfl⟩

theorem listPageNum_fits (fits : owner.treeFreePage.length * 6 ≤ indexPageSize * (2 ^ 16 - 1)) :
    owner.treeFreePage.length * 6 ≤ indexPageSize * owner.listPageNum := by
  unfold listPageNum
  unfold indexPageSize at fits ⊢
  have small : (owner.treeFreePage.length * 6 + 16384 - 1) / 16384 < 2 ^ 16 := by omega
  rw [Nat.mod_eq_of_lt small]
  omega

theorem listPageNum_pos (fits : owner.treeFreePage.length * 6 ≤ indexPageSize * (2 ^ 16 - 1))
    (some : owner.treeFreePage ≠ []) : 0 < owner.listPageNum := by
  have pos := List.length_pos_iff.mpr some
  have room := listPageNum_fits fits
  unfold indexPageSize at room
  omega

theorem SinglesLeft.after (singles : owner.SinglesLeft) (valid : owner.Valid)
    (some : owner.treeFreePage ≠ [])
    (applied : owner.applyOvfPage owner.listPageNum choice true = .some (owner', first)) :
    (∀ range ∈ owner'.treeFreePage, range.2 = 1) ∧
      owner'.treeFreePage.length ≤ owner.treeFreePage.length := by
  have pos := listPageNum_pos singles.fits some
  rcases applyOvfPage_cases valid applied with
    ⟨rfl, -, short⟩ | ⟨id, num2, taken, -, mem, fits, takeEq, tree⟩
  · refine ⟨fun range mem => ?_, Nat.le_refl _⟩
    refine (singles.single range mem).resolve_right fun long => ?_
    exact absurd long.1 (Nat.not_le_of_gt (short range mem))
  · rcases takeRange_tree mem takeEq with ⟨kept, shorter⟩
    rw [tree]
    refine ⟨fun range rangeMem => ?_, shorter⟩
    rcases kept range rangeMem with ⟨old, other⟩ | ⟨more, lengthEq⟩
    · refine (singles.single range old).resolve_right fun long => other ?_
      exact congrArg Prod.fst (long.2.2 (id, num2) mem fits).symm
    · rcases singles.single (id, num2) mem with isSingle | ⟨-, atMost, -⟩
      · have isSingle : num2 = 1 := isSingle
        omega
      · have atMost : num2 ≤ owner.listPageNum + 1 := atMost
        omega

theorem sum_singles {ranges : List (ℕ × ℕ)} (singles : ∀ range ∈ ranges, range.2 = 1) :
    (ranges.map Prod.snd).sum = ranges.length := by
  rw [List.map_congr_left singles, List.map_const', List.sum_replicate_nat, Nat.mul_one]

end Singles

end GarbageOwner

namespace GarbageFile

/-- A new owner is the same as one of before. -/
structure SameFree (owner owner' : GarbageOwner) : Prop where
  ranges : owner'.treeFreePage.Perm owner.treeFreePage
  mirrors : GarbageOwner.Mirrors owner'.treeFreePage owner'.rangePage
  total : owner'.totalGarbagePages = owner.totalGarbagePages

theorem SameFree.valid {owner owner' : GarbageOwner} (same : SameFree owner owner')
    (valid : owner.Valid) : owner'.Valid := by
  have pages : owner'.freePages.Perm owner.freePages := GarbageOwner.pagesOf_perm same.ranges
  refine ⟨⟨same.mirrors, ?_, ?_, ?_, ?_⟩, ?_⟩
  · exact fun range mem => valid.tidy.nonempty range (same.ranges.mem_iff.mp mem)
  · exact fun range mem => valid.tidy.short range (same.ranges.mem_iff.mp mem)
  · exact pages.nodup_iff.mpr valid.tidy.nodup
  · exact fun id mem => valid.tidy.bounded id (pages.mem_iff.mp mem)
  · exact (same.total.trans valid.total).trans (same.ranges.map Prod.snd).sum_eq.symm

section Restore

variable {checksum : List Byte → ℕ} {state state' : GarbageFile} {event : GarbageFileEvent}

/-- The pages of the file are those that the tree has, those of the list and the free ones. -/
def Accounted (state : GarbageFile) : Prop :=
  (state.owned ++ (state.listPages ++ state.owner.freePages)).Perm (List.range state.totalPageCount)

/-- A new owner would get the ranges of the last `SavePage` and know where the list is. -/
def Restores (checksum : List Byte → ℕ) (state : GarbageFile) : Prop :=
  ∀ owner ∈ state.saved, ∃ owner',
    restore checksum state.head state.file =
      some (owner', state.firstPageId, state.usedPageNum) ∧
    SameFree owner owner'

/-- What holds between the steps of a run. -/
structure Kept (checksum : List Byte → ℕ) (state : GarbageFile) : Prop where
  valid : state.owner.Valid
  accounted : state.Accounted
  small : state.totalPageCount ≤ 2 ^ 32 - 1
  restores : state.Restores checksum

theorem restore_place {head : GarbageHead} {file : ℕ → List Byte} {owner : GarbageOwner}
    {first used : ℕ} (restored : restore checksum head file = some (owner, first, used)) :
    first = head.pageId ∧ used = head.usedPage := by
  unfold restore at restored
  split at restored
  · cases restored
    exact ⟨rfl, rfl⟩
  · simp only at restored
    split at restored
    · rcases Option.map_eq_some_iff.mp restored with ⟨_, -, placeEq⟩
      cases placeEq
      exact ⟨rfl, rfl⟩
    · cases restored

theorem Kept.notOwned (kept : state.Kept checksum) {id : ℕ} (owned : id ∈ state.owned) :
    id ∉ state.listPages ∧ id ∉ state.owner.freePages := by
  have nodup := kept.accounted.nodup_iff.mpr List.nodup_range
  have apart := (List.nodup_append.mp nodup).2.2 id owned
  constructor
  · exact fun mem => apart id (List.mem_append_left _ mem) rfl
  · exact fun mem => apart id (List.mem_append_right _ mem) rfl

theorem Kept.bounded (kept : state.Kept checksum) {id : ℕ} (owned : id ∈ state.owned) :
    id < state.totalPageCount :=
  List.mem_range.mp (kept.accounted.mem_iff.mp (List.mem_append_left _ owned))

theorem Kept.owned_nodup (kept : state.Kept checksum) : state.owned.Nodup :=
  (List.nodup_append.mp (kept.accounted.nodup_iff.mpr List.nodup_range)).1

theorem restore_written {owner : GarbageOwner} (valid : owner.Valid)
    (singles : ∀ range ∈ owner.treeFreePage, range.2 = 1) {used : ℕ} (pos : 0 < used)
    (room : owner.treeFreePage.length * 6 ≤ indexPageSize * used) (first : ℕ)
    (file : ℕ → List Byte) (fresh : ℕ → Byte) :
    ∃ owner',
      restore checksum
        ⟨owner.totalGarbagePages, first, used,
          checksum (owner.listBuffer (indexPageSize * used) fresh)⟩
        (writePages file first (owner.listBuffer (indexPageSize * used) fresh)) =
          some (owner', first, used) ∧
      SameFree owner owner' := by
  have perm : owner.inOrder.Perm owner.treeFreePage := List.perm_insertionSort _ _
  have listLength : (GarbageOwner.listBytes owner.inOrder).length ≤ indexPageSize * used := by
    rw [GarbageOwner.length_listBytes, perm.length_eq]
    omega
  have bufferLength :
      (owner.listBuffer (indexPageSize * used) fresh).length = indexPageSize * used := by
    simp only [GarbageOwner.listBuffer, List.length_append, List.length_map, List.length_range']
    omega
  have items : owner.totalGarbagePages = owner.inOrder.length := by
    rw [valid.total, GarbageOwner.sum_singles singles, perm.length_eq]
  have inTree : ∀ range ∈ owner.inOrder, range ∈ owner.treeFreePage :=
    fun range mem => perm.mem_iff.mp mem
  have idLt : ∀ range ∈ owner.inOrder, range.1 < 2 ^ 32 := by
    intro range mem
    have inFree := GarbageOwner.first_mem_pagesOf (inTree range mem)
      (valid.tidy.nonempty range (inTree range mem))
    exact Nat.lt_of_lt_of_le (valid.tidy.bounded _ inFree) (Nat.sub_le _ _)
  have numLt : ∀ range ∈ owner.inOrder, range.2 < 2 ^ 16 :=
    fun range mem => valid.tidy.short range (inTree range mem)
  have keys : ((owner.inOrder ++ ({} : GarbageOwner).treeFreePage).map Prod.fst).Nodup := by
    show ((owner.inOrder ++ []).map Prod.fst).Nodup
    rw [List.append_nil]
    exact (perm.map Prod.fst).nodup_iff.mpr valid.tidy.keys
  have start : ([] : List Byte).length = 0 * 6 := rfl
  rcases GarbageOwner.readItems_listBytes owner.inOrder (List.nil_append _).symm start idLt numLt
    keys GarbageOwner.mirrors_nil with ⟨owner', read, ranges, mirrors, total⟩
  have ranges : owner'.treeFreePage.Perm owner.inOrder := by
    have empty : owner.inOrder ++ ({} : GarbageOwner).treeFreePage = owner.inOrder :=
      List.append_nil _
    rwa [empty] at ranges
  refine ⟨owner', ?_, ranges.trans perm, mirrors, ?_⟩
  · rw [restore, if_neg (Nat.ne_of_gt pos)]
    simp only
    rw [readPages_writePages file first used bufferLength, if_pos rfl, items,
      GarbageOwner.listBuffer, read, Option.map_some]
  · have sum : (owner.inOrder.map Prod.snd).sum = owner.totalGarbagePages := by
      rw [valid.total]
      exact (perm.map Prod.snd).sum_eq
    rw [sum] at total
    have fits : ({} : GarbageOwner).totalGarbagePages + owner.totalGarbagePages < 2 ^ 32 := by
      have le := GarbageOwner.Valid.length_le valid.tidy.nodup valid.tidy.bounded
      rw [← valid.total_eq] at le
      have zero : ({} : GarbageOwner).totalGarbagePages = 0 := rfl
      rw [zero]
      omega
    rw [total fits]
    exact Nat.zero_add _

theorem grow_eq {totalPageCount num : ℕ} (bounded : totalPageCount + num ≤ 2 ^ 32 - 1) :
    grow totalPageCount num = totalPageCount + num :=
  Nat.mod_eq_of_lt (by omega)

theorem range_grow (totalPageCount num : ℕ) :
    List.range totalPageCount ++ List.range' totalPageCount num =
      List.range (totalPageCount + num) := by
  have join := GarbageOwner.range'_join 0 totalPageCount num
  rwa [Nat.zero_add, ← List.range_eq_range', ← List.range_eq_range'] at join

theorem Kept.savePage (kept : state.Kept checksum) (choice : ℕ) (fresh : ℕ → Byte)
    (bounded : state.totalPageCount + state.owner.listPageNum ≤ 2 ^ 32 - 1)
    (unused : state.usedPageNum = 0)
    (regular : state.owner.totalGarbagePages = 0 ∨ state.owner.SinglesLeft) :
    ∃ state', state.savePage checksum choice fresh = some state' ∧ state'.Kept checksum := by
  have valid := kept.valid
  have noList : state.listPages = [] := by
    rw [listPages, unused]
    rfl
  have accounted := kept.accounted
  rw [Accounted, noList, List.nil_append] at accounted
  unfold GarbageFile.savePage
  rw [unused, if_neg (Nat.lt_irrefl 0)]
  simp only [Option.bind_eq_bind, Option.bind_some]
  by_cases nothing : state.owner.totalGarbagePages = 0
  · rw [if_pos nothing]
    refine ⟨_, rfl, valid, accounted, kept.small, ?_⟩
    rintro owner ⟨⟩
    have noPages : state.owner.freePages = [] :=
      List.length_eq_zero_iff.mp (valid.total_eq.symm.trans nothing)
    have noRanges : state.owner.treeFreePage = [] := by
      refine List.eq_nil_iff_forall_not_mem.mpr fun range mem => ?_
      have inFree := GarbageOwner.first_mem_pagesOf mem (valid.tidy.nonempty range mem)
      rw [GarbageOwner.freePages] at noPages
      rw [noPages] at inFree
      cases inFree
    refine ⟨{}, rfl, ?_, GarbageOwner.mirrors_nil, nothing.symm⟩
    rw [noRanges]
  · rw [if_neg nothing]
    have singles := regular.resolve_left nothing
    have some : state.owner.treeFreePage ≠ [] := by
      intro empty
      refine nothing (valid.total.trans ?_)
      rw [empty]
      rfl
    have pos := GarbageOwner.listPageNum_pos singles.fits some
    rcases valid.applyOvfPage state.owner.listPageNum choice true with
      ⟨owner', first, applied, valid', perm⟩
    rcases singles.after valid some applied with ⟨singles', shorter⟩
    have room : owner'.treeFreePage.length * 6 ≤ indexPageSize * state.owner.listPageNum :=
      Nat.le_trans (Nat.mul_le_mul_right 6 shorter) (GarbageOwner.listPageNum_fits singles.fits)
    simp only [applied, Option.bind_some]
    rw [if_pos room]
    refine ⟨_, rfl, valid', ?_, ?_, ?_⟩
    · cases first with
      | none =>
          show (state.owned ++ (List.range' state.totalPageCount state.owner.listPageNum ++
            owner'.freePages)).Perm (List.range (grow state.totalPageCount state.owner.listPageNum))
          rw [grow_eq bounded, ← range_grow]
          refine List.Perm.trans ?_ (accounted.append_right _)
          rw [List.append_assoc]
          exact (List.perm_append_comm.trans (perm.append_right _)).append_left _
      | some id => exact (perm.append_left _).trans accounted
    · cases first with
      | none =>
          show grow state.totalPageCount state.owner.listPageNum ≤ 2 ^ 32 - 1
          rw [grow_eq bounded]
          exact bounded
      | some id => exact kept.small
    · rintro owner ⟨⟩
      exact restore_written valid' singles' pos room _ state.file fresh

theorem owned_recycled {owned pages : List ℕ} (nodup : owned.Nodup) (nodup' : pages.Nodup)
    (mem : ∀ id ∈ pages, id ∈ owned) : (pages ++ owned.filter (· ∉ pages)).Perm owned := by
  have inside : (owned.filter (· ∈ pages)).Perm pages := by
    apply (List.perm_ext_iff_of_nodup (nodup.filter _) nodup').mpr
    intro id
    rw [List.mem_filter, decide_eq_true_iff]
    exact ⟨fun both => both.2, fun page => ⟨mem id page, page⟩⟩
  refine (inside.symm.append_right _).trans ?_
  have whole := List.filter_append_perm (fun id => decide (id ∈ pages)) owned
  simpa only [decide_not] using whole

theorem Kept.handOut (kept : state.Kept checksum) {owner' : GarbageOwner} {pages : List ℕ}
    (valid' : owner'.Valid) (perm : (pages ++ owner'.freePages).Perm state.owner.freePages) :
    Kept checksum { state with owner := owner', owned := pages ++ state.owned } := by
  refine ⟨valid', ?_, kept.small, kept.restores⟩
  refine List.Perm.trans ?_ kept.accounted
  show (pages ++ state.owned ++ (state.listPages ++ owner'.freePages)).Perm _
  calc (pages ++ state.owned ++ (state.listPages ++ owner'.freePages)).Perm
        (state.owned ++ pages ++ (state.listPages ++ owner'.freePages)) :=
          List.perm_append_comm.append_right _
    List.Perm _ (state.owned ++ (state.listPages ++ (pages ++ owner'.freePages))) := by
          rw [List.append_assoc]
          refine List.Perm.append_left _ ?_
          rw [← List.append_assoc, ← List.append_assoc]
          exact List.perm_append_comm.append_right _
    List.Perm _ (state.owned ++ (state.listPages ++ state.owner.freePages)) :=
          (perm.append_left _).append_left _

theorem restore_update {head : GarbageHead} {id : ℕ} (file : ℕ → List Byte) (bytes : List Byte)
    (other : id ∉ List.range' head.pageId head.usedPage) :
    restore checksum head (Function.update file id bytes) = restore checksum head file := by
  unfold restore
  rw [readPages_update file bytes other]

theorem Kept.step (kept : state.Kept checksum) (permitted : state.PermittedRegular event) :
    ∃ state', state.step checksum event = some state' ∧ state'.Kept checksum ∧
      ∀ id ∈ state.listPages, id ∈ state'.listPages ∨ id ∈ state'.owner.freePages := by
  rcases permitted with ⟨permitted, regular⟩
  cases event with
  | recyclePage pid num =>
      rcases permitted with ⟨short, owned⟩
      have bounded : pid + num ≤ 2 ^ 32 - 1 := by
        have nonempty := regular.nonempty
        have last : pid + (num - 1) < state.totalPageCount :=
          kept.bounded (owned _ (List.mem_range'_1.mpr (by omega)))
        have small := kept.small
        omega
      have notFree : ∀ id ∈ List.range' pid num, id ∉ state.owner.freePages :=
        fun id mem => (kept.notOwned (owned id mem)).2
      rcases kept.valid.recyclePage regular short bounded notFree with
        ⟨owner', recycled, valid', perm⟩
      refine ⟨_, congrArg (Option.map _) recycled, ⟨valid', ?_, kept.small, kept.restores⟩,
        fun id mem => Or.inl mem⟩
      have split := owned_recycled kept.owned_nodup List.nodup_range' owned
      refine List.Perm.trans ?_ kept.accounted
      refine List.Perm.trans ?_ (split.append_right _)
      refine ((perm.append_left _).append_left _).trans ?_
      show (state.owned.filter (· ∉ List.range' pid num) ++
        (state.listPages ++ (List.range' pid num ++ state.owner.freePages))).Perm _
      rw [List.append_assoc]
      refine List.Perm.trans (List.Perm.append_left _ ?_) (List.perm_append_comm_assoc _ _ _)
      exact List.perm_append_comm_assoc _ _ _
  | applyOvfPage num choice locked =>
      rcases kept.valid.applyOvfPage num choice locked with ⟨owner', first, applied, valid', perm⟩
      exact ⟨_, congrArg (Option.map _) applied, kept.handOut valid' perm,
        fun id mem => Or.inl mem⟩
  | applyIndexPages num choice locked =>
      rcases kept.valid.applyIndexPages regular choice with ⟨owner', pages, applied, valid', perm⟩
      exact ⟨_, congrArg (Option.map _) applied, kept.handOut valid' perm,
        fun id mem => Or.inl mem⟩
  | getAndIncTotalPageCount num =>
      have bounded : state.totalPageCount + num ≤ 2 ^ 32 - 1 := permitted
      refine ⟨_, rfl, ⟨kept.valid, ?_, ?_, kept.restores⟩, fun id mem => Or.inl mem⟩
      · show (List.range' state.totalPageCount num ++ state.owned ++
          (state.listPages ++ state.owner.freePages)).Perm
            (List.range (grow state.totalPageCount num))
        rw [grow_eq bounded, ← range_grow, List.append_assoc]
        exact List.perm_append_comm.trans (kept.accounted.append_right _)
      · show grow state.totalPageCount num ≤ 2 ^ 32 - 1
        rw [grow_eq bounded]
        exact bounded
  | writePage id bytes =>
      refine ⟨_, rfl, { kept with restores := ?_ }, fun id mem => Or.inl mem⟩
      intro owner saved
      rcases kept.restores owner saved with ⟨owner', restored, same⟩
      refine ⟨owner', ?_, same⟩
      rcases restore_place restored with ⟨firstEq, usedEq⟩
      have other := (kept.notOwned permitted).1
      rw [listPages, firstEq, usedEq] at other
      exact (restore_update state.file bytes other).trans restored
  | savePage choice fresh =>
      rcases regular with ⟨unused, regular⟩
      rcases kept.savePage choice fresh permitted unused regular with ⟨state', saved, kept'⟩
      refine ⟨state', saved, kept', fun id mem => ?_⟩
      rw [listPages, unused] at mem
      cases mem
  | restart =>
      rcases kept.restores _ (Option.mem_def.mpr permitted) with ⟨owner', restored, same⟩
      refine ⟨_, congrArg (Option.map _) restored, ⟨same.valid kept.valid, ?_, kept.small, ?_⟩,
        fun id mem => Or.inl mem⟩
      · have pages : owner'.freePages.Perm state.owner.freePages :=
          GarbageOwner.pagesOf_perm same.ranges
        exact ((pages.append_left _).append_left _).trans kept.accounted
      · rintro owner ⟨⟩
        exact ⟨owner', restored, List.Perm.refl _, same.mirrors, rfl⟩

theorem Kept.preserved (kept : state.Kept checksum) (permitted : state.PermittedRegular event)
    (stepped : state.step checksum event = some state') : state'.Kept checksum := by
  rcases kept.step permitted with ⟨state'', stepped', kept', -⟩
  rw [stepped] at stepped'
  cases stepped'
  exact kept'

/-- What is expected of a state and of each step that can follow: no page is lost, a new owner gets
what was saved, `SavePage` erases only what is there, and the pages of a list that moves are free
again. -/
structure Survives (checksum : List Byte → ℕ) (state : GarbageFile)
    (possible : GarbageFile → GarbageFileEvent → Prop) : Prop where
  accounted : state.Accounted
  restores : state.Restores checksum
  erases : ∀ choice fresh, possible state (.savePage choice fresh) →
    state.usedPageNum = 0 ∨ (state.firstPageId, state.usedPageNum) ∈ state.owner.treeFreePage
  moves : ∀ event, possible state event → ∃ state', state.step checksum event = some state' ∧
    ∀ id ∈ state.listPages, id ∈ state'.listPages ∨ id ∈ state'.owner.freePages

/-- Free pages survive in every regular run of a new file. -/
theorem survives_of_regular
    (run : Reaches (step checksum) PermittedRegular {} state) :
    state.Survives checksum PermittedRegular := by
  have kept : state.Kept checksum := by
    apply run.preserves
    · exact ⟨GarbageOwner.Valid.empty, List.Perm.refl _, Nat.zero_le _, nofun⟩
    · intro state event state' permitted kept stepped
      exact kept.preserved permitted stepped
  refine ⟨kept.accounted, kept.restores, ?_, ?_⟩
  · intro choice fresh permitted
    exact Or.inl permitted.2.1
  · intro event permitted
    rcases kept.step permitted with ⟨state', stepped, -, moved⟩
    exact ⟨state', stepped, moved⟩

/-- Three pages of which the first and the last one are free. -/
def gapFile : GarbageFile :=
  { owner := ⟨2, [(2, 1), (0, 1)], [(1, [2, 0])]⟩, totalPageCount := 3, owned := [1] }

/-- The file with the gap when its free pages have been saved. -/
def savedGapFile : GarbageFile :=
  (gapFile.savePage (fun _ => 0) 0 fun _ => 0).getD {}

theorem savePage_gapFile :
    gapFile.savePage (fun _ => 0) 0 (fun _ => 0) = some savedGapFile := by
  have ends : (gapFile.savePage (fun _ => 0) 0 fun _ => 0).isSome = true := by decide +kernel
  rcases Option.isSome_iff_exists.mp ends with ⟨state, saved⟩
  rw [savedGapFile, saved, Option.getD_some]

theorem reaches_gapFile {permitted : GarbageFile → GarbageFileEvent → Prop}
    (grows : permitted {} (.getAndIncTotalPageCount 3))
    (first : permitted { totalPageCount := 3, owned := [0, 1, 2] } (.recyclePage 0 1))
    (last : permitted ⟨⟨1, [(0, 1)], [(1, [0])]⟩, 0, 0, {}, 3, fun _ => [], [1, 2], none⟩
      (.recyclePage 2 1)) :
    Reaches (step fun _ => 0) permitted {} gapFile := by
  have second : Reaches (step fun _ => 0) permitted {}
      { totalPageCount := 3, owned := [0, 1, 2] } :=
    (Reaches.refl _).tail (.getAndIncTotalPageCount 3) grows rfl
  exact (second.tail (.recyclePage 0 1) first rfl).tail (.recyclePage 2 1) last rfl

theorem survives_savedGapFile : savedGapFile.Survives (fun _ => 0) PermittedRegular := by
  have run : Reaches (step fun _ => 0) PermittedRegular {} gapFile := by
    apply reaches_gapFile
    · exact ⟨(by decide : 0 + 3 ≤ 2 ^ 32 - 1), trivial⟩
    · exact ⟨⟨by decide, by decide⟩, by decide, nofun, nofun⟩
    · exact ⟨⟨by decide, by decide⟩, by decide, nofun, nofun⟩
  have singles : gapFile.owner.SinglesLeft := by
    refine ⟨fun range mem => Or.inl ?_, by decide⟩
    rcases List.mem_cons.mp mem with rfl | mem
    · rfl
    · rw [List.mem_singleton.mp mem]
  exact survives_of_regular
    (run.tail (.savePage 0 fun _ => 0) ⟨(by decide : 3 + 1 ≤ 2 ^ 32 - 1), rfl, Or.inr singles⟩
      savePage_gapFile)

/-- When the list has been saved once, the next `SavePage` erases its pages, which are not free. -/
theorem not_survives_gapFile :
    ¬∀ checksum state, Reaches (step checksum) Permitted {} state →
      state.Survives checksum Permitted := by
  intro survives
  have run : Reaches (step fun _ => 0) Permitted {} gapFile := by
    apply reaches_gapFile
    · exact (by decide : 0 + 3 ≤ 2 ^ 32 - 1)
    · exact ⟨by decide, by decide⟩
    · exact ⟨by decide, by decide⟩
  have saved : Reaches (step fun _ => 0) Permitted {} savedGapFile :=
    run.tail (.savePage 0 fun _ => 0) (by decide : 3 + 1 ≤ 2 ^ 32 - 1) savePage_gapFile
  have bounded : savedGapFile.totalPageCount + savedGapFile.owner.listPageNum ≤ 2 ^ 32 - 1 := by
    decide +kernel
  have erased := (survives _ _ saved).erases 0 (fun _ => 0) bounded
  exact absurd erased (by decide +kernel)

end Restore

end GarbageFile

end RapidDb
