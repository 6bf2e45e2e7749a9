import Mathlib.Data.List.MinMax
import Mathlib.Data.List.Nodup
import Mathlib.Data.List.Perm.Subperm
import RapidDb.Core.CoreEnum
import RapidDb.Library.Transition

/-!
# Free pages

Pages that have been given back are kept as ranges in two maps, from the first page to the number
of pages and from the number of pages to the first pages. A map is a list of its entries here, in
any order; what depends on the order of keys is found by comparing them. Which element of a hash set
comes first is left open: a call is given a number that picks one.

Numbers of pages go through signed and unsigned 16-bit fields.
-/

namespace RapidDb

/-- The value of a `uint16_t` read as an `int16_t`. -/
def asInt16 (num : ℕ) : ℤ := if num < 2 ^ 15 then num else num - 2 ^ 16

structure GarbageOwner where
  totalGarbagePages : ℕ := 0
  treeFreePage : List (PageID × ℕ) := []
  rangePage : List (ℕ × List PageID) := []
deriving DecidableEq, Repr

namespace GarbageOwner

def pagesOf (ranges : List (PageID × ℕ)) : List PageID :=
  ranges.flatMap fun (id, num) => List.range' id num

def freePages (owner : GarbageOwner) : List PageID := pagesOf owner.treeFreePage

/-- A first page is put into the set of its number of pages. -/
def insertRange (num : ℕ) (pageId : PageID) (rangePage : List (ℕ × List PageID)) :
    List (ℕ × List PageID) :=
  if num ∈ rangePage.map Prod.fst then
    rangePage.map fun (other, ids) =>
      if other = num then (other, ids.insert pageId) else (other, ids)
  else
    (num, [pageId]) :: rangePage

/-- A first page is taken out of the set of its number of pages, which goes when it is empty. -/
def eraseRange (num : ℕ) (pageId : PageID) (rangePage : List (ℕ × List PageID)) :
    List (ℕ × List PageID) :=
  rangePage.filterMap fun (other, ids) =>
    if other = num then
      if ids.erase pageId = [] then none else some (other, ids.erase pageId)
    else
      some (other, ids)

def insertPage (owner : GarbageOwner) (pageId : PageID) (num : ℕ) : GarbageOwner :=
  { owner with
    treeFreePage :=
      if pageId ∈ owner.treeFreePage.map Prod.fst then owner.treeFreePage
      else (pageId, num) :: owner.treeFreePage
    rangePage := insertRange num pageId owner.rangePage }

/-- `ErasePage`; none if there is no set for the number of pages. -/
def erasePage (owner : GarbageOwner) (pageId : PageID) (num : ℕ) : Option GarbageOwner :=
  if num ∈ owner.rangePage.map Prod.fst then
    some
      { owner with
        treeFreePage := owner.treeFreePage.filter fun range => range.1 ≠ pageId
        rangePage := eraseRange num pageId owner.rangePage }
  else
    none

/-- The range behind a page that begins where the pages end. -/
def rightRange (owner : GarbageOwner) (pid num : ℕ) : Option (PageID × ℕ) :=
  ((owner.treeFreePage.filter fun range => pid < range.1).argmin Prod.fst).filter
    fun range => (pid + num) % 2 ^ 32 = range.1

/-- The range before a page that ends there. -/
def leftRange (owner : GarbageOwner) (pid : ℕ) : Option (PageID × ℕ) :=
  ((owner.treeFreePage.filter fun range => range.1 ≤ pid).argmax Prod.fst).filter
    fun range => (range.1 + range.2) % 2 ^ 32 = pid

/-- Whether `RecyclePage` merges a range, whose number of pages it has read as an `int16_t`. -/
def merges (num other : ℕ) : Bool := num + asInt16 other < 2 ^ 16 - 1

/-- Merging a range in front: the range that is inserted so far. -/
def mergeLeft (owner : GarbageOwner) (pid num : ℕ) :
    Option (PageID × ℕ) → Option (GarbageOwner × PageID × ℕ)
  | some (id, other) =>
      if merges num other then
        (owner.erasePage id other).map fun owner => (owner, id, (num + other) % 2 ^ 16)
      else
        some (owner, pid, num)
  | none => some (owner, pid, num)

def mergeRight (owner : GarbageOwner) (num : ℕ) :
    Option (PageID × ℕ) → Option (GarbageOwner × ℕ)
  | some (id, other) =>
      if merges num other then
        (owner.erasePage id other).map fun owner => (owner, (num + other) % 2 ^ 16)
      else
        some (owner, num)
  | none => some (owner, num)

/-- `RecyclePage`. -/
def recyclePage (owner : GarbageOwner) (pid num : ℕ) : Option GarbageOwner :=
  let owner := { owner with totalGarbagePages := (owner.totalGarbagePages + num) % 2 ^ 32 }
  if owner.treeFreePage = [] then
    some (owner.insertPage pid num)
  else do
    let r := owner.rightRange pid num
    let (owner, pid, num) ← owner.mergeLeft pid num (owner.leftRange pid)
    let (owner, num) ← owner.mergeRight num r
    some (owner.insertPage pid num)

/-- The smallest set of ranges with at least so many pages. -/
def lowerBound (owner : GarbageOwner) (num : ℕ) : Option (ℕ × List PageID) :=
  (owner.rangePage.filter fun entry => num ≤ entry.1).argmin Prod.fst

/-- The element of a set that comes first. -/
def firstOf (choice : ℕ) (ids : List PageID) : Option PageID := ids[choice % ids.length]?

/-- A range is taken out, and what is not needed of it is put back. -/
def takeRange (owner : GarbageOwner) (num num2 : ℕ) (id : PageID) : Option GarbageOwner :=
  (owner.erasePage id num2).map fun owner =>
    if num2 > num then owner.insertPage (id + num) (num2 - num) else owner

/-- `ApplyOvfPage`: the first page id, none for the null pointer. `locked` is whether the lock was
not needed or has been got. -/
def applyOvfPage (owner : GarbageOwner) (num choice : ℕ) (locked : Bool) :
    Option (GarbageOwner × Option PageID) :=
  if owner.totalGarbagePages < num then
    some (owner, none)
  else if !locked then
    some (owner, none)
  else
    match owner.lowerBound num with
    | none => some (owner, none)
    | some (num2, ids) => do
        let id ← firstOf choice ids
        let owner ← owner.takeRange num num2 id
        some
          ({ owner with
              totalGarbagePages := (owner.totalGarbagePages + 2 ^ 32 - num) % 2 ^ 32 },
            some id)

/-- The loop of `ApplyIndexPages`; the first number bounds its iterations. -/
def applyLoop (num choice : ℕ) : ℕ → ℕ → GarbageOwner → List PageID →
    Option (GarbageOwner × List PageID)
  | 0, _, _, _ => none
  | fuel + 1, i, owner, vct =>
      if i < num then
        match owner.lowerBound num with
        | none => some (owner, vct)
        | some (num2, ids) => do
            let id ← firstOf choice ids
            let taken := min num2 (num - i)
            let owner ← owner.takeRange num num2 id
            applyLoop num choice fuel (i + taken) owner (vct ++ List.range' id taken)
      else
        some (owner, vct)

/-- `ApplyIndexPages`. -/
def applyIndexPages (owner : GarbageOwner) (num choice : ℕ) (locked : Bool) :
    Option (GarbageOwner × List PageID) :=
  if owner.totalGarbagePages = 0 then
    some (owner, [])
  else if !locked then
    some (owner, [])
  else
    (applyLoop num choice (num + 1) 0 owner []).map fun (owner, vct) =>
      ({ owner with totalGarbagePages := (owner.totalGarbagePages + 2 ^ 32 - num) % 2 ^ 32 }, vct)

/-!
## The two maps
-/

/-- The two maps describe the same ranges. -/
structure Mirrors (tree : List (PageID × ℕ)) (rangePage : List (ℕ × List PageID)) : Prop where
  mem : ∀ id num, (id, num) ∈ tree ↔ ∃ ids, (num, ids) ∈ rangePage ∧ id ∈ ids
  nodup : (rangePage.map Prod.fst).Nodup
  sets : ∀ entry ∈ rangePage, entry.2 ≠ [] ∧ entry.2.Nodup

section Mirrors

variable {tree : List (PageID × ℕ)} {rangePage : List (ℕ × List PageID)} {num other : ℕ}
  {pageId id : PageID}

theorem mirrors_nil : Mirrors [] [] :=
  ⟨fun id num => by simp, List.nodup_nil, fun entry mem => by cases mem⟩

theorem eq_of_key {α β : Type} {entries : List (α × β)} (nodup : (entries.map Prod.fst).Nodup)
    {key : α} {value value' : β} (mem : (key, value) ∈ entries) (mem' : (key, value') ∈ entries) :
    value = value' :=
  congrArg Prod.snd (List.inj_on_of_nodup_map nodup mem mem' rfl)

theorem insertRange_keys : (insertRange num pageId rangePage).map Prod.fst =
    if num ∈ rangePage.map Prod.fst then rangePage.map Prod.fst
    else num :: rangePage.map Prod.fst := by
  unfold insertRange
  split
  · rw [List.map_map]
    refine List.map_congr_left fun entry _ => ?_
    simp only [Function.comp_apply]
    split <;> rfl
  · rfl

theorem mem_insertRange : (∃ ids, (other, ids) ∈ insertRange num pageId rangePage ∧ id ∈ ids) ↔
    (other = num ∧ id = pageId) ∨ ∃ ids, (other, ids) ∈ rangePage ∧ id ∈ ids := by
  unfold insertRange
  split
  · next present =>
      rcases List.mem_map.mp present with ⟨⟨num', known⟩, entryMem, rfl⟩
      constructor
      · rintro ⟨ids, mem, idMem⟩
        rcases List.mem_map.mp mem with ⟨⟨other', ids'⟩, mem', entryEq⟩
        simp only at entryEq
        split at entryEq
        · next same =>
            cases entryEq
            rcases List.mem_insert_iff.mp idMem with isPage | idMem
            · exact Or.inl ⟨same, isPage⟩
            · exact Or.inr ⟨ids', mem', idMem⟩
        · cases entryEq
          exact Or.inr ⟨ids, mem', idMem⟩
      · rintro (⟨rfl, rfl⟩ | ⟨ids, mem, idMem⟩)
        · refine ⟨known.insert id, List.mem_map.mpr ⟨_, entryMem, if_pos rfl⟩, ?_⟩
          exact List.mem_insert_self
        · by_cases same : other = num'
          · refine ⟨ids.insert pageId, List.mem_map.mpr ⟨_, mem, if_pos same⟩, ?_⟩
            exact List.mem_insert_of_mem idMem
          · exact ⟨ids, List.mem_map.mpr ⟨_, mem, if_neg same⟩, idMem⟩
  · constructor
    · rintro ⟨ids, mem, idMem⟩
      rcases List.mem_cons.mp mem with entryEq | mem
      · cases entryEq
        exact Or.inl ⟨rfl, List.mem_singleton.mp idMem⟩
      · exact Or.inr ⟨ids, mem, idMem⟩
    · rintro (⟨rfl, rfl⟩ | ⟨ids, mem, idMem⟩)
      · exact ⟨[id], List.mem_cons_self, List.mem_singleton_self id⟩
      · exact ⟨ids, List.mem_cons_of_mem _ mem, idMem⟩

theorem Mirrors.insert (mirrors : Mirrors tree rangePage) :
    Mirrors ((pageId, num) :: tree) (insertRange num pageId rangePage) := by
  refine ⟨fun id other => ?_, ?_, ?_⟩
  · rw [mem_insertRange, List.mem_cons, mirrors.mem, Prod.mk.injEq]
    exact or_congr_left and_comm
  · rw [insertRange_keys]
    split
    · exact mirrors.nodup
    · next absent => exact List.nodup_cons.mpr ⟨absent, mirrors.nodup⟩
  · unfold insertRange
    split
    · intro entry mem
      rcases List.mem_map.mp mem with ⟨⟨other, ids⟩, mem', rfl⟩
      have old := mirrors.sets _ mem'
      simp only
      split
      · exact ⟨List.ne_nil_of_mem List.mem_insert_self, old.2.insert⟩
      · exact old
    · intro entry mem
      rcases List.mem_cons.mp mem with rfl | mem
      · exact ⟨List.cons_ne_nil _ _, List.nodup_singleton _⟩
      · exact mirrors.sets entry mem

theorem mem_eraseRange (mirrors : Mirrors tree rangePage) :
    (∃ ids, (other, ids) ∈ eraseRange num pageId rangePage ∧ id ∈ ids) ↔
      ¬(other = num ∧ id = pageId) ∧ ∃ ids, (other, ids) ∈ rangePage ∧ id ∈ ids := by
  unfold eraseRange
  constructor
  · rintro ⟨ids, mem, idMem⟩
    rcases List.mem_filterMap.mp mem with ⟨⟨other', ids'⟩, mem', entryEq⟩
    simp only at entryEq
    split at entryEq
    · next same =>
        split at entryEq
        · cases entryEq
        · cases entryEq
          rcases (mirrors.sets _ mem').2.mem_erase_iff.mp idMem with ⟨notPage, idMem⟩
          exact ⟨fun both => notPage both.2, ids', mem', idMem⟩
    · next different =>
        cases entryEq
        exact ⟨fun both => different both.1, ids, mem', idMem⟩
  · rintro ⟨kept, ids, mem, idMem⟩
    by_cases same : other = num
    · have notPage : id ≠ pageId := fun isPage => kept ⟨same, isPage⟩
      have idMem' : id ∈ ids.erase pageId := (List.mem_erase_of_ne notPage).mpr idMem
      refine ⟨ids.erase pageId, List.mem_filterMap.mpr ⟨_, mem, ?_⟩, idMem'⟩
      simp only
      rw [if_pos same, if_neg (List.ne_nil_of_mem idMem')]
    · exact ⟨ids, List.mem_filterMap.mpr ⟨_, mem, if_neg same⟩, idMem⟩

theorem eraseRange_keys :
    ((eraseRange num pageId rangePage).map Prod.fst).Sublist (rangePage.map Prod.fst) := by
  induction rangePage with
  | nil => exact List.Sublist.slnil
  | cons entry rest ih =>
      unfold eraseRange at ih ⊢
      rw [List.filterMap_cons]
      simp only
      split
      · exact ih.trans (List.sublist_cons_self _ _)
      · next kept isKept =>
          have sameKey : kept.1 = entry.1 := by
            split at isKept
            · split at isKept
              · cases isKept
              · exact (congrArg Prod.fst (Option.some.inj isKept)).symm
            · exact (congrArg Prod.fst (Option.some.inj isKept)).symm
          rw [List.map_cons, List.map_cons, sameKey]
          exact ih.cons_cons _

theorem Mirrors.erase (mirrors : Mirrors tree rangePage) (keys : (tree.map Prod.fst).Nodup)
    (present : (pageId, num) ∈ tree) :
    Mirrors (tree.filter fun range => range.1 ≠ pageId) (eraseRange num pageId rangePage) := by
  refine ⟨fun id other => ?_, ?_, ?_⟩
  · rw [mem_eraseRange mirrors, List.mem_filter, mirrors.mem, and_comm, decide_eq_true_iff]
    refine and_congr_left fun mem => ?_
    constructor
    · exact fun notPage both => notPage both.2
    · intro kept isPage
      rw [← mirrors.mem] at mem
      have isPage : id = pageId := isPage
      subst isPage
      exact kept ⟨eq_of_key keys mem present, rfl⟩
  · exact mirrors.nodup.sublist eraseRange_keys
  · intro entry mem
    rcases List.mem_filterMap.mp mem with ⟨⟨other, ids⟩, mem', entryEq⟩
    have old := mirrors.sets _ mem'
    simp only at entryEq
    split at entryEq
    · split at entryEq
      · cases entryEq
      · next kept =>
          cases entryEq
          exact ⟨kept, old.2.erase _⟩
    · cases entryEq
      exact old

end Mirrors

/-!
## Ranges of pages
-/

section Pages

variable {tree tree' : List (ℕ × ℕ)} {id num other : ℕ}

theorem pagesOf_cons (range : PageID × ℕ) (tree : List (PageID × ℕ)) :
    pagesOf (range :: tree) = List.range' range.1 range.2 ++ pagesOf tree :=
  List.flatMap_cons ..

theorem freePages_total (owner : GarbageOwner) (total : ℕ) :
    freePages { owner with totalGarbagePages := total } = owner.freePages :=
  rfl

theorem pagesOf_perm (perm : tree.Perm tree') : (pagesOf tree).Perm (pagesOf tree') :=
  perm.flatMap_right _

theorem length_pagesOf (tree : List (PageID × ℕ)) :
    (pagesOf tree).length = (tree.map Prod.snd).sum := by
  induction tree with
  | nil => rfl
  | cons range tree ih =>
      rw [pagesOf_cons, List.length_append, List.length_range', ih, List.map_cons, List.sum_cons]

theorem first_mem_pagesOf (mem : (id, num) ∈ tree) (nonempty : 0 < num) : id ∈ pagesOf tree := by
  refine List.mem_flatMap.mpr ⟨(id, num), mem, ?_⟩
  exact List.mem_range'_1.mpr ⟨Nat.le_refl id, by omega⟩

theorem keys_nodup (nodup : (pagesOf tree).Nodup) (nonempty : ∀ range ∈ tree, 0 < range.2) :
    (tree.map Prod.fst).Nodup := by
  induction tree with
  | nil => exact List.nodup_nil
  | cons range tree ih =>
      rw [pagesOf_cons, List.nodup_append] at nodup
      rcases List.forall_mem_cons.mp nonempty with ⟨first, others⟩
      refine List.nodup_cons.mpr ⟨fun mem => ?_, ih nodup.2.1 others⟩
      rcases List.mem_map.mp mem with ⟨later, laterMem, sameKey⟩
      have inFirst : range.1 ∈ List.range' range.1 range.2 :=
        List.mem_range'_1.mpr ⟨Nat.le_refl _, by omega⟩
      exact nodup.2.2 range.1 inFirst later.1 (first_mem_pagesOf laterMem (others later laterMem))
        sameKey.symm

def Apart (range range' : ℕ × ℕ) : Prop :=
  range.1 + range.2 ≤ range'.1 ∨ range'.1 + range'.2 ≤ range.1

theorem apart_of_nodup (nodup : (pagesOf tree).Nodup) (nonempty : ∀ range ∈ tree, 0 < range.2) :
    tree.Pairwise Apart := by
  induction tree with
  | nil => exact List.Pairwise.nil
  | cons range tree ih =>
      rw [pagesOf_cons, List.nodup_append] at nodup
      rcases List.forall_mem_cons.mp nonempty with ⟨first, others⟩
      refine List.pairwise_cons.mpr ⟨fun later laterMem => ?_, ih nodup.2.1 others⟩
      have laterNonempty := others later laterMem
      by_contra overlap
      rcases range with ⟨id, num⟩
      rcases later with ⟨laterId, laterNum⟩
      simp only [Apart] at overlap first laterNonempty
      have shared : max id laterId ∈ pagesOf tree :=
        List.mem_flatMap.mpr ⟨_, laterMem, List.mem_range'_1.mpr (by omega)⟩
      have inRange : max id laterId ∈ List.range' id num := List.mem_range'_1.mpr (by omega)
      exact nodup.2.2 _ inRange _ shared rfl

theorem range'_join (id num other : ℕ) :
    List.range' id num ++ List.range' (id + num) other = List.range' id (num + other) := by
  rw [List.range'_append_1]

theorem erase_perm (keys : (tree.map Prod.fst).Nodup) (mem : (id, num) ∈ tree) :
    ((id, num) :: tree.filter fun range => range.1 ≠ id).Perm tree := by
  induction tree with
  | nil => cases mem
  | cons range tree ih =>
      rw [List.map_cons, List.nodup_cons] at keys
      rcases List.mem_cons.mp mem with rfl | mem
      · have others : tree.filter (fun range => range.1 ≠ id) = tree := by
          refine List.filter_eq_self.mpr fun other otherMem => decide_eq_true fun same => ?_
          exact keys.1 (List.mem_map.mpr ⟨other, otherMem, same⟩)
        rw [List.filter_cons_of_neg (by simp), others]
      · have different : range.1 ≠ id := by
          rintro rfl
          exact keys.1 (List.mem_map.mpr ⟨_, mem, rfl⟩)
        rw [List.filter_cons_of_pos (by simpa using different)]
        exact (List.Perm.swap range (id, num) _).trans ((ih keys.2 mem).cons range)

end Pages

/-- The maps fit together and their ranges are not empty, have a 16-bit length and are apart. -/
structure Tidy (owner : GarbageOwner) : Prop where
  mirrors : Mirrors owner.treeFreePage owner.rangePage
  nonempty : ∀ range ∈ owner.treeFreePage, 0 < range.2
  short : ∀ range ∈ owner.treeFreePage, range.2 < 2 ^ 16
  nodup : owner.freePages.Nodup
  bounded : ∀ id ∈ owner.freePages, (id : ℕ) < 2 ^ 32 - 1

namespace Tidy

variable {owner : GarbageOwner} {id num num2 choice : ℕ} {ids : List PageID}

theorem keys (tidy : owner.Tidy) : (owner.treeFreePage.map Prod.fst).Nodup :=
  keys_nodup tidy.nodup tidy.nonempty

theorem range_end (tidy : owner.Tidy) (mem : (id, num) ∈ owner.treeFreePage) :
    id + num ≤ 2 ^ 32 - 1 := by
  have nonempty := tidy.nonempty _ mem
  have last : id + (num - 1) ∈ owner.freePages := by
    refine List.mem_flatMap.mpr ⟨(id, num), mem, List.mem_range'_1.mpr ?_⟩
    simp only at nonempty
    omega
  have less : id + (num - 1) < 2 ^ 32 - 1 := tidy.bounded _ last
  simp only at nonempty
  omega

theorem erasePage (tidy : owner.Tidy) (mem : (id, num) ∈ owner.treeFreePage) :
    ∃ owner', owner.erasePage id num = some owner' ∧ owner'.Tidy ∧
      owner'.totalGarbagePages = owner.totalGarbagePages ∧
      (List.range' id num ++ owner'.freePages).Perm owner.freePages ∧
      ∀ range ∈ owner.treeFreePage, range.1 ≠ id → range ∈ owner'.treeFreePage := by
  rcases (tidy.mirrors.mem id num).mp mem with ⟨ids, entryMem, -⟩
  have present : num ∈ owner.rangePage.map Prod.fst := List.mem_map.mpr ⟨_, entryMem, rfl⟩
  have perm := erase_perm tidy.keys mem
  have pages := pagesOf_perm perm
  rw [pagesOf_cons] at pages
  have nodup := (List.nodup_append.mp (pages.nodup_iff.mpr tidy.nodup)).2.1
  refine ⟨_, if_pos present, ?_, rfl, pages, ?_⟩
  · refine ⟨tidy.mirrors.erase tidy.keys mem, ?_, ?_, nodup, ?_⟩
    · exact fun range rangeMem => tidy.nonempty range (List.mem_filter.mp rangeMem).1
    · exact fun range rangeMem => tidy.short range (List.mem_filter.mp rangeMem).1
    · exact fun page pageMem =>
        tidy.bounded page (pages.mem_iff.mp (List.mem_append_right _ pageMem))
  · exact fun range rangeMem different => List.mem_filter.mpr ⟨rangeMem, decide_eq_true different⟩

theorem insertPage (tidy : owner.Tidy) (nonempty : 0 < num) (short : num < 2 ^ 16)
    (bounded : id + num ≤ 2 ^ 32 - 1)
    (nodup : (List.range' id num ++ owner.freePages).Nodup) :
    (owner.insertPage id num).Tidy ∧
      (owner.insertPage id num).freePages = List.range' id num ++ owner.freePages := by
  have absent : id ∉ owner.treeFreePage.map Prod.fst := by
    intro mem
    rcases List.mem_map.mp mem with ⟨range, rangeMem, rfl⟩
    have inFree := first_mem_pagesOf rangeMem (tidy.nonempty range rangeMem)
    have inNew : range.1 ∈ List.range' range.1 num :=
      List.mem_range'_1.mpr ⟨Nat.le_refl _, by omega⟩
    exact (List.nodup_append.mp nodup).2.2 _ inNew _ inFree rfl
  have tree : (owner.insertPage id num).treeFreePage = (id, num) :: owner.treeFreePage :=
    if_neg absent
  have pages : (owner.insertPage id num).freePages = List.range' id num ++ owner.freePages := by
    rw [freePages, tree, pagesOf_cons]
    rfl
  refine ⟨⟨?_, ?_, ?_, ?_, ?_⟩, pages⟩
  · rw [tree]
    exact tidy.mirrors.insert
  · rw [tree]
    exact List.forall_mem_cons.mpr ⟨nonempty, tidy.nonempty⟩
  · rw [tree]
    exact List.forall_mem_cons.mpr ⟨short, tidy.short⟩
  · rw [pages]
    exact nodup
  · intro page mem
    rw [pages, List.mem_append] at mem
    rcases mem with mem | mem
    · exact Nat.lt_of_lt_of_le (List.mem_range'_1.mp mem).2 bounded
    · exact tidy.bounded page mem

theorem takeRange (tidy : owner.Tidy) (mem : (id, num2) ∈ owner.treeFreePage) (fits : num ≤ num2) :
    ∃ owner', owner.takeRange num num2 id = some owner' ∧ owner'.Tidy ∧
      owner'.totalGarbagePages = owner.totalGarbagePages ∧
      (List.range' id num ++ owner'.freePages).Perm owner.freePages := by
  rcases tidy.erasePage mem with ⟨owner', erased, tidy', total, perm, -⟩
  have ends := tidy.range_end mem
  have short := tidy.short _ mem
  rw [GarbageOwner.takeRange, erased, Option.map_some]
  by_cases more : num2 > num
  · have whole : List.range' id num2 = List.range' id num ++ List.range' (id + num)
      (num2 - num) := by
      rw [range'_join, Nat.add_sub_cancel' fits]
    rw [whole, List.append_assoc] at perm
    have nodup := (List.nodup_append.mp (perm.nodup_iff.mpr tidy.nodup)).2.1
    rcases tidy'.insertPage (by omega) (by simp only at short; omega) (by omega) nodup with
      ⟨tidy'', pages⟩
    refine ⟨_, if_pos more ▸ rfl, tidy'', total, ?_⟩
    rw [pages]
    exact perm
  · obtain rfl : num2 = num := by omega
    exact ⟨owner', by rw [if_neg more], tidy', total, perm⟩

theorem firstOf_lowerBound (tidy : owner.Tidy) (found : owner.lowerBound num = some (num2, ids))
    (choice : ℕ) :
    num ≤ num2 ∧ ∃ id, firstOf choice ids = some id ∧ (id, num2) ∈ owner.treeFreePage := by
  have mem := List.argmin_mem (Option.mem_def.mpr found)
  rcases List.mem_filter.mp mem with ⟨entryMem, enough⟩
  have set := tidy.mirrors.sets _ entryMem
  have inside : choice % ids.length < ids.length :=
    Nat.mod_lt _ (List.length_pos_iff.mpr set.1)
  refine ⟨of_decide_eq_true enough, ids[choice % ids.length], List.getElem?_eq_getElem inside, ?_⟩
  exact (tidy.mirrors.mem _ _).mpr ⟨ids, entryMem, List.getElem_mem inside⟩

theorem lowerBound_none (tidy : owner.Tidy) (none : owner.lowerBound num = none) :
    ∀ range ∈ owner.treeFreePage, range.2 < num := by
  intro range mem
  rcases (tidy.mirrors.mem range.1 range.2).mp mem with ⟨ids, entryMem, -⟩
  have empty := List.argmin_eq_none.mp none
  by_contra enough
  have : (range.2, ids) ∈ owner.rangePage.filter fun entry => num ≤ entry.1 :=
    List.mem_filter.mpr ⟨entryMem, decide_eq_true (by omega)⟩
  rw [empty] at this
  cases this

end Tidy

/-!
## Giving pages back
-/

/-- The sum of two numbers of pages that would be merged fits into 16 bits. The check of the code
sees to it unless it reads the second one as a negative number. -/
def Fits (num other : ℕ) : Prop := other < 2 ^ 15 ∨ num + other < 2 ^ 16

/-- The pages of the range in front that is merged. -/
def leftPages (owner : GarbageOwner) (pid num : ℕ) : ℕ :=
  match owner.leftRange pid with
  | some (_, other) => if merges num other then other else 0
  | none => 0

/-- There is something to give back, and the ranges it is merged with are not too long. -/
structure RecycleFits (owner : GarbageOwner) (pid num : ℕ) : Prop where
  nonempty : 0 < num
  left : ∀ range ∈ owner.leftRange pid, Fits num range.2
  right : ∀ range ∈ owner.rightRange pid num, Fits (num + owner.leftPages pid num) range.2

theorem fits_of_merges {num other : ℕ} (merged : merges num other = true)
    (fits : Fits num other) : num + other < 2 ^ 16 := by
  rcases fits with less | fits
  · have check := of_decide_eq_true merged
    rw [asInt16, if_pos less] at check
    omega
  · exact fits

section Recycle

variable {owner : GarbageOwner} {pid num : ℕ} {range : PageID × ℕ}

theorem leftRange_spec (tidy : owner.Tidy) {id other : ℕ}
    (found : (id, other) ∈ owner.leftRange pid) :
    (id, other) ∈ owner.treeFreePage ∧ id + other = pid := by
  rcases Option.filter_eq_some_iff.mp found with ⟨isMax, ends⟩
  have mem := (List.mem_filter.mp (List.argmax_mem isMax)).1
  have bound := tidy.range_end mem
  refine ⟨mem, ?_⟩
  have ends : (id + other) % 2 ^ 32 = pid := of_decide_eq_true ends
  rwa [Nat.mod_eq_of_lt (by omega)] at ends

theorem rightRange_spec (bounded : pid + num ≤ 2 ^ 32 - 1)
    (found : range ∈ owner.rightRange pid num) :
    range ∈ owner.treeFreePage ∧ pid + num = range.1 := by
  rcases Option.filter_eq_some_iff.mp found with ⟨isMin, begins⟩
  have mem := (List.mem_filter.mp (List.argmin_mem isMin)).1
  refine ⟨mem, ?_⟩
  have begins := of_decide_eq_true begins
  rwa [Nat.mod_eq_of_lt (by omega)] at begins

theorem Tidy.mergeLeft (tidy : owner.Tidy) (fits : owner.RecycleFits pid num)
    (short : num < 2 ^ 16) :
    ∃ owner', ∃ pid' num' : ℕ,
      owner.mergeLeft pid num (owner.leftRange pid) = some (owner', pid', num') ∧
      owner'.Tidy ∧ owner'.totalGarbagePages = owner.totalGarbagePages ∧
      num' = num + owner.leftPages pid num ∧ num' < 2 ^ 16 ∧ pid' + num' = pid + num ∧
      (List.range' pid' num' ++ owner'.freePages).Perm
        (List.range' pid num ++ owner.freePages) ∧
      ∀ range ∈ owner.treeFreePage, pid ≤ range.1 → range ∈ owner'.treeFreePage := by
  have stays : ∃ owner', ∃ pid' num' : ℕ, some (owner, pid, num) = some (owner', pid', num') ∧
      owner'.Tidy ∧ owner'.totalGarbagePages = owner.totalGarbagePages ∧ num' = num + 0 ∧
      num' < 2 ^ 16 ∧ pid' + num' = pid + num ∧
      (List.range' pid' num' ++ owner'.freePages).Perm
        (List.range' pid num ++ owner.freePages) ∧
      ∀ range ∈ owner.treeFreePage, pid ≤ range.1 → range ∈ owner'.treeFreePage :=
    ⟨owner, pid, num, rfl, tidy, rfl, rfl, short, rfl, List.Perm.refl _, fun _ mem _ => mem⟩
  unfold leftPages
  cases found : owner.leftRange pid with
  | none => exact stays
  | some range =>
      rcases range with ⟨id, other⟩
      rcases leftRange_spec tidy (Option.mem_def.mpr found) with ⟨mem, ends⟩
      have nonempty := tidy.nonempty _ mem
      simp only at nonempty
      cases merged : merges num other with
      | false =>
          simp only [GarbageOwner.mergeLeft, merged, Bool.false_eq_true, if_false]
          exact stays
      | true =>
          have sum := fits_of_merges merged (fits.left _ (Option.mem_def.mpr found))
          rcases tidy.erasePage mem with ⟨owner', erased, tidy', total, perm, others⟩
          simp only [GarbageOwner.mergeLeft, merged, if_true, erased, Option.map_some,
            Nat.mod_eq_of_lt sum]
          refine ⟨owner', id, num + other, rfl, tidy', total, rfl, sum, ?_, ?_, ?_⟩
          · omega
          · rw [Nat.add_comm num other, ← range'_join, ends]
            refine List.Perm.trans ?_ (List.Perm.append_left _ perm)
            rw [← List.append_assoc]
            exact List.Perm.append_right _ List.perm_append_comm
          · intro range rangeMem behind
            refine others range rangeMem fun same => ?_
            exact Nat.ne_of_gt (Nat.lt_of_lt_of_le (by omega) behind) same

theorem Tidy.mergeRight {right : Option (PageID × ℕ)} (tidy : owner.Tidy)
    (behind : ∀ range ∈ right, range ∈ owner.treeFreePage ∧ pid + num = range.1 ∧ Fits num range.2)
    (short : num < 2 ^ 16) :
    ∃ owner' num', owner.mergeRight num right = some (owner', num') ∧ owner'.Tidy ∧
      owner'.totalGarbagePages = owner.totalGarbagePages ∧ num ≤ num' ∧ num' < 2 ^ 16 ∧
      (List.range' pid num' ++ owner'.freePages).Perm
        (List.range' pid num ++ owner.freePages) := by
  cases right with
  | none => exact ⟨owner, num, rfl, tidy, rfl, Nat.le_refl _, short, List.Perm.refl _⟩
  | some range =>
      rcases range with ⟨id, other⟩
      rcases behind _ rfl with ⟨mem, rfl, fits⟩
      cases merged : merges num other with
      | false =>
          rw [GarbageOwner.mergeRight, merged]
          exact ⟨owner, num, rfl, tidy, rfl, Nat.le_refl _, short, List.Perm.refl _⟩
      | true =>
          have sum := fits_of_merges merged fits
          rcases tidy.erasePage mem with ⟨owner', erased, tidy', total, perm, -⟩
          rw [GarbageOwner.mergeRight, merged, if_pos rfl, erased, Option.map_some,
            Nat.mod_eq_of_lt sum]
          refine ⟨owner', num + other, rfl, tidy', total, by omega, sum, ?_⟩
          rw [← range'_join, List.append_assoc]
          exact List.Perm.append_left _ perm

end Recycle

/-!
## Handing pages out
-/

/-- The pages that are handed out with their first one. -/
def pagesFrom (num : ℕ) : Option PageID → List PageID
  | some id => List.range' id num
  | none => []

/-- A call that gets past its checks finds all its pages in one range. -/
def ServesIndexPages (owner : GarbageOwner) (num : ℕ) (locked : Bool) : Prop :=
  num = 0 ∨ owner.totalGarbagePages = 0 ∨ locked = false ∨
    ∃ range ∈ owner.treeFreePage, num ≤ range.2

/-- The maps are tidy, and the total is the number of pages of their ranges. -/
structure Valid (owner : GarbageOwner) : Prop where
  tidy : owner.Tidy
  total : owner.totalGarbagePages = (owner.treeFreePage.map Prod.snd).sum

namespace Valid

variable {owner : GarbageOwner} {pid num choice : ℕ}

theorem empty : Valid {} :=
  ⟨⟨mirrors_nil, nofun, nofun, List.nodup_nil, nofun⟩, rfl⟩

theorem total_eq (valid : owner.Valid) : owner.totalGarbagePages = owner.freePages.length :=
  valid.total.trans (length_pagesOf _).symm

theorem length_le {pages : List PageID} (nodup : pages.Nodup)
    (bounded : ∀ id ∈ pages, (id : ℕ) < 2 ^ 32 - 1) : pages.length ≤ 2 ^ 32 - 1 := by
  have subset : pages ⊆ List.range (2 ^ 32 - 1) :=
    fun id mem => List.mem_range.mpr (bounded id mem)
  have le := (List.Nodup.subperm nodup subset).length_le
  rwa [List.length_range] at le

theorem recyclePage (valid : owner.Valid) (fits : owner.RecycleFits pid num)
    (short : num < 2 ^ 16) (bounded : pid + num ≤ 2 ^ 32 - 1)
    (notFree : ∀ id ∈ List.range' pid num, id ∉ owner.freePages) :
    ∃ owner', owner.recyclePage pid num = some owner' ∧ owner'.Valid ∧
      owner'.freePages.Perm (List.range' pid num ++ owner.freePages) := by
  have nodup : (List.range' pid num ++ owner.freePages).Nodup := by
    refine List.nodup_append.mpr ⟨List.nodup_range' , valid.tidy.nodup, ?_⟩
    rintro id mem _ mem' rfl
    exact notFree id mem mem'
  have allBounded : ∀ id ∈ List.range' pid num ++ owner.freePages, (id : ℕ) < 2 ^ 32 - 1 := by
    intro id mem
    rcases List.mem_append.mp mem with mem | mem
    · exact Nat.lt_of_lt_of_le (List.mem_range'_1.mp mem).2 bounded
    · exact valid.tidy.bounded id mem
  have total : (owner.totalGarbagePages + num) % 2 ^ 32 =
      (List.range' pid num ++ owner.freePages).length := by
    have le := length_le nodup allBounded
    rw [List.length_append, List.length_range', ← valid.total_eq] at le ⊢
    omega
  -- the total is set first; the maps do not depend on it
  have tidy : Tidy { owner with totalGarbagePages := (owner.totalGarbagePages + num) % 2 ^ 32 } :=
    { valid.tidy with }
  have finish : ∀ {owner' : GarbageOwner} {pid' num' : ℕ}, owner'.Tidy → 0 < num' →
      num' < 2 ^ 16 → pid' + num' ≤ 2 ^ 32 - 1 →
      owner'.totalGarbagePages = (owner.totalGarbagePages + num) % 2 ^ 32 →
      (List.range' pid' num' ++ owner'.freePages).Perm (List.range' pid num ++ owner.freePages) →
      (owner'.insertPage pid' num').Valid ∧
        (owner'.insertPage pid' num').freePages.Perm (List.range' pid num ++ owner.freePages) := by
    intro owner' pid' num' tidy' nonempty' short' bounded' total' perm
    rcases tidy'.insertPage nonempty' short' bounded' (perm.nodup_iff.mpr nodup) with
      ⟨tidy'', pages⟩
    refine ⟨⟨tidy'', ?_⟩, pages ▸ perm⟩
    calc (owner'.insertPage pid' num').totalGarbagePages
      _ = (List.range' pid num ++ owner.freePages).length := total'.trans total
      _ = (owner'.insertPage pid' num').freePages.length := (pages ▸ perm).length_eq.symm
      _ = _ := length_pagesOf _
  unfold GarbageOwner.recyclePage
  by_cases isEmpty : owner.treeFreePage = []
  · rw [if_pos isEmpty]
    exact ⟨_, rfl, finish tidy fits.nonempty short bounded rfl (List.Perm.refl _)⟩
  · rw [if_neg isEmpty]
    rcases tidy.mergeLeft { fits with } short with
      ⟨owner1, pid1, num1, leftEq, tidy1, total1, num1Eq, short1, end1, perm1, kept⟩
    have behind : ∀ range ∈ owner.rightRange pid num,
        range ∈ owner1.treeFreePage ∧ pid1 + num1 = range.1 ∧ Fits num1 range.2 := by
      intro range found
      rcases rightRange_spec bounded found with ⟨mem, begins⟩
      refine ⟨kept range mem ?_, end1.trans begins, num1Eq ▸ fits.right range found⟩
      exact Nat.le_of_add_right_le (Nat.le_of_eq begins)
    rcases tidy1.mergeRight behind short1 with
      ⟨owner2, num2, rightEq, tidy2, total2, le2, short2, perm2⟩
    have bounded2 : pid1 + num2 ≤ 2 ^ 32 - 1 := by
      have inside : pid1 + (num2 - 1) ∈ List.range' pid num ++ owner.freePages := by
        refine (perm2.trans perm1).mem_iff.mp (List.mem_append_left _ (List.mem_range'_1.mpr ?_))
        have := fits.nonempty
        omega
      have below := allBounded _ inside
      have := fits.nonempty
      have : pid1 + (num2 - 1) + 1 = pid1 + num2 := by omega
      exact Nat.le_trans (Nat.le_of_eq this.symm) below
    refine ⟨owner2.insertPage pid1 num2, ?_, ?_⟩
    · have rightSame : rightRange { owner with
          totalGarbagePages := (owner.totalGarbagePages + num) % 2 ^ 32 } pid num =
            owner.rightRange pid num := rfl
      simp only [leftEq, rightSame, rightEq, Option.bind_eq_bind, Option.bind_some]
    · refine finish tidy2 ?_ short2 bounded2 (total2.trans total1) (perm2.trans perm1)
      have := fits.nonempty
      omega

theorem total_sub {owner' : GarbageOwner} {pages : List PageID} (valid : owner.Valid)
    (tidy' : owner'.Tidy) (total : owner'.totalGarbagePages = owner.totalGarbagePages)
    (perm : (pages ++ owner'.freePages).Perm owner.freePages) (length : pages.length = num) :
    Valid { owner' with
      totalGarbagePages := (owner'.totalGarbagePages + 2 ^ 32 - num) % 2 ^ 32 } := by
  have sum := perm.length_eq
  rw [List.length_append, length, ← valid.total_eq] at sum
  have le := length_le valid.tidy.nodup valid.tidy.bounded
  rw [← valid.total_eq] at le
  have rest : (owner'.totalGarbagePages + 2 ^ 32 - num) % 2 ^ 32 = owner'.freePages.length := by
    rw [total]
    omega
  rw [rest]
  exact ⟨{ tidy' with },
    length_pagesOf _⟩

theorem applyOvfPage (valid : owner.Valid) (num choice : ℕ) (locked : Bool) :
    ∃ owner' first, owner.applyOvfPage num choice locked = some (owner', first) ∧ owner'.Valid ∧
      (pagesFrom num first ++ owner'.freePages).Perm owner.freePages := by
  have nothing : ∃ owner' first, some (owner, none) = some (owner', first) ∧ owner'.Valid ∧
      (pagesFrom num first ++ owner'.freePages).Perm owner.freePages :=
    ⟨owner, none, rfl, valid, List.Perm.refl _⟩
  unfold GarbageOwner.applyOvfPage
  split
  · exact nothing
  · split
    · exact nothing
    · cases found : owner.lowerBound num with
      | none => exact nothing
      | some entry =>
          rcases valid.tidy.firstOf_lowerBound found choice with ⟨fits, id, first, mem⟩
          rcases valid.tidy.takeRange mem fits with ⟨owner', taken, tidy', total, perm⟩
          refine ⟨_, some id, ?_, valid.total_sub tidy' total perm List.length_range', ?_⟩
          · simp only [first, taken, Option.bind_eq_bind, Option.bind_some]
          · rw [freePages_total]
            exact perm

theorem applyIndexPages {locked : Bool} (valid : owner.Valid)
    (serves : owner.ServesIndexPages num locked) (choice : ℕ) :
    ∃ owner' pages, owner.applyIndexPages num choice locked = some (owner', pages) ∧
      owner'.Valid ∧ (pages ++ owner'.freePages).Perm owner.freePages := by
  have nothing : ∃ owner' pages, some (owner, []) = some (owner', pages) ∧
      owner'.Valid ∧ (pages ++ owner'.freePages).Perm owner.freePages :=
    ⟨owner, [], rfl, valid, List.Perm.refl _⟩
  have nothingMoved : (([] : List PageID) ++ owner.freePages).Perm owner.freePages :=
    List.Perm.refl _
  unfold GarbageOwner.applyIndexPages
  split
  · exact nothing
  · next some =>
      split
      · exact nothing
      · next got =>
          rcases serves with none | none | notGot | ⟨range, mem, enough⟩
          · -- the loop is not entered
            subst none
            refine ⟨_, [], rfl, valid.total_sub valid.tidy rfl nothingMoved rfl, ?_⟩
            rw [freePages_total]
            exact nothingMoved
          · exact absurd none some
          · exact absurd (congrArg not notGot) got
          · cases num with
            | zero =>
                refine ⟨_, [], rfl, valid.total_sub valid.tidy rfl nothingMoved rfl, ?_⟩
                rw [freePages_total]
                exact nothingMoved
            | succ num =>
                cases found : owner.lowerBound (num + 1) with
                | none =>
                    have short := valid.tidy.lowerBound_none found range mem
                    omega
                | some entry =>
                    rcases valid.tidy.firstOf_lowerBound found choice with ⟨fits, id, first, mem⟩
                    rcases valid.tidy.takeRange mem fits with ⟨owner', taken, tidy', total, perm⟩
                    refine ⟨_, List.range' id (num + 1), ?_,
                      valid.total_sub tidy' total perm List.length_range', ?_⟩
                    · have all : min entry.1 (num + 1 - 0) = num + 1 := Nat.min_eq_right fits
                      simp only [applyLoop, Nat.zero_lt_succ, if_true, found, first, taken, all,
                        Nat.zero_add, Nat.lt_irrefl, if_false, List.nil_append,
                        Option.bind_eq_bind, Option.bind_some, Option.map_some]
                    · rw [freePages_total]
                      exact perm

end Valid

end GarbageOwner

end RapidDb
