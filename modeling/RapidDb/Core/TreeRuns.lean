import Mathlib.Data.List.Perm.Subperm
import RapidDb.Core.SplitLeaf
import RapidDb.Library.Transition

/-!
# Runs of insertions and splits

A tree is created empty. Records with different index keys are inserted in any order, and a page
that has become too long can be split at any time. After every step each record is found again,
the leaves are linked in the order of their keys, and the separators of the branch pages bound
the keys of their children.

One split goes wrong: the last branch page of a layer whose records are exactly as long as a page
stays whole, and `SplitPage` passes its end mark on to a new page that does not exist.
-/

namespace RapidDb

open SeparatorTree Transition

namespace IndexTree

/-!
## What a search tree has to be
-/

def firstLeaf (tree : IndexTree) : ℕ → PageID → Option PageID
  | 0, _ => none
  | fuel + 1, pageId =>
      match tree.pages pageId with
      | none => none
      | some (.leaf _) => some pageId
      | some (.branch page) => page.records.head?.bind fun br => tree.firstLeaf fuel br.childPage

/-- The records of the leaves from a page on, along the next-page links. -/
def linkedRecords (tree : IndexTree) : ℕ → Option PageID → Option (List LeafRecord)
  | _, none => some []
  | 0, some _ => none
  | fuel + 1, some pageId =>
      (tree.leafPage? pageId).bind fun page =>
        (tree.linkedRecords fuel page.nextPageId).map (page.records ++ ·)

/-- The records along the next-page links from the leftmost leaf on. -/
def chain (tree : IndexTree) : Option (List LeafRecord) :=
  (tree.firstLeaf tree.totalPageCount tree.rootPageId).bind fun pageId =>
    tree.linkedRecords tree.totalPageCount (some pageId)

/-- The keys of a page, of leaf records or of branch records. -/
def pageKeys (tree : IndexTree) (pageId : PageID) : List (List Byte) :=
  (tree.leafRecords pageId).map (LeafRecord.indexKey tree.indexType) ++
    (tree.branchRecords pageId).map (BranchRecord.indexKey tree.indexType)

/-- The separators of a branch page increase, and each bounds the keys of its child. Only the last
child of a page at the right border may exceed its separator. -/
structure Separated (tree : IndexTree) (page : BranchPage) : Prop where
  sorted : (page.records.map (BranchRecord.indexKey tree.indexType)).Pairwise (· < ·)
  above : ∀ left br right, page.records = left ++ br :: right → ∀ other ∈ left,
    ∀ key ∈ tree.pageKeys br.childPage, other.indexKey tree.indexType < key
  below : ∀ left br right, page.records = left ++ br :: right →
    right ≠ [] ∨ page.endPage = false → ∀ key ∈ tree.pageKeys br.childPage,
      key ≤ br.indexKey tree.indexType

end IndexTree

/-- A tree and the records that have been inserted into it. -/
structure TreeState where
  tree : IndexTree
  inserted : List LeafRecord

namespace TreeState

inductive Event where
  | insert (lr : LeafRecord)
  | split (pageId : PageID)

def start (type : IndexType) : TreeState where
  tree := IndexTree.create type
  inserted := []

def step (state : TreeState) : Event → Option TreeState
  | .insert lr => (state.tree.insertRecord lr).map fun tree => ⟨tree, lr :: state.inserted⟩
  | .split pageId => (state.tree.splitPage pageId).map fun tree => ⟨tree, state.inserted⟩

/-- Records with new keys are inserted, and pages that are too long are split. -/
def Admissible (state : TreeState) : Event → Prop
  | .insert lr => lr.Insertable state.tree.indexType ∧ ∀ other ∈ state.inserted,
      other.indexKey state.tree.indexType ≠ lr.indexKey state.tree.indexType
  | .split pageId => match state.tree.pages pageId with
      | none => False
      | some (.leaf page) => page.isOverlength = true
      | some (.branch page) => page.isOverlength = true

/-- A branch page that is split has more than one part, or is not the last one of its layer. -/
def Parted (state : TreeState) : Event → Prop
  | .insert _ => True
  | .split pageId => match state.tree.pages pageId with
      | some (.branch page) => page.endPage = true →
          maxDataLengthBranch < Segments.total BranchPage.recordLength page.records ∨
            maxDataLengthBranch * loadFactor / 100 <
              Segments.total BranchPage.recordLength page.records.dropLast
      | _ => True

def Permitted (state : TreeState) (event : Event) : Prop :=
  state.Admissible event ∧ state.Parted event

/-- Every inserted record is found again, the leaves list all of them once and in order, and the
branch pages bound their children. -/
structure Sound (state : TreeState) : Prop where
  found : ∀ lr ∈ state.inserted,
    (state.tree.findRecord lr).map LeafRecord.inPage = some lr.inPage
  linked : ∃ records, state.tree.chain = some records ∧
    (records.map LeafRecord.inPage).Perm (state.inserted.map LeafRecord.inPage) ∧
    (records.map (LeafRecord.indexKey state.tree.indexType)).Pairwise (· < ·)
  separated : ∀ pageId page, state.tree.pages pageId = some (.branch page) →
    state.tree.Separated page

end TreeState

namespace IndexTree

section Sound

variable {tree : IndexTree} {height level : ℕ} {layer : ℕ → List PageID} {pageId : PageID}

theorem findRecord_congr {lr lr' : LeafRecord}
    (same : lr'.indexKey tree.indexType = lr.indexKey tree.indexType) :
    tree.findRecord lr' = tree.findRecord lr := by
  have searches : ∀ fuel pageId, tree.searchFrom lr' fuel pageId =
      tree.searchFrom lr fuel pageId := by
    intro fuel
    induction fuel with
    | zero => exact fun _ => rfl
    | succ fuel ih =>
        intro pageId
        simp only [searchFrom, same, ih]
  have compares : ∀ page : LeafPage, page.compareAt tree.indexType lr' =
      page.compareAt tree.indexType lr := by
    intro page
    funext middle
    simp only [LeafPage.compareAt, same]
  simp only [findRecord, searchPage, searches, LeafPage.searchRecord, compares]

section

variable (inv : tree.Invariant height layer)

include inv

theorem Invariant.firstLeaf_eq {fuel : ℕ} (levelLe : level ≤ height) (enough : level < fuel)
    {behind : List PageID} (layerEq : layer level = pageId :: behind) :
    tree.firstLeaf fuel pageId = (layer 0).head? := by
  induction level generalizing fuel pageId behind with
  | zero =>
      cases fuel with
      | zero => omega
      | succ fuel =>
          have mem : pageId ∈ layer 0 := layerEq ▸ List.mem_cons_self
          rcases inv.leaf mem with ⟨page, pageEq, -⟩
          rw [layerEq]
          simp [firstLeaf, pageEq]
  | succ level ih =>
      cases fuel with
      | zero => omega
      | succ fuel =>
          have mem : pageId ∈ layer (level + 1) := layerEq ▸ List.mem_cons_self
          rcases inv.branch levelLe mem with ⟨page, pageEq, -, -⟩
          have nonempty := inv.layered.nonempty (level + 1) levelLe (Nat.succ_pos level) pageId mem
          have children := inv.layered.children level levelLe
          have recordsEq := (branchRecords_of_branchPage? pageEq).1
          rw [shape_entries, recordsEq] at nonempty
          cases records : page.records with
          | nil => exact absurd (by rw [records]; rfl) nonempty
          | cons br rest =>
              rw [layerEq, Shape.layerEntries, List.flatMap_cons, shape_entries, recordsEq,
                records] at children
              have below : level < fuel := Nat.lt_of_succ_lt_succ enough
              rw [← ih (Nat.le_of_succ_le levelLe) below children]
              simp only [firstLeaf, pageEq, records, List.head?_cons, Option.bind_some]
              rfl

theorem Invariant.linkedRecords_eq {fuel : ℕ} {before behind : List PageID}
    (layerEq : layer 0 = before ++ behind) (enough : behind.length ≤ fuel) :
    tree.linkedRecords fuel behind.head? = some (behind.flatMap tree.leafRecords) := by
  induction behind generalizing before fuel with
  | nil => cases fuel <;> rfl
  | cons pageId behind ih =>
      cases fuel with
      | zero => simp at enough
      | succ fuel =>
          have mem : pageId ∈ layer 0 := by
            rw [layerEq]
            simp
          rcases inv.leaf mem with ⟨page, pageEq, -⟩
          have next := inv.links before pageId behind layerEq
          rw [pageEq, Option.map_some, Option.some.injEq] at next
          have nextEq : page.nextPageId = behind.head? := next
          have leafEq : tree.leafPage? pageId = some page := by rw [leafPage?, pageEq]
          have rest := ih (layerEq.trans (List.append_cons before pageId behind))
            (Nat.le_of_succ_le_succ enough)
          simp [linkedRecords, leafEq, nextEq, rest, (leafRecords_of_leafPage? pageEq).1]

theorem Invariant.length_le : (layer 0).length ≤ tree.totalPageCount := by
  have nodup := inv.layered.nodup 0 (Nat.zero_le _)
  have inRange : layer 0 ⊆ List.range tree.totalPageCount := by
    intro pageId mem
    rcases inv.plain 0 (Nat.zero_le _) pageId mem with ⟨page, pageEq, -⟩
    exact List.mem_range.mpr (inv.allocated pageId page pageEq)
  have lengthLe := (nodup.subperm inRange).length_le
  rwa [List.length_range] at lengthLe

theorem Invariant.chain_eq : tree.chain = some (tree.allRecords layer) := by
  have first := inv.firstLeaf_eq le_rfl inv.heightLt inv.layered.top
  have linked := inv.linkedRecords_eq (List.nil_append (layer 0)).symm inv.length_le
  cases layerEq : layer 0 with
  | nil => exact absurd layerEq (inv.layered.layer_nonempty (Nat.zero_le _))
  | cons pageId behind =>
      rw [layerEq, List.head?_cons] at first linked
      rw [chain, first, Option.bind_some, linked, allRecords, layerEq]

theorem Invariant.pageKeys_eq (levelLe : level ≤ height) (mem : pageId ∈ layer level) :
    tree.pageKeys pageId = tree.shape.contents level pageId := by
  rcases inv.plain level levelLe pageId mem with ⟨page | page, pageEq, plain⟩
  · rw [plain.1, Shape.contents_zero, shape_leafKeys, pageKeys,
      (leafRecords_of_leafPage? pageEq).2, List.map_nil, List.append_nil]
  · rcases Nat.exists_eq_succ_of_ne_zero plain.1 with ⟨lower, rfl⟩
    rw [Shape.contents_succ, shape_entries, pageKeys, (branchRecords_of_branchPage? pageEq).2,
      List.map_nil, List.nil_append, List.map_map]
    rfl

theorem Invariant.separated {page : BranchPage} (pageEq : tree.pages pageId = some (.branch page)) :
    tree.Separated page := by
  rcases inv.level_of_page pageEq with ⟨level, levelLe, mem, notLeaf, -, -⟩
  rcases Nat.exists_eq_succ_of_ne_zero notLeaf with ⟨lower, rfl⟩
  have recordsEq := (branchRecords_of_branchPage? pageEq).1
  have covers := inv.layered.covers lower levelLe
  rcases List.append_of_mem mem with ⟨before, behind, layerEq⟩
  have childKeys : ∀ br ∈ page.records, tree.pageKeys br.childPage =
      tree.shape.contents lower br.childPage := by
    intro br brMem
    refine inv.pageKeys_eq (le_of_lt levelLe) ?_
    rw [inv.layered.children lower levelLe]
    refine List.mem_map.mpr ⟨br.entry tree.indexType, List.mem_flatMap.mpr ⟨pageId, mem, ?_⟩, rfl⟩
    rw [shape_entries, recordsEq]
    exact List.mem_map_of_mem brMem
  refine ⟨?_, ?_, ?_⟩
  · have sorted := inv.layered.sorted (lower + 1) levelLe pageId mem
    rwa [Shape.contents_succ, shape_entries, recordsEq, List.map_map] at sorted
  · intro left br right split other otherMem key keyMem
    rw [childKeys br (by simp [split])] at keyMem
    rw [layerEntries_eq pageEq split layerEq] at covers
    have entryMem : other.entry tree.indexType ∈ tree.shape.layerEntries before ++
        left.map (BranchRecord.entry tree.indexType) :=
      List.mem_append_right _ (List.mem_map_of_mem otherMem)
    exact (left_bounds covers entryMem).2.2 key keyMem
  · intro left br right split notBorder key keyMem
    rw [childKeys br (by simp [split])] at keyMem
    rw [layerEntries_eq pageEq split layerEq] at covers
    refine (bounds_of_right covers ?_).1 key keyMem
    rcases notBorder with notLast | notEnd
    · simp [notLast]
    · have isEnd := inv.ends (lower + 1) levelLe before pageId behind layerEq
      rw [pageEq, Option.map_some, Option.some.injEq] at isEnd
      have endEq : page.endPage = behind.isEmpty := isEnd
      rw [notEnd] at endEq
      cases behind with
      | nil => cases endEq
      | cons next behind =>
          have nextMem : next ∈ layer (lower + 1) := by
            rw [layerEq]
            simp
          have nonempty := inv.layered.nonempty (lower + 1) levelLe (Nat.succ_pos lower)
            next nextMem
          rw [Shape.layerEntries, List.flatMap_cons]
          exact List.append_ne_nil_of_right_ne_nil _ (List.append_ne_nil_of_left_ne_nil nonempty _)

end

end Sound

end IndexTree

namespace TreeState

/-!
## Runs
-/

/-- The tree is in order, and holds what has been inserted. -/
def Holds (type : IndexType) (state : TreeState) : Prop :=
  state.tree.indexType = type ∧ ∃ height layer, state.tree.Invariant height layer ∧
    ((state.tree.allRecords layer).map LeafRecord.inPage).Perm
      (state.inserted.map LeafRecord.inPage)

theorem holds_start (type : IndexType) : (start type).Holds type := by
  refine ⟨rfl, 0, _, IndexTree.invariant_create type, ?_⟩
  exact List.Perm.refl _

theorem Holds.sound {type : IndexType} {state : TreeState} (holds : state.Holds type) :
    state.Sound := by
  rcases holds with ⟨-, height, layer, inv, perm⟩
  refine ⟨?_, ⟨_, inv.chain_eq, perm, ?_⟩, fun pageId page pageEq => inv.separated pageEq⟩
  · intro lr mem
    have inTree : lr.inPage ∈ (state.tree.allRecords layer).map LeafRecord.inPage :=
      perm.mem_iff.mpr (List.mem_map_of_mem mem)
    rcases List.mem_map.mp inTree with ⟨stored, storedMem, same⟩
    have sameKey : lr.indexKey state.tree.indexType = stored.indexKey state.tree.indexType := by
      rw [← LeafRecord.indexKey_inPage lr, ← same, LeafRecord.indexKey_inPage]
    rw [IndexTree.findRecord_congr sameKey, inv.findRecord_eq storedMem, Option.map_some, same]
  · have sorted := sorted_leaves inv.layered
    rwa [IndexTree.allRecords, List.map_flatMap]

theorem Holds.insert {type : IndexType} {state : TreeState} (holds : state.Holds type)
    {lr : LeafRecord} (admissible : state.Admissible (.insert lr)) :
    ∃ state', state.step (.insert lr) = some state' ∧ state'.Holds type := by
  rcases holds with ⟨typeEq, height, layer, inv, perm⟩
  rcases admissible with ⟨insertable, isNew⟩
  have notThere : ∀ other ∈ state.tree.allRecords layer,
      other.indexKey state.tree.indexType ≠ lr.indexKey state.tree.indexType := by
    intro other mem
    have inserted : other.inPage ∈ state.inserted.map LeafRecord.inPage :=
      perm.mem_iff.mp (List.mem_map_of_mem mem)
    rcases List.mem_map.mp inserted with ⟨record, recordMem, same⟩
    rw [← LeafRecord.indexKey_inPage other, ← same, LeafRecord.indexKey_inPage]
    exact isNew record recordMem
  rcases inv.insertRecord_spec insertable notThere with ⟨tree', insertEq, typeEq', inv', perm'⟩
  refine ⟨⟨tree', lr :: state.inserted⟩, ?_, typeEq'.trans typeEq, height, layer, inv', ?_⟩
  · rw [step, insertEq, Option.map_some]
  · exact (perm'.map LeafRecord.inPage).trans (perm.cons lr.inPage)

theorem Holds.split {type : IndexType} {state : TreeState} (holds : state.Holds type)
    {pageId : PageID} (permitted : state.Permitted (.split pageId)) :
    ∃ state', state.step (.split pageId) = some state' ∧ state'.Holds type := by
  rcases holds with ⟨typeEq, height, layer, inv, perm⟩
  rcases permitted with ⟨admissible, parted⟩
  have finish : ∀ tree' height' layer', state.tree.splitPage pageId = some tree' →
      tree'.Invariant height' layer' → tree'.indexType = state.tree.indexType →
      (tree'.allRecords layer').map LeafRecord.inPage =
        (state.tree.allRecords layer).map LeafRecord.inPage →
      ∃ state', state.step (.split pageId) = some state' ∧ state'.Holds type := by
    intro tree' height' layer' splitEq inv' typeEq' sameRecords
    refine ⟨⟨tree', state.inserted⟩, ?_, typeEq'.trans typeEq, height', layer', inv', ?_⟩
    · rw [step, splitEq, Option.map_some]
    · rw [sameRecords]
      exact perm
  cases pageEq : state.tree.pages pageId with
  | none => simp [Admissible, pageEq] at admissible
  | some page =>
      rcases inv.level_of_page pageEq with ⟨level, levelLe, mem, plain⟩
      cases page with
      | leaf page =>
          have nonempty : page.records ≠ [] := by
            intro empty
            simp only [Admissible, pageEq, LeafPage.isOverlength, plain.2.committed, plain.2.temp,
              empty] at admissible
            revert admissible
            decide
          rcases inv.splitLeaf_spec pageEq nonempty with
            ⟨tree', height', layer', splitEq, inv', typeEq', sameRecords⟩
          refine finish tree' height' layer' ?_ inv' typeEq' sameRecords
          rw [IndexTree.splitPage, pageEq, Option.bind_some, splitEq]
      | branch page =>
          simp only [Parted, pageEq] at parted
          have twoParts : page.endPage = true →
              ∀ parts, page.splitParts = some parts → 2 ≤ parts.length :=
            fun isEnd _ partsEq => IndexTree.two_parts plain.2.2 (parted isEnd) partsEq
          rcases inv.splitBranch_spec pageEq levelLe mem twoParts
            (Nat.lt_add_right _ inv.heightLt) with
            ⟨tree', height', layer', splitEq, inv', typeEq', sameRecords⟩
          refine finish tree' height' layer' ?_ inv' typeEq' sameRecords
          rw [IndexTree.splitPage, pageEq, Option.bind_some, splitEq]

/-- In every run whose steps meet the condition the tree is a search tree over the inserted
records after every step, and every further step can be made. -/
theorem sound_of_reaches (type : IndexType) {state : TreeState}
    (run : Reaches step Permitted (start type) state) :
    state.Sound ∧ ∀ event, state.Permitted event → (state.step event).isSome := by
  have preserved : ∀ state event, Permitted state event → state.Holds type →
      ∃ state', state.step event = some state' ∧ state'.Holds type := by
    intro state event permitted holds
    cases event with
    | insert lr => exact holds.insert permitted.1
    | split pageId => exact holds.split permitted
  have holds : state.Holds type := by
    refine run.preserves (holds_start type) ?_
    intro state event state' permitted holds stepEq
    rcases preserved state event permitted holds with ⟨next, nextEq, nextHolds⟩
    rw [stepEq, Option.some.injEq] at nextEq
    exact nextEq ▸ nextHolds
  refine ⟨holds.sound, fun event permitted => ?_⟩
  rcases preserved state event permitted holds with ⟨next, nextEq, -⟩
  rw [nextEq]
  rfl

instance (type : IndexType) (lr : LeafRecord) : Decidable (lr.Insertable type) :=
  decidable_of_iff
    (lr.recLock = none ∧ lr.isDelete = false ∧ lr.body.overflowPage = none ∧
      lr.body.indexType = type ∧ lr.getActualLength = lr.body.bysVal.length ∧
      lr.getKeyLength + 12 ≤ lr.body.bysVal.length ∧
      lr.getKeyLength + lr.getValueLength + 4 ≤ lr.body.bysVal.length ∧
      lr.body.bysVal.length + 2 ≤ maxDataLengthLeaf ∧
      lr.getKeyLength + lr.getValueLength + 10 ≤ maxDataLengthBranch)
    ⟨fun ⟨h1, h2, h3, h4, h5, h6, h7, h8, h9⟩ => ⟨h1, h2, h3, h4, h5, h6, h7, h8, h9⟩,
      fun ⟨h1, h2, h3, h4, h5, h6, h7, h8, h9⟩ => ⟨h1, h2, h3, h4, h5, h6, h7, h8, h9⟩⟩

instance (state : TreeState) (event : Event) : Decidable (state.Admissible event) :=
  match event with
  | .insert lr => inferInstanceAs (Decidable (lr.Insertable state.tree.indexType ∧ _))
  | .split pageId =>
      match pageEq : state.tree.pages pageId with
      | none => isFalse (by simp [Admissible, pageEq])
      | some (.leaf page) =>
        decidable_of_iff (page.isOverlength = true) (by simp [Admissible, pageEq])
      | some (.branch page) =>
          decidable_of_iff (page.isOverlength = true) (by simp [Admissible, pageEq])

instance (state : TreeState) (event : Event) : Decidable (state.Parted event) :=
  match event with
  | .insert _ => isTrue trivial
  | .split pageId =>
      match pageEq : state.tree.pages pageId with
      | none => isTrue (by simp [Parted, pageEq])
      | some (.leaf _) => isTrue (by simp [Parted, pageEq])
      | some (.branch page) =>
          decidable_of_iff (page.endPage = true → _ ∨ _) (by simp only [Parted, pageEq]; rfl)

instance (state : TreeState) (event : Event) : Decidable (state.Permitted event) :=
  inferInstanceAs (Decidable (_ ∧ _))

/-- A row with a one-byte key and a text of some length. -/
def sampleRow (key : Byte) (size : ℕ) : LeafRecord :=
  let keyValue : DataValue :=
    { isNull := false, isFixLength := true, persistenceLength := fun _ => 1
      writeData := fun _ => [key] }
  let text : DataValue :=
    { isNull := false, isFixLength := false, persistenceLength := fun _ => size
      writeData := fun _ => List.replicate size 0 }
  .newPrimary { indexType := .primary, vctValue := [{ isFixLength := false, maxLength := size }] }
    [keyValue] [text] 0 none { recordAddr := key.val, lockAddr := 0, ovfPageId := 0, crc32 }

/-- Two leaves come to hold records of `6007` bytes, and the last one is split again, so that the
root page gets three records that fill it to the last byte. -/
def fillingEvents : List Event :=
  [.insert (sampleRow 1 5984), .insert (sampleRow 2 5984), .insert (sampleRow 3 5984), .split 0,
    .insert (sampleRow 4 5984), .insert (sampleRow 5 4352), .split 2]

theorem sound_of_reaches_filling :
    ∃ state, execPermitted step Permitted fillingEvents (start .primary) = some state ∧
      state.Sound ∧ ∀ event, state.Permitted event → (state.step event).isSome := by
  have runs : (execPermitted step Permitted fillingEvents (start .primary)).isSome = true := by
    decide +kernel
  rcases Option.isSome_iff_exists.mp runs with ⟨state, executed⟩
  exact ⟨state, executed, sound_of_reaches .primary (reaches_of_execPermitted _ executed)⟩

/-- The root page, exactly as long as a page can be, cannot be split. -/
theorem not_sound_of_reaches :
    ¬∀ type state, Reaches step Admissible (start type) state →
      state.Sound ∧ ∀ event, state.Admissible event → (state.step event).isSome := by
  intro sound
  have runs : (execPermitted step Admissible fillingEvents (start .primary)).map (fun state =>
      (decide (state.Admissible (.split 1)), (state.step (.split 1)).isSome)) =
        some (true, false) := by
    decide +kernel
  rcases Option.map_eq_some_iff.mp runs with ⟨state, executed, shown⟩
  rcases Prod.mk.inj shown with ⟨admissible, fails⟩
  have further := (sound .primary state (reaches_of_execPermitted _ executed)).2 (.split 1)
    (of_decide_eq_true admissible)
  rw [fails] at further
  cases further

end TreeState

end RapidDb
