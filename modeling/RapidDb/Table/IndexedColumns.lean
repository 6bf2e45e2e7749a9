import RapidDb.Table.TableData

/-!
# The columns of the secondary indexes

`AddIndex` and `LoadData` put the columns of an index into a sorted list as soon as the index is in
the vector of indexes. They go through the columns of the description that they have moved there,
and this one has no columns any more.
-/

namespace RapidDb

/-- `INDEX_TYPE` is among the properties of the type. -/
def DataType.isIndexType (type : DataType) : Bool := type.code &&& INDEX_TYPE = INDEX_TYPE

namespace IndexedColumns

/-- `PRIMARY_KEY`, the name of every primary index. -/
def primaryKey : List Byte := [80, 65, 82, 77, 65, 82, 89, 75, 69, 89]

def toUpper (byte : Byte) : Byte := if 97 ≤ byte ∧ byte ≤ 122 then byte - 32 else byte

/-- `MStringEqualIgnoreCase`. -/
def equalIgnoreCase (lhs rhs : List Byte) : Bool := lhs.map toUpper = rhs.map toUpper

/-- The move constructor: the new description, and what is left of the old one. -/
def move (prop : IndexProp) : IndexProp × IndexProp :=
  (prop, { prop with name := [], vctCol := [] })

/-- The table with `_vctIndexPos`. -/
structure IndexedTable extends PhysTable where
  vctIndexPos : List ℕ

/-- The messages of `AddIndex`. -/
inductive IndexError where
  | indexEmptyColumn (indexName : List Byte)
  | repeatedIndex (iname : List Byte)
  | repeatedColumnName (cname : List Byte)
  | unexistColumn (cname : List Byte)
  | indexUnsupportDataType (cname : List Byte) (dataType : DataType)
deriving DecidableEq

structure IndexCall where
  indexType : IndexType
  indexName : List Byte
  colNames : List (List Byte)

/-- The search for the place of a column. -/
def insertPos (colPos : ℕ) : List ℕ → List ℕ
  | [] => [colPos]
  | pos :: vctIndexPos =>
      if pos = colPos then pos :: vctIndexPos
      else if colPos < pos then colPos :: pos :: vctIndexPos
      else pos :: insertPos colPos vctIndexPos

/-- The loop over the columns of a description. -/
def insertColumns (vctIndexPos : List ℕ) (vctCol : List IndexProp.IndexColumn) : List ℕ :=
  vctCol.foldl (fun vctIndexPos ic => insertPos ic.colPos vctIndexPos) vctIndexPos

namespace IndexedTable

/-- The loop of `AddIndex` over the names of the columns, none if a position leads to no column. -/
def checkColumns (table : IndexedTable) (mset : List (List Byte)) :
    List (List Byte) → Option (Except IndexError (List IndexProp.IndexColumn))
  | [] => some (.ok [])
  | cname :: colNames =>
      if cname ∈ mset then some (.error (.repeatedColumnName cname))
      else
        match table.mapColumnPos.find cname with
        | none => some (.error (.unexistColumn cname))
        | some colPos => do
            let column ← table.vctColumn[colPos]?
            if column.dataType.isIndexType then
              match ← table.checkColumns (cname :: mset) colNames with
              | .error error => some (.error error)
              | .ok vctCol => some (.ok (⟨cname, colPos⟩ :: vctCol))
            else some (.error (.indexUnsupportDataType cname column.dataType))

/-- The checks of `AddIndex`, none if the assertion fails that a primary index comes first. -/
def checkIndex (table : IndexedTable) (call : IndexCall) :
    Option (Except IndexError (List IndexProp.IndexColumn)) :=
  if call.colNames = [] ∧ call.indexType ≠ .hidePrimary then
    some (.error (.indexEmptyColumn call.indexName))
  else
    let iname := if call.indexType = .primary then primaryKey else call.indexName
    if List.any table.mapIndexNamePos fun entry => equalIgnoreCase entry.1 iname then
      some (.error (.repeatedIndex iname))
    else if (call.indexType = .primary ∨ call.indexType = .hidePrimary) ∧ table.vctIndex ≠ [] then
      none
    else if call.indexType = .hidePrimary then some (.ok [])
    else table.checkColumns [] call.colNames

/-- `AddIndex`, with the message if there is one. -/
def addIndex (table : IndexedTable) (call : IndexCall) :
    Option (Option IndexError × IndexedTable) := do
  match ← table.checkIndex call with
  | .error error => some (some error, table)
  | .ok vctCol =>
      if call.indexType = .hidePrimary then
        let (stored, prop) := move ⟨primaryKey, 0, call.indexType, []⟩
        some (none,
          { table with
            vctIndex := table.vctIndex ++ [stored]
            mapIndexNamePos := table.mapIndexNamePos.insert prop.name prop.position })
      else do
        let iname := if call.indexType = .primary then primaryKey else call.indexName
        let first ← vctCol.head?
        let (stored, prop) := move ⟨iname, table.vctIndex.length, call.indexType, vctCol⟩
        some (none,
          { table with
            mapIndexFirstField :=
              table.mapIndexFirstField.insert first.colPos table.vctIndex.length
            mapIndexNamePos := table.mapIndexNamePos.insert iname table.vctIndex.length
            vctIndex := table.vctIndex ++ [stored]
            vctIndexPos :=
              if call.indexType = .primary then table.vctIndexPos
              else insertColumns table.vctIndexPos prop.vctCol })

def addIndexes (table : IndexedTable) : List IndexCall → Option IndexedTable
  | [] => some table
  | call :: calls => do
      let (_, table) ← table.addIndex call
      table.addIndexes calls

/-- `LoadData` with the list of the columns. -/
def loadData (bys : List Byte) : Option (IndexedTable × ℕ) := do
  let (table, len) ← PhysTable.loadData bys
  let vctIndexPos := table.vctIndex.foldl
    (fun vctIndexPos prop => insertColumns vctIndexPos (move prop).2.vctCol) []
  return ({ table with vctIndexPos }, len)

/-- A table with its columns and no index, or one that has been loaded. -/
inductive Initial : IndexedTable → Prop
  | created (table : PhysTable) (noIndex : table.vctIndex = []) :
      Initial { table with vctIndexPos := [] }
  | loaded (bys : List Byte) (table : IndexedTable) (len : ℕ)
      (load : loadData bys = some (table, len)) : Initial table

end IndexedTable

/-- A secondary index has neither of the types of the primary one. -/
def isSecondary (prop : IndexProp) : Prop := prop.type ≠ .primary ∧ prop.type ≠ .hidePrimary

/-- The columns of the secondary indexes are in the list, in order and once. -/
structure IndexPosRight (table : IndexedTable) : Prop where
  sorted : table.vctIndexPos.Pairwise (· < ·)
  mem_iff : ∀ pos, pos ∈ table.vctIndexPos ↔
    ∃ prop ∈ table.vctIndex, isSecondary prop ∧ ∃ ic ∈ prop.vctCol, ic.colPos = pos

/-- A call for a primary index, or one that is refused. -/
def CallMeets (table : IndexedTable) (call : IndexCall) : Prop :=
  call.indexType = .primary ∨ call.indexType = .hidePrimary ∨
    ∃ error, table.checkIndex call = some (.error error)

/-- Every call meets the condition in the table that it finds. -/
def CallsMeet (table : IndexedTable) : List IndexCall → Prop
  | [] => True
  | call :: calls => CallMeets table call ∧
      ∀ error table', table.addIndex call = some (error, table') → CallsMeet table' calls

def NoColumn (table : IndexedTable) : Prop :=
  ∀ prop ∈ table.vctIndex, isSecondary prop → prop.vctCol = []

/-! ## The loop -/

theorem insertColumns_moved (vctIndexPos : List ℕ) (prop : IndexProp) :
    insertColumns vctIndexPos (move prop).2.vctCol = vctIndexPos :=
  rfl

/-! ## Runs -/

theorem indexPosRight_iff_noColumn {table : IndexedTable} (empty : table.vctIndexPos = []) :
    IndexPosRight table ↔ NoColumn table := by
  refine ⟨fun right prop mem secondary => ?_, fun noColumn => ⟨?_, fun pos => ⟨?_, ?_⟩⟩⟩
  · cases columns : prop.vctCol with
    | nil => rfl
    | cons ic vctCol =>
        have found := (right.mem_iff ic.colPos).mpr
          ⟨prop, mem, secondary, ic, by simp [columns], rfl⟩
        rw [empty] at found
        cases found
  · rw [empty]
    exact List.Pairwise.nil
  · intro mem
    rw [empty] at mem
    cases mem
  · rintro ⟨prop, mem, secondary, ic, icMem, -⟩
    rw [noColumn prop mem secondary] at icMem
    cases icMem

theorem noColumn_append {table table' : IndexedTable} {prop : IndexProp}
    (vctIndex : table'.vctIndex = table.vctIndex ++ [prop]) :
    NoColumn table' ↔ NoColumn table ∧ (isSecondary prop → prop.vctCol = []) := by
  unfold NoColumn
  rw [vctIndex]
  simp only [List.forall_mem_append, List.forall_mem_singleton]

theorem not_callMeets {table : IndexedTable} {call : IndexCall}
    {vctCol : List IndexProp.IndexColumn}
    (checked : table.checkIndex call = some (.ok vctCol))
    (secondary : call.indexType ≠ .primary ∧ call.indexType ≠ .hidePrimary) :
    ¬CallMeets table call := by
  rintro (primary | hidden | ⟨error, refused⟩)
  · exact secondary.1 primary
  · exact secondary.2 hidden
  · rw [checked] at refused
    cases refused

/-- A call leaves the list as it is, and adds an index with columns unless it meets the
condition. -/
theorem addIndex_spec {table table' : IndexedTable} {call : IndexCall} {error : Option IndexError}
    (added : table.addIndex call = some (error, table')) :
    table'.vctIndexPos = table.vctIndexPos ∧
      (NoColumn table' ↔ NoColumn table ∧ CallMeets table call) := by
  unfold IndexedTable.addIndex at added
  rcases Option.bind_eq_some_iff.mp added with ⟨checked, check, result⟩
  cases checked with
  | error message =>
      cases result
      exact ⟨rfl, (and_iff_left (Or.inr (Or.inr ⟨message, check⟩))).symm⟩
  | ok vctCol =>
      dsimp only at result
      split at result
      · rename_i hidden
        cases result
        refine ⟨rfl, (noColumn_append rfl).trans (and_congr_right fun _ => ?_)⟩
        exact iff_of_true (fun _ => rfl) (Or.inr (Or.inl hidden))
      · rename_i notHidden
        rcases Option.bind_eq_some_iff.mp result with ⟨first, head, last⟩
        cases last
        refine ⟨?_, (noColumn_append rfl).trans (and_congr_right fun _ => ?_)⟩
        · dsimp only
          rw [insertColumns_moved]
          split <;> rfl
        · by_cases primary : call.indexType = .primary
          · exact iff_of_true (fun secondary => absurd primary secondary.1) (Or.inl primary)
          · refine iff_of_false (fun columns => ?_) (not_callMeets check ⟨primary, notHidden⟩)
            have none : vctCol = [] := columns ⟨primary, notHidden⟩
            rw [none] at head
            cases head

theorem addIndexes_spec {table table' : IndexedTable} {calls : List IndexCall}
    (added : table.addIndexes calls = some table') :
    table'.vctIndexPos = table.vctIndexPos ∧
      (NoColumn table' ↔ NoColumn table ∧ CallsMeet table calls) := by
  induction calls generalizing table with
  | nil =>
      cases added
      exact ⟨rfl, (and_iff_left trivial).symm⟩
  | cons call calls ih =>
      rcases Option.bind_eq_some_iff.mp added with ⟨⟨error, middle⟩, step, rest⟩
      rcases addIndex_spec step with ⟨same, first⟩
      rcases ih rest with ⟨sameRest, others⟩
      refine ⟨sameRest.trans same, ?_⟩
      rw [others, first, CallsMeet, and_assoc]
      refine and_congr_right fun _ => and_congr_right fun _ => ⟨fun meets error' table' step' => ?_,
        fun meets => meets error middle step⟩
      rw [step] at step'
      cases step'
      exact meets

theorem IndexedTable.Initial.empty {table : IndexedTable} (initial : table.Initial) :
    table.vctIndexPos = [] := by
  cases initial with
  | created table noIndex => rfl
  | loaded bys table len load =>
      unfold IndexedTable.loadData at load
      rcases Option.bind_eq_some_iff.mp load with ⟨⟨physTable, read⟩, -, same⟩
      cases same
      dsimp only
      simp only [insertColumns_moved]
      generalize physTable.vctIndex = props
      induction props with
      | nil => rfl
      | cons prop props ih => exact ih

/-- Behind any calls on a new or a loaded table, the list is right exactly if the table has been
loaded without columns in secondary indexes and no accepted call was for a secondary index. -/
theorem indexPosRight_iff {table table' : IndexedTable} {calls : List IndexCall}
    (initial : table.Initial) (added : table.addIndexes calls = some table') :
    IndexPosRight table' ↔ NoColumn table ∧ CallsMeet table calls := by
  rcases addIndexes_spec added with ⟨same, noColumn⟩
  rw [← noColumn]
  exact indexPosRight_iff_noColumn (same.trans initial.empty)

def oneColumn : PhysTable where
  fullName := [100, 46, 116]
  dtCreate := 0
  dtLastUpdate := 0
  vctColumn := [⟨[97], 0, .int, false, 0, 0, -1, -1, [], none⟩]
  mapColumnPos := KeyMap.empty.insert [97] 0
  vctIndex := []
  mapIndexNamePos := .empty
  mapIndexFirstField := .empty

/-- The calls for a primary index on the column and for a unique one. -/
def twoIndexes : List IndexCall := [⟨.primary, [], [[97]]⟩, ⟨.unique, [105], [[97]]⟩]

/-- The table behind the first calls has what it should have in its list. -/
theorem indexPosRight_iff_primary :
    ∃ table', IndexedTable.addIndexes { oneColumn with vctIndexPos := [] } (twoIndexes.take 1) =
        some table' ∧
      (IndexPosRight table' ↔ NoColumn { oneColumn with vctIndexPos := [] } ∧
        CallsMeet { oneColumn with vctIndexPos := [] } (twoIndexes.take 1)) :=
  ⟨_, rfl, indexPosRight_iff (.created oneColumn rfl) rfl⟩

/-- A column of a unique index is not in the list. -/
theorem not_indexPosRight : ¬∀ (table table' : IndexedTable) (calls : List IndexCall),
    table.Initial → table.addIndexes calls = some table' → IndexPosRight table' := by
  intro always
  have right := always { oneColumn with vctIndexPos := [] } _ twoIndexes (.created oneColumn rfl)
    rfl
  have found := (right.mem_iff 0).mpr
    ⟨⟨[105], 1, .unique, [⟨[97], 0⟩]⟩, by decide, ⟨by decide, by decide⟩, ⟨[97], 0⟩, by decide, rfl⟩
  cases found

end IndexedColumns

end RapidDb
