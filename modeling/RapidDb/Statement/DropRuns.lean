import Mathlib.Data.List.Perm.Basic
import RapidDb.Statement.DropDatabase

/-!
# Runs of dropping a database

There is one action, it stays in one range, and its key is the only one that the statement is
concerned with. The records made so far are those of the rows whose keys have been scanned.
-/

namespace RapidDb

open Transition

namespace DropDatabase

variable {catalog : Catalog} {stmt stmt' : DropStatement}

def DropStatement.current (stmt : DropStatement) : SysTable :=
  if stmt.bDropingTable then .sysTables else .sysDbs

/-- The keys of a system table that have been scanned when a phase is at some position. -/
def Catalog.scanned (catalog : Catalog) (bDropingTable : Bool) (keyPos : ℕ) (table : SysTable) :
    List ℤ :=
  match table with
  | .sysTables =>
      if bDropingTable then (catalog.keys .sysTables).take keyPos else catalog.keys .sysTables
  | .sysDbs => if bDropingTable then [] else (catalog.keys .sysDbs).take keyPos

/-- Records have been made for the rows of the keys up to some position. -/
def Touches (catalog : Catalog) (stmt : DropStatement) (keyPos : ℕ) : Prop :=
  ∀ key, key ∈ stmt.touched ↔
    key.id ∈ catalog.scanned stmt.bDropingTable keyPos key.table ∧
      (catalog.index key.table).Has key.id

/-- Each record is either waiting or finished, and the finished ones have a result. -/
structure ListsSound (stmt : DropStatement) : Prop where
  lists : (stmt.lstWaitRecord ++ stmt.lstFinishRecord).Perm stmt.touched
  nodup : stmt.touched.Nodup
  results : ∀ key ∈ stmt.lstFinishRecord, stmt.recResult key ≠ .init
  waiting : stmt.bDropingTable = false → ∀ key ∈ stmt.lstWaitRecord, key.table = .sysDbs

structure ScanSound (catalog : Catalog) (stmt : DropStatement) (keyPos : ℕ) : Prop where
  midVar : stmt.midVar = some ⟨stmt.current, catalog.keys stmt.current, keyPos⟩
  shares : (catalog.keys stmt.current).Pairwise (catalog.index stmt.current).Shares
  goesOn : stmt.bFinished = false → stmt.stmtFailed = false ∧ ∃ id action,
    (catalog.keys stmt.current)[keyPos]? = some id ∧ stmt.actions = [action] ∧
      judgeRange (catalog.index stmt.current).vctRange id = some action.rangePos
  ended : stmt.bFinished = true → stmt.actions = [] ∧
    (stmt.stmtFailed = false → (catalog.keys stmt.current).length ≤ keyPos)

structure CreatedSound (stmt : DropStatement) : Prop where
  midVar : stmt.midVar = none
  actions : stmt.actions = []
  bFinished : stmt.bFinished = false
  stmtFailed : stmt.stmtFailed = false
  lstWaitRecord : stmt.lstWaitRecord = []

structure LoggingSound (catalog : Catalog) (stmt : DropStatement) : Prop where
  actions : stmt.actions = []
  stmtFailed : stmt.stmtFailed = false
  lstWaitRecord : stmt.lstWaitRecord = []
  names : ∀ key, key ∈ stmt.touched ↔ catalog.Names key

structure FinishedSound (catalog : Catalog) (stmt : DropStatement) : Prop where
  actions : stmt.actions = []
  deleted : stmt.stmtFailed = false → ∀ key, stmt.Deleted key ↔ catalog.Names key
  rollbacked : stmt.stmtFailed = true → ∀ key ∈ stmt.touched, stmt.recStatus key = .rollbacked

def StatusSound (catalog : Catalog) (stmt : DropStatement) : Prop :=
  match stmt.status with
  | .created => CreatedSound stmt
  | .executing => ∃ keyPos, ScanSound catalog stmt keyPos
  | .logging => LoggingSound catalog stmt
  | .finished => FinishedSound catalog stmt
  | .executed | .logged => False

structure Sound (catalog : Catalog) (stmt : DropStatement) : Prop where
  notCrashed : stmt.crashed = false
  sorted : ∀ midVar, stmt.midVar = some midVar → midVar.vctKeyRange.Pairwise (· < ·)
  lists : ListsSound stmt
  touched : stmt.stmtFailed = false → Touches catalog stmt (stmt.midVar.elim 0 MiddleVar.keyPos)
  status : StatusSound catalog stmt

theorem Sound.created (sound : Sound catalog stmt) (status : stmt.status = .created) :
    CreatedSound stmt := by
  simpa [StatusSound, status] using sound.status

theorem Sound.executing (sound : Sound catalog stmt) (status : stmt.status = .executing) :
    ∃ keyPos, ScanSound catalog stmt keyPos := by
  simpa [StatusSound, status] using sound.status

theorem Sound.logging (sound : Sound catalog stmt) (status : stmt.status = .logging) :
    LoggingSound catalog stmt := by
  simpa [StatusSound, status] using sound.status

theorem Sound.finished (sound : Sound catalog stmt) (status : stmt.status = .finished) :
    FinishedSound catalog stmt := by
  simpa [StatusSound, status] using sound.status

/-! ## The range of a key -/

theorem SysIndex.has_iff (index : SysIndex) {key : ℤ} {pos : ℕ} {range : SysRange}
    (judged : judgeRange index.vctRange key = some pos)
      (found : index.vctRange[pos]? = some range) :
    index.Has key ↔ key ∈ range.keys := by
  constructor
  · rintro ⟨other, otherMem, keyMem⟩
    rcases List.getElem?_of_mem otherMem with ⟨otherPos, otherFound⟩
    have placed := index.placed (other, otherPos)
      (List.mk_mem_zipIdx_iff_getElem?.mpr otherFound) key keyMem
    have same : pos = otherPos := Option.some.inj (judged.symm.trans placed)
    subst same
    rw [found] at otherFound
    exact Option.some.inj otherFound ▸ keyMem
  · intro keyMem
    exact ⟨range, List.mem_of_getElem? found, keyMem⟩

theorem length_of_mapM {α β : Type*} {f : α → Option β} {items : List α} {results : List β}
    (mapped : items.mapM f = some results) : results.length = items.length := by
  induction items generalizing results with
  | nil =>
      cases mapped
      rfl
  | cons item items ih =>
      rw [List.mapM_cons] at mapped
      rcases Option.bind_eq_some_iff.mp mapped with ⟨first, -, rest⟩
      rcases Option.bind_eq_some_iff.mp rest with ⟨others, othersEq, same⟩
      cases same
      rw [List.length_cons, List.length_cons, ih othersEq]

theorem SysIndex.judgeRange_lt (index : SysIndex) {key : ℤ} {pos : ℕ}
    (judged : judgeRange index.vctRange key = some pos) : pos < index.vctRange.length := by
  have positive : 0 < index.vctRange.length := List.length_pos_iff.mpr index.nonempty
  unfold judgeRange at judged
  split at judged
  · cases judged
    exact positive
  · rcases Option.map_eq_some_iff.mp judged with ⟨borders, mapped, rfl⟩
    rw [← length_of_mapM mapped] at positive ⊢
    exact BinarySearch.clamp_lt positive _

theorem SysIndex.Shares.border {index : SysIndex} {key next : ℤ} {pos : ℕ} {range : SysRange}
    (shares : index.Shares key next) (judged : judgeRange index.vctRange key = some pos)
    (found : index.vctRange[pos]? = some range) :
    judgeRange index.vctRange next = some pos ∧
      ∃ border, range.borderRecord = some border ∧ ¬border < next := by
  refine ⟨shares.1.trans judged, ?_⟩
  have bound := shares.2
  rw [judged, Option.bind_some, found, Option.bind_some] at bound
  cases border : range.borderRecord with
  | none =>
      rw [border] at bound
      cases bound
  | some border' =>
      rw [border] at bound
      exact ⟨border', rfl, by simpa using bound⟩

/-! ## The index task -/

theorem Sound.scanning (sound : Sound catalog stmt) {pos : ℕ} {action : StatementAction}
    (found : stmt.actions[pos]? = some action) :
    stmt.status = .executing ∧ pos = 0 ∧ stmt.actions = [action] ∧ stmt.bFinished = false ∧
      stmt.stmtFailed = false ∧ ∃ keyPos id, ScanSound catalog stmt keyPos ∧
        (catalog.keys stmt.current)[keyPos]? = some id ∧
        judgeRange (catalog.index stmt.current).vctRange id = some action.rangePos := by
  have idle : stmt.actions ≠ [] := by
    intro none
    rw [none] at found
    cases found
  cases status : stmt.status with
  | created => exact absurd (sound.created status).actions idle
  | executing =>
      rcases sound.executing status with ⟨keyPos, scan⟩
      cases finished : stmt.bFinished with
      | true => exact absurd (scan.ended finished).1 idle
      | false =>
          rcases scan.goesOn finished with ⟨succeeded, id, only, keyAt, actions, judged⟩
          rw [actions] at found
          rcases List.getElem?_eq_some_iff.mp found with ⟨inside, same⟩
          simp only [List.length_singleton, Nat.lt_one_iff] at inside
          subst inside
          cases same
          exact ⟨rfl, rfl, actions, rfl, succeeded, keyPos, id, scan, keyAt, judged⟩
  | logging => exact absurd (sound.logging status).actions idle
  | finished => exact absurd (sound.finished status).actions idle
  | executed => simpa [StatusSound, status] using sound.status
  | logged => simpa [StatusSound, status] using sound.status

theorem Sound.setAction (sound : Sound catalog stmt) {pos : ℕ} {action : StatementAction}
    (found : stmt.actions[pos]? = some action) (scanning : Bool) :
    Sound catalog
      { stmt with actions := stmt.actions.set pos { action with scanning := scanning } } := by
  rcases sound.scanning found with
    ⟨status, rfl, actions, unfinished, succeeded, keyPos, id, scan, keyAt, judged⟩
  refine { sound with lists := { sound.lists with }, status := ?_ }
  simp only [StatusSound, status]
  refine ⟨keyPos, scan.midVar, scan.shares, fun _ => ⟨succeeded, id,
    { action with scanning := scanning }, keyAt, ?_, judged⟩, fun ended => ?_⟩
  · simp [actions]
  · rw [unfinished] at ended
    cases ended

theorem ListsSound.addLeafRecord (sound : ListsSound stmt) {key : RowKey} {recResult : RecordResult}
    (isNew : key ∉ stmt.touched) (current : key.table = stmt.current) :
    ListsSound (stmt.addLeafRecord key recResult) := by
  have kept : ∀ other ∈ stmt.lstFinishRecord,
      Function.update stmt.recResult key recResult other ≠ .init := by
    intro other mem
    have differ : other ≠ key := by
      rintro rfl
      exact isNew (sound.lists.mem_iff.mp (List.mem_append_right _ mem))
    rw [Function.update_of_ne differ]
    exact sound.results other mem
  have nodup : (stmt.touched ++ [key]).Nodup :=
    List.Nodup.append sound.nodup (List.nodup_singleton key) (by simpa using isNew)
  by_cases init : recResult = .init
  · simp only [DropStatement.addLeafRecord, init, if_true]
    subst init
    refine ⟨?_, nodup, kept, ?_⟩
    · calc stmt.lstWaitRecord ++ [key] ++ stmt.lstFinishRecord
          |>.Perm (stmt.lstWaitRecord ++ stmt.lstFinishRecord ++ [key]) := by
            rw [List.append_assoc, List.append_assoc]
            exact List.Perm.append_left _ List.perm_append_comm
        _ |>.Perm (stmt.touched ++ [key]) := sound.lists.append_right [key]
    · intro second other mem
      rcases List.mem_append.mp mem with mem | mem
      · exact sound.waiting second other mem
      · rw [List.mem_singleton.mp mem, current]
        have second' : stmt.bDropingTable = false := second
        simp [DropStatement.current, second']
  · simp only [DropStatement.addLeafRecord, init, if_false]
    refine ⟨?_, nodup, ?_, sound.waiting⟩
    · rw [← List.append_assoc]
      exact sound.lists.append_right [key]
    · intro other mem
      rcases List.mem_append.mp mem with mem | mem
      · exact kept other mem
      · rw [List.mem_singleton.mp mem]
        simpa using init

theorem addLeafRecord_eq (stmt : DropStatement) (key : RowKey) (recResult : RecordResult) :
    ∃ lstWaitRecord lstFinishRecord, stmt.addLeafRecord key recResult = { stmt with
      touched := stmt.touched ++ [key]
      lstWaitRecord := lstWaitRecord
      lstFinishRecord := lstFinishRecord
      recResult := Function.update stmt.recResult key recResult } := by
  unfold DropStatement.addLeafRecord
  split <;> exact ⟨_, _, rfl⟩

theorem endKeyRange_eq {keyPos : ℕ} {id : ℤ} {action : StatementAction} {range : SysRange}
    (actions : stmt.actions = [action])
    (shares : (catalog.keys stmt.current).Pairwise (catalog.index stmt.current).Shares)
    (keyAt : (catalog.keys stmt.current)[keyPos]? = some id)
    (judged : judgeRange (catalog.index stmt.current).vctRange id = some action.rangePos)
    (found : (catalog.index stmt.current).vctRange[action.rangePos]? = some range) :
    let midVar : MiddleVar := ⟨stmt.current, catalog.keys stmt.current, keyPos⟩
    let state := { stmt with midVar := some { midVar with keyPos := keyPos + 1 } }
    ((catalog.keys stmt.current).length ≤ keyPos + 1 ∧
        stmt.endKeyRange catalog midVar 0 range = { state with bFinished := true, actions := [] }) ∨
      ∃ next, (catalog.keys stmt.current)[keyPos + 1]? = some next ∧
        judgeRange (catalog.index stmt.current).vctRange next = some action.rangePos ∧
        stmt.endKeyRange catalog midVar 0 range = state := by
  intro midVar state
  cases nextAt : (catalog.keys stmt.current)[keyPos + 1]? with
  | none =>
      left
      refine ⟨List.getElem?_eq_none_iff.mp nextAt, ?_⟩
      simp [DropStatement.endKeyRange, midVar, state, nextAt, actions]
  | some next =>
      right
      rcases List.getElem?_eq_some_iff.mp keyAt with ⟨inside, keyEq⟩
      rcases List.getElem?_eq_some_iff.mp nextAt with ⟨nextInside, nextEq⟩
      have sharesNext : (catalog.index stmt.current).Shares id next := by
        rw [← keyEq, ← nextEq]
        exact List.pairwise_iff_getElem.mp shares keyPos (keyPos + 1) inside nextInside
          (Nat.lt_succ_self keyPos)
      rcases sharesNext.border judged found with ⟨judgedNext, border, borderEq, notBehind⟩
      refine ⟨next, rfl, judgedNext, ?_⟩
      simp [DropStatement.endKeyRange, midVar, state, nextAt, borderEq, notBehind]

theorem mem_scanned_succ {keyPos : ℕ} {id other : ℤ} {table : SysTable}
    (keyAt : (catalog.keys stmt.current)[keyPos]? = some id) :
    other ∈ catalog.scanned stmt.bDropingTable (keyPos + 1) table ↔
      other ∈ catalog.scanned stmt.bDropingTable keyPos table ∨
        table = stmt.current ∧ other = id := by
  unfold DropStatement.current at keyAt ⊢
  cases table <;> cases dropping : stmt.bDropingTable <;> rw [dropping] at keyAt <;>
    simp_all [Catalog.scanned, List.take_add_one]

/-- The scan has come to the end of a key range, and its row, if there is one, has a record. -/
theorem sound_endKeyRange {keyPos : ℕ} {id : ℤ} {action : StatementAction} {range : SysRange}
    (lists : ListsSound stmt) (notCrashed : stmt.crashed = false)
    (status : stmt.status = .executing)
    (sorted : ∀ midVar, stmt.midVar = some midVar → midVar.vctKeyRange.Pairwise (· < ·))
    (scan : ScanSound catalog stmt keyPos)
    (unfinished : stmt.bFinished = false) (actions : stmt.actions = [action])
    (keyAt : (catalog.keys stmt.current)[keyPos]? = some id)
    (judged : judgeRange (catalog.index stmt.current).vctRange id = some action.rangePos)
    (found : (catalog.index stmt.current).vctRange[action.rangePos]? = some range)
    (touched : Touches catalog stmt (keyPos + 1)) :
    Sound catalog (stmt.endKeyRange catalog ⟨stmt.current, catalog.keys stmt.current, keyPos⟩ 0
      range) := by
  have ordered := sorted _ scan.midVar
  have succeeded := (scan.goesOn unfinished).1
  rcases endKeyRange_eq actions scan.shares keyAt judged found with
    ⟨atEnd, result⟩ | ⟨next, nextAt, judgedNext, result⟩
  · rw [result]
    refine ⟨notCrashed, ?_, { lists with },
      fun _ => touched, ?_⟩
    · rintro midVar same
      cases same
      exact ordered
    · simp only [StatusSound, status]
      exact ⟨keyPos + 1, rfl, scan.shares, nofun, fun _ => ⟨rfl, fun _ => atEnd⟩⟩
  · rw [result]
    refine ⟨notCrashed, ?_, { lists with },
      fun _ => touched, ?_⟩
    · rintro midVar same
      cases same
      exact ordered
    · simp only [StatusSound, status]
      refine ⟨keyPos + 1, rfl, scan.shares,
        fun _ => ⟨succeeded, next, action, nextAt, actions, judgedNext⟩, fun ended => ?_⟩
      have ended' : stmt.bFinished = true := ended
      rw [unfinished] at ended'
      cases ended'

theorem Sound.handleLeafRecord (sound : Sound catalog stmt) {keyPos : ℕ} {id : ℤ}
    {action : StatementAction} {range : SysRange} {recResult : RecordResult}
    (status : stmt.status = .executing) (scan : ScanSound catalog stmt keyPos)
    (unfinished : stmt.bFinished = false) (actions : stmt.actions = [action])
    (keyAt : (catalog.keys stmt.current)[keyPos]? = some id)
    (judged : judgeRange (catalog.index stmt.current).vctRange id = some action.rangePos)
    (found : (catalog.index stmt.current).vctRange[action.rangePos]? = some range)
    (here : id ∈ range.keys)
    (step : stmt.handleLeafRecord catalog ⟨stmt.current, catalog.keys stmt.current, keyPos⟩ 0 range
      ⟨stmt.current, id⟩ recResult = some stmt') : Sound catalog stmt' := by
  rw [DropStatement.handleLeafRecord] at step
  split at step
  · cases step
    refine ⟨sound.notCrashed, sound.sorted, { sound.lists with }, nofun, ?_⟩
    simp only [StatusSound, status]
    exact ⟨keyPos, scan.midVar, scan.shares, nofun, fun _ => ⟨by simp [actions], nofun⟩⟩
  · rename_i free
    rcases Option.ite_none_left_eq_some.mp step with ⟨-, ⟨⟩⟩
    have isNew : (⟨stmt.current, id⟩ : RowKey) ∉ stmt.touched := fun mem => free (Or.inr mem)
    have lists := @ListsSound.addLeafRecord _ sound.lists _ recResult isNew rfl
    have succeeded := (scan.goesOn unfinished).1
    have before := sound.touched succeeded
    rw [scan.midVar] at before
    have touched : ∀ key, key ∈ stmt.touched ++ [⟨stmt.current, id⟩] ↔
        key.id ∈ catalog.scanned stmt.bDropingTable (keyPos + 1) key.table ∧
          (catalog.index key.table).Has key.id := by
      intro key
      rw [List.mem_append, List.mem_singleton, mem_scanned_succ keyAt, before key]
      constructor
      · rintro (⟨scanned, has⟩ | rfl)
        · exact ⟨Or.inl scanned, has⟩
        · exact ⟨Or.inr ⟨rfl, rfl⟩, ((catalog.index stmt.current).has_iff judged found).mpr here⟩
      · rintro ⟨scanned | ⟨table, same⟩, has⟩
        · exact Or.inl ⟨scanned, has⟩
        · exact Or.inr (by cases key; simp_all)
    rcases addLeafRecord_eq stmt ⟨stmt.current, id⟩ recResult with ⟨_, _, made⟩
    rw [made] at lists ⊢
    exact sound_endKeyRange lists sound.notCrashed status sound.sorted
      { scan with } unfinished actions keyAt judged found
      touched

theorem Sound.scanTurn (sound : Sound catalog stmt) {pos : ℕ} {recResult : RecordResult}
    (step : stmt.scanTurn catalog pos recResult = some stmt') : Sound catalog stmt' := by
  rcases Option.bind_eq_some_iff.mp step with ⟨action, found, step⟩
  rcases sound.scanning found with
    ⟨status, rfl, actions, unfinished, succeeded, keyPos, id, scan, keyAt, judged⟩
  rcases Option.ite_none_left_eq_some.mp step with ⟨-, step⟩
  simp only [scan.midVar, keyAt] at step
  have inRange : ∃ range, (catalog.index stmt.current).vctRange[action.rangePos]? = some range :=
    ⟨_, List.getElem?_eq_getElem ((catalog.index stmt.current).judgeRange_lt judged)⟩
  rcases inRange with ⟨range, inRange⟩
  simp only [inRange] at step
  split at step
  · rename_i here
    exact sound.handleLeafRecord status scan unfinished actions keyAt judged inRange here step
  · rename_i notHere
    cases step
    apply sound_endKeyRange sound.lists sound.notCrashed status sound.sorted scan unfinished
      actions keyAt judged inRange
    have before := sound.touched succeeded
    rw [scan.midVar] at before
    intro key
    rw [mem_scanned_succ keyAt, before key]
    constructor
    · exact fun ⟨scanned, has⟩ => ⟨Or.inl scanned, has⟩
    · rintro ⟨scanned | ⟨table, same⟩, has⟩
      · exact ⟨scanned, has⟩
      · rw [table, same, (catalog.index stmt.current).has_iff judged inRange] at has
        exact absurd has notHere

/-! ## The session -/

theorem Sound.startScan (sound : Sound catalog stmt) (status : stmt.status = .created)
    (sorted : (catalog.keys stmt.current).Pairwise fun key next =>
      key < next ∧ (catalog.index stmt.current).Shares key next)
    (step : stmt.startScan catalog stmt.current = some stmt') : Sound catalog stmt' := by
  have created := sound.created status
  rcases Option.bind_eq_some_iff.mp step with ⟨first, firstEq, step⟩
  rcases Option.bind_eq_some_iff.mp step with ⟨rangePos, judged, step⟩
  cases step
  have touched := sound.touched created.stmtFailed
  rw [created.midVar] at touched
  refine ⟨sound.notCrashed, ?_, { sound.lists with }, fun _ => touched, ?_⟩
  · rintro midVar same
    cases same
    exact sorted.imp fun both => both.1
  · refine ⟨0, rfl, sorted.imp fun both => both.2, fun _ => ⟨created.stmtFailed, first,
      { rangePos := rangePos }, ?_, ?_, judged⟩, fun ended => ?_⟩
    · rw [← List.head?_eq_getElem?]
      exact firstEq
    · simp [created.actions]
    · have ended' : stmt.bFinished = true := ended
      rw [created.bFinished] at ended'
      cases ended'

theorem Sound.secondPhase (sound : Sound catalog stmt) (status : stmt.status = .created)
    (done : stmt.bDropingTable = true → catalog.keys .sysTables = []) :
    Sound catalog { stmt with bDropingTable := false } := by
  have created := sound.created status
  have touched := sound.touched created.stmtFailed
  rw [created.midVar] at touched
  refine ⟨sound.notCrashed, sound.sorted, { sound.lists with waiting := fun _ => ?_ },
    fun _ => ?_, ?_⟩
  · simp [created.lstWaitRecord]
  · intro key
    simp only [created.midVar, Option.elim_none]
    rw [touched key]
    rcases key with ⟨table, id⟩
    cases dropping : stmt.bDropingTable <;> cases table <;>
      simp [Catalog.scanned, done, dropping]
  · simp only [StatusSound, status]
    exact { created with }

theorem Sound.execCreated (sound : Sound catalog stmt) (status : stmt.status = .created)
    (regular : (catalog.keys .sysTables).Pairwise fun key next =>
      key < next ∧ (catalog.index .sysTables).Shares key next)
    (step : stmt.execCreated catalog = some stmt') : Sound catalog stmt' := by
  have created := sound.created status
  have touched := sound.touched created.stmtFailed
  rw [DropStatement.execCreated] at step
  cases found : catalog.dbDel with
  | none =>
      simp only [found] at step
      cases step
      have noKeys (table : SysTable) : catalog.keys table = [] := by simp [Catalog.keys, found]
      have none : ∀ key, key ∉ stmt.touched := by
        intro key mem
        have scanned := ((touched key).mp mem).1
        rcases key with ⟨table, id⟩
        cases table <;> simp [Catalog.scanned, noKeys] at scanned
      refine ⟨sound.notCrashed, sound.sorted, { sound.lists with }, fun _ => touched, ?_⟩
      refine ⟨created.actions, fun _ key => ?_, fun _ key mem => absurd mem (none key)⟩
      simp [DropStatement.Deleted, none, Catalog.Names, noKeys]
  | some dbDel =>
      simp only [found] at step
      split at step
      · rename_i first
        have current : stmt.current = .sysTables := if_pos first.1
        exact sound.startScan status (by rw [current]; exact regular) (by rw [current]; exact step)
      · rename_i notFirst
        have second : Sound catalog { stmt with bDropingTable := false } := by
          apply sound.secondPhase status
          intro dropping
          have noTables : dbDel.tables = [] := by
            by_contra some
            exact notFirst ⟨dropping, some⟩
          simp [Catalog.keys, found, noTables]
        apply second.startScan status _ step
        simp [DropStatement.current, Catalog.keys, found]

theorem ScanSound.touches_end {keyPos : ℕ} (scan : ScanSound catalog stmt keyPos)
    (finished : stmt.bFinished = true) (succeeded : stmt.stmtFailed = false)
    (touched : Touches catalog stmt (stmt.midVar.elim 0 MiddleVar.keyPos)) (key : RowKey) :
    key ∈ stmt.touched ↔ (stmt.bDropingTable = true → key.table = .sysTables) ∧
      catalog.Names key := by
  have atEnd := (scan.ended finished).2 succeeded
  rw [scan.midVar] at touched
  rw [touched key]
  rcases key with ⟨table, id⟩
  unfold DropStatement.current at atEnd
  cases dropping : stmt.bDropingTable <;> rw [dropping] at atEnd <;> cases table <;>
    simp_all [Catalog.scanned, Catalog.Names, List.take_of_length_le]

theorem deleted_mark {recStatus : RecordStatus} (lists : ListsSound stmt)
    (noneWaits : stmt.lstWaitRecord = []) (key : RowKey) (mem : key ∈ stmt.touched) :
    (stmt.mark recStatus).recStatus key = recStatus := by
  have moved : key ∈ stmt.lstFinishRecord := by
    simpa [noneWaits] using lists.lists.mem_iff.mpr mem
  exact if_pos moved

theorem Sound.markRollbacked (sound : Sound catalog stmt) (failed : stmt.stmtFailed = true)
    (actions : stmt.actions = []) (noneWaits : stmt.lstWaitRecord = []) :
    Sound catalog (stmt.mark .rollbacked) := by
  refine { sound with lists := { sound.lists with }, status := ?_ }
  refine ⟨actions, fun succeeded => ?_, fun _ => deleted_mark sound.lists noneWaits⟩
  have succeeded' : stmt.stmtFailed = false := succeeded
  rw [failed] at succeeded'
  cases succeeded'

theorem Sound.settle (sound : Sound catalog stmt) (status : stmt.status = .executing)
    (second : stmt.bDropingTable = false) (finished : stmt.bFinished = true)
    (noneWaits : stmt.lstWaitRecord = []) : Sound catalog stmt.settle := by
  rcases sound.executing status with ⟨keyPos, scan⟩
  rw [DropStatement.settle]
  split
  · rename_i failed
    exact sound.markRollbacked failed (scan.ended finished).1 noneWaits
  · rename_i succeeded
    rw [Bool.not_eq_true] at succeeded
    refine { sound with lists := { sound.lists with }, status := ?_ }
    refine ⟨(scan.ended finished).1, succeeded, noneWaits, fun key => ?_⟩
    have touches := scan.touches_end finished succeeded (sound.touched succeeded) key
    simpa [second] using touches

theorem Sound.moveRecord (sound : Sound catalog stmt) (status : stmt.status = .executing)
    (finished : stmt.bFinished = true) {key : RowKey} (waits : stmt.lstWaitRecord = [key])
    (result : stmt.recResult key ≠ .init) : Sound catalog (stmt.moveRecords [] [key]) := by
  rcases sound.executing status with ⟨keyPos, scan⟩
  have earlier : (stmt.moveRecords [] [key]).stmtFailed = false → stmt.stmtFailed = false := by
    intro succeeded
    exact (Bool.or_eq_false_iff.mp succeeded).1
  refine ⟨sound.notCrashed, sound.sorted, ⟨?_, sound.lists.nodup, ?_, fun _ => nofun⟩,
    fun succeeded => sound.touched (earlier succeeded), ?_⟩
  · have lists := sound.lists.lists
    rw [waits] at lists
    have appended : (stmt.lstFinishRecord ++ [key]).Perm stmt.touched :=
      List.perm_append_comm.trans lists
    exact appended
  · intro other mem
    rcases List.mem_append.mp mem with mem | mem
    · exact sound.lists.results other mem
    · rw [List.mem_singleton.mp mem]
      exact result
  · have status' : (stmt.moveRecords [] [key]).status = .executing := status
    simp only [StatusSound, status']
    refine ⟨keyPos, scan.midVar, scan.shares, fun unfinished => ?_, fun _ =>
      ⟨(scan.ended finished).1, fun succeeded => (scan.ended finished).2 (earlier succeeded)⟩⟩
    have unfinished' : stmt.bFinished = false := unfinished
    rw [finished] at unfinished'
    cases unfinished'

theorem Sound.firstPhase (sound : Sound catalog stmt) (status : stmt.status = .executing)
    (first : stmt.bDropingTable = true) (finished : stmt.bFinished = true)
    (noneWaits : stmt.lstWaitRecord = []) :
    Sound catalog (if stmt.stmtFailed then { stmt with bDropingTable := false }.mark .rollbacked
      else { stmt with
        bDropingTable := false, midVar := none, bFinished := false, status := .created }) := by
  rcases sound.executing status with ⟨keyPos, scan⟩
  have waiting : ∀ key ∈ stmt.lstWaitRecord, key.table = .sysDbs := by simp [noneWaits]
  split
  · rename_i failed
    have marked := sound.markRollbacked failed (scan.ended finished).1 noneWaits
    refine ⟨marked.notCrashed, marked.sorted, { marked.lists with waiting := fun _ => waiting },
      fun succeeded => ?_, ?_⟩
    · have succeeded' : stmt.stmtFailed = false := succeeded
      rw [failed] at succeeded'
      cases succeeded'
    · exact ⟨(marked.finished rfl).actions, (marked.finished rfl).deleted,
        (marked.finished rfl).rollbacked⟩
  · rename_i succeeded
    rw [Bool.not_eq_true] at succeeded
    refine ⟨sound.notCrashed, by rintro _ ⟨⟩, { sound.lists with waiting := fun _ => waiting },
      fun _ key => ?_, ?_⟩
    · have touches := scan.touches_end finished succeeded (sound.touched succeeded) key
      rw [first] at touches
      rcases key with ⟨table, id⟩
      cases table <;> simpa [Catalog.scanned, Catalog.Names] using touches
    · exact ⟨rfl, (scan.ended finished).1, rfl, succeeded, noneWaits⟩

theorem moveRecords_nil (stmt : DropStatement) : stmt.moveRecords stmt.lstWaitRecord [] = stmt := by
  simp [DropStatement.moveRecords]

theorem Sound.execExecuting (sound : Sound catalog stmt) (status : stmt.status = .executing)
    (regular : stmt.bDropingTable = true → stmt.bFinished = true →
      ∀ key ∈ stmt.lstWaitRecord.head?, stmt.recResult key = .init)
    (step : stmt.execExecuting = some stmt') : Sound catalog stmt' := by
  rw [DropStatement.execExecuting] at step
  cases finished : stmt.bFinished with
  | false =>
      rw [if_pos finished] at step
      cases step
      exact sound
  | true =>
      rw [if_neg (by simp [finished])] at step
      cases dropping : stmt.bDropingTable with
      | true =>
          rw [if_pos dropping] at step
          cases waits : stmt.lstWaitRecord with
          | nil =>
              have same := moveRecords_nil stmt
              rw [waits] at same
              simp only [waits, waitLoop, same] at step
              have left := sound.firstPhase status dropping finished waits
              split at step
              · cases step
                simpa [*] using left
              · cases step
                simpa [*] using left
          | cons key rest =>
              -- the loop stops at the first record
              have init := regular dropping finished key (by simp [waits])
              have loop : waitLoop stmt.recResult [] [] (key :: rest) = .waits
                (key :: rest) [] := by
                cases rest <;> simp [waitLoop, init]
              have same := moveRecords_nil stmt
              rw [waits] at same
              simp only [waits, loop, same] at step
              cases step
              exact sound
      | false =>
          rw [if_neg (by simp [dropping])] at step
          match waits : stmt.lstWaitRecord with
          | [] =>
              simp only [waits] at step
              cases step
              exact sound.settle status dropping finished waits
          | [key] =>
              simp only [waits] at step
              split at step
              · cases step
                exact sound
              · rename_i result
                cases step
                exact (sound.moveRecord status finished waits result).settle status dropping
                  finished rfl
          | _ :: _ :: _ =>
              simp only [waits] at step
              cases step

theorem Sound.sessionExec (sound : Sound catalog stmt) (regular : Regular catalog stmt .sessionExec)
    (step : stmt.sessionExec catalog = some stmt') : Sound catalog stmt' := by
  rw [DropStatement.sessionExec] at step
  cases status : stmt.status with
  | created =>
      simp only [status] at step
      exact sound.execCreated status (regular.1 status) step
  | executing =>
      simp only [status] at step
      exact sound.execExecuting status (regular.2 status) step
  | logging =>
      simp only [status] at step
      have logging := sound.logging status
      cases step
      split
      · refine { sound with lists := { sound.lists with }, status := ?_ }
        refine ⟨logging.actions, fun _ key => ?_, fun failed => ?_⟩
        · rw [← logging.names key]
          constructor
          · exact fun deleted => deleted.1
          · exact fun mem => ⟨mem, deleted_mark sound.lists logging.lstWaitRecord key mem⟩
        · have failed' : stmt.stmtFailed = true := failed
          rw [logging.stmtFailed] at failed'
          cases failed'
      · exact sound
  | executed | logged | finished =>
      simp only [status] at step
      cases step

/-! ## Runs -/

theorem sound_new (catalog : Catalog) : Sound catalog {} := by
  refine ⟨rfl, by rintro _ ⟨⟩, ⟨List.Perm.refl _, List.nodup_nil, by simp, by simp⟩, ?_,
    ⟨rfl, rfl, rfl, rfl, rfl⟩⟩
  rintro - ⟨table, id⟩
  cases table <;> simp [Catalog.scanned]

theorem Sound.setResult (sound : Sound catalog stmt) {key : RowKey} {recResult : RecordResult}
    (isResult : recResult ≠ .init) :
    Sound catalog { stmt with recResult := Function.update stmt.recResult key recResult } := by
  refine { sound with
    lists := ⟨sound.lists.lists, sound.lists.nodup, ?_, sound.lists.waiting⟩, status := ?_ }
  · intro other mem
    by_cases same : other = key
    · simpa [same] using isResult
    · simpa [Function.update_of_ne same] using sound.lists.results other mem
  · have status := sound.status
    unfold StatusSound at status ⊢
    cases kind : stmt.status with
    | created =>
        rw [kind] at status
        exact { status with }
    | executing =>
        rw [kind] at status
        rcases status with ⟨keyPos, scan⟩
        exact ⟨keyPos, scan.midVar, scan.shares, scan.goesOn, scan.ended⟩
    | logging =>
        rw [kind] at status
        exact { status with }
    | finished =>
        rw [kind] at status
        exact { status with }
    | executed | logged =>
        rw [kind] at status
        exact status

theorem sound_next (sound : Sound catalog stmt) {event : DropEvent}
    (regular : Regular catalog stmt event) (step : next catalog stmt event = some stmt') :
    Sound catalog stmt' := by
  unfold next at step
  rw [if_neg (by simp [sound.notCrashed])] at step
  cases event with
  | sessionExec => exact sound.sessionExec regular step
  | enter pos =>
      rcases Option.bind_eq_some_iff.mp step with ⟨action, found, step⟩
      have succeeded := (sound.scanning found).2.2.2.2.1
      rw [if_neg (by simp [succeeded])] at step
      cases step
      exact sound.setAction found true
  | scanTurn pos recResult => exact sound.scanTurn step
  | interval pos =>
      rcases Option.bind_eq_some_iff.mp step with ⟨action, found, step⟩
      cases step
      exact sound.setAction found false
  | setResult key recResult =>
      simp only at step
      rcases Option.ite_none_right_eq_some.mp step with ⟨waits, ⟨⟩⟩
      exact sound.setResult waits.2.2
  | logged =>
      simp only at step
      rcases Option.ite_none_right_eq_some.mp step with ⟨logging, ⟨⟩⟩
      have held := sound.logging logging
      refine { sound with lists := { sound.lists with }, status := ?_ }
      simp only [StatusSound, logging]
      exact { held with }

theorem Sound.drops (sound : Sound catalog stmt) : Drops catalog stmt := by
  refine ⟨sound.notCrashed, sound.sorted, ?_, fun finished => (sound.finished finished).deleted,
    fun finished => (sound.finished finished).rollbacked⟩
  intro second key mem table
  have notWaiting : key ∉ stmt.lstWaitRecord := by
    intro waits
    rw [sound.lists.waiting second key waits] at table
    cases table
  have both : key ∈ stmt.lstWaitRecord ++ stmt.lstFinishRecord := sound.lists.lists.mem_iff.mpr mem
  have moved := (List.mem_append.mp both).resolve_left notWaiting
  refine ⟨sound.lists.results key moved, ?_⟩
  have once := sound.lists.lists.count_eq key
  rw [List.count_append, List.count_eq_zero_of_not_mem notWaiting,
    List.count_eq_one_of_mem sound.lists.nodup mem] at once
  omega

theorem drops_of_regular (catalog : Catalog) (stmt : DropStatement)
    (run : Reaches (next catalog) (Regular catalog) {} stmt) : Drops catalog stmt := by
  have sound : Sound catalog stmt := run.preserves (sound_new catalog)
    fun _ _ _ regular sound step => sound_next sound regular step
  exact sound.drops

/-- `rapid.sys_tables` in two ranges. -/
def dividedIndex : SysIndex where
  vctRange := [⟨some 1000, [256, 512, 768]⟩, ⟨some 5000, [2000]⟩]
  nonempty := by simp
  placed := by decide

def wholeIndex (keys : List ℤ) : SysIndex where
  vctRange := [⟨none, keys⟩]
  nonempty := by simp
  placed := by simp [judgeRange]

/-- A database with the tables `a` and `b`. -/
def twoTables (first second : BitVec 32) (index : SysIndex) : Catalog where
  ifExist := false
  dbDel := some { id := 7, tables := [⟨[97], first⟩, ⟨[98], second⟩], listed := by simp; decide }
  index := fun table =>
    match table with
    | .sysTables => index
    | .sysDbs => wholeIndex [3, 7]
  locked := fun _ => false

/-- Two tables are dropped. -/
theorem drops_of_regular_twoTables : ∃ stmt,
    Reaches (next (twoTables 256 512 dividedIndex)) (Regular (twoTables 256 512 dividedIndex)) {}
        stmt ∧
      stmt.status = .finished ∧ stmt.stmtFailed = false ∧
      stmt.touched = [⟨.sysTables, 256⟩, ⟨.sysTables, 512⟩, ⟨.sysDbs, 7⟩] ∧
      Drops (twoTables 256 512 dividedIndex) stmt := by
  let events : List DropEvent :=
    [.sessionExec, .enter 0, .scanTurn 0 .inPage, .scanTurn 0 .inPage, .sessionExec, .sessionExec,
      .enter 0, .scanTurn 0 .init, .sessionExec, .setResult ⟨.sysDbs, 7⟩ .inPage, .sessionExec,
      .logged, .sessionExec]
  have executed : (execPermitted (next (twoTables 256 512 dividedIndex))
      (Regular (twoTables 256 512 dividedIndex)) events {}).map (fun stmt =>
        (stmt.status, stmt.stmtFailed, stmt.touched)) = some (.finished, false,
          [⟨.sysTables, 256⟩, ⟨.sysTables, 512⟩, ⟨.sysDbs, 7⟩]) := by
    decide +kernel
  rcases Option.map_eq_some_iff.mp executed with ⟨stmt, run, same⟩
  have reached := reaches_of_execPermitted events run
  rcases Prod.mk.inj same with ⟨finished, rest⟩
  rcases Prod.mk.inj rest with ⟨succeeded, touched⟩
  exact ⟨stmt, reached, finished, succeeded, touched, drops_of_regular _ stmt reached⟩

/-- The row of a table with the smaller number and the greater name is missed; the scan of two
tables in an index that is not divided has no border; the loop of the session skips a waiting
record. -/
theorem not_drops_twoTables :
    (¬∀ stmt, Reaches (next (twoTables 2000 256 dividedIndex)) anyInput {} stmt →
      Drops (twoTables 2000 256 dividedIndex) stmt) ∧
    (¬∀ stmt, Reaches (next (twoTables 256 512 (wholeIndex [256, 512]))) anyInput {} stmt →
      Drops (twoTables 256 512 (wholeIndex [256, 512])) stmt) ∧
    ¬∀ stmt, Reaches (next (twoTables 256 512 dividedIndex)) anyInput {} stmt →
      Drops (twoTables 256 512 dividedIndex) stmt := by
  refine ⟨fun always => ?_, fun always => ?_, fun always => ?_⟩
  · have executed : (exec (next (twoTables 2000 256 dividedIndex)) [.sessionExec, .enter 0,
        .scanTurn 0 .inPage, .scanTurn 0 .inPage, .sessionExec, .sessionExec, .enter 0,
        .scanTurn 0 .inPage, .sessionExec, .logged, .sessionExec] {}).map (fun stmt =>
          (stmt.status, stmt.stmtFailed, stmt.touched)) = some (.finished, false,
            [⟨.sysTables, 2000⟩, ⟨.sysDbs, 7⟩]) := by
      decide +kernel
    rcases Option.map_eq_some_iff.mp executed with ⟨stmt, run, same⟩
    rcases Prod.mk.inj same with ⟨finished, rest⟩
    rcases Prod.mk.inj rest with ⟨succeeded, touched⟩
    have drops := always stmt (reaches_of_exec _ run)
    have names : (twoTables 2000 256 dividedIndex).Names ⟨.sysTables, 256⟩ :=
      ⟨by decide, _, List.mem_cons_self, by decide⟩
    have missed := ((drops.deleted finished succeeded _).mpr names).1
    rw [touched] at missed
    revert missed
    decide
  · have executed :
      (exec (next (twoTables 256 512 (wholeIndex [256, 512]))) [.sessionExec, .enter 0,
        .scanTurn 0 .inPage] {}).map DropStatement.crashed = some true := by
      decide +kernel
    rcases Option.map_eq_some_iff.mp executed with ⟨stmt, run, crashed⟩
    have drops := always stmt (reaches_of_exec _ run)
    rw [drops.notCrashed] at crashed
    cases crashed
  · have executed : (exec (next (twoTables 256 512 dividedIndex)) [.sessionExec, .enter 0,
        .scanTurn 0 .init, .scanTurn 0 .init, .setResult ⟨.sysTables, 256⟩ .inPage,
        .sessionExec] {}).map (fun stmt => (stmt.bDropingTable, stmt.touched,
          stmt.recResult ⟨.sysTables, 512⟩)) = some (false,
            [⟨.sysTables, 256⟩, ⟨.sysTables, 512⟩], .init) := by
      decide +kernel
    rcases Option.map_eq_some_iff.mp executed with ⟨stmt, run, same⟩
    rcases Prod.mk.inj same with ⟨second, rest⟩
    rcases Prod.mk.inj rest with ⟨touched, init⟩
    have drops := always stmt (reaches_of_exec _ run)
    exact (drops.left second ⟨.sysTables, 512⟩ (by rw [touched]; decide) rfl).1 init

end DropDatabase

end RapidDb
