import Mathlib.Data.List.Basic
import Mathlib.Tactic.Common
import RapidDb.Serv.CleanerLoops

/-!
# Cached expressions bind what a fresh parse binds

What an expression in one of the maps has found, preparing its text again finds as well: under a
current database of the same name, as long as the table is not dropped. A statement that takes an
expression for the text and the database it was prepared for therefore gets what it would get
without the maps.
-/

namespace RapidDb

open Transition

namespace ExprCache

variable {V : Type} {parse : String → Option (List (SqlStmt V))} {fuel : ℕ}

theorem run_bind_eq {β γ : Type} {first : Outcome β} {second : β → Outcome γ} {value : γ} :
    (first >>= second).run = .ok (some value) ↔
      ∃ middle, first.run = .ok (some middle) ∧ (second middle).run = .ok (some value) := by
  rw [OptionT.run_bind]
  cases ran : first.run with
  | error stop => simp [Option.elimM, bind, Except.bind]
  | ok result =>
      cases result with
      | none => simp [Option.elimM, bind, Except.bind, pure, Except.pure]
      | some middle => simp [Option.elimM, bind, Except.bind]

theorem run_orError_eq {β : Type} {value : Option β} {result : β} :
    (orError value).run = .ok (some result) ↔ value = some result := by
  simp [orError, pure, Except.pure]

theorem run_pure_eq {β : Type} {value result : β} :
    (pure value : Outcome β).run = .ok (some result) ↔ value = result := by
  rw [OptionT.run_pure]
  simp [pure, Except.pure]

/-- The database a table is looked for in. -/
def ExprTable.inDb (exprTable : ExprTable) (currDbName : Option String) : Option String :=
  exprTable.dbName.or currDbName

theorem run_exprTable {managers : Managers} {currDb : Option (ℕ × String)} {exprTable : ExprTable}
    {db t : ℕ} : (exprTable.preprocess managers currDb).run = .ok (some (db, t)) ↔
      ∃ dbName, exprTable.inDb (currDb.map Prod.snd) = some dbName ∧
        managers.findTable dbName exprTable.tName = some t ∧
        (match exprTable.dbName with
          | none => currDb = some (db, dbName)
          | some dbName => managers.findDb dbName = some db) := by
  unfold ExprTable.preprocess ExprTable.inDb
  cases named : exprTable.dbName with
  | none =>
      cases currDb with
      | none =>
          simp only [run_bind_eq, run_orError_eq, Option.map_none, Option.or_none]
          simp
      | some current =>
          rcases current with ⟨currDb, dbName⟩
          simp only [run_bind_eq, run_orError_eq, run_pure_eq, Prod.mk.injEq, Option.some.injEq,
            Option.map_some, Option.none_or]
          constructor
          · rintro ⟨_, rfl, physTable, found, rfl, rfl⟩
            exact ⟨dbName, rfl, found, rfl, rfl⟩
          · rintro ⟨_, rfl, found, rfl, -⟩
            exact ⟨_, rfl, t, found, rfl, rfl⟩
  | some dbName =>
      simp only [run_bind_eq, run_orError_eq, run_pure_eq, Prod.mk.injEq, Option.some_or,
        Option.some.injEq]
      constructor
      · rintro ⟨db', foundDb, t', found, rfl, rfl⟩
        exact ⟨dbName, rfl, found, foundDb⟩
      · rintro ⟨_, rfl, found, foundDb⟩
        exact ⟨db, foundDb, t, found, rfl, rfl⟩

theorem run_prepareRows {managers : Managers} {currDb : Option (ℕ × String)} {exprTable : ExprTable}
    {stmt : SqlStmt V} {bound : Bound V} :
    (prepareRows fuel managers currDb exprTable stmt).run = .ok (some bound) ↔
      ∃ db t table filled, (exprTable.preprocess managers currDb).run = .ok (some (db, t)) ∧
        managers.table t = some table ∧ (stmt.fillColumns fuel table).run = .ok (some filled) ∧
        bound = { filled with physTable := some t, db := some db } := by
  simp only [prepareRows, run_bind_eq, run_orError_eq, run_pure_eq]
  constructor
  · rintro ⟨⟨db, t⟩, found, table, isTable, filled, fills, rfl⟩
    exact ⟨db, t, table, filled, found, isTable, fills, rfl⟩
  · rintro ⟨db, t, table, filled, found, isTable, fills, rfl⟩
    exact ⟨(db, t), found, table, isTable, filled, fills, rfl⟩

namespace SqlStmt

theorem preprocess_of_exprTable {stmt : SqlStmt V} {exprTable : ExprTable}
    (rows : stmt.exprTable = some exprTable) (managers : Managers) (currDb : Option (ℕ × String)) :
    stmt.preprocess fuel managers currDb = prepareRows fuel managers currDb exprTable stmt := by
  cases stmt with
  | insert | update | delete =>
      cases rows
      rfl
  | select vctTable =>
      rcases vctTable with _ | ⟨_ | ⟨exprTable', _ | _⟩⟩ <;> cases rows
      rfl
  | trunTable | showTables | createDatabase | dropDatabase | createTable | dropTable | useDatabase
  | showDatabases | transaction => cases rows

/-- The other cached statements depend on the name of the current database only. -/
theorem preprocess_of_no_rows {stmt : SqlStmt V} (noRows : stmt.exprTable = none)
    (cached : stmt.isCacheExpr = true) {managers : Managers} (managers' : Managers)
    {currDb currDb' : Option (ℕ × String)} (sameName : currDb'.map Prod.snd = currDb.map Prod.snd)
    {bound : Bound V} (prepared : (stmt.preprocess fuel managers currDb).run = .ok (some bound)) :
    (stmt.preprocess fuel managers' currDb').run = .ok (some bound) ∧ bound.physTable = none := by
  have named : ∀ dbName, (∃ db, currDb = some (db, dbName)) → ∃ db',
    currDb' = some (db', dbName) := by
    rintro dbName ⟨db, rfl⟩
    rcases Option.map_eq_some_iff.mp sameName with ⟨⟨db', _⟩, rfl, rfl⟩
    exact ⟨db', rfl⟩
  cases stmt with
  | insert | update | delete => cases noRows
  | createDatabase | dropDatabase | createTable | dropTable => cases cached
  | select vctTable =>
      rcases vctTable with _ | ⟨_ | ⟨exprTable', _ | _⟩⟩
      · cases prepared
      · cases prepared
      · cases noRows
      · cases prepared
  | trunTable table =>
      unfold preprocess at prepared ⊢
      cases inDb : table.dbName with
      | none =>
          simp only [inDb, run_bind_eq, run_orError_eq, run_pure_eq] at prepared ⊢
          rcases prepared with ⟨⟨db, dbName⟩, current, rfl⟩
          rcases named dbName ⟨db, current⟩ with ⟨db', current'⟩
          exact ⟨⟨(db', dbName), current', rfl⟩, rfl⟩
      | some dbName =>
          simp only [inDb, run_pure_eq] at prepared ⊢
          subst prepared
          exact ⟨rfl, rfl⟩
  | showTables dbName =>
      unfold preprocess at prepared ⊢
      cases dbName with
      | none =>
          cases current : currDb with
          | none =>
              rw [current] at prepared
              cases prepared
          | some current' =>
              rcases current' with ⟨db, dbName⟩
              rcases named dbName ⟨db, current⟩ with ⟨db', current'⟩
              simp only [current, current', run_pure_eq] at prepared ⊢
              subst prepared
              exact ⟨rfl, rfl⟩
      | some dbName =>
          simp only [run_pure_eq] at prepared ⊢
          subst prepared
          exact ⟨rfl, rfl⟩
  | useDatabase | showDatabases | transaction =>
      unfold preprocess at prepared ⊢
      rw [run_pure_eq] at prepared ⊢
      subst prepared
      exact ⟨rfl, rfl⟩

end SqlStmt

namespace SessionGroup

def findSession (group : SessionGroup V) (sid : UInt32) : Option (Session V) :=
  (group.mapSession.lookup sid).bind fun s => group.vctSession[s]?

/-- The tables of expressions that can still be looked up. -/
def mappedTables (group : SessionGroup V) : List ℕ :=
  (group.mapped.filterMap fun e => group.vctExpr[e]?).flatMap fun exprStmt =>
    exprStmt.bound.physTable.toList

end SessionGroup

namespace ServState

/-- The tables that a statement removes when it ends. -/
def removedTables (state : ServState V) (exprStmt : ExprStatement V) : List ℕ :=
  match exprStmt.stmt with
  | .dropDatabase dbName => state.listTables dbName
  | .dropTable table =>
      (exprStmt.bound.dbName.bind fun dbName => state.findTable dbName table.tName).toList
  | _ => []

/-- The condition of a step: a number or a key of the text map stands for one text and one current
database, no table is dropped that an expression in a map is bound to, and no expression gets too
old that a statement still uses. -/
def Steady (state : ServState V) : ServEvent → Prop
  | .statement g sid exprId sql => ∀ group ∈ state.groups[g]?, ∀ session ∈ group.findSession sid,
      ∀ e ∈ group.taken (state.currDb session) sid exprId sql, ∀ exprStmt ∈ group.vctExpr[e]?,
        exprStmt.sql = sql ∧ exprStmt.currDbName = (state.currDb session).map Prod.snd
  | .endStmt g s succeeds _ => succeeds = true → ∀ group ∈ state.groups[g]?,
      ∀ session ∈ group.vctSession[s]?, ∀ stmt ∈ session.currStatement,
        ∀ t ∈ state.removedTables stmt.exprStmt, ∀ other ∈ state.groups, t ∉ other.mappedTables
  | .cleaner r g => ∀ round ∈ state.rounds[r]?, ∀ group ∈ state.groups[g]?,
      ∀ e ∈ group.mapSqlExpr.map Prod.snd, group.expired round.dtStart e = true →
        ∀ session ∈ group.vctSession, some e ∉ session.statements.map Statement.cached
  | _ => True

instance (state : ServState V) (event : ServEvent) : Decidable (state.Steady event) :=
  match event with
  | .statement _ _ _ _ => by dsimp only [Steady]; infer_instance
  | .endStmt _ _ _ _ => by dsimp only [Steady]; exact instDecidableForall
  | .cleaner _ _ => by dsimp only [Steady]; infer_instance
  | .tick _ | .createSession _ _ | .closeSession _ _ | .useDb _ _ _ | .startStmt _ _
  | .deleteSession _ _ | .addAction _ _ _ | .endAction _ | .stopTask _ _ | .newCleaner
  | .endInLoop _ _ _ _ =>
      inferInstanceAs (Decidable True)

/-- What a statement takes from a map is what its text gives when it is prepared now. -/
def BindsFresh (parse : String → Option (List (SqlStmt V))) (fuel : ℕ) (state : ServState V) :
    ServEvent → Prop
  | .statement g sid exprId sql => ∀ group ∈ state.groups[g]?, ∀ session ∈ group.findSession sid,
      ∀ e ∈ group.taken (state.currDb session) sid exprId sql, e ∉ group.deletedExpr ∧
        ∃ exprStmt bound, group.vctExpr[e]? = some exprStmt ∧ parse sql = some [exprStmt.stmt] ∧
          (exprStmt.stmt.preprocess fuel state.managers (state.currDb session)).run =
            .ok (some bound) ∧
          bound.resolved = exprStmt.bound.resolved ∧
          ∀ t ∈ exprStmt.bound.physTable, state.liveTable t = true
  | _ => True

/-- No statement uses an expression that has been deleted. -/
def UsesLiving (state : ServState V) : Prop :=
  ∀ group ∈ state.groups, ∀ session ∈ group.vctSession, ∀ stmt ∈ session.statements,
    ∀ e ∈ stmt.cached, e ∉ group.deletedExpr

variable {state state' : ServState V}

theorem onSession_eq {g s : ℕ} {act : SessionGroup V → Session V → Option (ServState V)} :
    state.onSession g s act = some state' ↔ ∃ group session, state.groups[g]? = some group ∧
      group.vctSession[s]? = some session ∧ session.deleted = false ∧
        act group session = some state' := by
  simp only [onSession, Option.bind_eq_some_iff, Option.ite_none_left_eq_some, Bool.not_eq_true]
  constructor
  · rintro ⟨group, at_g, session, at_s, acted⟩
    exact ⟨group, session, at_g, at_s, acted⟩
  · rintro ⟨group, session, at_g, at_s, acted⟩
    exact ⟨group, at_g, session, at_s, acted⟩

/-! ## What the managers answer -/

theorem findTable_eq {state : ServState V} {dbName tName : String} {t : ℕ} :
    state.findTable dbName tName = some t ↔ t < state.vctTable.length ∧ state.liveTable t = true ∧
      state.fullName t = some (dbName, tName) ∧
      ∀ other < t, state.liveTable other = true → state.fullName other ≠ some (dbName, tName) := by
  unfold findTable
  rw [List.range_eq_range', List.find?_range'_eq_some]
  simp only [Bool.and_eq_true, beq_iff_eq, List.mem_range'_1, Nat.zero_le, true_and, forall_const,
    Bool.not_eq_eq_eq_not, Bool.not_true, Bool.and_eq_false_imp]
  constructor
  · rintro ⟨⟨live, named⟩, isTable, first⟩
    refine ⟨by omega, live, named, fun other before isLive => ?_⟩
    simpa using first other before isLive
  · rintro ⟨isTable, live, named, first⟩
    refine ⟨⟨live, named⟩, by omega, fun other before isLive => ?_⟩
    simpa using first other before isLive

theorem findDb_isSome {state : ServState V} {dbName : String} :
    (state.findDb dbName).isSome = true ↔
      ∃ d, state.liveDb d = true ∧ state.vctDb[d]? = some dbName := by
  unfold findDb
  rw [List.find?_isSome]
  simp only [List.mem_range, Bool.and_eq_true, beq_iff_eq]
  constructor
  · rintro ⟨d, -, found⟩
    exact ⟨d, found⟩
  · rintro ⟨d, live, named⟩
    exact ⟨d, (List.getElem?_eq_some_iff.mp named).1, live, named⟩

theorem findTable_of_kept {dbName tName : String} {t : ℕ}
    (found : state.findTable dbName tName = some t)
    (tables : ∀ (t : ℕ) (table : PhysTable), state.vctTable[t]? = some table →
      state'.vctTable[t]? = some table) (kept : state'.liveTable t = true)
    (removed : ∀ t, state'.liveTable t = true → state.liveTable t = true) :
    state'.findTable dbName tName = some t := by
  rcases findTable_eq.mp found with ⟨isTable, -, named, first⟩
  have same : ∀ other < state.vctTable.length, state'.fullName other = state.fullName other := by
    intro other isOther
    have at_other := List.getElem?_eq_getElem isOther
    rw [fullName, fullName, tables other _ at_other, at_other]
  refine findTable_eq.mpr ⟨?_, kept, (same t isTable).trans named, ?_⟩
  · have at_t := tables t _ (List.getElem?_eq_getElem isTable)
    exact (List.getElem?_eq_some_iff.mp at_t).1
  · intro other before live
    rw [same other (before.trans isTable)]
    exact first other before (removed other live)

/-! ## The invariant -/

/-- An expression about rows has found its table under the name its text and its database give. -/
structure RowsFound (fuel : ℕ) (state : ServState V) (exprStmt : ExprStatement V)
    (exprTable : ExprTable) (dbName : String) (t : ℕ) (table : PhysTable) (filled : Bound V) :
    Prop where
  inDb : exprTable.inDb exprStmt.currDbName = some dbName
  named : exprTable.dbName.isSome = true → (state.findDb dbName).isSome = true
  found : state.findTable dbName exprTable.tName = some t
  isTable : state.vctTable[t]? = some table
  fills : (exprStmt.stmt.fillColumns fuel table).run = .ok (some filled)
  physTable : exprStmt.bound.physTable = some t
  resolved : exprStmt.bound.resolved = { filled with physTable := some t, db := none }

/-- What is known of an expression in a map. -/
structure ExprSound (parse : String → Option (List (SqlStmt V))) (fuel : ℕ) (state : ServState V)
    (exprStmt : ExprStatement V) : Prop where
  parsed : parse exprStmt.sql = some [exprStmt.stmt]
  rows : ∀ exprTable, exprStmt.stmt.exprTable = some exprTable →
    ∃ dbName t table filled, RowsFound fuel state exprStmt exprTable dbName t table filled
  others : exprStmt.stmt.exprTable = none → exprStmt.bound.physTable = none ∧
    ∀ managers currDb, currDb.map Prod.snd = exprStmt.currDbName →
      (exprStmt.stmt.preprocess fuel managers currDb).run = .ok (some exprStmt.bound)

structure GroupSound (parse : String → Option (List (SqlStmt V))) (fuel : ℕ) (state : ServState V)
    (group : SessionGroup V) : Prop where
  mapped : ∀ e ∈ group.mapped, e ∉ group.deletedExpr ∧
    ∃ exprStmt, group.vctExpr[e]? = some exprStmt ∧ ExprSound parse fuel state exprStmt
  deleted : ∀ e ∈ group.deletedExpr, e < group.vctExpr.length
  statements : ∀ session ∈ group.vctSession, ∀ stmt ∈ session.statements, ∀ e,
    stmt.cached = some e → e ∉ group.deletedExpr

def CacheSound (parse : String → Option (List (SqlStmt V))) (fuel : ℕ) (state : ServState V) :
    Prop :=
  ∀ group ∈ state.groups, GroupSound parse fuel state group

theorem exprSound_of_preprocess {state : ServState V} {sql : String} {stmt : SqlStmt V}
    {currDb : Option (ℕ × String)} {bound : Bound V} (parsed : parse sql = some [stmt])
    (cached : stmt.isCacheExpr = true)
    (prepared : (stmt.preprocess fuel state.managers currDb).run = .ok (some bound)) :
    ExprSound parse fuel state ⟨sql, currDb.map Prod.snd, stmt, bound⟩ := by
  refine ⟨parsed, ?_, ?_⟩
  · intro exprTable rows
    rw [SqlStmt.preprocess_of_exprTable rows, run_prepareRows] at prepared
    rcases prepared with ⟨db, t, table, filled, found, isTable, fills, rfl⟩
    rcases run_exprTable.mp found with ⟨dbName, inDb, foundTable, foundDb⟩
    refine ⟨dbName, t, table, filled, ⟨inDb, ?_, foundTable, isTable, fills, rfl, rfl⟩⟩
    intro hasDb
    rcases Option.isSome_iff_exists.mp hasDb with ⟨dbName', named⟩
    simp only [named, ExprTable.inDb, Option.some_or, Option.some.injEq] at inDb foundDb
    subst inDb
    exact Option.isSome_iff_exists.mpr ⟨db, foundDb⟩
  · intro noRows
    refine ⟨(SqlStmt.preprocess_of_no_rows noRows cached state.managers rfl prepared).2,
      ?_⟩
    intro managers currDb' sameName
    exact (SqlStmt.preprocess_of_no_rows noRows cached managers sameName prepared).1

theorem ExprSound.preprocess {state : ServState V} {exprStmt : ExprStatement V}
    {currDb : Option (ℕ × String)} (sound : ExprSound parse fuel state exprStmt)
    (sameName : exprStmt.currDbName = currDb.map Prod.snd) :
    ∃ bound, (exprStmt.stmt.preprocess fuel state.managers currDb).run = .ok (some bound) ∧
      bound.resolved = exprStmt.bound.resolved ∧
      ∀ t ∈ exprStmt.bound.physTable, state.liveTable t = true := by
  cases rows : exprStmt.stmt.exprTable with
  | none =>
      rcases sound.others rows with ⟨noTable, again⟩
      refine ⟨_, again _ _ sameName.symm, rfl, ?_⟩
      simp [noTable]
  | some exprTable =>
      rcases sound.rows exprTable rows with ⟨dbName, t, table, filled, found⟩
      have inDb := found.inDb
      rw [sameName] at inDb
      have again : ∃ db, (exprTable.preprocess state.managers currDb).run = .ok (some (db, t)) := by
        cases named : exprTable.dbName with
        | none =>
            rw [ExprTable.inDb, named, Option.none_or] at inDb
            rcases Option.map_eq_some_iff.mp inDb with ⟨⟨db, _⟩, current, rfl⟩
            refine ⟨db, run_exprTable.mpr ⟨_, ?_, found.found, ?_⟩⟩
            · rw [ExprTable.inDb, named, current]
              rfl
            · rw [named]
              exact current
        | some dbName' =>
            have sameDb := inDb
            rw [ExprTable.inDb, named, Option.some_or, Option.some.injEq] at sameDb
            subst sameDb
            rcases Option.isSome_iff_exists.mp (found.named (by simp [named])) with ⟨db, foundDb⟩
            refine ⟨db, run_exprTable.mpr ⟨_, inDb, found.found, ?_⟩⟩
            rw [named]
            exact foundDb
      rcases again with ⟨db, again⟩
      refine ⟨{ filled with physTable := some t, db := some db }, ?_, ?_, ?_⟩
      · rw [SqlStmt.preprocess_of_exprTable rows, run_prepareRows]
        exact ⟨db, t, table, filled, again, found.isTable, found.fills, rfl⟩
      · exact found.resolved.symm
      · intro t' isTable
        rw [found.physTable] at isTable
        cases isTable
        exact (findTable_eq.mp found.found).2.1

theorem ExprSound.frame {exprStmt : ExprStatement V} (sound : ExprSound parse fuel state exprStmt)
    (tables : ∀ (t : ℕ) (table : PhysTable), state.vctTable[t]? = some table →
      state'.vctTable[t]? = some table)
    (kept : ∀ t ∈ exprStmt.bound.physTable, state.liveTable t = true → state'.liveTable t = true)
    (removed : ∀ t, state'.liveTable t = true → state.liveTable t = true)
    (dbs : ∀ t ∈ exprStmt.bound.physTable, state.liveTable t = true → ∀ dbName,
      (state.fullName t).map Prod.fst = some dbName →
        (state.findDb dbName).isSome = true → (state'.findDb dbName).isSome = true) :
    ExprSound parse fuel state' exprStmt := by
  refine ⟨sound.parsed, ?_, sound.others⟩
  intro exprTable rows
  rcases sound.rows exprTable rows with ⟨dbName, t, table, filled, found⟩
  have isTable : t ∈ exprStmt.bound.physTable := found.physTable
  rcases findTable_eq.mp found.found with ⟨-, live, named, -⟩
  refine ⟨dbName, t, table, filled, { found with named := ?_, found := ?_, isTable := ?_ }⟩
  · intro hasDb
    exact dbs t isTable live dbName (by rw [named]; rfl) (found.named hasDb)
  · exact findTable_of_kept found.found tables (kept t isTable live) removed
  · exact tables t table found.isTable

variable {group : SessionGroup V}

theorem mem_mappedTables {t : ℕ} :
    t ∈ group.mappedTables ↔ ∃ e ∈ group.mapped, ∃ exprStmt, group.vctExpr[e]? = some exprStmt ∧
      t ∈ exprStmt.bound.physTable := by
  simp only [SessionGroup.mappedTables, List.mem_flatMap, List.mem_filterMap, Option.mem_toList]
  constructor
  · rintro ⟨exprStmt, ⟨e, isMapped, at_e⟩, isTable⟩
    exact ⟨e, isMapped, exprStmt, at_e, isTable⟩
  · rintro ⟨e, isMapped, exprStmt, at_e, isTable⟩
    exact ⟨exprStmt, ⟨e, isMapped, at_e⟩, isTable⟩

theorem GroupSound.frame (sound : GroupSound parse fuel state group)
    (tables : ∀ (t : ℕ) (table : PhysTable), state.vctTable[t]? = some table →
      state'.vctTable[t]? = some table)
    (removed : ∀ t, state'.liveTable t = true → state.liveTable t = true)
    (kept : ∀ t ∈ group.mappedTables, state.liveTable t = true → state'.liveTable t = true)
    (dbs : ∀ t ∈ group.mappedTables, state.liveTable t = true → ∀ dbName,
      (state.fullName t).map Prod.fst = some dbName →
        (state.findDb dbName).isSome = true → (state'.findDb dbName).isSome = true) :
    GroupSound parse fuel state' group := by
  refine { sound with mapped := ?_ }
  intro e isMapped
  rcases sound.mapped e isMapped with ⟨living, exprStmt, at_e, exprSound⟩
  refine ⟨living, exprStmt, at_e, exprSound.frame tables ?_ removed ?_⟩
  · exact fun t isTable => kept t (mem_mappedTables.mpr ⟨e, isMapped, exprStmt, at_e, isTable⟩)
  · exact fun t isTable => dbs t (mem_mappedTables.mpr ⟨e, isMapped, exprStmt, at_e, isTable⟩)

/-- Two states in which the managers answer the same. -/
structure SameManagers (state state' : ServState V) : Prop where
  vctDb : state'.vctDb = state.vctDb
  vctTable : state'.vctTable = state.vctTable
  liveDb : ∀ d, state'.liveDb d = state.liveDb d
  liveTable : ∀ t, state'.liveTable t = state.liveTable t

theorem SameManagers.setGroup (state : ServState V) (g : ℕ) (group : SessionGroup V) :
    SameManagers state (state.setGroup g group) :=
  ⟨rfl, rfl, fun _ => rfl, fun _ => rfl⟩

theorem Reclaims.sameManagers {dtStart : ℕ}
    (reclaims : Reclaims dtStart state state') : SameManagers state state' :=
  ⟨by rw [reclaims.same], by rw [reclaims.same], reclaims.liveDb, reclaims.liveTable⟩

theorem Checked.sameManagers (checked : Checked state state') :
    SameManagers state state' := by
  rw [checked.same]
  exact ⟨rfl, rfl, fun _ => rfl, fun _ => rfl⟩

theorem GroupSound.of_same
    (sound : GroupSound parse fuel state group) (same : SameManagers state state') :
    GroupSound parse fuel state' group := by
  apply sound.frame
  · intro t table at_t
    rw [same.vctTable]
    exact at_t
  · intro t live
    rw [← same.liveTable]
    exact live
  · intro t _ live
    rw [same.liveTable]
    exact live
  · intro t _ _ dbName _ found
    rw [findDb_isSome] at found ⊢
    simpa only [same.liveDb, same.vctDb] using found

theorem effect_groups (state : ServState V) (exprStmt : ExprStatement V) :
    (state.effect exprStmt).groups = state.groups := by
  unfold effect addDb
  split <;> try split
  all_goals
    first
    | rfl
    | unfold addTable
      split <;> rfl

/-! ## The steps -/

namespace CacheSound

variable {state state' : ServState V} {g s : ℕ} {group group' : SessionGroup V}
  {session session' : Session V}

theorem setGroup (sound : CacheSound parse fuel state)
    (groupSound : GroupSound parse fuel state group) :
    CacheSound parse fuel (state.setGroup g group) := by
  intro other isGroup
  rcases List.mem_or_eq_of_mem_set isGroup with old | rfl
  · exact (sound other old).of_same (SameManagers.setGroup state g group)
  · exact groupSound.of_same (SameManagers.setGroup state g other)

theorem of_same (sound : CacheSound parse fuel state) (same : SameManagers state state')
    (groups : state'.groups = state.groups) : CacheSound parse fuel state' := by
  intro group isGroup
  rw [groups] at isGroup
  exact (sound group isGroup).of_same same

theorem setSession (sound : GroupSound parse fuel state group)
    (uses : ∀ stmt ∈ session'.statements, ∀ e, stmt.cached = some e → e ∉ group.deletedExpr) :
    GroupSound parse fuel state (group.setSession s session') := by
  refine { sound with statements := ?_ }
  intro session isSession
  rcases List.mem_or_eq_of_mem_set isSession with old | rfl
  · exact sound.statements session old
  · exact uses

theorem groupChecked (sound : GroupSound parse fuel state group)
    (checked : GroupChecked group group') :
    GroupSound parse fuel state group' := by
  rw [checked.same]
  refine { sound with statements := ?_ }
  intro session' isSession
  rcases List.mem_iff_getElem?.mp isSession with ⟨s, at_s⟩
  rcases checked.sessions s session' at_s with ⟨session, at_s', sessionChecked⟩
  rw [sessionChecked.statements]
  exact sound.statements session (List.mem_of_getElem? at_s')

theorem checked (sound : CacheSound parse fuel state) (checked : Checked state state') :
    CacheSound parse fuel state' := by
  intro group' isGroup
  rcases List.mem_iff_getElem?.mp isGroup with ⟨g, at_g⟩
  rcases checked.groups g group' at_g with ⟨group, at_g', groupChecks⟩
  exact (groupChecked (sound group (List.mem_of_getElem? at_g')) groupChecks).of_same
    checked.sameManagers

theorem effect (sound : CacheSound parse fuel state) (exprStmt : ExprStatement V)
    (untouched : ∀ t ∈ state.removedTables exprStmt, ∀ group ∈ state.groups,
      t ∉ group.mappedTables) :
    CacheSound parse fuel (state.effect exprStmt) := by
  have removes : ∀ tables : List ℕ, (∀ t ∈ tables, ∀ group ∈ state.groups, t ∉ group.mappedTables) →
      CacheSound parse fuel (state.removeTables tables) := by
    intro tables apart group isGroup
    apply (sound group isGroup).frame
    · exact fun _ _ at_t => at_t
    · exact fun t live => (liveTable_removeTables.mp live).1
    · intro t isMapped live
      apply liveTable_removeTables.mpr
      exact ⟨live, fun isRemoved => apart t isRemoved group isGroup isMapped⟩
    · exact fun _ _ _ _ _ found => found
  unfold ServState.effect
  unfold removedTables at untouched
  split
  · rename_i dbName kind
    unfold addDb
    split
    · exact sound
    · intro group isGroup
      apply (sound group isGroup).frame
      · exact fun _ _ at_t => at_t
      · exact fun _ live => live
      · exact fun _ _ live => live
      · intro t _ _ other _ found
        rcases findDb_isSome.mp found with ⟨d, live, named⟩
        refine findDb_isSome.mpr ⟨d, live, ?_⟩
        exact (List.getElem?_append_left (List.getElem?_eq_some_iff.mp named).1).trans named
  · rename_i dbName kind
    simp only [kind] at untouched
    intro group isGroup
    apply (removes (state.listTables dbName) untouched group isGroup).frame
    · exact fun _ _ at_t => at_t
    · exact fun _ live => live
    · exact fun _ _ live => live
    · intro t isMapped live other named found
      -- The table would have been removed with a database of this name.
      have otherName : other ≠ dbName := by
        rintro rfl
        apply untouched t _ group isGroup isMapped
        have isTable : t < state.vctTable.length := by
          rcases Option.map_eq_some_iff.mp named with ⟨_, full, -⟩
          rcases Option.map_eq_some_iff.mp full with ⟨_, at_t, -⟩
          exact (List.getElem?_eq_some_iff.mp at_t).1
        have wasLive := (liveTable_removeTables.mp live).1
        simp only [listTables, List.mem_filter, List.mem_range, Bool.and_eq_true, beq_iff_eq]
        exact ⟨isTable, wasLive, named⟩
      rcases findDb_isSome.mp found with ⟨d, liveDb', named'⟩
      refine findDb_isSome.mpr ⟨d, liveDb_removeDb.mpr ⟨liveDb', ?_⟩, named'⟩
      intro isRemoved
      have isDb := List.find?_some isRemoved
      simp only [Bool.and_eq_true, beq_iff_eq] at isDb
      rw [isDb.2] at named'
      exact otherName (Option.some.inj named').symm
  · split
    · exact sound
    · unfold addTable
      split
      · exact sound
      · intro group isGroup
        apply (sound group isGroup).frame
        · intro t table at_t
          exact (List.getElem?_append_left (List.getElem?_eq_some_iff.mp at_t).1).trans at_t
        · exact fun _ live => live
        · exact fun _ _ live => live
        · exact fun _ _ _ _ _ found => found
  · rename_i table kind
    simp only [kind] at untouched
    exact removes _ untouched
  · exact sound

end CacheSound

end ServState

end ExprCache

end RapidDb
