import RapidDb.Expr.ExprStatement
import RapidDb.Library.Transition

/-!
# Cached statements, dropped tables and the cleaner

A session group keeps the expressions of statements in two maps, one by session and the client's
number for the statement, one by the name of the current database and the text. A table or database
that has been dropped goes to a list of discarded objects, from which the last group of a round of
`SessionCleaner` deletes what has not been checked since the round began.

A call of an action, of `Session::Exec` and of a group's part of a round is one step; how a
statement ends is left open. The loops over the discarded objects take no lock, and an object that
another thread puts there meanwhile moves the elements under their iterators. Memory that has been
freed keeps what it held. An expression that is not cached goes with its statement. `FindTable` and
`FindDb` are what they are without other calls at the same time, and the maps of the managers are
given by what has not been discarded.
-/

namespace RapidDb

open Transition

namespace ExprCache

variable {V : Type}

/-- A prepared expression, with the text and the name of the database it was prepared for. -/
structure ExprStatement (V : Type) where
  sql : String
  currDbName : Option String
  stmt : SqlStmt V
  bound : Bound V

/-- A statement, and the place of its expression if that is cached. -/
structure Statement (V : Type) where
  exprStmt : ExprStatement V
  cached : Option ℕ

structure Session (V : Type) where
  currDb : Option ℕ := none
  bObsolete : Bool := false
  deleted : Bool := false
  /-- The status of the transaction is `IN_TRAN` or `AUTO_TRAN`. -/
  inTran : Bool := false
  lstWaittingStmt : List (Statement V) := []
  currStatement : Option (Statement V) := none
  /-- The statements of the transaction. -/
  lstStatement : List (Statement V) := []

structure SessionGroup (V : Type) where
  /-- The session objects, and the expressions that have been cached. -/
  vctSession : List (Session V) := []
  vctExpr : List (ExprStatement V) := []
  deletedExpr : List ℕ := []
  dtLastVisit : ℕ → ℕ := fun _ => 0
  mapSession : List (UInt32 × ℕ) := []
  obsoleteSession : List ℕ := []
  mapIdExpr : List (ℕ × ℕ) := []
  mapSqlExpr : List (String × ℕ) := []

/-- A `SessionCleaner`, and the groups that have executed it. -/
structure Round where
  dtStart : ℕ
  finished : List ℕ := []
deriving DecidableEq, Repr

structure ServState (V : Type) where
  /-- The database objects by their names, and the table objects. -/
  vctDb : List String := []
  vctTable : List PhysTable := []
  discardDb : List ℕ := []
  discardTable : List ℕ := []
  deletedDb : List ℕ := []
  deletedTable : List ℕ := []
  dbChecked : ℕ → ℕ := fun _ => 0
  tableChecked : ℕ → ℕ := fun _ => 0
  groups : List (SessionGroup V) := []
  /-- Index actions, each in the list of an index task: of a table, at an index. -/
  actions : List (ℕ × ℕ) := []
  /-- The index tasks that have left the thread pool. -/
  stopedTask : List (ℕ × ℕ) := []
  rounds : List Round := []
  time : ℕ := 0
  /-- An iterator has been used after its element was erased. -/
  erasedIterator : Bool := false
  /-- A loop of the cleaner does not end. -/
  endless : Bool := false
  /-- The cleaner has followed a null pointer. -/
  nullPointer : Bool := false

inductive ServEvent where
  /-- Milliseconds go by. -/
  | tick (span : ℕ)
  | createSession (g : ℕ) (sid : UInt32)
  | closeSession (g : ℕ) (sid : UInt32)
  /-- `SessionUseDB`. -/
  | useDb (g : ℕ) (sid : UInt32) (dbName : String)
  /-- `SessionStatementAction`. -/
  | statement (g : ℕ) (sid exprId : UInt32) (sql : String)
  /-- `Session::Exec` takes a waiting statement. -/
  | startStmt (g s : ℕ)
  /-- The current statement ends; whether it has done what it is for, and whether the transaction is
  closed with it. -/
  | endStmt (g s : ℕ) (succeeds closed : Bool)
  /-- `SessionTask` deletes a closed session. -/
  | deleteSession (g s : ℕ)
  /-- The current statement adds an action for an index of its table; an action ends. -/
  | addAction (g s i : ℕ)
  | endAction (k : ℕ)
  /-- An index task of a discarded table leaves the thread pool. -/
  | stopTask (t i : ℕ)
  | newCleaner
  /-- `SessionCleaner` in a group. -/
  | cleaner (r g : ℕ)
  /-- The current statement of a session in group `g'` comes to its end while `SessionCleaner` in
  group `g` is in the loops over the discarded objects. -/
  | endInLoop (r g g' s : ℕ)
deriving DecidableEq

namespace SqlStmt

/-- `IsSoleTran`. -/
def isSoleTran : SqlStmt V → Bool
  | createDatabase _ | dropDatabase _ | createTable _ _ _ | dropTable _ => true
  | _ => false

end SqlStmt

namespace Session

def isEmpty (session : Session V) : Bool :=
  session.currStatement.isNone && session.lstWaittingStmt.isEmpty &&
    (session.lstStatement.isEmpty && !session.inTran)

def statements (session : Session V) : List (Statement V) :=
  session.lstWaittingStmt ++ session.currStatement.toList ++ session.lstStatement

end Session

/-- `_sessionId` and `_exprId` in one number. -/
def idKey (sid exprId : UInt32) : ℕ := sid.toNat * 2 ^ 32 + exprId.toNat

def textKey (currDb : Option (ℕ × String)) (sql : String) : String :=
  (currDb.map Prod.snd).getD "" ++ sql

/-- `emplace`. -/
def emplace {K : Type} [BEq K] (map : List (K × ℕ)) (key : K) (value : ℕ) : List (K × ℕ) :=
  if (map.lookup key).isSome then map else map ++ [(key, value)]

namespace SessionGroup

variable (group : SessionGroup V)

def setSession (s : ℕ) (session : Session V) : SessionGroup V :=
  { group with vctSession := group.vctSession.set s session }

/-- The cached expression for a statement: by its number, or by its text. -/
def taken (currDb : Option (ℕ × String)) (sid exprId : UInt32) (sql : String) : Option ℕ :=
  match group.mapIdExpr.lookup (idKey sid exprId) with
  | some e => some e
  | none => group.mapSqlExpr.lookup (textKey currDb sql)

/-- The statement waits, and an expression that is cached has been visited. -/
def addStatement (s : ℕ) (session : Session V) (stmt : Statement V) (time : ℕ) : SessionGroup V :=
  { group.setSession s { session with lstWaittingStmt := session.lstWaittingStmt ++ [stmt] } with
    dtLastVisit :=
      match stmt.cached with
      | some e => Function.update group.dtLastVisit e time
      | none => group.dtLastVisit }

def cache (idKey : ℕ) (textKey : String) (exprStmt : ExprStatement V) : SessionGroup V :=
  { group with
    vctExpr := group.vctExpr ++ [exprStmt]
    mapSqlExpr := emplace group.mapSqlExpr textKey group.vctExpr.length
    mapIdExpr := emplace group.mapIdExpr idKey group.vctExpr.length }

/-- The expression has not been visited for an hour before a round. -/
def expired (dtStart e : ℕ) : Bool :=
  group.dtLastVisit e < dtStart && 3600 * 1000 < dtStart - group.dtLastVisit e

/-- Expressions that can still be looked up. -/
def mapped : List ℕ := group.mapIdExpr.map Prod.snd ++ group.mapSqlExpr.map Prod.snd

end SessionGroup

namespace ServState

variable (state : ServState V)

def liveDb (d : ℕ) : Bool := d ∉ state.discardDb && d ∉ state.deletedDb

def liveTable (t : ℕ) : Bool := t ∉ state.discardTable && t ∉ state.deletedTable

/-- `FindDb`. -/
def findDb (dbName : String) : Option ℕ :=
  (List.range state.vctDb.length).find? fun d => state.liveDb d && state.vctDb[d]? == some dbName

def fullName (t : ℕ) : Option (String × String) :=
  state.vctTable[t]?.map fun table => (table.dbName, table.tName)

/-- `FindTable`. -/
def findTable (dbName tName : String) : Option ℕ :=
  (List.range state.vctTable.length).find? fun t =>
    state.liveTable t && state.fullName t == some (dbName, tName)

/-- The tables that `ListTables` names. -/
def listTables (dbName : String) : List ℕ :=
  (List.range state.vctTable.length).filter fun t =>
    state.liveTable t && (state.fullName t).map Prod.fst == some dbName

def managers : Managers where
  findDb := state.findDb
  findTable := state.findTable
  table := fun t => state.vctTable[t]?

/-- `_currDb` with its name. -/
def currDb (session : Session V) : Option (ℕ × String) :=
  session.currDb.bind fun db => state.vctDb[db]?.map fun dbName => (db, dbName)

def setGroup (g : ℕ) (group : SessionGroup V) : ServState V :=
  { state with groups := state.groups.set g group }

/-- A session object of a group that has not been deleted. -/
def onSession (g s : ℕ) (step : SessionGroup V → Session V → Option (ServState V)) :
    Option (ServState V) :=
  state.groups[g]?.bind fun group => group.vctSession[s]?.bind fun session =>
    if session.deleted then none else step group session

/-- `AddDb`; what the new object has in `_dtLastChecked` is left as it is. -/
def addDb (dbName : String) : ServState V :=
  if (state.findDb dbName).isSome then state else { state with vctDb := state.vctDb ++ [dbName] }

/-- `AddTable`. -/
def addTable (table : PhysTable) : ServState V :=
  if (state.findTable table.dbName table.tName).isSome then state
  else { state with vctTable := state.vctTable ++ [table] }

/-- `RemoveTable`, and the tables of a database. -/
def removeTables (tables : List ℕ) : ServState V :=
  { state with discardTable := state.discardTable ++ tables }

/-- `RemoveDb`. -/
def removeDb (dbName : String) : ServState V :=
  { state with discardDb := state.discardDb ++ (state.findDb dbName).toList }

/-- The end of a statement that has done what it is for. -/
def effect (exprStmt : ExprStatement V) : ServState V :=
  match exprStmt.stmt with
  | .createDatabase dbName => state.addDb dbName
  | .dropDatabase dbName => (state.removeTables (state.listTables dbName)).removeDb dbName
  | .createTable table vctColumn vctIndex =>
      match exprStmt.bound.physDb.bind fun db => state.vctDb[db]?.map fun dbName =>
        (db, dbName) with
      | none => state
      | some (db, dbName) => state.addTable ⟨db, dbName, table.tName, vctColumn, vctIndex⟩
  | .dropTable table =>
      state.removeTables ((exprStmt.bound.dbName.bind fun dbName =>
        state.findTable dbName table.tName).toList)
  | _ => state

/-- The current database after a statement that has done what it is for. -/
def newCurrDb (exprStmt : ExprStatement V) (currDb : Option ℕ) : Option ℕ :=
  match exprStmt.stmt with
  | .useDatabase dbName => (state.findDb dbName).or currDb
  | _ => currDb

/-- `SessionStatementAction`. -/
def statementAction (parse : String → Option (List (SqlStmt V))) (fuel g : ℕ)
    (group : SessionGroup V) (sid exprId : UInt32) (sql : String) : Option (ServState V) :=
  match group.mapSession.lookup sid with
  | none => some state
  | some s =>
      group.vctSession[s]?.bind fun session =>
        let currDb := state.currDb session
        match group.taken currDb sid exprId sql with
        | some e => group.vctExpr[e]?.map fun exprStmt =>
            state.setGroup g ({ group with
              mapIdExpr := emplace group.mapIdExpr (idKey sid exprId) e }.addStatement s session
                ⟨exprStmt, some e⟩ state.time)
        | none =>
            match parse sql with
            | none => some state
            | some [stmt] =>
                match (stmt.preprocess fuel state.managers currDb).run with
                | .error _ => none
                | .ok none => some state
                | .ok (some bound) =>
                    let exprStmt := ⟨sql, currDb.map Prod.snd, stmt, bound⟩
                    if stmt.isCacheExpr then
                      some (state.setGroup g
                        ((group.cache (idKey sid exprId) (textKey currDb sql) exprStmt).addStatement
                          s session ⟨exprStmt, some group.vctExpr.length⟩ state.time))
                    else some (state.setGroup g
                      (group.addStatement s session ⟨exprStmt, none⟩ state.time))
            | some _ => none

/-- `Session::Exec` with no current statement. A statement that needs a transaction of its own fails
within an open one. -/
def startStmt (g s : ℕ) (group : SessionGroup V) (session : Session V) : Option (ServState V) :=
  match session.currStatement, session.lstWaittingStmt with
  | none, stmt :: lstWaittingStmt =>
      if stmt.exprStmt.stmt.isSoleTran && session.inTran then
        some (state.setGroup g (group.setSession s { session with
          lstWaittingStmt := lstWaittingStmt }))
      else
        some (state.setGroup g (group.setSession s { session with
          lstWaittingStmt := lstWaittingStmt
          currStatement := some stmt
          lstStatement := session.lstStatement ++
            (match stmt.exprStmt.stmt with
              | .transaction => []
              | _ => [stmt])
          inTran := session.inTran ||
            (match stmt.exprStmt.stmt with
              | .transaction => false
              | _ => true) }))
  | _, _ => none

def endStmt (g s : ℕ) (group : SessionGroup V) (session : Session V) (succeeds closed : Bool) :
    Option (ServState V) :=
  session.currStatement.map fun stmt =>
    (if succeeds then state.effect stmt.exprStmt else state).setGroup g
      (group.setSession s { session with
        currDb := if succeeds then state.newCurrDb stmt.exprStmt session.currDb else session.currDb
        currStatement := none
        lstStatement := if closed then [] else session.lstStatement
        inTran := !closed })

/-- The end of a statement puts something to the discarded objects. -/
def discards (exprStmt : ExprStatement V) : Bool :=
  (state.effect exprStmt).discardTable ≠ state.discardTable ||
    (state.effect exprStmt).discardDb ≠ state.discardDb

/-- `CheckObsoleteTable`; TRUNCATE follows the null pointer it has for its table. -/
def checkObsoleteTable (exprStmt : ExprStatement V) : Option (ServState V) :=
  match exprStmt.stmt, exprStmt.bound.physTable, exprStmt.bound.db with
  | .trunTable _, _, _ => none
  | _, some t, some d =>
      some (if state.liveTable t then
        { state with
          tableChecked := Function.update state.tableChecked t state.time
          dbChecked := Function.update state.dbChecked d state.time }
      else state)
  | _, _, _ => some state

/-- `SetChechTime`. The current statement is checked with the transaction. -/
def setChechTime (g s : ℕ) : Option (ServState V) :=
  state.groups[g]?.bind fun group => group.vctSession[s]?.bind fun session =>
    ((session.lstWaittingStmt ++ session.lstStatement).map Statement.exprStmt).foldlM
      checkObsoleteTable
      (state.setGroup g (group.setSession s { session with
        currDb := if session.bObsolete then none else session.currDb.filter state.liveDb }))

/-- The loop over the closed sessions. One that is empty is erased, and then the iterator is
incremented. -/
def obsoleteLoop (g : ℕ) : List ℕ → ServState V → Option (ServState V)
  | [], state => some state
  | s :: rest, state =>
      state.groups[g]?.bind fun group => group.vctSession[s]?.bind fun session =>
        if session.isEmpty then
          some { state.setGroup g { group with
            obsoleteSession := group.obsoleteSession.erase s } with erasedIterator := true }
        else (state.setChechTime g s).bind (obsoleteLoop g rest)

def cleanMaps (g dtStart : ℕ) : Option (ServState V) :=
  state.groups[g]?.bind fun group =>
    let mapSqlExpr := group.mapSqlExpr.filter fun entry => !group.expired dtStart entry.2
    (mapSqlExpr.filterMap fun entry => group.vctExpr[entry.2]?).foldlM checkObsoleteTable
      (state.setGroup g { group with
        mapIdExpr := group.mapIdExpr.filter fun entry => !group.expired dtStart entry.2
        mapSqlExpr := mapSqlExpr
        deletedExpr := group.deletedExpr ++
          ((group.mapSqlExpr.map Prod.snd).filter fun e => group.expired dtStart e) })

/-- Every index task of a table has left the thread pool. -/
def tasksStoped (t : ℕ) : Bool :=
  (List.range ((state.vctTable[t]?.map fun table => table.vctIndex.length).getD 0)).all fun i =>
    (t, i) ∈ state.stopedTask

def deleteTable (t : ℕ) : ServState V :=
  { state with
    discardTable := state.discardTable.erase t
    deletedTable := t :: state.deletedTable }

def deleteDb (d : ℕ) : ServState V :=
  { state with
    discardDb := state.discardDb.erase d
    deletedDb := d :: state.deletedDb }

/-- The check time of a table whose index tasks still run, and of its database, is set. -/
def keepTable (t : ℕ) : ServState V :=
  { state with
    tableChecked := Function.update state.tableChecked t state.time
    dbChecked :=
      match state.vctTable[t]? with
      | some table => Function.update state.dbChecked table.db state.time
      | none => state.dbChecked }

/-- The loop over the discarded tables, for some number of rounds. After a table that is kept the
iterator stays where it is. -/
def tableLoop (dtStart : ℕ) : ℕ → List ℕ → ServState V → Option (ServState V)
  | _, [], state => some state
  | 0, _ :: _, _ => none
  | fuel + 1, t :: rest, state =>
      if state.tableChecked t < dtStart then
        if state.tasksStoped t then tableLoop dtStart fuel rest (state.deleteTable t)
        else tableLoop dtStart fuel (t :: rest) (state.keepTable t)
      else tableLoop dtStart fuel rest state

/-- The loop over the discarded databases. -/
def dbLoop (dtStart : ℕ) : List ℕ → ServState V → ServState V
  | [], state => state
  | d :: rest, state =>
      dbLoop dtStart rest (if state.dbChecked d < dtStart then state.deleteDb d else state)

def reclaim (dtStart : ℕ) : ServState V :=
  match tableLoop dtStart (2 * state.discardTable.length) state.discardTable state with
  | none => { state with endless := true }
  | some state => dbLoop dtStart state.discardDb state

def finishRound (r g : ℕ) (round : Round) : ServState V :=
  let state := { state with
    rounds := state.rounds.set r { round with finished := g :: round.finished } }
  if (g :: round.finished).length = state.groups.length then state.reclaim round.dtStart else state

/-- `SessionCleaner` in a group. -/
def cleaner (r g : ℕ) (round : Round) (group : SessionGroup V) : Option (ServState V) :=
  (obsoleteLoop g group.obsoleteSession state).bind fun state =>
    if state.erasedIterator then some state
    else
      ((group.mapSession.map Prod.snd).foldlM (fun state s => setChechTime state g s) state).bind
        fun state => (state.cleanMaps g round.dtStart).map fun state => state.finishRound r g round

/-- `SessionTask` deletes a closed session; its destructor wants the transaction to be over. -/
def deleteSession (g s : ℕ) (group : SessionGroup V) (session : Session V) : Option (ServState V) :=
  if s ∈ group.obsoleteSession ∧ session.lstWaittingStmt.isEmpty ∧ session.currStatement.isNone ∧
      session.inTran = false then
    some (state.setGroup g { group.setSession s { session with deleted := true } with
      obsoleteSession := group.obsoleteSession.erase s })
  else none

def next (parse : String → Option (List (SqlStmt V))) (fuel : ℕ) (state : ServState V)
    (event : ServEvent) : Option (ServState V) :=
  if state.erasedIterator || state.endless || state.nullPointer then none
  else
    match event with
    | .tick span => some { state with time := state.time + span }
    | .createSession g sid => state.groups[g]?.map fun group =>
        state.setGroup g { group with
          vctSession := group.vctSession ++ [{}]
          mapSession :=
            if (group.mapSession.lookup sid).isSome then group.mapSession
            else group.mapSession ++ [(sid, group.vctSession.length)] }
    | .closeSession g sid => state.groups[g]?.bind fun group =>
        match group.mapSession.lookup sid with
        | none => some state
        | some s => group.vctSession[s]?.map fun session =>
            state.setGroup g { group.setSession s { session with bObsolete := true } with
              obsoleteSession := group.obsoleteSession ++ [s]
              mapSession := group.mapSession.filter fun entry => entry.1 ≠ sid }
    | .useDb g sid dbName => state.groups[g]?.bind fun group =>
        match group.mapSession.lookup sid with
        | none => some state
        | some s => group.vctSession[s]?.bind fun session => (state.findDb dbName).map fun db =>
            state.setGroup g (group.setSession s { session with currDb := some db })
    | .statement g sid exprId sql => state.groups[g]?.bind fun group =>
        state.statementAction parse fuel g group sid exprId sql
    | .startStmt g s => state.onSession g s fun group session => state.startStmt g s group session
    | .endStmt g s succeeds closed => state.onSession g s fun group session =>
        state.endStmt g s group session succeeds closed
    | .deleteSession g s => state.onSession g s fun group session =>
        state.deleteSession g s group session
    | .addAction g s i => state.onSession g s fun _ session =>
        (session.currStatement.bind fun stmt => stmt.exprStmt.bound.physTable).bind fun t =>
          state.vctTable[t]?.bind fun table =>
            if i < table.vctIndex.length then
              some { state with actions := state.actions ++ [(t, i)] }
            else none
    | .endAction k => if k < state.actions.length then
        some { state with actions := state.actions.eraseIdx k } else none
    | .stopTask t i => if t ∈ state.discardTable ∧ (t, i) ∉ state.actions then
        some { state with stopedTask := (t, i) :: state.stopedTask } else none
    | .newCleaner => some { state with rounds := state.rounds ++ [{ dtStart := state.time }] }
    | .cleaner r g => state.rounds[r]?.bind fun round => state.groups[g]?.bind fun group =>
        if g ∈ round.finished then none
        else some ((state.cleaner r g round group).getD { state with nullPointer := true })
    | .endInLoop r g g' s => state.rounds[r]?.bind fun round =>
        if g' ≠ g ∧ g < state.groups.length ∧ g ∉ round.finished ∧
            round.finished.length + 1 = state.groups.length then
          state.onSession g' s fun _ session => session.currStatement.bind fun stmt =>
            if state.discards stmt.exprStmt then some { state with erasedIterator := true }
            else none
        else none

/-- What the server starts from: whatever tables and databases have been loaded, and no session. -/
structure Initial (state : ServState V) : Prop where
  groups : ∀ group ∈ state.groups, group.vctSession = [] ∧ group.vctExpr = [] ∧
    group.deletedExpr = [] ∧ group.mapSession = [] ∧ group.obsoleteSession = [] ∧
    group.mapIdExpr = [] ∧ group.mapSqlExpr = []
  discardDb : state.discardDb = []
  discardTable : state.discardTable = []
  deletedDb : state.deletedDb = []
  deletedTable : state.deletedTable = []
  actions : state.actions = []
  stopedTask : state.stopedTask = []
  rounds : state.rounds = []
  erasedIterator : state.erasedIterator = false
  endless : state.endless = false
  nullPointer : state.nullPointer = false

end ServState

end ExprCache

end RapidDb
