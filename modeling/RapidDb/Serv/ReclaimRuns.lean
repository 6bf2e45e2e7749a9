import RapidDb.Serv.ObjectsKept

/-!
# Runs in which dropped objects are reclaimed

Each step keeps what is known of the objects that are referred to. A statement binds what the
managers find, or what its session or the maps have; a statement that ends drops what nothing refers
to, as its condition says; and the cleaner deletes what no group refers to any more.
-/

namespace RapidDb

open Transition

namespace ExprCache

open ServState

variable {V : Type} {parse : String → Option (List (SqlStmt V))} {fuel : ℕ}

section

variable {state state' : ServState V} {g s : ℕ} {group : SessionGroup V}
  {session session' : Session V}

/-! ## What is bound -/

theorem liveDb_of_findDb {dbName : String} {d : ℕ} (found : state.findDb dbName = some d) :
    state.liveDb d = true := by
  have isDb := List.find?_some found
  rw [Bool.and_eq_true] at isDb
  exact isDb.1

theorem physTable_of_no_rows {stmt : SqlStmt V} (noRows : stmt.exprTable = none)
    {managers : Managers}
    {currDb : Option (ℕ × String)} {bound : Bound V}
    (prepared : (stmt.preprocess fuel managers currDb).run = .ok (some bound)) :
    bound.physTable = none := by
  cases cached : stmt.isCacheExpr with
  | true => exact (SqlStmt.preprocess_of_no_rows noRows cached managers rfl prepared).2
  | false =>
      cases stmt with
      | createDatabase | dropDatabase =>
          unfold SqlStmt.preprocess at prepared
          rw [run_pure_eq] at prepared
          exact prepared ▸ rfl
      | createTable table =>
          unfold SqlStmt.preprocess at prepared
          cases inDb : table.dbName with
          | none =>
              simp only [inDb, run_bind_eq, run_pure_eq] at prepared
              rcases prepared with ⟨-, -, rfl⟩
              rfl
          | some dbName =>
              simp only [inDb] at prepared
              split at prepared
              · cases prepared
              · cases prepared
              · rw [run_pure_eq] at prepared
                exact prepared ▸ rfl
      | dropTable table =>
          unfold SqlStmt.preprocess at prepared
          cases inDb : table.dbName with
          | none =>
              simp only [inDb, run_bind_eq, run_pure_eq] at prepared
              rcases prepared with ⟨-, -, rfl⟩
              rfl
          | some dbName =>
              simp only [inDb, run_pure_eq] at prepared
              exact prepared ▸ rfl
      | _ => cases cached

theorem currDb_of_named {current : ℕ × String} (named : state.currDb session = some current) :
    session.currDb = some current.1 := by
  rcases Option.bind_eq_some_iff.mp named with ⟨db, isDb, named⟩
  rcases Option.map_eq_some_iff.mp named with ⟨_, -, rfl⟩
  exact isDb

theorem exprKept_of_preprocess {sql : String} {currDbName : Option String} {stmt : SqlStmt V}
    {bound : Bound V}
    (prepared : (stmt.preprocess fuel state.managers (state.currDb session)).run = .ok (some bound))
    (current : ∀ d ∈ session.currDb, DbKept state g d)
    (physDb : ∀ d ∈ bound.physDb, state.liveDb d = true)
    (db : ∀ d ∈ bound.db, state.liveDb d = true ∨
      bound.physTable.isSome = true ∧ ¬state.Passed g d) :
    ExprKept state g ⟨sql, currDbName, stmt, bound⟩ := by
  cases rows : stmt.exprTable with
  | none =>
      have noTable := physTable_of_no_rows rows prepared
      have live : ∀ d ∈ bound.db, state.liveDb d = true := by
        intro d isDb
        rcases db d isDb with live | ⟨hasTable, -⟩
        · exact live
        · rw [noTable] at hasTable
          cases hasTable
      refine ⟨?_, physDb, fun d isDb => dbKept_of_live (live d isDb), fun _ => live,
        fun _ => noTable⟩
      intro t isTable
      rw [show _ = none from noTable] at isTable
      cases isTable
  | some exprTable =>
      rw [SqlStmt.preprocess_of_exprTable rows, run_prepareRows] at prepared
      rcases prepared with ⟨d, t, table, filled, found, -, -, rfl⟩
      rcases run_exprTable.mp found with ⟨dbName, -, foundTable, foundDb⟩
      have notDeleted : d ∉ state.deletedDb := by
        split at foundDb
        · exact (current d (currDb_of_named foundDb)).notDeleted
        · exact not_deleted_of_liveDb (liveDb_of_findDb foundDb)
      refine ⟨?_, physDb, ?_, fun none => (nomatch none), ?_⟩
      · rintro _ ⟨⟩
        exact (findTable_eq.mp foundTable).2.1
      · rintro _ ⟨⟩
        exact ⟨notDeleted, (db d rfl).imp_right And.right⟩
      · rintro rfl
        cases rows

/-! ## Steps of a group -/

namespace GroupKept

section

variable (kept : GroupKept state g group)

include kept

section

variable (at_s : group.vctSession[s]? = some session)

include at_s

theorem setSession (deleted : session'.deleted = session.deleted)
    (obsolete : session'.bObsolete = session.bObsolete)
    (reached : s ∈ group.mapSession.map Prod.snd ∨ s ∈ group.obsoleteSession ∨ session'.Idle)
    (stmts : session.deleted = false → ∀ stmt ∈ session'.statements, ExprKept state g stmt.exprStmt)
    (currDb : session.deleted = false → ∀ d ∈ session'.currDb, DbKept state g d)
    (current : ∀ stmt, session'.currStatement = some stmt →
      stmt ∈ session'.lstStatement ∨ stmt.exprStmt.bound.physTable = none) :
    GroupKept state g (group.setSession s session') := by
  refine ⟨?_, ?_, kept.listed.setSession at_s deleted obsolete reached, kept.mapped, ?_⟩
  · intro exprStmt isExpr
    rcases mem_exprs.mp isExpr with ⟨other, isSession, living, isStmt⟩ | isMapped
    · rcases List.mem_or_eq_of_mem_set isSession with old | rfl
      · exact kept.exprs exprStmt (mem_exprs.mpr (Or.inl ⟨other, old, living, isStmt⟩))
      · rcases isStmt with ⟨stmt, isStmt, rfl⟩
        exact stmts (deleted.symm.trans living) stmt isStmt
    · exact kept.exprs exprStmt (mem_exprs.mpr (Or.inr isMapped))
  · intro other isSession living d isDb
    rcases List.mem_or_eq_of_mem_set isSession with old | rfl
    · exact kept.currDb other old living d isDb
    · exact currDb (deleted.symm.trans living) d isDb
  · intro other isSession
    rcases List.mem_or_eq_of_mem_set isSession with old | rfl
    · exact kept.current other old
    · exact current

theorem stmt (living : session.deleted = false) {stmt : Statement V}
    (isStmt : stmt ∈ session.statements) : ExprKept state g stmt.exprStmt :=
  kept.exprs _
    (mem_exprs.mpr (Or.inl ⟨session, List.mem_of_getElem? at_s, living, stmt, isStmt, rfl⟩))

theorem fewer (living : session.deleted = false) {stmt : Statement V}
    (isStmt : stmt ∈ session.statements) (deleted : session'.deleted = session.deleted)
    (obsolete : session'.bObsolete = session.bObsolete)
    (stmts : ∀ stmt ∈ session'.statements, stmt ∈ session.statements)
    (currDb : ∀ d ∈ session'.currDb, d ∈ session.currDb ∨ state.liveDb d = true)
    (current : ∀ stmt, session'.currStatement = some stmt →
      stmt ∈ session'.lstStatement ∨ stmt.exprStmt.bound.physTable = none) :
    GroupKept state g (group.setSession s session') := by
  refine kept.setSession at_s deleted obsolete ?_ ?_ ?_ current
  · rcases kept.listed.listed_of_statements at_s living isStmt with isOpen | isClosed
    · exact Or.inl isOpen
    · exact Or.inr (Or.inl isClosed)
  · exact fun _ other isOther => kept.stmt at_s living (stmts other isOther)
  · intro _ d isDb
    rcases currDb d isDb with old | live
    · exact kept.currDb session (List.mem_of_getElem? at_s) living d old
    · exact dbKept_of_live live

theorem addStatement (isOpen : s ∈ group.mapSession.map Prod.snd) {stmt : Statement V} {time : ℕ}
    (exprKept : ExprKept state g stmt.exprStmt) :
    GroupKept state g (group.addStatement s session stmt time) := by
  have added : GroupKept state g (group.setSession s { session with
      lstWaittingStmt := session.lstWaittingStmt ++ [stmt] }) := by
    refine kept.setSession at_s rfl rfl (Or.inl isOpen) ?_ ?_ ?_
    · intro living other isStmt
      rw [Session.mem_statements, List.mem_append, List.mem_singleton] at isStmt
      rcases isStmt with (isOld | rfl) | isOld
      · exact kept.stmt at_s living (Session.mem_statements.mpr (Or.inl isOld))
      · exact exprKept
      · exact kept.stmt at_s living (Session.mem_statements.mpr (Or.inr isOld))
    · exact kept.currDb session (List.mem_of_getElem? at_s)
    · exact kept.current session (List.mem_of_getElem? at_s)
  exact { added with listed := { added.listed with } }

end

theorem emplaceId {e key : ℕ} (isMapped : e ∈ group.mapped) :
    GroupKept state g { group with mapIdExpr := emplace group.mapIdExpr key e } := by
  have bySql : e ∈ group.mapSqlExpr.map Prod.snd := by
    rcases List.mem_append.mp isMapped with byId | bySql
    · exact kept.mapped e byId
    · exact bySql
  have mapped : ∀ other ∈ (emplace group.mapIdExpr key e).map Prod.snd,
      other ∈ group.mapSqlExpr.map Prod.snd := by
    intro other byId
    rcases mem_emplace byId with old | rfl
    · exact kept.mapped other old
    · exact bySql
  refine { kept with exprs := ?_, listed := { kept.listed with }, mapped := mapped }
  intro exprStmt isExpr
  apply kept.exprs
  rcases mem_exprs.mp isExpr with isStmt | ⟨other, isOther, at_e⟩
  · exact mem_exprs.mpr (Or.inl isStmt)
  · refine mem_exprs.mpr (Or.inr ⟨other, ?_, at_e⟩)
    rcases List.mem_append.mp isOther with byId | isText
    · exact List.mem_append_right _ (mapped other byId)
    · exact List.mem_append_right _ isText

theorem cache {exprStmt : ExprStatement V} {key : ℕ} {text : String}
    (isNew : group.mapSqlExpr.lookup text = none) (exprKept : ExprKept state g exprStmt) :
    GroupKept state g (group.cache key text exprStmt) := by
  have texts : emplace group.mapSqlExpr text group.vctExpr.length =
      group.mapSqlExpr ++ [(text, group.vctExpr.length)] := by
    rw [emplace, isNew]
    rfl
  have byText : ∀ e, e ∈ (group.cache key text exprStmt).mapSqlExpr.map Prod.snd ↔
      e ∈ group.mapSqlExpr.map Prod.snd ∨ e = group.vctExpr.length := by
    intro e
    rw [SessionGroup.cache, texts, List.map_append, List.mem_append]
    exact or_congr_right List.mem_singleton
  have mapped : ∀ e ∈ (group.cache key text exprStmt).mapIdExpr.map Prod.snd,
      e ∈ (group.cache key text exprStmt).mapSqlExpr.map Prod.snd := by
    intro e byId
    exact (byText e).mpr ((mem_emplace byId).imp_left (kept.mapped e))
  refine { kept with exprs := ?_, listed := { kept.listed with }, mapped := mapped }
  intro other isExpr
  rcases mem_exprs.mp isExpr with isStmt | ⟨e, isMapped, at_e⟩
  · exact kept.exprs other (mem_exprs.mpr (Or.inl isStmt))
  · have bySql : e ∈ (group.cache key text exprStmt).mapSqlExpr.map Prod.snd := by
      rcases List.mem_append.mp isMapped with byId | bySql
      · exact mapped e byId
      · exact bySql
    rcases SessionsListed.of_concat at_e with old | ⟨-, rfl⟩
    · apply kept.exprs
      rcases (byText e).mp bySql with isText | rfl
      · exact mem_exprs.mpr (Or.inr ⟨e, List.mem_append_right _ isText, old⟩)
      · exact absurd (List.getElem?_eq_some_iff.mp old).1 (Nat.lt_irrefl _)
    · exact exprKept

theorem createSession (sid : UInt32) :
    GroupKept state g { group with
      vctSession := group.vctSession ++ [{}]
      mapSession :=
        if (group.mapSession.lookup sid).isSome then group.mapSession
        else group.mapSession ++ [(sid, group.vctSession.length)] } := by
  refine ⟨?_, ?_, kept.listed.createSession sid, kept.mapped, ?_⟩
  · intro exprStmt isExpr
    apply kept.exprs
    rcases mem_exprs.mp isExpr with ⟨session, isSession, living, isStmt⟩ | isMapped
    · rcases List.mem_append.mp isSession with old | isNew
      · exact mem_exprs.mpr (Or.inl ⟨session, old, living, isStmt⟩)
      · rw [List.mem_singleton.mp isNew] at isStmt
        rcases isStmt with ⟨stmt, isStmt, -⟩
        cases isStmt
    · exact mem_exprs.mpr (Or.inr isMapped)
  · intro session isSession living d isDb
    rcases List.mem_append.mp isSession with old | isNew
    · exact kept.currDb session old living d isDb
    · rw [List.mem_singleton.mp isNew] at isDb
      cases isDb
  · intro session isSession stmt current
    rcases List.mem_append.mp isSession with old | isNew
    · exact kept.current session old stmt current
    · rw [List.mem_singleton.mp isNew] at current
      cases current

theorem flagged (at_s : group.vctSession[s]? = some session) {group' : SessionGroup V}
    (sessions : group'.vctSession = group.vctSession.set s session')
    (maps : group'.mapIdExpr = group.mapIdExpr ∧ group'.mapSqlExpr = group.mapSqlExpr ∧
      group'.vctExpr = group.vctExpr) (living : session'.deleted = false → session.deleted = false)
    (same : session' = { session with
      bObsolete := session'.bObsolete
      deleted := session'.deleted })
    (listed : SessionsListed group') : GroupKept state g group' := by
  rcases maps with ⟨ids, texts, exprs⟩
  have isOld : session ∈ group.vctSession := List.mem_of_getElem? at_s
  refine ⟨?_, ?_, listed, ?_, ?_⟩
  · intro exprStmt isExpr
    apply kept.exprs
    rcases mem_exprs.mp isExpr with ⟨other, isSession, isLiving, isStmt⟩ | isMapped
    · rw [sessions] at isSession
      rcases List.mem_or_eq_of_mem_set isSession with old | rfl
      · exact mem_exprs.mpr (Or.inl ⟨other, old, isLiving, isStmt⟩)
      · rw [same] at isStmt
        exact mem_exprs.mpr (Or.inl ⟨session, isOld, living isLiving, isStmt⟩)
    · rw [SessionGroup.mapped, ids, texts, exprs] at isMapped
      exact mem_exprs.mpr (Or.inr isMapped)
  · intro other isSession isLiving d isDb
    rw [sessions] at isSession
    rcases List.mem_or_eq_of_mem_set isSession with old | rfl
    · exact kept.currDb other old isLiving d isDb
    · rw [same] at isDb
      exact kept.currDb session isOld (living isLiving) d isDb
  · rw [ids, texts]
    exact kept.mapped
  · intro other isSession
    rw [sessions] at isSession
    rcases List.mem_or_eq_of_mem_set isSession with old | rfl
    · exact kept.current other old
    · rw [same]
      exact kept.current session isOld

end

end GroupKept

/-! ## Steps of the server -/

namespace Kept

theorem grown (kept : Kept state) (same : state' = { state with
      vctDb := state'.vctDb
      vctTable := state'.vctTable })
    (tables : ∀ (t : ℕ) (table : PhysTable), state.vctTable[t]? = some table →
      state'.vctTable[t]? = some table) : Kept state' := by
  have objects : SameObjects state state' := by
    rw [same]
    exact ⟨fun _ => id, fun _ => id, fun _ => id, fun _ _ => id⟩
  refine ⟨?_, ?_, ?_, ?_, ?_, ?_, ?_⟩
  · intro j group at_j
    have at_j' : state.groups[j]? = some group := by
      rw [same] at at_j
      exact at_j
    exact (kept.groups j group at_j').of_same objects
  · intro t i isAction
    have isOld : (t, i) ∈ state.actions := by
      rw [same] at isAction
      exact isAction
    rcases kept.actions t i isOld with ⟨running, notDeleted, table, at_t, inside⟩
    refine ⟨?_, ?_, table, tables t table at_t, inside⟩
    · rw [same]
      exact running
    · rw [same]
      exact notDeleted
  · rw [same]
    exact kept.stoped
  · rw [same]
    exact fun round isRound => { kept.rounds round isRound with }
  · rw [same]
    exact kept.erasedIterator
  · rw [same]
    exact kept.endless
  · rw [same]
    exact kept.nullPointer

theorem dropped (kept : Kept state) (same : state' = { state with
      discardTable := state'.discardTable
      discardDb := state'.discardDb })
    (tables : ∀ t, state.liveTable t = true →
      state'.liveTable t = true ∨ Ref.table t ∉ state.refs)
    (fewer : ∀ t, state'.liveTable t = true → state.liveTable t = true)
    (dbs : ∀ d, state.liveDb d = true →
      state'.liveDb d = true ∨ Ref.db d ∉ state.refs ∧ ¬state.Overlooked d) : Kept state' := by
  have deletedDb : state'.deletedDb = state.deletedDb := by rw [same]
  have passed : ∀ j d, state'.Passed j d → state.Passed j d := by
    intro j d isPassed
    rw [same] at isPassed
    exact isPassed
  have isRef : ∀ (j : ℕ) (group : SessionGroup V), state.groups[j]? = some group →
      ∀ exprStmt ∈ group.exprs, ∀ ref ∈ exprStmt.bound.refs, ref ∈ state.refs := by
    intro j group at_j exprStmt isExpr ref isRef
    exact mem_refs.mpr ⟨group, List.mem_of_getElem? at_j, exprStmt, isExpr, isRef⟩
  have stays : ∀ d, Ref.db d ∈ state.refs → state.liveDb d = true → state'.liveDb d = true := by
    intro d refers live
    rcases dbs d live with stillLive | ⟨unused, -⟩
    · exact stillLive
    · exact absurd refers unused
  refine ⟨?_, ?_, ?_, ?_, ?_, ?_, ?_⟩
  · intro j group at_j
    have at_j' : state.groups[j]? = some group := by
      rw [same] at at_j
      exact at_j
    have groupKept := kept.groups j group at_j'
    refine { groupKept with exprs := ?_, currDb := ?_ }
    · intro exprStmt isExpr
      have exprKept := groupKept.exprs exprStmt isExpr
      have refers := isRef j group at_j' exprStmt isExpr
      refine ⟨?_, ?_, ?_, ?_, exprKept.transaction⟩
      · intro t isTable
        rcases tables t (exprKept.table t isTable) with live | unused
        · exact live
        · exact absurd (refers _ (mem_refs_table.mpr isTable)) unused
      · intro d isDb
        exact stays d (refers _ (mem_refs_db.mpr (Or.inr isDb))) (exprKept.physDb d isDb)
      · intro d isDb
        refine ⟨deletedDb ▸ (exprKept.db d isDb).notDeleted, ?_⟩
        refine (exprKept.db d isDb).inTime.imp ?_ fun notPassed isPassed =>
          notPassed (passed j d isPassed)
        exact stays d (refers _ (mem_refs_db.mpr (Or.inl isDb)))
      · intro none d isDb
        exact stays d (refers _ (mem_refs_db.mpr (Or.inl isDb))) (exprKept.noTable none d isDb)
    · intro session isSession living d isDb
      have dbKept := groupKept.currDb session isSession living d isDb
      refine ⟨deletedDb ▸ dbKept.notDeleted, ?_⟩
      rcases dbKept.inTime with live | notPassed
      · rcases dbs d live with stillLive | ⟨-, notOverlooked⟩
        · exact Or.inl stillLive
        · refine Or.inr fun isPassed => notOverlooked ?_
          exact ⟨(group, j), List.mem_zipIdx_iff_getElem?.mpr at_j',
            ⟨session, isSession, living, isDb⟩, passed j d isPassed⟩
      · exact Or.inr fun isPassed => notPassed (passed j d isPassed)
  · rw [same]
    exact kept.actions
  · intro t i isStoped
    have isOld : (t, i) ∈ state.stopedTask := by
      rw [same] at isStoped
      exact isStoped
    cases live : state'.liveTable t with
    | false => rfl
    | true =>
        have wasLive := fewer t live
        rw [kept.stoped t i isOld] at wasLive
        cases wasLive
  · rw [same]
    exact fun round isRound => { kept.rounds round isRound with }
  · rw [same]
    exact kept.erasedIterator
  · rw [same]
    exact kept.endless
  · rw [same]
    exact kept.nullPointer

theorem effect (kept : Kept state) (exprStmt : ExprStatement V) (unused : state.Unused exprStmt) :
    Kept (state.effect exprStmt) := by
  rcases unused with ⟨tables, dbs⟩
  unfold ServState.effect
  unfold removedTables at tables
  unfold removedDbs at dbs
  split
  · unfold addDb
    split
    · exact kept
    · exact kept.grown rfl fun _ _ at_t => at_t
  · rename_i dbName kind
    simp only [kind] at tables dbs
    refine kept.dropped rfl ?_ ?_ ?_
    · intro t live
      by_cases isRemoved : t ∈ state.listTables dbName
      · exact Or.inr (tables t isRemoved)
      · exact Or.inl (liveTable_removeTables.mpr ⟨live, isRemoved⟩)
    · exact fun t live => (liveTable_removeTables.mp live).1
    · intro d live
      by_cases isRemoved : state.findDb dbName = some d
      · exact Or.inr (dbs d (Option.mem_toList.mpr isRemoved))
      · exact Or.inl (liveDb_removeDb.mpr ⟨live, isRemoved⟩)
  · split
    · exact kept
    · unfold addTable
      split
      · exact kept
      · exact kept.grown rfl fun t _ at_t =>
          (List.getElem?_append_left (List.getElem?_eq_some_iff.mp at_t).1).trans at_t
  · rename_i table kind
    simp only [kind] at tables
    refine kept.dropped rfl ?_ ?_ fun _ => Or.inl
    · intro t live
      by_cases isRemoved : t ∈ (exprStmt.bound.dbName.bind fun dbName =>
          state.findTable dbName table.tName).toList
      · exact Or.inr (tables t isRemoved)
      · exact Or.inl (liveTable_removeTables.mpr ⟨live, isRemoved⟩)
    · exact fun t live => (liveTable_removeTables.mp live).1
  · exact kept

theorem newCurrDb {exprStmt : ExprStatement V} {currDb : Option ℕ} {d : ℕ}
    (isDb : d ∈ state.newCurrDb exprStmt currDb) :
    d ∈ currDb ∨ (state.effect exprStmt).liveDb d = true := by
  unfold ServState.newCurrDb at isDb
  split at isDb
  · rename_i dbName kind
    have same : state.effect exprStmt = state := by
      unfold ServState.effect
      rw [kind]
    rw [same]
    cases found : state.findDb dbName with
    | none =>
        rw [found, Option.none_or] at isDb
        exact Or.inl isDb
    | some db =>
        rw [found, Option.some_or] at isDb
        cases isDb
        exact Or.inr (liveDb_of_findDb found)
  · exact Or.inl isDb

theorem statementAction (kept : Kept state) (at_g : state.groups[g]? = some group)
    {sid exprId : UInt32} {sql : String}
    (released : ∀ session ∈ group.findSession sid,
      group.taken (state.currDb session) sid exprId sql = none →
        ∀ bound ∈ state.prepared parse fuel session sql,
          (∀ d ∈ bound.physDb, state.liveDb d = true) ∧
            ∀ d ∈ bound.db, state.liveDb d = true ∨
              bound.physTable.isSome = true ∧ ¬state.Passed g d)
    (step : state.statementAction parse fuel g group sid exprId sql = some state') :
      Kept state' := by
  have groupKept := kept.groups g group at_g
  unfold ServState.statementAction at step
  split at step
  · cases step
    exact kept
  · rename_i s found
    rcases Option.bind_eq_some_iff.mp step with ⟨session, at_s, step⟩
    have isOpen : s ∈ group.mapSession.map Prod.snd := mem_of_lookup found
    have living := (groupKept.listed.opened s isOpen).2 session at_s
    have isFound : session ∈ group.findSession sid := by
      unfold SessionGroup.findSession
      rw [found]
      exact at_s
    have released := released session isFound
    dsimp only at step
    split at step
    · rename_i e taken
      rcases Option.map_eq_some_iff.mp step with ⟨exprStmt, at_e, rfl⟩
      have isMapped := SessionGroup.mapped_of_taken taken
      apply kept.setGroup
      refine (groupKept.emplaceId isMapped).addStatement at_s isOpen ?_
      exact groupKept.exprs exprStmt (mem_exprs.mpr (Or.inr ⟨e, isMapped, at_e⟩))
    · rename_i isNew
      split at step
      · cases step
        exact kept
      · rename_i stmt parsed
        split at step
        · cases step
        · cases step
          exact kept
        · rename_i bound prepared
          have isPrepared : bound ∈ state.prepared parse fuel session sql := by
            unfold ServState.prepared
            rw [parsed]
            dsimp only
            rw [prepared]
            rfl
          rcases released isNew bound isPrepared with ⟨physDb, db⟩
          have exprKept : ExprKept state g ⟨sql, (state.currDb session).map Prod.snd,
            stmt, bound⟩ :=
            exprKept_of_preprocess prepared
              (groupKept.currDb session (List.mem_of_getElem? at_s) living) physDb db
          split at step
          · cases step
            have noText : group.mapSqlExpr.lookup (textKey (state.currDb session) sql) = none := by
              unfold SessionGroup.taken at isNew
              split at isNew
              · cases isNew
              · exact isNew
            apply kept.setGroup
            exact (groupKept.cache noText exprKept).addStatement at_s isOpen exprKept
          · cases step
            apply kept.setGroup
            exact groupKept.addStatement at_s isOpen exprKept
      · cases step

theorem startStmt (kept : Kept state) (at_g : state.groups[g]? = some group)
    (at_s : group.vctSession[s]? = some session) (living : session.deleted = false)
    (step : state.startStmt g s group session = some state') : Kept state' := by
  have groupKept := kept.groups g group at_g
  unfold ServState.startStmt at step
  split at step
  · rename_i stmt rest noCurrent waiting
    have isStmt : stmt ∈ session.statements := by
      rw [Session.mem_statements, waiting]
      exact Or.inl List.mem_cons_self
    split at step
    · cases step
      apply kept.setGroup
      refine groupKept.fewer at_s living isStmt rfl rfl ?_ (fun _ => Or.inl) ?_
      · intro other isOther
        simp only [Session.mem_statements, waiting, List.mem_cons] at isOther ⊢
        exact isOther.imp_left Or.inr
      · intro other current
        rw [noCurrent] at current
        cases current
    · cases step
      apply kept.setGroup
      refine groupKept.fewer at_s living isStmt rfl rfl ?_ (fun _ => Or.inl) ?_
      · intro other isOther
        simp only [Session.mem_statements, waiting, List.mem_cons, List.mem_append,
          Option.some.injEq] at isOther ⊢
        rcases isOther with isRest | rfl | isOld | isNew
        · exact Or.inl (Or.inr isRest)
        · exact Or.inl (Or.inl rfl)
        · exact Or.inr (Or.inr isOld)
        · split at isNew
          · cases isNew
          · exact Or.inl (Or.inl (List.mem_singleton.mp isNew))
      · intro other current
        cases current
        cases kind : stmt.exprStmt.stmt with
        | transaction => exact Or.inr ((groupKept.stmt at_s living isStmt).transaction kind)
        | _ => exact Or.inl (List.mem_append_right _ (List.mem_singleton_self _))
  · cases step

theorem endStmt (kept : Kept state) (at_g : state.groups[g]? = some group)
    (at_s : group.vctSession[s]? = some session) (living : session.deleted = false)
    {succeeds closed : Bool}
    (unused : succeeds = true → ∀ stmt ∈ session.currStatement, state.Unused stmt.exprStmt)
    (step : state.endStmt g s group session succeeds closed = some state') : Kept state' := by
  rcases Option.map_eq_some_iff.mp step with ⟨stmt, current, rfl⟩
  have isStmt : stmt ∈ session.statements := Session.mem_statements.mpr (Or.inr (Or.inl current))
  have fewer : ∀ other : Statement V, other ∈ ({ session with
      currStatement := none
      lstStatement := if closed then [] else session.lstStatement } : Session V).statements →
      other ∈ session.statements := by
    intro other isOther
    simp only [Session.mem_statements, reduceCtorEq, false_or] at isOther ⊢
    rcases isOther with isWaiting | isOld
    · exact Or.inl isWaiting
    · cases closed with
      | true => cases isOld
      | false => exact Or.inr (Or.inr isOld)
  cases succeeds with
  | false =>
      apply kept.setGroup
      exact (kept.groups g group at_g).fewer at_s living isStmt rfl rfl fewer (fun _ => Or.inl)
        fun _ none => by cases none
  | true =>
      have managed := kept.effect stmt.exprStmt (unused rfl stmt current)
      have groups : (state.effect stmt.exprStmt).groups[g]? = some group :=
        (congrArg (·[g]?) (effect_groups state stmt.exprStmt)).trans at_g
      apply managed.setGroup
      exact (managed.groups g group groups).fewer at_s living isStmt rfl rfl fewer
        (fun _ => newCurrDb) fun _ none => by cases none

theorem next (kept : Kept state) {event : ServEvent} (released : state.Released parse fuel event)
    (step : state.next parse fuel event = some state') : Kept state' := by
  unfold ServState.next at step
  rcases Option.ite_none_left_eq_some.mp step with ⟨-, step⟩
  cases event with
  | tick span =>
      cases step
      refine { kept with groups := ?_, rounds := ?_ }
      · exact fun j group at_j => (kept.groups j group at_j).of_same
          ⟨fun _ => id, fun _ => id, fun _ => id, fun _ _ => id⟩
      · intro round isRound
        have roundKept := kept.rounds round isRound
        exact { roundKept with started := Nat.le_add_right_of_le roundKept.started }
  | createSession g sid =>
      rcases Option.map_eq_some_iff.mp step with ⟨group, at_g, rfl⟩
      exact kept.setGroup ((kept.groups g group at_g).createSession sid)
  | closeSession g sid =>
      rcases Option.bind_eq_some_iff.mp step with ⟨group, at_g, step⟩
      split at step
      · cases step
        exact kept
      · rename_i s found
        rcases Option.map_eq_some_iff.mp step with ⟨session, at_s, rfl⟩
        have groupKept := kept.groups g group at_g
        apply kept.setGroup
        exact groupKept.flagged at_s rfl ⟨rfl, rfl, rfl⟩ (fun living => living) rfl
          (groupKept.listed.closeSession found at_s)
  | useDb g sid dbName =>
      rcases Option.bind_eq_some_iff.mp step with ⟨group, at_g, step⟩
      split at step
      · cases step
        exact kept
      · rename_i s isOpen
        rcases Option.bind_eq_some_iff.mp step with ⟨session, at_s, step⟩
        rcases Option.map_eq_some_iff.mp step with ⟨db, found, rfl⟩
        have groupKept := kept.groups g group at_g
        apply kept.setGroup
        refine groupKept.setSession at_s rfl rfl (Or.inl (mem_of_lookup isOpen)) ?_ ?_ ?_
        · exact fun living stmt isStmt => groupKept.stmt at_s living isStmt
        · rintro - _ ⟨⟩
          exact dbKept_of_live (liveDb_of_findDb found)
        · exact groupKept.current session (List.mem_of_getElem? at_s)
  | statement g sid exprId sql =>
      rcases Option.bind_eq_some_iff.mp step with ⟨group, at_g, step⟩
      exact kept.statementAction at_g (released group at_g) step
  | startStmt g s =>
      rcases onSession_eq.mp step with ⟨group, session, at_g, at_s, living, acted⟩
      exact kept.startStmt at_g at_s living acted
  | endStmt g s succeeds closed =>
      rcases onSession_eq.mp step with ⟨group, session, at_g, at_s, living, acted⟩
      refine kept.endStmt at_g at_s living ?_ acted
      exact fun isSuccess => released isSuccess group at_g session at_s
  | deleteSession g s =>
      rcases onSession_eq.mp step with ⟨group, session, at_g, at_s, living, acted⟩
      rcases Option.ite_none_right_eq_some.mp acted with ⟨⟨isClosed, -⟩, acted⟩
      cases acted
      have groupKept := kept.groups g group at_g
      apply kept.setGroup
      exact groupKept.flagged at_s rfl ⟨rfl, rfl, rfl⟩ (fun _ => living) rfl
        (groupKept.listed.deleteSession at_s isClosed)
  | addAction g s i =>
      rcases onSession_eq.mp step with ⟨group, session, at_g, at_s, living, acted⟩
      rcases Option.bind_eq_some_iff.mp acted with ⟨t, isTable, acted⟩
      rcases Option.bind_eq_some_iff.mp acted with ⟨table, at_t, acted⟩
      rcases Option.ite_none_right_eq_some.mp acted with ⟨inside, acted⟩
      rcases Option.bind_eq_some_iff.mp isTable with ⟨stmt, current, isTable⟩
      cases acted
      refine { kept with groups := ?_, actions := ?_, rounds := ?_ }
      · exact fun j group at_j => (kept.groups j group at_j).of_same
          ⟨fun _ => id, fun _ => id, fun _ => id, fun _ _ => id⟩
      · intro t' i' isAction
        rcases List.mem_append.mp isAction with old | isNew
        · exact kept.actions t' i' old
        · cases List.mem_singleton.mp isNew
          have isStmt : stmt ∈ session.statements :=
            Session.mem_statements.mpr (Or.inr (Or.inl current))
          have live := ((kept.groups g group at_g).stmt at_s living isStmt).table t isTable
          refine ⟨?_, (liveTable_iff.mp live).2, table, at_t, inside⟩
          intro isStoped
          rw [kept.stoped t i isStoped] at live
          cases live
      · exact fun round isRound => { kept.rounds round isRound with }
  | endAction k =>
      rcases Option.ite_none_right_eq_some.mp step with ⟨-, step⟩
      cases step
      refine { kept with groups := ?_, actions := ?_, rounds := ?_ }
      · exact fun j group at_j => (kept.groups j group at_j).of_same
          ⟨fun _ => id, fun _ => id, fun _ => id, fun _ _ => id⟩
      · exact fun t i isAction => kept.actions t i (List.mem_of_mem_eraseIdx isAction)
      · exact fun round isRound => { kept.rounds round isRound with }
  | stopTask t i =>
      rcases Option.ite_none_right_eq_some.mp step with ⟨⟨isDiscarded, noAction⟩, step⟩
      cases step
      refine { kept with groups := ?_, actions := ?_, stoped := ?_, rounds := ?_ }
      · exact fun j group at_j => (kept.groups j group at_j).of_same
          ⟨fun _ => id, fun _ => id, fun _ => id, fun _ _ => id⟩
      · intro t' i' isAction
        rcases kept.actions t' i' isAction with ⟨running, others⟩
        refine ⟨?_, others⟩
        intro isStoped
        rcases List.mem_cons.mp isStoped with same | old
        · exact noAction (same ▸ isAction)
        · exact running old
      · intro t' i' isStoped
        rcases List.mem_cons.mp isStoped with same | old
        · cases same
          exact not_live_of_discardTable isDiscarded
        · exact kept.stoped t' i' old
      · exact fun round isRound => { kept.rounds round isRound with }
  | newCleaner =>
      cases step
      refine { kept with groups := ?_, rounds := ?_ }
      · refine fun j group at_j => (kept.groups j group at_j).of_same
          ⟨fun _ => id, fun _ => id, fun _ => id, ?_⟩
        rintro j d ⟨round, isRound, isFinished, late⟩
        rcases List.mem_append.mp isRound with old | isNew
        · exact ⟨round, old, isFinished, late⟩
        · rw [List.mem_singleton.mp isNew] at isFinished
          cases isFinished
      · intro round isRound
        rcases List.mem_append.mp isRound with old | isNew
        · exact { kept.rounds round old with }
        · rw [List.mem_singleton.mp isNew]
          exact ⟨le_rfl, List.nodup_nil, fun _ isFinished => by cases isFinished⟩
  | cleaner r g =>
      rcases Option.bind_eq_some_iff.mp step with ⟨round, at_r, step⟩
      rcases Option.bind_eq_some_iff.mp step with ⟨group, at_g, step⟩
      rcases Option.ite_none_left_eq_some.mp step with ⟨unfinished, step⟩
      rcases released group at_g with ⟨notEmpty, noTruncate⟩
      rcases kept.cleaner_runs at_g notEmpty noTruncate with ⟨after, ran⟩
      rw [ran] at step
      cases step
      exact kept.cleaner at_r at_g unfinished notEmpty ran
  | endInLoop r g g' s => exact absurd released id

theorem initial (initial : Initial state) : Kept state := by
  refine ⟨?_, ?_, ?_, ?_, initial.erasedIterator, initial.endless, initial.nullPointer⟩
  · intro g group at_g
    rcases initial.groups group (List.mem_of_getElem? at_g) with
      ⟨noSession, -, -, noMap, noObsolete, noId, noSql⟩
    refine ⟨?_, ?_, ⟨?_, ?_, ?_, ?_, ?_, ?_⟩, ?_, ?_⟩
    · simp [SessionGroup.exprs, SessionGroup.mapped, noSession, noId, noSql]
    all_goals simp [noSession, noMap, noObsolete, noId]
  · simp [initial.actions]
  · simp [initial.stopedTask]
  · simp [initial.rounds]

end Kept

end

namespace ServState

/-- Texts as the parser takes them, DROP DATABASE among them. -/
def parseDrop (sql : String) : Option (List (SqlStmt ℤ)) :=
  if sql = "DROP DATABASE a" then some [.dropDatabase "a"] else parseText sql

def twoGroups : ServState ℤ := { loaded with groups := [{}, {}] }

theorem initial_twoGroups : Initial twoGroups := by
  refine ⟨?_, rfl, rfl, rfl, rfl, rfl, rfl, rfl, rfl, rfl, rfl⟩
  intro group isGroup
  have empty : group = {} := by simpa [twoGroups] using isGroup
  rw [empty]
  exact ⟨rfl, rfl, rfl, rfl, rfl, rfl, rfl⟩

def cleanerRound (r : ℕ) : List ServEvent := [.newCleaner, .cleaner r 0, .cleaner r 1]

/-- Two groups have a database as their current one; a statement about its table, the action of the
statement and its cached expression have come to their ends before the database is dropped. -/
def droppedDatabase : List ServEvent :=
  [.createSession 0 7, .createSession 1 8, .useDb 0 7 "a", .useDb 1 8 "a",
    .statement 0 7 1 "DELETE FROM t WHERE k = 1", .startStmt 0 0, .addAction 0 0 0,
    .endStmt 0 0 true true, .endAction 0, .tick (3600 * 1000 + 1)] ++ cleanerRound 0 ++
  [.statement 1 8 1 "DROP DATABASE a", .startStmt 1 0, .endStmt 1 0 true true, .stopTask 0 0,
    .stopTask 1 0, .tick 1] ++ cleanerRound 1

/-- A table is dropped and reclaimed while a statement about it waits. -/
def droppedWaiting : List ServEvent :=
  [.createSession 0 7, .createSession 0 8, .useDb 0 7 "a", .useDb 0 8 "a",
    .statement 0 7 1 "DELETE FROM t WHERE k = 1", .statement 0 8 1 "DROP TABLE t"] ++ toEnd 1 ++
  [.stopTask 0 0, .tick 1, .newCleaner, .cleaner 0 0]

end ServState

end ExprCache

end RapidDb
