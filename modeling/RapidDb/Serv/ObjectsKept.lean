import RapidDb.Serv.DroppedObjects

/-!
# What the cleaner sees to

In a run that meets the condition what an expression refers to has not been dropped, except for the
database of a table that has not, and a database that is current has not been overlooked. When a
group has gone through its sessions and expressions, the databases it still refers to have been
checked in that call, and it may be done with the round.
-/

namespace RapidDb

open Transition

namespace ExprCache

variable {V : Type} {parse : String → Option (List (SqlStmt V))} {fuel : ℕ}

/-- A database that a group refers to: it has not been deleted, and it has been dropped only if the
group is in time to see it. -/
structure DbKept (state : ServState V) (g d : ℕ) : Prop where
  notDeleted : d ∉ state.deletedDb
  inTime : state.liveDb d = true ∨ ¬state.Passed g d

structure ExprKept (state : ServState V) (g : ℕ) (exprStmt : ExprStatement V) : Prop where
  table : ∀ t ∈ exprStmt.bound.physTable, state.liveTable t = true
  physDb : ∀ d ∈ exprStmt.bound.physDb, state.liveDb d = true
  db : ∀ d ∈ exprStmt.bound.db, DbKept state g d
  noTable : exprStmt.bound.physTable = none → ∀ d ∈ exprStmt.bound.db, state.liveDb d = true
  transaction : exprStmt.stmt = .transaction → exprStmt.bound.physTable = none

structure GroupKept (state : ServState V) (g : ℕ) (group : SessionGroup V) : Prop where
  exprs : ∀ exprStmt ∈ group.exprs, ExprKept state g exprStmt
  currDb : ∀ session ∈ group.vctSession, session.deleted = false → ∀ d ∈ session.currDb,
    DbKept state g d
  listed : SessionsListed group
  mapped : ∀ e ∈ group.mapIdExpr.map Prod.snd, e ∈ group.mapSqlExpr.map Prod.snd
  current : ∀ session ∈ group.vctSession, ∀ stmt, session.currStatement = some stmt →
    stmt ∈ session.lstStatement ∨ stmt.exprStmt.bound.physTable = none

/-- A round takes the groups one by one, and its start is not in the future. -/
structure RoundKept (state : ServState V) (round : Round) : Prop where
  started : round.dtStart ≤ state.time
  once : round.finished.Nodup
  groups : ∀ g ∈ round.finished, g < state.groups.length

/-- The invariant of runs that meet the condition. -/
structure Kept (state : ServState V) : Prop where
  groups : ∀ (g : ℕ) (group : SessionGroup V), state.groups[g]? = some group →
    GroupKept state g group
  actions : ∀ t i, (t, i) ∈ state.actions → (t, i) ∉ state.stopedTask ∧ t ∉ state.deletedTable ∧
    ∃ table : PhysTable, state.vctTable[t]? = some table ∧ i < table.vctIndex.length
  stoped : ∀ t i, (t, i) ∈ state.stopedTask → state.liveTable t = false
  rounds : ∀ round ∈ state.rounds, RoundKept state round
  erasedIterator : state.erasedIterator = false
  endless : state.endless = false
  nullPointer : state.nullPointer = false

open ServState

theorem not_deleted_of_liveDb {state : ServState V} {d : ℕ} (live : state.liveDb d = true) :
    d ∉ state.deletedDb :=
  (liveDb_iff.mp live).2

theorem dbKept_of_live {state : ServState V} {g d : ℕ} (live : state.liveDb d = true) :
    DbKept state g d :=
  ⟨not_deleted_of_liveDb live, Or.inl live⟩

theorem Kept.safelyReclaimed {state : ServState V} (kept : Kept state) : state.SafelyReclaimed := by
  refine ⟨?_, ?_, ?_, kept.erasedIterator, kept.endless, kept.nullPointer, ?_⟩
  · intro group isGroup session isSession living d isDb
    rcases List.mem_iff_getElem?.mp isGroup with ⟨g, at_g⟩
    exact ((kept.groups g group at_g).currDb session isSession living d isDb).notDeleted
  · intro ref isRef
    rcases mem_refs.mp isRef with ⟨group, isGroup, exprStmt, isExpr, isRef⟩
    rcases List.mem_iff_getElem?.mp isGroup with ⟨g, at_g⟩
    have exprKept := (kept.groups g group at_g).exprs exprStmt isExpr
    cases ref with
    | table t =>
        have live := exprKept.table t (mem_refs_table.mp isRef)
        exact decide_eq_false (liveTable_iff.mp live).2
    | db d =>
        apply decide_eq_false
        rcases mem_refs_db.mp isRef with isDb | isPhysDb
        · exact (exprKept.db d isDb).notDeleted
        · exact not_deleted_of_liveDb (exprKept.physDb d isPhysDb)
  · rintro ⟨t, i⟩ isAction
    exact (kept.actions t i isAction).2.1
  · intro group isGroup
    rcases List.mem_iff_getElem?.mp isGroup with ⟨g, at_g⟩
    exact (kept.groups g group at_g).listed.closed

/-! ## States that differ elsewhere -/

/-- What is live stays so, nothing is deleted, and no group gets late. -/
structure SameObjects (state state' : ServState V) : Prop where
  liveTable : ∀ t, state.liveTable t = true → state'.liveTable t = true
  liveDb : ∀ d, state.liveDb d = true → state'.liveDb d = true
  deletedDb : ∀ d ∈ state'.deletedDb, d ∈ state.deletedDb
  passed : ∀ g d, state'.Passed g d → state.Passed g d

theorem SameObjects.setGroup (state : ServState V) (g : ℕ) (group : SessionGroup V) :
    SameObjects state (state.setGroup g group) := by
  refine ⟨fun _ => id, fun _ => id, fun _ => id, ?_⟩
  rintro j d ⟨round, isRound, isFinished, pending, old⟩
  refine ⟨round, isRound, isFinished, ?_, old⟩
  rwa [ServState.setGroup, List.length_set] at pending

variable {state state' : ServState V}

theorem DbKept.of_same {g d : ℕ} (kept : DbKept state g d)
    (same : SameObjects state state') : DbKept state' g d := by
  refine ⟨fun isDeleted => kept.notDeleted (same.deletedDb d isDeleted), ?_⟩
  exact kept.inTime.imp (same.liveDb d) fun notPassed passed => notPassed (same.passed g d passed)

variable {g : ℕ}

theorem ExprKept.of_same {exprStmt : ExprStatement V}
    (kept : ExprKept state g exprStmt) (same : SameObjects state state') :
    ExprKept state' g exprStmt where
  table := fun t isTable => same.liveTable t (kept.table t isTable)
  physDb := fun d isDb => same.liveDb d (kept.physDb d isDb)
  db := fun d isDb => (kept.db d isDb).of_same same
  noTable := fun none d isDb => same.liveDb d (kept.noTable none d isDb)
  transaction := kept.transaction

variable {group : SessionGroup V}

theorem GroupKept.of_same
    (kept : GroupKept state g group) (same : SameObjects state state') : GroupKept state' g group :=
  { kept with
    exprs := fun exprStmt isExpr => (kept.exprs exprStmt isExpr).of_same same
    currDb := fun session isSession living d isDb =>
      (kept.currDb session isSession living d isDb).of_same same }

theorem Kept.setGroup {state : ServState V} (kept : Kept state)
    (groupKept : GroupKept state g group) : Kept (state.setGroup g group) := by
  refine { kept with groups := ?_, rounds := ?_ }
  · intro j other at_j
    have same := SameObjects.setGroup state g group
    by_cases j_g : j = g
    · subst j_g
      have isGroup := List.getElem?_eq_some_iff.mp at_j
      rw [ServState.setGroup,
        List.getElem?_set_self (by simpa [ServState.setGroup] using isGroup.1)]
        at at_j
      cases at_j
      exact groupKept.of_same same
    · rw [ServState.setGroup, List.getElem?_set_ne (Ne.symm j_g)] at at_j
      exact (kept.groups j other at_j).of_same same
  · intro round isRound
    refine { kept.rounds round isRound with groups := ?_ }
    intro j isFinished
    rw [ServState.setGroup, List.length_set]
    exact (kept.rounds round isRound).groups j isFinished

/-! ## The checks of the cleaner -/

theorem passed_of_times {g d : ℕ} (started : ∀ round ∈ state.rounds, round.dtStart ≤ state.time)
    (rounds : state'.rounds = state.rounds) (length : state'.groups.length = state.groups.length)
    (times : state'.dbChecked d = state.dbChecked d ∨ state'.dbChecked d = state.time)
    (passed : state'.Passed g d) : state.Passed g d := by
  rcases passed with ⟨round, isRound, isFinished, pending, old⟩
  rw [rounds] at isRound
  rw [length] at pending
  rcases times with same | set
  · exact ⟨round, isRound, isFinished, pending, same ▸ old⟩
  · rw [set] at old
    exact absurd (started round isRound) (Nat.not_le.mpr old)

theorem ServState.Checked.sameObjects (checked : Checked state state')
    (started : ∀ round ∈ state.rounds, round.dtStart ≤ state.time) : SameObjects state state' := by
  have live := checked.sameManagers
  refine ⟨?_, ?_, ?_, ?_⟩
  · exact fun t => (live.liveTable t).trans
  · exact fun d => (live.liveDb d).trans
  · rw [checked.same]
    exact fun _ => id
  · intro g d passed
    apply passed_of_times started _ checked.length (checked.times d) passed
    rw [checked.same]

theorem GroupKept.checked {state : ServState V} {group group' : SessionGroup V}
    (kept : GroupKept state g group) (checked : GroupChecked group group') :
    GroupKept state g group' := by
  have sessions : ∀ session' ∈ group'.vctSession, ∃ session ∈ group.vctSession,
      session.Checked session' := by
    intro session' isSession
    rcases List.mem_iff_getElem?.mp isSession with ⟨s, at_s⟩
    rcases checked.sessions s session' at_s with ⟨session, at_s', sessionChecked⟩
    exact ⟨session, List.mem_of_getElem? at_s', sessionChecked⟩
  refine ⟨?_, ?_, kept.listed.groupChecked checked, ?_, ?_⟩
  · intro exprStmt isExpr
    apply kept.exprs
    rcases mem_exprs.mp isExpr with ⟨session', isSession, living, isStmt⟩ | isMapped
    · rcases sessions session' isSession with ⟨session, isSession', sessionChecked⟩
      rw [sessionChecked.statements] at isStmt
      refine mem_exprs.mpr (Or.inl ⟨session, isSession', ?_, isStmt⟩)
      rcases sessionChecked with rfl | rfl
      · exact living
      · exact living
    · rw [checked.same] at isMapped
      exact mem_exprs.mpr (Or.inr isMapped)
  · intro session' isSession living d isDb
    rcases sessions session' isSession with ⟨session, isSession', rfl | rfl⟩
    · exact kept.currDb _ isSession' living d isDb
    · cases isDb
  · rw [checked.same]
    exact kept.mapped
  · intro session' isSession stmt current
    rcases sessions session' isSession with ⟨session, isSession', rfl | rfl⟩
    · exact kept.current _ isSession' stmt current
    · exact kept.current session isSession' stmt current

theorem Kept.checked (kept : Kept state) (checked : Checked state state') :
    Kept state' := by
  have started : ∀ round ∈ state.rounds, round.dtStart ≤ state.time :=
    fun round isRound => (kept.rounds round isRound).started
  have same := checked.sameObjects started
  have managers := checked.sameManagers
  refine ⟨?_, ?_, ?_, ?_, ?_, ?_, ?_⟩
  · intro g group' at_g
    rcases checked.groups g group' at_g with ⟨group, at_g', groupChecks⟩
    exact ((kept.groups g group at_g').checked groupChecks).of_same same
  · rw [checked.same]
    exact kept.actions
  · intro t i isStoped
    rw [managers.liveTable]
    rw [checked.same] at isStoped
    exact kept.stoped t i isStoped
  · intro round isRound
    have rounds : round ∈ state.rounds := by
      rw [checked.same] at isRound
      exact isRound
    refine ⟨checked.time ▸ (kept.rounds round rounds).started, (kept.rounds round rounds).once, ?_⟩
    rw [checked.length]
    exact (kept.rounds round rounds).groups
  · rw [checked.same]
    exact kept.erasedIterator
  · rw [checked.same]
    exact kept.endless
  · rw [checked.same]
    exact kept.nullPointer

/-- The database of an expression has been checked in this call. -/
def ExprFresh (state : ServState V) (exprStmt : ExprStatement V) : Prop :=
  ∀ t ∈ exprStmt.bound.physTable, state.liveTable t = true → ∀ d ∈ exprStmt.bound.db,
    state.dbChecked d = state.time

/-- A session has been checked in this call. -/
def SessionFresh (state : ServState V) (g s : ℕ) : Prop :=
  ∀ group ∈ state.groups[g]?, ∀ session ∈ group.vctSession[s]?,
    (∀ d ∈ session.currDb, state.liveDb d = true) ∧
      ∀ stmt ∈ session.lstWaittingStmt ++ session.lstStatement, ExprFresh state stmt.exprStmt

theorem ExprFresh.checked {exprStmt : ExprStatement V}
    (fresh : ExprFresh state exprStmt) (checked : Checked state state') :
    ExprFresh state' exprStmt := by
  intro t isTable live d isDb
  rw [checked.sameManagers.liveTable] at live
  rw [checked.time]
  rcases checked.times d with same | set
  · exact same.trans (fresh t isTable live d isDb)
  · exact set

theorem SessionFresh.checked {g s : ℕ} (fresh : SessionFresh state g s)
    (checked : Checked state state') : SessionFresh state' g s := by
  intro group' at_g session' at_s
  rcases checked.groups g group' at_g with ⟨group, at_g', groupChecks⟩
  rcases groupChecks.sessions s session' at_s with ⟨session, at_s', sessionChecked⟩
  rcases fresh group at_g' session at_s' with ⟨current, stmts⟩
  rcases sessionChecked with rfl | rfl
  · refine ⟨?_, fun stmt isStmt => (stmts stmt isStmt).checked checked⟩
    exact fun d isDb => (checked.sameManagers.liveDb d).trans (current d isDb)
  · refine ⟨?_, fun stmt isStmt => (stmts stmt isStmt).checked checked⟩
    exact fun _ isDb => (nomatch isDb)

theorem foldlM_establishes {ι : Type} {step : ServState V → ι → Option (ServState V)}
    {fresh : ServState V → ι → Prop}
    (checks : ∀ item state state', step state item = some state' → Checked state state')
    (establishes : ∀ item state state', step state item = some state' → fresh state' item)
    (keeps : ∀ item state state', fresh state item → Checked state state' → fresh state' item)
    (items : List ι) (run : items.foldlM step state = some state') :
    ∀ item ∈ items, fresh state' item := by
  induction items generalizing state with
  | nil => exact fun _ isItem => (nomatch isItem)
  | cons item items ih =>
      rcases Option.bind_eq_some_iff.mp run with ⟨middle, first, rest⟩
      intro other isItem
      rcases List.mem_cons.mp isItem with rfl | isRest
      · exact keeps other middle state' (establishes other state middle first)
          (checked_foldlM checks items rest)
      · exact ih rest other isRest

theorem exprFresh_checkObsoleteTable (exprStmt : ExprStatement V)
    (checks : state.checkObsoleteTable exprStmt = some state') : ExprFresh state' exprStmt := by
  intro t isTable live d isDb
  rw [(checked_checkObsoleteTable exprStmt checks).sameManagers.liveTable] at live
  unfold checkObsoleteTable at checks
  split at checks
  · cases checks
  · rename_i tableIs dbIs _
    rw [isTable] at tableIs
    rw [isDb] at dbIs
    cases tableIs
    cases dbIs
    cases checks
    rw [if_pos live]
    exact Function.update_self ..
  · rename_i none
    exact absurd isDb (none t d isTable)

theorem sessionFresh_setChechTime {g s : ℕ}
    (checks : state.setChechTime g s = some state') : SessionFresh state' g s := by
  rcases Option.bind_eq_some_iff.mp checks with ⟨group, at_g, checks⟩
  rcases Option.bind_eq_some_iff.mp checks with ⟨session, at_s, checks⟩
  have checked := checked_foldlM (fun exprStmt _ _ => checked_checkObsoleteTable exprStmt) _ checks
  have exprs := foldlM_establishes (fun exprStmt _ _ => checked_checkObsoleteTable exprStmt)
    (fun exprStmt _ _ => exprFresh_checkObsoleteTable exprStmt)
    (fun _ _ _ fresh checked => fresh.checked checked) _ checks
  intro group' at_g' session' at_s'
  rcases checked.groups g group' at_g' with ⟨set, at_set, groupChecks⟩
  rcases groupChecks.sessions s session' at_s' with ⟨cleared, at_cleared, sessionChecked⟩
  rw [setGroup, List.getElem?_set_self (List.getElem?_eq_some_iff.mp at_g).1] at at_set
  cases at_set
  rw [SessionGroup.setSession, List.getElem?_set_self (List.getElem?_eq_some_iff.mp at_s).1]
    at at_cleared
  cases at_cleared
  have current : ∀ d ∈ (if session.bObsolete then none else session.currDb.filter state.liveDb),
      state'.liveDb d = true := by
    intro d isDb
    rw [checked.sameManagers.liveDb]
    split at isDb
    · cases isDb
    · exact (Option.filter_eq_some_iff.mp isDb).2
  have stmts : ∀ stmt ∈ session.lstWaittingStmt ++ session.lstStatement,
      ExprFresh state' stmt.exprStmt :=
    fun stmt isStmt => exprs _ (List.mem_map_of_mem isStmt)
  rcases sessionChecked with rfl | rfl
  · exact ⟨current, stmts⟩
  · exact ⟨fun _ isDb => (by cases isDb), stmts⟩

theorem sessionFresh_obsoleteLoop (sessions : List ℕ)
    (run : obsoleteLoop g sessions state = some state') (kept : state'.erasedIterator = false) :
    Checked state state' ∧ ∀ s ∈ sessions, SessionFresh state' g s := by
  induction sessions generalizing state with
  | nil =>
      cases run
      exact ⟨Checked.refl _, fun _ isSession => (nomatch isSession)⟩
  | cons s rest ih =>
      rcases Option.bind_eq_some_iff.mp run with ⟨group, at_g, run⟩
      rcases Option.bind_eq_some_iff.mp run with ⟨session, at_s, run⟩
      split at run
      · cases run
        cases kept
      · rcases Option.bind_eq_some_iff.mp run with ⟨next, checks, run⟩
        rcases ih run with ⟨checked, fresh⟩
        refine ⟨(checked_setChechTime s checks).trans checked, ?_⟩
        intro other isSession
        rcases List.mem_cons.mp isSession with rfl | isRest
        · exact (sessionFresh_setChechTime checks).checked checked
        · exact fresh other isRest

theorem erasedIterator_obsoleteLoop (sessions : List ℕ) (running : state.erasedIterator = false)
    (notEmpty : ∀ group ∈ state.groups[g]?, ∀ s ∈ sessions, ∀ session ∈ group.vctSession[s]?,
      session.isEmpty = false)
    (run : obsoleteLoop g sessions state = some state') : state'.erasedIterator = false := by
  rcases obsoleteLoop_cases sessions run with checked |
    ⟨middle, group', s, session', checked, at_g, isIn, at_s, empty, -⟩
  · rw [checked.same]
    exact running
  · rcases checked.groups g group' at_g with ⟨group, at_g', groupChecks⟩
    rcases groupChecks.sessions s session' at_s with ⟨session, at_s', sessionChecked⟩
    have same : session'.isEmpty = session.isEmpty := by
      rcases sessionChecked with rfl | rfl <;> rfl
    rw [same, notEmpty group at_g' s isIn session at_s'] at empty
    cases empty

/-- After its loops a group refers to no database that is not checked. -/
structure GroupFresh (state : ServState V) (g : ℕ) : Prop where
  currDb : ∀ group ∈ state.groups[g]?, ∀ session ∈ group.vctSession, session.deleted = false →
    ∀ d ∈ session.currDb, state.liveDb d = true
  exprs : ∀ group ∈ state.groups[g]?, ∀ exprStmt ∈ group.exprs, ExprFresh state exprStmt

theorem GroupKept.fresh {state : ServState V}
    (kept : GroupKept state g group) (at_g : state.groups[g]? = some group)
    (sessions : ∀ s, s ∈ group.mapSession.map Prod.snd ∨ s ∈ group.obsoleteSession →
      SessionFresh state g s)
    (exprs : ∀ e ∈ group.mapSqlExpr.map Prod.snd, ∀ exprStmt ∈ group.vctExpr[e]?,
      ExprFresh state exprStmt) : GroupFresh state g := by
  have isSame : ∀ other ∈ state.groups[g]?, other = group := by
    intro other at_g'
    rw [at_g] at at_g'
    exact (Option.some.inj at_g').symm
  refine ⟨?_, ?_⟩
  · intro other at_g' session isSession living d isDb
    rw [isSame other at_g'] at isSession
    rcases List.mem_iff_getElem?.mp isSession with ⟨s, at_s⟩
    rcases kept.listed.reached s session at_s living with isOpen | isClosed | ⟨noDb, -⟩
    · exact (sessions s (Or.inl isOpen) group at_g session at_s).1 d isDb
    · exact (sessions s (Or.inr isClosed) group at_g session at_s).1 d isDb
    · rw [noDb] at isDb
      cases isDb
  · intro other at_g' exprStmt isExpr
    rw [isSame other at_g'] at isExpr
    rcases mem_exprs.mp isExpr with ⟨session, isSession, living, stmt, isStmt, rfl⟩ |
      ⟨e, isMapped, at_e⟩
    · rcases List.mem_iff_getElem?.mp isSession with ⟨s, at_s⟩
      have isListed := kept.listed.listed_of_statements at_s living isStmt
      have stmts := (sessions s isListed group at_g session at_s).2
      rcases Session.mem_statements.mp isStmt with isWaiting | isCurrent | isOld
      · exact stmts stmt (List.mem_append_left _ isWaiting)
      · rcases kept.current session isSession stmt isCurrent with isOld | noTable
        · exact stmts stmt (List.mem_append_right _ isOld)
        · intro t isTable
          rw [noTable] at isTable
          cases isTable
      · exact stmts stmt (List.mem_append_right _ isOld)
    · apply exprs e _ exprStmt at_e
      rcases List.mem_append.mp isMapped with byId | bySql
      · exact kept.mapped e byId
      · exact bySql

theorem Kept.cleanMaps (kept : Kept state) {g dtStart : ℕ} (fresh : ∀ group ∈ state.groups[g]?, ∀ s,
      s ∈ group.mapSession.map Prod.snd ∨ s ∈ group.obsoleteSession → SessionFresh state g s)
    (step : state.cleanMaps g dtStart = some state') : Kept state' ∧ GroupFresh state' g := by
  rcases Option.bind_eq_some_iff.mp step with ⟨group, at_g, step⟩
  have groupKept := kept.groups g group at_g
  have filtered : ∀ {K : Type} (map : List (K × ℕ)) (e : ℕ),
      e ∈ (map.filter fun entry => !group.expired dtStart entry.2).map Prod.snd ↔
        e ∈ map.map Prod.snd ∧ group.expired dtStart e = false := by
    intro K map e
    simp only [List.mem_map, List.mem_filter, Bool.not_eq_true']
    constructor
    · rintro ⟨entry, ⟨isEntry, young⟩, rfl⟩
      exact ⟨⟨entry, isEntry, rfl⟩, young⟩
    · rintro ⟨⟨entry, isEntry, rfl⟩, young⟩
      exact ⟨entry, ⟨isEntry, young⟩, rfl⟩
  have cleaned : GroupKept state g { group with
      mapIdExpr := group.mapIdExpr.filter fun entry => !group.expired dtStart entry.2
      mapSqlExpr := group.mapSqlExpr.filter fun entry => !group.expired dtStart entry.2
      deletedExpr := group.deletedExpr ++
        ((group.mapSqlExpr.map Prod.snd).filter fun e => group.expired dtStart e) } := by
    refine { groupKept with exprs := ?_, listed := { groupKept.listed with }, mapped := ?_ }
    · intro exprStmt isExpr
      apply groupKept.exprs
      rcases mem_exprs.mp isExpr with isStmt | ⟨e, isMapped, at_e⟩
      · exact mem_exprs.mpr (Or.inl isStmt)
      · refine mem_exprs.mpr (Or.inr ⟨e, ?_, at_e⟩)
        rcases List.mem_append.mp isMapped with byId | bySql
        · exact List.mem_append_left _ ((filtered _ e).mp byId).1
        · exact List.mem_append_right _ ((filtered _ e).mp bySql).1
    · intro e byId
      rcases (filtered _ e).mp byId with ⟨isMapped, young⟩
      exact (filtered _ e).mpr ⟨groupKept.mapped e isMapped, young⟩
  have checked := checked_foldlM (fun exprStmt _ _ => checked_checkObsoleteTable exprStmt) _ step
  have exprs := foldlM_establishes (fun exprStmt _ _ => checked_checkObsoleteTable exprStmt)
    (fun exprStmt _ _ => exprFresh_checkObsoleteTable exprStmt)
    (fun _ _ _ fresh checked => fresh.checked checked) _ step
  have kept' := (kept.setGroup cleaned).checked checked
  refine ⟨kept', ?_⟩
  have inRange := (List.getElem?_eq_some_iff.mp at_g).1
  cases at_g' : state'.groups[g]? with
  | none => exact ⟨fun other isOther => by simp [at_g'] at isOther, fun other isOther => by
      simp [at_g'] at isOther⟩
  | some group' =>
      rcases checked.groups g group' at_g' with ⟨set, at_set, groupChecks⟩
      rw [ServState.setGroup, List.getElem?_set_self inRange] at at_set
      cases at_set
      have same := groupChecks.same
      refine (kept'.groups g group' at_g').fresh at_g' ?_ ?_
      · intro s isListed
        rw [same] at isListed
        refine SessionFresh.checked ?_ checked
        intro other at_other session at_s
        rw [ServState.setGroup, List.getElem?_set_self inRange] at at_other
        cases at_other
        exact fresh group at_g s isListed group at_g session at_s
      · intro e isMapped exprStmt at_e
        rw [same] at isMapped at_e
        apply exprs
        rcases List.mem_map.mp isMapped with ⟨entry, isEntry, rfl⟩
        exact List.mem_filterMap.mpr ⟨entry, isEntry, at_e⟩

/-! ## The end of a round -/

theorem mem_finished {finished : List ℕ} {num : ℕ} (once : finished.Nodup)
    (groups : ∀ g ∈ finished, g < num) (all : finished.length = num) {j : ℕ} (isGroup : j < num) :
    j ∈ finished := by
  have subset : finished ⊆ List.range num := fun g isFinished =>
    List.mem_range.mpr (groups g isFinished)
  have perm := (List.subperm_of_subset once subset).perm_of_length_le (by simp [all])
  exact perm.mem_iff.mpr (List.mem_range.mpr isGroup)

section

variable {state : ServState V} {r g : ℕ} {round : Round}

theorem reclaims_finishRound (started : round.dtStart ≤ state.time) :
    Reclaims round.dtStart { state with
      rounds := state.rounds.set r { round with finished := g :: round.finished } }
      (state.finishRound r g round) := by
  unfold finishRound
  dsimp only
  split
  · exact reclaims_reclaim started
  · exact Reclaims.refl _ _

theorem deletedDb_finishRound (started : round.dtStart ≤ state.time) {d : ℕ}
    (isDeleted : d ∈ (state.finishRound r g round).deletedDb) : d ∈ state.deletedDb ∨
      (g :: round.finished).length = state.groups.length ∧ state.dbChecked d < round.dtStart := by
  by_cases all : (g :: round.finished).length = state.groups.length
  · have reclaims := reclaims_finishRound (r := r) (g := g) started
    rcases reclaims.deletedDb d isDeleted with before | old | future
    · exact Or.inl before
    · exact Or.inr ⟨all, old⟩
    · exact absurd started (Nat.not_le.mpr future)
  · unfold finishRound at isDeleted
    rw [if_neg all] at isDeleted
    exact Or.inl isDeleted

/-- A group that has just checked what it refers to may be done with the round. -/
theorem DbKept.finishRound (kept : Kept state) (at_r : state.rounds[r]? = some round)
    (unfinished : g ∉ round.finished) (isGroup : g < state.groups.length) {j d : ℕ}
    (isOther : j < state.groups.length) (dbKept : DbKept state j d)
    (fresh : j = g → state.liveDb d = true ∨ round.dtStart ≤ state.dbChecked d) :
    DbKept (state.finishRound r g round) j d := by
  have roundKept := kept.rounds round (List.mem_of_getElem? at_r)
  have reclaims := reclaims_finishRound (r := r) (g := g) roundKept.started
  have live : (state.finishRound r g round).liveDb d = state.liveDb d := reclaims.liveDb d
  cases isLive : state.liveDb d with
  | true => exact dbKept_of_live (live.trans isLive)
  | false =>
      have notPassed : ¬state.Passed j d := by
        rcases dbKept.inTime with inTime | notPassed
        · rw [isLive] at inTime
          cases inTime
        · exact notPassed
      -- The group is this one and has just been there, or it was not late before.
      have notOld : j ∈ g :: round.finished → round.finished.length < state.groups.length →
          ¬state.dbChecked d < round.dtStart := by
        intro isFinished pending old
        rcases List.mem_cons.mp isFinished with rfl | before
        · rcases fresh rfl with inTime | checked
          · rw [isLive] at inTime
            cases inTime
          · exact absurd checked (Nat.not_le.mpr old)
        · exact notPassed ⟨round, List.mem_of_getElem? at_r, before, pending, old⟩
      refine ⟨?_, Or.inr ?_⟩
      · intro isDeleted
        rcases deletedDb_finishRound roundKept.started isDeleted with before | ⟨all, old⟩
        · exact dbKept.notDeleted before
        · rw [List.length_cons] at all
          refine notOld ?_ (by omega) old
          refine mem_finished (List.nodup_cons.mpr ⟨unfinished, roundKept.once⟩) ?_ all isOther
          exact List.forall_mem_cons.mpr ⟨isGroup, roundKept.groups⟩
      · rintro passed
        have before : ServState.Passed { state with
            rounds := state.rounds.set r { round with finished := g :: round.finished } } j d := by
          refine passed_of_times ?_ (by rw [reclaims.same]) (by rw [reclaims.same])
            (reclaims.times d)
            passed
          intro other isRound
          rcases List.mem_or_eq_of_mem_set isRound with old | rfl
          · exact (kept.rounds other old).started
          · exact roundKept.started
        rcases before with ⟨other, isRound, isFinished, pending, old⟩
        rcases List.mem_or_eq_of_mem_set isRound with isOld | rfl
        · exact notPassed ⟨other, isOld, isFinished, pending, old⟩
        · exact notOld isFinished (Nat.lt_of_succ_lt pending) old

theorem Kept.finishRound (kept : Kept state) (at_r : state.rounds[r]? = some round)
    (unfinished : g ∉ round.finished) (isGroup : g < state.groups.length)
    (fresh : GroupFresh state g) : Kept (state.finishRound r g round) := by
  have roundKept := kept.rounds round (List.mem_of_getElem? at_r)
  have reclaims := reclaims_finishRound (r := r) (g := g) roundKept.started
  have liveTable : ∀ t, (state.finishRound r g round).liveTable t = state.liveTable t :=
    reclaims.liveTable
  have liveDb : ∀ d, (state.finishRound r g round).liveDb d = state.liveDb d := reclaims.liveDb
  refine ⟨?_, ?_, ?_, ?_, ?_, ?_, ?_⟩
  · intro j group at_j
    rw [reclaims.same] at at_j
    have groupKept := kept.groups j group at_j
    have isOther := (List.getElem?_eq_some_iff.mp at_j).1
    refine { groupKept with exprs := ?_, currDb := ?_ }
    · intro exprStmt isExpr
      have exprKept := groupKept.exprs exprStmt isExpr
      refine ⟨?_, ?_, ?_, ?_, exprKept.transaction⟩
      · exact fun t isTable => (liveTable t).trans (exprKept.table t isTable)
      · exact fun d isDb => (liveDb d).trans (exprKept.physDb d isDb)
      · intro d isDb
        refine (exprKept.db d isDb).finishRound kept at_r unfinished isGroup isOther ?_
        rintro rfl
        cases table : exprStmt.bound.physTable with
        | none => exact Or.inl (exprKept.noTable table d isDb)
        | some t =>
            refine Or.inr ?_
            rw [fresh.exprs group at_j exprStmt isExpr t table (exprKept.table t table) d isDb]
            exact roundKept.started
      · exact fun none d isDb => (liveDb d).trans (exprKept.noTable none d isDb)
    · intro session isSession living d isDb
      have dbKept := groupKept.currDb session isSession living d isDb
      refine dbKept.finishRound kept at_r unfinished isGroup isOther ?_
      rintro rfl
      exact Or.inl (fresh.currDb group at_j session isSession living d isDb)
  · intro t i isAction
    have actions : (t, i) ∈ state.actions := by
      rw [reclaims.same] at isAction
      exact isAction
    rcases kept.actions t i actions with ⟨running, notDeleted, table, at_t, inside⟩
    have stopedTask : (state.finishRound r g round).stopedTask = state.stopedTask := by
      rw [reclaims.same]
    have vctTable : (state.finishRound r g round).vctTable = state.vctTable := by
      rw [reclaims.same]
    refine ⟨stopedTask ▸ running, ?_, table, vctTable ▸ at_t, inside⟩
    intro isDeleted
    rcases reclaims.deletedTable t isDeleted with before | stoped
    · exact notDeleted before
    · -- The task that has the action has not left the thread pool.
      unfold tasksStoped at stoped
      rw [List.all_eq_true] at stoped
      have left := stoped i (List.mem_range.mpr (by simpa [at_t] using inside))
      exact running (of_decide_eq_true left)
  · intro t i isStoped
    rw [liveTable]
    rw [reclaims.same] at isStoped
    exact kept.stoped t i isStoped
  · intro other isRound
    rw [reclaims.same] at isRound ⊢
    rcases List.mem_or_eq_of_mem_set isRound with old | rfl
    · exact { kept.rounds other old with }
    · exact ⟨roundKept.started, List.nodup_cons.mpr ⟨unfinished, roundKept.once⟩,
        List.forall_mem_cons.mpr ⟨isGroup, roundKept.groups⟩⟩
  · rw [reclaims.same]
    exact kept.erasedIterator
  · rw [reclaims.same]
    exact kept.endless
  · rw [reclaims.same]
    exact kept.nullPointer

theorem Kept.cleaner_runs {group : SessionGroup V} (kept : Kept state)
    (at_g : state.groups[g]? = some group)
    (notEmpty : ∀ s ∈ group.obsoleteSession, ∀ session ∈ group.vctSession[s]?,
      session.isEmpty = false)
    (noTruncate : group.ChecksNoTruncate) :
    ∃ state', state.cleaner r g round group = some state' := by
  have listed := (kept.groups g group at_g).listed
  have checkable : ∀ s, s ∈ group.mapSession.map Prod.snd ∨ s ∈ group.obsoleteSession →
      Checkable state g s := by
    intro s isListed
    have at_s := List.getElem?_eq_getElem (listed.inside s isListed)
    exact ⟨group, _, at_g, at_s, noTruncate.1 s (List.mem_append.mpr isListed) _ at_s⟩
  rcases obsoleteLoop_runs group.obsoleteSession fun s isClosed =>
    checkable s (Or.inr isClosed) with
    ⟨middle, closed⟩
  have running : middle.erasedIterator = false := by
    apply erasedIterator_obsoleteLoop _ kept.erasedIterator _ closed
    intro other at_g'
    rw [at_g] at at_g'
    cases at_g'
    exact notEmpty
  have first := (sessionFresh_obsoleteLoop _ closed running).1
  rcases foldlM_runs (fun s state => setChechTime_runs s state)
      (fun s _ _ => checked_setChechTime s) (fun _ _ _ ready checked => ready.checked checked)
      (group.mapSession.map Prod.snd) fun s isOpen =>
        (checkable s (Or.inl isOpen)).checked first with
    ⟨after, opened⟩
  have second : Checked middle after :=
    checked_foldlM (fun s _ _ => checked_setChechTime s) _ opened
  rcases (first.trans second).group at_g with ⟨group', at_g', groupChecks⟩
  have cleans : ∃ clean, after.cleanMaps g round.dtStart = some clean := by
    unfold ServState.cleanMaps
    rw [at_g', Option.bind_some]
    apply foldlM_checkObsoleteTable
    intro exprStmt isExpr
    rcases List.mem_filterMap.mp isExpr with ⟨entry, isEntry, at_e⟩
    rw [groupChecks.same] at isEntry at_e
    exact noTruncate.2 entry.2 (List.mem_map_of_mem (List.mem_filter.mp isEntry).1) exprStmt at_e
  rcases cleans with ⟨clean, maps⟩
  refine ⟨clean.finishRound r g round, ?_⟩
  unfold ServState.cleaner
  rw [closed, Option.bind_some, if_neg (by simp [running]), opened, Option.bind_some, maps,
    Option.map_some]

theorem Kept.cleaner {state' : ServState V} {group : SessionGroup V} (kept : Kept state)
    (at_r : state.rounds[r]? = some round) (at_g : state.groups[g]? = some group)
    (unfinished : g ∉ round.finished)
    (notEmpty : ∀ s ∈ group.obsoleteSession, ∀ session ∈ group.vctSession[s]?,
      session.isEmpty = false)
    (step : state.cleaner r g round group = some state') : Kept state' := by
  rcases Option.bind_eq_some_iff.mp step with ⟨middle, closed, step⟩
  have running : middle.erasedIterator = false := by
    apply erasedIterator_obsoleteLoop _ kept.erasedIterator _ closed
    intro other at_g'
    rw [at_g] at at_g'
    cases at_g'
    exact notEmpty
  rw [if_neg (by simp [running])] at step
  rcases Option.bind_eq_some_iff.mp step with ⟨after, opened, step⟩
  rcases Option.map_eq_some_iff.mp step with ⟨clean, maps, rfl⟩
  rcases sessionFresh_obsoleteLoop _ closed running with ⟨first, closedFresh⟩
  have second : Checked middle after :=
    checked_foldlM (fun s _ _ => checked_setChechTime s) _ opened
  have openFresh := foldlM_establishes (fun s _ _ => checked_setChechTime s)
    (fun s _ _ => sessionFresh_setChechTime) (fun s _ _ fresh checked => fresh.checked checked) _
      opened
  have checked := first.trans second
  have fresh : ∀ other ∈ after.groups[g]?, ∀ s,
      s ∈ other.mapSession.map Prod.snd ∨ s ∈ other.obsoleteSession → SessionFresh after g s := by
    intro other at_g' s isListed
    rcases checked.groups g other at_g' with ⟨group', at_g'', groupChecks⟩
    rw [at_g] at at_g''
    cases at_g''
    rw [groupChecks.same] at isListed
    rcases isListed with isOpen | isClosed
    · exact openFresh s isOpen
    · exact (closedFresh s isClosed).checked second
  have same : clean.rounds = state.rounds ∧ clean.groups.length = state.groups.length := by
    rcases Option.bind_eq_some_iff.mp maps with ⟨other, -, checks⟩
    have last := checked_foldlM (fun exprStmt _ _ => checked_checkObsoleteTable exprStmt) _ checks
    refine ⟨?_, ?_⟩
    · rw [last.same]
      change after.rounds = state.rounds
      rw [checked.same]
    · rw [last.length, ServState.setGroup, List.length_set, checked.length]
  rcases (kept.checked checked).cleanMaps fresh maps with ⟨cleanKept, groupFresh⟩
  apply cleanKept.finishRound _ unfinished _ groupFresh
  · rw [same.1]
    exact at_r
  · rw [same.2]
    exact (List.getElem?_eq_some_iff.mp at_g).1

end

end ExprCache

end RapidDb
