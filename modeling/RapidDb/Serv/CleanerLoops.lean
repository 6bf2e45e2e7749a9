import Mathlib.Data.List.Basic
import Mathlib.Tactic.Common
import RapidDb.Serv.ExprCache

/-!
# What the loops of the cleaner change

Checks set times and clear the current database of a session, and nothing else. The last group of a
round moves objects from the discarded to the deleted ones, and its loop comes to an end, since a
check time that is set is not before the start of the round.
-/

namespace RapidDb

namespace ExprCache

variable {V : Type}

def Session.Checked (session session' : Session V) : Prop :=
  session' = session ∨ session' = { session with currDb := none }

theorem Session.Checked.trans {first second third : Session V} (one : first.Checked second)
    (other : second.Checked third) : first.Checked third := by
  rcases one with rfl | rfl
  · exact other
  · rcases other with rfl | rfl
    · exact Or.inr rfl
    · exact Or.inr rfl

theorem Session.Checked.statements {session session' : Session V}
    (checked : session.Checked session') :
    session'.statements = session.statements := by
  rcases checked with rfl | rfl <;> rfl

/-- A group after sessions of it have been checked. -/
structure GroupChecked (group group' : SessionGroup V) : Prop where
  sessions : ∀ (s : ℕ) (session' : Session V), group'.vctSession[s]? = some session' →
    ∃ session : Session V, group.vctSession[s]? = some session ∧ session.Checked session'
  length : group'.vctSession.length = group.vctSession.length
  same : group' = { group with vctSession := group'.vctSession }

theorem GroupChecked.refl (group : SessionGroup V) : GroupChecked group group :=
  ⟨fun _ session at_s => ⟨session, at_s, Or.inl rfl⟩, rfl, rfl⟩

theorem GroupChecked.trans {first second third : SessionGroup V} (one : GroupChecked first second)
    (other : GroupChecked second third) : GroupChecked first third := by
  refine ⟨?_, other.length.trans one.length, ?_⟩
  · intro s session'' at_s
    rcases other.sessions s session'' at_s with ⟨session', at_s', after⟩
    rcases one.sessions s session' at_s' with ⟨session, at_s'', before⟩
    exact ⟨session, at_s'', before.trans after⟩
  · rw [other.same, one.same]

namespace ServState

/-- A state after sessions and expressions have been checked. -/
structure Checked (state state' : ServState V) : Prop where
  groups : ∀ (g : ℕ) (group' : SessionGroup V), state'.groups[g]? = some group' →
    ∃ group : SessionGroup V, state.groups[g]? = some group ∧ GroupChecked group group'
  length : state'.groups.length = state.groups.length
  times : ∀ d, state'.dbChecked d = state.dbChecked d ∨ state'.dbChecked d = state.time
  same : state' = { state with
    groups := state'.groups
    tableChecked := state'.tableChecked
    dbChecked := state'.dbChecked }

theorem Checked.refl (state : ServState V) : Checked state state :=
  ⟨fun _ group at_g => ⟨group, at_g, GroupChecked.refl group⟩, rfl, fun _ => Or.inl rfl, rfl⟩

theorem Checked.time {state state' : ServState V} (checked : Checked state state') :
    state'.time = state.time := by
  rw [checked.same]

theorem Checked.trans {first second third : ServState V} (one : Checked first second)
    (other : Checked second third) : Checked first third := by
  refine ⟨?_, other.length.trans one.length, ?_, ?_⟩
  · intro g group'' at_g
    rcases other.groups g group'' at_g with ⟨group', at_g', after⟩
    rcases one.groups g group' at_g' with ⟨group, at_g'', before⟩
    exact ⟨group, at_g'', before.trans after⟩
  · intro d
    rcases other.times d with kept | set
    · rw [kept]
      exact one.times d
    · exact Or.inr (set.trans one.time)
  · rw [other.same, one.same]

theorem checked_foldlM {ι : Type} {step : ServState V → ι → Option (ServState V)}
    (checks : ∀ item state state', step state item = some state' → Checked state state')
    (items : List ι) {state state' : ServState V} (run : items.foldlM step state = some state') :
    Checked state state' := by
  induction items generalizing state with
  | nil =>
      cases run
      exact Checked.refl _
  | cons item items ih =>
      rcases Option.bind_eq_some_iff.mp run with ⟨middle, first, rest⟩
      exact (checks item state middle first).trans (ih rest)

theorem update_cases (times : ℕ → ℕ) (key value other : ℕ) :
    Function.update times key value other = times other ∨
      Function.update times key value other = value := by
  by_cases same : other = key
  · exact Or.inr (by rw [same, Function.update_self])
  · exact Or.inl (Function.update_of_ne same _ _)

theorem checked_checkObsoleteTable (exprStmt : ExprStatement V) {state state' : ServState V}
    (checks : state.checkObsoleteTable exprStmt = some state') : Checked state state' := by
  unfold checkObsoleteTable at checks
  split at checks
  · cases checks
  · rename_i t d _ _ _
    cases checks
    split
    · exact ⟨fun g group at_g => ⟨group, at_g, GroupChecked.refl group⟩, rfl,
        update_cases state.dbChecked d state.time, rfl⟩
    · exact Checked.refl _
  · cases checks
    exact Checked.refl _

variable {state : ServState V}

theorem checked_setSession {g s : ℕ} {group : SessionGroup V}
    {session session' : Session V} (at_g : state.groups[g]? = some group)
    (at_s : group.vctSession[s]? = some session) (checked : session.Checked session') :
    Checked state (state.setGroup g (group.setSession s session')) := by
  refine ⟨?_, List.length_set, fun _ => Or.inl rfl, rfl⟩
  intro j group' at_j
  by_cases j_g : j = g
  · subst j_g
    rw [setGroup, List.getElem?_set_self (List.getElem?_eq_some_iff.mp at_g).1] at at_j
    cases at_j
    refine ⟨group, at_g, ?_, List.length_set, rfl⟩
    intro k other at_k
    by_cases k_s : k = s
    · subst k_s
      rw [SessionGroup.setSession,
        List.getElem?_set_self (List.getElem?_eq_some_iff.mp at_s).1] at at_k
      cases at_k
      exact ⟨session, at_s, checked⟩
    · rw [SessionGroup.setSession, List.getElem?_set_ne (Ne.symm k_s)] at at_k
      exact ⟨other, at_k, Or.inl rfl⟩
  · rw [setGroup, List.getElem?_set_ne (Ne.symm j_g)] at at_j
    exact ⟨group', at_j, GroupChecked.refl group'⟩

theorem checked_setChechTime {g : ℕ} (s : ℕ) {state state' : ServState V}
    (checks : state.setChechTime g s = some state') : Checked state state' := by
  rcases Option.bind_eq_some_iff.mp checks with ⟨group, at_g, checks⟩
  rcases Option.bind_eq_some_iff.mp checks with ⟨session, at_s, checks⟩
  refine (checked_setSession at_g at_s ?_).trans
    (checked_foldlM (fun exprStmt _ _ => checked_checkObsoleteTable exprStmt) _ checks)
  split
  · exact Or.inr rfl
  · cases live : session.currDb.filter state.liveDb with
    | none => exact Or.inr rfl
    | some db =>
        rw [← (Option.filter_eq_some_iff.mp live).1]
        exact Or.inl rfl

theorem obsoleteLoop_cases {g : ℕ} (sessions : List ℕ) {state state' : ServState V}
    (run : obsoleteLoop g sessions state = some state') :
    Checked state state' ∨ ∃ (middle : ServState V) (group : SessionGroup V) (s : ℕ)
      (session : Session V), Checked state middle ∧
      middle.groups[g]? = some group ∧ s ∈ sessions ∧ group.vctSession[s]? = some session ∧
      session.isEmpty = true ∧
      state' = { middle.setGroup g { group with obsoleteSession := group.obsoleteSession.erase s }
        with
        erasedIterator := true } := by
  induction sessions generalizing state with
  | nil =>
      cases run
      exact Or.inl (Checked.refl _)
  | cons s rest ih =>
      rcases Option.bind_eq_some_iff.mp run with ⟨group, at_g, run⟩
      rcases Option.bind_eq_some_iff.mp run with ⟨session, at_s, run⟩
      split at run
      · rename_i empty
        cases run
        exact Or.inr ⟨state, group, s, session, Checked.refl _, at_g, List.mem_cons_self,
          at_s, empty, rfl⟩
      · rcases Option.bind_eq_some_iff.mp run with ⟨next, checks, run⟩
        have checked := checked_setChechTime s checks
        rcases ih run with after | ⟨middle, group, s, session, after, at_g, isIn, rest⟩
        · exact Or.inl (checked.trans after)
        · exact Or.inr ⟨middle, group, s, session, checked.trans after, at_g,
            List.mem_cons_of_mem _ isIn, rest⟩

/-! ## Checks that meet no null pointer -/

/-- A session that is there, without a TRUNCATE. -/
def Checkable (state : ServState V) (g s : ℕ) : Prop :=
  ∃ group session, state.groups[g]? = some group ∧ group.vctSession[s]? = some session ∧
    ∀ stmt ∈ session.statements, stmt.exprStmt.stmt.isTrunTable = false

theorem Checked.group {state state' : ServState V} (checked : Checked state state') {g : ℕ}
    {group : SessionGroup V} (at_g : state.groups[g]? = some group) :
    ∃ group' : SessionGroup V, state'.groups[g]? = some group' ∧ GroupChecked group group' := by
  have inRange : g < state'.groups.length := by
    rw [checked.length]
    exact (List.getElem?_eq_some_iff.mp at_g).1
  rcases checked.groups g _ (List.getElem?_eq_getElem inRange) with ⟨other, at_g', groupChecks⟩
  rw [at_g] at at_g'
  cases at_g'
  exact ⟨_, List.getElem?_eq_getElem inRange, groupChecks⟩

theorem Checkable.checked {g s : ℕ} {state state' : ServState V} (checkable : Checkable state g s)
    (checked : Checked state state') : Checkable state' g s := by
  rcases checkable with ⟨group, session, at_g, at_s, noTrunTable⟩
  rcases checked.group at_g with ⟨group', at_g', groupChecks⟩
  have inRange : s < group'.vctSession.length := by
    rw [groupChecks.length]
    exact (List.getElem?_eq_some_iff.mp at_s).1
  rcases groupChecks.sessions s _ (List.getElem?_eq_getElem inRange) with
    ⟨other, at_s', sessionChecks⟩
  rw [at_s] at at_s'
  cases at_s'
  refine ⟨group', _, at_g', List.getElem?_eq_getElem inRange, ?_⟩
  rw [sessionChecks.statements]
  exact noTrunTable

theorem foldlM_runs {ι : Type} {step : ServState V → ι → Option (ServState V)}
    {ready : ServState V → ι → Prop}
    (runs : ∀ item state, ready state item → ∃ state', step state item = some state')
    (checks : ∀ item state state', step state item = some state' → Checked state state')
    (keeps : ∀ item state state', ready state item → Checked state state' → ready state' item)
    (items : List ι) {state : ServState V} (allReady : ∀ item ∈ items, ready state item) :
    ∃ state', items.foldlM step state = some state' := by
  induction items generalizing state with
  | nil => exact ⟨state, rfl⟩
  | cons item items ih =>
      rcases runs item state (allReady item List.mem_cons_self) with ⟨middle, first⟩
      have checked := checks item state middle first
      rcases ih fun other isOther =>
        keeps other state middle (allReady other (List.mem_cons_of_mem _ isOther)) checked with
        ⟨state', rest⟩
      exact ⟨state', Option.bind_eq_some_iff.mpr ⟨middle, first, rest⟩⟩

theorem foldlM_checkObsoleteTable (exprs : List (ExprStatement V)) (state : ServState V)
    (noTrunTable : ∀ exprStmt ∈ exprs, exprStmt.stmt.isTrunTable = false) :
    ∃ state', exprs.foldlM checkObsoleteTable state = some state' := by
  have runs : ∀ (exprStmt : ExprStatement V) (state : ServState V),
      exprStmt.stmt.isTrunTable = false → ∃ state',
        state.checkObsoleteTable exprStmt = some state' := by
    intro exprStmt state ready
    unfold checkObsoleteTable
    split
    · rename_i type
      rw [type] at ready
      cases ready
    · exact ⟨_, rfl⟩
    · exact ⟨_, rfl⟩
  exact foldlM_runs runs (fun exprStmt _ _ => checked_checkObsoleteTable exprStmt)
    (fun _ _ _ ready _ => ready) exprs noTrunTable

theorem setChechTime_runs {g : ℕ} (s : ℕ) (state : ServState V) (checkable : Checkable state g s) :
    ∃ state', state.setChechTime g s = some state' := by
  rcases checkable with ⟨group, session, at_g, at_s, noTrunTable⟩
  unfold setChechTime
  rw [at_g, Option.bind_some, at_s, Option.bind_some]
  apply foldlM_checkObsoleteTable
  intro exprStmt isExpr
  rcases List.mem_map.mp isExpr with ⟨stmt, isStmt, rfl⟩
  apply noTrunTable
  unfold Session.statements
  rcases List.mem_append.mp isStmt with waits | isOld
  · exact List.mem_append_left _ (List.mem_append_left _ waits)
  · exact List.mem_append_right _ isOld

theorem obsoleteLoop_runs {g : ℕ} (sessions : List ℕ) {state : ServState V}
    (checkable : ∀ s ∈ sessions, Checkable state g s) :
    ∃ state', obsoleteLoop g sessions state = some state' := by
  induction sessions generalizing state with
  | nil => exact ⟨state, rfl⟩
  | cons s rest ih =>
      have first := checkable s List.mem_cons_self
      rcases first with ⟨group, session, at_g, at_s, -⟩
      unfold obsoleteLoop
      rw [at_g, Option.bind_some, at_s, Option.bind_some]
      split
      · exact ⟨_, rfl⟩
      · rcases setChechTime_runs s state (checkable s List.mem_cons_self) with ⟨middle, checks⟩
        rw [checks, Option.bind_some]
        exact ih fun other isOther => (checkable other (List.mem_cons_of_mem _ isOther)).checked
          (checked_setChechTime s checks)

/-! ## The discarded objects -/

/-- A state after discarded objects have been deleted, or kept, in a round from a time on. -/
structure Reclaims (dtStart : ℕ) (state state' : ServState V) : Prop where
  liveTable : ∀ t, state'.liveTable t = state.liveTable t
  liveDb : ∀ d, state'.liveDb d = state.liveDb d
  deletedTable : ∀ t ∈ state'.deletedTable, t ∈ state.deletedTable ∨ state.tasksStoped t = true
  deletedDb : ∀ d ∈ state'.deletedDb,
    d ∈ state.deletedDb ∨ state.dbChecked d < dtStart ∨ state.time < dtStart
  times : ∀ d, state'.dbChecked d = state.dbChecked d ∨ state'.dbChecked d = state.time
  same : state' = { state with
    discardDb := state'.discardDb
    discardTable := state'.discardTable
    deletedDb := state'.deletedDb
    deletedTable := state'.deletedTable
    dbChecked := state'.dbChecked
    tableChecked := state'.tableChecked }

theorem Reclaims.refl (dtStart : ℕ) (state : ServState V) : Reclaims dtStart state state :=
  ⟨fun _ => rfl, fun _ => rfl, fun _ => Or.inl, fun _ => Or.inl, fun _ => Or.inl rfl, rfl⟩

variable {dtStart : ℕ}

theorem Reclaims.trans {first second third : ServState V}
    (one : Reclaims dtStart first second) (other : Reclaims dtStart second third) :
    Reclaims dtStart first third := by
  have time : second.time = first.time := by rw [one.same]
  have tasks : ∀ t, second.tasksStoped t = first.tasksStoped t := by
    intro t
    rw [one.same]
    rfl
  refine ⟨?_, ?_, ?_, ?_, ?_, ?_⟩
  · exact fun t => (other.liveTable t).trans (one.liveTable t)
  · exact fun d => (other.liveDb d).trans (one.liveDb d)
  · intro t isDeleted
    rcases other.deletedTable t isDeleted with before | stoped
    · exact one.deletedTable t before
    · exact Or.inr ((tasks t).symm.trans stoped)
  · intro d isDeleted
    rcases other.deletedDb d isDeleted with before | old | future
    · exact one.deletedDb d before
    · rcases one.times d with kept | set
      · exact Or.inr (Or.inl (kept ▸ old))
      · exact Or.inr (Or.inr (set ▸ old))
    · exact Or.inr (Or.inr (time ▸ future))
  · intro d
    rcases other.times d with kept | set
    · rw [kept]
      exact one.times d
    · exact Or.inr (set.trans time)
  · rw [other.same, one.same]

theorem moved {discard deleted : List ℕ} {item : ℕ}
    (notLive : (item ∉ discard && item ∉ deleted) = false) (other : ℕ) :
    (other ∉ discard.erase item && other ∉ item :: deleted) =
      (other ∉ discard && other ∉ deleted) := by
  by_cases same : other = item
  · rw [same, notLive]
    simp
  · simp [List.mem_erase_of_ne same, same]

theorem reclaims_deleteTable {t : ℕ}
    (notLive : state.liveTable t = false) (stoped : state.tasksStoped t = true) :
    Reclaims dtStart state (state.deleteTable t) := by
  refine ⟨moved notLive, fun _ => rfl, ?_, fun _ => Or.inl, fun _ => Or.inl rfl, rfl⟩
  intro other isDeleted
  rcases List.mem_cons.mp isDeleted with rfl | before
  · exact Or.inr stoped
  · exact Or.inl before

theorem reclaims_deleteDb {d : ℕ}
    (notLive : state.liveDb d = false) (old : state.dbChecked d < dtStart) :
    Reclaims dtStart state (state.deleteDb d) := by
  refine ⟨fun _ => rfl, moved notLive, fun _ => Or.inl, ?_, fun _ => Or.inl rfl, rfl⟩
  intro other isDeleted
  rcases List.mem_cons.mp isDeleted with rfl | before
  · exact Or.inr (Or.inl old)
  · exact Or.inl before

theorem reclaims_keepTable (dtStart : ℕ) (state : ServState V) (t : ℕ) :
    Reclaims dtStart state (state.keepTable t) := by
  refine ⟨fun _ => rfl, fun _ => rfl, fun _ => Or.inl, fun _ => Or.inl, ?_, rfl⟩
  intro d
  unfold keepTable
  cases at_t : state.vctTable[t]? with
  | none => exact Or.inl rfl
  | some table => exact update_cases state.dbChecked table.db state.time d

theorem reclaims_tableLoop (dtStart fuel : ℕ) (tables : List ℕ) {state state' : ServState V}
    (notLive : ∀ t ∈ tables, state.liveTable t = false)
    (run : tableLoop dtStart fuel tables state = some state') : Reclaims dtStart state state' := by
  induction fuel generalizing tables state with
  | zero =>
      cases tables with
      | nil =>
          cases run
          exact Reclaims.refl _ _
      | cons => cases run
  | succ fuel ih =>
      cases tables with
      | nil =>
          cases run
          exact Reclaims.refl _ _
      | cons t rest =>
          unfold tableLoop at run
          have restNotLive : ∀ other ∈ rest, state.liveTable other = false := by
            exact fun other isOther => notLive other (List.mem_cons_of_mem _ isOther)
          split at run
          · split at run
            · rename_i stoped
              have step : Reclaims dtStart state (state.deleteTable t) :=
                reclaims_deleteTable (notLive t List.mem_cons_self) stoped
              refine step.trans (ih rest ?_ run)
              intro other isOther
              rw [step.liveTable]
              exact restNotLive other isOther
            · have step := reclaims_keepTable dtStart state t
              refine step.trans (ih (t :: rest) ?_ run)
              intro other isOther
              rw [step.liveTable]
              exact notLive other isOther
          · exact ih rest restNotLive run

theorem reclaims_dbLoop (dtStart : ℕ) (dbs : List ℕ) (notLive : ∀ d ∈ dbs, state.liveDb d = false) :
    Reclaims dtStart state (dbLoop dtStart dbs state) := by
  induction dbs generalizing state with
  | nil => exact Reclaims.refl _ _
  | cons d rest ih =>
      have step : Reclaims dtStart state
          (if state.dbChecked d < dtStart then state.deleteDb d else state) := by
        split
        · rename_i old
          exact reclaims_deleteDb (notLive d List.mem_cons_self) old
        · exact Reclaims.refl _ _
      refine step.trans (ih ?_)
      intro other isOther
      rw [step.liveDb]
      exact notLive other (List.mem_cons_of_mem _ isOther)

theorem liveTable_iff {t : ℕ} :
    state.liveTable t = true ↔ t ∉ state.discardTable ∧ t ∉ state.deletedTable := by
  simp [liveTable]

theorem liveDb_iff {d : ℕ} :
    state.liveDb d = true ↔ d ∉ state.discardDb ∧ d ∉ state.deletedDb := by
  simp [liveDb]

theorem liveTable_removeTables {tables : List ℕ} {t : ℕ} :
    (state.removeTables tables).liveTable t = true ↔ state.liveTable t = true ∧ t ∉ tables := by
  simp only [liveTable_iff, removeTables, List.mem_append, not_or]
  tauto

theorem liveDb_removeDb {dbName : String} {d : ℕ} :
    (state.removeDb dbName).liveDb d = true ↔
      state.liveDb d = true ∧ state.findDb dbName ≠ some d := by
  simp only [liveDb_iff, removeDb, List.mem_append, not_or, Option.mem_toList]
  tauto

theorem not_live_of_discardTable {t : ℕ} (isDiscarded : t ∈ state.discardTable) :
    state.liveTable t = false := by
  simp [liveTable, isDiscarded]

theorem not_live_of_discardDb {d : ℕ} (isDiscarded : d ∈ state.discardDb) :
    state.liveDb d = false := by
  simp [liveDb, isDiscarded]

theorem tableLoop_ends (tables : List ℕ) {fuel : ℕ}
    (started : dtStart ≤ state.time) (enough : 2 * tables.length ≤ fuel) :
    ∃ state', tableLoop dtStart fuel tables state = some state' := by
  induction tables generalizing fuel state with
  | nil => exact ⟨state, by cases fuel <;> rfl⟩
  | cons t rest ih =>
      rw [List.length_cons] at enough
      obtain ⟨fuel, rfl⟩ : ∃ less, fuel = less + 2 := ⟨fuel - 2, by omega⟩
      have restEnough : 2 * rest.length ≤ fuel := by omega
      unfold tableLoop
      split
      · split
        · exact ih started (by omega)
        · -- The time that has just been set is not before the start.
          unfold tableLoop
          rw [if_neg (by simp [keepTable, started])]
          exact ih started restEnough
      · exact ih started (by omega)

theorem reclaims_reclaim (started : dtStart ≤ state.time) :
    Reclaims dtStart state (state.reclaim dtStart) := by
  rcases tableLoop_ends state.discardTable started le_rfl with ⟨middle, run⟩
  have tables := reclaims_tableLoop dtStart _ state.discardTable
    (fun t isDiscarded => not_live_of_discardTable isDiscarded) run
  rw [reclaim, run]
  exact tables.trans (reclaims_dbLoop dtStart middle.discardDb fun d isDiscarded =>
    not_live_of_discardDb isDiscarded)

end ServState

end ExprCache

end RapidDb
