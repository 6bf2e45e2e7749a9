import RapidDb.Serv.CacheBinding

/-!
# Runs of a server with cached expressions

Each step keeps what is known of the expressions in the maps. Statements and sessions change nothing
of them, the cleaner deletes what no statement uses, and a statement that ends drops no table that
is bound. From there every statement of a run gets a fresh binding.
-/

namespace RapidDb

open Transition

namespace ExprCache

variable {V : Type} {parse : String → Option (List (SqlStmt V))} {fuel : ℕ}

theorem mem_of_lookup {K : Type} [BEq K] [LawfulBEq K] {map : List (K × ℕ)} {key : K} {value : ℕ}
    (found : map.lookup key = some value) : value ∈ map.map Prod.snd := by
  rcases List.lookup_eq_some_iff.mp found with ⟨before, after, rfl, -⟩
  simp

theorem mem_emplace {K : Type} [BEq K] {map : List (K × ℕ)} {key : K} {value other : ℕ}
    (isMapped : other ∈ (emplace map key value).map Prod.snd) :
    other ∈ map.map Prod.snd ∨ other = value := by
  unfold emplace at isMapped
  split at isMapped
  · exact Or.inl isMapped
  · rw [List.map_append, List.mem_append] at isMapped
    rcases isMapped with old | new
    · exact Or.inl old
    · exact Or.inr (by simpa using new)

theorem SessionGroup.mapped_of_taken {group : SessionGroup V} {currDb : Option (ℕ × String)}
    {sid exprId : UInt32} {sql : String} {e : ℕ}
      (taken : group.taken currDb sid exprId sql = some e) :
    e ∈ group.mapped := by
  unfold SessionGroup.taken at taken
  split at taken
  · rename_i found
    cases taken
    exact List.mem_append_left _ (mem_of_lookup found)
  · exact List.mem_append_right _ (mem_of_lookup taken)

namespace Session

variable {session : Session V} {stmt : Statement V}

@[simp] theorem mem_statements : stmt ∈ session.statements ↔ stmt ∈ session.lstWaittingStmt ∨
    session.currStatement = some stmt ∨ stmt ∈ session.lstStatement := by
  simp [statements]

end Session

namespace ServState

namespace CacheSound

variable {state state' : ServState V} {g s : ℕ} {group group' : SessionGroup V}
  {session session' : Session V}

theorem addStatement (sound : GroupSound parse fuel state group)
    (at_s : group.vctSession[s]? = some session) {stmt : Statement V} {time : ℕ}
    (uses : ∀ e, stmt.cached = some e → e ∉ group.deletedExpr) :
    GroupSound parse fuel state (group.addStatement s session stmt time) := by
  have added : GroupSound parse fuel state (group.setSession s { session with
      lstWaittingStmt := session.lstWaittingStmt ++ [stmt] }) := by
    apply setSession sound
    intro other isStmt
    rw [Session.mem_statements, List.mem_append, List.mem_singleton] at isStmt
    rcases isStmt with (isOld | rfl) | isOld
    · exact sound.statements session (List.mem_of_getElem? at_s) other
        (Session.mem_statements.mpr (Or.inl isOld))
    · exact uses
    · exact sound.statements session (List.mem_of_getElem? at_s) other
        (Session.mem_statements.mpr (Or.inr isOld))
  exact { added with }

theorem emplaceId (sound : GroupSound parse fuel state group) {e key : ℕ}
    (isMapped : e ∈ group.mapped) :
    GroupSound parse fuel state { group with mapIdExpr := emplace group.mapIdExpr key e } := by
  refine { sound with mapped := ?_ }
  intro other isOther
  apply sound.mapped
  rcases List.mem_append.mp isOther with byId | bySql
  · rcases mem_emplace byId with old | rfl
    · exact List.mem_append_left _ old
    · exact isMapped
  · exact List.mem_append_right _ bySql

theorem cache (sound : GroupSound parse fuel state group) {exprStmt : ExprStatement V} {key : ℕ}
    {text : String} (exprSound : ExprSound parse fuel state exprStmt) :
    GroupSound parse fuel state (group.cache key text exprStmt) := by
  have isNew : group.vctExpr.length ∉ group.deletedExpr :=
    fun isDeleted => absurd (sound.deleted _ isDeleted) (Nat.lt_irrefl _)
  have grown : ∀ {e : ℕ} {other : ExprStatement V}, group.vctExpr[e]? = some other →
      (group.vctExpr ++ [exprStmt])[e]? = some other := by
    intro e other at_e
    exact (List.getElem?_append_left (List.getElem?_eq_some_iff.mp at_e).1).trans at_e
  refine ⟨?_, ?_, sound.statements⟩
  · intro e isMapped
    have cases' : e ∈ group.mapped ∨ e = group.vctExpr.length := by
      rcases List.mem_append.mp isMapped with byId | bySql
      · exact (mem_emplace byId).imp_left (List.mem_append_left _)
      · exact (mem_emplace bySql).imp_left (List.mem_append_right _)
    rcases cases' with old | rfl
    · rcases sound.mapped e old with ⟨living, other, at_e, otherSound⟩
      exact ⟨living, other, grown at_e, otherSound⟩
    · exact ⟨isNew, exprStmt, List.getElem?_concat_length, exprSound⟩
  · intro e isDeleted
    rw [SessionGroup.cache, List.length_append]
    exact Nat.lt_add_right _ (sound.deleted e isDeleted)

section

variable (sound : CacheSound parse fuel state)

include sound

theorem statementAction (at_g : state.groups[g]? = some group) {sid exprId : UInt32} {sql : String}
    (step : state.statementAction parse fuel g group sid exprId sql = some state') :
    CacheSound parse fuel state' := by
  have groupSound := sound group (List.mem_of_getElem? at_g)
  unfold ServState.statementAction at step
  split at step
  · cases step
    exact sound
  · rename_i s _
    rcases Option.bind_eq_some_iff.mp step with ⟨session, at_s, step⟩
    dsimp only at step
    split at step
    · rename_i e taken
      rcases Option.map_eq_some_iff.mp step with ⟨exprStmt, -, rfl⟩
      have isMapped := SessionGroup.mapped_of_taken taken
      apply sound.setGroup
      refine addStatement (emplaceId groupSound isMapped) at_s ?_
      intro e' same
      cases same
      exact (groupSound.mapped e isMapped).1
    · split at step
      · cases step
        exact sound
      · rename_i stmt parsed
        split at step
        · cases step
        · cases step
          exact sound
        · rename_i bound prepared
          split at step
          · rename_i cached
            cases step
            have exprSound := exprSound_of_preprocess parsed cached prepared
            apply sound.setGroup
            refine addStatement (cache groupSound exprSound) at_s ?_
            intro e same
            cases same
            exact fun isDeleted => absurd (groupSound.deleted _ isDeleted) (Nat.lt_irrefl _)
          · cases step
            apply sound.setGroup
            refine addStatement groupSound at_s ?_
            intro e none
            cases none
      · cases step

section

variable (at_g : state.groups[g]? = some group) (at_s : group.vctSession[s]? = some session)

include at_g at_s

theorem fewer (kept : ∀ stmt ∈ session'.statements, stmt ∈ session.statements) :
    GroupSound parse fuel state (group.setSession s session') := by
  have groupSound := sound group (List.mem_of_getElem? at_g)
  apply setSession groupSound
  intro stmt isStmt
  exact groupSound.statements session (List.mem_of_getElem? at_s) stmt (kept stmt isStmt)

theorem startStmt (step : state.startStmt g s group session = some state') :
    CacheSound parse fuel state' := by
  unfold ServState.startStmt at step
  split at step
  · rename_i stmt rest noCurrent waiting
    split at step
    · cases step
      apply sound.setGroup
      apply sound.fewer at_g at_s
      intro other isStmt
      simp only [Session.mem_statements, waiting, List.mem_cons] at isStmt ⊢
      rcases isStmt with isRest | isOld
      · exact Or.inl (Or.inr isRest)
      · exact Or.inr isOld
    · cases step
      apply sound.setGroup
      apply sound.fewer at_g at_s
      intro other isStmt
      simp only [Session.mem_statements, waiting, List.mem_cons, List.mem_append,
        Option.some.injEq] at isStmt ⊢
      rcases isStmt with isRest | rfl | isOld | isNew
      · exact Or.inl (Or.inr isRest)
      · exact Or.inl (Or.inl rfl)
      · exact Or.inr (Or.inr isOld)
      · split at isNew
        · cases isNew
        · exact Or.inl (Or.inl (List.mem_singleton.mp isNew))
  · cases step

theorem endStmt {succeeds closed : Bool}
    (steady : succeeds = true → ∀ stmt ∈ session.currStatement,
      ∀ t ∈ state.removedTables stmt.exprStmt, ∀ other ∈ state.groups, t ∉ other.mappedTables)
    (step : state.endStmt g s group session succeeds closed = some state') :
    CacheSound parse fuel state' := by
  rcases Option.map_eq_some_iff.mp step with ⟨stmt, current, rfl⟩
  have managed :
    CacheSound parse fuel (if succeeds then state.effect stmt.exprStmt else state) := by
    cases succeeds with
    | false => exact sound
    | true => exact sound.effect stmt.exprStmt (steady rfl stmt current)
  have groups : (if succeeds then state.effect stmt.exprStmt else state).groups[g]? =
    some group := by
    cases succeeds with
    | false => exact at_g
    | true =>
        rw [if_pos rfl]
        exact (congrArg (·[g]?) (effect_groups state stmt.exprStmt)).trans at_g
  apply managed.setGroup
  apply managed.fewer groups at_s
  intro other isStmt
  simp only [Session.mem_statements, reduceCtorEq, false_or] at isStmt ⊢
  rcases isStmt with isWaiting | isOld
  · exact Or.inl isWaiting
  · cases closed with
    | true => cases isOld
    | false => exact Or.inr (Or.inr isOld)

end

/-- The loops over the two maps: what is deleted is in neither map any more, and not used. -/
theorem cleanMaps {dtStart : ℕ}
    (unused : ∀ group ∈ state.groups[g]?, ∀ e ∈ group.mapSqlExpr.map Prod.snd,
      group.expired dtStart e = true → ∀ session ∈ group.vctSession, ∀ stmt ∈ session.statements,
        stmt.cached ≠ some e) (step : state.cleanMaps g dtStart = some state') :
    CacheSound parse fuel state' := by
  rcases Option.bind_eq_some_iff.mp step with ⟨group, at_g, step⟩
  refine CacheSound.checked ?_
    (checked_foldlM (fun exprStmt _ _ => checked_checkObsoleteTable exprStmt) _ step)
  have groupSound := sound group (List.mem_of_getElem? at_g)
  apply sound.setGroup
  refine ⟨?_, ?_, ?_⟩
  · intro e isMapped
    have kept : e ∈ group.mapped ∧ group.expired dtStart e = false := by
      rcases List.mem_append.mp isMapped with byId | bySql
      · rcases List.mem_map.mp byId with ⟨entry, isKept, rfl⟩
        rcases List.mem_filter.mp isKept with ⟨isEntry, young⟩
        exact ⟨List.mem_append_left _ (List.mem_map_of_mem isEntry), by simpa using young⟩
      · rcases List.mem_map.mp bySql with ⟨entry, isKept, rfl⟩
        rcases List.mem_filter.mp isKept with ⟨isEntry, young⟩
        exact ⟨List.mem_append_right _ (List.mem_map_of_mem isEntry), by simpa using young⟩
    rcases groupSound.mapped e kept.1 with ⟨living, found⟩
    refine ⟨?_, found⟩
    intro isDeleted
    rcases List.mem_append.mp isDeleted with old | new
    · exact living old
    · have old := (List.mem_filter.mp new).2
      rw [kept.2] at old
      cases old
  · intro e isDeleted
    rcases List.mem_append.mp isDeleted with old | new
    · exact groupSound.deleted e old
    · rcases groupSound.mapped e (List.mem_append_right _ (List.mem_filter.mp new).1) with
        ⟨-, exprStmt, at_e, -⟩
      exact (List.getElem?_eq_some_iff.mp at_e).1
  · intro session isSession stmt isStmt e cached isDeleted
    rcases List.mem_append.mp isDeleted with old | new
    · exact groupSound.statements session isSession stmt isStmt e cached old
    · rcases List.mem_filter.mp new with ⟨isMapped, expired⟩
      exact unused group at_g e isMapped expired session isSession stmt isStmt cached

theorem reclaim (dtStart : ℕ) : CacheSound parse fuel (state.reclaim dtStart) := by
  unfold ServState.reclaim
  split
  · exact sound.of_same ⟨rfl, rfl, fun _ => rfl, fun _ => rfl⟩ rfl
  · rename_i middle run
    have tables := reclaims_tableLoop dtStart _ state.discardTable
      (fun t isDiscarded => not_live_of_discardTable isDiscarded) run
    have reclaims := tables.trans (reclaims_dbLoop dtStart middle.discardDb fun d isDiscarded =>
      not_live_of_discardDb isDiscarded)
    exact sound.of_same reclaims.sameManagers (by rw [reclaims.same])

theorem cleaner (running : state.erasedIterator = false) (at_g : state.groups[g]? = some group)
    {r : ℕ} {round : Round}
    (unused : ∀ e ∈ group.mapSqlExpr.map Prod.snd, group.expired round.dtStart e = true →
      ∀ session ∈ group.vctSession, some e ∉ session.statements.map Statement.cached)
    (step : state.cleaner r g round group = some state') : CacheSound parse fuel state' := by
  rcases Option.bind_eq_some_iff.mp step with ⟨middle, closed, step⟩
  rcases obsoleteLoop_cases _ closed with checks | ⟨before, other, s, session, checks,
    at_g', -, -, -, rfl⟩
  · rw [checks.same, if_neg (by simp [running]), ← checks.same] at step
    rcases Option.bind_eq_some_iff.mp step with ⟨after, opened, step⟩
    rcases Option.map_eq_some_iff.mp step with ⟨clean, maps, rfl⟩
    have checksAll := checks.trans (checked_foldlM (fun s _ _ => checked_setChechTime s) _ opened)
    have cleanSound : CacheSound parse fuel clean := by
      refine (sound.checked checksAll).cleanMaps ?_ maps
      intro group' at_g' e isMapped expired session' isSession stmt isStmt cached
      rcases checksAll.groups g group' at_g' with ⟨group'', at_g'', groupChecks⟩
      rw [at_g] at at_g''
      cases at_g''
      rw [groupChecks.same] at isMapped expired
      rcases List.mem_iff_getElem?.mp isSession with ⟨s, at_s⟩
      rcases groupChecks.sessions s session' at_s with ⟨session, at_s', sessionChecks⟩
      rw [sessionChecks.statements] at isStmt
      apply unused e isMapped expired session (List.mem_of_getElem? at_s')
      rw [← cached]
      exact List.mem_map_of_mem isStmt
    have finished : CacheSound parse fuel { clean with
        rounds := clean.rounds.set r { round with finished := g :: round.finished } } :=
      cleanSound.of_same ⟨rfl, rfl, fun _ => rfl, fun _ => rfl⟩ rfl
    unfold finishRound
    dsimp only
    split
    · exact finished.reclaim _
    · exact finished
  · rw [if_pos rfl] at step
    cases step
    have groupSound := (sound.checked checks) other (List.mem_of_getElem? at_g')
    have erased : CacheSound parse fuel (before.setGroup g { other with
        obsoleteSession := other.obsoleteSession.erase s }) :=
      (sound.checked checks).setGroup { groupSound with }
    exact erased.of_same ⟨rfl, rfl, fun _ => rfl, fun _ => rfl⟩ rfl

theorem next {event : ServEvent} (steady : state.Steady event)
    (step : state.next parse fuel event = some state') : CacheSound parse fuel state' := by
  unfold ServState.next at step
  rcases Option.ite_none_left_eq_some.mp step with ⟨flags, step⟩
  have running : state.erasedIterator = false := by
    cases erased : state.erasedIterator with
    | false => rfl
    | true => simp [erased] at flags
  cases event with
  | tick | newCleaner =>
      cases step
      exact sound.of_same ⟨rfl, rfl, fun _ => rfl, fun _ => rfl⟩ rfl
  | createSession g sid =>
      rcases Option.map_eq_some_iff.mp step with ⟨group, at_g, rfl⟩
      have groupSound := sound group (List.mem_of_getElem? at_g)
      apply sound.setGroup
      refine { groupSound with statements := ?_ }
      intro session isSession
      rcases List.mem_append.mp isSession with old | new
      · exact groupSound.statements session old
      · rw [List.mem_singleton.mp new]
        simp
  | closeSession g sid =>
      rcases Option.bind_eq_some_iff.mp step with ⟨group, at_g, step⟩
      split at step
      · cases step
        exact sound
      · rcases Option.map_eq_some_iff.mp step with ⟨session, at_s, rfl⟩
        have closed : GroupSound parse fuel state
            (group.setSession _ { session with bObsolete := true }) :=
          sound.fewer at_g at_s fun _ isStmt => isStmt
        exact sound.setGroup { closed with }
  | useDb g sid dbName =>
      rcases Option.bind_eq_some_iff.mp step with ⟨group, at_g, step⟩
      split at step
      · cases step
        exact sound
      · rcases Option.bind_eq_some_iff.mp step with ⟨session, at_s, step⟩
        rcases Option.map_eq_some_iff.mp step with ⟨db, -, rfl⟩
        apply sound.setGroup
        exact sound.fewer at_g at_s fun _ isStmt => isStmt
  | statement g sid exprId sql =>
      rcases Option.bind_eq_some_iff.mp step with ⟨group, at_g, step⟩
      exact sound.statementAction at_g step
  | startStmt g s =>
      rcases onSession_eq.mp step with ⟨group, session, at_g, at_s, -, acted⟩
      exact sound.startStmt at_g at_s acted
  | endStmt g s succeeds closed =>
      rcases onSession_eq.mp step with ⟨group, session, at_g, at_s, -, acted⟩
      refine sound.endStmt at_g at_s ?_ acted
      exact fun isSuccess => steady isSuccess group at_g session at_s
  | deleteSession g s =>
      rcases onSession_eq.mp step with ⟨group, session, at_g, at_s, -, acted⟩
      rcases Option.ite_none_right_eq_some.mp acted with ⟨-, acted⟩
      cases acted
      have deleted : GroupSound parse fuel state
          (group.setSession s { session with deleted := true }) :=
        sound.fewer at_g at_s fun _ isStmt => isStmt
      exact sound.setGroup { deleted with }
  | addAction g s i =>
      rcases onSession_eq.mp step with ⟨group, session, at_g, at_s, -, acted⟩
      rcases Option.bind_eq_some_iff.mp acted with ⟨t, -, acted⟩
      rcases Option.bind_eq_some_iff.mp acted with ⟨table, -, acted⟩
      rcases Option.ite_none_right_eq_some.mp acted with ⟨-, acted⟩
      cases acted
      exact sound.of_same ⟨rfl, rfl, fun _ => rfl, fun _ => rfl⟩ rfl
  | endAction k =>
      rcases Option.ite_none_right_eq_some.mp step with ⟨-, step⟩
      cases step
      exact sound.of_same ⟨rfl, rfl, fun _ => rfl, fun _ => rfl⟩ rfl
  | stopTask t i =>
      rcases Option.ite_none_right_eq_some.mp step with ⟨-, step⟩
      cases step
      exact sound.of_same ⟨rfl, rfl, fun _ => rfl, fun _ => rfl⟩ rfl
  | cleaner r g =>
      rcases Option.bind_eq_some_iff.mp step with ⟨round, at_r, step⟩
      rcases Option.bind_eq_some_iff.mp step with ⟨group, at_g, step⟩
      rcases Option.ite_none_left_eq_some.mp step with ⟨-, step⟩
      cases ran : state.cleaner r g round group with
      | none =>
          rw [ran] at step
          cases step
          exact sound.of_same ⟨rfl, rfl, fun _ => rfl, fun _ => rfl⟩ rfl
      | some after =>
          rw [ran] at step
          cases step
          exact sound.cleaner running at_g (steady round at_r group at_g) ran
  | endInLoop r g g' s =>
      rcases Option.bind_eq_some_iff.mp step with ⟨round, -, step⟩
      rcases Option.ite_none_right_eq_some.mp step with ⟨-, step⟩
      rcases onSession_eq.mp step with ⟨group, session, -, -, -, acted⟩
      rcases Option.bind_eq_some_iff.mp acted with ⟨stmt, -, acted⟩
      rcases Option.ite_none_right_eq_some.mp acted with ⟨-, acted⟩
      cases acted
      exact sound.of_same ⟨rfl, rfl, fun _ => rfl, fun _ => rfl⟩ rfl

theorem bindsFresh {event : ServEvent} (steady : state.Steady event) :
    state.BindsFresh parse fuel event := by
  cases event with
  | statement g sid exprId sql =>
      intro group at_g session found e taken
      have isMapped := SessionGroup.mapped_of_taken taken
      rcases (sound group (List.mem_of_getElem? at_g)).mapped e isMapped with
        ⟨living, exprStmt, at_e, exprSound⟩
      rcases steady group at_g session found e taken exprStmt at_e with ⟨sameText, sameName⟩
      rcases exprSound.preprocess sameName with ⟨bound, prepared, resolved, live⟩
      exact ⟨living, exprStmt, bound, at_e, sameText ▸ exprSound.parsed, prepared, resolved, live⟩
  | _ => trivial

theorem usesLiving : state.UsesLiving :=
  fun group isGroup session isSession stmt isStmt e cached =>
    (sound group isGroup).statements session isSession stmt isStmt e cached

end

theorem initial (initial : Initial state) : CacheSound parse fuel state := by
  intro group isGroup
  rcases initial.groups group isGroup with
    ⟨noSession, noExpr, noDeleted, -, -, noId, noSql⟩
  refine ⟨?_, ?_, ?_⟩
  · simp [SessionGroup.mapped, noId, noSql]
  · simp [noDeleted]
  · simp [noSession]

end CacheSound

/-- In every run whose steps all meet the condition a statement that meets it gets a fresh binding,
and no statement uses an expression that has been deleted. -/
theorem bindsFresh_of_steady {start state : ServState V} (initial : Initial start)
    (run : Reaches (next parse fuel) Steady start state) :
    state.UsesLiving ∧ ∀ event, state.Steady event → state.BindsFresh parse fuel event := by
  have sound : CacheSound parse fuel state :=
    run.preserves (CacheSound.initial initial) fun _ _ _ steady sound step => sound.next steady step
  exact ⟨sound.usesLiving, fun _ steady => sound.bindsFresh steady⟩

def parseText (sql : String) : Option (List (SqlStmt ℤ)) :=
  if sql = "DELETE FROM t WHERE k = 1" then
    some [.delete ⟨none, "t"⟩ (some (.comp .EQ (.field "k") (.const 1))) []]
  else if sql = "DROP TABLE t" then some [.dropTable ⟨none, "t"⟩]
  else if sql = "DROP TABLE u" then some [.dropTable ⟨none, "u"⟩]
  else if sql = "USE a" then some [.useDatabase "a"]
  else none

/-- A server with two databases and tables in them. -/
def loaded : ServState ℤ where
  vctDb := ["a", "b"]
  vctTable := [⟨0, "a", "t", [⟨"k", .int, 4⟩], [[0]]⟩, ⟨0, "a", "u", [⟨"k", .int, 4⟩], [[0]]⟩,
    ⟨1, "b", "t", [⟨"k", .int, 4⟩], [[0]]⟩]
  groups := [{}]

theorem initial_loaded : Initial loaded := by
  refine ⟨?_, rfl, rfl, rfl, rfl, rfl, rfl, rfl, rfl, rfl, rfl⟩
  intro group isGroup
  rw [List.mem_singleton.mp isGroup]
  exact ⟨rfl, rfl, rfl, rfl, rfl, rfl, rfl⟩

/-- The next statement of a session object comes to its end. -/
def toEnd (s : ℕ) : List ServEvent := [.startStmt 0 s, .endStmt 0 s true true]

/-- Two sessions share an expression, another table is dropped, and the cleaner comes round. -/
def sharedText : List ServEvent :=
  [.createSession 0 7, .createSession 0 8, .statement 0 7 1 "USE a", .useDb 0 8 "a"] ++ toEnd 0 ++
  [.statement 0 7 2 "DELETE FROM t WHERE k = 1", .statement 0 8 5 "DELETE FROM t WHERE k = 1",
    .statement 0 7 3 "DROP TABLE u"] ++
  toEnd 0 ++ toEnd 0 ++ [.tick 1, .newCleaner, .cleaner 0 0]

theorem bindsFresh_of_steady_sharedText : ∃ state : ServState ℤ,
    Reaches (next parseText 0) Steady loaded state ∧
      state.groups.map (fun group =>
        group.taken (some (0, "a")) 8 5 "DELETE FROM t WHERE k = 1") = [some 1] ∧
      state.UsesLiving ∧
      state.BindsFresh parseText 0 (.statement 0 8 5 "DELETE FROM t WHERE k = 1") := by
  have runs : (execPermitted (next parseText 0) Steady sharedText loaded).map (fun state =>
      (state.groups.map (fun group => group.taken (some (0, "a")) 8 5 "DELETE FROM t WHERE k = 1"),
        decide (state.Steady (.statement 0 8 5 "DELETE FROM t WHERE k = 1")))) =
      some ([some 1], true) := by
    decide +kernel
  rcases Option.map_eq_some_iff.mp runs with ⟨state, execution, valuesAre⟩
  rcases Prod.mk.inj valuesAre with ⟨taken, steady⟩
  have run := reaches_of_execPermitted _ execution
  rcases bindsFresh_of_steady initial_loaded run with ⟨usesLiving, fresh⟩
  exact ⟨state, run, taken, usesLiving, fresh _ (of_decide_eq_true steady)⟩

/-- A table is dropped after a statement about it. -/
def droppedTable : List ServEvent :=
  [.createSession 0 7, .useDb 0 7 "a", .statement 0 7 1 "DELETE FROM t WHERE k = 1"] ++ toEnd 0 ++
  [.statement 0 7 2 "DROP TABLE t"] ++ toEnd 0

theorem not_bindsFresh : ¬∀ (parse : String → Option (List (SqlStmt ℤ))) (fuel : ℕ)
    (start state : ServState ℤ), Initial start → Reaches (next parse fuel) anyInput start state →
      state.UsesLiving ∧ ∀ event, state.BindsFresh parse fuel event := by
  intro binds
  have runs : (exec (next parseText 0) droppedTable loaded).map (fun state =>
      (state.groups.map (fun group => (group.findSession 7).map fun session =>
          group.taken (state.currDb session) 7 1 "DELETE FROM t WHERE k = 1"),
        state.groups.map (fun group => group.vctExpr.map fun exprStmt => exprStmt.bound.physTable),
        state.liveTable 0)) = some ([some (some 0)], [[some 0]], false) := by
    decide +kernel
  rcases Option.map_eq_some_iff.mp runs with ⟨state, execution, valuesAre⟩
  rcases Prod.mk.inj valuesAre with ⟨sessionIs, valuesAre⟩
  rcases Prod.mk.inj valuesAre with ⟨exprIs, notLive⟩
  rcases List.map_eq_singleton_iff.mp sessionIs with ⟨group, groupsIs, sessionIs⟩
  rcases Option.map_eq_some_iff.mp sessionIs with ⟨session, found, takenIs⟩
  have fresh := (binds parseText 0 loaded state initial_loaded (reaches_of_exec _ execution)).2
    (.statement 0 7 1 "DELETE FROM t WHERE k = 1") group (by simp [groupsIs]) session found 0
    takenIs
  rcases fresh.2 with ⟨exprStmt, bound, at_e, -, -, -, live⟩
  have bounds : group.vctExpr.map (fun exprStmt => exprStmt.bound.physTable) = [some 0] := by
    simpa [groupsIs] using exprIs
  have isTable : exprStmt.bound.physTable = some 0 := by
    have at_map := congrArg (·[0]?) bounds
    simpa [at_e] using at_map
  rw [live 0 isTable] at notLive
  cases notLive

end ServState

end ExprCache

end RapidDb
