import RapidDb.Serv.CacheRuns

/-!
# What refers to tables and databases, and what protects it

Sessions, statements, cached expressions and index actions refer to tables and databases. A table
that is dropped is not protected by anything that refers to it, except that index tasks have to
leave the thread pool first. A database that is dropped goes on being the current one of a session
until the cleaner comes round, which is in time unless the group is done with a round that is still
going on.
-/

namespace RapidDb

open Transition

namespace ExprCache

variable {V : Type} {parse : String → Option (List (SqlStmt V))} {fuel : ℕ}

inductive Ref where
  | table (t : ℕ)
  | db (d : ℕ)
deriving DecidableEq, Repr

def Bound.refs (bound : Bound V) : List Ref :=
  bound.physTable.toList.map .table ++ bound.db.toList.map .db ++ bound.physDb.toList.map .db

/-- The expressions of statements and of the two maps. -/
def SessionGroup.exprs (group : SessionGroup V) : List (ExprStatement V) :=
  ((group.vctSession.filter fun session => !session.deleted).flatMap fun session =>
    session.statements.map Statement.exprStmt) ++
      group.mapped.filterMap fun e => group.vctExpr[e]?

/-- No TRUNCATE is among the expressions that the cleaner checks. -/
def SessionGroup.ChecksNoTruncate (group : SessionGroup V) : Prop :=
  (∀ s ∈ group.mapSession.map Prod.snd ++ group.obsoleteSession, ∀ session ∈ group.vctSession[s]?,
    ∀ stmt ∈ session.statements, stmt.exprStmt.stmt.isTrunTable = false) ∧
  ∀ e ∈ group.mapSqlExpr.map Prod.snd, ∀ exprStmt ∈ group.vctExpr[e]?,
    exprStmt.stmt.isTrunTable = false

instance (group : SessionGroup V) : Decidable group.ChecksNoTruncate := by
  unfold SessionGroup.ChecksNoTruncate
  infer_instance

namespace ServState

variable (state : ServState V)

def refs : List Ref :=
  state.groups.flatMap fun group => group.exprs.flatMap fun exprStmt => exprStmt.bound.refs

def isDeleted : Ref → Bool
  | .table t => t ∈ state.deletedTable
  | .db d => d ∈ state.deletedDb

/-- The databases that a statement removes when it ends. -/
def removedDbs (exprStmt : ExprStatement V) : List ℕ :=
  match exprStmt.stmt with
  | .dropDatabase dbName => (state.findDb dbName).toList
  | _ => []

/-- The group is done with a round that is still going on, and the database has not been checked
since the round began. -/
def Passed (g d : ℕ) : Prop :=
  ∃ round ∈ state.rounds, g ∈ round.finished ∧ round.finished.length < state.groups.length ∧
    state.dbChecked d < round.dtStart

instance (g d : ℕ) : Decidable (state.Passed g d) := by
  unfold Passed
  infer_instance

/-- A database is the current one of a session of such a group. -/
def Overlooked (d : ℕ) : Prop :=
  ∃ entry ∈ state.groups.zipIdx, (∃ session ∈ entry.1.vctSession,
    session.deleted = false ∧ session.currDb = some d) ∧ state.Passed entry.2 d

instance (d : ℕ) : Decidable (state.Overlooked d) := by
  unfold Overlooked
  infer_instance

/-- Nothing refers to what a statement removes, as far as the cleaner does not see to it. -/
def Unused (exprStmt : ExprStatement V) : Prop :=
  (∀ t ∈ state.removedTables exprStmt, Ref.table t ∉ state.refs) ∧
    ∀ d ∈ state.removedDbs exprStmt, Ref.db d ∉ state.refs ∧ ¬state.Overlooked d

instance (exprStmt : ExprStatement V) : Decidable (state.Unused exprStmt) := by
  unfold Unused
  infer_instance

/-- What a statement binds that is prepared for a session. -/
def prepared (parse : String → Option (List (SqlStmt V))) (fuel : ℕ) (session : Session V)
    (sql : String) : Option (Bound V) :=
  match parse sql with
  | some [stmt] =>
      match (stmt.preprocess fuel state.managers (state.currDb session)).run with
      | .ok bound => bound
      | .error _ => none
  | _ => none

/-- The condition of a step. When a table or a database is dropped no expression refers to it, and a
session has it as its current database only in a group that is not done with a round that is still
going on. A statement binds a database that has been dropped only with a table that has not. The
cleaner finds no closed session that is empty and no TRUNCATE, and nothing is dropped while it is in
the loops over the discarded objects. -/
def Released (parse : String → Option (List (SqlStmt V))) (fuel : ℕ) (state : ServState V) :
    ServEvent → Prop
  | .endStmt g s succeeds _ => succeeds = true → ∀ group ∈ state.groups[g]?,
      ∀ session ∈ group.vctSession[s]?, ∀ stmt ∈ session.currStatement, state.Unused stmt.exprStmt
  | .statement g sid exprId sql => ∀ group ∈ state.groups[g]?, ∀ session ∈ group.findSession sid,
      group.taken (state.currDb session) sid exprId sql = none →
        ∀ bound ∈ state.prepared parse fuel session sql,
          (∀ d ∈ bound.physDb, state.liveDb d = true) ∧
            ∀ d ∈ bound.db, state.liveDb d = true ∨
              bound.physTable.isSome = true ∧ ¬state.Passed g d
  | .cleaner _ g => ∀ group ∈ state.groups[g]?,
      (∀ s ∈ group.obsoleteSession, ∀ session ∈ group.vctSession[s]?, session.isEmpty = false) ∧
        group.ChecksNoTruncate
  | .endInLoop _ _ _ _ => False
  | _ => True

instance (event : ServEvent) : Decidable (state.Released parse fuel event) :=
  match event with
  | .statement _ _ _ _ => by dsimp only [Released]; infer_instance
  | .endStmt _ _ _ _ => by dsimp only [Released]; infer_instance
  | .cleaner _ _ => by dsimp only [Released]; infer_instance
  | .endInLoop _ _ _ _ => inferInstanceAs (Decidable False)
  | .tick _ | .createSession _ _ | .closeSession _ _ | .useDb _ _ _ | .startStmt _ _
  | .deleteSession _ _ | .addAction _ _ _ | .endAction _ | .stopTask _ _ | .newCleaner =>
      inferInstanceAs (Decidable True)

/-- Nothing refers to an object that has been deleted, the loops of the cleaner come to an end with
their iterators in place and their pointers set, and a closed session is in its list until it has
been deleted. -/
structure SafelyReclaimed : Prop where
  currDb : ∀ group ∈ state.groups, ∀ session ∈ group.vctSession, session.deleted = false →
    ∀ d ∈ session.currDb, d ∉ state.deletedDb
  refs : ∀ ref ∈ state.refs, state.isDeleted ref = false
  actions : ∀ action ∈ state.actions, action.1 ∉ state.deletedTable
  erasedIterator : state.erasedIterator = false
  endless : state.endless = false
  nullPointer : state.nullPointer = false
  obsolete : ∀ group ∈ state.groups, ∀ (s : ℕ) (session : Session V),
    group.vctSession[s]? = some session → session.bObsolete = true →
      s ∈ group.obsoleteSession ∨ session.deleted = true

end ServState

theorem mem_exprs {group : SessionGroup V} {exprStmt : ExprStatement V} :
    exprStmt ∈ group.exprs ↔
      (∃ session ∈ group.vctSession, session.deleted = false ∧
        ∃ stmt ∈ session.statements, stmt.exprStmt = exprStmt) ∨
      ∃ e ∈ group.mapped, group.vctExpr[e]? = some exprStmt := by
  simp only [SessionGroup.exprs, List.mem_append, List.mem_flatMap, List.mem_filter,
    List.mem_filterMap, List.mem_map, Bool.not_eq_true', and_assoc]

theorem mem_refs_table {bound : Bound V} {t : ℕ} : Ref.table t ∈ bound.refs ↔
    t ∈ bound.physTable := by
  simp [Bound.refs]

theorem mem_refs_db {bound : Bound V} {d : ℕ} :
    Ref.db d ∈ bound.refs ↔ d ∈ bound.db ∨ d ∈ bound.physDb := by
  simp [Bound.refs]

theorem mem_refs {state : ServState V} {ref : Ref} :
    ref ∈ state.refs ↔ ∃ group ∈ state.groups, ∃ exprStmt ∈ group.exprs,
      ref ∈ exprStmt.bound.refs := by
  simp only [ServState.refs, List.mem_flatMap]

/-! ## The sessions of a group -/

/-- A session that has neither a current database nor a statement. -/
def Session.Idle (session : Session V) : Prop := session.currDb = none ∧ session.statements = []

/-- A session is open, or it is closed and waits for its end, or it has come to it; one that was
made for a number that is taken stays idle. -/
structure SessionsListed (group : SessionGroup V) : Prop where
  keys : (group.mapSession.map Prod.fst).Nodup
  once : (group.mapSession.map Prod.snd).Nodup
  inside : ∀ s, s ∈ group.mapSession.map Prod.snd ∨ s ∈ group.obsoleteSession →
    s < group.vctSession.length
  opened : ∀ s ∈ group.mapSession.map Prod.snd, s ∉ group.obsoleteSession ∧
    ∀ session : Session V, group.vctSession[s]? = some session → session.deleted = false
  closed : ∀ (s : ℕ) (session : Session V), group.vctSession[s]? = some session →
    session.bObsolete = true → s ∈ group.obsoleteSession ∨ session.deleted = true
  reached : ∀ (s : ℕ) (session : Session V), group.vctSession[s]? = some session →
    session.deleted = false →
      s ∈ group.mapSession.map Prod.snd ∨ s ∈ group.obsoleteSession ∨ session.Idle

namespace SessionsListed

variable {group group' : SessionGroup V} {s : ℕ} {session session' : Session V}

theorem at_set (at_s : group.vctSession[s]? = some session) {k : ℕ} {other : Session V}
    (at_k : (group.setSession s session').vctSession[k]? = some other) :
    k = s ∧ other = session' ∨ k ≠ s ∧ group.vctSession[k]? = some other := by
  by_cases same : k = s
  · subst same
    rw [SessionGroup.setSession,
      List.getElem?_set_self (List.getElem?_eq_some_iff.mp at_s).1] at at_k
    exact Or.inl ⟨rfl, (Option.some.inj at_k).symm⟩
  · rw [SessionGroup.setSession, List.getElem?_set_ne (Ne.symm same)] at at_k
    exact Or.inr ⟨same, at_k⟩

theorem setSession (listed : SessionsListed group) (at_s : group.vctSession[s]? = some session)
    (deleted : session'.deleted = session.deleted)
      (obsolete : session'.bObsolete = session.bObsolete)
    (reached : s ∈ group.mapSession.map Prod.snd ∨ s ∈ group.obsoleteSession ∨ session'.Idle) :
    SessionsListed (group.setSession s session') := by
  refine { listed with inside := ?_, opened := ?_, closed := ?_, reached := ?_ }
  · intro k isIn
    rw [SessionGroup.setSession, List.length_set]
    exact listed.inside k isIn
  · intro k isOpen
    refine ⟨(listed.opened k isOpen).1, ?_⟩
    intro other at_k
    rcases at_set at_s at_k with ⟨rfl, rfl⟩ | ⟨-, at_k⟩
    · rw [deleted]
      exact (listed.opened k isOpen).2 session at_s
    · exact (listed.opened k isOpen).2 other at_k
  · intro k other at_k isObsolete
    rcases at_set at_s at_k with ⟨rfl, rfl⟩ | ⟨-, at_k⟩
    · rw [obsolete] at isObsolete
      rw [deleted]
      exact listed.closed k session at_s isObsolete
    · exact listed.closed k other at_k isObsolete
  · intro k other at_k living
    rcases at_set at_s at_k with ⟨rfl, rfl⟩ | ⟨-, at_k⟩
    · exact reached
    · exact listed.reached k other at_k living

theorem listed_of_statements (listed : SessionsListed group)
    (at_s : group.vctSession[s]? = some session) (living : session.deleted = false)
    {stmt : Statement V} (isStmt : stmt ∈ session.statements) :
    s ∈ group.mapSession.map Prod.snd ∨ s ∈ group.obsoleteSession := by
  rcases listed.reached s session at_s living with isOpen | isClosed | ⟨-, noStmt⟩
  · exact Or.inl isOpen
  · exact Or.inr isClosed
  · rw [noStmt] at isStmt
    cases isStmt

theorem of_concat {α : Type} {items : List α} {item other : α} {k : ℕ}
    (at_k : (items ++ [item])[k]? = some other) :
    items[k]? = some other ∨ k = items.length ∧ other = item := by
  by_cases before : k < items.length
  · rw [List.getElem?_append_left before] at at_k
    exact Or.inl at_k
  · have isLast : k = items.length := by
      have bound := (List.getElem?_eq_some_iff.mp at_k).1
      rw [List.length_append, List.length_singleton] at bound
      omega
    rw [isLast, List.getElem?_concat_length] at at_k
    exact Or.inr ⟨isLast, (Option.some.inj at_k).symm⟩

theorem newSession (listed : SessionsListed group) {mapSession : List (UInt32 × ℕ)}
    (keys : (mapSession.map Prod.fst).Nodup) (once : (mapSession.map Prod.snd).Nodup)
    (mapped : ∀ s ∈ mapSession.map Prod.snd,
      s ∈ group.mapSession.map Prod.snd ∨ s = group.vctSession.length)
    (kept : ∀ s ∈ group.mapSession.map Prod.snd, s ∈ mapSession.map Prod.snd) :
    SessionsListed { group with
      vctSession := group.vctSession ++ [{}]
      mapSession := mapSession } := by
  refine ⟨keys, once, ?_, ?_, ?_, ?_⟩
  · intro s isIn
    rw [List.length_append, List.length_singleton]
    rcases isIn with isOpen | isClosed
    · rcases mapped s isOpen with old | rfl
      · exact Nat.lt_succ_of_lt (listed.inside s (Or.inl old))
      · exact Nat.lt_succ_self _
    · exact Nat.lt_succ_of_lt (listed.inside s (Or.inr isClosed))
  · intro s isOpen
    rcases mapped s isOpen with old | rfl
    · refine ⟨(listed.opened s old).1, ?_⟩
      intro session at_s
      rcases of_concat at_s with at_s | ⟨-, rfl⟩
      · exact (listed.opened s old).2 session at_s
      · rfl
    · refine ⟨fun isClosed => absurd (listed.inside _ (Or.inr isClosed)) (Nat.lt_irrefl _), ?_⟩
      intro session at_s
      rcases of_concat at_s with at_s | ⟨-, rfl⟩
      · exact absurd (List.getElem?_eq_some_iff.mp at_s).1 (Nat.lt_irrefl _)
      · rfl
  · intro s session at_s isObsolete
    rcases of_concat at_s with at_s | ⟨-, rfl⟩
    · exact listed.closed s session at_s isObsolete
    · cases isObsolete
  · intro s session at_s living
    rcases of_concat at_s with at_s | ⟨-, rfl⟩
    · exact (listed.reached s session at_s living).imp_left (kept s)
    · exact Or.inr (Or.inr ⟨rfl, rfl⟩)

theorem createSession (listed : SessionsListed group) (sid : UInt32) :
    SessionsListed { group with
      vctSession := group.vctSession ++ [{}]
      mapSession :=
        if (group.mapSession.lookup sid).isSome then group.mapSession
        else group.mapSession ++ [(sid, group.vctSession.length)] } := by
  by_cases free : (group.mapSession.lookup sid).isSome = true
  · rw [if_pos free]
    exact listed.newSession listed.keys listed.once (fun _ => Or.inl) fun _ isOpen => isOpen
  · rw [if_neg free]
    have isFree : sid ∉ group.mapSession.map Prod.fst := by
      intro isKey
      rcases List.mem_map.mp isKey with ⟨entry, isEntry, rfl⟩
      exact free (List.lookup_isSome_iff.mpr ⟨entry, isEntry, by simp⟩)
    have isNew : group.vctSession.length ∉ group.mapSession.map Prod.snd :=
      fun isOpen => absurd (listed.inside _ (Or.inl isOpen)) (Nat.lt_irrefl _)
    apply listed.newSession
    · rw [List.map_append, List.nodup_append_comm]
      exact List.nodup_cons.mpr ⟨isFree, listed.keys⟩
    · rw [List.map_append, List.nodup_append_comm]
      exact List.nodup_cons.mpr ⟨isNew, listed.once⟩
    · intro s isOpen
      rw [List.map_append, List.mem_append] at isOpen
      exact isOpen.imp_right List.mem_singleton.mp
    · intro s isOpen
      rw [List.map_append]
      exact List.mem_append_left _ isOpen

theorem closeSession (listed : SessionsListed group) {sid : UInt32}
    (found : group.mapSession.lookup sid = some s) (at_s : group.vctSession[s]? = some session) :
    SessionsListed { group.setSession s { session with bObsolete := true } with
      obsoleteSession := group.obsoleteSession ++ [s]
      mapSession := group.mapSession.filter fun entry => entry.1 ≠ sid } := by
  have isEntry : (sid, s) ∈ group.mapSession := by
    rcases List.lookup_eq_some_iff.mp found with ⟨before, after, isMap, -⟩
    rw [isMap]
    simp
  have kept : ∀ k ∈ group.mapSession.map Prod.snd, k ≠ s →
      k ∈ (group.mapSession.filter fun entry => entry.1 ≠ sid).map Prod.snd := by
    intro k isOpen other
    rcases List.mem_map.mp isOpen with ⟨entry, isOther, rfl⟩
    refine List.mem_map_of_mem (List.mem_filter.mpr ⟨isOther, ?_⟩)
    -- An entry with this number would be the one that was found.
    have apart : entry.1 ≠ sid := by
      intro same
      have equal := List.inj_on_of_nodup_map listed.keys isOther isEntry same
      exact other (congrArg Prod.snd equal)
    simpa using apart
  have removed : ∀ k ∈ (group.mapSession.filter fun entry => entry.1 ≠ sid).map Prod.snd,
      k ∈ group.mapSession.map Prod.snd ∧ k ≠ s := by
    intro k isOpen
    rcases List.mem_map.mp isOpen with ⟨entry, isKept, rfl⟩
    rcases List.mem_filter.mp isKept with ⟨isOther, apart⟩
    refine ⟨List.mem_map_of_mem isOther, ?_⟩
    intro same
    have equal := List.inj_on_of_nodup_map listed.once isOther isEntry same
    rw [equal] at apart
    simp at apart
  refine ⟨?_, ?_, ?_, ?_, ?_, ?_⟩
  · exact listed.keys.sublist (List.filter_sublist.map _)
  · exact listed.once.sublist (List.filter_sublist.map _)
  · intro k isIn
    rw [SessionGroup.setSession, List.length_set]
    rcases isIn with isOpen | isClosed
    · exact listed.inside k (Or.inl (removed k isOpen).1)
    · rcases List.mem_append.mp isClosed with old | isLast
      · exact listed.inside k (Or.inr old)
      · rw [List.mem_singleton.mp isLast]
        exact (List.getElem?_eq_some_iff.mp at_s).1
  · intro k isOpen
    rcases removed k isOpen with ⟨wasOpen, apart⟩
    refine ⟨?_, ?_⟩
    · intro isClosed
      rcases List.mem_append.mp isClosed with old | isLast
      · exact (listed.opened k wasOpen).1 old
      · exact apart (List.mem_singleton.mp isLast)
    · intro other at_k
      rcases at_set at_s at_k with ⟨rfl, -⟩ | ⟨-, at_k⟩
      · exact absurd rfl apart
      · exact (listed.opened k wasOpen).2 other at_k
  · intro k other at_k isObsolete
    rcases at_set at_s at_k with ⟨rfl, -⟩ | ⟨-, at_k⟩
    · exact Or.inl (List.mem_append_right _ (List.mem_singleton_self _))
    · exact (listed.closed k other at_k isObsolete).imp_left (List.mem_append_left _)
  · intro k other at_k living
    rcases at_set at_s at_k with ⟨rfl, -⟩ | ⟨apart, at_k⟩
    · exact Or.inr (Or.inl (List.mem_append_right _ (List.mem_singleton_self _)))
    · rcases listed.reached k other at_k living with isOpen | isClosed | idle
      · exact Or.inl (kept k isOpen apart)
      · exact Or.inr (Or.inl (List.mem_append_left _ isClosed))
      · exact Or.inr (Or.inr idle)

theorem deleteSession (listed : SessionsListed group) (at_s : group.vctSession[s]? = some session)
    (isClosed : s ∈ group.obsoleteSession) :
    SessionsListed { group.setSession s { session with deleted := true } with
      obsoleteSession := group.obsoleteSession.erase s } := by
  refine { listed with inside := ?_, opened := ?_, closed := ?_, reached := ?_ }
  · intro k isIn
    rw [SessionGroup.setSession, List.length_set]
    exact listed.inside k (isIn.imp_right List.mem_of_mem_erase)
  · intro k isOpen
    rcases listed.opened k isOpen with ⟨notClosed, living⟩
    refine ⟨fun isClosed => notClosed (List.mem_of_mem_erase isClosed), ?_⟩
    intro other at_k
    rcases at_set at_s at_k with ⟨rfl, -⟩ | ⟨-, at_k⟩
    · exact absurd isClosed notClosed
    · exact living other at_k
  · intro k other at_k isObsolete
    rcases at_set at_s at_k with ⟨rfl, rfl⟩ | ⟨apart, at_k⟩
    · exact Or.inr rfl
    · exact (listed.closed k other at_k isObsolete).imp_left (List.mem_erase_of_ne apart).mpr
  · intro k other at_k living
    rcases at_set at_s at_k with ⟨rfl, rfl⟩ | ⟨apart, at_k⟩
    · cases living
    · rcases listed.reached k other at_k living with isOpen | isClosed | idle
      · exact Or.inl isOpen
      · exact Or.inr (Or.inl ((List.mem_erase_of_ne apart).mpr isClosed))
      · exact Or.inr (Or.inr idle)

theorem groupChecked (listed : SessionsListed group) (checked : GroupChecked group group') :
    SessionsListed group' := by
  have flags : ∀ {session session' : Session V}, session.Checked session' →
      session'.deleted = session.deleted ∧ session'.bObsolete = session.bObsolete ∧
        (session.Idle → session'.Idle) := by
    rintro session session' (rfl | rfl)
    · exact ⟨rfl, rfl, fun idle => idle⟩
    · exact ⟨rfl, rfl, fun idle => ⟨rfl, idle.2⟩⟩
  have length := checked.length
  have sessions := checked.sessions
  rw [checked.same] at *
  refine { listed with inside := ?_, opened := ?_, closed := ?_, reached := ?_ }
  · intro k isIn
    exact (listed.inside k isIn).trans_eq length.symm
  · intro k isOpen
    refine ⟨(listed.opened k isOpen).1, ?_⟩
    intro session' at_k
    rcases sessions k session' at_k with ⟨session, at_k', sessionChecked⟩
    exact (flags sessionChecked).1.trans ((listed.opened k isOpen).2 session at_k')
  · intro k session' at_k isObsolete
    rcases sessions k session' at_k with ⟨session, at_k', sessionChecked⟩
    rcases flags sessionChecked with ⟨deleted, obsolete, -⟩
    rw [deleted]
    exact listed.closed k session at_k' (obsolete.symm.trans isObsolete)
  · intro k session' at_k living
    rcases sessions k session' at_k with ⟨session, at_k', sessionChecked⟩
    rcases flags sessionChecked with ⟨deleted, -, idle⟩
    rcases listed.reached k session at_k' (deleted.symm.trans living) with isOpen |
      isClosed | isIdle
    · exact Or.inl isOpen
    · exact Or.inr (Or.inl isClosed)
    · exact Or.inr (Or.inr (idle isIdle))

end SessionsListed

end ExprCache

end RapidDb
