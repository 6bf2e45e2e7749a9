import RapidDb.Serv.Session

/-!
# The transaction status of a session

The status is that of an automatic transaction exactly while a statement other than one of
transaction control runs outside an explicit one. In an explicit transaction what runs is a
statement on rows, or a COMMIT that waits for the log; SHOW, USE and TRUNCATE would end it.
-/

namespace RapidDb

open Transition

namespace Serv

namespace Session

variable {session session' : Session} {stmt : Statement} {exit : Exit} {finding : Finding}
  {event : SessionEvent}

/-- Statements that return `Finished` without a failure. -/
def endsAnyTran : ExprType → Finding → Bool
  | .showDatabases, _ | .showTables, _ | .trunTable, _ => true
  | .useDatabase, .found _ => true
  | _, _ => false

/-- What an explicit transaction would have to refuse is not run in it, and a closed session is not
deleted in it. -/
def Orderly (session : Session) : SessionEvent → Prop
  | .exec finding => session.tranStatus = .inTran → ∀ stmt ∈ session.upcoming,
      stmt.type ≠ .transaction .tranBegin ∧
        (stmt.stmtFailed = false → endsAnyTran stmt.type finding = false)
  | .deleteSession => session.tranStatus ≠ .inTran
  | _ => True

instance (session : Session) (event : SessionEvent) : Decidable (Orderly session event) :=
  match event with
  | .exec _ => by dsimp only [Orderly]; infer_instance
  | .deleteSession => by dsimp only [Orderly]; infer_instance
  | .statement _ _ | .badText _ | .close | .clean | .deleteGroup | .logged | .scanError _
  | .postError _ | .errMsg _ | .taskFault =>
      inferInstanceAs (Decidable True)

/-- What a statement that has begun to run says about the transaction. -/
inductive Running (tranStatus : TranStatus) (stmt : Statement) : Prop where
  | auto (status : tranStatus = .autoTran)
      (works : stmt.type.onRows = true ∨ stmt.type.isSoleTran = true)
  | rows (status : tranStatus = .inTran) (onRows : stmt.type.onRows = true)
      (executing : stmt.status = .executing)
  | commit (status : tranStatus = .inTran) (type : stmt.type = .transaction .tranCommit)
      (logging : stmt.status = .logging)

/-- What does not depend on the statement that runs. -/
structure Quiet (session : Session) : Prop where
  violated : session.violated = false
  ends : TranEnd.otherStatement ∉ session.tranEnds
  waitting : ∀ stmt ∈ session.lstWaittingStmt, stmt.status = .created
  held : session.tranStatus ≠ .inTran → session.lstStatement = []

structure Sound (session : Session) : Prop extends Quiet session where
  running : ∀ stmt, session.currStatement = some stmt → Running session.tranStatus stmt
  idle : session.currStatement = none → session.tranStatus ≠ .autoTran
  deleted : session.place = .deleted → session.noTran = true ∧ session.lstWaittingStmt = [] ∧
    session.currStatement = none

theorem noTran_iff : session.noTran = true ↔
    session.tranStatus ≠ .inTran ∧ session.tranStatus ≠ .autoTran := by
  unfold noTran
  cases session.tranStatus <;> simp

theorem sound_new : Sound new where
  violated := rfl
  ends := by simp [new]
  waitting := by simp [new]
  held := fun _ => rfl
  running := by simp [new]
  idle := by simp [new]
  deleted := by simp [new]

theorem Sound.setCrashed (sound : Sound session) (crashed : Bool) :
    Sound (session.setCrashed crashed) :=
  { sound with }

/-! ## Running a statement -/

section

variable (quiet : Quiet session)

include quiet

theorem Quiet.setViolated {violated : Bool} (ok : violated = false) :
    Quiet (session.setViolated violated) :=
  { quiet with violated := by simp [Session.setViolated, quiet.violated, ok] }

theorem Quiet.startTransaction (noTran : session.noTran = true) (bAuto : Bool) :
    Quiet (session.startTransaction bAuto) where
  violated := by simp [Session.startTransaction, quiet.violated, noTran]
  ends := quiet.ends
  waitting := quiet.waitting
  held := fun _ => quiet.held (noTran_iff.mp noTran).1

theorem Quiet.closeTransaction {tranEnd : TranEnd}
    (right : session.tranStatus = .inTran → tranEnd ≠ .otherStatement) :
    Quiet (session.closeTransaction tranEnd) where
  violated := quiet.violated
  ends := by
    unfold Session.closeTransaction
    by_cases explicit : session.tranStatus = .inTran
    · simp [explicit, quiet.ends, (right explicit).symm]
    · simp [explicit, quiet.ends]
  waitting := quiet.waitting
  held := fun _ => rfl

variable (alive : session.place ≠ .deleted)

include alive

theorem Quiet.dispose (notAuto : session.tranStatus ≠ .autoTran) :
    Sound (session.dispose stmt) where
  toQuiet := { quiet with }
  running := by simp [Session.dispose]
  idle := fun _ => notAuto
  deleted := fun deleted => absurd deleted alive

theorem Quiet.setCurrent (running : Running session.tranStatus stmt) :
    Sound (session.setCurrent stmt) where
  toQuiet := { quiet with }
  running := by
    intro other same
    cases Option.some.inj same
    exact running
  idle := by simp [Session.setCurrent]
  deleted := fun deleted => absurd deleted alive

theorem Quiet.settle_finished {violated : Bool} (ok : violated = false)
    (right : session.tranStatus = .inTran → endOf stmt ≠ .otherStatement) :
    Sound (session.settle { status := .finished, stmt, violated }) := by
  have closed : Quiet ((session.setViolated violated).closeTransaction (endOf stmt)) :=
    (quiet.setViolated ok).closeTransaction right
  exact closed.dispose alive (by simp [Session.closeTransaction])

theorem Quiet.settle_executed {violated : Bool} (ok : violated = false)
    (explicit : session.tranStatus = .inTran) :
    Sound (session.settle { status := .executed, stmt, violated }) := by
  have notViolated : (violated || (decide (session.tranStatus = .autoTran) ||
      Statement.noTran session.tranStatus)) = false := by
    simp [ok, explicit, Statement.noTran]
  have kept := quiet.setViolated notViolated
  refine Quiet.dispose { kept with held := fun other => ?_ } alive ?_
  · exact absurd explicit other
  · simp [Session.setViolated, explicit]

theorem Quiet.settle_goesOn (ok : exit.violated = false)
    (status : exit.status ≠ .finished ∧ exit.status ≠ .executed)
    (running : Running session.tranStatus exit.stmt) : Sound (session.settle exit) := by
  have settled : session.settle exit =
      ((session.setViolated exit.violated).setCurrent exit.stmt).setCrashed exit.crashed := by
    unfold Session.settle
    split
    · rename_i finished
      exact absurd finished status.1
    · rename_i executed
      exact absurd executed status.2
    · rfl
  rw [settled]
  exact ((quiet.setViolated ok).setCurrent alive running).setCrashed exit.crashed

theorem Quiet.settle_auto (auto : session.tranStatus = .autoTran)
    (works : stmt.status ≠ .created → stmt.type.onRows = true ∨ stmt.type.isSoleTran = true)
    {bLogged : Bool} (outcome : stmt.Outcome finding session.tranStatus bLogged exit) :
    Sound (session.settle exit) := by
  have ends : ∀ {next : Statement}, session.tranStatus = .inTran →
      endOf next ≠ .otherStatement := by
    intro next explicit
    rw [auto] at explicit
    cases explicit
  cases outcome with
  | started created works next same =>
      refine quiet.settle_goesOn alive rfl (by simp [Statement.exit]) (.auto auto ?_)
      rw [same]
      exact works
  | crashed faulty works next same =>
      exact quiet.settle_goesOn alive rfl (by simp [Statement.crash]) (.auto auto (same ▸ works))
  | silent | truncated | declined | done | failed | selected | logged =>
      exact quiet.settle_finished alive rfl ends
  | waits executing =>
      exact quiet.settle_goesOn alive rfl (by simp) (.auto auto (works (by simp [executing])))
  | executed _ _ _ _ _ notAuto => exact absurd auto notAuto
  | again executing =>
      exact quiet.settle_goesOn alive rfl (by simp [Statement.exit])
        (.auto auto (works (by simp [executing])))
  | logs executing _ _ _ _ violated assertion =>
      have notViolated : violated = false := by
        rw [auto] at assertion
        simpa using assertion
      exact quiet.settle_goesOn alive notViolated (by simp [Statement.exit])
        (.auto auto (works (by simp [executing])))
  | waitsLog logging =>
      exact quiet.settle_goesOn alive rfl (by simp) (.auto auto (works (by simp [logging])))

theorem Quiet.settle_explicit (explicit : session.tranStatus = .inTran)
    (notSole : stmt.type.isSoleTran = false)
    (rows : stmt.status ≠ .created → stmt.type.onRows = true ∧ stmt.status = .executing)
    (orderly : stmt.stmtFailed = false → endsAnyTran stmt.type finding = false) {bLogged : Bool}
    (outcome : stmt.Outcome finding session.tranStatus bLogged exit) :
    Sound (session.settle exit) := by
  have failedEnds : ∀ {next : Statement}, next.stmtFailed = true →
      session.tranStatus = .inTran → endOf next ≠ .otherStatement := by
    intro next failed _
    simp [endOf, failed]
  cases outcome with
  | started created works next same =>
      rw [notSole] at works
      have onRows : next.type.onRows = true := by
        rw [same]
        simpa using works
      exact quiet.settle_goesOn alive rfl (by simp [Statement.exit])
        (.rows explicit onRows rfl)
  | crashed faulty works next same =>
      rw [notSole] at works
      have onRows : next.type.onRows = true := by
        rw [same]
        simpa using works
      exact quiet.settle_goesOn alive rfl (by simp [Statement.crash]) (.rows explicit onRows rfl)
  | silent _ _ next failed => exact quiet.settle_finished alive rfl (failedEnds failed)
  | truncated type =>
      refine quiet.settle_finished alive rfl (failedEnds ?_)
      by_contra passed
      simp [type, endsAnyTran] at orderly
      exact passed orderly
  | declined => exact quiet.settle_finished alive rfl (failedEnds rfl)
  | done _ atOnce status =>
      refine quiet.settle_finished alive rfl (failedEnds ?_)
      by_contra passed
      have notEnding := orderly (Bool.eq_false_iff.mpr passed)
      cases finding <;> cases type : stmt.type <;>
        simp_all [Statement.doneAtOnce, Statement.shows, endsAnyTran]
  | waits executing =>
      have both := rows (by simp [executing])
      exact quiet.settle_goesOn alive rfl (by simp) (.rows explicit both.1 both.2)
  | failed _ _ _ _ failed => exact quiet.settle_finished alive rfl (failedEnds failed)
  | selected _ _ _ _ _ auto =>
      rw [explicit] at auto
      cases auto
  | executed =>
      exact quiet.settle_executed alive (by simp [explicit, Statement.noTran]) explicit
  | again _ _ _ _ _ sole =>
      rw [notSole] at sole
      cases sole
  | logs _ _ _ _ _ _ _ auto =>
      have automatic := auto notSole
      rw [explicit] at automatic
      cases automatic
  | waitsLog logging | logged logging =>
      have both := rows (by simp [logging])
      rw [logging] at both
      cases both.2

/-! ## A call of `Exec` -/

theorem Quiet.runTransaction (notAuto : session.tranStatus ≠ .autoTran)
    (created : stmt.status = .created) {tranAction : TranAction}
    (type : stmt.type = .transaction tranAction)
    (orderly : session.tranStatus = .inTran → tranAction ≠ .tranBegin) :
    Sound (session.runTransaction stmt tranAction) := by
  cases tranAction with
  | tranBegin =>
      have noTran : session.noTran = true :=
        noTran_iff.mpr ⟨fun explicit => orderly explicit rfl, notAuto⟩
      exact (quiet.startTransaction noTran false).dispose alive (by simp [Session.startTransaction])
  | tranCommit =>
      unfold Session.runTransaction transactionExec
      by_cases needLog : session.isNeedLog = true
      · simp only [created, needLog, and_self, if_true]
        have explicit : session.tranStatus = .inTran := by
          by_contra other
          simp [isNeedLog, quiet.held other] at needLog
        exact quiet.setCurrent alive (.commit explicit type rfl)
      · simp only [created, needLog, and_false, if_false, false_and, reduceCtorEq]
        exact (quiet.closeTransaction (by simp)).dispose alive (by simp [Session.closeTransaction])
  | tranRollback =>
      exact (quiet.closeTransaction (by simp)).dispose alive (by simp [Session.closeTransaction])

theorem Quiet.runCommit (explicit : session.tranStatus = .inTran)
    (type : stmt.type = .transaction .tranCommit) (logging : stmt.status = .logging)
    (step : session.runCurrent stmt finding = some session') : Sound session' := by
  simp only [runCurrent, sessionExec, type, Option.map_some, Option.some.injEq] at step
  subst step
  unfold transactionExec
  cases isLogged : session.bLogged with
  | false =>
      simp only [logging, reduceCtorEq, false_and, if_false, and_self, if_true]
      exact quiet.settle_goesOn alive rfl (by simp) (.commit explicit type logging)
  | true =>
      simp only [logging, reduceCtorEq, false_and, if_false, and_false]
      exact (quiet.closeTransaction (by simp)).settle_finished alive rfl
        (by simp [Session.closeTransaction])

theorem Quiet.runFirst (notAuto : session.tranStatus ≠ .autoTran) (created : stmt.status = .created)
    (orderly : session.tranStatus = .inTran → stmt.type ≠ .transaction .tranBegin ∧
      (stmt.stmtFailed = false → endsAnyTran stmt.type finding = false))
    (step : session.runFirst stmt finding = some session') : Sound session' := by
  unfold Session.runFirst at step
  by_cases unfinished : stmt.type.isSoleTran = true ∧ session.tranStatus = .inTran
  · rw [if_pos unfinished] at step
    cases step
    exact quiet.dispose alive notAuto
  · rw [if_neg unfinished] at step
    split at step
    · rename_i tranAction type
      cases step
      refine quiet.runTransaction alive notAuto created type fun explicit begins => ?_
      exact (orderly explicit).1 (by rw [type, begins])
    · rename_i notControl
      by_cases noTran : session.noTran = true
      · rw [if_pos noTran] at step
        rcases outcome_runCurrent notControl (fun _ => created) step with ⟨exit, outcome, rfl⟩
        exact (quiet.startTransaction noTran true).settle_auto alive rfl
          (fun started => absurd created started) outcome
      · rw [if_neg noTran] at step
        have explicit : session.tranStatus = .inTran := by
          by_contra other
          exact noTran (noTran_iff.mpr ⟨other, notAuto⟩)
        rcases outcome_runCurrent notControl (fun _ => created) step with ⟨exit, outcome, rfl⟩
        refine quiet.settle_explicit alive explicit ?_ (fun started => absurd created started)
          (orderly explicit).2 outcome
        exact Bool.eq_false_iff.mpr fun sole => unfinished ⟨sole, explicit⟩

end

theorem Sound.runCurrent (sound : Sound session) (alive : session.place ≠ .deleted)
    (current : session.currStatement = some stmt)
    (step : session.runCurrent stmt finding = some session') : Sound session' := by
  have quiet := sound.toQuiet
  cases sound.running stmt current with
  | auto auto works =>
      have notControl : ∀ tranAction, stmt.type ≠ .transaction tranAction := by
        intro tranAction type
        simp [type, ExprType.onRows, ExprType.isSoleTran] at works
      have use : stmt.type = .useDatabase → stmt.status = .created := by
        intro type
        simp [type, ExprType.onRows, ExprType.isSoleTran] at works
      rcases outcome_runCurrent notControl use step with ⟨exit, outcome, rfl⟩
      exact quiet.settle_auto alive auto (fun _ => works) outcome
  | rows explicit onRows executing =>
      have notControl : ∀ tranAction, stmt.type ≠ .transaction tranAction := by
        intro tranAction type
        simp [type, ExprType.onRows] at onRows
      have use : stmt.type = .useDatabase → stmt.status = .created := by
        intro type
        simp [type, ExprType.onRows] at onRows
      rcases outcome_runCurrent notControl use step with ⟨exit, outcome, rfl⟩
      refine quiet.settle_explicit alive explicit ?_ (fun _ => ⟨onRows, executing⟩) ?_ outcome
      · cases type : stmt.type <;> simp_all [ExprType.onRows, ExprType.isSoleTran]
      · intro _
        cases type : stmt.type <;> simp_all [ExprType.onRows, endsAnyTran]
  | commit explicit type logging =>
      exact quiet.runCommit alive explicit type logging step

theorem Sound.exec (sound : Sound session) (alive : session.place ≠ .deleted)
    (orderly : Orderly session (.exec finding)) (step : session.exec finding = some session') :
    Sound session' := by
  unfold Session.exec at step
  split at step
  · rename_i stmt current
    exact sound.runCurrent alive current step
  · rename_i idle
    have notAuto := sound.idle idle
    split at step
    · cases step
      exact sound
    · rename_i stmt waitting list
      have quiet : Quiet (session.takeWaitting waitting) := by
        refine ⟨by simp [takeWaitting, sound.violated, notAuto], sound.ends, ?_, sound.held⟩
        intro other mem
        exact sound.waitting other (by rw [list]; exact List.mem_cons_of_mem stmt mem)
      refine quiet.runFirst alive notAuto (sound.waitting stmt (by simp [list])) ?_ step
      exact fun explicit => orderly explicit stmt (by simp [upcoming, idle, list])

/-! ## Other steps -/

section

variable (sound : Sound session)

include sound

theorem Sound.keep (violated : session'.violated = session.violated)
    (ends : session'.tranEnds = session.tranEnds)
    (waitting : session'.lstWaittingStmt = session.lstWaittingStmt)
    (status : session'.tranStatus = session.tranStatus)
    (held : session'.lstStatement = session.lstStatement)
    (running : ∀ stmt', session'.currStatement = some stmt' → ∃ stmt,
      session.currStatement = some stmt ∧ stmt'.type = stmt.type ∧ stmt'.status = stmt.status)
    (idle : session'.currStatement = none → session.currStatement = none)
    (place : session'.place = .deleted → session.place = .deleted) : Sound session' where
  violated := violated.trans sound.violated
  ends := ends ▸ sound.ends
  waitting := waitting ▸ sound.waitting
  held := by
    rw [status, held]
    exact sound.held
  running := by
    intro stmt' current
    rcases running stmt' current with ⟨stmt, current', type, stmtStatus⟩
    rw [status]
    cases sound.running stmt current' with
    | auto auto works => exact .auto auto (type ▸ works)
    | rows explicit onRows executing =>
        exact .rows explicit (type ▸ onRows) (stmtStatus.trans executing)
    | commit explicit commit logging =>
        exact .commit explicit (type.trans commit) (stmtStatus.trans logging)
  idle := by
    intro none'
    rw [status]
    exact sound.idle (idle none')
  deleted := by
    intro deleted
    rcases sound.deleted (place deleted) with ⟨noTran, empty, none'⟩
    refine ⟨?_, waitting.trans empty, ?_⟩
    · rw [noTran_iff, status]
      exact noTran_iff.mp noTran
    · cases current : session'.currStatement with
      | none => rfl
      | some stmt' =>
          rcases running stmt' current with ⟨stmt, current', _⟩
          rw [none'] at current'
          cases current'

theorem Sound.setCurrent (current : session.currStatement = some stmt) {stmt' : Statement}
    (type : stmt'.type = stmt.type) (status : stmt'.status = stmt.status) :
    Sound (session.setCurrent stmt') := by
  refine sound.keep rfl rfl rfl rfl rfl ?_ (by simp [Session.setCurrent]) id
  intro other same
  cases Option.some.inj same
  exact ⟨stmt, current, type, status⟩

theorem Sound.unchanged (violated : session'.violated = session.violated)
    (ends : session'.tranEnds = session.tranEnds)
    (waitting : session'.lstWaittingStmt = session.lstWaittingStmt)
    (status : session'.tranStatus = session.tranStatus)
    (held : session'.lstStatement = session.lstStatement)
    (current : session'.currStatement = session.currStatement)
    (place : session'.place = .deleted → session.place = .deleted) : Sound session' :=
  sound.keep violated ends waitting status held
    (fun stmt running => ⟨stmt, current ▸ running, rfl, rfl⟩) (fun none => current ▸ none) place

theorem Sound.submit (alive : session.place ≠ .deleted) (type : ExprType) (ifExist : Bool) :
    Sound (session.submit type ifExist) where
  violated := sound.violated
  ends := sound.ends
  waitting := by
    intro stmt mem
    rcases List.mem_append.mp mem with before | new
    · exact sound.waitting stmt before
    · rw [List.mem_singleton.mp new]
  held := sound.held
  running := sound.running
  idle := sound.idle
  deleted := fun deleted => absurd deleted alive

theorem Sound.close : Sound session.close where
  violated := sound.violated
  ends := sound.ends
  waitting := by
    intro stmt mem
    rcases List.mem_map.mp mem with ⟨waitting, mem', rfl⟩
    exact sound.waitting waitting mem'
  held := sound.held
  running := by
    intro stmt current
    rcases Option.map_eq_some_iff.mp current with ⟨running, current', rfl⟩
    cases sound.running running current' with
    | auto auto works => exact .auto auto works
    | rows explicit onRows executing => exact .rows explicit onRows executing
    | commit explicit commit logging => exact .commit explicit commit logging
  idle := fun none => sound.idle (Option.map_eq_none_iff.mp none)
  deleted := by simp [Session.close]

theorem Sound.deleteSession (noTran : session.noTran = true) (empty : session.lstWaittingStmt = [])
    (none : session.currStatement = none) : Sound session.deleteSession where
  violated := by simp [Session.deleteSession, sound.violated, noTran, empty, none]
  ends := sound.ends
  waitting := sound.waitting
  held := sound.held
  running := sound.running
  idle := sound.idle
  deleted := fun _ => ⟨noTran, empty, none⟩

theorem Sound.deleteInGroup (isEmpty : session.isEmpty = true) : Sound session.deleteInGroup := by
  simp only [Session.isEmpty, Bool.and_eq_true, Option.isNone_iff_eq_none, List.isEmpty_iff]
    at isEmpty
  rcases isEmpty with ⟨⟨none, empty⟩, _, noTran⟩
  refine Sound.deleteSession ?_ noTran empty none
  exact sound.unchanged (by simp [setViolated, empty, noTran]) rfl rfl rfl rfl rfl id

theorem Sound.errMsg (action : ErrMsgAction) : Sound (session.errMsg action) := by
  unfold Session.errMsg
  split
  · rename_i stmt current
    split
    · exact sound.setCurrent current rfl rfl
    · exact sound.unchanged rfl rfl rfl rfl rfl rfl id
  · exact sound.unchanged rfl rfl rfl rfl rfl rfl id

theorem sound_next (orderly : Orderly session event) (step : session.next event = some session') :
    Sound session' := by
  have step : session.act event = some session' := (Option.ite_none_left_eq_some.mp step).2
  cases event with
  | statement type ifExist =>
      simp only [act] at step
      split at step
      · rename_i place
        cases step
        exact sound.submit (by simp [place]) type ifExist
      · cases step
        exact sound.unchanged rfl rfl rfl rfl rfl rfl id
  | badText text =>
      simp only [act] at step
      split at step <;>
        cases step <;> exact sound.unchanged rfl rfl rfl rfl rfl rfl id
  | exec finding =>
      rcases Option.ite_none_right_eq_some.mp step with ⟨place, step⟩
      exact sound.exec (by rcases place with place | place <;> simp [place]) orderly step
  | deleteSession =>
      rcases Option.ite_none_right_eq_some.mp step with ⟨done, ⟨⟩⟩
      have notAuto := sound.idle done.2.2
      exact sound.deleteSession (noTran_iff.mpr ⟨orderly, notAuto⟩) done.2.1 done.2.2
  | close =>
      rcases Option.ite_none_right_eq_some.mp step with ⟨-, ⟨⟩⟩
      exact sound.close
  | clean =>
      rcases Option.ite_none_right_eq_some.mp step with ⟨-, ⟨⟩⟩
      exact sound.unchanged rfl rfl rfl rfl rfl rfl (by simp)
  | deleteGroup =>
      rcases Option.ite_none_right_eq_some.mp step with ⟨empty, ⟨⟩⟩
      exact sound.deleteInGroup empty.2
  | logged =>
      simp only [act] at step
      split at step
      · rcases Option.ite_none_right_eq_some.mp step with ⟨-, ⟨⟩⟩
        exact sound.unchanged rfl rfl rfl rfl rfl rfl id
      · cases step
  | scanError error =>
      simp only [act] at step
      split at step
      · rename_i stmt current
        rcases Option.ite_none_right_eq_some.mp step with ⟨-, ⟨⟩⟩
        exact sound.setCurrent current rfl rfl
      · cases step
  | postError error =>
      simp only [act] at step
      split at step
      · rename_i stmt current
        rcases Option.ite_none_right_eq_some.mp step with ⟨-, ⟨⟩⟩
        have marked : Sound (session.setCurrent (setStmtFailed stmt)) :=
          sound.setCurrent current rfl rfl
        exact marked.unchanged rfl rfl rfl rfl rfl rfl id
      · cases step
  | errMsg pos =>
      simp only [act] at step
      split at step
      · cases step
        refine Sound.errMsg ?_ _
        exact sound.unchanged rfl rfl rfl rfl rfl rfl id
      · cases step
  | taskFault =>
      simp only [act] at step
      split at step
      · rcases Option.ite_none_right_eq_some.mp step with ⟨-, ⟨⟩⟩
        exact sound.setCrashed true
      · cases step

end

/-! ## Runs -/

/-- The assertions hold, explicit transactions are ended by nothing but COMMIT, ROLLBACK and
failures, and a session that is deleted has no transaction and no statements. -/
structure StatusKept (session : Session) : Prop where
  assertions : session.violated = false
  ends : ∀ tranEnd ∈ session.tranEnds,
    tranEnd = .commit ∨ tranEnd = .rollback ∨ tranEnd = .failedStatement
  deleted : session.place = .deleted →
    (session.tranStatus = .init ∨ session.tranStatus = .finished) ∧
    session.lstWaittingStmt = [] ∧ session.currStatement = none ∧ session.lstStatement = []

theorem Sound.statusKept (sound : Sound session) : StatusKept session where
  assertions := sound.violated
  ends := by
    intro tranEnd mem
    have ends := sound.ends
    cases tranEnd with
    | otherStatement => exact absurd mem ends
    | _ => simp
  deleted := by
    intro deleted
    rcases sound.deleted deleted with ⟨noTran, empty, none⟩
    refine ⟨?_, empty, none, sound.held (noTran_iff.mp noTran).1⟩
    simpa [Session.noTran, or_comm] using noTran

theorem statusKept_of_orderly (run : Reaches next Orderly new session) : StatusKept session :=
  Sound.statusKept (run.preserves sound_new fun _ _ _ orderly sound step =>
    sound_next sound orderly step)

/-- A row inserted and committed, a table created, and BEGIN with an UPDATE that fails in a session
that is closed before they are run. -/
def closedInTime : List SessionEvent :=
  [.statement (.transaction .tranBegin) false, .statement .insert false,
    .statement (.transaction .tranCommit) false, .statement .createTable false,
    .exec .ready, .exec .ready, .exec .waiting, .exec (.ended [] 1), .exec .ready, .logged,
    .exec .ready, .exec .ready, .exec (.ended [] 1), .logged, .exec .ready,
    .statement (.transaction .tranBegin) false, .statement .update false, .close,
    .exec .ready, .exec .mismatch, .deleteSession]

theorem statusKept_of_orderly_closed : ∃ session, Reaches next Orderly new session ∧
    session.place = .deleted ∧ session.tranEnds = [.commit, .failedStatement] ∧
    StatusKept session := by
  have executed : (execPermitted next Orderly closedInTime new).map
      (fun session => (session.place, session.tranEnds)) =
      some (.deleted, [.commit, .failedStatement]) := by decide +kernel
  rcases Option.map_eq_some_iff.mp executed with ⟨session, execution, same⟩
  have run := reaches_of_execPermitted closedInTime execution
  exact ⟨session, run, (Prod.mk.inj same).1, (Prod.mk.inj same).2, statusKept_of_orderly run⟩

/-- USE in a transaction that BEGIN has started. -/
def useInTran : List SessionEvent :=
  [.statement (.transaction .tranBegin) false, .statement .useDatabase false, .exec .ready,
    .exec (.found true)]

theorem not_statusKept : ¬∀ session, Reaches next anyInput new session → StatusKept session := by
  intro kept
  have executed : (Transition.exec next useInTran new).map Session.tranEnds =
    some [.otherStatement] := by
    decide +kernel
  rcases Option.map_eq_some_iff.mp executed with ⟨session, execution, ends⟩
  have ended := (kept session (reaches_of_exec useInTran execution)).ends .otherStatement
    (by simp [ends])
  simp at ended

end Session

end Serv

end RapidDb
