import RapidDb.Serv.Session

/-!
# Answers of a session

A statement that runs has no answer yet, and it is marked as failed if there is an error in its
result. The steps with which the session is done with it set the result once, with the errors and
the flag if it is marked, as long as the way out is one of those that do so and every error has
arrived.
-/

namespace RapidDb

open Transition

namespace Serv

namespace Answers

open Session

variable {session session' : Session} {stmt : Statement} {exit : Exit} {finding : Finding}
  {event : SessionEvent} {tranStatus : TranStatus} {bLogged : Bool}

def isControl : ExprType → Bool
  | .transaction _ => true
  | _ => false

/-- The first step of the statement does not lead out without the answer it has to give. -/
def StartsWell (stmt : Statement) (finding : Finding) : Prop :=
  stmt.type ≠ .trunTable ∧ stmt.failsSilently finding = false ∧
    (stmt.stmtFailed = true → stmt.doneAtOnce finding = false ∧ isControl stmt.type = false)

instance : Decidable (StartsWell stmt finding) := by
  unfold StartsWell
  infer_instance

/-- A scan does not end while messages are under way, or with a failure nothing is known of. -/
def EndsWell (session : Session) (stmt : Statement) : Finding → Prop
  | .ended errors _ => session.errMsgActions = [] ∧
      (stmt.stmtFailed = true → stmt.result.vctError ++ errors ≠ [])
  | _ => True

instance : Decidable (EndsWell session stmt finding) := by
  unfold EndsWell
  split <;> infer_instance

def AnswersWell (session : Session) (stmt : Statement) (finding : Finding) : Prop :=
  match stmt.status with
  | .created => StartsWell stmt finding
  | .executing => EndsWell session stmt finding
  | .logging => session.bLogged = true → stmt.stmtFailed = false
  | _ => True

instance : Decidable (AnswersWell session stmt finding) := by
  unfold AnswersWell
  split <;> infer_instance

def RunsWell (session : Session) (stmt : Statement) (finding : Finding) : Prop :=
  stmt.faulty finding session.bLogged = false ∧ AnswersWell session stmt finding

instance : Decidable (RunsWell session stmt finding) := by
  unfold RunsWell
  infer_instance

/-- `FailWithUnfinishedTran` is called for the statement. -/
def Unfinished (session : Session) (stmt : Statement) : Prop :=
  session.currStatement = none ∧ stmt.type.isSoleTran = true ∧ session.tranStatus = .inTran

instance : Decidable (Unfinished session stmt) := by
  unfold Unfinished
  infer_instance

/-- Texts are accepted, and what runs finds what it uses and gets its answer. -/
def Careful (session : Session) : SessionEvent → Prop
  | .statement _ _ => session.place = .mapSession
  | .badText _ | .taskFault => False
  | .exec finding => ∀ stmt ∈ session.upcoming,
      Unfinished session stmt ∨ RunsWell session stmt finding
  | _ => True

instance (session : Session) (event : SessionEvent) : Decidable (Careful session event) := by
  unfold Careful
  split <;> infer_instance

/-- The result was set to `FINISHED` once, with an error and the flag if and only if the statement
has failed. -/
structure Answered (stmt : Statement) : Prop where
  once : stmt.result.finished = 1
  failed : stmt.stmtFailed = true → stmt.result.vctError ≠ [] ∧ stmt.result.bFailed = true
  passed : stmt.stmtFailed = false → stmt.result.vctError = [] ∧ stmt.result.bFailed = false

structure Unanswered (stmt : Statement) : Prop where
  notYet : stmt.result.finished = 0
  bFailed : stmt.result.bFailed = false
  passed : stmt.stmtFailed = false → stmt.result.vctError = []

structure Fresh (stmt : Statement) : Prop where
  created : stmt.status = .created
  result : stmt.result = {}

/-- What runs is a statement that works in index tasks, or a COMMIT that waits for the log. -/
def Works (stmt : Statement) : Prop :=
  stmt.type.onRows = true ∨ stmt.type.isSoleTran = true ∨
    stmt.type = .transaction .tranCommit ∧ stmt.status = .logging

structure Sound (session : Session) : Prop where
  answered : ∀ stmt ∈ session.disposed, Answered stmt
  refused : session.refused = []
  late : session.late = false
  crashed : session.crashed = false
  running : ∀ stmt, session.currStatement = some stmt → Unanswered stmt ∧ Works stmt
  waitting : ∀ stmt ∈ session.lstWaittingStmt, Fresh stmt
  messages : ∀ action ∈ session.errMsgActions, ∃ stmt, session.currStatement = some stmt ∧
    action.number = stmt.number ∧ stmt.stmtFailed = true ∧ stmt.status = .executing
  order : (session.disposed ++ (session.currStatement.toList ++ session.lstWaittingStmt)).map
    Statement.number = List.range session.submitted

theorem Fresh.unanswered (fresh : Fresh stmt) : Unanswered stmt :=
  ⟨by rw [fresh.result], by rw [fresh.result], fun _ => by rw [fresh.result]⟩

theorem sound_new : Sound new := by
  refine ⟨?_, rfl, rfl, rfl, ?_, ?_, ?_, rfl⟩ <;> simp [new]

/-! ## The ways out -/

theorem Unanswered.collect (unanswered : Unanswered stmt) (errors : List ErrorText)
    (records : ℕ) : Unanswered (stmt.collect errors records) where
  notYet := unanswered.notYet
  bFailed := unanswered.bFailed
  passed := by
    intro passed
    simp only [Statement.collect, Bool.or_eq_false_iff, Bool.not_eq_false',
      List.isEmpty_iff] at passed ⊢
    simp [unanswered.passed passed.1, passed.2]

theorem Unanswered.setResult (unanswered : Unanswered stmt) (passed : stmt.stmtFailed = false)
    (status : StmtStatus) : Answered (stmt.setResult.setStatus status) where
  once := by simp [Statement.setResult, Statement.setStatus, unanswered.notYet]
  failed := by
    intro failed
    have failed' : stmt.stmtFailed = true := failed
    rw [passed] at failed'
    cases failed'
  passed := fun _ => ⟨unanswered.passed passed, unanswered.bFailed⟩

theorem Unanswered.setFailed (unanswered : Unanswered stmt) (failed : stmt.stmtFailed = true)
    (known : stmt.result.vctError ≠ []) (status : StmtStatus) :
    Answered (stmt.setBFailed.setResult.setStatus status) where
  once := by simp [Statement.setBFailed, Statement.setResult, Statement.setStatus,
    unanswered.notYet]
  failed := fun _ => ⟨known, rfl⟩
  passed := by
    intro passed
    have passed' : stmt.stmtFailed = false := passed
    rw [failed] at passed'
    cases passed'

theorem Unanswered.fail (unanswered : Unanswered stmt) (error : ErrorText)
    (status : StmtStatus) : Answered ((stmt.fail error).setBFailed.setResult.setStatus status) := by
  have marked : Unanswered (stmt.fail error) :=
    ⟨unanswered.notYet, unanswered.bFailed, fun passed => by cases passed⟩
  refine marked.setFailed rfl ?_ status
  simp [Statement.fail, Statement.pushError]

/-- What a call of `SessionExec` leaves. -/
inductive Settled (session : Session) (stmt : Statement) (exit : Exit) : Prop where
  | done (status : exit.status = .finished ∨ exit.status = .executed)
    (answered : Answered exit.stmt)
      (number : exit.stmt.number = stmt.number) (messages : session.errMsgActions = [])
  | goesOn (status : exit.status ≠ .finished ∧ exit.status ≠ .executed)
      (crashed : exit.crashed = false) (unanswered : Unanswered exit.stmt) (works : Works exit.stmt)
      (number : exit.stmt.number = stmt.number)
      (messages : exit.stmt = stmt ∨ session.errMsgActions = [])

theorem Unanswered.settled (unanswered : Unanswered stmt)
    (works : stmt.status ≠ .created → stmt.type.onRows = true ∨ stmt.type.isSoleTran = true)
    (idle : stmt.status ≠ .executing → session.errMsgActions = [])
    (right : stmt.faulty finding bLogged = false)
    (starts : stmt.status = .created → StartsWell stmt finding)
    (ends : stmt.status = .executing → EndsWell session stmt finding)
    (logs : stmt.status = .logging → bLogged = true → stmt.stmtFailed = false)
    (outcome : stmt.Outcome finding tranStatus bLogged exit) : Settled session stmt exit := by
  cases outcome with
  | started created works next same =>
      rw [same]
      refine .goesOn (by simp [Statement.exit]) rfl ?_ ?_ rfl (.inr (idle (by simp [created])))
      · exact { unanswered with }
      · exact or_assoc.mp (.inl works)
  | crashed faulty =>
      rw [right] at faulty
      cases faulty
  | silent created silent =>
      rw [(starts created).2.1] at silent
      cases silent
  | truncated type =>
      by_cases created : stmt.status = .created
      · exact absurd type (starts created).1
      · have working := works created
        simp [type, ExprType.onRows, ExprType.isSoleTran] at working
  | declined created error status =>
      exact .done (.inl rfl) (unanswered.fail error status) rfl (idle (by simp [created]))
  | done first atOnce status =>
      have created : stmt.status = .created := by
        by_contra started
        have working := works started
        rcases first with created | shows
        · exact started created
        · simp only [Statement.shows, Bool.or_eq_true, decide_eq_true_eq] at shows
          rcases shows with type | type <;>
            simp [type, ExprType.onRows, ExprType.isSoleTran] at working
      have passed : stmt.stmtFailed = false := by
        by_contra failed
        have notDone := ((starts created).2.2 (by simpa using failed)).1
        rw [atOnce] at notDone
        cases notDone
      exact .done (.inl rfl) (unanswered.setResult passed status) rfl (idle (by simp [created]))
  | waits executing =>
      have working := works (by simp [executing])
      exact .goesOn (by simp) rfl unanswered (or_assoc.mp (.inl working)) rfl (.inl rfl)
  | failed executing errors records ended failed =>
      have well := ends executing
      rw [ended] at well
      refine .done (.inl rfl) ?_ rfl well.1
      refine (unanswered.collect errors records).setFailed failed ?_ .finished
      cases marked : stmt.stmtFailed with
      | true => exact well.2 marked
      | false =>
          simp only [Statement.collect, marked, Bool.false_or, Bool.not_eq_true',
            List.isEmpty_eq_false_iff] at failed
          simp [Statement.collect, failed]
  | selected executing errors records ended passed =>
      have well := ends executing
      rw [ended] at well
      exact .done (.inl rfl) ((unanswered.collect errors records).setResult passed .finished) rfl
        well.1
  | executed executing errors records ended passed =>
      have well := ends executing
      rw [ended] at well
      exact .done (.inr rfl) ((unanswered.collect errors records).setResult passed .executed) rfl
        well.1
  | again executing errors records ended passed sole =>
      have well := ends executing
      rw [ended] at well
      have collected := unanswered.collect errors records
      exact .goesOn (by simp [Statement.exit]) rfl
        { collected with } (.inr (.inl sole)) rfl (.inr well.1)
  | logs executing errors records ended passed violated =>
      have well := ends executing
      rw [ended] at well
      have working := works (by simp [executing])
      have collected := unanswered.collect errors records
      exact .goesOn (by simp [Statement.exit]) rfl
        { collected with } (or_assoc.mp (.inl working)) rfl
        (.inr well.1)
  | waitsLog logging =>
      have working := works (by simp [logging])
      exact .goesOn (by simp) rfl unanswered (or_assoc.mp (.inl working)) rfl (.inl rfl)
  | logged logging isLogged =>
      exact .done (.inl rfl) (unanswered.setResult (logs logging isLogged) .finished) rfl
        (idle (by simp [logging]))

/-! ## The session -/

theorem Sound.keep (sound : Sound session) (disposed : session'.disposed = session.disposed)
    (refused : session'.refused = session.refused) (late : session'.late = session.late)
    (crashed : session'.crashed = session.crashed)
    (current : session'.currStatement = session.currStatement)
    (waitting : session'.lstWaittingStmt = session.lstWaittingStmt)
    (submitted : session'.submitted = session.submitted)
    (messages : ∀ action ∈ session'.errMsgActions, action ∈ session.errMsgActions) :
    Sound session' where
  answered := disposed ▸ sound.answered
  refused := refused.trans sound.refused
  late := late.trans sound.late
  crashed := crashed.trans sound.crashed
  running := current ▸ sound.running
  waitting := waitting ▸ sound.waitting
  messages := by
    intro action mem
    rw [current]
    exact sound.messages action (messages action mem)
  order := by
    rw [disposed, current, waitting, submitted]
    exact sound.order

/-- The statement that is to be run next is settled; `waitting` is what is left. -/
structure Ready (session : Session) (stmt : Statement) : Prop where
  answered : ∀ stmt ∈ session.disposed, Answered stmt
  refused : session.refused = []
  late : session.late = false
  crashed : session.crashed = false
  waitting : ∀ stmt ∈ session.lstWaittingStmt, Fresh stmt
  messages : ∀ action ∈ session.errMsgActions, action.number = stmt.number ∧
    stmt.stmtFailed = true ∧ stmt.status = .executing
  order : (session.disposed ++ (stmt :: session.lstWaittingStmt)).map Statement.number =
    List.range session.submitted

theorem Sound.ready (sound : Sound session) (current : session.currStatement = some stmt) :
    Ready session stmt where
  answered := sound.answered
  refused := sound.refused
  late := sound.late
  crashed := sound.crashed
  waitting := sound.waitting
  messages := by
    intro action mem
    rcases sound.messages action mem with ⟨other, current', marked⟩
    rw [current] at current'
    cases Option.some.inj current'
    exact marked
  order := by
    have order := sound.order
    rw [current] at order
    simpa using order

section

variable (ready : Ready session stmt)

include ready

theorem Ready.idle (other : stmt.status ≠ .executing) : session.errMsgActions = [] := by
  apply List.eq_nil_iff_forall_not_mem.mpr
  intro action mem
  exact other (ready.messages action mem).2.2

theorem Ready.done {answer : Statement} (answered : Answered answer)
    (number : answer.number = stmt.number) (messages : session.errMsgActions = [])
    (disposed : session'.disposed = session.disposed ++ [answer])
    (refused : session'.refused = session.refused) (late : session'.late = session.late)
    (crashed : session'.crashed = session.crashed) (current : session'.currStatement = none)
    (waitting : session'.lstWaittingStmt = session.lstWaittingStmt)
    (submitted : session'.submitted = session.submitted)
    (actions : session'.errMsgActions = session.errMsgActions) : Sound session' where
  answered := by
    intro other mem
    rw [disposed] at mem
    rcases List.mem_append.mp mem with before | new
    · exact ready.answered other before
    · rw [List.mem_singleton.mp new]
      exact answered
  refused := refused.trans ready.refused
  late := late.trans ready.late
  crashed := crashed.trans ready.crashed
  running := by simp [current]
  waitting := waitting ▸ ready.waitting
  messages := by simp [actions, messages]
  order := by
    rw [disposed, current, waitting, submitted, ← ready.order]
    simp [number]

theorem Ready.goesOn {next : Statement} (unanswered : Unanswered next) (works : Works next)
    (number : next.number = stmt.number) (messages : next = stmt ∨ session.errMsgActions = []) :
    Sound (session.setCurrent next) where
  answered := ready.answered
  refused := ready.refused
  late := ready.late
  crashed := ready.crashed
  running := by
    intro other same
    cases Option.some.inj same
    exact ⟨unanswered, works⟩
  waitting := ready.waitting
  messages := by
    intro action mem
    rcases messages with same | empty
    · rw [same]
      exact ⟨stmt, rfl, ready.messages action mem⟩
    · simp [setCurrent, empty] at mem
  order := by
    have order := ready.order
    simpa [setCurrent, number] using order

theorem Ready.settle (settled : Settled session stmt exit) : Sound (session.settle exit) := by
  cases settled with
  | done status answered number messages =>
      unfold Session.settle
      rcases status with finished | executed
      · rw [finished]
        exact ready.done answered number messages rfl rfl rfl rfl rfl rfl rfl rfl
      · rw [executed]
        exact ready.done answered number messages rfl rfl rfl rfl rfl rfl rfl rfl
  | goesOn status crashed unanswered works number messages =>
      have running := ready.goesOn unanswered works number messages
      unfold Session.settle
      split
      · rename_i finished
        exact absurd finished status.1
      · rename_i executed
        exact absurd executed status.2
      · exact running.keep rfl rfl rfl (crashed.trans ready.crashed.symm) rfl rfl rfl
          fun _ mem => mem

theorem Ready.transaction (disposed : session'.disposed = session.disposed)
    (refused : session'.refused = session.refused) (late : session'.late = session.late)
    (crashed : session'.crashed = session.crashed)
    (waitting : session'.lstWaittingStmt = session.lstWaittingStmt)
    (submitted : session'.submitted = session.submitted)
    (actions : session'.errMsgActions = session.errMsgActions) : Ready session' stmt where
  answered := disposed ▸ ready.answered
  refused := refused.trans ready.refused
  late := late.trans ready.late
  crashed := crashed.trans ready.crashed
  waitting := waitting ▸ ready.waitting
  messages := actions ▸ ready.messages
  order := by
    rw [disposed, waitting, submitted]
    exact ready.order

theorem Ready.runTransaction (fresh : Fresh stmt) {tranAction : TranAction}
    (type : stmt.type = .transaction tranAction) (starts : StartsWell stmt finding) :
    Sound (session.runTransaction stmt tranAction) := by
  have passed : stmt.stmtFailed = false := by
    by_contra failed
    have control := (starts.2.2 (by simpa using failed)).2
    simp [type, isControl] at control
  have answered : Answered (stmt.setResult.setStatus .finished) :=
    fresh.unanswered.setResult passed .finished
  have messages : session.errMsgActions = [] := ready.idle (by simp [fresh.created])
  cases tranAction with
  | tranBegin | tranRollback =>
      exact ready.done answered rfl messages rfl rfl rfl rfl rfl rfl rfl rfl
  | tranCommit =>
      unfold Session.runTransaction transactionExec
      by_cases needLog : session.isNeedLog = true
      · simp only [fresh.created, needLog, and_self, if_true]
        have unanswered := fresh.unanswered
        have waits : Unanswered (stmt.setStatus .logging) :=
          { unanswered with }
        exact ready.goesOn waits (.inr (.inr ⟨type, rfl⟩)) rfl (.inr messages)
      · simp only [fresh.created, needLog, and_false, if_false, false_and, reduceCtorEq]
        exact ready.done answered rfl messages rfl rfl rfl rfl rfl rfl rfl rfl

theorem Ready.runCommit (unanswered : Unanswered stmt) (type : stmt.type = .transaction .tranCommit)
    (logging : stmt.status = .logging) (well : RunsWell session stmt finding)
    (step : session.runCurrent stmt finding = some session') : Sound session' := by
  simp only [runCurrent, sessionExec, type, Option.map_some, Option.some.injEq] at step
  subst step
  have passed := well.2
  simp only [AnswersWell, logging] at passed
  unfold transactionExec
  cases isLogged : session.bLogged with
  | false =>
      simp only [logging, reduceCtorEq, false_and, if_false, and_self, if_true]
      exact ready.settle
        (.goesOn (by simp) rfl unanswered (.inr (.inr ⟨type, logging⟩)) rfl (.inl rfl))
  | true =>
      simp only [logging, reduceCtorEq, false_and, if_false, and_false]
      have closed : Ready (session.closeTransaction .commit) stmt :=
        ready.transaction rfl rfl rfl rfl rfl rfl rfl
      exact closed.settle (.done (.inl rfl) (unanswered.setResult (passed isLogged) .finished) rfl
        (ready.idle (by simp [logging])))

theorem Ready.runFirst (fresh : Fresh stmt)
    (starts : ¬(stmt.type.isSoleTran = true ∧ session.tranStatus = .inTran) →
      StartsWell stmt finding ∧ ∀ bLogged, stmt.faulty finding bLogged = false)
    (step : session.runFirst stmt finding = some session') : Sound session' := by
  have messages : session.errMsgActions = [] := ready.idle (by simp [fresh.created])
  unfold Session.runFirst at step
  by_cases unfinished : stmt.type.isSoleTran = true ∧ session.tranStatus = .inTran
  · rw [if_pos unfinished] at step
    cases step
    exact ready.done (fresh.unanswered.fail .tranWithUnfinished .finished) rfl messages rfl rfl rfl
      rfl rfl rfl rfl rfl
  · rw [if_neg unfinished] at step
    have starts := starts unfinished
    split at step
    · rename_i tranAction type
      cases step
      exact ready.runTransaction fresh type starts.1
    · rename_i notControl
      have settle : ∀ {started : Session}, Ready started stmt → started.errMsgActions = [] →
          started.runCurrent stmt finding = some session' → Sound session' := by
        intro started ready' empty run
        rcases outcome_runCurrent notControl (fun _ => fresh.created) run with ⟨exit, outcome, rfl⟩
        refine ready'.settle (fresh.unanswered.settled ?_ (fun _ => empty) (starts.2 _)
          (fun _ => starts.1) ?_ ?_ outcome)
        · exact fun started => absurd fresh.created started
        · simp [fresh.created]
        · simp [fresh.created]
      split at step
      · have started : Ready (session.startTransaction true) stmt :=
          ready.transaction rfl rfl rfl rfl rfl rfl rfl
        exact settle started messages step
      · exact settle ready messages step

end

section

variable (sound : Sound session)

include sound

theorem Sound.runCurrent (current : session.currStatement = some stmt)
    (well : RunsWell session stmt finding)
    (step : session.runCurrent stmt finding = some session') :
    Sound session' := by
  have ready := sound.ready current
  rcases sound.running stmt current with ⟨unanswered, works⟩
  rcases or_assoc.mpr works with working | ⟨type, logging⟩
  · have notControl : ∀ tranAction, stmt.type ≠ .transaction tranAction := by
      intro tranAction type
      simp [type, ExprType.onRows, ExprType.isSoleTran] at working
    have use : stmt.type = .useDatabase → stmt.status = .created := by
      intro type
      simp [type, ExprType.onRows, ExprType.isSoleTran] at working
    rcases outcome_runCurrent notControl use step with ⟨exit, outcome, rfl⟩
    refine ready.settle (unanswered.settled (fun _ => working) ready.idle well.1 ?_ ?_ ?_ outcome)
    all_goals
      intro status
      simpa only [AnswersWell, status] using well.2
  · exact ready.runCommit unanswered type logging well step

theorem Sound.exec (careful : Careful session (.exec finding))
    (step : session.exec finding = some session') : Sound session' := by
  unfold Session.exec at step
  split at step
  · rename_i stmt current
    rcases careful stmt (by simp [upcoming, current]) with unfinished | well
    · rw [unfinished.1] at current
      cases current
    · exact sound.runCurrent current well step
  · rename_i idle
    split at step
    · cases step
      exact sound
    · rename_i stmt waitting list
      have fresh := sound.waitting stmt (by simp [list])
      have ready : Ready (session.takeWaitting waitting) stmt := by
        refine ⟨sound.answered, sound.refused, sound.late, sound.crashed, ?_, ?_, ?_⟩
        · intro other mem
          exact sound.waitting other (by rw [list]; exact List.mem_cons_of_mem stmt mem)
        · intro action mem
          rcases sound.messages action mem with ⟨other, current, _⟩
          rw [idle] at current
          cases current
        · have order := sound.order
          rw [idle, list] at order
          simpa [takeWaitting] using order
      refine ready.runFirst fresh (fun other => ?_) step
      rcases careful stmt (by simp [upcoming, idle, list]) with unfinished | well
      · exact absurd unfinished.2 other
      · refine ⟨by simpa only [AnswersWell, fresh.created] using well.2, fun bLogged => ?_⟩
        exact (Statement.faulty_of_created fresh.created).trans well.1

theorem Sound.setCurrent (current : session.currStatement = some stmt) {next : Statement}
    (unanswered : Unanswered next) (type : next.type = stmt.type)
    (status : next.status = stmt.status) (number : next.number = stmt.number)
    (failed : stmt.stmtFailed = true → next.stmtFailed = true) :
    Sound (session.setCurrent next) where
  answered := sound.answered
  refused := sound.refused
  late := sound.late
  crashed := sound.crashed
  running := by
    intro other same
    cases Option.some.inj same
    refine ⟨unanswered, ?_⟩
    have works := (sound.running stmt current).2
    unfold Works at works ⊢
    rw [type, status]
    exact works
  waitting := sound.waitting
  messages := by
    intro action mem
    have marked := (sound.ready current).messages action mem
    exact ⟨next, rfl, marked.1.trans number.symm, failed marked.2.1, status.trans marked.2.2⟩
  order := by
    have order := (sound.ready current).order
    simpa [Session.setCurrent, number] using order

theorem Sound.submit (type : ExprType) (ifExist : Bool) : Sound (session.submit type ifExist) where
  answered := sound.answered
  refused := sound.refused
  late := sound.late
  crashed := sound.crashed
  running := sound.running
  waitting := by
    intro stmt mem
    rcases List.mem_append.mp mem with before | new
    · exact sound.waitting stmt before
    · rw [List.mem_singleton.mp new]
      exact ⟨rfl, rfl⟩
  messages := sound.messages
  order := by
    have order := sound.order
    simp only [Session.submit, ← List.append_assoc, List.map_append] at order ⊢
    rw [order, List.range_succ]
    rfl

theorem Sound.close : Sound session.close where
  answered := sound.answered
  refused := sound.refused
  late := sound.late
  crashed := sound.crashed
  running := by
    intro stmt current
    rcases Option.map_eq_some_iff.mp current with ⟨running, current', rfl⟩
    rcases sound.running running current' with ⟨unanswered, works⟩
    exact ⟨⟨unanswered.notYet, unanswered.bFailed, fun passed => by cases passed⟩, works⟩
  waitting := by
    intro stmt mem
    rcases List.mem_map.mp mem with ⟨waitting, mem', rfl⟩
    have fresh := sound.waitting waitting mem'
    exact { fresh with }
  messages := by
    intro action mem
    rcases sound.messages action mem with ⟨stmt, current, number, _, status⟩
    exact ⟨setStmtFailed stmt, by simp [Session.close, current], number, rfl, status⟩
  order := by
    have order := sound.order
    cases current : session.currStatement with
    | none => simpa [Session.close, current, Function.comp_def, setStmtFailed] using order
    | some stmt => simpa [Session.close, current, Function.comp_def, setStmtFailed] using order

theorem Sound.postError (current : session.currStatement = some stmt)
    (executing : stmt.status = .executing) (error : ErrorText) :
    Sound { session.setCurrent (setStmtFailed stmt) with
      errMsgActions := session.errMsgActions ++ [⟨stmt.number, error⟩] } := by
  rcases sound.running stmt current with ⟨unanswered, _⟩
  have marked : Sound (session.setCurrent (setStmtFailed stmt)) :=
    sound.setCurrent current ⟨unanswered.notYet, unanswered.bFailed, fun passed => by cases passed⟩
      rfl rfl rfl fun _ => rfl
  refine { marked with messages := ?_ }
  intro action mem
  rcases List.mem_append.mp mem with before | new
  · exact marked.messages action before
  · rw [List.mem_singleton.mp new]
    exact ⟨setStmtFailed stmt, rfl, rfl, rfl, executing⟩

theorem Sound.errMsg {action : ErrMsgAction}
    (pending : ∃ stmt, session.currStatement = some stmt ∧ action.number = stmt.number ∧
      stmt.stmtFailed = true) : Sound (session.errMsg action) := by
  rcases pending with ⟨stmt, current, number, failed⟩
  rcases sound.running stmt current with ⟨unanswered, _⟩
  simp only [Session.errMsg, current, number, if_true]
  refine sound.setCurrent current ⟨unanswered.notYet, unanswered.bFailed, ?_⟩ rfl rfl rfl id
  intro passed
  have passed' : stmt.stmtFailed = false := passed
  rw [failed] at passed'
  cases passed'

theorem sound_next (careful : Careful session event) (step : session.next event = some session') :
    Sound session' := by
  have step : session.act event = some session' := (Option.ite_none_left_eq_some.mp step).2
  cases event with
  | statement type ifExist =>
      have place : session.place = .mapSession := careful
      simp only [act, place, if_true, Option.some.injEq] at step
      subst step
      exact sound.submit type ifExist
  | badText text => exact absurd careful id
  | taskFault => exact absurd careful id
  | exec finding =>
      rcases Option.ite_none_right_eq_some.mp step with ⟨-, step⟩
      exact sound.exec careful step
  | close =>
      rcases Option.ite_none_right_eq_some.mp step with ⟨-, ⟨⟩⟩
      exact sound.close
  | deleteSession | clean | deleteGroup =>
      rcases Option.ite_none_right_eq_some.mp step with ⟨-, ⟨⟩⟩
      exact sound.keep rfl rfl rfl rfl rfl rfl rfl fun _ mem => mem
  | logged =>
      simp only [act] at step
      split at step
      · rcases Option.ite_none_right_eq_some.mp step with ⟨-, ⟨⟩⟩
        exact sound.keep rfl rfl rfl rfl rfl rfl rfl fun _ mem => mem
      · cases step
  | scanError error =>
      simp only [act] at step
      split at step
      · rename_i stmt current
        rcases Option.ite_none_right_eq_some.mp step with ⟨-, ⟨⟩⟩
        rcases sound.running stmt current with ⟨unanswered, _⟩
        exact sound.setCurrent current
          ⟨unanswered.notYet, unanswered.bFailed, fun passed => by cases passed⟩ rfl rfl rfl
          fun _ => rfl
      · cases step
  | postError error =>
      simp only [act] at step
      split at step
      · rename_i stmt current
        rcases Option.ite_none_right_eq_some.mp step with ⟨executing, ⟨⟩⟩
        exact sound.postError current executing.1 error
      · cases step
  | errMsg pos =>
      simp only [act] at step
      split at step
      · rename_i action found
        cases step
        rcases sound.messages action (List.mem_of_getElem? found) with
          ⟨stmt, current, number, failed, _⟩
        refine Sound.errMsg ?_ ⟨stmt, current, number, failed⟩
        exact sound.keep rfl rfl rfl rfl rfl rfl rfl fun _ mem => List.mem_of_mem_eraseIdx mem
      · cases step

end

/-! ## Runs -/

/-- Every statement the session is done with has its answer, no result is written later, no
statement stays without one because the program ends, and the statements come in the order in which
they were sent. -/
structure AllAnswered (session : Session) : Prop where
  disposed : ∀ stmt ∈ session.disposed, Answered stmt
  refused : ∀ result ∈ session.refused,
    result.finished = 1 ∧ result.vctError ≠ [] ∧ result.bFailed = true
  late : session.late = false
  crashed : session.crashed = false
  order : session.disposed.map Statement.number = List.range session.disposed.length

theorem Sound.allAnswered (sound : Sound session) : AllAnswered session where
  disposed := sound.answered
  refused := by simp [sound.refused]
  late := sound.late
  crashed := sound.crashed
  order := by
    have order := sound.order
    rw [List.map_append] at order
    have taken := congrArg (List.take session.disposed.length) order
    rw [List.take_range, List.take_left' (by simp)] at taken
    rw [taken]
    congr 1
    have length := congrArg List.length order
    simp only [List.length_append, List.length_map, List.length_range] at length
    omega

/-- An INSERT with a message of an index task and one with a duplicate key, a CREATE TABLE that a
transaction refuses, and a SELECT in it. -/
def answeredStatements : List SessionEvent :=
  [.statement .insert false, .statement .insert false, .statement (.transaction .tranBegin) false,
    .statement .createTable false, .statement .tableSelect false,
    .statement (.transaction .tranCommit) false,
    .exec .ready, .postError .convert, .errMsg 0, .exec (.ended [] 0),
    .exec .ready, .exec .waiting, .exec (.ended [.record "duplicate"] 1),
    .exec .ready, .exec .ready, .exec .ready, .exec (.ended [] 2), .exec .ready]

/-- An INSERT with the wrong number of parameters. -/
def mismatchedInsert : List SessionEvent := [.statement .insert false, .exec .mismatch]

end Answers

end Serv

end RapidDb
