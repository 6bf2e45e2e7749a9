import Mathlib.Data.Finset.Prod
import RapidDb.Library.Holders
import RapidDb.Statement.InsertStatement

/-!
# Runs of INSERT statements

Each leaf record whose row has sent its message is once with the session: in one of its lists, in a
message that is under way, or in the one that is just being read. Each row that has been sent is
once in the list of the session, or has been counted or dropped. Together with the number of records
that have been counted this says that nothing is left when the session concludes.
-/

namespace RapidDb

open Transition

/-- The message with the records of a row has been sent. -/
def StmtInsertRecord.isSent (row : StmtInsertRecord) : Bool :=
  match row.stage with
  | .storing .suceed => true
  | .done => decide (row.status = .suceed)
  | _ => false

/-- How often the session gets a record of the row. -/
def StmtInsertRecord.owed (leafNum : ℕ) (row : StmtInsertRecord) (pos : ℕ) : ℕ :=
  if row.isSent = true ∧ pos < leafNum then 1 else 0

def StmtInsertRecord.isFailed (row : StmtInsertRecord) : Bool :=
  match row.stage with
  | .storing .failed => true
  | .done => decide (row.status = .failed)
  | _ => false

/-- What holds for a row in each stage of its action. -/
def StmtInsertRecord.Sound (leafNum : ℕ) (row : StmtInsertRecord) : Prop :=
  match row.stage with
  | .pushing num => row.status = .init ∧ num ≤ leafNum
  | .sending => row.status = .init ∧ row.numLeafRecord = leafNum % 2 ^ 32
  | .storing status => row.status = .init ∧
      (status = .suceed ∧ row.numLeafRecord = leafNum % 2 ^ 32 ∨ status = .failed)
  | .done => row.status = .suceed ∧ row.numLeafRecord = leafNum % 2 ^ 32 ∨ row.status = .failed
  | _ => row.status = .init

/-- The records of a row from a position on. -/
def recordIds (leafNum row pos : ℕ) : List RecordId :=
  (List.range' pos (leafNum - pos)).map (RecordId.mk row)

def SessionMessage.ids (leafNum : ℕ) : SessionMessage → List RecordId
  | .records row => recordIds leafNum row 0
  | .errMsg => []

/-- What is still to be read of a message. -/
def ExecStage.ids (leafNum : ℕ) : ExecStage → List RecordId
  | .adding row pos => recordIds leafNum row pos
  | _ => []

section RecordIds

variable {leafNum row pos : ℕ} {id : RecordId}

theorem mem_recordIds : id ∈ recordIds leafNum row pos ↔
    id.row = row ∧ pos ≤ id.index ∧ id.index < leafNum := by
  unfold recordIds
  constructor
  · intro mem
    rcases List.mem_map.mp mem with ⟨k, inside, rfl⟩
    have bounds := List.mem_range'_1.mp inside
    have less : k < leafNum := by omega
    exact ⟨rfl, bounds.1, less⟩
  · rintro ⟨rfl, le, less⟩
    exact List.mem_map.mpr ⟨id.index, List.mem_range'_1.mpr ⟨le, by omega⟩, rfl⟩

theorem count_recordIds : (recordIds leafNum row pos).count id =
    if id.row = row ∧ pos ≤ id.index ∧ id.index < leafNum then 1 else 0 := by
  have nodup : (recordIds leafNum row pos).Nodup := by
    apply List.Nodup.map
    · intro k k' same
      exact (RecordId.mk.inj same).2
    · exact List.nodup_range'
  rw [nodup.count]
  by_cases mem : id ∈ recordIds leafNum row pos
  · rw [if_pos mem, if_pos (mem_recordIds.mp mem)]
  · rw [if_neg mem, if_neg fun inside => mem (mem_recordIds.mpr inside)]

theorem recordIds_cons (less : pos < leafNum) :
    recordIds leafNum row pos = ⟨row, pos⟩ :: recordIds leafNum row (pos + 1) := by
  unfold recordIds
  have split : leafNum - pos = (leafNum - (pos + 1)) + 1 := by omega
  rw [split, List.range'_succ, List.map_cons]

theorem recordIds_nil (le : leafNum ≤ pos) : recordIds leafNum row pos = [] := by
  unfold recordIds
  rw [Nat.sub_eq_zero_of_le le]
  rfl

end RecordIds

/-- Only the first row may be refused by `InitRecord`, and the records can be counted. -/
structure InsertInput.Countable (input : InsertInput) : Prop where
  fits : input.checks.length * input.leafNum < 2 ^ 32
  first : ∀ (i : ℕ) (error : InitError), input.checks[i]? = some (.error error) → i = 0

/-- Besides, there is a value for each column that is given, and a record that is not valid is
made on a thread that has a message. -/
structure InsertInput.Regular (input : InsertInput) : Prop extends input.Countable where
  calculated : ∀ i : ℕ, input.checks[i]? ≠ some (.error .noValue)
  reports : ∀ (i : ℕ) (data : RowData), input.checks[i]? = some (.ok data) →
    data.leafValid.all id = true ∨ data.threadErrorMsg = true

namespace InsertStatement

/-- How often a record is with the session or under way to it. -/
def entered (input : InsertInput) (stmt : InsertStatement) (id : RecordId) : ℕ :=
  stmt.lstWaitRecord.count id + stmt.lstFinishRecord.count id +
    (stmt.stage.ids input.leafNum).count id +
    Holders.total (SessionMessage.ids input.leafNum) stmt.messages id

/-- The rows before a number have been sent. -/
def SentTo (stmt : InsertStatement) (num : ℕ) : Prop :=
  ∀ r, (stmt.rows r).stage = .unsent ↔ num ≤ r

/-- No record has been committed or rolled back. -/
def Untouched (stmt : InsertStatement) : Prop := ∀ id, stmt.recStatus id = .init

/-- All rows are done, and all their records are finished. -/
structure Complete (input : InsertInput) (stmt : InsertStatement) : Prop where
  sentTo : stmt.SentTo input.checks.length
  lstRecord : stmt.lstRecord = []
  done : ∀ r, (stmt.rows r).stage ≠ .unsent → (stmt.rows r).stage = .done
  finished : ∀ id, (stmt.rows id.row).isSent = true → id.index < input.leafNum →
    id ∈ stmt.lstFinishRecord

/-- The first finished records have got a status, and no record has another one. -/
structure Marked (stmt : InsertStatement) (status : RecordStatus) (num : ℕ) : Prop where
  marked : ∀ id ∈ stmt.lstFinishRecord.take num, stmt.recStatus id = status
  others : ∀ id, stmt.recStatus id = .init ∨ stmt.recStatus id = status

/-- What holds when the statement has come to its end. -/
def Settled (input : InsertInput) (stmt : InsertStatement) : Prop :=
  (stmt.SentTo 0 ∧ ∃ error, input.checks[0]? = some (.error error)) ∨ stmt.Complete input ∧
    (stmt.stmtFailed = true ∧ stmt.Marked .rollbacked stmt.lstFinishRecord.length ∨
      stmt.stmtFailed = false ∧ stmt.Marked .commited stmt.lstFinishRecord.length)

/-- What holds between the calls of the session. -/
def IdleHolds (input : InsertInput) (stmt : InsertStatement) : StmtStatus → Prop
  | .created => stmt.SentTo 0 ∧ stmt.Untouched
  | .executing => stmt.SentTo input.checks.length ∧ stmt.Untouched
  | .executed => stmt.Complete input ∧ stmt.stmtFailed = false ∧ stmt.Untouched
  | .logging => stmt.Complete input ∧ stmt.stmtFailed = false ∧ stmt.Untouched
  | _ => False

/-- What holds in each stage of the session. -/
def StageHolds (input : InsertInput) (stmt : InsertStatement) : ExecStage → Prop
  | .idle => stmt.IdleHolds input stmt.status
  | .adding _ _ => stmt.status = .executing ∧ stmt.SentTo input.checks.length ∧ stmt.Untouched
  | .init i => stmt.status = .created ∧ i ≤ input.checks.length ∧ stmt.SentTo i ∧ stmt.Untouched
  | .rows _ => stmt.status = .executing ∧ stmt.SentTo input.checks.length ∧ stmt.Untouched
  | .waits _ => stmt.status = .executing ∧ stmt.SentTo input.checks.length ∧ stmt.Untouched ∧
      stmt.lstRecord = []
  | .concluding => stmt.status = .executing ∧ stmt.SentTo input.checks.length ∧ stmt.Untouched ∧
      stmt.lstRecord = []
  | .rollback i => stmt.Complete input ∧ stmt.stmtFailed = true ∧ stmt.Marked .rollbacked i
  | .commit i => stmt.Complete input ∧ stmt.stmtFailed = false ∧ stmt.Marked .commited i
  | .closing => stmt.Settled input
  | .ended => stmt.Settled input

/-- What holds between the steps of a run. -/
structure Sound (input : InsertInput) (stmt : InsertStatement) : Prop where
  row : ∀ r, (stmt.rows r).Sound input.leafNum
  accepted : ∀ r, (stmt.rows r).stage ≠ .unsent → ∃ data, input.checks[r]? = some (.ok data)
  entered_eq : ∀ id, stmt.entered input id = (stmt.rows id.row).owed input.leafNum id.index
  listed : ∀ r, stmt.lstRecord.count r + stmt.counted.count r + stmt.dropped.count r =
    if (stmt.rows r).stage = .unsent then 0 else 1
  counted : ∀ r ∈ stmt.counted, (stmt.rows r).stage = .done ∧ (stmt.rows r).status = .suceed
  dropped : ∀ r ∈ stmt.dropped, (stmt.rows r).stage = .done ∧ (stmt.rows r).status = .failed
  cntLeafRec : stmt.cntLeafRec = stmt.counted.length * input.leafNum % 2 ^ 32
  pushed : ∀ id, stmt.recResult id ≠ .init → isPushed input (stmt.rows id.row) id.index = true
  finished : ∀ id ∈ stmt.lstFinishRecord, stmt.recResult id ≠ .init
  failedRow : ∀ r, (stmt.rows r).isFailed = true → stmt.stmtFailed = true
  failedRecord : ∀ id ∈ stmt.lstFinishRecord, stmt.recResult id = .error → stmt.stmtFailed = true
  stage : stmt.StageHolds input stmt.stage

section Steps

variable {input : InsertInput} {stmt stmt' : InsertStatement} {r : ℕ} {row : StmtInsertRecord}
  {id : RecordId}

/-!
## Steps of the rows
-/

theorem rows_same : (stmt.setRow r row).rows r = row := by
  unfold InsertStatement.setRow
  exact Function.update_self r row stmt.rows

theorem rows_other {other : ℕ} (ne : other ≠ r) :
    (stmt.setRow r row).rows other = stmt.rows other := by
  unfold InsertStatement.setRow
  exact Function.update_of_ne ne row stmt.rows

theorem SentTo.setRow {num : ℕ} (sentTo : stmt.SentTo num)
    (before : (stmt.rows r).stage ≠ .unsent) (after : row.stage ≠ .unsent) :
    (stmt.setRow r row).SentTo num := by
  intro other
  by_cases same : other = r
  · subst same
    rw [rows_same]
    have late : ¬num ≤ other := fun le => before ((sentTo other).mpr le)
    exact ⟨fun unsent => absurd unsent after, fun le => absurd le late⟩
  · rw [rows_other same]
    exact sentTo other

/-- While a row is on its way, the statement has not come to its end. -/
theorem StageHolds.setRow {stage : ExecStage} (holds : stmt.StageHolds input stage)
    (before : (stmt.rows r).stage ≠ .unsent) (busy : (stmt.rows r).stage ≠ .done)
    (after : row.stage ≠ .unsent) (messages : List SessionMessage) (stmtFailed : Bool) :
    StageHolds input { stmt.setRow r row with messages, stmtFailed } stage := by
  have open_ : ¬stmt.Complete input := fun complete => busy (complete.done r before)
  have sent : ¬stmt.SentTo 0 := fun sentTo => before ((sentTo r).mpr (Nat.zero_le r))
  have unsettled : ¬stmt.Settled input := by
    rintro (⟨sentTo, -⟩ | ⟨complete, -⟩)
    · exact sent sentTo
    · exact open_ complete
  cases stage with
  | idle =>
      have holds : stmt.IdleHolds input stmt.status := holds
      change IdleHolds input _ stmt.status
      cases statusEq : stmt.status with
      | created =>
          rw [statusEq] at holds
          exact absurd holds.1 sent
      | executing =>
          rw [statusEq] at holds
          exact ⟨holds.1.setRow before after, holds.2⟩
      | executed =>
          rw [statusEq] at holds
          exact absurd holds.1 open_
      | logging =>
          rw [statusEq] at holds
          exact absurd holds.1 open_
      | logged =>
          rw [statusEq] at holds
          exact holds
      | finished =>
          rw [statusEq] at holds
          exact holds
  | adding row pos => exact ⟨holds.1, holds.2.1.setRow before after, holds.2.2⟩
  | init i => exact ⟨holds.1, holds.2.1, holds.2.2.1.setRow before after, holds.2.2.2⟩
  | rows i => exact ⟨holds.1, holds.2.1.setRow before after, holds.2.2⟩
  | waits i => exact ⟨holds.1, holds.2.1.setRow before after, holds.2.2⟩
  | concluding => exact ⟨holds.1, holds.2.1.setRow before after, holds.2.2⟩
  | rollback i => exact absurd holds.1 open_
  | commit i => exact absurd holds.1 open_
  | closing => exact absurd holds unsettled
  | ended => exact absurd holds unsettled

theorem Sound.setRow (sound : stmt.Sound input) (row : StmtInsertRecord)
    (messages : List SessionMessage) (stmtFailed : Bool) (before : (stmt.rows r).stage ≠ .unsent)
    (busy : (stmt.rows r).stage ≠ .done) (after : row.stage ≠ .unsent)
    (rowSound : row.Sound input.leafNum)
    (sent : ∀ id, Holders.total (SessionMessage.ids input.leafNum) messages id +
      (if id.row = r then (stmt.rows r).owed input.leafNum id.index else 0) =
      Holders.total (SessionMessage.ids input.leafNum) stmt.messages id +
        if id.row = r then row.owed input.leafNum id.index else 0)
    (pushed : ∀ pos, isPushed input (stmt.rows r) pos = true → isPushed input row pos = true)
    (failed : row.isFailed = true → stmtFailed = true)
    (stays : stmt.stmtFailed = true → stmtFailed = true) :
    Sound input { stmt.setRow r row with messages, stmtFailed } := by
  refine ⟨fun other => ?_, fun other sent => ?_, fun id => ?_, fun other => ?_, fun other mem => ?_,
    fun other mem => ?_, sound.cntLeafRec, fun id notInit => ?_, sound.finished,
    fun other isFailed => ?_, fun id mem isError => stays (sound.failedRecord id mem isError),
    StageHolds.setRow sound.stage before busy after messages stmtFailed⟩
  · change ((stmt.setRow r row).rows other).Sound input.leafNum
    by_cases same : other = r
    · subst same
      rw [rows_same]
      exact rowSound
    · rw [rows_other same]
      exact sound.row other
  · have sent : ((stmt.setRow r row).rows other).stage ≠ .unsent := sent
    by_cases same : other = r
    · subst same
      exact sound.accepted other before
    · rw [rows_other same] at sent
      exact sound.accepted other sent
  · change _ = ((stmt.setRow r row).rows id.row).owed input.leafNum id.index
    have held := sound.entered_eq id
    have message := sent id
    unfold entered at held
    change stmt.lstWaitRecord.count id + stmt.lstFinishRecord.count id +
      (stmt.stage.ids input.leafNum).count id +
      Holders.total (SessionMessage.ids input.leafNum) messages id = _
    by_cases same : id.row = r
    · rw [if_pos same, if_pos same] at message
      rw [same] at held ⊢
      rw [rows_same]
      omega
    · rw [if_neg same, if_neg same] at message
      rw [rows_other same]
      omega
  · change _ = if ((stmt.setRow r row).rows other).stage = .unsent then 0 else 1
    by_cases same : other = r
    · subst same
      have listed := sound.listed other
      rw [if_neg before] at listed
      rw [rows_same, if_neg after]
      exact listed
    · rw [rows_other same]
      exact sound.listed other
  · change ((stmt.setRow r row).rows other).stage = .done ∧ _
    have notBusy := sound.counted other mem
    have other_ne : other ≠ r := by
      rintro rfl
      exact busy notBusy.1
    rw [rows_other other_ne]
    exact notBusy
  · change ((stmt.setRow r row).rows other).stage = .done ∧ _
    have notBusy := sound.dropped other mem
    have other_ne : other ≠ r := by
      rintro rfl
      exact busy notBusy.1
    rw [rows_other other_ne]
    exact notBusy
  · change isPushed input ((stmt.setRow r row).rows id.row) id.index = true
    have old := sound.pushed id notInit
    by_cases same : id.row = r
    · rw [same] at old ⊢
      rw [rows_same]
      exact pushed id.index old
    · rw [rows_other same]
      exact old
  · have isFailed : ((stmt.setRow r row).rows other).isFailed = true := isFailed
    by_cases same : other = r
    · subst same
      rw [rows_same] at isFailed
      exact failed isFailed
    · rw [rows_other same] at isFailed
      exact stays (sound.failedRow other isFailed)

theorem Sound.goRow (sound : stmt.Sound input) (row : StmtInsertRecord)
    (before : (stmt.rows r).stage ≠ .unsent)
    (busy : (stmt.rows r).stage ≠ .done) (after : row.stage ≠ .unsent)
    (rowSound : row.Sound input.leafNum) (sent : row.isSent = (stmt.rows r).isSent)
    (pushed : ∀ pos, isPushed input (stmt.rows r) pos = true → isPushed input row pos = true)
    (failed : row.isFailed = true → stmt.stmtFailed = true) :
    Sound input (stmt.setRow r row) := by
  refine sound.setRow row stmt.messages stmt.stmtFailed before busy after rowSound (fun id => ?_)
    pushed failed fun isFailed => isFailed
  unfold StmtInsertRecord.owed
  rw [sent]

theorem Settled.frame (settled : stmt.Settled input) (messages : List SessionMessage)
    (recResult : RecordId → RecordResult) (stage : ExecStage) (crashed : Bool) :
    Settled input { stmt with messages, recResult, stage, crashed } := by
  rcases settled with unsent | ⟨complete, marked⟩
  · exact Or.inl unsent
  · refine Or.inr ⟨{ complete with }, ?_⟩
    rcases marked with ⟨isFailed, marked⟩ | ⟨notFailed, marked⟩
    · exact Or.inl ⟨isFailed, marked.marked, marked.others⟩
    · exact Or.inr ⟨notFailed, marked.marked, marked.others⟩

theorem Complete.frame (complete : stmt.Complete input) (messages : List SessionMessage)
    (recResult : RecordId → RecordResult) (crashed : Bool) :
    Complete input { stmt with messages, recResult, crashed } :=
  { complete with }

theorem IdleHolds.frame {status : StmtStatus} (holds : stmt.IdleHolds input status)
    (messages : List SessionMessage) (recResult : RecordId → RecordResult) (crashed : Bool) :
    IdleHolds input { stmt with messages, recResult, crashed } status := by
  cases status with
  | created => exact holds
  | executing => exact holds
  | executed => exact ⟨holds.1.frame messages recResult crashed, holds.2⟩
  | logging => exact ⟨holds.1.frame messages recResult crashed, holds.2⟩
  | logged => exact holds
  | finished => exact holds

theorem StageHolds.frame {stage : ExecStage} (holds : stmt.StageHolds input stage)
    (messages : List SessionMessage) (recResult : RecordId → RecordResult)
    (crashed : Bool) :
    StageHolds input { stmt with messages, recResult, crashed } stage := by
  cases stage with
  | idle => exact IdleHolds.frame holds messages recResult crashed
  | adding row pos => exact holds
  | init i => exact holds
  | rows i => exact holds
  | waits i => exact holds
  | concluding => exact holds
  | rollback i =>
      exact ⟨holds.1.frame messages recResult crashed, holds.2.1, holds.2.2.marked,
        holds.2.2.others⟩
  | commit i =>
      exact ⟨holds.1.frame messages recResult crashed, holds.2.1, holds.2.2.marked,
        holds.2.2.others⟩
  | closing => exact Settled.frame holds messages recResult stmt.stage crashed
  | ended => exact Settled.frame holds messages recResult stmt.stage crashed

theorem Sound.crash (sound : stmt.Sound input) : Sound input { stmt with crashed := true } :=
  ⟨sound.row, sound.accepted, sound.entered_eq, sound.listed, sound.counted, sound.dropped,
    sound.cntLeafRec, sound.pushed, sound.finished, sound.failedRow, sound.failedRecord,
    StageHolds.frame sound.stage stmt.messages stmt.recResult true⟩

theorem Sound.rowStep (sound : stmt.Sound input) (stepped : stmt.rowStep input r = some stmt') :
    stmt'.Sound input := by
  have rowSound := sound.row r
  unfold InsertStatement.rowStep at stepped
  unfold StmtInsertRecord.Sound at rowSound
  have before : (stmt.rows r).stage ≠ .unsent := by
    intro isUnsent
    simp [isUnsent] at stepped
  have busy : (stmt.rows r).stage ≠ .done := by
    intro isDone
    simp [isDone] at stepped
  cases stageEq : (stmt.rows r).stage with
  | unsent => exact absurd stageEq before
  | queued =>
      simp only [stageEq] at stepped rowSound
      cases stepped
      by_cases isFailed : stmt.stmtFailed = true
      · rw [if_pos isFailed]
        refine sound.goRow _ before busy (by simp) ⟨rowSound, Or.inr rfl⟩ ?_ ?_ fun _ => isFailed
        · simp only [StmtInsertRecord.isSent, stageEq]
        · simp only [isPushed, stageEq]; simp
      · rw [if_neg isFailed]
        refine sound.goRow _ before busy (by simp) rowSound ?_ ?_
          (fun isFailed => by cases isFailed)
        · simp only [StmtInsertRecord.isSent, stageEq]
        · simp only [isPushed, stageEq]; simp
  | creating =>
      simp only [stageEq] at stepped rowSound
      split at stepped
      · split at stepped
        · cases stepped
          refine sound.goRow _ before busy (by simp) ⟨rowSound, Nat.zero_le _⟩ ?_ ?_
            (fun isFailed => by cases isFailed)
          · simp only [StmtInsertRecord.isSent, stageEq]
          · simp only [isPushed, stageEq]; simp
        · split at stepped
          · cases stepped
            refine sound.goRow _ before busy (by simp) rowSound ?_ ?_
              (fun isFailed => by cases isFailed)
            · simp only [StmtInsertRecord.isSent, stageEq]
            · simp only [isPushed, stageEq]; simp
          · cases stepped
            exact sound.crash
      · cases stepped
  | reporting =>
      simp only [stageEq] at stepped rowSound
      cases stepped
      refine sound.setRow _ _ _ before busy (by simp) rowSound (fun id => ?_) ?_
        (fun isFailed => by cases isFailed) fun isFailed => isFailed
      · simp only [StmtInsertRecord.owed, StmtInsertRecord.isSent, stageEq, Holders.total_append,
          Holders.total_cons, Holders.total_nil, SessionMessage.ids, List.count_nil]
        rfl
      · simp only [isPushed, stageEq]; simp
  | marking =>
      simp only [stageEq] at stepped rowSound
      cases stepped
      refine sound.setRow _ _ _ before busy (by simp) ⟨rowSound, Or.inr rfl⟩ (fun id => ?_) ?_
        (fun _ => rfl)
        fun _ => rfl
      · simp only [StmtInsertRecord.owed, StmtInsertRecord.isSent, stageEq]
        rfl
      · simp only [isPushed, stageEq]; simp
  | pushing num =>
      simp only [stageEq] at stepped rowSound
      cases stepped
      split
      · next less =>
          refine sound.goRow _ before busy (by simp) ⟨rowSound.1, less⟩ ?_ ?_
            (fun isFailed => by cases isFailed)
          · simp only [StmtInsertRecord.isSent, stageEq]
          · simp only [isPushed, stageEq, decide_eq_true_eq]
            exact fun pos less => Nat.lt_succ_of_lt less
      · refine sound.goRow _ before busy (by simp) rowSound.1 ?_ ?_
          (fun isFailed => by cases isFailed)
        · simp only [StmtInsertRecord.isSent, stageEq]
        · simp only [isPushed, stageEq, decide_eq_true_eq]
          exact fun pos less => Nat.lt_of_lt_of_le less rowSound.2
  | counting =>
      simp only [stageEq] at stepped rowSound
      cases stepped
      refine sound.goRow _ before busy (by simp) ⟨rowSound, rfl⟩ ?_ ?_
        (fun isFailed => by cases isFailed)
      · simp only [StmtInsertRecord.isSent, stageEq]
      · simp only [isPushed, stageEq]
        exact fun pos less => less
  | sending =>
      simp only [stageEq] at stepped rowSound
      cases stepped
      refine sound.setRow _ _ _ before busy (by simp) ⟨rowSound.1, Or.inl ⟨rfl, rowSound.2⟩⟩
        (fun id => ?_) ?_ (fun isFailed => by cases isFailed)
        fun isFailed => isFailed
      · simp only [StmtInsertRecord.owed, StmtInsertRecord.isSent, stageEq, Holders.total_append,
          Holders.total_cons, Holders.total_nil, SessionMessage.ids, count_recordIds, Nat.zero_le,
          true_and, ite_and]
        simp
      · simp only [isPushed, stageEq]
        exact fun pos less => less
  | storing status =>
      simp only [stageEq] at stepped rowSound
      cases stepped
      rcases rowSound with ⟨-, ⟨rfl, num⟩ | rfl⟩
      · refine sound.goRow _ before busy (by simp) (Or.inl ⟨rfl, num⟩) ?_ ?_
          (fun isFailed => by cases isFailed)
        · simp only [StmtInsertRecord.isSent, stageEq, decide_true]
        · simp only [isPushed, stageEq, true_and]
          exact fun pos less => less
      · refine sound.goRow _ before busy (by simp) (Or.inr rfl) ?_ ?_ fun _ => sound.failedRow r ?_
        · simp only [StmtInsertRecord.isSent, stageEq]
          rfl
        · simp only [isPushed, stageEq]; simp
        · simp only [StmtInsertRecord.isFailed, stageEq]
  | done => exact absurd stageEq busy

/-!
## Steps of the session
-/

theorem leafNum_pos : 0 < input.leafNum := Nat.succ_pos input.secondary

theorem owed_le (row : StmtInsertRecord) (pos : ℕ) : row.owed input.leafNum pos ≤ 1 := by
  unfold StmtInsertRecord.owed
  split
  · exact Nat.le_refl 1
  · exact Nat.zero_le 1

theorem owed_unsent (unsent : row.stage = .unsent) (pos : ℕ) : row.owed input.leafNum pos = 0 := by
  simp only [StmtInsertRecord.owed, StmtInsertRecord.isSent, unsent]
  rfl

section

variable (sound : stmt.Sound input)

include sound

theorem Sound.sent_of_entered (id : RecordId) (entered : 0 < stmt.entered input id) :
    (stmt.rows id.row).isSent = true ∧ id.index < input.leafNum := by
  have held := sound.entered_eq id
  by_contra unsent
  unfold StmtInsertRecord.owed at held
  rw [if_neg unsent] at held
  omega

/-- A message with records is under way only while the statement is executed. -/
theorem Sound.executing_of_records {i : ℕ} (idle : stmt.stage = .idle)
    (at_i : stmt.messages[i]? = some (.records r)) :
    stmt.status = .executing ∧ stmt.SentTo input.checks.length ∧ stmt.Untouched := by
  have balance := Holders.total_eraseIdx (SessionMessage.ids input.leafNum) at_i ⟨r, 0⟩
  have one : ((SessionMessage.records r).ids input.leafNum).count ⟨r, 0⟩ = 1 := by
    simp only [SessionMessage.ids]
    rw [count_recordIds, if_pos ⟨rfl, Nat.le_refl 0, leafNum_pos⟩]
  have held : stmt.entered input ⟨r, 0⟩ = (stmt.rows r).owed input.leafNum 0 :=
    sound.entered_eq ⟨r, 0⟩
  have le : (stmt.rows r).owed input.leafNum 0 ≤ 1 := owed_le _ 0
  have sent := sound.sent_of_entered ⟨r, 0⟩ (by unfold entered; omega)
  unfold entered at held
  have open_ : ¬stmt.Complete input := by
    intro complete
    have finished := List.count_pos_iff.mpr (complete.finished ⟨r, 0⟩ sent.1 sent.2)
    omega
  have holds := sound.stage
  rw [idle] at holds
  have holds : stmt.IdleHolds input stmt.status := holds
  cases statusEq : stmt.status with
  | created =>
      rw [statusEq] at holds
      have unsent : (stmt.rows r).owed input.leafNum 0 = 0 :=
        owed_unsent ((holds.1 r).mpr (Nat.zero_le r)) 0
      omega
  | executing =>
      rw [statusEq] at holds
      exact ⟨rfl, holds⟩
  | executed =>
      rw [statusEq] at holds
      exact absurd holds.1 open_
  | logging =>
      rw [statusEq] at holds
      exact absurd holds.1 open_
  | logged =>
      rw [statusEq] at holds
      cases holds
  | finished =>
      rw [statusEq] at holds
      cases holds

theorem Sound.receiveRecords {i : ℕ} (idle : stmt.stage = .idle)
    (at_i : stmt.messages[i]? = some (.records r)) :
    Sound input { stmt with messages := stmt.messages.eraseIdx i, stage := .adding r 0 } := by
  have balance := Holders.total_eraseIdx (SessionMessage.ids input.leafNum) at_i
  refine { sound with entered_eq := fun id => ?_, stage := sound.executing_of_records idle at_i }
  have held := sound.entered_eq id
  have erased := balance id
  simp only [entered, idle, ExecStage.ids, List.count_nil, SessionMessage.ids] at held erased ⊢
  omega

theorem Sound.receiveErrMsg {i : ℕ} (at_i : stmt.messages[i]? = some .errMsg) :
    Sound input { stmt with messages := stmt.messages.eraseIdx i } := by
  have balance := Holders.total_eraseIdx (SessionMessage.ids input.leafNum) at_i
  refine { sound with
    entered_eq := fun id => ?_, stage :=
      StageHolds.frame sound.stage _ stmt.recResult stmt.crashed }
  have held := sound.entered_eq id
  have erased := balance id
  simp only [entered, SessionMessage.ids, List.count_nil] at held erased ⊢
  omega

theorem Sound.finished_finish (found : stmt.recResult id ≠ .init) :
    ∀ other ∈ (stmt.finish id).lstFinishRecord, stmt.recResult other ≠ .init := by
  intro other mem
  rcases List.mem_append.mp mem with mem | mem
  · exact sound.finished other mem
  · rw [List.mem_singleton.mp mem]
    exact found

theorem Sound.failedRow_finish (id : RecordId) (other : ℕ)
    (isFailed : (stmt.rows other).isFailed = true) : (stmt.finish id).stmtFailed = true := by
  simp only [finish, sound.failedRow other isFailed, Bool.true_or]

theorem Sound.failedRecord_finish (id : RecordId) :
    ∀ other ∈ (stmt.finish id).lstFinishRecord, stmt.recResult other = .error →
      (stmt.finish id).stmtFailed = true := by
  intro other mem isError
  rcases List.mem_append.mp mem with mem | mem
  · simp only [finish, sound.failedRecord other mem isError, Bool.true_or]
  · have same := List.mem_singleton.mp mem
    subst same
    simp only [finish, isError, decide_true, Bool.or_true]

theorem Sound.addLeafRecord {r pos : ℕ} (stageEq : stmt.stage = .adding r pos)
    (less : pos < input.leafNum) :
    ((stmt.addLeafRecord ⟨r, pos⟩).atStage (.adding r (pos + 1))).Sound input := by
  have holds := sound.stage
  rw [stageEq] at holds
  unfold InsertStatement.addLeafRecord
  split
  · refine { sound with entered_eq := fun id => ?_, stage := holds }
    have held := sound.entered_eq id
    simp only [entered, stageEq, ExecStage.ids, recordIds_cons less, List.count_cons] at held
    simp only [entered, atStage, ExecStage.ids, List.count_append, List.count_singleton]
    omega
  · next found =>
      refine { sound with
        entered_eq := fun id => ?_, finished := sound.finished_finish found,
        failedRow := sound.failedRow_finish _, failedRecord := sound.failedRecord_finish _,
        stage := holds }
      have held := sound.entered_eq id
      simp only [entered, stageEq, ExecStage.ids, recordIds_cons less, List.count_cons] at held
      simp only [entered, atStage, finish, ExecStage.ids, List.count_append, List.count_singleton]
      omega

theorem Sound.send {i : ℕ} {data : RowData} (stageEq : stmt.stage = .init i)
    (check : input.checks[i]? = some (.ok data)) :
    Sound input { stmt.setRow i { stage := .queued } with
      lstRecord := stmt.lstRecord ++ [i], stage := .init (i + 1) } := by
  have holds := sound.stage
  rw [stageEq] at holds
  rcases holds with ⟨created, -, sentTo, untouched⟩
  have unsent : (stmt.rows i).stage = .unsent := (sentTo i).mpr (Nat.le_refl i)
  have idle : ∀ {other}, (stmt.rows other).stage = .done → other ≠ i := by
    rintro other isDone rfl
    rw [unsent] at isDone
    cases isDone
  have stays : ∀ {other}, other ≠ i →
      (stmt.setRow i { stage := .queued }).rows other = stmt.rows other := rows_other
  have less := (List.getElem?_eq_some_iff.mp check).1
  refine ⟨fun other => ?_, fun other sent => ?_, fun id => ?_, fun other => ?_, fun other mem => ?_,
    fun other mem => ?_, sound.cntLeafRec, fun id notInit => ?_, sound.finished,
    fun other isFailed => ?_, sound.failedRecord, created, less, fun other => ?_, untouched⟩
  · change ((stmt.setRow i { stage := .queued }).rows other).Sound input.leafNum
    by_cases same : other = i
    · subst same
      rw [rows_same]
      rfl
    · rw [rows_other same]
      exact sound.row other
  · have sent : ((stmt.setRow i { stage := .queued }).rows other).stage ≠ .unsent := sent
    by_cases same : other = i
    · subst same
      exact ⟨data, check⟩
    · rw [rows_other same] at sent
      exact sound.accepted other sent
  · change _ = ((stmt.setRow i { stage := .queued }).rows id.row).owed input.leafNum id.index
    have held := sound.entered_eq id
    simp only [entered, stageEq, ExecStage.ids] at held ⊢
    by_cases same : id.row = i
    · rw [same, owed_unsent unsent] at held
      rw [same, rows_same]
      exact held
    · rw [rows_other same]
      exact held
  · change (stmt.lstRecord ++ [i]).count other + stmt.counted.count other +
      stmt.dropped.count other =
      if ((stmt.setRow i { stage := .queued }).rows other).stage = .unsent then 0 else 1
    have listed := sound.listed other
    rw [List.count_append]
    by_cases same : other = i
    · subst same
      rw [if_pos unsent] at listed
      rw [rows_same, List.count_singleton_self]
      simp only [reduceCtorEq, if_false]
      omega
    · rw [rows_other same, List.count_singleton, beq_false_of_ne (Ne.symm same)]
      exact listed
  · have isDone := sound.counted other mem
    rw [← stays (idle isDone.1)] at isDone
    exact isDone
  · have isDone := sound.dropped other mem
    rw [← stays (idle isDone.1)] at isDone
    exact isDone
  · have old := sound.pushed id notInit
    have other : id.row ≠ i := by
      intro same
      rw [same] at old
      simp only [isPushed, unsent] at old
      cases old
    rw [← stays other] at old
    exact old
  · have isFailed : ((stmt.setRow i { stage := .queued }).rows other).isFailed = true := isFailed
    by_cases same : other = i
    · subst same
      rw [rows_same] at isFailed
      cases isFailed
    · rw [rows_other same] at isFailed
      exact sound.failedRow other isFailed
  · change ((stmt.setRow i { stage := .queued }).rows other).stage = .unsent ↔ i + 1 ≤ other
    by_cases same : other = i
    · subst same
      rw [rows_same]
      exact ⟨(by simp), fun le => absurd le (Nat.not_succ_le_self other)⟩
    · rw [rows_other same]
      exact (sentTo other).trans ⟨fun le => by omega, Nat.le_of_succ_le⟩

theorem Sound.done_of_status (notInit : (stmt.rows r).status ≠ .init) :
    (stmt.rows r).stage = .done ∧ ((stmt.rows r).status = .suceed ∧
      (stmt.rows r).numLeafRecord = input.leafNum % 2 ^ 32 ∨ (stmt.rows r).status = .failed) := by
  have rowSound := sound.row r
  unfold StmtInsertRecord.Sound at rowSound
  cases stageEq : (stmt.rows r).stage with
  | pushing num =>
      rw [stageEq] at rowSound
      exact absurd rowSound.1 notInit
  | sending =>
      rw [stageEq] at rowSound
      exact absurd rowSound.1 notInit
  | storing status =>
      rw [stageEq] at rowSound
      exact absurd rowSound.1 notInit
  | done =>
      rw [stageEq] at rowSound
      exact ⟨rfl, rowSound⟩
  | unsent =>
      rw [stageEq] at rowSound
      exact absurd rowSound notInit
  | queued =>
      rw [stageEq] at rowSound
      exact absurd rowSound notInit
  | creating =>
      rw [stageEq] at rowSound
      exact absurd rowSound notInit
  | reporting =>
      rw [stageEq] at rowSound
      exact absurd rowSound notInit
  | marking =>
      rw [stageEq] at rowSound
      exact absurd rowSound notInit
  | counting =>
      rw [stageEq] at rowSound
      exact absurd rowSound notInit

theorem Sound.count {i : ℕ} (stageEq : stmt.stage = .rows i) (at_i : stmt.lstRecord[i]? = some r)
    (suceed : (stmt.rows r).status = .suceed) :
    Sound input { stmt with
      cntLeafRec := (stmt.cntLeafRec + (stmt.rows r).numLeafRecord) % 2 ^ 32
      lstRecord := stmt.lstRecord.eraseIdx i
      counted := stmt.counted ++ [r] } := by
  have notInit : (stmt.rows r).status ≠ .init := by rw [suceed]; nofun
  rcases sound.done_of_status notInit with ⟨isDone, ⟨-, num⟩ | isFailed⟩
  · have holds := sound.stage
    rw [stageEq] at holds
    refine { sound with
      listed := fun other => ?_, counted := fun other mem => ?_, cntLeafRec := ?_, stage := ?_ }
    · have listed := sound.listed other
      have erased := Holders.count_eraseIdx at_i other
      change (stmt.lstRecord.eraseIdx i).count other + (stmt.counted ++ [r]).count other +
        stmt.dropped.count other = if (stmt.rows other).stage = .unsent then 0 else 1
      rw [List.count_append]
      omega
    · rcases List.mem_append.mp mem with mem | mem
      · exact sound.counted other mem
      · rw [List.mem_singleton.mp mem]
        exact ⟨isDone, suceed⟩
    · change (stmt.cntLeafRec + (stmt.rows r).numLeafRecord) % 2 ^ 32 =
        (stmt.counted ++ [r]).length * input.leafNum % 2 ^ 32
      rw [num, sound.cntLeafRec, List.length_append, List.length_singleton, Nat.add_mul,
        Nat.one_mul, ← Nat.add_mod]
    · change StageHolds input _ stmt.stage
      rw [stageEq]
      exact holds
  · rw [suceed] at isFailed
    cases isFailed

theorem Sound.drop {i : ℕ} (stageEq : stmt.stage = .rows i) (at_i : stmt.lstRecord[i]? = some r)
    (notInit : (stmt.rows r).status ≠ .init) (notSuceed : (stmt.rows r).status ≠ .suceed) :
    Sound input { stmt with
      lstRecord := stmt.lstRecord.eraseIdx i, dropped := stmt.dropped ++ [r] } := by
  rcases sound.done_of_status notInit with ⟨isDone, ⟨suceed, -⟩ | isFailed⟩
  · exact absurd suceed notSuceed
  · have holds := sound.stage
    rw [stageEq] at holds
    refine { sound with listed := fun other => ?_, dropped := fun other mem => ?_, stage := ?_ }
    · have listed := sound.listed other
      have erased := Holders.count_eraseIdx at_i other
      change (stmt.lstRecord.eraseIdx i).count other + stmt.counted.count other +
        (stmt.dropped ++ [r]).count other = if (stmt.rows other).stage = .unsent then 0 else 1
      rw [List.count_append]
      omega
    · rcases List.mem_append.mp mem with mem | mem
      · exact sound.dropped other mem
      · rw [List.mem_singleton.mp mem]
        exact ⟨isDone, isFailed⟩
    · change StageHolds input _ stmt.stage
      rw [stageEq]
      exact holds

theorem Sound.finishWaiting {i : ℕ} (stageEq : stmt.stage = .waits i)
    (at_i : stmt.lstWaitRecord[i]? = some id) (found : stmt.recResult id ≠ .init) :
    Sound input { stmt.finish id with lstWaitRecord := stmt.lstWaitRecord.eraseIdx i } := by
  have holds := sound.stage
  rw [stageEq] at holds
  refine { sound with
    entered_eq := fun other => ?_, finished := sound.finished_finish found,
    failedRow := sound.failedRow_finish id, failedRecord := sound.failedRecord_finish id,
    stage := ?_ }
  · have held := sound.entered_eq other
    have erased := Holders.count_eraseIdx at_i other
    simp only [entered] at held
    simp only [entered, finish, List.count_append]
    omega
  · change StageHolds input _ stmt.stage
    rw [stageEq]
    exact holds

theorem Sound.goStage (status : StmtStatus) (recStatus : RecordId → RecordStatus)
    {stage : ExecStage} (before : stmt.stage.ids input.leafNum = [])
    (after : stage.ids input.leafNum = [])
    (holds : StageHolds input { stmt with status, stage, recStatus } stage) :
    Sound input { stmt with status, stage, recStatus } := by
  refine { sound with entered_eq := fun id => ?_, stage := holds }
  have held := sound.entered_eq id
  simp only [entered, before] at held
  simp only [entered, after]
  exact held

theorem Sound.counted_nodup : stmt.counted.Nodup := by
  rw [List.nodup_iff_count_le_one]
  intro r
  have listed := sound.listed r
  split at listed <;> omega

theorem Sound.counted_le : stmt.counted.length ≤ input.checks.length := by
  have inside : stmt.counted.toFinset ⊆ Finset.range input.checks.length := by
    intro r mem
    have isDone := (sound.counted r (List.mem_toFinset.mp mem)).1
    have sent : (stmt.rows r).stage ≠ .unsent := by rw [isDone]; nofun
    rcases sound.accepted r sent with ⟨data, check⟩
    exact Finset.mem_range.mpr (List.getElem?_eq_some_iff.mp check).1
  have card := Finset.card_le_card inside
  rw [List.toFinset_card_of_nodup sound.counted_nodup, Finset.card_range] at card
  exact card

theorem Sound.cnt_eq (fits : input.checks.length * input.leafNum < 2 ^ 32) :
    stmt.cntLeafRec = stmt.counted.length * input.leafNum := by
  rw [sound.cntLeafRec]
  exact Nat.mod_eq_of_lt (Nat.lt_of_le_of_lt (Nat.mul_le_mul_right _ sound.counted_le) fits)

/-- When no row is left and enough records are finished, all of them are. -/
theorem Sound.complete (fits : input.checks.length * input.leafNum < 2 ^ 32)
    (stageEq : stmt.stage = .concluding) (enough : ¬stmt.lstFinishRecord.length < stmt.cntLeafRec) :
    stmt.Complete input := by
  have holds := sound.stage
  rw [stageEq] at holds
  rcases holds with ⟨-, sentTo, -, empty⟩
  have done : ∀ r, (stmt.rows r).stage ≠ .unsent →
      r ∈ stmt.counted ∨ (stmt.rows r).stage = .done ∧ (stmt.rows r).status = .failed := by
    intro r sent
    have listed := sound.listed r
    rw [if_neg sent, empty, List.count_nil] at listed
    by_cases mem : r ∈ stmt.counted
    · exact Or.inl mem
    · have zero := List.count_eq_zero.mpr mem
      exact Or.inr (sound.dropped r (List.count_pos_iff.mp (by omega)))
  have cnt := sound.cnt_eq fits
  have finish_nodup : stmt.lstFinishRecord.Nodup := by
    rw [List.nodup_iff_count_le_one]
    intro id
    have held := sound.entered_eq id
    have le : (stmt.rows id.row).owed input.leafNum id.index ≤ 1 := owed_le _ _
    unfold entered at held
    omega
  have sent_counted : ∀ id : RecordId, (stmt.rows id.row).isSent = true →
      id.row ∈ stmt.counted := by
    intro id isSent
    have sent : (stmt.rows id.row).stage ≠ .unsent := by
      intro unsent
      simp only [StmtInsertRecord.isSent, unsent] at isSent
      cases isSent
    rcases done id.row sent with mem | ⟨isDone, isFailed⟩
    · exact mem
    · simp only [StmtInsertRecord.isSent, isDone, isFailed] at isSent
      cases isSent
  -- the finished records are as many as there can be
  have inside : stmt.lstFinishRecord.toFinset ⊆
      (stmt.counted.toFinset ×ˢ Finset.range input.leafNum).image
        fun pair => RecordId.mk pair.1 pair.2 := by
    intro id mem
    have count := List.count_pos_iff.mpr (List.mem_toFinset.mp mem)
    have sent := sound.sent_of_entered id (by unfold entered; omega)
    refine Finset.mem_image.mpr ⟨(id.row, id.index), Finset.mem_product.mpr ⟨?_, ?_⟩, rfl⟩
    · exact List.mem_toFinset.mpr (sent_counted id sent.1)
    · exact Finset.mem_range.mpr sent.2
  have all : stmt.lstFinishRecord.toFinset =
      (stmt.counted.toFinset ×ˢ Finset.range input.leafNum).image
        fun pair => RecordId.mk pair.1 pair.2 := by
    apply Finset.eq_of_subset_of_card_le inside
    refine Nat.le_trans Finset.card_image_le ?_
    rw [Finset.card_product, Finset.card_range, List.toFinset_card_of_nodup sound.counted_nodup,
      List.toFinset_card_of_nodup finish_nodup, ← cnt]
    exact Nat.le_of_not_lt enough
  refine ⟨sentTo, empty, fun r sent => ?_, fun id isSent less => ?_⟩
  · rcases done r sent with mem | isDone
    · exact (sound.counted r mem).1
    · exact isDone.1
  · refine List.mem_toFinset.mp (all ▸ Finset.mem_image.mpr
      ⟨(id.row, id.index), Finset.mem_product.mpr ⟨?_, ?_⟩, rfl⟩)
    · exact List.mem_toFinset.mpr (sent_counted id isSent)
    · exact Finset.mem_range.mpr less

end

theorem Marked.next {status : RecordStatus} {num : ℕ} (marked : stmt.Marked status num)
    (at_num : stmt.lstFinishRecord[num]? = some id) (stage : ExecStage) :
    Marked { stmt with recStatus := Function.update stmt.recStatus id status, stage } status
      (num + 1) := by
  refine ⟨fun other mem => ?_, fun other => ?_⟩
  · change Function.update stmt.recStatus id status other = status
    by_cases same : other = id
    · rw [same, Function.update_self]
    · rw [Function.update_of_ne same]
      have mem : other ∈ stmt.lstFinishRecord.take (num + 1) := mem
      rw [List.take_add_one, at_num] at mem
      rcases List.mem_append.mp mem with mem | mem
      · exact marked.marked other mem
      · exact absurd (List.mem_singleton.mp mem) same
  · change Function.update stmt.recStatus id status other = .init ∨
      Function.update stmt.recStatus id status other = status
    by_cases same : other = id
    · rw [same, Function.update_self]
      exact Or.inr rfl
    · rw [Function.update_of_ne same]
      exact marked.others other

theorem Marked.all {status : RecordStatus} {num : ℕ} (marked : stmt.Marked status num)
    (behind : stmt.lstFinishRecord[num]? = none) :
    stmt.Marked status stmt.lstFinishRecord.length := by
  refine ⟨fun id mem => marked.marked id ?_, marked.others⟩
  rw [List.take_of_length_le (List.getElem?_eq_none_iff.mp behind)]
  rw [List.take_length] at mem
  exact mem

theorem Sound.execStep (sound : stmt.Sound input) (countable : input.Countable)
    (stepped : stmt.execStep input = some stmt') : stmt'.Sound input := by
  have holds := sound.stage
  unfold InsertStatement.execStep at stepped
  cases stageEq : stmt.stage with
  | idle =>
      have before : stmt.stage.ids input.leafNum = [] := by rw [stageEq]; rfl
      rw [stageEq] at holds
      have holds : stmt.IdleHolds input stmt.status := holds
      cases statusEq : stmt.status with
      | created =>
          simp only [stageEq, statusEq] at stepped holds
          cases stepped
          exact sound.goStage stmt.status stmt.recStatus before rfl
            ⟨statusEq, Nat.zero_le _, holds⟩
      | executing =>
          simp only [stageEq, statusEq] at stepped holds
          cases stepped
          exact sound.goStage stmt.status stmt.recStatus before rfl ⟨statusEq, holds⟩
      | executed => simp only [stageEq, statusEq] at stepped; cases stepped
      | logging => simp only [stageEq, statusEq] at stepped; cases stepped
      | logged => simp only [stageEq, statusEq] at stepped; cases stepped
      | finished => simp only [stageEq, statusEq] at stepped; cases stepped
  | adding row pos =>
      simp only [stageEq] at stepped
      split at stepped
      · next less =>
          cases stepped
          exact sound.addLeafRecord stageEq less
      · next all =>
          cases stepped
          rw [stageEq] at holds
          have before : stmt.stage.ids input.leafNum = [] := by
            rw [stageEq]
            exact recordIds_nil (Nat.le_of_not_lt all)
          refine sound.goStage stmt.status stmt.recStatus before rfl ?_
          change IdleHolds input _ stmt.status
          rw [holds.1]
          exact holds.2
  | init i =>
      have before : stmt.stage.ids input.leafNum = [] := by rw [stageEq]; rfl
      rw [stageEq] at holds
      rcases holds with ⟨created, le, sentTo, untouched⟩
      simp only [stageEq] at stepped
      split at stepped
      · next check =>
          cases stepped
          exact sound.send stageEq check
      · cases stepped
        have crashed := sound.crash
        rw [stageEq] at crashed
        exact crashed
      · next error _ check =>
          cases stepped
          have first := countable.first i error check
          subst first
          refine { sound with
            entered_eq := fun id => ?_, failedRow := fun _ _ => rfl,
            failedRecord := fun _ _ _ => rfl, stage := Or.inl ⟨sentTo, error, check⟩ }
          have held := sound.entered_eq id
          simp only [entered, before] at held
          exact held
      · next behind =>
          cases stepped
          have ge := List.getElem?_eq_none_iff.mp behind
          have same := Nat.le_antisymm le ge
          exact sound.goStage .executing stmt.recStatus before rfl ⟨same ▸ sentTo, untouched⟩
  | rows i =>
      have before : stmt.stage.ids input.leafNum = [] := by rw [stageEq]; rfl
      rw [stageEq] at holds
      simp only [stageEq] at stepped
      split at stepped
      · next r at_i =>
          split at stepped
          · cases stepped
            exact sound.goStage stmt.status stmt.recStatus before rfl holds
          · next suceed =>
              cases stepped
              have counted := sound.count stageEq at_i suceed
              rw [stageEq] at counted
              exact counted
          · next notInit notSuceed =>
              cases stepped
              have dropped := sound.drop stageEq at_i notInit notSuceed
              rw [stageEq] at dropped
              exact dropped
      · cases stepped
        split
        · next empty =>
            exact sound.goStage stmt.status stmt.recStatus before rfl
              ⟨holds.1, holds.2.1, holds.2.2, empty⟩
        · refine sound.goStage stmt.status stmt.recStatus before rfl ?_
          change IdleHolds input _ stmt.status
          rw [holds.1]
          exact holds.2
  | waits i =>
      have before : stmt.stage.ids input.leafNum = [] := by rw [stageEq]; rfl
      rw [stageEq] at holds
      simp only [stageEq] at stepped
      split at stepped
      · next id at_i =>
          split at stepped
          · cases stepped
            exact sound.goStage stmt.status stmt.recStatus before rfl holds
          · next found =>
              cases stepped
              exact sound.finishWaiting stageEq at_i found
      · cases stepped
        exact sound.goStage stmt.status stmt.recStatus before rfl holds
  | concluding =>
      have before : stmt.stage.ids input.leafNum = [] := by rw [stageEq]; rfl
      rw [stageEq] at holds
      simp only [stageEq] at stepped
      split at stepped
      · cases stepped
        refine sound.goStage stmt.status stmt.recStatus before rfl ?_
        change IdleHolds input _ stmt.status
        rw [holds.1]
        exact ⟨holds.2.1, holds.2.2.1⟩
      · next enough =>
          have complete := sound.complete countable.fits stageEq enough
          have complete' : ∀ status stage, Complete input { stmt with status, stage } :=
            fun _ _ => { complete with }
          have untouched := holds.2.2.1
          split at stepped
          · next isFailed =>
              cases stepped
              refine sound.goStage stmt.status stmt.recStatus before rfl
                ⟨complete' _ _, isFailed, (by simp), fun id => Or.inl (untouched id)⟩
          · next notFailed =>
              have notFailed := Bool.eq_false_iff.mpr notFailed
              split at stepped
              · cases stepped
                exact sound.goStage .logging stmt.recStatus before rfl
                  ⟨complete' _ _, notFailed, untouched⟩
              · cases stepped
                exact sound.goStage .executed stmt.recStatus before rfl
                  ⟨complete' _ _, notFailed, untouched⟩
  | rollback i =>
      have before : stmt.stage.ids input.leafNum = [] := by rw [stageEq]; rfl
      rw [stageEq] at holds
      rcases holds with ⟨complete, isFailed, marked⟩
      simp only [stageEq] at stepped
      split at stepped
      · next id at_i =>
          cases stepped
          exact sound.goStage stmt.status _ before rfl
            ⟨{ complete with }, isFailed,
              marked.next at_i _⟩
      · next behind =>
          cases stepped
          have marked := marked.all behind
          exact sound.goStage .finished stmt.recStatus before rfl (Or.inr
            ⟨{ complete with },
              Or.inl ⟨isFailed, marked.marked, marked.others⟩⟩)
  | commit i =>
      have before : stmt.stage.ids input.leafNum = [] := by rw [stageEq]; rfl
      rw [stageEq] at holds
      rcases holds with ⟨complete, notFailed, marked⟩
      simp only [stageEq] at stepped
      split at stepped
      · next id at_i =>
          cases stepped
          exact sound.goStage stmt.status _ before rfl
            ⟨{ complete with }, notFailed,
              marked.next at_i _⟩
      · next behind =>
          cases stepped
          have marked := marked.all behind
          exact sound.goStage .finished stmt.recStatus before rfl (Or.inr
            ⟨{ complete with },
              Or.inr ⟨notFailed, marked.marked, marked.others⟩⟩)
  | closing =>
      have before : stmt.stage.ids input.leafNum = [] := by rw [stageEq]; rfl
      rw [stageEq] at holds
      simp only [stageEq] at stepped
      cases stepped
      exact sound.goStage stmt.status stmt.recStatus before rfl
        (Settled.frame holds stmt.messages stmt.recResult .ended stmt.crashed)
  | ended =>
      simp only [stageEq] at stepped
      cases stepped

theorem Sound.recordAction {result : RecordResult} (sound : stmt.Sound input)
    (pushed : isPushed input (stmt.rows id.row) id.index = true)
    (open_ : stmt.recResult id = .init) :
    Sound input { stmt with recResult := Function.update stmt.recResult id result } := by
  have other_of_finish : ∀ other ∈ stmt.lstFinishRecord, other ≠ id := by
    rintro other mem rfl
    exact sound.finished other mem open_
  refine { sound with
    pushed := fun other found => ?_, finished := fun other mem => ?_,
    failedRecord := fun other mem isError => ?_,
    stage := StageHolds.frame sound.stage stmt.messages _ stmt.crashed }
  · by_cases same : other = id
    · rw [same]
      exact pushed
    · have found : Function.update stmt.recResult id result other ≠ .init := found
      rw [Function.update_of_ne same] at found
      exact sound.pushed other found
  · change Function.update stmt.recResult id result other ≠ .init
    rw [Function.update_of_ne (other_of_finish other mem)]
    exact sound.finished other mem
  · have isError : Function.update stmt.recResult id result other = .error := isError
    rw [Function.update_of_ne (other_of_finish other mem)] at isError
    exact sound.failedRecord other mem isError

/-!
## Runs
-/

theorem Sound.step {event : InsertEvent} (sound : stmt.Sound input) (countable : input.Countable)
    (stepped : stmt.step input event = some stmt') : stmt'.Sound input := by
  cases event with
  | deliver i =>
      rcases Option.ite_none_right_eq_some.mp stepped with ⟨idle, stepped⟩
      rcases Option.map_eq_some_iff.mp stepped with ⟨message, at_i, rfl⟩
      cases message with
      | records r => exact sound.receiveRecords idle at_i
      | errMsg => exact sound.receiveErrMsg at_i
  | exec => exact sound.execStep countable stepped
  | row r =>
      rcases Option.ite_none_left_eq_some.mp stepped with ⟨-, stepped⟩
      exact sound.rowStep stepped
  | recordAction id ok =>
      rcases Option.ite_none_right_eq_some.mp stepped with ⟨open_, stepped⟩
      split at stepped
      · cases stepped
        exact sound.recordAction open_.1 open_.2
      · cases stepped
        exact sound
  | logged =>
      rcases Option.ite_none_right_eq_some.mp stepped with ⟨logging, ⟨⟩⟩
      have holds := sound.stage
      rw [logging.2] at holds
      have holds : stmt.IdleHolds input stmt.status := holds
      rw [logging.1] at holds
      rcases holds with ⟨complete, notFailed, untouched⟩
      have before : stmt.stage.ids input.leafNum = [] := by rw [logging.2]; rfl
      exact sound.goStage stmt.status stmt.recStatus before rfl
        ⟨{ complete with }, notFailed,
          nofun, fun id => Or.inl (untouched id)⟩

theorem Sound.new (input : InsertInput) : Sound input {} := by
  refine ⟨fun r => rfl, fun r sent => absurd rfl sent, fun id => rfl, fun r => rfl, nofun, nofun,
    ?_, fun id found => ?_, nofun, nofun, nofun, fun r => ?_, fun id => rfl⟩
  · exact (Nat.zero_mul _).symm ▸ rfl
  · exact absurd rfl found
  · exact ⟨fun _ => Nat.zero_le r, fun _ => rfl⟩

theorem sound_of_run (countable : input.Countable)
    (run : Reaches (InsertStatement.step input) anyInput {} stmt) : stmt.Sound input := by
  apply run.preserves (Sound.new input)
  intro state event state' _ sound stepped
  exact sound.step countable stepped

/-- What is expected of the waiting of a statement whose rows are all accepted by `InitRecord`. -/
structure WaitsForAll (input : InsertInput) (stmt : InsertStatement) : Prop where
  /-- Behind `Executing` each row is done, and each of its records has a result and is finished. -/
  results : stmt.status ≠ .created → stmt.status ≠ .executing → ∀ r, r < input.checks.length →
    (stmt.rows r).stage = .done ∧ ∀ pos, isPushed input (stmt.rows r) pos = true →
      stmt.recResult ⟨r, pos⟩ ≠ .init ∧ ⟨r, pos⟩ ∈ stmt.lstFinishRecord
  /-- A record whose message has been executed is in exactly one of the lists, no other one is. -/
  entered : ∀ id, (stmt.lstWaitRecord ++ stmt.lstFinishRecord).count id ≤ 1 ∧
    ((stmt.rows id.row).isSent = true → id.index < input.leafNum →
      .records id.row ∉ stmt.messages → id ∉ stmt.stage.ids input.leafNum →
      (stmt.lstWaitRecord ++ stmt.lstFinishRecord).count id = 1)
  /-- The records of each row are counted once, when the row has suceeded. -/
  counted : stmt.counted.Nodup ∧ stmt.cntLeafRec = stmt.counted.length * input.leafNum ∧
    ∀ r, r < input.checks.length → (r ∈ stmt.counted ↔
      (stmt.rows r).status = .suceed ∧ (stmt.rows r).stage ≠ .unsent ∧ r ∉ stmt.lstRecord)

theorem Complete.result {pos : ℕ} (complete : stmt.Complete input) (sound : stmt.Sound input)
    (pushed : isPushed input (stmt.rows r) pos = true) :
    stmt.recResult ⟨r, pos⟩ ≠ .init ∧ ⟨r, pos⟩ ∈ stmt.lstFinishRecord := by
  have sent : (stmt.rows r).stage ≠ .unsent := by
    intro unsent
    simp only [isPushed, unsent] at pushed
    cases pushed
  have isDone := complete.done r sent
  simp only [isPushed, isDone, decide_eq_true_eq] at pushed
  have isSent : (stmt.rows r).isSent = true := by
    simp only [StmtInsertRecord.isSent, isDone, pushed.1, decide_true]
  have finished := complete.finished ⟨r, pos⟩ isSent pushed.2
  exact ⟨sound.finished _ finished, finished⟩

/-- A statement that is not executed any more is complete, unless it was refused at once. -/
theorem Sound.settled_of_left (sound : stmt.Sound input) (notCreated : stmt.status ≠ .created)
    (notExecuting : stmt.status ≠ .executing) :
    (∃ error, input.checks[0]? = some (.error error)) ∨ stmt.Complete input := by
  have holds := sound.stage
  cases stageEq : stmt.stage with
  | idle =>
      rw [stageEq] at holds
      have holds : stmt.IdleHolds input stmt.status := holds
      cases statusEq : stmt.status with
      | created => exact absurd statusEq notCreated
      | executing => exact absurd statusEq notExecuting
      | executed =>
          rw [statusEq] at holds
          exact Or.inr holds.1
      | logging =>
          rw [statusEq] at holds
          exact Or.inr holds.1
      | logged =>
          rw [statusEq] at holds
          cases holds
      | finished =>
          rw [statusEq] at holds
          cases holds
  | adding row pos =>
      rw [stageEq] at holds
      exact absurd holds.1 notExecuting
  | init i =>
      rw [stageEq] at holds
      exact absurd holds.1 notCreated
  | rows i =>
      rw [stageEq] at holds
      exact absurd holds.1 notExecuting
  | waits i =>
      rw [stageEq] at holds
      exact absurd holds.1 notExecuting
  | concluding =>
      rw [stageEq] at holds
      exact absurd holds.1 notExecuting
  | rollback i =>
      rw [stageEq] at holds
      exact Or.inr holds.1
  | commit i =>
      rw [stageEq] at holds
      exact Or.inr holds.1
  | closing =>
      rw [stageEq] at holds
      exact holds.imp (fun refused => refused.2) (fun settled => settled.1)
  | ended =>
      rw [stageEq] at holds
      exact holds.imp (fun refused => refused.2) (fun settled => settled.1)

/-- A statement with no more leaf records than can be counted waits for all of them. -/
theorem waitsForAll_of_fits
    (valid : ∀ (i : ℕ) (error : InitError), input.checks[i]? ≠ some (.error error))
    (fits : input.checks.length * input.leafNum < 2 ^ 32)
    (run : Reaches (InsertStatement.step input) anyInput {} stmt) : stmt.WaitsForAll input := by
  have countable : input.Countable := ⟨fits, fun i error check => absurd check (valid i error)⟩
  have sound := sound_of_run countable run
  refine ⟨fun notCreated notExecuting r less => ?_, fun id => ⟨?_, ?_⟩,
    sound.counted_nodup, sound.cnt_eq fits, fun r less => ⟨fun mem => ?_, ?_⟩⟩
  · rcases sound.settled_of_left notCreated notExecuting with ⟨error, check⟩ | complete
    · exact absurd check (valid 0 error)
    · have sent : (stmt.rows r).stage ≠ .unsent := by
        intro unsent
        exact absurd ((complete.sentTo r).mp unsent) (Nat.not_le_of_lt less)
      exact ⟨complete.done r sent, fun pos pushed => complete.result sound pushed⟩
  · have held := sound.entered_eq id
    have le : (stmt.rows id.row).owed input.leafNum id.index ≤ 1 := owed_le _ _
    unfold entered at held
    rw [List.count_append]
    omega
  · intro isSent less noMessage notAdding
    have held := sound.entered_eq id
    have owed : (stmt.rows id.row).owed input.leafNum id.index = 1 := if_pos ⟨isSent, less⟩
    have noRecord : Holders.total (SessionMessage.ids input.leafNum) stmt.messages id = 0 := by
      refine List.count_eq_zero.mpr fun mem => ?_
      rcases List.mem_flatMap.mp mem with ⟨message, messageMem, idMem⟩
      cases message with
      | records row =>
          have same := (mem_recordIds.mp idMem).1
          exact noMessage (same ▸ messageMem)
      | errMsg => cases idMem
    have none := List.count_eq_zero.mpr notAdding
    unfold entered at held
    rw [List.count_append]
    omega
  · have isDone := sound.counted r mem
    have sent : (stmt.rows r).stage ≠ .unsent := by rw [isDone.1]; nofun
    have listed := sound.listed r
    rw [if_neg sent] at listed
    have one := List.count_pos_iff.mpr mem
    exact ⟨isDone.2, sent, List.count_eq_zero.mp (by omega)⟩
  · rintro ⟨suceed, sent, gone⟩
    have listed := sound.listed r
    have none := List.count_eq_zero.mpr gone
    rw [if_neg sent] at listed
    by_contra notCounted
    have zero := List.count_eq_zero.mpr notCounted
    have isFailed := sound.dropped r (List.count_pos_iff.mp (by omega))
    rw [suceed] at isFailed
    cases isFailed.2

/-- A row or a record of a row has failed. -/
def Fails (input : InsertInput) (stmt : InsertStatement) : Prop :=
  (∃ (i : ℕ) (error : InitError), input.checks[i]? = some (.error error)) ∨
    (∃ r, (stmt.rows r).isFailed = true) ∨ ∃ id, stmt.recResult id = .error

/-- What is expected of a statement that has come to its end. -/
structure AllOrNothing (input : InsertInput) (stmt : InsertStatement) : Prop where
  /-- The session has seen the end of each action that has been sent. -/
  accounted : ∀ r, (stmt.rows r).stage ≠ .unsent →
    (stmt.rows r).stage = .done ∧ (r ∈ stmt.counted ∨ r ∈ stmt.dropped)
  /-- No record is left unresolved. -/
  resolved : ∀ id, stmt.recResult id ≠ .init → stmt.recStatus id ≠ .init
  /-- If something has failed, what has reached a leaf page is rolled back. -/
  rollbacked : stmt.Fails input → ∀ id, stmt.recResult id ≠ .init → stmt.recStatus id = .rollbacked

theorem crashed_execStep (regular : input.Regular) (stepped : stmt.execStep input = some stmt') :
    stmt'.crashed = stmt.crashed := by
  have calculated := regular.calculated
  grind [InsertStatement.execStep, InsertStatement.atStage, InsertStatement.setRow,
    InsertStatement.finish, InsertStatement.addLeafRecord]

theorem crashed_rowStep (regular : input.Regular) (stepped : stmt.rowStep input r = some stmt') :
    stmt'.crashed = stmt.crashed := by
  cases stage : (stmt.rows r).stage with
  | creating =>
      simp only [InsertStatement.rowStep, stage] at stepped
      split at stepped
      · rename_i data check
        rcases regular.reports r data check with valid | message
        · rw [if_pos valid] at stepped
          cases stepped
          rfl
        · rw [if_pos message] at stepped
          split at stepped <;> cases stepped <;> rfl
      · cases stepped
  | unsent | done =>
      simp only [InsertStatement.rowStep, stage] at stepped
      cases stepped
  | queued | reporting | marking | pushing _ | counting | sending | storing _ =>
      simp only [InsertStatement.rowStep, stage] at stepped
      cases stepped
      rfl

theorem crashed_step (regular : input.Regular) {event : InsertEvent}
    (stepped : stmt.step input event = some stmt') : stmt'.crashed = stmt.crashed := by
  cases event with
  | deliver i =>
      rcases Option.ite_none_right_eq_some.mp stepped with ⟨-, stepped⟩
      rcases Option.map_eq_some_iff.mp stepped with ⟨message, -, rfl⟩
      cases message <;> rfl
  | exec => exact crashed_execStep regular stepped
  | row r =>
      rcases Option.ite_none_left_eq_some.mp stepped with ⟨-, stepped⟩
      exact crashed_rowStep regular stepped
  | recordAction id ok =>
      rcases Option.ite_none_right_eq_some.mp stepped with ⟨-, stepped⟩
      split at stepped <;> cases stepped <;> rfl
  | logged =>
      rcases Option.ite_none_right_eq_some.mp stepped with ⟨-, ⟨⟩⟩
      rfl

theorem crashed_of_run (regular : input.Regular)
    (run : Reaches (InsertStatement.step input) anyInput {} stmt) : stmt.crashed = false := by
  let invariant (stmt : InsertStatement) : Prop := stmt.crashed = false
  have holds : invariant stmt := run.preserves rfl
    fun _ _ _ _ notCrashed stepped => (crashed_step regular stepped).trans notCrashed
  exact holds

/-- A statement never crashes, and all or nothing holds when it has come to its end. -/
theorem allOrNothing_of_regular (regular : input.Regular)
    (run : Reaches (InsertStatement.step input) anyInput {} stmt) : stmt.crashed = false ∧
      (stmt.stage = .closing ∨ stmt.stage = .ended → stmt.AllOrNothing input) := by
  refine ⟨crashed_of_run regular run, fun ends => ?_⟩
  have sound := sound_of_run regular.toCountable run
  have settled : stmt.Settled input := by
    have holds := sound.stage
    rcases ends with stageEq | stageEq
    · rw [stageEq] at holds
      exact holds
    · rw [stageEq] at holds
      exact holds
  rcases settled with ⟨sentTo, -⟩ | ⟨complete, marked⟩
  · have nothing : ∀ id, stmt.recResult id = .init := by
      intro id
      by_contra found
      have pushed := sound.pushed id found
      simp only [isPushed, (sentTo id.row).mpr (Nat.zero_le _)] at pushed
      cases pushed
    exact ⟨fun r sent => absurd ((sentTo r).mpr (Nat.zero_le r)) sent,
      fun id found => absurd (nothing id) found, fun _ id found => absurd (nothing id) found⟩
  · have finished : ∀ id, stmt.recResult id ≠ .init → id ∈ stmt.lstFinishRecord :=
      fun id found => (complete.result sound (sound.pushed id found)).2
    have marked_of : ∀ status, stmt.Marked status stmt.lstFinishRecord.length →
        ∀ id, stmt.recResult id ≠ .init → stmt.recStatus id = status := by
      intro status marked id found
      apply marked.marked
      rw [List.take_length]
      exact finished id found
    refine ⟨fun r sent => ⟨complete.done r sent, ?_⟩, fun id found => ?_, fun fails => ?_⟩
    · have listed := sound.listed r
      rw [if_neg sent, complete.lstRecord, List.count_nil] at listed
      by_cases mem : r ∈ stmt.counted
      · exact Or.inl mem
      · have zero := List.count_eq_zero.mpr mem
        exact Or.inr (List.count_pos_iff.mp (by omega))
    · rcases marked with ⟨-, marked⟩ | ⟨-, marked⟩
      · rw [marked_of _ marked id found]
        nofun
      · rw [marked_of _ marked id found]
        nofun
    · rcases marked with ⟨-, marked⟩ | ⟨notFailed, -⟩
      · exact marked_of _ marked
      · have isFailed : stmt.stmtFailed = true := by
          rcases fails with ⟨i, error, check⟩ | ⟨r, isFailed⟩ | ⟨id, isError⟩
          · have first := regular.first i error check
            subst first
            have sent : (stmt.rows 0).stage ≠ .unsent := by
              intro unsent
              have le := (complete.sentTo 0).mp unsent
              exact Nat.not_lt_of_le le (List.getElem?_eq_some_iff.mp check).1
            rcases sound.accepted 0 sent with ⟨data, check'⟩
            rw [check] at check'
            cases check'
          · exact sound.failedRow r isFailed
          · have found : stmt.recResult id ≠ .init := by rw [isError]; nofun
            exact sound.failedRecord id (finished id found) isError
        rw [notFailed] at isFailed
        cases isFailed

end Steps

/-!
## Runs that can be computed
-/

def oneRow : InsertInput := { secondary := 0, vctParas := [{ size := 0, rows := [{}] }] }

/-- The row is sent, its action is executed, and its record gets a result. -/
def oneRowEvents (ok : Bool) : List InsertEvent :=
  List.replicate 3 .exec ++ List.replicate 7 (.row 0) ++ [.recordAction ⟨0, 0⟩ ok, .deliver 0] ++
    List.replicate 7 .exec

theorem oneRow_valid (i : ℕ) (error : InitError) : oneRow.checks[i]? ≠ some (.error error) := by
  intro check
  have inside : i < 1 := (List.getElem?_eq_some_iff.mp check).1
  have first : i = 0 := by omega
  subst first
  cases check

theorem oneRow_regular : oneRow.Regular := by
  refine ⟨⟨by decide, fun i error check => absurd check (oneRow_valid i error)⟩,
    fun i => oneRow_valid i _, fun i data check => ?_⟩
  have inside : i < 1 := (List.getElem?_eq_some_iff.mp check).1
  have first : i = 0 := by omega
  subst first
  cases check
  exact Or.inl rfl

theorem waitsForAll_oneRow :
    ∃ stmt, exec (step oneRow) (oneRowEvents true) {} = some stmt ∧ stmt.status = .logging ∧
      stmt.WaitsForAll oneRow := by
  have ends : (exec (step oneRow) (oneRowEvents true) {}).map (·.status) = some .logging := by
    decide +kernel
  rcases Option.map_eq_some_iff.mp ends with ⟨stmt, executed, logging⟩
  exact ⟨stmt, executed, logging, waitsForAll_of_fits oneRow_valid (by decide)
    (reaches_of_exec _ executed)⟩

/-- The record of the row is a duplicate. -/
theorem allOrNothing_oneRow :
    ∃ stmt, exec (step oneRow) (oneRowEvents false ++ List.replicate 3 .exec) {} = some stmt ∧
      stmt.recResult ⟨0, 0⟩ = .error ∧ stmt.crashed = false ∧ stmt.AllOrNothing oneRow := by
  have ends : (exec (step oneRow) (oneRowEvents false ++ List.replicate 3 .exec) {}).map
      (fun stmt => (stmt.stage, stmt.recResult ⟨0, 0⟩)) = some (.ended, .error) := by
    decide +kernel
  rcases Option.map_eq_some_iff.mp ends with ⟨stmt, executed, stmtEq⟩
  simp only [Prod.mk.injEq] at stmtEq
  rcases allOrNothing_of_regular oneRow_regular (reaches_of_exec _ executed) with
    ⟨notCrashed, allOrNothing⟩
  exact ⟨stmt, executed, stmtEq.2, notCrashed, allOrNothing (Or.inr stmtEq.1)⟩

/-- The value of the second row cannot be copied into its column. -/
def badSecondRow : InsertInput :=
  { secondary := 0, vctParas := [{ size := 0, rows := [{}, { values := [.refused] }] }] }

/-- The record of the first row is in its page when the second row is refused. -/
def refusedEvents : List InsertEvent :=
  List.replicate 2 .exec ++ List.replicate 7 (.row 0) ++ [.recordAction ⟨0, 0⟩ true] ++
    List.replicate 2 .exec

/-- The key of the row is too long for the index. -/
def overlongKey : InsertInput :=
  { secondary := 0, vctParas := [{ size := 0, rows := [{ leafValid := [false] }] }] }

theorem not_allOrNothing :
    (∃ stmt, Reaches (step overlongKey) anyInput {} stmt ∧ stmt.crashed = true) ∧
    ¬∀ (input : InsertInput) (stmt : InsertStatement),
      Reaches (step input) anyInput {} stmt → stmt.stage = .closing ∨ stmt.stage = .ended →
      stmt.AllOrNothing input := by
  constructor
  · have ends : (exec (step overlongKey) [.exec, .exec, .row 0, .row 0] {}).map (·.crashed) =
        some true := by
      decide +kernel
    rcases Option.map_eq_some_iff.mp ends with ⟨stmt, executed, crashed⟩
    exact ⟨stmt, reaches_of_exec _ executed, crashed⟩
  intro allOrNothing
  have ends : (exec (step badSecondRow) refusedEvents {}).map (fun stmt =>
      (stmt.stage, stmt.recResult ⟨0, 0⟩, stmt.recStatus ⟨0, 0⟩)) =
      some (.ended, .inPage, .init) := by
    decide +kernel
  rcases Option.map_eq_some_iff.mp ends with ⟨stmt, executed, stmtEq⟩
  simp only [Prod.mk.injEq] at stmtEq
  rcases stmtEq with ⟨ended, inPage, untouched⟩
  have found : stmt.recResult ⟨0, 0⟩ ≠ .init := by rw [inPage]; nofun
  exact (allOrNothing badSecondRow stmt (reaches_of_exec _ executed) (Or.inr ended)).resolved
    ⟨0, 0⟩ found untouched

/-!
## More leaf records than can be counted
-/

section Overflow

variable {num k : ℕ}

/-- So many rows in a table with one index. -/
def manyRows (num : ℕ) : InsertInput :=
  { secondary := 0, vctParas := [{ size := 0, rows := List.replicate num {} }] }

theorem manyRows_checks (num : ℕ) :
    (manyRows num).checks = List.replicate num (.ok {}) := by
  unfold InsertInput.checks manyRows
  simp only [List.flatMap_cons, List.flatMap_nil, List.append_nil, List.map_replicate]
  rfl

theorem manyRows_check (less : k < num) : (manyRows num).checks[k]? = some (.ok {}) := by
  rw [manyRows_checks, List.getElem?_replicate, if_pos less]

/-- A row whose action has been executed. -/
def storedRow : StmtInsertRecord := { stage := .done, status := .suceed, numLeafRecord := 1 }

def sentRows (k : ℕ) : InsertStatement :=
  { stage := .init k, lstRecord := List.range k
    rows := fun r => if r < k then { stage := .queued } else {} }

/-- All rows have been sent, and the first ones have been executed. -/
def storedRows (num k : ℕ) : InsertStatement :=
  { status := .executing, lstRecord := List.range num
    rows := fun r => if r < k then storedRow else if r < num then { stage := .queued } else {}
    messages := (List.range k).map .records }

/-- All rows have been executed, and the first ones have been counted. -/
def countedRows (num k : ℕ) : InsertStatement :=
  { status := .executing, stage := .rows 0, lstRecord := List.range' k (num - k)
    cntLeafRec := k % 2 ^ 32
    rows := fun r => if r < num then storedRow else {}
    messages := (List.range num).map .records, counted := List.range k }

theorem sentRows_step (less : k < num) :
    step (manyRows num) (sentRows k) .exec = some (sentRows (k + 1)) := by
  have rowsEq : Function.update (sentRows k).rows k { stage := .queued } =
      (sentRows (k + 1)).rows := by
    funext r
    by_cases same : r = k
    · subst same
      rw [Function.update_self]
      simp only [sentRows, Nat.lt_succ_self, if_true]
    · rw [Function.update_of_ne same]
      have iff_ : r < k ↔ r < k + 1 := by omega
      simp only [sentRows, iff_]
  simp only [step, execStep, sentRows, manyRows_check less, setRow]
  simp only [sentRows] at rowsEq
  rw [rowsEq, List.range_succ]

theorem setRow_setRow (stmt : InsertStatement) (r : ℕ) (row row' : StmtInsertRecord) :
    (stmt.setRow r row).setRow r row' = stmt.setRow r row' := by
  unfold setRow
  simp only [Function.update_idem]

theorem row_run (num : ℕ) (stmt : InsertStatement) {r : ℕ} (open_ : stmt.stage ≠ .ended)
    (fine : stmt.stmtFailed = false) (check : (manyRows num).checks[r]? = some (.ok {}))
    (queued : stmt.rows r = { stage := .queued }) :
    Reaches (step (manyRows num)) anyInput stmt
      { stmt.setRow r storedRow with messages := stmt.messages ++ [.records r] } := by
  have stepEq : ∀ stmt' : InsertStatement, stmt'.stage = stmt.stage →
      step (manyRows num) stmt' (.row r) = stmt'.rowStep (manyRows num) r := by
    intro stmt' same
    simp only [step, same, open_, false_and, if_false]
  have first : stmt.rowStep (manyRows num) r = some (stmt.setRow r { stage := .creating }) := by
    simp only [rowStep, queued, fine]
    rfl
  have second : (stmt.setRow r { stage := .creating }).rowStep (manyRows num) r =
      some (stmt.setRow r { stage := .pushing 0 }) := by
    simp only [rowStep, rows_same, check, setRow_setRow]
    rfl
  have third : (stmt.setRow r { stage := .pushing 0 }).rowStep (manyRows num) r =
      some (stmt.setRow r { stage := .pushing 1 }) := by
    simp only [rowStep, rows_same, setRow_setRow]
    rfl
  have fourth : (stmt.setRow r { stage := .pushing 1 }).rowStep (manyRows num) r =
      some (stmt.setRow r { stage := .counting }) := by
    simp only [rowStep, rows_same, setRow_setRow]
    rfl
  have fifth : (stmt.setRow r { stage := .counting }).rowStep (manyRows num) r =
      some (stmt.setRow r { stage := .sending, numLeafRecord := 1 }) := by
    simp only [rowStep, rows_same, setRow_setRow]
    rfl
  have sixth : (stmt.setRow r { stage := .sending, numLeafRecord := 1 }).rowStep (manyRows num) r =
      some { stmt.setRow r { stage := .storing .suceed, numLeafRecord := 1 } with
        messages := stmt.messages ++ [.records r] } := by
    simp only [rowStep, rows_same, setRow_setRow]
    rfl
  have seventh : rowStep (manyRows num)
      { stmt.setRow r { stage := .storing .suceed, numLeafRecord := 1 } with
        messages := stmt.messages ++ [.records r] } r =
      some { stmt.setRow r storedRow with messages := stmt.messages ++ [.records r] } := by
    have twice := setRow_setRow { stmt with messages := stmt.messages ++ [.records r] } r
      { stage := .storing .suceed, numLeafRecord := 1 } storedRow
    simp only [rowStep, rows_same]
    exact congrArg some twice
  have leads : ∀ {state state' : InsertStatement},
      state.rowStep (manyRows num) r = some state' → state.stage = stmt.stage →
      Reaches (step (manyRows num)) anyInput state state' :=
    fun stepped same => (Reaches.refl _).tail (.row r) trivial ((stepEq _ same).trans stepped)
  exact (leads first rfl).trans ((leads second rfl).trans ((leads third rfl).trans
    ((leads fourth rfl).trans ((leads fifth rfl).trans ((leads sixth rfl).trans
      (leads seventh rfl))))))

theorem storedRows_run (less : k < num) :
    Reaches (step (manyRows num)) anyInput (storedRows num k) (storedRows num (k + 1)) := by
  have atRow : (storedRows num k).rows k = { stage := .queued } := by
    simp only [storedRows, Nat.lt_irrefl, if_false, less, if_true]
  have rowsEq : Function.update (storedRows num k).rows k storedRow =
      (storedRows num (k + 1)).rows := by
    funext r
    by_cases same : r = k
    · subst same
      rw [Function.update_self]
      simp only [storedRows, Nat.lt_succ_self, if_true]
    · rw [Function.update_of_ne same]
      have iff_ : r < k ↔ r < k + 1 := by omega
      simp only [storedRows, iff_]
  have run := row_run num (storedRows num k) nofun rfl (manyRows_check less) atRow
  have ends : { (storedRows num k).setRow k storedRow with
      messages := (storedRows num k).messages ++ [.records k] } = storedRows num (k + 1) := by
    simp only [setRow, rowsEq]
    simp only [storedRows, List.range_succ, List.map_append, List.map_singleton]
  exact ends ▸ run

theorem countedRows_step (less : k < num) :
    step (manyRows num) (countedRows num k) .exec = some (countedRows num (k + 1)) := by
  have split : List.range' k (num - k) = k :: List.range' (k + 1) (num - (k + 1)) := by
    have more : num - k = (num - (k + 1)) + 1 := by omega
    rw [more, List.range'_succ]
  simp only [step, execStep, countedRows, split, List.getElem?_cons_zero, less, if_true, storedRow,
    List.eraseIdx_cons_zero, Nat.mod_add_mod, List.range_succ]

/-- All rows are sent and executed, and their number is found to be zero. -/
theorem manyRows_runs (num : ℕ) :
    Reaches (step (manyRows num)) anyInput {} (countedRows num num) := by
  have leads : ∀ {state state' : InsertStatement}, step (manyRows num) state .exec = some state' →
      Reaches (step (manyRows num)) anyInput state state' :=
    fun stepped => (Reaches.refl _).tail .exec trivial stepped
  have sends : ∀ k, k ≤ num → Reaches (step (manyRows num)) anyInput {} (sentRows k) := by
    intro k le
    induction k with
    | zero => exact leads rfl
    | succ k ih => exact (ih (Nat.le_of_succ_le le)).tail .exec trivial (sentRows_step le)
  have sent : step (manyRows num) (sentRows num) .exec = some (storedRows num 0) := by
    have behind : (manyRows num).checks[num]? = none := by
      rw [manyRows_checks, List.getElem?_replicate, if_neg (Nat.lt_irrefl num)]
    simp only [step, execStep, sentRows, behind, storedRows, Nat.not_lt_zero, if_false]
    rfl
  have stores : ∀ k, k ≤ num →
      Reaches (step (manyRows num)) anyInput (storedRows num 0) (storedRows num k) := by
    intro k le
    induction k with
    | zero => exact Reaches.refl _
    | succ k ih => exact (ih (Nat.le_of_succ_le le)).trans (storedRows_run le)
  have stored : step (manyRows num) (storedRows num num) .exec = some (countedRows num 0) := by
    have rowsEq : (storedRows num num).rows = (countedRows num 0).rows := by
      funext r
      by_cases less : r < num
      · simp only [storedRows, countedRows, less, if_true]
      · simp only [storedRows, countedRows, less, if_false]
    have all : List.range num = List.range' 0 (num - 0) := List.range_eq_range'
    simp only [storedRows, countedRows] at rowsEq
    simp only [step, execStep, storedRows, countedRows, rowsEq, atStage, ← all]
    rfl
  have counts : ∀ k, k ≤ num →
      Reaches (step (manyRows num)) anyInput (countedRows num 0) (countedRows num k) := by
    intro k le
    induction k with
    | zero => exact Reaches.refl _
    | succ k ih => exact (ih (Nat.le_of_succ_le le)).tail .exec trivial (countedRows_step le)
  exact (sends num (Nat.le_refl _)).trans ((leads sent).trans ((stores num (Nat.le_refl _)).trans
    ((leads stored).trans (counts num (Nat.le_refl _)))))

theorem manyRows_leaves (num : ℕ) (wraps : num % 2 ^ 32 = 0) :
    Reaches (step (manyRows num)) anyInput {}
      { countedRows num num with status := .logging, stage := .idle } := by
  have empty : (countedRows num num).lstRecord = [] := by
    simp only [countedRows, Nat.sub_self, List.range'_zero]
  have zero : (countedRows num num).cntLeafRec = 0 := wraps
  have first : step (manyRows num) (countedRows num num) .exec =
      some ((countedRows num num).atStage (.waits 0)) := by
    have stageEq : (countedRows num num).stage = .rows 0 := rfl
    simp only [step, execStep, stageEq, empty]
    rfl
  have second : step (manyRows num) ((countedRows num num).atStage (.waits 0)) .exec =
      some ((countedRows num num).atStage .concluding) := rfl
  have third : step (manyRows num) ((countedRows num num).atStage .concluding) .exec =
      some { countedRows num num with status := .logging, stage := .idle } := by
    have finished : (countedRows num num).lstFinishRecord.length = 0 := rfl
    have fine : (countedRows num num).stmtFailed = false := rfl
    simp only [step, execStep, atStage, finished, zero, fine]
    rfl
  exact (((manyRows_runs num).tail .exec trivial first).tail .exec trivial second).tail .exec
    trivial third

theorem not_waitsForAll :
    ¬∀ (input : InsertInput) (stmt : InsertStatement),
      (∀ (i : ℕ) (error : InitError), input.checks[i]? ≠ some (.error error)) →
      Reaches (step input) anyInput {} stmt → stmt.WaitsForAll input := by
  intro waits
  have valid : ∀ num (i : ℕ) (error : InitError),
      (manyRows num).checks[i]? ≠ some (.error error) := by
    intro num i error check
    rw [manyRows_checks, List.getElem?_replicate] at check
    split at check <;> cases check
  have fails : ∀ num, 0 < num → num % 2 ^ 32 ≠ 0 := by
    intro num pos wraps
    have row : (countedRows num num).rows 0 = storedRow := if_pos pos
    have inside : 0 < (manyRows num).checks.length := by
      rw [manyRows_checks, List.length_replicate]
      exact pos
    have results := (waits _ _ (valid num) (manyRows_leaves num wraps)).results nofun nofun 0 inside
    have pushed : isPushed (manyRows num) ((countedRows num num).rows 0) 0 = true := by
      rw [row]
      rfl
    exact (results.2 0 pushed).1 rfl
  exact fails (2 ^ 32) (by decide) (by decide)

end Overflow

end InsertStatement

end RapidDb
