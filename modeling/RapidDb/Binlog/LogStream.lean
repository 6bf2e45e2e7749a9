import RapidDb.Binlog.LogDecode

/-!
# The buffer of the log and the running check sum

The writer with all it changes: what has gone to the file, what lies in the buffer, and the
remainder of the check sum, which is brought up to date with every flush. A copy that does not fit
into the buffer goes beyond it. Records and overflow values make room for themselves, and a value
longer than the buffer goes to the file at once. The header of a table flushes the buffer when it
holds less than the header needs, and stays behind the bytes that have just been written.
-/

namespace RapidDb

open Bytes

namespace LogBytes

/-- `boost::crc_32_type`: the remainder of the bytes so far, and what is done with it. -/
structure Crc32 where
  Remainder : Type
  initial : Remainder
  processByte : Remainder → Byte → Remainder
  checksum : Remainder → ℕ

namespace Crc32

variable (crc : Crc32)

def processBytes (remainder : crc.Remainder) (bytes : List Byte) : crc.Remainder :=
  bytes.foldl crc.processByte remainder

/-- The check sum of a byte string. -/
def crc32 (bytes : List Byte) : ℕ := crc.checksum (crc.processBytes crc.initial bytes)

end Crc32

/-- The state of `WriteDmlLog`. -/
structure LogBuffer (crc : Crc32) extends LogState where
  remainder : crc.Remainder := crc.initial

section Checksum

variable {crc : Crc32}

namespace LogBuffer

/-- `process_bytes` and `WriteBuff` of the bytes in front of `cBuff`. -/
def flush (buffer : LogBuffer crc) : LogBuffer crc :=
  { buffer with
    log := buffer.log ++ buffer.buff
    remainder := crc.processBytes buffer.remainder buffer.buff }

/-- `cBuff = _buff`. -/
def rewind (buffer : LogBuffer crc) : LogBuffer crc := { buffer with buff := [] }

/-- A copy to `cBuff`, none if it goes beyond the buffer. -/
def copy (buffer : LogBuffer crc) (bytes : List Byte) : Option (LogBuffer crc) :=
  if buffSize < buffer.buff.length + bytes.length then none
  else some { buffer with buff := buffer.buff ++ bytes }

def pass (buffer : LogBuffer crc) (bytes : List Byte) : LogBuffer crc :=
  { buffer with
    log := buffer.log ++ bytes
    remainder := crc.processBytes buffer.remainder bytes }

def makeRoom (buffer : LogBuffer crc) (len : ℕ) : LogBuffer crc :=
  if buffSize < buffer.buff.length + len then buffer.flush.rewind else buffer

def writeRecord (buffer : LogBuffer crc) (bysVal : List Byte) : Option (LogBuffer crc) :=
  (buffer.makeRoom bysVal.length).copy bysVal

def writeOverflow (buffer : LogBuffer crc) (bysPage : List Byte) : Option (LogBuffer crc) :=
  let buffer := buffer.makeRoom (bysPage.length + 4)
  if buffSize < bysPage.length + 4 then
    some ((buffer.pass (writeLE 4 bysPage.length)).pass bysPage)
  else do
    let buffer ← buffer.copy (writeLE 4 bysPage.length)
    buffer.copy bysPage

def writeLeafRecord (buffer : LogBuffer crc) (lr : LeafRecord) : Option (LogBuffer crc) := do
  let buffer ← buffer.writeRecord lr.bysVal
  match lr.overflowPage with
  | none => return buffer
  | some ovPage => buffer.writeOverflow ovPage.bysPage

def writeTable (buffer : LogBuffer crc) (tbl : PhysTable) : Option (LogBuffer crc) := do
  let buffer := if buffer.buff.length < 4 * 2 + tbl.fullName.length then buffer.flush else buffer
  let buffer ← buffer.copy (writeLE 4 tbl.tid.toNat)
  let buffer ← buffer.copy (writeLE 4 tbl.fullName.length)
  let buffer ← buffer.copy tbl.fullName
  tbl.setRec.foldlM writeLeafRecord buffer

end LogBuffer

/-- `WriteDmlLog` on the buffer of `BUFF_SIZE` bytes. -/
def streamDmlLog (crc : Crc32) (tran : Transaction) : Option (List Byte) := do
  let size := UInt32.ofNat tran.mapSetRec.length
  let start : LogBuffer crc := {}
  let buffer ← start.copy (beginBytes tran.tid size)
  let buffer ← tran.mapSetRec.foldlM LogBuffer.writeTable buffer
  let buffer := buffer.flush
  return buffer.log ++ writeLE 4 (crc.checksum buffer.remainder)

/-! ## The plain log -/

/-- A record, and its overflow value with the length in front. -/
def plainRecord (lr : LeafRecord) : List Byte :=
  lr.bysVal ++ (lr.overflowPage.elim [] fun page =>
    writeLE 4 page.bysPage.length ++ page.bysPage)

def plainTable (tbl : PhysTable) : List Byte :=
  tableHeader tbl.tid tbl.fullName ++ tbl.setRec.flatMap plainRecord

/-- The bytes of a transaction one after the other. -/
def plainLog (tran : Transaction) : List Byte :=
  beginBytes tran.tid (UInt32.ofNat tran.mapSetRec.length) ++ tran.mapSetRec.flatMap plainTable

/-- The log is the plain log with its check sum. -/
def LogsPlain (crc : Crc32) (tran : Transaction) : Prop :=
  streamDmlLog crc tran = some (plainLog tran ++ writeLE 4 (crc.crc32 (plainLog tran)))

/-! ## What lies in the buffer -/

/-- How much lies in the buffer behind a record. -/
def recordFill (fill : ℕ) (lr : LeafRecord) : ℕ :=
  let len := lr.bysVal.length
  let fill := if buffSize < fill + len then len else fill + len
  match lr.overflowPage with
  | none => fill
  | some ovPage =>
      let len := ovPage.bysPage.length + 4
      if buffSize < len then 0 else if buffSize < fill + len then len else fill + len

/-- In front of every table header, nothing lies in the buffer or as much as the header is long, and
the header fits behind it. -/
def HeadersFit : ℕ → List PhysTable → Prop
  | _, [] => True
  | fill, tbl :: tbls =>
      let header := 4 * 2 + tbl.fullName.length
      (fill = 0 ∨ header ≤ fill) ∧ fill + header ≤ buffSize ∧
        HeadersFit (tbl.setRec.foldl recordFill (fill + header)) tbls

/-! ## The buffer keeps the bytes and their check sum -/

theorem Crc32.processBytes_append (remainder : crc.Remainder) (left right : List Byte) :
    crc.processBytes remainder (left ++ right) =
      crc.processBytes (crc.processBytes remainder left) right :=
  List.foldl_append

namespace LogBuffer

/-- The remainder is that of the bytes in the file, and the buffer is not left. -/
structure InStep (buffer : LogBuffer crc) : Prop where
  remainder : buffer.remainder = crc.processBytes crc.initial buffer.log
  fits : buffer.buff.length ≤ buffSize

variable {buffer buffer' : LogBuffer crc}

theorem InStep.flush (inStep : buffer.InStep) : buffer.flush.InStep := by
  refine ⟨?_, inStep.fits⟩
  simp [LogBuffer.flush, Crc32.processBytes_append, inStep.remainder]

theorem InStep.rewind (inStep : buffer.InStep) : buffer.rewind.InStep :=
  ⟨inStep.remainder, Nat.zero_le _⟩

theorem InStep.pass (inStep : buffer.InStep) (bytes : List Byte) : (buffer.pass bytes).InStep := by
  refine ⟨?_, inStep.fits⟩
  simp [LogBuffer.pass, Crc32.processBytes_append, inStep.remainder]

theorem InStep.makeRoom (inStep : buffer.InStep) (len : ℕ) : (buffer.makeRoom len).InStep := by
  unfold LogBuffer.makeRoom
  split
  · exact inStep.flush.rewind
  · exact inStep

theorem toLogState_makeRoom (buffer : LogBuffer crc) (len : ℕ) :
    (buffer.makeRoom len).toLogState = buffer.toLogState.makeRoom len := by
  unfold makeRoom LogState.makeRoom
  split <;> rfl

theorem copy_of_fits {bytes : List Byte} (fits : buffer.buff.length + bytes.length ≤ buffSize) :
    buffer.copy bytes = some { buffer with buff := buffer.buff ++ bytes } :=
  if_neg (by omega)

theorem copy_of_beyond {bytes : List Byte} (beyond : buffSize < buffer.buff.length + bytes.length) :
    buffer.copy bytes = none :=
  if_pos beyond

theorem InStep.copy (inStep : buffer.InStep) {bytes : List Byte}
    (copied : buffer.copy bytes = some buffer') : buffer'.InStep := by
  unfold LogBuffer.copy at copied
  split at copied
  · cases copied
  · rename_i fits
    cases copied
    refine ⟨inStep.remainder, ?_⟩
    simp only [List.length_append]
    omega

theorem copy_copy (buffer : LogBuffer crc) (left right : List Byte) :
    (do let buffer ← buffer.copy left
        buffer.copy right) = buffer.copy (left ++ right) := by
  by_cases fits : buffer.buff.length + left.length ≤ buffSize
  · rw [copy_of_fits fits, Option.bind_eq_bind, Option.bind_some]
    simp [LogBuffer.copy, Nat.add_assoc]
  · rw [copy_of_beyond (by omega), copy_of_beyond (by simp only [List.length_append]; omega)]
    rfl

theorem length_makeRoom {len : ℕ} (fits : len ≤ buffSize) :
    (buffer.makeRoom len).buff.length + len ≤ buffSize := by
  unfold makeRoom
  split
  · simpa [rewind] using fits
  · omega

/-- What a step of the writer does to the buffer: it ends in step, and as the state of the bytes
says. -/
def Reaches (buffer : Option (LogBuffer crc)) (state : LogState) : Prop :=
  ∃ after, buffer = some after ∧ after.InStep ∧ after.toLogState = state

theorem reaches_copy (inStep : buffer.InStep) {bytes : List Byte}
    (fits : buffer.buff.length + bytes.length ≤ buffSize) :
    Reaches (buffer.copy bytes) (buffer.toLogState.copy bytes) :=
  ⟨_, copy_of_fits fits, inStep.copy (copy_of_fits fits), rfl⟩

theorem reaches_writeRecord (inStep : buffer.InStep) {bysVal : List Byte}
    (fits : bysVal.length ≤ buffSize) :
    Reaches (buffer.writeRecord bysVal) (buffer.toLogState.writeRecord bysVal) := by
  have room := reaches_copy (inStep.makeRoom bysVal.length) (length_makeRoom fits)
  rw [toLogState_makeRoom] at room
  exact room

theorem reaches_writeOverflow (inStep : buffer.InStep) (bysPage : List Byte) :
    Reaches (buffer.writeOverflow bysPage) (buffer.toLogState.writeOverflow bysPage) := by
  have made := inStep.makeRoom (bysPage.length + 4)
  unfold writeOverflow LogState.writeOverflow
  dsimp only
  split
  · refine ⟨_, rfl, (made.pass _).pass _, ?_⟩
    rw [← toLogState_makeRoom]
    simp [pass]
  · rename_i fits
    rw [copy_copy, ← toLogState_makeRoom]
    apply reaches_copy made
    have room : (buffer.makeRoom (bysPage.length + 4)).buff.length + (bysPage.length + 4) ≤
        buffSize := length_makeRoom (by omega)
    simp only [List.length_append, length_writeLE]
    omega

theorem length_bysVal (lr : LogBytes.LeafRecord) : lr.bysVal.length ≤ buffSize := by
  have stored := fieldAt_lt 2 0 lr.bysVal
  rw [lr.actualLength.2] at stored
  unfold buffSize
  omega

theorem reaches_writeLeafRecord (inStep : buffer.InStep) (lr : LogBytes.LeafRecord) :
    Reaches (buffer.writeLeafRecord lr) (LogBytes.writeLeafRecord buffer.toLogState lr) := by
  rcases reaches_writeRecord inStep (length_bysVal lr) with ⟨after, written, made, same⟩
  unfold writeLeafRecord LogBytes.writeLeafRecord
  rw [written, ← same]
  cases lr.overflowPage with
  | none => exact ⟨after, rfl, made, rfl⟩
  | some ovPage => exact reaches_writeOverflow made ovPage.bysPage

theorem reaches_records (inStep : buffer.InStep) (setRec : List LogBytes.LeafRecord) :
    Reaches (setRec.foldlM writeLeafRecord buffer)
      (setRec.foldl LogBytes.writeLeafRecord buffer.toLogState) := by
  induction setRec generalizing buffer with
  | nil => exact ⟨buffer, rfl, inStep, rfl⟩
  | cons lr setRec ih =>
      rcases reaches_writeLeafRecord inStep lr with ⟨after, written, made, same⟩
      rw [List.foldlM_cons, written, List.foldl_cons, ← same]
      exact ih made

/-- A table is written as the states of the bytes say, and not at all if its header goes beyond the
buffer. -/
theorem writeTable_spec (inStep : buffer.InStep) (tbl : PhysTable) :
    (LogBytes.writeTable buffer.toLogState tbl = none ∧ buffer.writeTable tbl = none) ∨
      ∃ state, LogBytes.writeTable buffer.toLogState tbl = some state ∧
        Reaches (buffer.writeTable tbl) state := by
  have headers (buffer : LogBuffer crc) : buffer.copy (tableHeader tbl.tid tbl.fullName) = (do
      let buffer ← buffer.copy (writeLE 4 tbl.tid.toNat)
      let buffer ← buffer.copy (writeLE 4 tbl.fullName.length)
      buffer.copy tbl.fullName) := by
    unfold tableHeader
    rw [← copy_copy]
    simp only [copy_copy]
  have length : (tableHeader tbl.tid tbl.fullName).length = 4 * 2 + tbl.fullName.length := by
    simp only [tableHeader, List.length_append, length_writeLE]
    omega
  have written : buffer.writeTable tbl = (do
      let buffer :=
        if buffer.buff.length < 4 * 2 + tbl.fullName.length then buffer.flush else buffer
      let buffer ← buffer.copy (tableHeader tbl.tid tbl.fullName)
      tbl.setRec.foldlM writeLeafRecord buffer) := by
    unfold writeTable
    simp only [headers, bind_assoc]
  have flushed : (if buffer.buff.length < 4 * 2 + tbl.fullName.length then buffer.flush
      else buffer).InStep := by
    split
    · exact inStep.flush
    · exact inStep
  have state : (if buffer.buff.length < 4 * 2 + tbl.fullName.length then buffer.toLogState.writeBuff
      else buffer.toLogState) =
      (if buffer.buff.length < 4 * 2 + tbl.fullName.length then buffer.flush
        else buffer).toLogState := by
    split <;> rfl
  rw [written]
  unfold LogBytes.writeTable
  dsimp only
  rw [state]
  generalize (if buffer.buff.length < 4 * 2 + tbl.fullName.length then buffer.flush else buffer) =
    middle at flushed
  by_cases beyond : buffSize < middle.buff.length + (4 * 2 + tbl.fullName.length)
  · left
    rw [if_pos beyond, copy_of_beyond (by omega)]
    exact ⟨rfl, rfl⟩
  · right
    rw [if_neg beyond]
    refine ⟨_, rfl, ?_⟩
    have room : middle.buff.length + (tableHeader tbl.tid tbl.fullName).length ≤ buffSize := by
      omega
    rcases reaches_copy flushed room with ⟨after, copied, made, same⟩
    rw [copied, ← same]
    exact reaches_records made tbl.setRec

theorem writeTables_spec (inStep : buffer.InStep) (tables : List PhysTable) :
    (tables.foldlM LogBytes.writeTable buffer.toLogState = none ∧
        tables.foldlM writeTable buffer = none) ∨
      ∃ state, tables.foldlM LogBytes.writeTable buffer.toLogState = some state ∧
        Reaches (tables.foldlM writeTable buffer) state := by
  induction tables generalizing buffer with
  | nil => exact Or.inr ⟨_, rfl, buffer, rfl, inStep, rfl⟩
  | cons tbl tables ih =>
      rw [List.foldlM_cons, List.foldlM_cons]
      rcases writeTable_spec inStep tbl with
        ⟨none, nothing⟩ | ⟨state, written, after, copied, made, rfl⟩
      · rw [none, nothing]
        exact Or.inl ⟨rfl, rfl⟩
      · rw [written, copied]
        exact ih made

end LogBuffer

theorem streamDmlLog_eq (tran : Transaction) :
    streamDmlLog crc tran = writeDmlLog crc.crc32 tran := by
  unfold streamDmlLog writeDmlLog
  dsimp only
  generalize UInt32.ofNat tran.mapSetRec.length = size
  have start : LogBuffer.copy ({} : LogBuffer crc) (beginBytes tran.tid size) =
      some { buff := beginBytes tran.tid size } :=
    LogBuffer.copy_of_fits (by simp [beginBytes, buffSize])
  have inStep : LogBuffer.InStep ({ buff := beginBytes tran.tid size } : LogBuffer crc) :=
    LogBuffer.InStep.copy ⟨rfl, Nat.zero_le _⟩ start
  rw [start, Option.bind_eq_bind, Option.bind_some]
  rcases LogBuffer.writeTables_spec inStep tran.mapSetRec with
    ⟨none, nothing⟩ | ⟨state, written, after, copied, made, rfl⟩
  · rw [none, nothing]
    rfl
  · rw [written, copied, Option.bind_eq_bind, Option.bind_some, Option.bind_some,
      made.flush.remainder]
    rfl

/-! ## The buffered log and the plain one -/

theorem length_makeRoom_buff (state : LogState) (len : ℕ) :
    (state.makeRoom len).buff.length =
      if buffSize < state.buff.length + len then 0 else state.buff.length := by
  unfold LogState.makeRoom
  split <;> rfl

theorem said_writeLeafRecord (state : LogState) (lr : LeafRecord) :
    (writeLeafRecord state lr).said = state.said ++ plainRecord lr := by
  have record : (state.writeRecord lr.bysVal).said = state.said ++ lr.bysVal := by
    unfold LogState.writeRecord
    rw [said_copy, said_makeRoom]
  unfold writeLeafRecord plainRecord
  cases lr.overflowPage with
  | none => simp [record]
  | some ovPage => simp [said_writeOverflow, record]

theorem length_writeOverflow (state : LogState) (bysPage : List Byte) :
    (state.writeOverflow bysPage).buff.length =
      if buffSize < bysPage.length + 4 then 0
      else if buffSize < state.buff.length + (bysPage.length + 4) then bysPage.length + 4
      else state.buff.length + (bysPage.length + 4) := by
  have room := length_makeRoom_buff state (bysPage.length + 4)
  unfold LogState.writeOverflow
  dsimp only
  split
  · rename_i long
    rw [room, if_pos (by omega)]
  · simp only [LogState.copy, List.length_append, length_writeLE, room]
    split <;> omega

theorem length_writeLeafRecord (state : LogState) (lr : LeafRecord) :
    (writeLeafRecord state lr).buff.length = recordFill state.buff.length lr := by
  have record : (state.writeRecord lr.bysVal).buff.length =
      if buffSize < state.buff.length + lr.bysVal.length then lr.bysVal.length
      else state.buff.length + lr.bysVal.length := by
    simp only [LogState.writeRecord, LogState.copy, List.length_append, length_makeRoom_buff]
    split <;> omega
  unfold writeLeafRecord recordFill
  cases lr.overflowPage with
  | none => exact record
  | some ovPage =>
      dsimp only
      rw [length_writeOverflow, record]

theorem said_records (state : LogState) (setRec : List LeafRecord) :
    (setRec.foldl writeLeafRecord state).said = state.said ++ setRec.flatMap plainRecord := by
  induction setRec generalizing state with
  | nil => simp
  | cons lr setRec ih => simp [ih, said_writeLeafRecord]

theorem length_records (state : LogState) (setRec : List LeafRecord) :
    (setRec.foldl writeLeafRecord state).buff.length =
      setRec.foldl recordFill state.buff.length := by
  induction setRec generalizing state with
  | nil => rfl
  | cons lr setRec ih => rw [List.foldl_cons, ih, length_writeLeafRecord, List.foldl_cons]

/-- The bytes that the header of a table writes twice. -/
def twice (fill header : ℕ) : ℕ := if fill < header then fill else 0

/-- A table is written behind what has been said, with the bytes of the buffer once more where its
header is longer than they are. -/
theorem writeTable_plain {state state' : LogState} {tbl : PhysTable}
    (written : writeTable state tbl = some state') :
    state.buff.length + (4 * 2 + tbl.fullName.length) ≤ buffSize ∧
      state'.buff.length =
        tbl.setRec.foldl recordFill (state.buff.length + (4 * 2 + tbl.fullName.length)) ∧
      state'.said =
        state.said ++ (state.buff.take (twice state.buff.length (4 * 2 + tbl.fullName.length)) ++
          plainTable tbl) := by
  have header : (tableHeader tbl.tid tbl.fullName).length = 4 * 2 + tbl.fullName.length := by
    simp only [tableHeader, List.length_append, length_writeLE]
    omega
  have fill : ((state.copy (tableHeader tbl.tid tbl.fullName)).buff.length =
      state.buff.length + (4 * 2 + tbl.fullName.length)) := by
    simp only [LogState.copy, List.length_append, header]
  unfold writeTable at written
  unfold twice plainTable
  dsimp only at written
  by_cases less : state.buff.length < 4 * 2 + tbl.fullName.length
  · rw [if_pos less] at written ⊢
    rcases Option.ite_none_left_eq_some.mp written with ⟨fits, same⟩
    cases same
    refine ⟨Nat.le_of_not_lt fits, ?_, ?_⟩
    · rw [length_records]
      exact congrArg (fun fill => tbl.setRec.foldl recordFill fill) fill
    · rw [said_records, said_copy]
      simp [LogState.said, LogState.writeBuff]
  · rw [if_neg less] at written ⊢
    rcases Option.ite_none_left_eq_some.mp written with ⟨fits, same⟩
    cases same
    refine ⟨Nat.le_of_not_lt fits, ?_, ?_⟩
    · rw [length_records, fill]
    · rw [said_records, said_copy]
      simp

theorem writeTables_plain {state state' : LogState} {tables : List PhysTable}
    (written : tables.foldlM writeTable state = some state') :
    state.said.length + (tables.flatMap plainTable).length ≤ state'.said.length ∧
      (state'.said.length = state.said.length + (tables.flatMap plainTable).length →
        HeadersFit state.buff.length tables) := by
  induction tables generalizing state with
  | nil =>
      cases written
      exact ⟨by simp, fun _ => trivial⟩
  | cons tbl tables ih =>
      rw [List.foldlM_cons] at written
      rcases Option.bind_eq_some_iff.mp written with ⟨middle, first, rest⟩
      rcases writeTable_plain first with ⟨fits, fill, said⟩
      rcases ih rest with ⟨more, headers⟩
      have length := congrArg List.length said
      simp only [List.length_append, List.length_take, List.flatMap_cons] at length more ⊢
      refine ⟨by omega, fun same => ⟨?_, fits, ?_⟩⟩
      · unfold twice at length
        split at length <;> omega
      · rw [← fill]
        exact headers (by omega)

theorem writeTables_of_fit {state : LogState} {tables : List PhysTable}
    (fit : HeadersFit state.buff.length tables) :
    ∃ state', tables.foldlM writeTable state = some state' ∧
      state'.said = state.said ++ tables.flatMap plainTable := by
  induction tables generalizing state with
  | nil => exact ⟨state, rfl, by simp⟩
  | cons tbl tables ih =>
      rcases fit with ⟨enough, fits, rest⟩
      have written : ∃ middle, writeTable state tbl = some middle := by
        unfold writeTable
        dsimp only
        refine ⟨_, if_neg ?_⟩
        split
        · exact Nat.not_lt.mpr fits
        · exact Nat.not_lt.mpr fits
      rcases written with ⟨middle, first⟩
      rcases writeTable_plain first with ⟨-, fill, said⟩
      rw [← fill] at rest
      rcases ih rest with ⟨last, others, plain⟩
      have once : state.buff.take (twice state.buff.length (4 * 2 + tbl.fullName.length)) = [] := by
        unfold twice
        split
        · have empty : state.buff.length = 0 := by omega
          simp [List.length_eq_zero_iff.mp empty]
        · simp
      rw [List.foldlM_cons, first]
      refine ⟨last, others, ?_⟩
      rw [plain, said, once]
      simp

theorem writeDmlLog_of_tables (crc32 : List Byte → ℕ) {tran : Transaction} {state : LogState}
    (written : tran.mapSetRec.foldlM writeTable
      { buff := beginBytes tran.tid (UInt32.ofNat tran.mapSetRec.length) } = some state) :
    writeDmlLog crc32 tran = some (state.said ++ writeLE 4 (crc32 state.said)) := by
  unfold writeDmlLog
  rw [written]
  rfl

/-- The log is the plain log with its check sum exactly if every header finds nothing in the buffer
or at least as much as it is long, and fits behind it. -/
theorem logsPlain_iff (crc : Crc32) (tran : Transaction) :
    LogsPlain crc tran ↔ HeadersFit 13 tran.mapSetRec := by
  have start : (beginBytes tran.tid (UInt32.ofNat tran.mapSetRec.length)).length = 13 := by
    simp [beginBytes]
  unfold LogsPlain
  rw [streamDmlLog_eq]
  refine ⟨fun logged => ?_, fun fit => ?_⟩
  · have logged' := logged
    unfold writeDmlLog at logged'
    rcases Option.bind_eq_some_iff.mp logged' with ⟨state, written, -⟩
    rw [writeDmlLog_of_tables _ written] at logged
    have length := congrArg List.length (Option.some.inj logged)
    simp only [plainLog, List.length_append, length_writeLE] at length
    have fit := (writeTables_plain written).2
    simp only [LogState.said, List.nil_append, start] at fit length
    exact fit (by simpa using length)
  · rw [← start] at fit
    have written : ∃ state, tran.mapSetRec.foldlM writeTable
          { buff := beginBytes tran.tid (UInt32.ofNat tran.mapSetRec.length) } = some state ∧
        state.said = plainLog tran := writeTables_of_fit fit
    rcases written with ⟨state, written, said⟩
    rw [writeDmlLog_of_tables _ written, said]

end Checksum

/-- The reflected CRC-32 with its remainder. -/
def reflectedCrc32 : Crc32 where
  Remainder := ℕ
  initial := 0xFFFFFFFF
  processByte := crc32Byte
  checksum remainder := remainder ^^^ 0xFFFFFFFF

/-- The name of the first table is one byte too long for the thirteen bytes in front of it. -/
theorem not_logsPlain : ¬∀ tran : Transaction, LogsPlain reflectedCrc32 tran := by
  intro always
  have logged := always ⟨1, [⟨2, [100, 98, 46, 116, 97, 98], [shortRecord]⟩]⟩
  revert logged
  unfold LogsPlain
  decide +kernel

end LogBytes

end RapidDb
