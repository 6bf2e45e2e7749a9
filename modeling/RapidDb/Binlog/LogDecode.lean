import RapidDb.Binlog.LogBytes

/-!
# Reading the log

Pieces of one kind tell where they end: the lengths of names, records and overflow values are in the
log. So two histories have the same log only if a piece of one imitates a piece of another kind of
the other one. A record imitates the header of a table in the two histories at the end.
-/

namespace RapidDb

open Bytes

namespace LogBytes

section Checksum

variable {crc32 : List Byte → ℕ} {state state' : LogState}

/-! ## Pieces of one kind -/

/-- What the lengths in the log can tell. -/
def Piece.Valid : Piece → Prop
  | .table _ fullName => fullName.length < 2 ^ 32
  | .record bysVal => 2 ≤ bysVal.length ∧ fieldAt 2 0 bysVal = bysVal.length
  | .overflow bysPage => bysPage.length < 2 ^ 32
  | _ => True

theorem writeLE_inj {width value1 value2 : ℕ} (less1 : value1 < 256 ^ width)
    (less2 : value2 < 256 ^ width) (same : writeLE width value1 = writeLE width value2) :
    value1 = value2 := by
  have read := congrArg (readLE width) same
  rwa [readLE_writeLE, readLE_writeLE, Nat.mod_eq_of_lt less1, Nat.mod_eq_of_lt less2] at read

theorem counted_inj {bytes1 bytes2 rest1 rest2 : List Byte} (less1 : bytes1.length < 2 ^ 32)
    (less2 : bytes2.length < 2 ^ 32)
    (same : writeLE 4 bytes1.length ++ (bytes1 ++ rest1) =
      writeLE 4 bytes2.length ++ (bytes2 ++ rest2)) : bytes1 = bytes2 := by
  rcases List.append_inj same (by simp) with ⟨lengths, strings⟩
  have equal := writeLE_inj (by omega) (by omega) lengths
  exact (List.append_inj strings equal).1

theorem readLE_take (width : ℕ) (buffer : List Byte) :
    readLE width (buffer.take width) = readLE width buffer := by
  induction width generalizing buffer with
  | zero => rfl
  | succ width ih =>
      cases buffer with
      | nil => rfl
      | cons byte buffer => simp [readLE, ih]

theorem record_inj {bytes1 bytes2 rest1 rest2 : List Byte}
    (valid1 : (Piece.record bytes1).Valid) (valid2 : (Piece.record bytes2).Valid)
    (same : bytes1 ++ rest1 = bytes2 ++ rest2) : bytes1 = bytes2 := by
  have front : bytes1.take 2 = bytes2.take 2 := by
    have both := congrArg (List.take 2) same
    rwa [List.take_append_of_le_length valid1.1, List.take_append_of_le_length valid2.1] at both
  have equal : bytes1.length = bytes2.length := by
    rw [← valid1.2, ← valid2.2]
    unfold fieldAt
    rw [List.drop_zero, List.drop_zero, ← readLE_take, front, readLE_take]
  exact (List.append_inj same equal).1

theorem prefixFree : (logFormat crc32).PrefixFree Piece.kind Piece.Valid := by
  intro state left right rest others validLeft validRight sameKind same
  cases left <;> cases right <;> first | (cases sameKind; done) | skip
  case start.start tid size tid' size' =>
    have bytes : beginBytes tid size = beginBytes tid' size' :=
      (List.append_inj same (by simp [logFormat, pieceBytes, beginBytes])).1
    rcases List.append_inj bytes (by simp) with ⟨tids, sizes⟩
    have tidEq := writeLE_inj (by simpa using tid.toNat_lt) (by simpa using tid'.toNat_lt) tids
    have sizeEq := writeLE_inj (by simpa using size.toNat_lt) (by simpa using size'.toNat_lt)
      (List.cons.inj sizes).2
    rw [UInt64.toNat_inj.mp tidEq, UInt32.toNat_inj.mp sizeEq]
  case again.again => rfl
  case table.table tid fullName tid' fullName' =>
    have bytes : tableHeader tid fullName ++ rest = tableHeader tid' fullName' ++ others := same
    simp only [tableHeader, List.append_assoc] at bytes
    rcases List.append_inj bytes (by simp) with ⟨tids, names⟩
    have tidEq := writeLE_inj (by simpa using tid.toNat_lt) (by simpa using tid'.toNat_lt) tids
    rw [UInt32.toNat_inj.mp tidEq, counted_inj validLeft validRight names]
  case record.record bysVal bysVal' => rw [record_inj validLeft validRight same]
  case overflow.overflow bysPage bysPage' =>
    simp only [logFormat, pieceBytes, List.append_assoc] at same
    rw [counted_inj validLeft validRight same]
  case checksum.checksum => rfl

/-! ## The writer writes the pieces -/

theorem said_makeRoom (state : LogState) (len : ℕ) : (state.makeRoom len).said = state.said := by
  unfold LogState.makeRoom
  split
  · simp [LogState.said, LogState.reset, LogState.writeBuff]
  · rfl

theorem said_copy (state : LogState) (bytes : List Byte) :
    (state.copy bytes).said = state.said ++ bytes := by
  simp [LogState.said, LogState.copy]

theorem said_writeOverflow (state : LogState) (bysPage : List Byte) :
    (state.writeOverflow bysPage).said =
      state.said ++ (writeLE 4 bysPage.length ++ bysPage) := by
  unfold LogState.writeOverflow
  dsimp only
  split
  · rename_i long
    have flushed : (state.makeRoom (bysPage.length + 4)).buff = [] := by
      unfold LogState.makeRoom
      rw [if_pos (by omega)]
      rfl
    rw [← said_makeRoom state (bysPage.length + 4)]
    simp [LogState.said, flushed]
  · rw [said_copy, said_makeRoom]

theorem said_pieceStep (crc32 : List Byte → ℕ) (state : LogState) {piece : Piece}
    (notStart : piece.kind ≠ .start) :
    (pieceStep crc32 state piece).said = state.said ++ pieceBytes crc32 state piece := by
  cases piece with
  | start => exact absurd rfl notStart
  | again => rfl
  | table tid fullName => exact said_copy state _
  | record bysVal =>
      unfold pieceStep LogState.writeRecord
      rw [said_copy, said_makeRoom]
      rfl
  | overflow bysPage => exact said_writeOverflow state bysPage
  | checksum => simp [pieceStep, pieceBytes, LogState.said]

theorem said_run (crc32 : List Byte → ℕ) (state : LogState) {list : List Piece}
    (noStart : ∀ piece ∈ list, piece.kind ≠ .start) :
    ((logFormat crc32).run state list).said =
      state.said ++ (logFormat crc32).render state list := by
  induction list generalizing state with
  | nil => simp [TokenFormat.run, TokenFormat.render]
  | cons piece list ih =>
      have step := said_pieceStep crc32 state (noStart piece (by simp))
      have rest := ih (pieceStep crc32 state piece) fun other mem => noStart other (by simp [mem])
      rw [step, List.append_assoc] at rest
      exact rest

theorem recordPieces_noStart (lr : LeafRecord) :
    ∀ piece ∈ recordPieces lr, piece.kind ≠ .start := by
  intro piece mem
  unfold recordPieces at mem
  rcases List.mem_cons.mp mem with rfl | mem
  · simp [Piece.kind]
  · rw [Option.mem_toList, Option.map_eq_some_iff] at mem
    rcases mem with ⟨page, -, rfl⟩
    simp [Piece.kind]

theorem run_recordPieces (state : LogState) (lr : LeafRecord) :
    (logFormat crc32).run state (recordPieces lr) = writeLeafRecord state lr := by
  unfold recordPieces writeLeafRecord
  cases lr.overflowPage <;> rfl

theorem run_records (state : LogState) (setRec : List LeafRecord) :
    (logFormat crc32).run state (setRec.flatMap recordPieces) =
      setRec.foldl writeLeafRecord state := by
  induction setRec generalizing state with
  | nil => rfl
  | cons lr setRec ih =>
      rw [List.flatMap_cons, TokenFormat.run_append, run_recordPieces, ih]
      rfl

theorem tablePieces_noStart (state : LogState) (tbl : PhysTable) :
    ∀ piece ∈ tablePieces state tbl, piece.kind ≠ .start := by
  intro piece mem
  unfold tablePieces at mem
  rcases List.mem_append.mp mem with mem | mem
  · split at mem
    · rw [List.mem_singleton.mp mem]
      simp [Piece.kind]
    · cases mem
  · rcases List.mem_cons.mp mem with rfl | mem
    · simp [Piece.kind]
    · rcases List.mem_flatMap.mp mem with ⟨lr, -, mem⟩
      exact recordPieces_noStart lr piece mem

theorem writeTable_spec (crc32 : List Byte → ℕ) {tbl : PhysTable}
    (written : writeTable state tbl = some state') :
    state' = (logFormat crc32).run state (tablePieces state tbl) ∧
      tbl.fullName.length ≤ buffSize := by
  have flushed : (logFormat crc32).run state
      (if state.buff.length < 4 * 2 + tbl.fullName.length then [.again] else []) =
        if state.buff.length < 4 * 2 + tbl.fullName.length then state.writeBuff else state := by
    split <;> rfl
  unfold writeTable at written
  rw [← flushed] at written
  unfold tablePieces
  rw [TokenFormat.run_append]
  generalize (logFormat crc32).run state _ = middle at written ⊢
  dsimp only at written
  split at written
  · cases written
  · rename_i fits
    cases written
    exact ⟨(run_records _ _).symm, by omega⟩

theorem tablesPieces_spec {tables : List PhysTable}
    (written : tables.foldlM writeTable state = some state') :
    state.said ++ (logFormat crc32).render state (tablesPieces crc32 state tables) =
      state'.said ++ writeLE 4 (crc32 state'.said) ∧
    ∀ tbl ∈ tables, tbl.fullName.length ≤ buffSize := by
  induction tables generalizing state with
  | nil =>
      cases written
      simp [tablesPieces, TokenFormat.render, logFormat, pieceBytes]
  | cons tbl tables ih =>
      rw [List.foldlM_cons] at written
      rcases Option.bind_eq_some_iff.mp written with ⟨middle, first, rest⟩
      rcases writeTable_spec crc32 first with ⟨rfl, fits⟩
      rcases ih rest with ⟨said, fitsRest⟩
      refine ⟨?_, ?_⟩
      · rw [tablesPieces, TokenFormat.render_append, ← List.append_assoc,
          ← said_run crc32 state (tablePieces_noStart state tbl)]
        exact said
      · intro other mem
        rcases List.mem_cons.mp mem with rfl | mem
        · exact fits
        · exact fitsRest other mem

theorem writeDmlLog_spec {tran : Transaction} {bytes : List Byte}
    (written : writeDmlLog crc32 tran = some bytes) (state : LogState) :
    (logFormat crc32).render state (tranPieces crc32 tran) = bytes ∧
      ∀ tbl ∈ tran.mapSetRec, tbl.fullName.length ≤ buffSize := by
  rcases Option.bind_eq_some_iff.mp written with ⟨last, tables, same⟩
  cases same
  rcases tablesPieces_spec tables with ⟨said, fits⟩
  exact ⟨said, fits⟩

theorem writeLog_cons {tran : Transaction} {trans : List Transaction} {bytes : List Byte}
    (written : writeLog crc32 (tran :: trans) = some bytes) :
    ∃ first rest, writeDmlLog crc32 tran = some first ∧ writeLog crc32 trans = some rest ∧
      bytes = first ++ rest := by
  unfold writeLog at written
  rw [List.mapM_cons] at written
  rcases Option.map_eq_some_iff.mp written with ⟨parts, all, same⟩
  rcases Option.bind_eq_some_iff.mp all with ⟨first, head, others⟩
  rcases Option.bind_eq_some_iff.mp others with ⟨rest, tail, last⟩
  cases last
  refine ⟨first, rest.flatten, head, ?_, ?_⟩
  · unfold writeLog
    rw [tail]
    rfl
  · rw [← same]
    rfl

theorem writeLog_spec {trans : List Transaction} {bytes : List Byte}
    (written : writeLog crc32 trans = some bytes) (state : LogState) :
    (logFormat crc32).render state (pieces crc32 trans) = bytes ∧
      ∀ tran ∈ trans, ∀ tbl ∈ tran.mapSetRec, tbl.fullName.length ≤ buffSize := by
  induction trans generalizing bytes state with
  | nil =>
      cases written
      exact ⟨rfl, by simp⟩
  | cons tran trans ih =>
      rcases writeLog_cons written with ⟨first, rest, head, tail, rfl⟩
      rcases writeDmlLog_spec head state with ⟨render, fits⟩
      have others := ih tail ((logFormat crc32).run state (tranPieces crc32 tran))
      refine ⟨?_, ?_⟩
      · unfold pieces
        rw [List.flatMap_cons, TokenFormat.render_append, render]
        exact congrArg _ others.1
      · intro other mem
        rcases List.mem_cons.mp mem with rfl | mem
        · exact fits
        · exact others.2 other mem

/-! ## What the pieces tell -/

theorem recordPieces_valid (lr : LeafRecord) : ∀ piece ∈ recordPieces lr, piece.Valid := by
  intro piece mem
  unfold recordPieces at mem
  rcases List.mem_cons.mp mem with rfl | mem
  · exact lr.actualLength
  · rw [Option.mem_toList, Option.map_eq_some_iff] at mem
    rcases mem with ⟨page, found, rfl⟩
    rcases lr.pageSize page found with ⟨pages, size⟩
    change page.bysPage.length < 2 ^ 32
    rw [size, indexPageSize]
    omega

theorem tablePieces_valid (state : LogState) {tbl : PhysTable}
    (fits : tbl.fullName.length ≤ buffSize) :
    ∀ piece ∈ tablePieces state tbl, piece.Valid := by
  intro piece mem
  unfold tablePieces at mem
  rcases List.mem_append.mp mem with mem | mem
  · split at mem
    · rw [List.mem_singleton.mp mem]
      trivial
    · cases mem
  · rcases List.mem_cons.mp mem with rfl | mem
    · change tbl.fullName.length < 2 ^ 32
      unfold buffSize at fits
      omega
    · rcases List.mem_flatMap.mp mem with ⟨lr, -, mem⟩
      exact recordPieces_valid lr piece mem

theorem tablesPieces_valid (state : LogState) {tables : List PhysTable}
    (fits : ∀ tbl ∈ tables, tbl.fullName.length ≤ buffSize) :
    ∀ piece ∈ tablesPieces crc32 state tables, piece.Valid := by
  induction tables generalizing state with
  | nil => simp [tablesPieces, Piece.Valid]
  | cons tbl tables ih =>
      intro piece mem
      rw [tablesPieces] at mem
      rcases List.mem_append.mp mem with mem | mem
      · exact tablePieces_valid state (fits tbl (by simp)) piece mem
      · exact ih _ (fun other mem => fits other (by simp [mem])) piece mem

theorem pieces_valid {trans : List Transaction}
    (fits : ∀ tran ∈ trans, ∀ tbl ∈ tran.mapSetRec, tbl.fullName.length ≤ buffSize) :
    ∀ piece ∈ pieces crc32 trans, piece.Valid := by
  intro piece mem
  rcases List.mem_flatMap.mp mem with ⟨tran, member, mem⟩
  rcases List.mem_cons.mp mem with rfl | mem
  · trivial
  · exact tablesPieces_valid _ (fits tran member) piece mem

theorem tablesPieces_closed (crc32 : List Byte → ℕ) (state : LogState) (tables : List PhysTable) :
    (tablesPieces crc32 state tables).getLast? = some .checksum := by
  induction tables generalizing state with
  | nil => rfl
  | cons tbl tables ih => rw [tablesPieces, List.getLast?_append, ih, Option.some_or]

theorem pieces_closed (trans : List Transaction) :
    TokenFormat.Closed Piece.checksum (pieces crc32 trans) := by
  induction trans with
  | nil => exact Or.inl rfl
  | cons tran trans ih =>
      right
      unfold pieces
      rw [List.flatMap_cons, List.getLast?_append]
      rcases ih with empty | ends
      · unfold pieces at empty
        rw [empty]
        unfold tranPieces
        rw [List.getLast?_cons, tablesPieces_closed]
        rfl
      · unfold pieces at ends
        rw [ends, Option.some_or]

/-- What has been read of a log, the end of it first. -/
structure Reading where
  trans : List (UInt64 × List TableView) := []
  tables : List TableView := []
  records : List (List Byte × Option (List Byte)) := []
  overflow : Option (List Byte) := none

def collect : Piece → Reading → Reading
  | .start tid _, reading => { trans := (tid, reading.tables) :: reading.trans }
  | .again, reading => reading
  | .table tid fullName, reading =>
      { reading with tables := (tid, fullName, reading.records) :: reading.tables, records := [] }
  | .record bysVal, reading =>
      { reading with records := (bysVal, reading.overflow) :: reading.records, overflow := none }
  | .overflow bysPage, reading => { reading with overflow := some bysPage }
  | .checksum, reading => reading

theorem collect_records (setRec : List LeafRecord) (reading : Reading)
    (none : reading.overflow = none) :
    (setRec.flatMap recordPieces).foldr collect reading =
      { reading with records := setRec.map LeafRecord.view ++ reading.records } := by
  induction setRec with
  | nil => rfl
  | cons lr setRec ih =>
      rw [List.flatMap_cons, List.foldr_append, ih, List.map_cons, LeafRecord.view]
      unfold recordPieces
      cases lr.overflowPage <;> simp [collect, none]

theorem collect_table (state : LogState) (tbl : PhysTable) (reading : Reading)
    (noRecords : reading.records = []) (none : reading.overflow = none) :
    (tablePieces state tbl).foldr collect reading =
      { reading with tables := tbl.view :: reading.tables } := by
  unfold tablePieces
  rw [List.foldr_append, List.foldr_cons, collect_records tbl.setRec reading none]
  split <;> simp [collect, noRecords, PhysTable.view]

theorem collect_tables (crc32 : List Byte → ℕ) (state : LogState) (tables : List PhysTable)
    (trans : List (UInt64 × List TableView)) :
    (tablesPieces crc32 state tables).foldr collect { trans := trans } =
      { trans := trans, tables := tables.map PhysTable.view } := by
  induction tables generalizing state with
  | nil => rfl
  | cons tbl tables ih =>
      rw [tablesPieces, List.foldr_append, ih, collect_table state tbl _ rfl rfl]
      rfl

theorem collect_pieces (trans : List Transaction) :
    (pieces crc32 trans).foldr collect {} = { trans := trans.map Transaction.view } := by
  induction trans with
  | nil => rfl
  | cons tran trans ih =>
      unfold pieces at ih ⊢
      rw [List.flatMap_cons, List.foldr_append, ih]
      unfold tranPieces
      dsimp only
      rw [List.foldr_cons, collect_tables]
      rfl

/-- Two histories of which no piece imitates one of another kind where they begin to differ have
different logs. -/
theorem decodable_of_apart (crc32 : List Byte → ℕ) (left right : List Transaction)
    (apart : Apart crc32 left right) : Decodable crc32 left right := by
  intro bytes leftWritten rightWritten
  rcases writeLog_spec leftWritten {} with ⟨leftRender, leftFits⟩
  rcases writeLog_spec rightWritten {} with ⟨rightRender, rightFits⟩
  have nonempty : ∀ state, (logFormat crc32).bytes state .checksum ≠ [] := by
    intro state empty
    have length := congrArg List.length empty
    simp [logFormat, pieceBytes] at length
  have same : pieces crc32 left = pieces crc32 right :=
    TokenFormat.eq_of_render_eq prefixFree nonempty (pieces_valid leftFits)
      (pieces_valid rightFits) (pieces_closed left) (pieces_closed right) apart
      (leftRender.trans rightRender.symm)
  have reading := congrArg (List.foldr collect {}) same
  rw [collect_pieces, collect_pieces] at reading
  exact congrArg Reading.trans reading

end Checksum

def shortRecord : LeafRecord where
  indexType := .primary
  bysVal := [19, 0, 1, 0, 7, 1] ++ [1, 0, 0, 0, 0, 0, 0, 0] ++ [1, 0, 0, 0] ++ [9]
  overflowPage := none
  actualLength := by decide +kernel
  hasOverflowPage := by decide +kernel
  pageSize := by simp

/-- One record more, and another transaction behind it. -/
theorem decodable_of_apart_shorter :
    let left : List Transaction := [⟨1, [⟨256, [100, 46, 115], [shortRecord]⟩]⟩, ⟨2, []⟩]
    let right : List Transaction := [⟨1, [⟨256, [100, 46, 115], [shortRecord, shortRecord]⟩]⟩]
    (writeLog crc32 left).isSome = true ∧ (writeLog crc32 right).isSome = true ∧
      Decodable crc32 left right :=
  ⟨by decide +kernel, by decide +kernel, decodable_of_apart crc32 _ _ (by decide +kernel)⟩

/-- The key of a record begins with the length of a name and the name, and its value is the middle
of another record. -/
def imitating : LeafRecord where
  indexType := .primary
  bysVal := [0, 1, 11, 0] ++ [3, 0, 0, 0, 100, 46, 117, 0, 1, 13, 0] ++ [1] ++
    [1, 0, 0, 0, 0, 0, 0, 0] ++ [228, 0, 0, 0] ++ [1, 1, 0, 0, 0, 0, 0, 0, 0, 226, 0, 0, 0] ++
      List.replicate 215 7
  overflowPage := none
  actualLength := by decide +kernel
  hasOverflowPage := by decide +kernel
  pageSize := by simp

/-- The record that is read from the end of the other one and the table header behind it. -/
def imitated : LeafRecord where
  indexType := .primary
  bysVal := [0, 1, 13, 0] ++ [1, 1, 0, 0, 0, 0, 0, 0, 0, 228, 0, 0, 0] ++ [1] ++
    [1, 0, 0, 0, 0, 0, 0, 0] ++ [226, 0, 0, 0] ++ List.replicate 215 7 ++
      [0, 2, 0, 0, 3, 0, 0, 0, 100, 46, 116]
  overflowPage := none
  actualLength := by decide +kernel
  hasOverflowPage := by decide +kernel
  pageSize := by simp

def imitatingTables : List PhysTable :=
  [⟨256, [100, 46, 115], [imitating]⟩, ⟨512, [100, 46, 116], []⟩]

def imitatedTables : List PhysTable :=
  [⟨256, [100, 46, 115], []⟩, ⟨721152, [100, 46, 117], [imitated]⟩]

/-- A transaction with a record in its first table and none in its second one, and one with none in
its first table and a record in its second one, have one log. -/
theorem not_decodable :
    (writeLog crc32 [⟨1, imitatingTables⟩]).isSome = true ∧
    writeLog crc32 [⟨1, imitatingTables⟩] = writeLog crc32 [⟨1, imitatedTables⟩] ∧
    ¬∀ left right : List Transaction, Decodable crc32 left right := by
  have tables : imitatingTables.foldlM writeTable { buff := beginBytes 1 2 } =
      imitatedTables.foldlM writeTable { buff := beginBytes 1 2 } := by
    decide +kernel
  have same : writeLog crc32 [⟨1, imitatingTables⟩] = writeLog crc32 [⟨1, imitatedTables⟩] := by
    have dml : writeDmlLog crc32 ⟨1, imitatingTables⟩ = writeDmlLog crc32 ⟨1, imitatedTables⟩ :=
      congrArg (fun state => do
        let state ← state
        return state.writeBuff.log ++ writeLE 4 (crc32 state.writeBuff.log)) tables
    simp only [writeLog, List.mapM_cons, dml]
  have written : (writeLog crc32 [⟨1, imitatingTables⟩]).isSome = true := by
    have fits : (imitatingTables.foldlM writeTable { buff := beginBytes 1 2 }).isSome = true := by
      decide +kernel
    rcases Option.isSome_iff_exists.mp fits with ⟨state, stateEq⟩
    have dml : writeDmlLog crc32 ⟨1, imitatingTables⟩ =
        some (state.writeBuff.log ++ writeLE 4 (crc32 state.writeBuff.log)) := by
      exact congrArg (fun state : Option LogState => do
        let state ← state
        return state.writeBuff.log ++ writeLE 4 (crc32 state.writeBuff.log)) stateEq
    simp [writeLog, dml]
  refine ⟨written, same, fun always => ?_⟩
  rcases Option.isSome_iff_exists.mp written with ⟨bytes, left⟩
  have views := always _ _ bytes left (same ▸ left)
  have tids := congrArg (List.map fun tran => tran.2.map Prod.fst) views
  simp [Transaction.view, PhysTable.view, imitatingTables, imitatedTables] at tids

end LogBytes

end RapidDb
