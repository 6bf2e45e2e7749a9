import RapidDb.Core.RecordFormat
import RapidDb.Library.TokenStream

/-!
# The bytes of the transaction log

`WriteDmlLog` collects the bytes of a transaction in a buffer and writes it to the file when
something does not fit. In front of a table it writes the buffer when the header is longer than what
the buffer holds, and goes on behind these bytes, so that they are written again. The tables and the
records of a table are counted from the sets of `CollectLogRecords`, in the order in which these are
gone through. The log is a stream of pieces, and nothing in it tells whether a record, an overflow
value, a table or the check sum comes next.
-/

namespace RapidDb

open Bytes

namespace LogBytes

/-- `BUFF_SIZE`. -/
def buffSize : ℕ := 10000000

/-- `LogType::DML_OP`. -/
def dmlOp : Byte := 1

/-- A record with its length in front, and the pages of its value if it has some. -/
structure LeafRecord where
  indexType : IndexType
  bysVal : List Byte
  overflowPage : Option OverflowPage
  actualLength : 2 ≤ bysVal.length ∧ fieldAt 2 0 bysVal = bysVal.length
  hasOverflowPage :
    overflowPage.isSome = (indexType = .primary && RecStruct.hasOverflow bysVal)
  pageSize : ∀ page ∈ overflowPage, page.pageNum < 2 ^ 16 ∧
    page.bysPage.length = indexPageSize * page.pageNum

structure PhysTable where
  tid : UInt32
  fullName : List Byte
  /-- The records of the set, in its order. -/
  setRec : List LeafRecord

structure Transaction where
  tid : UInt64
  mapSetRec : List PhysTable

structure LogState where
  /-- What has been written to the file for the transaction. -/
  log : List Byte := []
  /-- The buffer in front of `cBuff`. -/
  buff : List Byte := []
deriving DecidableEq, Repr

namespace LogState

/-- `WriteBuff`, with the check sum brought up to date. -/
def writeBuff (state : LogState) : LogState := { state with log := state.log ++ state.buff }

/-- `cBuff` goes back to the begin of the buffer. -/
def reset (state : LogState) : LogState := { state with buff := [] }

def copy (state : LogState) (bytes : List Byte) : LogState :=
  { state with buff := state.buff ++ bytes }

def makeRoom (state : LogState) (len : ℕ) : LogState :=
  if buffSize < state.buff.length + len then state.writeBuff.reset else state

def writeRecord (state : LogState) (bysVal : List Byte) : LogState :=
  (state.makeRoom bysVal.length).copy bysVal

/-- An overflow value that is longer than the buffer goes to the file at once. -/
def writeOverflow (state : LogState) (bysPage : List Byte) : LogState :=
  let state := state.makeRoom (bysPage.length + 4)
  let bytes := writeLE 4 bysPage.length ++ bysPage
  if buffSize < bysPage.length + 4 then { state with log := state.log ++ bytes }
  else state.copy bytes

/-- All bytes of the transaction up to here. -/
def said (state : LogState) : List Byte := state.log ++ state.buff

end LogState

def tableHeader (tid : UInt32) (fullName : List Byte) : List Byte :=
  writeLE 4 tid.toNat ++ (writeLE 4 fullName.length ++ fullName)

/-- One turn of the loop over the records. -/
def writeLeafRecord (state : LogState) (lr : LeafRecord) : LogState :=
  let state := state.writeRecord lr.bysVal
  match lr.overflowPage with
  | none => state
  | some ovPage => state.writeOverflow ovPage.bysPage

/-- One turn of the loop over the tables, none if the header goes beyond the buffer. -/
def writeTable (state : LogState) (tbl : PhysTable) : Option LogState :=
  let state := if state.buff.length < 4 * 2 + tbl.fullName.length then state.writeBuff else state
  if buffSize < state.buff.length + (4 * 2 + tbl.fullName.length) then none
  else some (tbl.setRec.foldl writeLeafRecord (state.copy (tableHeader tbl.tid tbl.fullName)))

def beginBytes (tid : UInt64) (size : UInt32) : List Byte :=
  writeLE 8 tid.toNat ++ dmlOp :: writeLE 4 size.toNat

-- `boost::crc_32_type` over a byte string.
variable (crc32 : List Byte → ℕ)

def writeDmlLog (tran : Transaction) : Option (List Byte) := do
  let state ← tran.mapSetRec.foldlM writeTable
    { buff := beginBytes tran.tid (UInt32.ofNat tran.mapSetRec.length) }
  let state := state.writeBuff
  return state.log ++ writeLE 4 (crc32 state.log)

def writeLog (trans : List Transaction) : Option (List Byte) :=
  (trans.mapM (writeDmlLog crc32)).map List.flatten

/-- The bytes that a record has in the log. -/
def LeafRecord.view (lr : LeafRecord) : List Byte × Option (List Byte) :=
  (lr.bysVal, lr.overflowPage.map OverflowPage.bysPage)

abbrev TableView := UInt32 × List Byte × List (List Byte × Option (List Byte))

def PhysTable.view (tbl : PhysTable) : TableView :=
  (tbl.tid, tbl.fullName, tbl.setRec.map LeafRecord.view)

def Transaction.view (tran : Transaction) : UInt64 × List TableView :=
  (tran.tid, tran.mapSetRec.map PhysTable.view)

/-- Two histories with one log are the same. -/
def Decodable (left right : List Transaction) : Prop :=
  ∀ bytes, writeLog crc32 left = some bytes → writeLog crc32 right = some bytes →
    left.map Transaction.view = right.map Transaction.view

/-! ## The pieces of the log -/

inductive Piece where
  | start (tid : UInt64) (size : UInt32)
  /-- The bytes of the buffer, written once more. -/
  | again
  | table (tid : UInt32) (fullName : List Byte)
  | record (bysVal : List Byte)
  | overflow (bysPage : List Byte)
  | checksum
deriving DecidableEq, Repr

inductive PieceKind where
  | start | again | table | record | overflow | checksum
deriving DecidableEq, Repr

def Piece.kind : Piece → PieceKind
  | .start _ _ => .start
  | .again => .again
  | .table _ _ => .table
  | .record _ => .record
  | .overflow _ => .overflow
  | .checksum => .checksum

def pieceBytes (state : LogState) : Piece → List Byte
  | .start tid size => beginBytes tid size
  | .again => state.buff
  | .table tid fullName => tableHeader tid fullName
  | .record bysVal => bysVal
  | .overflow bysPage => writeLE 4 bysPage.length ++ bysPage
  | .checksum => writeLE 4 (crc32 state.said)

def pieceStep (state : LogState) : Piece → LogState
  | .start tid size => { buff := beginBytes tid size }
  | .again => state.writeBuff
  | .table tid fullName => state.copy (tableHeader tid fullName)
  | .record bysVal => state.writeRecord bysVal
  | .overflow bysPage => state.writeOverflow bysPage
  | .checksum => { log := state.said ++ writeLE 4 (crc32 state.said) }

def logFormat : TokenFormat LogState Piece Byte := ⟨pieceStep crc32, pieceBytes crc32⟩

def recordPieces (lr : LeafRecord) : List Piece :=
  .record lr.bysVal :: (lr.overflowPage.map fun page => Piece.overflow page.bysPage).toList

def tablePieces (state : LogState) (tbl : PhysTable) : List Piece :=
  (if state.buff.length < 4 * 2 + tbl.fullName.length then [.again] else []) ++
    .table tbl.tid tbl.fullName :: tbl.setRec.flatMap recordPieces

/-- The pieces of the tables that are left. -/
def tablesPieces : LogState → List PhysTable → List Piece
  | _, [] => [.checksum]
  | state, tbl :: tbls =>
      tablePieces state tbl ++
        tablesPieces ((logFormat crc32).run state (tablePieces state tbl)) tbls

def tranPieces (tran : Transaction) : List Piece :=
  let start := Piece.start tran.tid (UInt32.ofNat tran.mapSetRec.length)
  start :: tablesPieces crc32 (pieceStep crc32 {} start) tran.mapSetRec

def pieces (trans : List Transaction) : List Piece := trans.flatMap (tranPieces crc32)

/-- Where two histories begin to differ, they go on with pieces of one kind, or neither piece begins
with the other. -/
def Apart (left right : List Transaction) : Prop :=
  (logFormat crc32).Apart Piece.kind {} (pieces crc32 left) (pieces crc32 right)

instance (left right : List Transaction) : Decidable (Apart crc32 left right) :=
  TokenFormat.decidableApart (logFormat crc32) Piece.kind {} (pieces crc32 left)
    (pieces crc32 right)

end LogBytes

end RapidDb
