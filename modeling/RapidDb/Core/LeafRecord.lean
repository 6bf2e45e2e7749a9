import RapidDb.Core.RecordFormat

/-!
# Leaf records and their locks

A `LeafRecord` is either free of locks, or it carries a lock, or it carries a lock
whose `_undoRec` keeps the version that the lock's action replaced. The chain of
undo records is therefore part of the record itself. Records and locks carry the
address of the object they stand for, so that releasing them can be accounted for.

Parameters of type `NewRecord` are what the allocators hand out; dereferencing a null
pointer is `none`.
-/

namespace RapidDb

open Bytes

/-- The identifiers of the messages set by the record code. -/
inductive ErrorID where
  | coreExceedKeyLength
  | coreRepeatedRecord
deriving DecidableEq, Repr

/-- An error message with its parameters. -/
structure ErrorMsg where
  errId : ErrorID
  params : List String
deriving DecidableEq, Repr

/-- A statement as a record lock refers to it: the object and `GetTxId`. -/
structure StatementRef where
  id : ℕ
  txid : TranID
deriving DecidableEq, Repr

/-- `RecordLock` without `_undoRec`. -/
structure RecordLock where
  addr : ℕ
  actType : ActionType
  recStatus : RecordStatus
  bGapLock : Bool
  recResult : RecordResult
  stmt : Option StatementRef
  lstTxid : List TranID
  errMsg : Option ErrorMsg := none
deriving DecidableEq, Repr

/-- The constructor of `RecordLock`. -/
def RecordLock.new (addr : ℕ) (actType : ActionType) (status : RecordStatus) (gapLock : Bool)
    (result : RecordResult) (stmt : StatementRef) : RecordLock where
  addr := addr
  actType := actType
  recStatus := status
  bGapLock := gapLock
  recResult := result
  stmt := if actType = .readShare ∧ gapLock = false then none else some stmt
  lstTxid := [stmt.txid]

/-- The fields of a `LeafRecord` apart from its lock; `bysVal = []` is the null pointer. -/
structure RecordBody where
  addr : ℕ
  bysVal : List Byte
  bSole : Bool
  indexType : IndexType
  bValid : Bool := true
  bDelete : Bool := false
  overflowPage : Option OverflowPage := none
deriving DecidableEq, Repr

/-- A leaf record with its lock and the older versions kept behind it. -/
inductive LeafRecord where
  | unlocked (body : RecordBody)
  | locked (body : RecordBody) (lock : RecordLock)
  | versioned (body : RecordBody) (lock : RecordLock) (undoRec : LeafRecord)
deriving DecidableEq, Repr

/-- The addresses of a new record and of its lock, the first id of its overflow pages, and
`boost::crc_32_type`, the checksum of the value in them. -/
structure NewRecord where
  recordAddr : ℕ
  lockAddr : ℕ
  ovfPageId : PageID
  crc32 : List Byte → ℕ

namespace LeafRecord

/-- The fields of a record apart from its lock. -/
def body : LeafRecord → RecordBody
  | unlocked body => body
  | locked body _ => body
  | versioned body _ _ => body

def recLock : LeafRecord → Option RecordLock
  | unlocked _ => none
  | locked _ lock => some lock
  | versioned _ lock _ => some lock

/-- A record with its own fields replaced. -/
def withBody : LeafRecord → RecordBody → LeafRecord
  | unlocked _, body => unlocked body
  | locked _ lock, body => locked body lock
  | versioned _ lock undoRec, body => versioned body lock undoRec

/-- A record with the fields of its lock replaced. -/
def mapLock (change : RecordLock → RecordLock) : LeafRecord → LeafRecord
  | unlocked body => unlocked body
  | locked body lock => locked body (change lock)
  | versioned body lock undoRec => versioned body (change lock) undoRec

def isDelete (record : LeafRecord) : Bool := record.body.bDelete

def getKeyLength (record : LeafRecord) : ℕ := fieldAt 2 2 record.body.bysVal

def getActualLength (record : LeafRecord) : ℕ := fieldAt 2 0 record.body.bysVal

/-- `GetTotalLength`: a deleted record counts for nothing. -/
def getTotalLength (record : LeafRecord) : ℕ :=
  if record.body.bDelete then 0 else record.getActualLength

/-- `GetValueLength`, a `uint16_t`. -/
def getValueLength (record : LeafRecord) : ℕ :=
  if record.body.indexType = .primary then
    RecStruct.valLen record.body.bysVal % 2 ^ 16
  else
    (record.getActualLength + 2 ^ 16 - (record.getKeyLength + 4 + 8) % 2 ^ 16) % 2 ^ 16

/-- `GetDataLength`, the length of key and primary key of a non-unique record. -/
def getDataLength (record : LeafRecord) : ℕ :=
  (record.getActualLength + 2 ^ 16 - (4 + 8)) % 2 ^ 16

def getKey (record : LeafRecord) : List Byte := slice 4 record.getKeyLength record.body.bysVal

def getAction (record : LeafRecord) : ActionType :=
  (record.recLock.map RecordLock.actType).getD .noAction

def isGapLock (record : LeafRecord) : Bool :=
  (record.recLock.map RecordLock.bGapLock).getD false

/-- `IsStable`: the record has no uncommitted change and can be saved. -/
def isStable (record : LeafRecord) : Bool :=
  match record.recLock with
  | none => true
  | some lock => !lock.actType.isUpdateable || lock.recStatus.isMarked

def isConflict (record : LeafRecord) (txid : TranID) (atype : ActionType) : Bool :=
  match record.recLock with
  | none => false
  | some lock =>
      if lock.recStatus.isMarked then
        false
      else if atype = .readShare ∧ lock.actType = .readShare then
        false
      else
        lock.lstTxid.any fun id => id != txid && id != txidNull

def lockAble (record : LeafRecord) (txid : TranID) (actType : ActionType) : Bool :=
  match record.recLock with
  | none => true
  | some lock =>
      lock.lstTxid == [txid] || (actType = .readShare && lock.actType = .readShare)

def releaseLockAble (record : LeafRecord) : Bool :=
  match record.recLock with
  | none => false
  | some lock =>
      if lock.actType = .readShare then
        lock.lstTxid.all fun id => id == txidNull
      else
        lock.recStatus.isMarked

/-- The oldest version of a record, the end of its undo chain. -/
def oldest : LeafRecord → LeafRecord
  | unlocked body => unlocked body
  | locked body lock => locked body lock
  | versioned _ _ undoRec => undoRec.oldest

/-- `GetLength`: the lengths of the current and of the committed version in a page. -/
def getLength (record : LeafRecord) : ℕ × ℕ :=
  let tempLen := if record.body.bDelete then 0 else record.getTotalLength + 2
  let lr := record.oldest
  let commitLen :=
    if lr.body.bDelete || (lr.recLock.map fun lock => lock.actType.isUpdateable).getD false then
      0
    else
      lr.getTotalLength + 2
  (tempLen, commitLen)

end LeafRecord

/-!
## Building records
-/

namespace LeafRecord

/-- The lock a new record gets; a record built without a statement has none. -/
def newLock (lockAddr : ℕ) (actType : ActionType) (stmt : Option StatementRef) :
    Option RecordLock :=
  stmt.map (RecordLock.new lockAddr actType .init false .init)

/-- A body under its lock, if there is one. -/
def ofBody (body : RecordBody) : Option RecordLock → LeafRecord
  | none => unlocked body
  | some lock => locked body lock

/-- The record a constructor leaves behind when the key is too long. -/
def exceedKeyLength (addr : ℕ) (idxType : IndexType) (lenKey : ℕ) (lock : Option RecordLock) :
    LeafRecord :=
  let message : ErrorMsg := { errId := .coreExceedKeyLength, params := [toString lenKey] }
  ofBody { addr := addr, bysVal := [], bSole := true, indexType := idxType, bValid := false }
    (lock.map fun lock => { lock with errMsg := some message })

/-- The constructor of a secondary record. Of a key whose length wraps in 32 bits the record keeps
what belongs to its block. -/
def newSecondary (format : IndexFormat) (vctKey : List DataValue) (bysPri : List Byte)
    (actType : ActionType) (recStamp : ℕ) (stmt : Option StatementRef) (fresh : NewRecord) :
    LeafRecord :=
  let lock := newLock fresh.lockAddr actType stmt
  let lenKey := calcKeyLength vctKey
  if lenKey = 2 ^ 16 - 1 then
    exceedKeyLength fresh.recordAddr format.indexType lenKey lock
  else
    ofBody
      { addr := fresh.recordAddr
        bysVal := secondaryBytes ((vctKey.flatMap fun value => value.writeData .key).take lenKey)
          bysPri recStamp
        bSole := true
        indexType := format.indexType
        bDelete := actType = .delete }
      lock

def newPrimary (format : IndexFormat) (vctKey vctVal : List DataValue) (recStamp : ℕ)
    (stmt : Option StatementRef) (fresh : NewRecord) : LeafRecord :=
  let lock := newLock fresh.lockAddr .insert stmt
  let lenKey := calcKeyLength vctKey
  if lenKey > maxKeyLength then
    exceedKeyLength fresh.recordAddr format.indexType lenKey lock
  else
    let lenVal := calcValueLength format vctVal .insert
    let value := fillValueBuff format vctVal
    let overflowPage := overflowPageFor fresh.ovfPageId lenKey lenVal value
    let infoLen := 1 + 8 + 4 + if overflowPage.isSome then 4 + 4 + 2 else 0
    let totalLen := 4 + lenKey + infoLen +
      if overflowPage.isSome then 4 * 2 + 2 else lenVal
    let key := (vctKey.flatMap fun value => value.writeData .key).take lenKey
    ofBody
      { addr := fresh.recordAddr
        bysVal := primaryBytes fresh.crc32 totalLen key recStamp lenVal .insert overflowPage value
        bSole := true
        indexType := format.indexType
        overflowPage := overflowPage }
      lock

/-- Whether a record stays inside of the block of `totalLen` bytes that is applied for, and its
value of `written` bytes inside of its overflow page. -/
def writesInside (lenKey lenVal written totalLen : ℕ) : Bool :=
  if lenVal > maxValueLength lenKey then
    27 + lenKey ≤ totalLen % 2 ^ 16 && written ≤ indexPageSize * overflowPageNum lenVal
  else
    17 + lenKey + written ≤ totalLen % 2 ^ 16

/-- `UpdateRecord`: a new version on top of the record. Its total length counts the value
only when the *old* version has no overflow page; what is then written behind the block is kept
here, and `writesInside` says when there is nothing of that kind. -/
def updateRecord (format : IndexFormat) (record : LeafRecord) (vctVal : List DataValue)
    (recStamp : ℕ) (stmt : StatementRef) (type : ActionType) (gapLock : Bool)
    (fresh : NewRecord) : LeafRecord :=
  let gapLock := if record.isGapLock then true else gapLock
  let lock := RecordLock.new fresh.lockAddr type .init gapLock .inPage stmt
  let lenKey := RecStruct.keyLen record.body.bysVal
  let lenVal := calcValueLength format vctVal type
  let value := if type = .update then fillValueBuff format vctVal else []
  let overflowPage := overflowPageFor fresh.ovfPageId lenKey lenVal value
  let lenInfo := 1 + (8 + 4) + if overflowPage.isSome then 4 + 4 + 2 else 0
  let totalLen := 4 + lenKey + lenInfo + if record.body.overflowPage.isNone then lenVal else 0
  versioned
    { addr := fresh.recordAddr
      bysVal := primaryBytes fresh.crc32 totalLen (RecStruct.bysKey record.body.bysVal) recStamp
        lenVal type overflowPage value
      bSole := true
      indexType := .primary
      bDelete := type = .delete
      overflowPage := overflowPage }
    lock record

end LeafRecord

/-!
## Reading
-/

/-- A value read out of a record: the bytes handed to `ReadData` of a clone of the column
(none for a null field), or the record stamp. -/
inductive FieldValue where
  | column (type : ColumnType) (content : Option (List Byte))
  | stamp (value : ℕ)
deriving DecidableEq, Repr

/-- Whether the null bit of a column is set. -/
def nullBit (bysNull : List Byte) (i : ℕ) : Bool :=
  (bysNull[i / 8]?.map fun byte => byte.val.testBit (i % 8)).getD false

/-- The loop over the value columns in `ReadListValue`. -/
def readColumns (bysNull varFieldsLen : List Byte) :
    List ColumnType → ℕ → ℕ → List Byte → List FieldValue
  | [], _, _, _ => []
  | column :: columns, i, varField, bys =>
      let stored := if column.isFixLength then column.maxLength else
        fieldAt 4 (4 * varField) varFieldsLen
      let flen := if nullBit bysNull i then 0 else stored
      .column column (if flen > 0 then some (bys.take flen) else none) ::
        readColumns bysNull varFieldsLen columns (i + 1)
          (if column.isFixLength then varField else varField + 1) (bys.drop flen)

/-- Where the values that were read go in the result, and the record stamp for the field
`UINT32_MAX`. -/
def placeValues (mapPos : List (ℕ × ℕ)) (values : List FieldValue) (recStamp : ℕ) :
    List (Option FieldValue) :=
  let fields :=
    if mapPos.length = 0 then
      values.map some
    else
      values.zipIdx.foldl
        (fun vct (value, i) =>
          match mapPos.lookup i with
          | some position => vct.set position (some value)
          | none => vct)
        (List.replicate mapPos.length none)
  match mapPos.lookup (2 ^ 32 - 1) with
  | some position => fields.set position (some (.stamp recStamp))
  | none => fields

namespace LeafRecord

def readVersion (format : IndexFormat) (mapPos : List (ℕ × ℕ)) (body : RecordBody) :
    Option (List (Option FieldValue)) :=
  (RecStruct.bysValStart body.bysVal body.overflowPage).map fun start =>
    let byNum := (format.vctValue.length + 7) / 8
    let values := readColumns (start.take byNum) (start.drop byNum) format.vctValue 0 0
      (start.drop (byNum + format.valVarLen))
    placeValues mapPos values (RecStruct.stamp body.bysVal)

/-- The loop of a plain read down the undo chain: the first older version without a lock
or with a read lock. -/
def visibleUndo : LeafRecord → Option LeafRecord
  | unlocked _ => none
  | locked _ _ => none
  | versioned _ _ undoRec =>
      match undoRec.recLock with
      | none => some undoRec
      | some lock => if lock.actType.isReadLock then some undoRec else undoRec.visibleUndo

/-- A lock that a statement reads under: it joins the sharers unless its transaction is among
them, and a shared lock is upgraded for `READ_UPDATE`. -/
def joinLock (stmt : StatementRef) (atype : ActionType) (bGapLock : Bool) (lock : RecordLock) :
    RecordLock :=
  let upgrade := atype = .readUpdate ∧ lock.actType = .readShare
  { lock with
    lstTxid := if lock.lstTxid.contains stmt.txid then lock.lstTxid
      else lock.lstTxid ++ [stmt.txid]
    actType := if upgrade then .readUpdate else lock.actType
    stmt := if upgrade then some stmt else lock.stmt
    bGapLock := lock.bGapLock || bGapLock }

/-- The lock part of reading with `READ_SHARE` or `READ_UPDATE`: the locked record and
whether a lock was added. -/
def addReadLock (record : LeafRecord) (stmt : StatementRef) (atype : ActionType)
    (bGapLock : Bool) (lockAddr : ℕ) : LeafRecord × Bool :=
  match record.recLock with
  | none =>
      (locked record.body (RecordLock.new lockAddr atype .lockOnly bGapLock .inPage stmt), true)
  | some lock =>
      (record.mapLock (joinLock stmt atype bGapLock), !lock.lstTxid.contains stmt.txid)

/-- What `ReadListValue` returns and the record it leaves behind. -/
structure ReadOutcome where
  result : ReadResult
  vctVal : List (Option FieldValue)
  record : LeafRecord
deriving DecidableEq, Repr

/-- The locks of other transactions that a write action meets. -/
def otherHolder (lock : RecordLock) (txid : TranID) : Bool :=
  lock.lstTxid.any fun id => id != txidNull && id != txid

/-- A write action by the only holder clears the ids of the sharers that left. -/
def dropLeftSharers (lock : RecordLock) (txid : TranID) : RecordLock :=
  if lock.lstTxid.length > 1 then { lock with lstTxid := [txid] } else lock

/-- The version a read is served from and the record with the sharer list a write action
leaves, or the result that ends the read. -/
def readTarget (record : LeafRecord) (stmt : StatementRef) (atype : ActionType) :
    Except ReadResult (LeafRecord × LeafRecord) :=
  match record.recLock with
  | none => .ok (record, record)
  | some lock =>
      if atype.isWriteLock then
        if otherHolder lock stmt.txid then
          .error .locked
        else
          let record := record.mapLock fun lock => dropLeftSharers lock stmt.txid
          .ok (record, record)
      else if atype = .readShare ∧ lock.actType ≠ .readShare ∧
          lock.lstTxid.getLast? ≠ some stmt.txid then
        .error .locked
      else if atype = .noAction ∧ lock.actType.isUpdateable then
        match record.visibleUndo with
        | none => .error .locked
        | some lr => .ok (record, lr)
      else
        .ok (record, record)

def readListValue (format : IndexFormat) (mapPos : List (ℕ × ℕ)) (record : LeafRecord)
    (stmt : StatementRef) (atype : ActionType) (bGapLock : Bool) (lockAddr : ℕ) :
    Option ReadOutcome :=
  match record.readTarget stmt atype with
  | .error result => some { result := result, vctVal := [], record := record }
  | .ok (record, lr) =>
      if lr.isDelete then
        some { result := .recDelete, vctVal := [], record := record }
      else
        let (record, bAddLock) :=
          if atype.isReadLock then record.addReadLock stmt atype bGapLock lockAddr
          else (record, false)
        (readVersion format mapPos lr.body).map fun values =>
          { result := if bAddLock then .okLock else .okNolock
            vctVal := values
            record := record }

end LeafRecord

/-!
## Locking and releasing
-/

/-- What is handed back when locks are released. -/
inductive Freed where
  | record (addr : ℕ)
  | lock (addr : ℕ)
  | overflowPage (pageId : PageID) (pageNum : ℕ)
deriving DecidableEq, Repr

namespace LeafRecord

def secondaryReadLock (record : LeafRecord) (stmt : StatementRef) (actType : ActionType)
    (lockAddr : ℕ) : SecLockResult × LeafRecord :=
  match record.recLock with
  | none =>
      (.locked,
        locked record.body (RecordLock.new lockAddr actType .lockOnly false .inPage stmt))
  | some lock =>
      if actType = .readShare ∧ lock.actType = .readShare then
        if lock.lstTxid.contains stmt.txid then
          (.nolock, record)
        else
          (.locked, record.mapLock fun lock =>
            { lock with lstTxid := lock.lstTxid ++ [stmt.txid] })
      else if lock.lstTxid = [stmt.txid] then
        (.nolock, record)
      else
        (.conflict, record)

/-- Replace the first occurrence of a transaction id by `TXID_NULL`. -/
def leaveSharers (txid : TranID) : List TranID → List TranID
  | [] => []
  | id :: ids => if id = txid then txidNull :: ids else id :: leaveSharers txid ids

/-- `SubmitStatement`: a freed `READ_SHARE` lock only loses the transaction, every other
lock gets the status. -/
def submitLock (stmt : StatementRef) (status : RecordStatus) (lock : RecordLock) : RecordLock :=
  if status = .freeed ∧ lock.actType = .readShare then
    { lock with lstTxid := leaveSharers stmt.txid lock.lstTxid }
  else
    { lock with stmt := none, recStatus := status }

/-- `SubmitStatement` on the lock of a record. -/
def submitStatement (record : LeafRecord) (stmt : StatementRef) (status : RecordStatus) :
    LeafRecord :=
  record.mapLock (submitLock stmt status)

/-- The overflow page a record gives back, its page ids to be used again. -/
def freedOverflow (body : RecordBody) : List Freed :=
  match body.overflowPage with
  | some page => [.overflowPage page.pageId page.pageNum]
  | none => []

/-- The loop of `ReleaseLock` that frees the versions behind a committed one. -/
def freeUndo : LeafRecord → List Freed
  | unlocked body => freedOverflow body ++ [.record body.addr]
  | locked body lock => freedOverflow body ++ [.lock lock.addr, .record body.addr]
  | versioned body lock undoRec =>
      freedOverflow body ++ [.lock lock.addr, .record body.addr] ++
        if lock.actType.isReadLock then [] else undoRec.freeUndo

/-- What `ReleaseLock` returns, the record it leaves and everything it frees. -/
structure Released where
  result : ReleaseResult
  record : LeafRecord
  freed : List Freed
deriving DecidableEq, Repr

/-- A record after its bytes and its overflow page have been given up. -/
def clearBody (body : RecordBody) : RecordBody :=
  { body with overflowPage := none, bysVal := [], bSole := false }

/-- The move assignment of `LeafRecord`: the target keeps its object and its flags
`_bValid` and `_bDelete`. -/
def moveAssign (target : RecordBody) (src : LeafRecord) : LeafRecord :=
  src.withBody
    { target with
      bysVal := src.body.bysVal
      bSole := src.body.bSole
      indexType := src.body.indexType
      overflowPage := src.body.overflowPage }

/-- `ReleaseLock` on the object `target` while it holds the content of a version. -/
def releaseInto (target : RecordBody) : LeafRecord → Option Released
  | unlocked _ => none
  | locked body lock =>
      let this := (moveAssign target (unlocked body)).body
      if lock.actType.isReadLock then
        some { result := .finished, record := unlocked this, freed := [.lock lock.addr] }
      else if lock.recStatus = .rollbacked then
        some
          { result := .deleted
            record := unlocked { clearBody this with bDelete := true }
            freed := freedOverflow this ++ [.lock lock.addr] }
      else
        let bDel := decide (lock.actType = .delete)
        some
          { result := if bDel then .deleted else .finished
            record := unlocked { this with bDelete := bDel }
            freed := [.lock lock.addr] }
  | versioned body lock undoRec =>
      let this := (moveAssign target (unlocked body)).body
      if lock.actType.isReadLock then
        some { result := .finished, record := unlocked this, freed := [.lock lock.addr] }
      else if lock.recStatus = .rollbacked then
        let freed := freedOverflow this ++ [.lock lock.addr, .record undoRec.body.addr]
        let moved := moveAssign (clearBody this) undoRec
        if moved.recLock.isNone then
          some { result := .finished, record := moved, freed := freed }
        else if !moved.releaseLockAble then
          some { result := .unfinish, record := moved, freed := freed }
        else
          (releaseInto (clearBody this) undoRec).map fun out =>
            { out with freed := freed ++ out.freed }
      else
        let bDel := decide (lock.actType = .delete)
        some
          { result := if bDel then .deleted else .finished
            record := unlocked { this with bDelete := bDel }
            freed := .lock lock.addr :: undoRec.freeUndo }

def releaseLock (record : LeafRecord) : Option Released :=
  releaseInto record.body record

end LeafRecord

end RapidDb
