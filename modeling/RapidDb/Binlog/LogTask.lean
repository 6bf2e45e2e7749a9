import Mathlib.Data.Fintype.Basic
import RapidDb.Core.CoreEnum
import RapidDb.Library.OrderedSet
import RapidDb.Utils.BytesFuncs

/-!
# The rows of the transaction log

`WriteDmlLog` lets the statements of a transaction, the last one first, insert their records into
one ordered set for each table. The comparator of the set returns the integer of `BytesCompare`
as a truth value, so it only tells whether two keys differ. It is a strict order on a table's
records only if all of them have one key.
-/

namespace RapidDb

open Bytes

namespace LogTask

/-- A record a statement has made. Later versions have larger numbers. -/
structure LeafRecord where
  bysKey : List Byte
  indexType : IndexType
  recResult : RecordResult
  version : ℕ
deriving DecidableEq

def LeafRecord.isPrimary (lr : LeafRecord) : Bool :=
  lr.indexType = .primary || lr.indexType = .hidePrimary

structure Statement (T : Type) where
  table : T
  readonly : Bool
  stmtFailed : Bool
  lstFinishRecord : List LeafRecord

/-- `LeafRecordCmp`: the integer is converted to `bool`. -/
def leafRecordCmp (lLr rLr : LeafRecord) : Bool :=
  bytesCompare lLr.bysKey rLr.bysKey ≠ 0

theorem leafRecordCmp_eq (lLr rLr : LeafRecord) :
    leafRecordCmp lLr rLr = decide (lLr.bysKey ≠ rLr.bysKey) := by
  rw [leafRecordCmp, decide_eq_decide, Ne, (compares_bytesCompare lLr.bysKey rLr.bysKey).zero]

/-- One turn of the loop in `CollectLogRecords`. -/
def insertRecord (setRec : List LeafRecord) (lr : LeafRecord) : Option (List LeafRecord) :=
  if lr.recResult = .init then none
  else if lr.recResult = .error then some setRec
  else OrderedSet.insert leafRecordCmp lr setRec

section

variable {T : Type} [DecidableEq T]

/-- The sets of the tables that have one. -/
abbrev MapSetRec (T : Type) : Type := T → Option (List LeafRecord)

def collectLogRecords (mapSetRec : MapSetRec T) (stmt : Statement T) : Option (MapSetRec T) :=
  if stmt.stmtFailed then none
  else if stmt.readonly then some mapSetRec
  else do
    let setRec ← stmt.lstFinishRecord.foldlM insertRecord ((mapSetRec stmt.table).getD [])
    return Function.update mapSetRec stmt.table (some setRec)

/-- The records `WriteDmlLog` collects from the statements of a transaction. -/
def writeDmlLog (lstStmt : List (Statement T)) : Option (MapSetRec T) :=
  lstStmt.reverse.foldlM collectLogRecords fun _ => none

/-- The records a statement hands over for a table. -/
def Statement.handsOver (table : T) (stmt : Statement T) : List LeafRecord :=
  if stmt.readonly ∨ stmt.table ≠ table then []
  else stmt.lstFinishRecord.filter fun lr => lr.recResult ≠ .error

/-- A statement that has been executed: it has not failed and each record has its result. -/
structure Statement.Executed (stmt : Statement T) : Prop where
  succeeded : stmt.stmtFailed = false
  results : ∀ lr ∈ stmt.lstFinishRecord, lr.recResult ≠ .init

/-- Inserting records one after the other. -/
def insertAll (records : List LeafRecord) (setRec : List LeafRecord) : Option (List LeafRecord) :=
  records.foldlM (fun elements lr => OrderedSet.insert leafRecordCmp lr elements) setRec

theorem foldlM_insertRecord {records : List LeafRecord}
    (results : ∀ lr ∈ records, lr.recResult ≠ .init) (setRec : List LeafRecord) :
    records.foldlM insertRecord setRec =
      insertAll (records.filter fun lr => lr.recResult ≠ .error) setRec := by
  induction records generalizing setRec with
  | nil => rfl
  | cons lr records ih =>
      have rest := ih fun other otherMem => results other (List.mem_cons_of_mem lr otherMem)
      rw [List.foldlM_cons, insertRecord, if_neg (results lr List.mem_cons_self)]
      by_cases error : lr.recResult = .error
      · simp [insertAll, error, rest]
      · simp [insertAll, error, rest]

theorem insertAll_of_collectLogRecords {stmt : Statement T} (executed : stmt.Executed)
    {mapSetRec mapSetRec' : MapSetRec T}
      (collected : collectLogRecords mapSetRec stmt = some mapSetRec')
    (table : T) : insertAll (stmt.handsOver table) ((mapSetRec table).getD []) =
      some ((mapSetRec' table).getD []) := by
  rw [collectLogRecords, if_neg (Bool.eq_false_iff.mp executed.succeeded)] at collected
  by_cases readonly : stmt.readonly = true
  · rw [if_pos readonly] at collected
    cases collected
    simp [Statement.handsOver, readonly, insertAll]
  · rw [if_neg readonly, foldlM_insertRecord executed.results] at collected
    rcases Option.bind_eq_some_iff.mp collected with ⟨setRec, inserted, stored⟩
    cases stored
    by_cases same : stmt.table = table
    · subst same
      rw [Function.update_self, Option.getD_some, Statement.handsOver, if_neg (by simp [readonly])]
      exact inserted
    · simp [Statement.handsOver, same, insertAll, Function.update_of_ne (Ne.symm same)]

theorem exists_collectLogRecords {stmt : Statement T} (executed : stmt.Executed)
    {mapSetRec : MapSetRec T}
    (inserts : (insertAll (stmt.handsOver stmt.table) ((mapSetRec stmt.table).getD [])).isSome) :
    ∃ mapSetRec', collectLogRecords mapSetRec stmt = some mapSetRec' := by
  rw [collectLogRecords, if_neg (Bool.eq_false_iff.mp executed.succeeded)]
  by_cases readonly : stmt.readonly = true
  · exact ⟨mapSetRec, if_pos readonly⟩
  · rcases Option.isSome_iff_exists.mp inserts with ⟨setRec, inserted⟩
    rw [Statement.handsOver, if_neg (by simp [readonly])] at inserted
    rw [if_neg readonly, foldlM_insertRecord executed.results, inserted]
    exact ⟨_, rfl⟩

/-- The records of the statements for a table, in the order they are collected. -/
def handedOver (table : T) (statements : List (Statement T)) : List LeafRecord :=
  statements.flatMap fun stmt => stmt.handsOver table

theorem insertAll_append (records1 records2 setRec : List LeafRecord) :
    insertAll (records1 ++ records2) setRec =
      (insertAll records1 setRec).bind fun setRec => insertAll records2 setRec :=
  List.foldlM_append

theorem insertAll_of_foldlM {statements : List (Statement T)}
    (executed : ∀ stmt ∈ statements, stmt.Executed) {mapSetRec mapSetRec' : MapSetRec T}
    (collected : statements.foldlM collectLogRecords mapSetRec = some mapSetRec') (table : T) :
    insertAll (handedOver table statements) ((mapSetRec table).getD []) =
      some ((mapSetRec' table).getD []) := by
  induction statements generalizing mapSetRec with
  | nil =>
      cases collected
      rfl
  | cons stmt statements ih =>
      rw [List.foldlM_cons] at collected
      rcases Option.bind_eq_some_iff.mp collected with ⟨middle, first, rest⟩
      have step := insertAll_of_collectLogRecords (executed stmt List.mem_cons_self) first table
      have steps := ih (fun other mem => executed other (List.mem_cons_of_mem stmt mem)) rest
      rw [handedOver, List.flatMap_cons, insertAll_append, step]
      exact steps

theorem exists_foldlM {statements : List (Statement T)}
    (executed : ∀ stmt ∈ statements, stmt.Executed) {mapSetRec : MapSetRec T}
    (inserts : ∀ table,
      (insertAll (handedOver table statements) ((mapSetRec table).getD [])).isSome) :
    ∃ mapSetRec', statements.foldlM collectLogRecords mapSetRec = some mapSetRec' := by
  induction statements generalizing mapSetRec with
  | nil => exact ⟨mapSetRec, rfl⟩
  | cons stmt statements ih =>
      have executedFirst := executed stmt List.mem_cons_self
      have firstInserts : (insertAll (stmt.handsOver stmt.table)
          ((mapSetRec stmt.table).getD [])).isSome := by
        have both := inserts stmt.table
        rw [handedOver, List.flatMap_cons, insertAll_append] at both
        exact Option.isSome_of_isSome_bind both
      rcases exists_collectLogRecords executedFirst firstInserts with ⟨middle, first⟩
      have restInserts (table : T) :
          (insertAll (handedOver table statements) ((middle table).getD [])).isSome := by
        have both := inserts table
        rw [handedOver, List.flatMap_cons, insertAll_append,
          insertAll_of_collectLogRecords executedFirst first table] at both
        exact both
      rcases ih (fun other mem => executed other (List.mem_cons_of_mem stmt mem)) restInserts with
        ⟨last, rest⟩
      exact ⟨last, by rw [List.foldlM_cons, first]; exact rest⟩

end

/-- A transaction as its log record is written: its statements have been executed, and no two of
its records are the same version. -/
structure Transaction (T : Type) [DecidableEq T] where
  lstStmt : List (Statement T)
  executed : ∀ stmt ∈ lstStmt, stmt.Executed
  distinct : (lstStmt.flatMap Statement.lstFinishRecord).Pairwise
    fun lr1 lr2 => lr1.version ≠ lr2.version

section

variable {T : Type} [DecidableEq T]

/-- The records for a table in the order they are collected, those of the last statement first. -/
def Transaction.collects (tran : Transaction T) (table : T) : List LeafRecord :=
  handedOver table tran.lstStmt.reverse

/-- The versions of primary records the transaction has made in a table. -/
def Transaction.changes (tran : Transaction T) (table : T) : List LeafRecord :=
  (tran.collects table).filter LeafRecord.isPrimary

/-- The set names each changed row once, by its last version, in the order of the keys. -/
structure NamesChanges (changes setRec : List LeafRecord) : Prop where
  named : ∀ lr ∈ changes, ∃ last ∈ setRec, last.bysKey = lr.bysKey
  last : ∀ last ∈ setRec, last ∈ changes ∧
    ∀ lr ∈ changes, lr.bysKey = last.bysKey → lr.version ≤ last.version
  ordered : setRec.Pairwise fun lr1 lr2 => lr1.bysKey < lr2.bysKey

/-- The log names every changed row of every table. -/
def Logged (tran : Transaction T) : Prop :=
  ∃ mapSetRec, writeDmlLog tran.lstStmt = some mapSetRec ∧
    ∀ table, NamesChanges (tran.changes table) ((mapSetRec table).getD [])

/-- In each table all records have one key, and the first one to be collected is a primary record
and the newest of them. -/
def OneKey (tran : Transaction T) : Prop :=
  ∀ table, (∀ lr1 ∈ tran.collects table, ∀ lr2 ∈ tran.collects table, lr1.bysKey = lr2.bysKey) ∧
    ∀ head ∈ (tran.collects table).head?, head.isPrimary = true ∧
      ∀ lr ∈ tran.collects table, lr.isPrimary = true → lr.version ≤ head.version

theorem writeDmlLog_spec (tran : Transaction T) {mapSetRec : MapSetRec T}
    (written : writeDmlLog tran.lstStmt = some mapSetRec) (table : T) :
    (∀ lr1 ∈ tran.collects table, ∀ lr2 ∈ tran.collects table, lr1.bysKey = lr2.bysKey) ∧
      (mapSetRec table).getD [] = (tran.collects table).head?.toList := by
  have executed (stmt) (mem : stmt ∈ tran.lstStmt.reverse) :=
    tran.executed stmt (List.mem_reverse.mp mem)
  have inserted := insertAll_of_foldlM executed written table
  exact (OrderedSet.foldlM_insert_head leafRecordCmp_eq _ _).mp inserted

/-- The log names every changed row exactly if every table has one key, newest record first. -/
theorem logged_iff_oneKey (tran : Transaction T) : Logged tran ↔ OneKey tran := by
  constructor
  · rintro ⟨mapSetRec, written, names⟩ table
    rcases writeDmlLog_spec tran written table with ⟨same, setEq⟩
    refine ⟨same, ?_⟩
    intro head headEq
    have namesTable := names table
    rw [setEq, Option.mem_def.mp headEq] at namesTable
    rcases namesTable.last head (by simp) with ⟨headMem, newest⟩
    rw [Transaction.changes, List.mem_filter] at headMem
    refine ⟨headMem.2, ?_⟩
    intro lr lrMem primary
    exact newest lr (List.mem_filter.mpr ⟨lrMem, primary⟩) (same lr lrMem head headMem.1)
  · intro oneKey
    have executed (stmt) (mem : stmt ∈ tran.lstStmt.reverse) :=
      tran.executed stmt (List.mem_reverse.mp mem)
    have inserts (table : T) : insertAll (handedOver table tran.lstStmt.reverse)
        ((none : Option (List LeafRecord)).getD []) = some (tran.collects table).head?.toList :=
      (OrderedSet.foldlM_insert_head leafRecordCmp_eq _ _).mpr ⟨(oneKey table).1, rfl⟩
    rcases exists_foldlM executed fun table => by
      rw [inserts table]; rfl with ⟨mapSetRec, written⟩
    refine ⟨mapSetRec, written, ?_⟩
    intro table
    rcases writeDmlLog_spec tran written table with ⟨same, setEq⟩
    rw [setEq]
    cases headEq : (tran.collects table).head? with
    | none =>
        have empty := List.head?_eq_none_iff.mp headEq
        constructor <;> simp [Transaction.changes, empty]
    | some head =>
        rcases (oneKey table).2 head (Option.mem_def.mpr headEq) with ⟨primary, newest⟩
        have headMem := List.mem_of_mem_head? (Option.mem_def.mpr headEq)
        constructor
        · intro lr lrMem
          refine ⟨head, by simp, ?_⟩
          exact same head headMem lr (List.mem_filter.mp lrMem).1
        · intro last lastMem
          simp only [Option.toList_some, List.mem_singleton] at lastMem
          subst lastMem
          refine ⟨List.mem_filter.mpr ⟨headMem, primary⟩, ?_⟩
          intro lr lrMem _
          exact newest lr (List.mem_filter.mp lrMem).1 (List.mem_filter.mp lrMem).2
        · simp

end

def twoRows : Transaction Unit where
  lstStmt := [{ table := (), readonly := false, stmtFailed := false,
                lstFinishRecord := [⟨[1], .primary, .inPage, 1⟩, ⟨[2], .primary, .inPage, 2⟩] }]
  executed := by
    intro stmt mem
    rw [List.mem_singleton] at mem
    subst mem
    exact ⟨rfl, by decide⟩
  distinct := by decide

/-- The comparator puts each of the two keys before the other. -/
theorem not_logged_twoRows :
    leafRecordCmp ⟨[1], .primary, .inPage, 1⟩ ⟨[2], .primary, .inPage, 2⟩ = true ∧
      leafRecordCmp ⟨[2], .primary, .inPage, 2⟩ ⟨[1], .primary, .inPage, 1⟩ = true ∧
      ¬Logged twoRows := by
  refine ⟨by decide, by decide, ?_⟩
  rintro ⟨mapSetRec, written, -⟩
  have same := (writeDmlLog_spec twoRows written ()).1
  revert same
  decide

end LogTask

end RapidDb
