import RapidDb.Core.RecordCodec

/-!
# The layout of a primary record

A primary record is built by two constructors for an insert, from the key columns and from a
`RawKey`, and by `UpdateRecord` for a new version. Each of them computes the total length first,
applies for that many bytes, stores the length in 16 bits and then lays out the header, the key
and the value or the place of its overflow page. What is laid out can be told from the other
fields of the header.
-/

namespace RapidDb

open Bytes

/-- The bytes of the header, the key and the value in the page, by the fields of the header. -/
def RecStruct.contentLength (bys : List Byte) : ℕ :=
  4 + keyLen bys + 1 + 8 + 4 + if hasOverflow bys then 4 + 4 + 2 else valLen bys

/-- A value of one of the classes of `IDataValue`, which write as many bytes as they announce. -/
structure WrittenValue where
  dataValue : DataValue
  announced : ∀ position,
    dataValue.persistenceLength position = (dataValue.writeData position).length

namespace WrittenValue

def ofKey (column : KeyColumn) (value : column.Value) : WrittenValue where
  dataValue := column.dataValue value
  announced
    | .key => (column.length_writeKey value).symm
    | .value => rfl

def ofField (field : Field) : WrittenValue where
  dataValue := field.dataValue
  announced _ := rfl

end WrittenValue

section Announced

variable (vctKey vctVal : List WrittenValue)

theorem length_flatMap_writeData (position : SavePosition) :
    ((vctVal.map WrittenValue.dataValue).flatMap fun value => value.writeData position).length =
      ((vctVal.map WrittenValue.dataValue).map fun value =>
        value.persistenceLength position).sum := by
  rw [List.length_flatMap]
  apply congrArg List.sum
  apply List.map_congr_left
  intro value mem
  obtain ⟨column, -, rfl⟩ := List.mem_map.mp mem
  exact (column.announced position).symm

theorem calcKeyLength_dataValue :
    calcKeyLength (vctKey.map WrittenValue.dataValue) =
      if (rawKey (vctKey.map WrittenValue.dataValue)).length % 2 ^ 32 > maxKeyLength then 2 ^ 16 - 1
      else (rawKey (vctKey.map WrittenValue.dataValue)).length % 2 ^ 32 := by
  unfold calcKeyLength rawKey
  rw [length_flatMap_writeData]

end Announced

/-!
## The fields of a built record
-/

/-- What the accessors find in a buffer that was applied for with a length. -/
structure HasLayout (bys key : List Byte) (applied lenVal lenContent : ℕ) (overflow : Bool) :
    Prop where
  totalLen : RecStruct.totalLen bys = applied % 2 ^ 16
  keyLen : RecStruct.keyLen bys = key.length
  bysKey : RecStruct.bysKey bys = key
  hasOverflow : RecStruct.hasOverflow bys = overflow
  valLen : RecStruct.valLen bys = lenVal % 2 ^ 32
  length : bys.length = max (applied % 2 ^ 16) lenContent

theorem verFlow_overflow (overflow : Bool) (type : ActionType) :
    (((if overflow then recOverflow else 0) + (if type = .delete then recDeleteFlag else 0) + 1) %
      256 &&& recOverflow != 0) = overflow := by
  by_cases delete : type = .delete <;> cases overflow <;> simp only [delete] <;> decide

theorem valLen_of_append (totalLen verFlow recStamp lenVal : ℕ) {key : List Byte}
    (keyFits : key.length < 2 ^ 16) (tail : List Byte) :
    RecStruct.valLen (writeLE 2 totalLen ++ (writeLE 2 key.length ++ (key ++ (writeLE 1 verFlow ++
      (writeLE 8 recStamp ++ (writeLE 4 lenVal ++ tail)))))) = lenVal % 2 ^ 32 := by
  have header := hasHeader_of_append totalLen verFlow recStamp lenVal keyFits tail
  have front : (writeLE 2 totalLen ++ (writeLE 2 key.length ++ (key ++ (writeLE 1 verFlow ++
      writeLE 8 recStamp)))).length = 4 + key.length + 1 + 8 := by
    simp only [List.length_append, length_writeLE]
    omega
  unfold RecStruct.valLen
  rw [header.keyLen]
  have read := fieldAt_append 4 (writeLE 4 lenVal ++ tail) front
  simp only [List.append_assoc] at read
  rw [read, readLE_writeLE_append]
  norm_num

theorem hasLayout_primaryBytes (crc32 : List Byte → ℕ) (totalLen recStamp lenVal : ℕ)
    {key : List Byte} (keyFits : key.length < 2 ^ 16) (type : ActionType)
    (overflowPage : Option OverflowPage) (value : List Byte) :
    HasLayout (primaryBytes crc32 totalLen key recStamp lenVal type overflowPage value) key totalLen
      lenVal (4 + key.length + 1 + 8 + 4 + if overflowPage.isSome then 4 + 4 + 2 else value.length)
      overflowPage.isSome := by
  obtain ⟨tail, tailLength, bytes⟩ : ∃ tail : List Byte,
      tail.length = (if overflowPage.isSome then 4 + 4 + 2 else value.length) ∧
        primaryBytes crc32 totalLen key recStamp lenVal type overflowPage value =
          padTo (totalLen % 2 ^ 16) (writeLE 2 totalLen ++ (writeLE 2 key.length ++ (key ++
            (writeLE 1 ((if overflowPage.isSome then recOverflow else 0) +
              (if type = .delete then recDeleteFlag else 0) + 1) ++
            (writeLE 8 recStamp ++ (writeLE 4 lenVal ++ tail)))))) := by
    cases overflowPage with
    | none => exact ⟨value, rfl, by simp only [primaryBytes, List.append_assoc]⟩
    | some page =>
        refine ⟨writeLE 4 (crc32 (page.bysPage.take lenVal)) ++ (writeLE 4 page.pageId ++
          writeLE 2 page.pageNum), by simp, ?_⟩
        simp [primaryBytes]
  rw [bytes]
  unfold padTo
  simp only [List.append_assoc]
  have header := hasHeader_of_append totalLen ((if overflowPage.isSome then recOverflow else 0) +
    (if type = .delete then recDeleteFlag else 0) + 1) recStamp lenVal keyFits
  refine ⟨?_, (header _).keyLen, (header _).bysKey, ?_, ?_, ?_⟩
  · unfold RecStruct.totalLen
    rw [fieldAt, List.drop_zero, readLE_writeLE_append]
    norm_num
  · unfold RecStruct.hasOverflow
    rw [(header _).byVerFlow]
    exact verFlow_overflow _ type
  · exact valLen_of_append totalLen _ recStamp lenVal keyFits _
  · simp only [List.length_append, length_writeLE, List.length_replicate]
    omega

section Value

variable {key value : List Byte} {lenKey lenVal : ℕ} (pageId : PageID)

theorem maxValueLength_eq (keyFits : lenKey ≤ maxKeyLength) :
    maxValueLength lenKey = maxRecordLength - (lenKey + 17) := by
  unfold maxKeyLength at keyFits
  unfold maxValueLength maxRecordLength
  omega

theorem isSome_overflowPageFor :
    (overflowPageFor pageId lenKey lenVal value).isSome =
      decide (maxValueLength lenKey < lenVal) := by
  unfold overflowPageFor
  split <;> simp_all

theorem lengths_primaryBytes (crc32 : List Byte → ℕ) (totalLen recStamp : ℕ)
    (length : key.length = lenKey) (keyFits : lenKey ≤ maxKeyLength) (type : ActionType) :
    let bys := primaryBytes crc32 totalLen key recStamp lenVal type
      (overflowPageFor pageId lenKey lenVal value) value
    RecStruct.totalLen bys = totalLen % 2 ^ 16 ∧
      RecStruct.contentLength bys =
        17 + lenKey + if maxValueLength lenKey < lenVal then 10 else lenVal := by
  subst length
  have short : key.length < 2 ^ 16 := lt_of_le_of_lt keyFits (by decide)
  have layout := hasLayout_primaryBytes crc32 totalLen recStamp lenVal short type
    (overflowPageFor pageId key.length lenVal value) value
  refine ⟨layout.totalLen, ?_⟩
  unfold RecStruct.contentLength
  rw [layout.keyLen, layout.hasOverflow, layout.valLen, isSome_overflowPageFor]
  simp only [decide_eq_true_eq]
  split
  · omega
  · next inPage =>
      rw [maxValueLength_eq keyFits] at inPage
      unfold maxRecordLength at inPage
      omega

end Value

/-!
## The two constructors of an insert
-/

/-- The constructor of a primary record from a `RawKey`. -/
def LeafRecord.newPrimaryRawKey (format : IndexFormat) (priKey : List Byte)
    (vctVal : List DataValue) (recStamp : ℕ) (stmt : Option StatementRef) (fresh : NewRecord) :
    LeafRecord :=
  let lock := newLock fresh.lockAddr .insert stmt
  let lenKey := priKey.length % 2 ^ 16
  if lenKey ≥ maxKeyLength then
    exceedKeyLength fresh.recordAddr format.indexType lenKey lock
  else
    let lenVal := calcValueLength format vctVal .insert
    let value := fillValueBuff format vctVal
    let overflowPage := overflowPageFor fresh.ovfPageId lenKey lenVal value
    let infoLen := 1 + 8 + 4 + if overflowPage.isSome then 4 + 4 + 2 else 0
    let totalLen := 4 + lenKey + infoLen +
      if overflowPage.isSome then 4 * 2 + 2 else lenVal
    ofBody
      { addr := fresh.recordAddr
        bysVal := primaryBytes fresh.crc32 totalLen (priKey.take lenKey) recStamp lenVal .insert
          overflowPage value
        bSole := true
        indexType := format.indexType
        overflowPage := overflowPage }
      lock

/-- Two constructors both refuse, or they build the same bytes with the same length and the same
overflow page. -/
def SameOutcome (left right : LeafRecord) : Prop :=
  (left.body.bValid = false ∧ right.body.bValid = false) ∨
    (left.body.bValid = true ∧ right.body.bValid = true ∧ left.body.bysVal = right.body.bysVal ∧
      left.getTotalLength = right.getTotalLength ∧
      left.body.overflowPage = right.body.overflowPage)

/-- The stored length of a record is that of what is laid out, and not too long. -/
def LaidOut (record : LeafRecord) : Prop :=
  record.getActualLength = RecStruct.contentLength record.body.bysVal ∧
    record.getActualLength ≤ maxRecordLength

section Insert

variable (format : IndexFormat) (vctKey vctVal : List WrittenValue) (recStamp : ℕ)
  (stmt : Option StatementRef) (fresh : NewRecord)

def insertColumns : LeafRecord :=
  .newPrimary format (vctKey.map WrittenValue.dataValue) (vctVal.map WrittenValue.dataValue)
    recStamp stmt fresh

/-- The record from the `RawKey` of the key columns. -/
def insertRawKey : LeafRecord :=
  .newPrimaryRawKey format (rawKey (vctKey.map WrittenValue.dataValue))
    (vctVal.map WrittenValue.dataValue) recStamp stmt fresh

/-- The length of the key that the columns write. -/
def keyLength : ℕ := (rawKey (vctKey.map WrittenValue.dataValue)).length

/-- The length of the value part of the row. -/
def rowLength : ℕ := calcValueLength format (vctVal.map WrittenValue.dataValue) .insert

/-- The constructor from the key columns, none when the key is written behind its block. -/
def buildColumns : Option LeafRecord :=
  let record := insertColumns format vctKey vctVal recStamp stmt fresh
  if record.body.bValid ∧ calcKeyLength (vctKey.map WrittenValue.dataValue) < keyLength vctKey then
    none
  else
    some record

/-- `RawKey` of the key columns, its length a sum in 32 bits: none when no byte is applied for or
the key is written behind its block. -/
def newRawKey (vctKey : List DataValue) : Option (List Byte) :=
  let length := (vctKey.map fun value => value.persistenceLength .key).sum % 2 ^ 32
  if length = 0 ∨ length < (rawKey vctKey).length then none else some (rawKey vctKey)

def buildRawKey : Option LeafRecord :=
  (newRawKey (vctKey.map WrittenValue.dataValue)).map fun priKey =>
    .newPrimaryRawKey format priKey (vctVal.map WrittenValue.dataValue) recStamp stmt fresh

/-- The two constructors agree, and what each of them builds has the length that it stores. -/
def InsertsAgree : Prop :=
  ∃ left right, buildColumns format vctKey vctVal recStamp stmt fresh = some left ∧
    buildRawKey format vctKey vctVal recStamp stmt fresh = some right ∧
    SameOutcome left right ∧ (left.body.bValid = true → LaidOut left) ∧
    (right.body.bValid = true → LaidOut right)

/-- The fields of the record that a constructor builds when it takes a key. -/
def builtBody (key : List Byte) : RecordBody :=
  let lenVal := rowLength format vctVal
  let value := fillValueBuff format (vctVal.map WrittenValue.dataValue)
  let overflowPage := overflowPageFor fresh.ovfPageId key.length lenVal value
  let totalLen := 4 + key.length + (1 + 8 + 4 + if overflowPage.isSome then 4 + 4 + 2 else 0) +
    if overflowPage.isSome then 4 * 2 + 2 else lenVal
  { addr := fresh.recordAddr
    bysVal := primaryBytes fresh.crc32 totalLen key recStamp lenVal .insert overflowPage value
    bSole := true
    indexType := format.indexType
    overflowPage := overflowPage }

/-- The record that a constructor builds when it takes a key. -/
def builtRecord (key : List Byte) : LeafRecord :=
  .ofBody (builtBody format vctVal recStamp fresh key)
    (LeafRecord.newLock fresh.lockAddr .insert stmt)

variable {format vctKey vctVal recStamp stmt fresh}

theorem bValid_insertColumns :
    (insertColumns format vctKey vctVal recStamp stmt fresh).body.bValid =
      decide (keyLength vctKey % 2 ^ 32 ≤ maxKeyLength) := by
  unfold insertColumns LeafRecord.newPrimary LeafRecord.exceedKeyLength
  simp only [calcKeyLength_dataValue, ← keyLength.eq_1]
  by_cases short : keyLength vctKey % 2 ^ 32 ≤ maxKeyLength
  · rw [if_neg (not_lt.mpr short), if_neg (not_lt.mpr short), body_ofBody, decide_eq_true short]
  · rw [if_pos (not_le.mp short), if_pos (by decide), body_ofBody, decide_eq_false short]

/-- What the constructor from the key columns builds when it takes the key. -/
theorem insertColumns_taken (short : keyLength vctKey % 2 ^ 32 ≤ maxKeyLength) :
    ∃ key, key.length = keyLength vctKey % 2 ^ 32 ∧
      (keyLength vctKey < 2 ^ 32 → key = rawKey (vctKey.map WrittenValue.dataValue)) ∧
      insertColumns format vctKey vctVal recStamp stmt fresh =
        builtRecord format vctVal recStamp stmt fresh key := by
  have lenKey : calcKeyLength (vctKey.map WrittenValue.dataValue) = keyLength vctKey % 2 ^ 32 := by
    rw [calcKeyLength_dataValue]
    exact if_neg (not_lt.mpr short)
  have length : ((rawKey (vctKey.map WrittenValue.dataValue)).take
      (keyLength vctKey % 2 ^ 32)).length = keyLength vctKey % 2 ^ 32 := by
    rw [List.length_take]
    exact min_eq_left (Nat.mod_le _ _)
  refine ⟨_, length, fun fits => ?_, ?_⟩
  · rw [Nat.mod_eq_of_lt fits]
    exact List.take_of_length_le (le_of_eq rfl)
  · unfold builtRecord builtBody
    rw [length]
    unfold insertColumns LeafRecord.newPrimary
    simp only [lenKey, if_neg (not_lt.mpr short)]
    rfl

theorem insertRawKey_short (short : keyLength vctKey < maxKeyLength) :
    insertRawKey format vctKey vctVal recStamp stmt fresh =
      builtRecord format vctVal recStamp stmt fresh
        (rawKey (vctKey.map WrittenValue.dataValue)) := by
  have lenKey : (rawKey (vctKey.map WrittenValue.dataValue)).length % 2 ^ 16 =
      keyLength vctKey := by
    apply Nat.mod_eq_of_lt
    exact lt_trans short (by decide)
  unfold insertRawKey LeafRecord.newPrimaryRawKey
  simp only [lenKey, if_neg (not_le.mpr short)]
  have whole : (rawKey (vctKey.map WrittenValue.dataValue)).take (keyLength vctKey) =
      rawKey (vctKey.map WrittenValue.dataValue) := List.take_of_length_le (le_of_eq rfl)
  rw [whole]
  rfl

theorem bValid_insertRawKey :
    (insertRawKey format vctKey vctVal recStamp stmt fresh).body.bValid =
      decide (keyLength vctKey % 2 ^ 16 < maxKeyLength) := by
  unfold insertRawKey LeafRecord.newPrimaryRawKey LeafRecord.exceedKeyLength
  unfold keyLength
  simp only
  split
  · next long => rw [body_ofBody, decide_eq_false (not_lt.mpr long)]
  · next short => rw [body_ofBody, decide_eq_true (not_le.mp short)]

theorem bValid_builtRecord {key : List Byte} :
    (builtRecord format vctVal recStamp stmt fresh key).body.bValid = true := by
  unfold builtRecord
  rw [body_ofBody]
  rfl

/-- A `RawKey` is built for a key that has a byte and a length of 32 bits. -/
theorem buildRawKey_eq_some_iff {record : LeafRecord} :
    buildRawKey format vctKey vctVal recStamp stmt fresh = some record ↔
      (0 < keyLength vctKey ∧ keyLength vctKey < 2 ^ 32) ∧
        insertRawKey format vctKey vctVal recStamp stmt fresh = record := by
  have sum : ((vctKey.map WrittenValue.dataValue).map fun value =>
      value.persistenceLength .key).sum = keyLength vctKey :=
    (length_flatMap_writeData vctKey .key).symm
  have behind : (keyLength vctKey % 2 ^ 32 = 0 ∨ keyLength vctKey % 2 ^ 32 < keyLength vctKey) ↔
      ¬(0 < keyLength vctKey ∧ keyLength vctKey < 2 ^ 32) := by omega
  unfold buildRawKey newRawKey
  simp only [sum, ← keyLength.eq_1, behind]
  by_cases inside : 0 < keyLength vctKey ∧ keyLength vctKey < 2 ^ 32
  · rw [if_neg (not_not.mpr inside)]
    simp only [Option.map_some, Option.some.injEq, inside, true_and]
    rfl
  · rw [if_pos inside]
    exact iff_of_false nofun fun built => inside built.1

theorem buildColumns_of_lt (fits : keyLength vctKey < 2 ^ 32) :
    buildColumns format vctKey vctVal recStamp stmt fresh =
      some (insertColumns format vctKey vctVal recStamp stmt fresh) := by
  unfold buildColumns
  apply if_neg
  rintro ⟨taken, behind⟩
  rw [bValid_insertColumns, decide_eq_true_eq] at taken
  rw [calcKeyLength_dataValue, ← keyLength.eq_1, if_neg (not_lt.mpr taken),
    Nat.mod_eq_of_lt fits] at behind
  exact lt_irrefl _ behind

theorem insertColumns_short (short : keyLength vctKey ≤ maxKeyLength) :
    insertColumns format vctKey vctVal recStamp stmt fresh =
      builtRecord format vctVal recStamp stmt fresh
        (rawKey (vctKey.map WrittenValue.dataValue)) := by
  have fits : keyLength vctKey < 2 ^ 32 := lt_of_le_of_lt short (by decide)
  have wraps : keyLength vctKey % 2 ^ 32 ≤ maxKeyLength := by rwa [Nat.mod_eq_of_lt fits]
  obtain ⟨key, -, whole, built⟩ :=
    @insertColumns_taken format vctKey vctVal recStamp stmt fresh wraps
  rw [built, whole fits]

theorem sameOutcome_iff (fits : keyLength vctKey < 2 ^ 32) :
    SameOutcome (insertColumns format vctKey vctVal recStamp stmt fresh)
        (insertRawKey format vctKey vctVal recStamp stmt fresh) ↔
      keyLength vctKey ≠ maxKeyLength ∧
        (maxKeyLength < keyLength vctKey → maxKeyLength ≤ keyLength vctKey % 2 ^ 16) := by
  have columns := @bValid_insertColumns format vctKey vctVal recStamp stmt fresh
  rw [Nat.mod_eq_of_lt fits] at columns
  unfold SameOutcome
  rw [bValid_insertRawKey, columns]
  rcases lt_trichotomy (keyLength vctKey) maxKeyLength with short | exact | long
  · rw [insertColumns_short (le_of_lt short), insertRawKey_short short]
    have stays : keyLength vctKey % 2 ^ 16 = keyLength vctKey :=
      Nat.mod_eq_of_lt (lt_trans short (by decide))
    refine iff_of_true (Or.inr ⟨decide_eq_true (le_of_lt short), ?_, rfl, rfl, rfl⟩)
      ⟨ne_of_lt short, fun long => absurd long (lt_asymm short)⟩
    rw [stays]
    exact decide_eq_true short
  · rw [exact]
    refine iff_of_false ?_ fun agrees => agrees.1 rfl
    rintro (⟨refused, -⟩ | ⟨-, taken, -⟩)
    · exact absurd refused (by decide)
    · exact absurd taken (by decide)
  · rw [decide_eq_false (not_le.mpr long)]
    simp only [decide_eq_false_iff_not, not_lt, true_and, Bool.false_eq_true, false_and, or_false]
    exact ⟨fun refused => ⟨ne_of_gt long, fun _ => refused⟩, fun agrees => agrees.2 long⟩

theorem laidOut_builtRecord_iff {key : List Byte} (short : key.length ≤ maxKeyLength) :
    LaidOut (builtRecord format vctVal recStamp stmt fresh key) ↔
      rowLength format vctVal ≤ maxValueLength key.length := by
  have lengths : RecStruct.totalLen (builtBody format vctVal recStamp fresh key).bysVal = _ ∧
      RecStruct.contentLength (builtBody format vctVal recStamp fresh key).bysVal = _ :=
    lengths_primaryBytes fresh.ovfPageId fresh.crc32 _ recStamp rfl short .insert
  unfold LaidOut LeafRecord.getActualLength builtRecord
  rw [body_ofBody]
  change RecStruct.totalLen _ = _ ∧ RecStruct.totalLen _ ≤ _ ↔ _
  rw [lengths.1, lengths.2, isSome_overflowPageFor, maxValueLength_eq short]
  simp only [decide_eq_true_eq]
  unfold maxKeyLength at short
  unfold maxRecordLength
  split <;> omega

end Insert

/-- The two constructors agree on a key and a row, with the length that they store, exactly if the
key has a byte, a length of 32 bits and not the greatest length, its length does not pass the
second check in 16 bits only, and the value stays in the page. -/
theorem insertsAgree_iff (format : IndexFormat) (vctKey vctVal : List WrittenValue) (recStamp : ℕ)
    (stmt : Option StatementRef) (fresh : NewRecord) :
    InsertsAgree format vctKey vctVal recStamp stmt fresh ↔
      (0 < keyLength vctKey ∧ keyLength vctKey < 2 ^ 32) ∧ keyLength vctKey ≠ maxKeyLength ∧
        (maxKeyLength < keyLength vctKey → maxKeyLength ≤ keyLength vctKey % 2 ^ 16) ∧
        (keyLength vctKey ≤ maxKeyLength →
          rowLength format vctVal ≤ maxValueLength (keyLength vctKey)) := by
  constructor
  · rintro ⟨left, right, leftEq, rightEq, same, laidOut, -⟩
    obtain ⟨inside, rfl⟩ := buildRawKey_eq_some_iff.mp rightEq
    obtain rfl := Option.some.inj ((buildColumns_of_lt inside.2).symm.trans leftEq)
    have keys := (sameOutcome_iff inside.2).mp same
    refine ⟨inside, keys.1, keys.2, fun short => ?_⟩
    rw [insertColumns_short short] at laidOut
    exact (laidOut_builtRecord_iff short).mp (laidOut bValid_builtRecord)
  · rintro ⟨inside, apart, long, inPage⟩
    refine ⟨_, _, buildColumns_of_lt inside.2, buildRawKey_eq_some_iff.mpr ⟨inside, rfl⟩,
      (sameOutcome_iff inside.2).mpr ⟨apart, long⟩, fun taken => ?_, fun taken => ?_⟩
    · rw [bValid_insertColumns, Nat.mod_eq_of_lt inside.2, decide_eq_true_eq] at taken
      rw [insertColumns_short taken]
      exact (laidOut_builtRecord_iff taken).mpr (inPage taken)
    · rw [bValid_insertRawKey, decide_eq_true_eq] at taken
      have short : keyLength vctKey < maxKeyLength := by
        rcases lt_trichotomy (keyLength vctKey) maxKeyLength with short | exact | less
        · exact short
        · exact absurd exact apart
        · exact absurd taken (not_lt.mpr (long less))
      rw [insertRawKey_short short]
      exact (laidOut_builtRecord_iff (le_of_lt short)).mpr (inPage (le_of_lt short))

/-- A key of one `FIXCHAR` column that has the greatest length of a key. -/
def longestKey : List WrittenValue :=
  [.ofKey (.fixChar maxKeyLength) ⟨List.replicate maxKeyLength 65, List.length_replicate⟩]

theorem keyLength_longestKey : keyLength longestKey = maxKeyLength := by
  unfold keyLength longestKey rawKey
  rw [List.map_singleton, List.flatMap_singleton]
  exact List.length_replicate

/-- The constructor from the key columns takes the key, the one from the `RawKey` refuses it. -/
theorem not_insertsAgree_longestKey :
    ¬InsertsAgree (Field.format sampleFields) longestKey (sampleFields.map .ofField) 1 none
      ⟨1, 2, 3, crc32⟩ := by
  rintro ⟨left, right, leftEq, rightEq, same, -⟩
  obtain ⟨inside, rfl⟩ := buildRawKey_eq_some_iff.mp rightEq
  obtain rfl := Option.some.inj ((buildColumns_of_lt inside.2).symm.trans leftEq)
  exact ((sameOutcome_iff inside.2).mp same).1 keyLength_longestKey

end RapidDb
