import Mathlib.Data.List.Nodup
import Mathlib.Data.Nat.Bitwise
import RapidDb.Core.LeafRecord
import RapidDb.DataType.ValueColumn

/-!
# The values of a primary record

The constructor of a primary record writes a bit for each null column, the lengths of the columns
of variable length and the bytes of all columns, into the page or into an overflow page. Reading
recomputes all offsets from these and from the types of the columns.
-/

namespace RapidDb

open Bytes

/-- A column of a row with its value, none for NULL. -/
abbrev Field : Type :=
  (column : ValueColumn) × Option column.Value

namespace Field

def stored (field : Field) : List Byte :=
  (field.2.map field.1.writeData).getD []

/-- The field as the record code sees it. -/
def dataValue (field : Field) : DataValue where
  isNull := field.2.isNone
  isFixLength := field.1.columnType.isFixLength
  persistenceLength _ := field.stored.length
  writeData _ := field.stored

/-- What `ReadListValue` reads for a field: `ReadData` is not called for no bytes. -/
def fieldValue (field : Field) : FieldValue :=
  .column field.1.columnType (if field.stored.length > 0 then some field.stored else none)

/-- The field that a value read from a record stands for. -/
def readBack (column : ValueColumn) : FieldValue → Option Field
  | .column _ none => some ⟨column, none⟩
  | .column _ (some content) => (column.readData content).map fun value => ⟨column, some value⟩
  | .stamp _ => none

/-- The columns of a row as the record code sees them. -/
def format (fields : List Field) : IndexFormat where
  indexType := .primary
  vctValue := fields.map fun field => field.1.columnType

end Field

/-!
## Null bits and lengths
-/

theorem testBit_sum (p : ℕ → Prop) [DecidablePred p] (count k : ℕ) :
    ((List.range count).map fun bit => if p bit then 2 ^ bit else 0).sum < 2 ^ count ∧
      (((List.range count).map fun bit => if p bit then 2 ^ bit else 0).sum.testBit k =
        decide (k < count ∧ p k)) := by
  induction count with
  | zero => simp
  | succ count ih =>
      obtain ⟨less, bits⟩ := ih
      rw [List.range_succ, List.map_append, List.sum_append]
      generalize ((List.range count).map fun bit => if p bit then 2 ^ bit else 0).sum = rest
        at less bits
      simp only [List.map_cons, List.map_nil, List.sum_cons, List.sum_nil, Nat.add_zero]
      refine ⟨by split <;> rw [pow_succ] <;> omega, ?_⟩
      split
      · next set =>
          rw [Nat.add_comm rest]
          rcases lt_trichotomy k count with lt | rfl | gt
          · rw [Nat.testBit_two_pow_add_gt lt, bits]
            simp [lt, Nat.lt_succ_of_lt lt]
          · rw [Nat.testBit_two_pow_add_eq, Nat.testBit_lt_two_pow less]
            simp [set]
          · rw [Nat.testBit_lt_two_pow]
            · simp [not_lt.mpr (Nat.succ_le_of_lt gt)]
            · calc 2 ^ count + rest < 2 ^ (count + 1) := by rw [pow_succ]; omega
                _ ≤ 2 ^ k := Nat.pow_le_pow_right (by omega) gt
      · next clear =>
          rw [Nat.add_zero, bits]
          rw [decide_eq_decide]
          constructor
          · exact fun ⟨lt, set⟩ => ⟨Nat.lt_succ_of_lt lt, set⟩
          · rintro ⟨lt, set⟩
            rcases Nat.lt_succ_iff_lt_or_eq.mp lt with lt | rfl
            · exact ⟨lt, set⟩
            · exact absurd set clear

theorem length_nullBitmap (vctVal : List DataValue) :
    (nullBitmap vctVal).length = (vctVal.length + 7) / 8 := by
  simp [nullBitmap]

theorem nullBit_nullBitmap {vctVal : List DataValue} {i : ℕ} {value : DataValue}
    (get : vctVal[i]? = some value) : nullBit (nullBitmap vctVal) i = value.isNull := by
  have inside : i < vctVal.length := (List.getElem?_eq_some_iff.mp get).1
  have byteIn : i / 8 < (vctVal.length + 7) / 8 := by omega
  have bitIn : i % 8 < 8 := Nat.mod_lt _ (by omega)
  have index : i / 8 * 8 + i % 8 = i := by omega
  obtain ⟨less, bits⟩ := testBit_sum
    (fun bit => (vctVal[i / 8 * 8 + bit]?.map DataValue.isNull).getD false = true) 8 (i % 8)
  unfold nullBit nullBitmap
  rw [List.getElem?_map, List.getElem?_range byteIn]
  simp only [Option.map_some, Option.getD_some]
  rw [Fin.val_ofNat, Nat.mod_eq_of_lt (show _ < 256 from less), bits, index, get]
  simp [bitIn]

theorem Field.length_stored {field : Field} (sized : field.1.Sized) :
    field.stored.length < 2 ^ 32 ∧
      (field.1.columnType.isFixLength = true → field.2.isNone = false →
        field.stored.length = field.1.columnType.maxLength) := by
  obtain ⟨column, value⟩ := field
  cases value with
  | none => exact ⟨by simp [stored], nofun⟩
  | some value =>
      have length := ValueColumn.length_writeData sized value
      change (column.writeData value).length < 2 ^ 32 ∧
        (_ → _ → (column.writeData value).length = column.columnType.maxLength)
      split at length
      · refine ⟨?_, fun _ _ => length.1⟩
        rw [length.1]
        exact ValueColumn.maxLength_lt sized
      · next notFix => exact ⟨length, fun fix => absurd fix notFix⟩

theorem length_found {field : Field} (sized : field.1.Sized) {bysNull varFieldsLen : List Byte}
    {i varField : ℕ} (null : nullBit bysNull i = field.2.isNone)
    (len : field.1.columnType.isFixLength = false →
      fieldAt 4 (4 * varField) varFieldsLen = field.stored.length) :
    (if nullBit bysNull i then 0
      else if field.1.columnType.isFixLength then field.1.columnType.maxLength
      else fieldAt 4 (4 * varField) varFieldsLen) = field.stored.length := by
  rw [null]
  cases isNone : field.2.isNone with
  | true =>
      rw [if_pos rfl]
      simp [Field.stored, Option.isNone_iff_eq_none.mp isNone]
  | false =>
      rw [if_neg Bool.false_ne_true]
      cases fix : field.1.columnType.isFixLength with
      | true => exact ((Field.length_stored sized).2 fix isNone).symm
      | false => exact len fix

variable {fields : List Field}

/-- The loop over the columns reads each field from its own bytes. -/
theorem readColumns_eq (sized : ∀ field ∈ fields, field.1.Sized)
    {bysNull varFieldsLen rest lengths : List Byte} {i varField : ℕ}
    (nulls : ∀ k field, fields[k]? = some field → nullBit bysNull (i + k) = field.2.isNone)
    (lens : varFieldsLen.drop (4 * varField) =
      (fields.filter fun field => !field.1.columnType.isFixLength).flatMap
        (fun field => writeLE 4 field.stored.length) ++ lengths) :
    readColumns bysNull varFieldsLen (fields.map fun field => field.1.columnType) i varField
        ((fields.flatMap Field.stored) ++ rest) = fields.map Field.fieldValue := by
  induction fields generalizing i varField with
  | nil => rfl
  | cons field fields ih =>
      have fieldSized := sized field List.mem_cons_self
      have later : ∀ k field, fields[k]? = some field →
          nullBit bysNull (i + 1 + k) = field.2.isNone := by
        intro k other get
        rw [Nat.add_assoc, Nat.add_comm 1]
        exact nulls (k + 1) other get
      have sizedRest : ∀ field ∈ fields, field.1.Sized :=
        fun other mem => sized other (List.mem_cons_of_mem _ mem)
      have len : field.1.columnType.isFixLength = false →
          fieldAt 4 (4 * varField) varFieldsLen = field.stored.length := by
        intro notFix
        rw [List.filter_cons_of_pos (by simp [notFix]), List.flatMap_cons,
          List.append_assoc] at lens
        unfold fieldAt
        rw [lens, readLE_writeLE_append]
        exact Nat.mod_eq_of_lt (Field.length_stored fieldSized).1
      have found := length_found fieldSized (nulls 0 field rfl) len
      rw [Nat.add_zero] at found
      simp only [List.map_cons, List.flatMap_cons, readColumns, List.append_assoc]
      rw [found, List.take_left, List.drop_left]
      refine congrArg₂ List.cons rfl ?_
      cases fix : field.1.columnType.isFixLength with
      | true =>
          apply ih sizedRest later
          rw [List.filter_cons_of_neg (by simp [fix])] at lens
          exact lens
      | false =>
          apply ih sizedRest later
          rw [List.filter_cons_of_pos (by simp [fix]), List.flatMap_cons, List.append_assoc] at lens
          have next := congrArg (List.drop 4) lens
          rw [List.drop_drop, List.drop_left' (length_writeLE 4 _)] at next
          exact next

/-!
## The buffers of a record
-/

/-- The lengths of the fields of variable length. -/
def Field.lengths (fields : List Field) : List Byte :=
  (fields.filter fun field => !field.1.columnType.isFixLength).flatMap
    fun field => writeLE 4 field.stored.length

theorem length_lengths (fields : List Field) :
    (Field.lengths fields).length = (Field.format fields).valVarLen := by
  unfold Field.lengths IndexFormat.valVarLen Field.format
  induction fields with
  | nil => rfl
  | cons field fields ih =>
      cases fix : field.1.columnType.isFixLength with
      | true =>
          rw [List.filter_cons_of_neg (by simp [fix]), List.map_cons,
            List.filter_cons_of_neg (by simp [fix])]
          exact ih
      | false =>
          rw [List.filter_cons_of_pos (by simp [fix]), List.map_cons,
            List.filter_cons_of_pos (by simp [fix]), List.flatMap_cons, List.length_append,
            length_writeLE, List.length_cons, Nat.add_mul, Nat.one_mul, Nat.add_comm]
          exact congrArg (· + 4) ih

theorem fillValueBuff_eq (fields : List Field) :
    fillValueBuff (Field.format fields) (fields.map Field.dataValue) =
      nullBitmap (fields.map Field.dataValue) ++
        (Field.lengths fields ++ fields.flatMap Field.stored) := by
  have lens : ((fields.map Field.dataValue).filter fun value => !value.isFixLength).flatMap
      (fun value => writeLE 4 (value.writeData .value).length) = Field.lengths fields := by
    rw [List.filter_map, List.flatMap_map]
    rfl
  have whole : padTo (Field.format fields).valVarLen (Field.lengths fields) =
      Field.lengths fields := by
    unfold padTo
    rw [length_lengths, Nat.sub_self]
    exact List.append_nil _
  have contents : (fields.map Field.dataValue).flatMap (fun value => value.writeData .value) =
      fields.flatMap Field.stored := List.flatMap_map _ _ _
  unfold fillValueBuff
  simp only [lens, whole, contents]
  rw [List.take_of_length_le (le_of_eq (length_lengths fields)), List.append_assoc]

theorem length_fillValueBuff (fields : List Field) :
    (fillValueBuff (Field.format fields) (fields.map Field.dataValue)).length =
      calcValueLength (Field.format fields) (fields.map Field.dataValue) .insert := by
  rw [fillValueBuff_eq, calcValueLength, if_neg (by decide), List.length_append,
    length_nullBitmap, List.length_append, length_lengths, List.length_flatMap, List.map_map]
  rw [Nat.add_assoc]
  rfl

theorem readColumns_fillValueBuff (sized : ∀ field ∈ fields, field.1.Sized) (rest : List Byte) :
    let start := fillValueBuff (Field.format fields) (fields.map Field.dataValue) ++ rest
    let byNum := ((Field.format fields).vctValue.length + 7) / 8
    readColumns (start.take byNum) (start.drop byNum) (Field.format fields).vctValue 0 0
      (start.drop (byNum + (Field.format fields).valVarLen)) = fields.map Field.fieldValue := by
  intro start byNum
  have count : (nullBitmap (fields.map Field.dataValue)).length = byNum := by
    rw [length_nullBitmap, List.length_map]
    simp only [byNum, Field.format, List.length_map]
  have shape : start = nullBitmap (fields.map Field.dataValue) ++
      (Field.lengths fields ++ (fields.flatMap Field.stored ++ rest)) := by
    simp only [start, fillValueBuff_eq, List.append_assoc]
  have contents : start.drop (byNum + (Field.format fields).valVarLen) =
      fields.flatMap Field.stored ++ rest := by
    rw [← List.drop_drop, shape, List.drop_left' count, List.drop_left' (length_lengths fields)]
  rw [contents, shape, List.take_left' count, List.drop_left' count]
  apply readColumns_eq sized
  · intro k field get
    rw [Nat.zero_add]
    have getValue : (fields.map Field.dataValue)[k]? = some field.dataValue := by
      rw [List.getElem?_map, get]
      rfl
    exact nullBit_nullBitmap getValue
  · rfl

/-- A buffer with the header of a primary record. -/
structure HasHeader (bys key : List Byte) (verFlow : ℕ) (tail : List Byte) : Prop where
  keyLen : RecStruct.keyLen bys = key.length
  bysKey : RecStruct.bysKey bys = key
  byVerFlow : RecStruct.byVerFlow bys = verFlow % 256
  behind : bys.drop (4 + key.length + 1 + 8 + 4) = tail

theorem hasHeader_of_append (totalLen verFlow recStamp lenVal : ℕ) {key : List Byte}
    (keyFits : key.length < 2 ^ 16) (tail : List Byte) :
    HasHeader (writeLE 2 totalLen ++ (writeLE 2 key.length ++ (key ++ (writeLE 1 verFlow ++
      (writeLE 8 recStamp ++ (writeLE 4 lenVal ++ tail)))))) key verFlow tail := by
  have keyLen : RecStruct.keyLen (writeLE 2 totalLen ++ (writeLE 2 key.length ++ (key ++
      (writeLE 1 verFlow ++ (writeLE 8 recStamp ++ (writeLE 4 lenVal ++ tail)))))) =
      key.length := by
    unfold RecStruct.keyLen
    rw [fieldAt_append 2 _ (length_writeLE 2 _), readLE_writeLE_append]
    exact Nat.mod_eq_of_lt keyFits
  have four : (writeLE 2 totalLen ++ writeLE 2 key.length).length = 4 := by simp
  have toKey : (writeLE 2 totalLen ++ writeLE 2 key.length ++ key).length = 4 + key.length := by
    rw [List.length_append, four]
  have whole : (writeLE 2 totalLen ++ writeLE 2 key.length ++ key ++ writeLE 1 verFlow ++
      writeLE 8 recStamp ++ writeLE 4 lenVal).length = 4 + key.length + 1 + 8 + 4 := by
    simp only [List.length_append, length_writeLE]
  refine ⟨keyLen, ?_, ?_, ?_⟩
  · unfold RecStruct.bysKey slice
    rw [keyLen, ← List.append_assoc, List.drop_left' four, List.take_left]
  · unfold RecStruct.byVerFlow
    rw [keyLen, ← List.append_assoc, ← List.append_assoc, fieldAt_append 1 _ toKey,
      readLE_writeLE_append]
    norm_num
  · have assoc : (writeLE 2 totalLen ++ writeLE 2 key.length ++ key ++ writeLE 1 verFlow ++
        writeLE 8 recStamp ++ writeLE 4 lenVal ++ tail).drop (4 + key.length + 1 + 8 + 4) = tail :=
      List.drop_left' whole
    simp only [List.append_assoc] at assoc
    exact assoc

theorem hasHeader_primaryBytes (crc32 : List Byte → ℕ) (totalLen recStamp lenVal : ℕ)
    {key : List Byte} (keyFits : key.length < 2 ^ 16) (overflowPage : Option OverflowPage)
    (value : List Byte) :
    ∃ tail, HasHeader (primaryBytes crc32 totalLen key recStamp lenVal .insert overflowPage value)
        key ((if overflowPage.isSome then recOverflow else 0) + 1) tail ∧
      (overflowPage = none → ∃ rest, tail = value ++ rest) := by
  unfold primaryBytes padTo
  simp only [reduceCtorEq, if_false, Nat.add_zero, List.append_assoc]
  refine ⟨_, hasHeader_of_append totalLen _ recStamp lenVal keyFits _, ?_⟩
  rintro rfl
  exact ⟨_, rfl⟩

theorem bysValStart_primaryBytes (crc32 : List Byte → ℕ) (totalLen recStamp lenVal : ℕ)
    {key : List Byte} (keyFits : key.length < 2 ^ 16) (overflowPage : Option OverflowPage)
    (value : List Byte)
    (inPage : ∀ page, overflowPage = some page → ∃ rest, page.bysPage = value ++ rest) :
    ∃ rest, RecStruct.bysValStart
      (primaryBytes crc32 totalLen key recStamp lenVal .insert overflowPage value) overflowPage =
        some (value ++ rest) := by
  obtain ⟨tail, header, inRecord⟩ :=
    hasHeader_primaryBytes crc32 totalLen recStamp lenVal keyFits overflowPage value
  unfold RecStruct.bysValStart RecStruct.hasOverflow
  rw [header.byVerFlow, header.keyLen, header.behind]
  cases overflowPage with
  | none =>
      obtain ⟨rest, eq⟩ := inRecord rfl
      refine ⟨rest, ?_⟩
      rw [eq]
      rfl
  | some page =>
      obtain ⟨rest, eq⟩ := inPage page rfl
      refine ⟨rest, ?_⟩
      rw [← eq, Option.isSome_some, if_pos rfl]
      exact if_pos (by decide)

/-- `GetPersistenceLength` announces the bytes that `WriteData` writes into a key. -/
def Announced (vctKey : List DataValue) : Prop :=
  ∀ value ∈ vctKey, value.persistenceLength .key = (value.writeData .key).length

theorem announced_dataValues (columns : List KeyColumn) (row : KeyRow columns) :
    Announced (KeyRow.dataValues columns row) := by
  induction columns with
  | nil => exact fun value mem => absurd mem List.not_mem_nil
  | cons column columns ih =>
      intro value mem
      rcases List.mem_cons.mp mem with rfl | mem
      · exact (column.length_writeKey _).symm
      · exact ih _ value mem

theorem calcKeyLength_eq {vctKey : List DataValue} (announced : Announced vctKey)
    (fits : (rawKey vctKey).length ≤ maxKeyLength) :
    calcKeyLength vctKey = (rawKey vctKey).length := by
  have sum : (vctKey.map fun value => value.persistenceLength .key).sum =
      (rawKey vctKey).length := by
    unfold rawKey
    rw [List.length_flatMap]
    exact congrArg List.sum (List.map_congr_left announced)
  have wraps : (rawKey vctKey).length % 2 ^ 32 = (rawKey vctKey).length :=
    Nat.mod_eq_of_lt (lt_of_le_of_lt fits (by decide))
  unfold calcKeyLength
  rw [sum, wraps, if_neg (not_lt.mpr fits)]

theorem bysPage_overflowPageFor {pageId : PageID} {lenKey lenVal : ℕ} {value : List Byte}
    {page : OverflowPage} (overflow : overflowPageFor pageId lenKey lenVal value = some page) :
    (∃ rest, page.bysPage = value ++ rest) ∧ page.pageNum = overflowPageNum lenVal := by
  unfold overflowPageFor at overflow
  split at overflow
  · cases overflow
    exact ⟨⟨_, rfl⟩, rfl⟩
  · cases overflow

section Record

variable {vctKey : List DataValue} (announced : Announced vctKey)
  (keyFits : (rawKey vctKey).length ≤ maxKeyLength) (fields : List Field) (recStamp : ℕ)
  (stmt : Option StatementRef) (fresh : NewRecord)

/-- The record that the constructor builds for a row. -/
def primaryRecord (vctKey : List DataValue) (fields : List Field) (recStamp : ℕ)
    (stmt : Option StatementRef) (fresh : NewRecord) : LeafRecord :=
  LeafRecord.newPrimary (Field.format fields) vctKey (fields.map Field.dataValue) recStamp stmt
    fresh

/-- The length of the value part of a row. -/
def valueLength (fields : List Field) : ℕ :=
  calcValueLength (Field.format fields) (fields.map Field.dataValue) .insert

include announced keyFits

theorem primaryRecord_eq :
    ∃ body totalLen, primaryRecord vctKey fields recStamp stmt fresh =
        LeafRecord.ofBody body (LeafRecord.newLock fresh.lockAddr .insert stmt) ∧
      body.overflowPage = overflowPageFor fresh.ovfPageId (rawKey vctKey).length
        (valueLength fields) (fillValueBuff (Field.format fields) (fields.map Field.dataValue)) ∧
      body.bysVal = primaryBytes fresh.crc32 totalLen (rawKey vctKey) recStamp
        (valueLength fields) .insert body.overflowPage
        (fillValueBuff (Field.format fields) (fields.map Field.dataValue)) ∧
      body.bDelete = false := by
  have short : ¬calcKeyLength vctKey > maxKeyLength := by
    rw [calcKeyLength_eq announced keyFits]
    exact not_lt.mpr keyFits
  have whole : (vctKey.flatMap fun value => value.writeData .key).take (calcKeyLength vctKey) =
      rawKey vctKey :=
    List.take_of_length_le (le_of_eq (calcKeyLength_eq announced keyFits).symm)
  unfold primaryRecord LeafRecord.newPrimary
  simp only [if_neg short, whole]
  refine ⟨_, _, rfl, ?_, rfl, rfl⟩
  rw [calcKeyLength_eq announced keyFits]
  rfl

end Record

/-!
## Projected reads
-/

/-- The map of a projected read: different fields at different positions of the result. The last
`uint32_t` stands for the record stamp. -/
structure IsProjection (mapPos : List (ℕ × ℕ)) : Prop where
  fields : (mapPos.map Prod.fst).Nodup
  positions : (mapPos.map Prod.snd).Nodup
  inside : ∀ entry ∈ mapPos, entry.2 < mapPos.length

variable {mapPos : List (ℕ × ℕ)}

theorem lookup_eq (fields : (mapPos.map Prod.fst).Nodup) {i position : ℕ} :
    mapPos.lookup i = some position ↔ (i, position) ∈ mapPos := by
  rw [List.lookup_eq_some_iff]
  constructor
  · rintro ⟨front, rest, rfl, -⟩
    simp
  · intro mem
    obtain ⟨front, rest, rfl⟩ := List.append_of_mem mem
    refine ⟨front, rest, rfl, ?_⟩
    intro entry memFront
    rw [bne_iff_ne]
    rintro rfl
    rw [List.map_append, List.nodup_append] at fields
    exact fields.2.2 _ (List.mem_map_of_mem memFront) _ List.mem_cons_self rfl

section PlaceValues

variable {mapPos : List (ℕ × ℕ)} {position : ℕ}

/-- The step of the loop that puts a value where the map says. -/
abbrev placeStep (mapPos : List (ℕ × ℕ)) (vct : List (Option FieldValue))
    (entry : FieldValue × ℕ) : List (Option FieldValue) :=
  match mapPos.lookup entry.2 with
  | some position => vct.set position (some entry.1)
  | none => vct

theorem length_placeStep (vct : List (Option FieldValue)) (entry : FieldValue × ℕ) :
    (placeStep mapPos vct entry).length = vct.length := by
  unfold placeStep
  split
  · exact List.length_set ..
  · rfl

theorem foldl_placeStep_other {entries : List (FieldValue × ℕ)}
    (other : ∀ entry ∈ entries, mapPos.lookup entry.2 ≠ some position)
    (vct : List (Option FieldValue)) :
    (entries.foldl (placeStep mapPos) vct)[position]? = vct[position]? := by
  induction entries generalizing vct with
  | nil => rfl
  | cons entry entries ih =>
      rw [List.foldl_cons, ih fun entry mem => other entry (List.mem_cons_of_mem _ mem)]
      have apart := other entry List.mem_cons_self
      unfold placeStep
      split
      · next place found =>
          apply List.getElem?_set_ne
          intro same
          exact apart (found.trans (congrArg some same))
      · rfl

theorem foldl_placeStep_field (positions : ∀ i j, mapPos.lookup i = some position →
      mapPos.lookup j = some position → i = j)
    {entries : List (FieldValue × ℕ)} (distinct : (entries.map Prod.snd).Nodup)
    {entry : FieldValue × ℕ} (mem : entry ∈ entries)
    (found : mapPos.lookup entry.2 = some position) (vct : List (Option FieldValue))
    (inside : position < vct.length) :
    (entries.foldl (placeStep mapPos) vct)[position]? = some (some entry.1) := by
  induction entries generalizing vct with
  | nil => cases mem
  | cons first entries ih =>
      rw [List.map_cons, List.nodup_cons] at distinct
      rw [List.foldl_cons]
      rcases List.mem_cons.mp mem with rfl | mem
      · rw [foldl_placeStep_other]
        · unfold placeStep
          rw [found]
          exact List.getElem?_set_self inside
        · intro other memOther same
          have index := positions _ _ found same
          rw [index] at distinct
          exact distinct.1 (List.mem_map_of_mem memOther)
      · apply ih distinct.2 mem
        rw [length_placeStep]
        exact inside

theorem placeValues_projection (projection : IsProjection mapPos) (values : List FieldValue)
    (recStamp : ℕ) {i : ℕ} (mem : (i, position) ∈ mapPos) (column : i < values.length)
    (notStamp : i ≠ 2 ^ 32 - 1) :
    (placeValues mapPos values recStamp)[position]? = (values.map some)[i]? := by
  have found := (lookup_eq projection.fields).mpr mem
  have positions : ∀ i j, mapPos.lookup i = some position →
      mapPos.lookup j = some position → i = j := by
    intro i j foundI foundJ
    rw [lookup_eq projection.fields] at foundI foundJ
    have same := List.inj_on_of_nodup_map projection.positions foundI foundJ rfl
    exact congrArg Prod.fst same
  have nonempty : ¬mapPos.length = 0 := by
    have inside := projection.inside _ mem
    omega
  have memValue : (values[i], i) ∈ values.zipIdx := by
    rw [List.mem_zipIdx_iff_getElem?]
    exact List.getElem?_eq_getElem column
  have distinct : (values.zipIdx.map Prod.snd).Nodup := by
    rw [List.zipIdx_map_snd]
    exact List.nodup_range' ..
  have placed := foldl_placeStep_field positions distinct memValue found
    (List.replicate mapPos.length none) (by simpa using projection.inside _ mem)
  rw [List.getElem?_map, List.getElem?_eq_getElem column, Option.map_some]
  unfold placeValues
  simp only [if_neg nonempty]
  split
  · next place stamp =>
      rw [List.getElem?_set_ne]
      · exact placed
      · rintro rfl
        exact notStamp (positions _ _ found stamp)
  · exact placed

theorem placeValues_full (values : List FieldValue) (recStamp : ℕ) :
    placeValues [] values recStamp = values.map some :=
  rfl

end PlaceValues

/-!
## Round trip
-/

theorem readTarget_ofBody (body : RecordBody) (lock : Option RecordLock) (reader : StatementRef)
    (atype : ActionType) :
    (LeafRecord.ofBody body lock).readTarget reader atype = .error .locked ∨
      ∃ record lr, (LeafRecord.ofBody body lock).readTarget reader atype = .ok (record, lr) ∧
        lr.body = body := by
  cases lock with
  | none => exact Or.inr ⟨_, _, rfl, rfl⟩
  | some lock =>
      simp only [LeafRecord.ofBody, LeafRecord.readTarget, LeafRecord.recLock]
      split
      · split
        · exact Or.inl rfl
        · exact Or.inr ⟨_, _, rfl, rfl⟩
      · split
        · exact Or.inl rfl
        · split
          · exact Or.inl rfl
          · exact Or.inr ⟨_, _, rfl, rfl⟩

/-- A read of a record that returns values. -/
def IsRead (format : IndexFormat) (mapPos : List (ℕ × ℕ)) (record : LeafRecord)
    (vctVal : List (Option FieldValue)) : Prop :=
  ∃ reader atype bGapLock lockAddr outcome,
    record.readListValue format mapPos reader atype bGapLock lockAddr = some outcome ∧
      (outcome.result = .okLock ∨ outcome.result = .okNolock) ∧ outcome.vctVal = vctVal

variable {format : IndexFormat} {vctVal : List (Option FieldValue)}

theorem values_of_isRead {body : RecordBody} {lock : Option RecordLock}
    (isRead : IsRead format mapPos (LeafRecord.ofBody body lock) vctVal) :
    LeafRecord.readVersion format mapPos body = some vctVal := by
  obtain ⟨reader, atype, bGapLock, lockAddr, outcome, read, ok, rfl⟩ := isRead
  unfold LeafRecord.readListValue at read
  rcases readTarget_ofBody body lock reader atype with target | ⟨record, lr, target, same⟩
  · rw [target] at read
    cases read
    rcases ok with ok | ok <;> cases ok
  · rw [target] at read
    simp only at read
    split at read
    · cases read
      rcases ok with ok | ok <;> cases ok
    · rw [same] at read
      obtain ⟨values, version, rfl⟩ := Option.map_eq_some_iff.mp read
      exact version

theorem isRead_of_target {start record lr : LeafRecord} {reader : StatementRef} {atype : ActionType}
    (target : start.readTarget reader atype = .ok (record, lr)) (stays : lr.isDelete = false)
    (version : LeafRecord.readVersion format mapPos lr.body = some vctVal) :
    IsRead format mapPos start vctVal := by
  refine ⟨reader, atype, false, 0, ⟨if (if atype.isReadLock then
      record.addReadLock reader atype false 0 else (record, false)).2 then .okLock else .okNolock,
    vctVal, (if atype.isReadLock then
      record.addReadLock reader atype false 0 else (record, false)).1⟩, ?_, ?_, rfl⟩
  · unfold LeafRecord.readListValue
    rw [target]
    simp only [stays, Bool.false_eq_true, if_false, version, Option.map_some]
  · exact ite_eq_or_eq _ _ _

theorem isRead_of_readVersion {body : RecordBody} (lockAddr : ℕ) (stmt : Option StatementRef)
    (stays : body.bDelete = false)
    (version : LeafRecord.readVersion format mapPos body = some vctVal) :
    IsRead format mapPos (LeafRecord.ofBody body (LeafRecord.newLock lockAddr .insert stmt))
      vctVal := by
  cases stmt with
  | none =>
      have target : (LeafRecord.unlocked body).readTarget ⟨0, 0⟩ .noAction =
          .ok (.unlocked body, .unlocked body) := rfl
      exact isRead_of_target target stays version
  | some stmt =>
      let lock := RecordLock.new lockAddr .insert .init false .init stmt
      have own : LeafRecord.otherHolder lock stmt.txid = false := by
        simp [lock, LeafRecord.otherHolder, RecordLock.new]
      let held := LeafRecord.locked body (LeafRecord.dropLeftSharers lock stmt.txid)
      have target : (LeafRecord.locked body lock).readTarget stmt .update = .ok (held, held) := by
        simp only [LeafRecord.readTarget, LeafRecord.recLock]
        rw [if_pos (by decide), own, if_neg Bool.false_ne_true]
        rfl
      exact isRead_of_target target stays version

/-- What the codec of records promises for a row. -/
structure RoundTrips (vctKey : List DataValue) (fields : List Field) (record : LeafRecord) :
    Prop where
  key : record.getKey = rawKey vctKey
  room : ∀ page, record.body.overflowPage = some page →
    valueLength fields ≤ indexPageSize * page.pageNum
  readable : ∀ mapPos, ∃ vctVal, IsRead (Field.format fields) mapPos record vctVal
  read : ∀ vctVal, IsRead (Field.format fields) [] record vctVal →
    vctVal.length = fields.length ∧
      List.zipWith (fun field value => value.bind (Field.readBack field.1)) fields vctVal =
        fields.map some
  projected : ∀ mapPos, IsProjection mapPos → ∀ vctVal full,
    IsRead (Field.format fields) mapPos record vctVal →
    IsRead (Field.format fields) [] record full →
    ∀ i position, (i, position) ∈ mapPos → i < fields.length → i ≠ 2 ^ 32 - 1 →
      vctVal[position]? = full[i]?

theorem readBack_fieldValue (field : Field) :
    Field.readBack field.1 field.fieldValue = some field ↔
      (field.2.isSome = true → field.stored ≠ []) := by
  obtain ⟨column, value⟩ := field
  cases value with
  | none => exact iff_of_true rfl nofun
  | some value =>
      have stored : Field.stored ⟨column, some value⟩ = column.writeData value := rfl
      unfold Field.fieldValue
      rw [stored]
      cases bytes : column.writeData value with
      | nil =>
          apply iff_of_false
          · intro same
            cases same
          · exact fun apart => apart rfl rfl
      | cons byte rest =>
          rw [List.length_cons, if_pos (Nat.succ_pos _), ← bytes]
          refine iff_of_true ?_ fun _ => by simp [bytes]
          change (column.readData (column.writeData value)).map _ = _
          rw [ValueColumn.readData_writeData]
          rfl

theorem body_ofBody (body : RecordBody) (lock : Option RecordLock) :
    (LeafRecord.ofBody body lock).body = body := by
  cases lock <;> rfl

theorem le_overflowPageNum_iff {lenVal : ℕ} (positive : 0 < lenVal) :
    lenVal ≤ indexPageSize * overflowPageNum lenVal ↔ lenVal ≤ indexPageSize * 65535 := by
  unfold overflowPageNum indexPageSize
  omega

theorem valueLength_le_of_inPage {pageId : PageID} {lenKey lenVal : ℕ} {value : List Byte}
    (keyFits : lenKey ≤ maxKeyLength)
    (inPage : overflowPageFor pageId lenKey lenVal value = none) :
    lenVal ≤ indexPageSize * 65535 := by
  unfold overflowPageFor at inPage
  split at inPage
  · cases inPage
  · next short =>
      unfold maxValueLength maxRecordLength at short
      unfold maxKeyLength at keyFits
      unfold indexPageSize
      omega

section Body

variable {vctKey : List DataValue} {fields : List Field} {body : RecordBody}
  {crc32 : List Byte → ℕ} {totalLen recStamp lockAddr : ℕ} {pageId : PageID}
  {stmt : Option StatementRef}

theorem valueLength_le_of_roundTrips {record : LeafRecord}
    (keyFits : (rawKey vctKey).length ≤ maxKeyLength)
    (overflow : record.body.overflowPage = overflowPageFor pageId (rawKey vctKey).length
      (valueLength fields) (fillValueBuff (Field.format fields) (fields.map Field.dataValue)))
    (roundTrips : RoundTrips vctKey fields record) :
    valueLength fields ≤ indexPageSize * 65535 := by
  have room := roundTrips.room
  rw [overflow] at room
  cases page : overflowPageFor pageId (rawKey vctKey).length (valueLength fields)
      (fillValueBuff (Field.format fields) (fields.map Field.dataValue)) with
  | none => exact valueLength_le_of_inPage keyFits page
  | some overflowPage =>
      have fits := room overflowPage page
      rw [(bysPage_overflowPageFor page).2] at fits
      rcases Nat.eq_zero_or_pos (valueLength fields) with zero | positive
      · rw [zero]
        exact Nat.zero_le _
      · exact (le_overflowPageNum_iff positive).mp fits

variable (keyFits : (rawKey vctKey).length ≤ maxKeyLength)
  (sized : ∀ field ∈ fields, field.1.Sized)
  (overflow : body.overflowPage = overflowPageFor pageId (rawKey vctKey).length
    (valueLength fields) (fillValueBuff (Field.format fields) (fields.map Field.dataValue)))
  (bytes : body.bysVal = primaryBytes crc32 totalLen (rawKey vctKey) recStamp
    (valueLength fields) .insert body.overflowPage
    (fillValueBuff (Field.format fields) (fields.map Field.dataValue)))
  (stays : body.bDelete = false)

include keyFits sized overflow bytes

theorem readVersion_primaryRecord (mapPos : List (ℕ × ℕ)) :
    LeafRecord.readVersion (Field.format fields) mapPos body =
      some (placeValues mapPos (fields.map Field.fieldValue) (RecStruct.stamp body.bysVal)) := by
  have short : (rawKey vctKey).length < 2 ^ 16 := lt_of_le_of_lt keyFits (by decide)
  obtain ⟨rest, start⟩ := bysValStart_primaryBytes crc32 totalLen recStamp (valueLength fields)
    short body.overflowPage (fillValueBuff (Field.format fields) (fields.map Field.dataValue))
    (fun page isPage => (bysPage_overflowPageFor (overflow ▸ isPage)).1)
  unfold LeafRecord.readVersion
  rw [← bytes] at start
  rw [start, Option.map_some]
  exact congrArg some (congrArg (fun values => placeValues mapPos values _)
    (readColumns_fillValueBuff sized rest))

include stays

theorem isRead_full :
    IsRead (Field.format fields) []
      (LeafRecord.ofBody body (LeafRecord.newLock lockAddr .insert stmt))
      (fields.map fun field => some field.fieldValue) := by
  have version := readVersion_primaryRecord keyFits sized overflow bytes []
  rw [placeValues_full, List.map_map] at version
  exact isRead_of_readVersion lockAddr stmt stays version

theorem stored_ne_nil_of_roundTrips
    (roundTrips : RoundTrips vctKey fields
      (LeafRecord.ofBody body (LeafRecord.newLock lockAddr .insert stmt))) :
    ∀ field ∈ fields, field.2.isSome = true → field.stored ≠ [] := by
  have back := (roundTrips.read _ (isRead_full keyFits sized overflow bytes stays)).2
  rw [List.zipWith_map_right, List.zipWith_self] at back
  intro field mem
  have same := List.map_inj_left.mp back field mem
  exact (readBack_fieldValue field).mp same

theorem roundTrips_of_stored_ne_nil
    (nonempty : ∀ field ∈ fields, field.2.isSome = true → field.stored ≠ [])
    (short : valueLength fields ≤ indexPageSize * 65535) :
    RoundTrips vctKey fields
      (LeafRecord.ofBody body (LeafRecord.newLock lockAddr .insert stmt)) := by
  have version := readVersion_primaryRecord keyFits sized overflow bytes
  have keyShort : (rawKey vctKey).length < 2 ^ 16 := lt_of_le_of_lt keyFits (by decide)
  refine ⟨?_, ?_, ?_, ?_, ?_⟩
  · -- the key
    obtain ⟨tail, header, -⟩ := hasHeader_primaryBytes crc32 totalLen recStamp
      (valueLength fields) keyShort body.overflowPage
      (fillValueBuff (Field.format fields) (fields.map Field.dataValue))
    change RecStruct.bysKey (LeafRecord.ofBody body _).body.bysVal = _
    rw [body_ofBody, bytes]
    exact header.bysKey
  · -- the room in the overflow page
    intro page isPage
    rw [body_ofBody, overflow] at isPage
    rw [(bysPage_overflowPageFor isPage).2]
    rcases Nat.eq_zero_or_pos (valueLength fields) with zero | positive
    · rw [zero]
      exact Nat.zero_le _
    · exact (le_overflowPageNum_iff positive).mpr short
  · exact fun mapPos => ⟨_, isRead_of_readVersion lockAddr stmt stays (version mapPos)⟩
  · -- a full read
    intro vctVal isRead
    have values := values_of_isRead isRead
    rw [version, placeValues_full, List.map_map] at values
    cases values
    refine ⟨List.length_map .., ?_⟩
    rw [List.zipWith_map_right, List.zipWith_self]
    apply List.map_congr_left
    intro field mem
    exact (readBack_fieldValue field).mpr (nonempty field mem)
  · -- a projected read
    intro mapPos projection vctVal full isRead isFull i position mem column notStamp
    have values := values_of_isRead isRead
    have fullValues := values_of_isRead isFull
    rw [version] at values
    rw [version, placeValues_full] at fullValues
    cases values
    cases fullValues
    apply placeValues_projection projection _ _ mem _ notStamp
    rw [List.length_map]
    exact column

end Body

/-- The codec keeps its promise for a row exactly if no value of the row, apart from NULL, is
stored as nothing and the number of its overflow pages fits into a `uint16_t`. -/
theorem roundTrips_iff (vctKey : List DataValue) (announced : Announced vctKey)
    (keyFits : (rawKey vctKey).length ≤ maxKeyLength) (fields : List Field)
    (sized : ∀ field ∈ fields, field.1.Sized) (recStamp : ℕ) (stmt : Option StatementRef)
    (fresh : NewRecord) :
    RoundTrips vctKey fields (primaryRecord vctKey fields recStamp stmt fresh) ↔
      (∀ field ∈ fields, field.2.isSome = true → field.stored ≠ []) ∧
        valueLength fields ≤ indexPageSize * 65535 := by
  obtain ⟨body, totalLen, eq, overflow, bytes, stays⟩ :=
    primaryRecord_eq announced keyFits fields recStamp stmt fresh
  rw [eq]
  constructor
  · intro roundTrips
    refine ⟨stored_ne_nil_of_roundTrips keyFits sized overflow bytes stays roundTrips, ?_⟩
    apply valueLength_le_of_roundTrips keyFits _ roundTrips
    · exact fresh.ovfPageId
    · rw [body_ofBody]
      exact overflow
  · rintro ⟨nonempty, short⟩
    exact roundTrips_of_stored_ne_nil keyFits sized overflow bytes stays nonempty short

/-- The key with the value 7 of an `INT` column. -/
def sampleKey : List DataValue :=
  KeyRow.dataValues [.digit .int] (toLex (⟨7, by decide⟩, PUnit.unit))

theorem announced_sampleKey : Announced sampleKey :=
  announced_dataValues _ _

/-- An `INT` of value 5, a `VARCHAR` that is NULL and a `BLOB` of one byte. -/
def sampleFields : List Field :=
  [⟨.digit .int, some ⟨5, by decide⟩⟩, ⟨.varChar 10, none⟩, ⟨.blob 10, some ⟨[0], by decide⟩⟩]

theorem roundTrips_sampleFields :
    RoundTrips sampleKey sampleFields
      (primaryRecord sampleKey sampleFields 1 none ⟨1, 2, 3, crc32⟩) :=
  (roundTrips_iff sampleKey announced_sampleKey (by decide) sampleFields
    (by simp [sampleFields, ValueColumn.Sized]) 1 none ⟨1, 2, 3, crc32⟩).mpr ⟨by decide, by decide⟩

/-- A `BLOB` that has a value of no bytes. -/
def emptyBlob : List Field :=
  [⟨.blob 10, some ⟨[], by decide⟩⟩]

/-- The empty value is read as NULL. -/
theorem not_roundTrips_emptyBlob :
    ¬RoundTrips sampleKey emptyBlob
      (primaryRecord sampleKey emptyBlob 1 none ⟨1, 2, 3, crc32⟩) := by
  intro roundTrips
  obtain ⟨body, totalLen, eq, overflow, bytes, stays⟩ :=
    primaryRecord_eq announced_sampleKey (by decide) emptyBlob 1 none ⟨1, 2, 3, crc32⟩
  rw [eq] at roundTrips
  have nonempty := stored_ne_nil_of_roundTrips (by decide)
    (by simp [emptyBlob, ValueColumn.Sized]) overflow bytes stays roundTrips
  exact nonempty _ (List.mem_singleton_self _) rfl rfl

end RapidDb
