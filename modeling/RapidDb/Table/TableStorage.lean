import RapidDb.Table.TableData

/-!
# What survives the storage of a table

The walk of `SaveData` stores as many bytes as `CalcSize` announces, and `LoadData` reads every
column and index back. But the length is stored where the pointer stands after the walk, behind
the announced bytes, and the place at the front stays as it was. So no buffer of the announced
size takes a table.
-/

namespace RapidDb

open Bytes

namespace IDataValue

@[simp]
theorem length_writeData (dv : IDataValue) : dv.writeData.length = dv.persistenceLength := by
  cases dv with
  | digit type value =>
      cases value with
      | none => rfl
      | some value => simp [writeData, persistenceLength, DigitType.toBytes]
  | valNull => rfl
  | float value | double value | bool value | dateTime value | fixChar value | varChar value
  | blob value =>
      cases value <;> simp [writeData, persistenceLength]

end IDataValue

theorem DataType.ofCode_code (type : DataType) : DataType.ofCode type.code = some type := by
  cases type <;> decide

theorem IndexType.ofCode_code (type : IndexType) : IndexType.ofCode type.code = some type := by
  cases type <;> rfl

namespace IDataValue

theorem readDigit_toBytes {type : DigitType} (value : type.Value) (rest : List Byte) :
    readDigit type (type.toBytes value.val false ++ rest) =
      some (digit type (some value), rest) := by
  have length : (type.toBytes value.val false).length = type.size := by
    simp [DigitType.toBytes]
  have readBack : (ValueColumn.digit type).readData (type.toBytes value.val false) = some value :=
    ValueColumn.readData_writeData (.digit type) value
  rw [readDigit, ← length, takeBytes_append]
  simp only [Option.bind_eq_bind, Option.bind_some, readBack]
  rfl

theorem readNumber_bits {format : BinaryFormat} (value : BinaryNumber format) :
    readNumber format value.bits = some value := by
  rw [readNumber, dif_pos value.bits_lt, dif_pos value.isNumber]

theorem readData_writeData {dv : IDataValue} (notNull : dv.isNull = false) (rest : List Byte) :
    readData dv.getDataType dv.persistenceLength (dv.writeData ++ rest) = some (dv, rest) := by
  cases dv with
  | digit type value =>
      cases value with
      | none => cases notNull
      | some value => cases type <;> exact readDigit_toBytes value rest
  | float value =>
      cases value with
      | none => cases notNull
      | some value =>
          have small : value.bits % 256 ^ 4 = value.bits := Nat.mod_eq_of_lt value.bits_lt
          simp only [getDataType, readData, writeData, takeField_writeLE, Option.bind_eq_bind,
            Option.bind_some, small, readNumber_bits]
          rfl
  | double value =>
      cases value with
      | none => cases notNull
      | some value =>
          have small : value.bits % 256 ^ 8 = value.bits := Nat.mod_eq_of_lt value.bits_lt
          simp only [getDataType, readData, writeData, takeField_writeLE, Option.bind_eq_bind,
            Option.bind_some, small, readNumber_bits]
          rfl
  | bool value =>
      cases value with
      | none => cases notNull
      | some value => cases value <;> simp [getDataType, readData, writeData]
  | dateTime value =>
      cases value with
      | none => cases notNull
      | some value =>
          have small : value.val % 256 ^ 8 = value.val := Nat.mod_eq_of_lt value.isLt
          simp only [getDataType, readData, writeData, takeField_writeLE, Option.bind_eq_bind,
            Option.bind_some, small, Fin.ofNat_val_eq_self]
          rfl
  | fixChar bysValue | varChar bysValue | blob bysValue =>
      cases bysValue with
      | none => cases notNull
      | some bysValue => simp [getDataType, readData, writeData, persistenceLength]
  | valNull => cases notNull

end IDataValue

namespace PhysColumn

/-- A column whose texts fit their lengths, with a default value that is there or left out. -/
structure Storable (column : PhysColumn) (index : ℕ) : Prop where
  index : column.index = index
  name : column.name.length < 256 ^ UI16_LEN
  comments : column.comments.length < 256 ^ UI16_LEN
  default : ∀ value, column.defaultVal = some value → value.getDataType = column.dataType ∧
    value.isNull = false ∧ 0 < value.persistenceLength ∧ value.persistenceLength < 256 ^ UI16_LEN

theorem readDefault_writeDefault {column : PhysColumn} {index : ℕ}
    (storable : column.Storable index) (rest : List Byte) :
    readDefault column.dataType (column.defaultLength % 256 ^ UI16_LEN)
      (column.writeDefault ++ rest) = some (column.defaultVal, rest) := by
  cases isDefault : column.defaultVal with
  | none => simp [readDefault, writeDefault, defaultLength, isDefault]
  | some value =>
      rcases storable.default value isDefault with ⟨type, notNull, positive, fits⟩
      simp only [readDefault, writeDefault, defaultLength, isDefault, Nat.mod_eq_of_lt fits,
        if_pos positive, ← type, IDataValue.readData_writeData notNull, Option.map_some]

theorem readData_writeData {column : PhysColumn} {index : ℕ} (storable : column.Storable index)
    (rest : List Byte) : readData index (column.writeData ++ rest) = some (column, rest) := by
  have code : column.dataType.code % 256 ^ UI32_LEN = column.dataType.code := by
    cases column.dataType <;> rfl
  have charset : column.charset.toNat % 256 ^ UI16_LEN = column.charset.toNat :=
    Nat.mod_eq_of_lt column.charset.isLt
  have maxLength : column.maxLength.toNat % 256 ^ UI32_LEN = column.maxLength.toNat :=
    Nat.mod_eq_of_lt column.maxLength.isLt
  have initVal : column.initVal.toNat % 256 ^ UI64_LEN = column.initVal.toNat :=
    Nat.mod_eq_of_lt column.initVal.isLt
  have incStep : column.incStep.toNat % 256 ^ UI64_LEN = column.incStep.toNat :=
    Nat.mod_eq_of_lt column.incStep.isLt
  have nullable : decide ((if column.nullable then 0 else 1) % 256 ^ 1 = 0) = column.nullable := by
    cases column.nullable <;> rfl
  have readBack := readDefault_writeDefault storable rest
  rw [writeData]
  simp only [List.append_assoc]
  simp only [readData, ↓bind_takeField, ↓bind_takeBytes, Nat.mod_eq_of_lt storable.name,
    Nat.mod_eq_of_lt storable.comments, code, charset, maxLength, initVal, incStep, nullable,
    DataType.ofCode_code, BitVec.ofNat_toNat, BitVec.setWidth_eq, ← storable.index]
  simp only [Option.bind_eq_bind, Option.bind_some, readBack]
  rfl

@[simp]
theorem length_writeData (column : PhysColumn) : column.writeData.length = column.calcSize := by
  have default : column.writeDefault.length = column.defaultLength := by
    cases isDefault : column.defaultVal <;> simp [writeDefault, defaultLength, isDefault]
  simp only [writeData, calcSize, List.length_append, length_writeLE, default, UI16_LEN]
  omega

end PhysColumn

namespace IndexProp

@[simp]
theorem length_write (prop : IndexProp) : prop.write.length = prop.calcSize := by
  simp only [write, calcSize, writeColumn, List.length_append, length_writeLE, List.length_flatMap]
  omega

structure Storable (prop : IndexProp) (mapColumnPos : KeyMap (List Byte)) (position : ℕ) :
    Prop where
  position : prop.position = position
  name : prop.name.length < 256 ^ UI16_LEN
  count : prop.vctCol.length < 256 ^ UI16_LEN
  columns : ∀ col ∈ prop.vctCol, col.colName.length < 256 ^ UI16_LEN ∧
    mapColumnPos.find col.colName = some col.colPos

theorem readColumn_writeColumn {mapColumnPos : KeyMap (List Byte)} {col : IndexColumn}
    (fits : col.colName.length < 256 ^ UI16_LEN)
    (found : mapColumnPos.find col.colName = some col.colPos) (rest : List Byte) :
    readColumn mapColumnPos (writeColumn col ++ rest) = some (col, rest) := by
  rw [writeColumn]
  simp only [List.append_assoc]
  simp only [readColumn, ↓bind_takeField, ↓bind_takeBytes, Nat.mod_eq_of_lt fits, found]
  rfl

theorem read_write {mapColumnPos : KeyMap (List Byte)} {prop : IndexProp} {position : ℕ}
    (storable : prop.Storable mapColumnPos position) (rest : List Byte) :
    read mapColumnPos position (prop.write ++ rest) = some (prop, rest) := by
  have code : prop.type.code % 256 ^ 1 = prop.type.code := by cases prop.type <;> rfl
  have columns : takeMany (fun _ => readColumn mapColumnPos) 0 prop.vctCol.length
      (prop.vctCol.flatMap writeColumn ++ rest) = some (prop.vctCol, rest) := by
    apply takeMany_flatMap
    intro pos col colEq rest
    rcases storable.columns col (List.mem_of_getElem? colEq) with ⟨fits, found⟩
    exact readColumn_writeColumn fits found rest
  rw [write]
  simp only [List.append_assoc]
  simp only [read, ↓bind_takeField, ↓bind_takeBytes, Nat.mod_eq_of_lt storable.name,
    Nat.mod_eq_of_lt storable.count, code, IndexType.ofCode_code, columns, ← storable.position]
  rfl

end IndexProp

namespace PhysTable

theorem calcSize_eq (table : PhysTable) :
    table.calcSize = (UI32_LEN + table.content.length) % 2 ^ 32 := by
  have columns : table.vctColumn.map (fun column => column.writeData.length) =
      table.vctColumn.map PhysColumn.calcSize := by simp
  have indexes : table.vctIndex.map (fun prop => prop.write.length) =
      table.vctIndex.map IndexProp.calcSize := by simp
  rw [calcSize]
  congr 1
  simp only [content, List.length_append, length_writeLE, List.length_flatMap, columns, indexes,
    UI16_LEN, UI32_LEN, UI64_LEN]
  omega

theorem saveData_announced {table : PhysTable} {bys : List Byte}
    (announced : bys.length = table.calcSize) : table.saveData bys = none := by
  have size := table.calcSize_eq
  have noRoom : bys.length < UI32_LEN + table.content.length + UI32_LEN := by
    have le := Nat.mod_le (UI32_LEN + table.content.length) (2 ^ 32)
    simp only [UI32_LEN] at *
    omega
  rw [saveData]
  cases first : store UI32_LEN table.content bys with
  | none => rfl
  | some stored =>
      have sameLength := length_store first
      have outside := @store_eq_none _
        (writeLE UI32_LEN ((UI32_LEN + table.content.length) % 2 ^ 32)) stored
        (by rw [length_writeLE, sameLength]; exact noRoom)
      simp only [Option.bind_eq_bind, Option.bind_some, outside, Option.bind_none]

/-- The definition survives in a buffer: it is stored within the announced bytes, which begin
with their number, and is read back from them. -/
def Survives (table : PhysTable) : Prop :=
  ∀ bys : List Byte, table.calcSize ≤ bys.length →
    ∃ result, table.saveData bys = some (result, table.calcSize) ∧
      result.drop table.calcSize = bys.drop table.calcSize ∧
      readLE UI32_LEN result = table.calcSize ∧ loadData result = some (table, table.calcSize)

/-- No table survives its storage. -/
theorem not_survives (table : PhysTable) : ¬table.Survives := by
  intro survives
  have announced : (List.replicate table.calcSize (0 : Byte)).length = table.calcSize :=
    List.length_replicate
  rcases survives _ announced.ge with ⟨result, saved, -⟩
  rw [saveData_announced announced] at saved
  cases saved

/-- A table whose texts and counts fit their lengths, with the maps of its columns and indexes. -/
structure Storable (table : PhysTable) : Prop where
  fullName : table.fullName.length < 256 ^ UI16_LEN
  columnCount : table.vctColumn.length < 256 ^ UI16_LEN
  columns : ∀ (pos : ℕ) (column : PhysColumn), table.vctColumn[pos]? = some column →
    column.Storable pos
  columnMap : addColumns table.vctColumn .empty = table.mapColumnPos
  indexCount : table.vctIndex.length < 256 ^ UI16_LEN
  indexes : ∀ (pos : ℕ) (prop : IndexProp), table.vctIndex[pos]? = some prop →
    prop.Storable table.mapColumnPos pos
  indexMaps : addIndexes table.vctIndex .empty .empty =
    some (table.mapIndexNamePos, table.mapIndexFirstField)

/-- The stored bytes are read back as the table, whatever stands in the place of the length. -/
theorem loadData_content {table : PhysTable} (storable : table.Storable) {front : List Byte}
    (frontLength : front.length = UI32_LEN) (rest : List Byte) :
    loadData (front ++ table.content ++ rest) =
      some (table, UI32_LEN + table.content.length) := by
  have columns (rest : List Byte) : takeMany PhysColumn.readData 0 table.vctColumn.length
      (table.vctColumn.flatMap PhysColumn.writeData ++ rest) = some (table.vctColumn, rest) := by
    apply takeMany_flatMap
    intro pos column columnEq rest
    rw [Nat.zero_add]
    exact PhysColumn.readData_writeData (storable.columns pos column columnEq) rest
  have indexes (rest : List Byte) : takeMany (IndexProp.read table.mapColumnPos) 0
      table.vctIndex.length (table.vctIndex.flatMap IndexProp.write ++ rest) =
        some (table.vctIndex, rest) := by
    apply takeMany_flatMap
    intro pos prop propEq rest
    rw [Nat.zero_add]
    exact IndexProp.read_write (storable.indexes pos prop propEq) rest
  have dtCreate : table.dtCreate.toNat % 256 ^ UI64_LEN = table.dtCreate.toNat :=
    Nat.mod_eq_of_lt table.dtCreate.isLt
  have dtLastUpdate : table.dtLastUpdate.toNat % 256 ^ UI64_LEN = table.dtLastUpdate.toNat :=
    Nat.mod_eq_of_lt table.dtLastUpdate.isLt
  have length : takeField UI32_LEN (front ++ table.content ++ rest) =
      some (readLE UI32_LEN (front ++ table.content ++ rest), table.content ++ rest) := by
    have enough : ¬(front ++ table.content ++ rest).length < UI32_LEN := by
      simp only [List.length_append, frontLength]
      omega
    rw [takeField, if_neg enough, List.append_assoc, List.drop_left' frontLength]
  rw [loadData, bind_read length, content]
  simp only [List.append_assoc]
  simp only [↓bind_takeField, ↓bind_takeBytes, Nat.mod_eq_of_lt storable.fullName,
    Nat.mod_eq_of_lt storable.columnCount, dtCreate, dtLastUpdate]
  rw [if_neg (by decide), bind_read (columns _)]
  simp only [↓bind_takeField, Nat.mod_eq_of_lt storable.indexCount, storable.columnMap]
  rw [bind_read (indexes rest)]
  simp only [storable.indexMaps, BitVec.ofNat_toNat, BitVec.setWidth_eq, Option.bind_eq_bind,
    Option.bind_some, Option.pure_def, List.length_append, frontLength, Option.some.injEq,
    Prod.mk.injEq, true_and]
  omega

/-- With four bytes more the table is stored and read back. The length stands behind the table,
and its place at the front keeps what was there. -/
theorem loadData_saveData {table : PhysTable} (storable : table.Storable)
    (small : UI32_LEN + table.content.length < 2 ^ 32) {front old length rest : List Byte}
    (frontLength : front.length = UI32_LEN) (oldLength : old.length = table.content.length)
    (lengthLength : length.length = UI32_LEN) :
    table.saveData (front ++ old ++ length ++ rest) =
        some (front ++ table.content ++ writeLE UI32_LEN table.calcSize ++ rest, table.calcSize) ∧
      loadData (front ++ table.content ++ writeLE UI32_LEN table.calcSize ++ rest) =
        some (table, table.calcSize) := by
  have size : table.calcSize = UI32_LEN + table.content.length := by
    rw [calcSize_eq, Nat.mod_eq_of_lt small]
  constructor
  · have walk := @store_eq_some _ _ (length ++ rest) _ _ frontLength oldLength
    have last := @store_eq_some (front ++ table.content) _ rest
      (writeLE UI32_LEN (UI32_LEN + table.content.length)) _
      (by rw [List.length_append, frontLength]) (by rw [lengthLength, length_writeLE])
    simp only [List.append_assoc] at walk last
    simp only [saveData, List.append_assoc, walk, Nat.mod_eq_of_lt small, Option.bind_eq_bind,
      Option.bind_some, last, size]
    rfl
  · rw [List.append_assoc (front ++ table.content), size]
    exact loadData_content storable frontLength _

/-- A table with the auto increment column id as its primary key. -/
def idTable : PhysTable where
  fullName := [100, 46, 116]
  dtCreate := 0
  dtLastUpdate := 0
  vctColumn := [{ name := [105, 100], index := 0, dataType := .long, nullable := false,
                  charset := 1, maxLength := -1, initVal := 1, incStep := 1, comments := [],
                  defaultVal := none }]
  mapColumnPos := [([105, 100], 0)]
  vctIndex := [{ name := [112], position := 0, type := .primary, vctCol := [⟨[105, 100], 0⟩] }]
  mapIndexNamePos := [([112], 0)]
  mapIndexFirstField := [(0, 0)]

theorem loadData_saveData_idTable :
    idTable.saveData (List.replicate 4 7 ++ List.replicate 74 7 ++ List.replicate 4 7 ++ []) =
        some (List.replicate 4 7 ++ idTable.content ++ writeLE UI32_LEN idTable.calcSize ++ [],
          idTable.calcSize) ∧
      loadData (List.replicate 4 7 ++ idTable.content ++ writeLE UI32_LEN idTable.calcSize ++ []) =
        some (idTable, idTable.calcSize) := by
  have length : idTable.content.length = 74 := by decide +kernel
  have storable : idTable.Storable := by
    refine ⟨by decide, by decide, ?_, rfl, by decide, ?_, rfl⟩
    · rintro (_ | pos) column ⟨⟩
      refine ⟨rfl, by decide, by decide, ?_⟩
      intro value isDefault
      cases isDefault
    · rintro (_ | pos) prop ⟨⟩
      refine ⟨rfl, by decide, by decide, ?_⟩
      rintro col (⟨⟩ | ⟨_, ⟨⟩⟩)
      exact ⟨by decide, rfl⟩
  exact loadData_saveData storable (by rw [length]; decide) rfl (by rw [length]; rfl) rfl

/-- A buffer of the announced 78 bytes is too small. With four bytes more the table is stored,
but it begins with the bytes that were there and has its length behind it. -/
theorem not_survives_idTable :
    idTable.calcSize = 78 ∧ idTable.saveData (List.replicate 78 7) = none ∧
      (idTable.saveData (List.replicate 82 7)).map (fun saved =>
        (saved.2, readLE 4 saved.1, readLE 4 (saved.1.drop 78))) = some (78, 0x07070707, 78) ∧
      ¬idTable.Survives := by
  have size : idTable.calcSize = 78 := by decide +kernel
  have fails : idTable.saveData (List.replicate 78 7) = none := by decide +kernel
  refine ⟨size, fails, by decide +kernel, ?_⟩
  intro survives
  rcases survives (List.replicate 78 7) (by rw [size]; decide) with ⟨result, saved, -⟩
  rw [fails] at saved
  cases saved

end PhysTable

end RapidDb
