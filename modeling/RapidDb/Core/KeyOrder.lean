import RapidDb.Core.LeafRecord
import RapidDb.DataType.KeyColumn

/-!
# The order of index entries

`CompareTo` orders the entries of an index by their keys, and those of a non-unique index by the
bytes of key and primary key. Both are the order of the column values.
-/

namespace RapidDb

open Bytes

namespace LeafRecord

/-- `CompareTo`. -/
def compareTo (record other : LeafRecord) : ℤ :=
  if record.body.indexType ≠ .nonUnique then
    bytesCompare record.getKey other.getKey
  else
    bytesCompare (slice 4 record.getDataLength record.body.bysVal)
      (slice 4 other.getDataLength other.body.bysVal)

theorem slice_secondaryBytes (key bysPri : List Byte) (recStamp : ℕ) :
    slice 4 (key.length + bysPri.length) (secondaryBytes key bysPri recStamp) = key ++ bysPri := by
  unfold slice secondaryBytes
  simp only [List.append_assoc]
  rw [← List.append_assoc (writeLE 2 _), List.drop_left' (by simp), ← List.append_assoc key,
    List.take_left' (by simp)]

theorem totalLen_secondaryBytes (key bysPri : List Byte) (recStamp : ℕ)
    (fits : key.length + bysPri.length + 4 + 8 < 2 ^ 16) :
    fieldAt 2 0 (secondaryBytes key bysPri recStamp) = key.length + bysPri.length + 4 + 8 := by
  simp only [secondaryBytes, fieldAt, List.drop_zero, List.append_assoc, readLE_writeLE_append]
  exact Nat.mod_eq_of_lt fits

theorem compareBytes_newSecondary (format : IndexFormat) {vctKey : List DataValue}
    {bysPri : List Byte} (actType : ActionType) (recStamp : ℕ) (stmt : Option StatementRef)
    (fresh : NewRecord)
    (length : (rawKey vctKey).length = (vctKey.map fun value => value.persistenceLength .key).sum)
    (keyFits : (rawKey vctKey).length ≤ maxKeyLength) (priFits : bysPri.length ≤ maxKeyLength) :
    let record := newSecondary format vctKey bysPri actType recStamp stmt fresh
    record.body.indexType = format.indexType ∧
      slice 4 record.getDataLength record.body.bysVal = rawKey vctKey ++ bysPri := by
  have lenKey : calcKeyLength vctKey = (rawKey vctKey).length := by
    unfold calcKeyLength
    have wraps : (rawKey vctKey).length % 2 ^ 32 = (rawKey vctKey).length :=
      Nat.mod_eq_of_lt (lt_of_le_of_lt keyFits (by decide))
    rw [← length, wraps, if_neg (not_lt.mpr keyFits)]
  have isShort : calcKeyLength vctKey ≠ 2 ^ 16 - 1 := by
    rw [lenKey]
    unfold maxKeyLength at keyFits
    omega
  have body_eq : (newSecondary format vctKey bysPri actType recStamp stmt fresh).body =
      { addr := fresh.recordAddr
        bysVal := secondaryBytes (rawKey vctKey) bysPri recStamp
        bSole := true
        indexType := format.indexType
        bDelete := actType = .delete } := by
    have whole : (vctKey.flatMap fun value => value.writeData .key).take (rawKey vctKey).length =
        rawKey vctKey := List.take_of_length_le (le_of_eq rfl)
    unfold newSecondary
    rw [if_neg isShort, lenKey, whole]
    cases newLock fresh.lockAddr actType stmt <;> rfl
  have dataLength : (newSecondary format vctKey bysPri actType recStamp stmt fresh).getDataLength =
      (rawKey vctKey).length + bysPri.length := by
    unfold maxKeyLength at keyFits priFits
    unfold getDataLength getActualLength
    rw [body_eq, totalLen_secondaryBytes _ _ _ (by omega)]
    omega
  refine ⟨by rw [body_eq], ?_⟩
  rw [dataLength, body_eq]
  exact slice_secondaryBytes _ _ _

end LeafRecord

namespace KeyRow

/-- Keys are ordered like their rows, and equal for equal rows only; the entries of a non-unique
index are ordered by their columns and then by the columns of the primary key. -/
theorem compositeKeyOrder (columns priColumns : List KeyColumn) :
    (∀ left right : KeyRow columns,
      compare (bytesCompare (rawKey (dataValues columns left)) (rawKey (dataValues columns right)))
        0 =
          compareRows columns left right ∧
        (rawKey (dataValues columns left) = rawKey (dataValues columns right) → left = right)) ∧
    ∀ (format : IndexFormat) (left right : KeyRow columns) (priLeft priRight : KeyRow priColumns)
      (actType actType' : ActionType) (recStamp recStamp' : ℕ) (stmt stmt' : Option StatementRef)
      (fresh fresh' : NewRecord), format.indexType = .nonUnique →
      (∀ row ∈ [left, right], (rawKey (dataValues columns row)).length ≤ maxKeyLength) →
      (∀ row ∈ [priLeft, priRight], (rawKey (dataValues priColumns row)).length ≤ maxKeyLength) →
      compare
        ((LeafRecord.newSecondary format (dataValues columns left)
          (rawKey (dataValues priColumns priLeft)) actType recStamp stmt fresh).compareTo
          (LeafRecord.newSecondary format (dataValues columns right)
            (rawKey (dataValues priColumns priRight)) actType' recStamp' stmt' fresh')) 0 =
        (compareRows columns left right).then (compareRows priColumns priLeft priRight) := by
  refine ⟨?_, ?_⟩
  · intro left right
    refine ⟨?_, fun same => (orderedCode_rawKey columns).injective same⟩
    rw [compareRows_eq, compare_bytesCompare (orderedCode_rawKey columns)]
  · intro format left right priLeft priRight actType actType' recStamp recStamp' stmt stmt' fresh
      fresh' nonUnique keyFits priFits
    obtain ⟨type_eq, bytes_eq⟩ := LeafRecord.compareBytes_newSecondary format actType
      recStamp stmt fresh (length_rawKey columns left) (keyFits left (by simp))
      (priFits priLeft (by simp))
    obtain ⟨-, bytes_eq'⟩ := LeafRecord.compareBytes_newSecondary format actType'
      recStamp' stmt' fresh' (length_rawKey columns right) (keyFits right (by simp))
      (priFits priRight (by simp))
    -- key and primary key are one code for the pair of the rows
    have ordered := (orderedCode_rawKey columns).prod (orderedCode_rawKey priColumns)
    have compared := compare_bytesCompare ordered (toLex (left, priLeft)) (toLex (right, priRight))
    unfold LeafRecord.compareTo
    rw [type_eq, if_neg (not_not.mpr nonUnique), bytes_eq, bytes_eq', compareRows_eq,
      compareRows_eq]
    exact compared

/-- A row of an integer column and a text column. -/
def sampleRow (number : DigitType.int.Value) (letter : Byte) (noNul : letter ≠ 0) :
    KeyRow [.digit .int, .varChar 10] :=
  toLex (number, toLex (⟨[letter, 0], Or.inl ⟨[letter], by simpa using noNul.symm, rfl⟩⟩,
    PUnit.unit))

/-- The row `(-1, 'b')` comes before the row `(2, 'a')`. -/
theorem compositeKeyOrder_sampleRow :
    compare
      ((LeafRecord.newSecondary ⟨.nonUnique, []⟩
          (dataValues _ (sampleRow ⟨-1, by decide⟩ 98 (by decide)))
          (rawKey (dataValues _ (sampleRow ⟨7, by decide⟩ 97 (by decide)))) .insert 1 none
          ⟨1, 2, 3, crc32⟩).compareTo
        (LeafRecord.newSecondary ⟨.nonUnique, []⟩
          (dataValues _ (sampleRow ⟨2, by decide⟩ 97 (by decide)))
          (rawKey (dataValues _ (sampleRow ⟨6, by decide⟩ 97 (by decide)))) .insert 1 none
          ⟨4, 5, 6, crc32⟩)) 0 = .lt := by
  rw [(compositeKeyOrder _ _).2 _ _ _ _ _ _ _ _ _ _ _ _ _ rfl (by decide) (by decide)]
  decide

end KeyRow

end RapidDb
