import RapidDb.Core.BranchPage
import RapidDb.Core.KeyOrder
import RapidDb.Core.RecordLayout

/-!
# Separators from leaf records

The constructor of `BranchRecord` copies the key and as many bytes behind it as `GetValueLength` of
the other record says, from behind the two lengths of that record. A branch record says that it has
a value in a non-unique index only; a leaf record says so in every index.
-/

namespace RapidDb

open Bytes

/-- `GetChildPageId`. -/
def BranchRecord.getChildPageId (record : BranchRecord) : PageID :=
  fieldAt 4 (record.getTotalLength - 4) record.bysVal

/-- The arguments of the constructors of a leaf record. -/
inductive LeafInput where
  | columns (vctKey vctVal : List WrittenValue)
  | rawKey (priKey : List Byte) (vctVal : List WrittenValue)
  | secondary (vctKey : List WrittenValue) (bysPri : List Byte) (actType : ActionType)

namespace LeafInput

/-- Whether the constructor is one of the index. -/
def Suits (type : IndexType) : LeafInput → Prop
  | columns _ _ | rawKey _ _ => type = .primary
  | secondary _ _ _ => type ≠ .primary

/-- The primary key that a secondary record gets. -/
def bysPri : LeafInput → List Byte
  | columns _ _ | rawKey _ _ => []
  | secondary _ bysPri _ => bysPri

def build (format : IndexFormat) (recStamp : ℕ) (stmt : Option StatementRef) (fresh : NewRecord) :
    LeafInput → LeafRecord
  | columns vctKey vctVal => insertColumns format vctKey vctVal recStamp stmt fresh
  | rawKey priKey vctVal =>
      .newPrimaryRawKey format priKey (vctVal.map WrittenValue.dataValue) recStamp stmt fresh
  | secondary vctKey bysPri actType =>
      .newSecondary format (vctKey.map WrittenValue.dataValue) bysPri actType recStamp stmt fresh

end LeafInput

/-- A branch record that holds the key of a leaf record, and of a non-unique index also the primary
key, and nothing else; it has the length that it stores, fits into a page, leads to the child and
is found by a search for the leaf record. -/
structure ExactSeparator (type : IndexType) (leaf : LeafRecord) (bysPri : List Byte)
    (childPageId : PageID) (separator : BranchRecord) : Prop where
  held : slice 4 (separator.bysVal.length - 8) separator.bysVal =
    leaf.getKey ++ if type = .nonUnique then bysPri else []
  inside : 4 + (leaf.getKeyLength + leaf.getValueLength) ≤ leaf.body.bysVal.length
  length : separator.getTotalLength = separator.bysVal.length
  fits : BranchPage.recordLength separator ≤ maxDataLengthBranch
  child : separator.getChildPageId = childPageId
  found : (SearchTarget.record (leaf.indexKey type)).compareWith type separator = 0

/-!
## Built leaf records
-/

/-- A leaf record that a constructor has built. -/
structure BuiltLeaf (type : IndexType) (lenVal : ℕ) (leaf : LeafRecord) : Prop where
  indexType : leaf.body.indexType = type
  keyFits : leaf.getKeyLength ≤ maxKeyLength
  inside : 4 + leaf.getKeyLength ≤ leaf.body.bysVal.length
  valueLength : leaf.getValueLength = lenVal % 2 ^ 16

theorem builtLeaf_of_primaryBytes {leaf : LeafRecord} {key value : List Byte}
    {crc32 : List Byte → ℕ} {totalLen recStamp lenVal : ℕ} {overflowPage : Option OverflowPage}
    (primary : leaf.body.indexType = .primary) (keyFits : key.length ≤ maxKeyLength)
    (bytes : leaf.body.bysVal =
      primaryBytes crc32 totalLen key recStamp lenVal .insert overflowPage value) :
    BuiltLeaf .primary lenVal leaf := by
  have layout := hasLayout_primaryBytes crc32 totalLen recStamp lenVal
    (lt_of_le_of_lt keyFits (by decide)) .insert overflowPage value
  rw [← bytes] at layout
  have keyLength : leaf.getKeyLength = key.length := layout.keyLen
  refine ⟨primary, ?_, ?_, ?_⟩
  · rw [keyLength]
    exact keyFits
  · rw [keyLength, layout.length]
    omega
  · unfold LeafRecord.getValueLength
    rw [if_pos primary, layout.valLen]
    omega

section Secondary

variable {key bysPri : List Byte} {recStamp : ℕ}

theorem length_secondaryBytes :
    (secondaryBytes key bysPri recStamp).length = key.length + bysPri.length + 12 := by
  unfold secondaryBytes
  simp only [List.length_append, length_writeLE]
  omega

theorem keyLen_secondaryBytes (keyFits : key.length ≤ maxKeyLength) :
    fieldAt 2 2 (secondaryBytes key bysPri recStamp) = key.length := by
  unfold secondaryBytes
  simp only [List.append_assoc]
  rw [fieldAt_append 2 _ (length_writeLE 2 _), readLE_writeLE_append]
  apply Nat.mod_eq_of_lt
  exact lt_of_le_of_lt keyFits (by decide)

theorem storedLen_secondaryBytes :
    fieldAt 2 0 (secondaryBytes key bysPri recStamp) =
      (key.length + bysPri.length + 12) % 2 ^ 16 := by
  unfold secondaryBytes fieldAt
  simp only [List.append_assoc, List.drop_zero]
  rw [readLE_writeLE_append]
  norm_num

theorem builtLeaf_of_secondaryBytes {leaf : LeafRecord} {type : IndexType}
    (secondary : type ≠ .primary) (indexType : leaf.body.indexType = type)
    (keyFits : key.length ≤ maxKeyLength)
    (bytes : leaf.body.bysVal = secondaryBytes key bysPri recStamp) :
    BuiltLeaf type bysPri.length leaf := by
  have keyLength : leaf.getKeyLength = key.length := by
    unfold LeafRecord.getKeyLength
    rw [bytes, keyLen_secondaryBytes keyFits]
  refine ⟨indexType, ?_, ?_, ?_⟩
  · rw [keyLength]
    exact keyFits
  · rw [keyLength, bytes, length_secondaryBytes]
    omega
  · unfold LeafRecord.getValueLength LeafRecord.getActualLength
    rw [if_neg (indexType ▸ secondary), keyLength, bytes, storedLen_secondaryBytes]
    unfold maxKeyLength at keyFits
    omega

end Secondary

/-!
## The copied bytes
-/

section Copy

variable {type : IndexType} {leaf : LeafRecord} {bysPri : List Byte} {childPageId : PageID}

section

variable (inside : 4 + (leaf.getKeyLength + leaf.getValueLength) ≤ leaf.body.bysVal.length)

include inside

theorem held_ofLeaf :
    slice 4 ((BranchRecord.ofLeaf leaf childPageId).bysVal.length - 8)
        (BranchRecord.ofLeaf leaf childPageId).bysVal =
      slice 4 (leaf.getKeyLength + leaf.getValueLength) leaf.body.bysVal := by
  unfold BranchRecord.ofLeaf
  rw [BranchRecord.length_new inside, Nat.add_sub_cancel]
  exact BranchRecord.slice_new le_rfl inside

theorem getChildPageId_ofLeaf (small : leaf.getKeyLength + leaf.getValueLength + 8 < 2 ^ 16)
    (isId : childPageId < 2 ^ 32) :
    (BranchRecord.ofLeaf leaf childPageId).getChildPageId = childPageId := by
  have front : (writeLE 2 (leaf.getKeyLength + leaf.getValueLength + 4 + 4) ++
      writeLE 2 leaf.getKeyLength ++
      slice 4 (leaf.getKeyLength + leaf.getValueLength) leaf.body.bysVal).length =
        leaf.getKeyLength + leaf.getValueLength + 8 - 4 := by
    simp only [List.length_append, length_writeLE, slice, List.length_take, List.length_drop]
    omega
  unfold BranchRecord.getChildPageId BranchRecord.ofLeaf
  rw [BranchRecord.getTotalLength_new small]
  change fieldAt 4 (leaf.getKeyLength + leaf.getValueLength + 8 - 4)
    (_ ++ writeLE 4 childPageId) = _
  have read := fieldAt_append 4 (writeLE 4 childPageId) front
  rw [readLE_writeLE, Nat.mod_eq_of_lt (lt_of_lt_of_eq isId (by norm_num))] at read
  exact read

theorem exactSeparator_of_held
    (fits : leaf.getKeyLength + leaf.getValueLength + 10 ≤ maxDataLengthBranch)
    (isId : childPageId < 2 ^ 32)
    (held : slice 4 (leaf.getKeyLength + leaf.getValueLength) leaf.body.bysVal =
      leaf.getKey ++ if type = .nonUnique then bysPri else [])
    (data : type = .nonUnique → leaf.getDataLength = leaf.getKeyLength + leaf.getValueLength) :
    ExactSeparator type leaf bysPri childPageId (BranchRecord.ofLeaf leaf childPageId) := by
  have maxEq : maxDataLengthBranch = 16368 := rfl
  have small : leaf.getKeyLength + leaf.getValueLength + 8 < 2 ^ 16 := by omega
  have valid : (BranchRecord.ofLeaf leaf childPageId).Valid := BranchRecord.valid_new inside fits
  refine ⟨?_, inside, valid.total, valid.fits, getChildPageId_ofLeaf inside small isId, ?_⟩
  · rw [held_ofLeaf inside, held]
  · have sameKey : (BranchRecord.ofLeaf leaf childPageId).indexKey type = leaf.indexKey type := by
      unfold BranchRecord.ofLeaf
      rw [BranchRecord.indexKey_new childPageId inside small]
      unfold LeafRecord.indexKey indexBytes
      by_cases nonUnique : type = .nonUnique
      · rw [if_pos nonUnique, if_pos nonUnique, data nonUnique]
        rfl
      · rw [if_neg nonUnique, if_neg nonUnique]
    unfold SearchTarget.compareWith
    rw [sameKey]
    exact (compares_bytesCompare _ _).zero.mpr rfl

end

theorem exactSeparator_unique_iff {lenVal : ℕ} (built : BuiltLeaf type lenVal leaf)
    (unique : type ≠ .nonUnique) (isId : childPageId < 2 ^ 32) :
    ExactSeparator type leaf bysPri childPageId (BranchRecord.ofLeaf leaf childPageId) ↔
      lenVal % 2 ^ 16 = 0 := by
  have keyFits := built.keyFits
  have insideKey := built.inside
  rw [← built.valueLength]
  constructor
  · intro exact'
    have held := exact'.held
    rw [held_ofLeaf exact'.inside, if_neg unique, List.append_nil] at held
    have lengths := congrArg List.length held
    have inside := exact'.inside
    unfold LeafRecord.getKey at lengths
    simp only [slice, List.length_take, List.length_drop] at lengths
    omega
  · intro nothing
    have maxEq : maxDataLengthBranch = 16368 := rfl
    unfold maxKeyLength at keyFits
    apply exactSeparator_of_held
    · omega
    · omega
    · exact isId
    · rw [nothing, if_neg unique, List.append_nil]
      rfl
    · exact fun nonUnique => absurd nonUnique unique

/-- In a non-unique index a branch record is right if key and primary key fit into a page. -/
theorem exactSeparator_nonUnique_iff {key : List Byte} {recStamp : ℕ}
    (indexType : leaf.body.indexType = .nonUnique) (keyFits : key.length ≤ maxKeyLength)
    (bytes : leaf.body.bysVal = secondaryBytes key bysPri recStamp) (isId : childPageId < 2 ^ 32) :
    ExactSeparator .nonUnique leaf bysPri childPageId (BranchRecord.ofLeaf leaf childPageId) ↔
      key.length + bysPri.length + 10 ≤ maxDataLengthBranch := by
  have maxEq : maxDataLengthBranch = 16368 := rfl
  have built := builtLeaf_of_secondaryBytes (by decide) indexType keyFits bytes
  have valueLength := built.valueLength
  have keyLength : leaf.getKeyLength = key.length := by
    unfold LeafRecord.getKeyLength
    rw [bytes, keyLen_secondaryBytes keyFits]
  have isKey : leaf.getKey = key := by
    unfold LeafRecord.getKey
    rw [keyLength, bytes]
    have front := congrArg (List.take key.length)
      (LeafRecord.slice_secondaryBytes key bysPri recStamp)
    unfold slice at front
    rw [List.take_take, min_eq_left (Nat.le_add_right _ _), List.take_left] at front
    exact front
  have length : leaf.body.bysVal.length = key.length + bysPri.length + 12 := by
    rw [bytes, length_secondaryBytes]
  constructor
  · intro exact'
    have held := exact'.held
    rw [if_pos rfl, isKey] at held
    have lengths := congrArg List.length held
    have fits := exact'.fits
    have stored := exact'.length
    unfold BranchPage.recordLength at fits
    simp only [slice, List.length_take, List.length_drop, List.length_append] at lengths
    have long : 8 ≤ (BranchRecord.ofLeaf leaf childPageId).bysVal.length := by
      unfold BranchRecord.ofLeaf
      rw [BranchRecord.length_new exact'.inside]
      omega
    omega
  · intro fits
    rw [Nat.mod_eq_of_lt (by omega)] at valueLength
    apply exactSeparator_of_held
    · rw [keyLength, valueLength, length]
      omega
    · rw [keyLength, valueLength]
      exact fits
    · exact isId
    · rw [keyLength, valueLength, bytes, LeafRecord.slice_secondaryBytes, if_pos rfl, isKey]
    · intro _
      unfold LeafRecord.getDataLength LeafRecord.getActualLength
      rw [keyLength, valueLength, bytes, storedLen_secondaryBytes]
      omega

end Copy

/-!
## All constructors
-/

/-- What makes the copy for a branch page right: no byte behind the key for a unique index, a key
and a primary key that fit into a page for another one. -/
def LeafInput.Separable (format : IndexFormat) : LeafInput → Prop
  | .columns _ vctVal | .rawKey _ vctVal => rowLength format vctVal % 2 ^ 16 = 0
  | .secondary vctKey bysPri _ =>
      if format.indexType = .nonUnique then
        keyLength vctKey % 2 ^ 32 + bysPri.length + 10 ≤ maxDataLengthBranch
      else
        bysPri.length % 2 ^ 16 = 0

theorem body_newSecondary {format : IndexFormat} {vctKey : List WrittenValue} {bysPri : List Byte}
    {actType : ActionType} {recStamp : ℕ} {stmt : Option StatementRef} {fresh : NewRecord}
    (accepted : (LeafRecord.newSecondary format (vctKey.map WrittenValue.dataValue) bysPri actType
      recStamp stmt fresh).body.bValid = true) :
    ∃ key, key.length = keyLength vctKey % 2 ^ 32 ∧ key.length ≤ maxKeyLength ∧
      (LeafRecord.newSecondary format (vctKey.map WrittenValue.dataValue) bysPri actType recStamp
        stmt fresh).body =
          { addr := fresh.recordAddr
            bysVal := secondaryBytes key bysPri recStamp
            bSole := true
            indexType := format.indexType
            bDelete := actType = .delete } := by
  unfold LeafRecord.newSecondary LeafRecord.exceedKeyLength at accepted ⊢
  simp only [calcKeyLength_dataValue, ← keyLength.eq_1] at accepted ⊢
  by_cases long : keyLength vctKey % 2 ^ 32 > maxKeyLength
  · rw [if_pos long, if_pos rfl, body_ofBody] at accepted
    cases accepted
  · have short : keyLength vctKey % 2 ^ 32 ≤ maxKeyLength := not_lt.mp long
    have notMax : keyLength vctKey % 2 ^ 32 ≠ 2 ^ 16 - 1 := by
      unfold maxKeyLength at short
      omega
    have length : ((rawKey (vctKey.map WrittenValue.dataValue)).take
        (keyLength vctKey % 2 ^ 32)).length = keyLength vctKey % 2 ^ 32 := by
      rw [List.length_take]
      exact min_eq_left (Nat.mod_le _ _)
    rw [if_neg long, if_neg notMax, body_ofBody]
    exact ⟨_, length, le_of_eq_of_le length short, rfl⟩

theorem body_newPrimaryRawKey {format : IndexFormat} {priKey : List Byte}
    {vctVal : List WrittenValue} {recStamp : ℕ} {stmt : Option StatementRef} {fresh : NewRecord}
    (accepted : (LeafRecord.newPrimaryRawKey format priKey (vctVal.map WrittenValue.dataValue)
      recStamp stmt fresh).body.bValid = true) :
    let leaf := LeafRecord.newPrimaryRawKey format priKey (vctVal.map WrittenValue.dataValue)
      recStamp stmt fresh
    leaf.body.indexType = format.indexType ∧ ∃ key totalLen overflowPage value,
      key.length ≤ maxKeyLength ∧ leaf.body.bysVal = primaryBytes fresh.crc32 totalLen key
        recStamp (rowLength format vctVal) .insert overflowPage value := by
  unfold LeafRecord.newPrimaryRawKey LeafRecord.exceedKeyLength at accepted ⊢
  simp only at accepted ⊢
  by_cases long : priKey.length % 2 ^ 16 ≥ maxKeyLength
  · rw [if_pos long, body_ofBody] at accepted
    cases accepted
  · rw [if_neg long, body_ofBody]
    refine ⟨rfl, priKey.take (priKey.length % 2 ^ 16), _, _, _, ?_, rfl⟩
    rw [List.length_take]
    exact le_trans (min_le_left _ _) (le_of_lt (not_le.mp long))

/-- The branch record built from a leaf record holds its key exactly, for a non-unique index with
the primary key, if and only if no value or primary key of another length than a multiple of
`2 ^ 16` follows the key in a unique index, and both keys fit into a page in another one. -/
theorem exactSeparator_iff (format : IndexFormat) (input : LeafInput)
    (suits : input.Suits format.indexType) (recStamp : ℕ) (stmt : Option StatementRef)
    (fresh : NewRecord) (accepted : (input.build format recStamp stmt fresh).body.bValid = true)
    (childPageId : Fin (2 ^ 32)) :
    ExactSeparator format.indexType (input.build format recStamp stmt fresh) input.bysPri
        childPageId (BranchRecord.ofLeaf (input.build format recStamp stmt fresh) childPageId) ↔
      input.Separable format := by
  cases input with
  | columns vctKey vctVal =>
      have taken : keyLength vctKey % 2 ^ 32 ≤ maxKeyLength := by
        rw [LeafInput.build, bValid_insertColumns, decide_eq_true_eq] at accepted
        exact accepted
      obtain ⟨key, length, -, built⟩ :=
        @insertColumns_taken format vctKey vctVal recStamp stmt fresh taken
      have primary : format.indexType = .primary := suits
      rw [primary]
      simp only [LeafInput.build, built]
      apply exactSeparator_unique_iff _ (by decide) childPageId.isLt
      have bytes := body_ofBody (builtBody format vctVal recStamp fresh key)
        (LeafRecord.newLock fresh.lockAddr .insert stmt)
      apply builtLeaf_of_primaryBytes _ (le_of_eq_of_le length taken)
      · unfold builtRecord
        rw [bytes]
        rfl
      · unfold builtRecord
        rw [bytes]
        exact primary
  | rawKey priKey vctVal =>
      obtain ⟨indexType, key, totalLen, overflowPage, value, keyFits, bytes⟩ :=
        body_newPrimaryRawKey accepted
      have primary : format.indexType = .primary := suits
      rw [primary] at indexType ⊢
      apply exactSeparator_unique_iff _ (by decide) childPageId.isLt
      exact builtLeaf_of_primaryBytes indexType keyFits bytes
  | secondary vctKey bysPri actType =>
      obtain ⟨key, length, keyFits, body⟩ := body_newSecondary accepted
      have indexType := congrArg RecordBody.indexType body
      have bytes := congrArg RecordBody.bysVal body
      unfold LeafInput.Separable
      by_cases nonUnique : format.indexType = .nonUnique
      · simp only [if_pos nonUnique]
        rw [nonUnique] at indexType ⊢
        rw [← length]
        exact exactSeparator_nonUnique_iff indexType keyFits bytes childPageId.isLt
      · simp only [if_neg nonUnique]
        have built := builtLeaf_of_secondaryBytes suits indexType keyFits bytes
        exact exactSeparator_unique_iff built nonUnique childPageId.isLt

/-- The index entry of a row with the primary key 7, in a non-unique index over an `INT` column. -/
theorem exactSeparator_entry :
    ExactSeparator .nonUnique
      (.newSecondary ⟨.nonUnique, []⟩ sampleKey [128, 0, 0, 7] .insert 1 none ⟨1, 2, 3, crc32⟩)
      [128, 0, 0, 7] 20
      (.ofLeaf
        (.newSecondary ⟨.nonUnique, []⟩ sampleKey [128, 0, 0, 7] .insert 1 none ⟨1, 2, 3, crc32⟩)
        20) :=
  (exactSeparator_iff ⟨.nonUnique, []⟩
    (.secondary [.ofKey (.digit .int) ⟨7, by decide⟩] [128, 0, 0, 7] .insert)
    (nomatch ·) 1 none ⟨1, 2, 3, crc32⟩ (by decide +kernel) 20).mpr
    (by unfold LeafInput.Separable; decide +kernel)

/-- The separator of a row holds the version byte and the stamp of the row behind its key. -/
theorem not_exactSeparator_row :
    ¬ExactSeparator .primary (primaryRecord sampleKey sampleFields 1 none ⟨1, 2, 3, crc32⟩) [] 20
      (.ofLeaf (primaryRecord sampleKey sampleFields 1 none ⟨1, 2, 3, crc32⟩) 20) := by
  intro exact'
  have held := exact'.held
  revert held
  decide +kernel

end RapidDb
