import RapidDb.Core.RecordLayout

/-!
# The layout of a new version

`UpdateRecord` builds the version that an UPDATE or a DELETE puts on top of a primary record. It
takes the key from the old version and decides anew whether the value needs an overflow page, but
counts the value for the total length if the old version has none.
-/

namespace RapidDb

open Bytes

/-- A version of the row with a key. Its overflow page is loaded if its version byte says that
there is one, as `UpdateRecord` asserts. -/
structure PrimaryVersion (vctKey : List DataValue) (record : LeafRecord) : Prop where
  indexType : record.body.indexType = .primary
  keyLen : RecStruct.keyLen record.body.bysVal = (rawKey vctKey).length
  bysKey : RecStruct.bysKey record.body.bysVal = rawKey vctKey
  keyFits : (rawKey vctKey).length ≤ maxKeyLength
  overflow : RecStruct.hasOverflow record.body.bysVal = record.body.overflowPage.isSome

theorem primaryVersion_of_body {vctKey : List DataValue} {record : LeafRecord}
    {crc32 : List Byte → ℕ} {totalLen recStamp lenVal : ℕ} {type : ActionType} {value : List Byte}
    (indexType : record.body.indexType = .primary)
    (keyFits : (rawKey vctKey).length ≤ maxKeyLength)
    (bytes : record.body.bysVal = primaryBytes crc32 totalLen (rawKey vctKey) recStamp lenVal type
      record.body.overflowPage value) :
    PrimaryVersion vctKey record := by
  have layout := hasLayout_primaryBytes crc32 totalLen recStamp lenVal
    (lt_of_le_of_lt keyFits (by decide)) type record.body.overflowPage value
  rw [← bytes] at layout
  exact ⟨indexType, layout.keyLen, layout.bysKey, keyFits, layout.hasOverflow⟩

section Update

variable (old : LeafRecord) (fields : List Field) (recStamp : ℕ) (stmt : StatementRef)
  (type : ActionType) (gapLock : Bool) (fresh : NewRecord)

/-- The version that `UpdateRecord` builds for a row of values. -/
def newVersion : LeafRecord :=
  old.updateRecord (Field.format fields) (fields.map Field.dataValue) recStamp stmt type gapLock
    fresh

/-- The length of the value of a version. -/
def versionLength : ℕ :=
  calcValueLength (Field.format fields) (fields.map Field.dataValue) type

/-- The value that is laid out for a version. -/
def versionValue : List Byte :=
  if type = .update then fillValueBuff (Field.format fields) (fields.map Field.dataValue) else []

def versionOverflow (lenKey : ℕ) : Option OverflowPage :=
  overflowPageFor fresh.ovfPageId lenKey (versionLength fields type) (versionValue fields type)

/-- The total length that `UpdateRecord` computes. -/
def versionTotalLen (lenKey : ℕ) : ℕ :=
  4 + lenKey + (1 + (8 + 4) +
    if (versionOverflow fields type fresh lenKey).isSome then 4 + 4 + 2 else 0) +
    if old.body.overflowPage.isNone then versionLength fields type else 0

/-- The fields of a new version of the row with a key. -/
def versionBody (key : List Byte) : RecordBody where
  addr := fresh.recordAddr
  bysVal := primaryBytes fresh.crc32 (versionTotalLen old fields type fresh key.length) key
    recStamp (versionLength fields type) type (versionOverflow fields type fresh key.length)
    (versionValue fields type)
  bSole := true
  indexType := .primary
  bDelete := type = .delete
  overflowPage := versionOverflow fields type fresh key.length

/-- A new version stores the length of what is laid out, which is all that is written to its
buffer; it has the key of the row, and once its lock is released it is read as the new values. -/
structure WellLaidOut (vctKey : List DataValue) (fields : List Field) (type : ActionType)
    (new : LeafRecord) : Prop where
  stored : new.getActualLength = RecStruct.contentLength new.body.bysVal
  inside : new.body.bysVal.length = new.getActualLength
  key : new.getKey = rawKey vctKey
  readsBack : type = .update → RoundTrips vctKey fields (.unlocked new.body)

variable {old} {vctKey : List DataValue}

theorem body_newVersion (version : PrimaryVersion vctKey old) :
    (newVersion old fields recStamp stmt type gapLock fresh).body =
      versionBody old fields recStamp type fresh (rawKey vctKey) := by
  unfold newVersion LeafRecord.updateRecord
  simp only [version.keyLen, version.bysKey]
  rfl

theorem primaryVersion_newVersion (version : PrimaryVersion vctKey old) :
    PrimaryVersion vctKey (newVersion old fields recStamp stmt type gapLock fresh) := by
  apply primaryVersion_of_body _ version.keyFits
  · rw [body_newVersion fields recStamp stmt type gapLock fresh version]
    rfl
  · rw [body_newVersion fields recStamp stmt type gapLock fresh version]
    rfl

theorem length_versionValue (change : type = .update ∨ type = .delete) :
    (versionValue fields type).length = versionLength fields type := by
  rcases change with rfl | rfl
  · exact length_fillValueBuff fields
  · rfl

variable (old) {key : List Byte} (keyFits : key.length ≤ maxKeyLength)
  (change : type = .update ∨ type = .delete)

include keyFits

theorem contentLength_versionBody :
    RecStruct.contentLength (versionBody old fields recStamp type fresh key).bysVal =
      17 + key.length +
        if maxValueLength key.length < versionLength fields type then 10
        else versionLength fields type :=
  (lengths_primaryBytes fresh.ovfPageId fresh.crc32 _ recStamp rfl keyFits type).2

theorem totalLen_versionBody :
    RecStruct.totalLen (versionBody old fields recStamp type fresh key).bysVal =
      (17 + key.length +
        (if maxValueLength key.length < versionLength fields type then 10 else 0) +
        if old.body.overflowPage.isSome then 0 else versionLength fields type) % 2 ^ 16 := by
  have stored : RecStruct.totalLen (versionBody old fields recStamp type fresh key).bysVal =
      versionTotalLen old fields type fresh key.length % 2 ^ 16 :=
    (lengths_primaryBytes fresh.ovfPageId fresh.crc32 _ recStamp rfl keyFits type).1
  have overflow : (versionOverflow fields type fresh key.length).isSome =
      decide (maxValueLength key.length < versionLength fields type) := isSome_overflowPageFor _
  rw [stored, versionTotalLen, overflow]
  simp only [decide_eq_true_eq]
  cases old.body.overflowPage <;>
    · simp only [Option.isNone_none, Option.isNone_some, Option.isSome_none, Option.isSome_some,
        Bool.false_eq_true, if_true, if_false]
      split <;> apply congrArg (· % 2 ^ 16) <;> omega

include change

/-- The buffer of a new version reaches to the end of what was applied for and of what is
written. -/
theorem length_versionBody :
    (versionBody old fields recStamp type fresh key).bysVal.length =
      max (RecStruct.totalLen (versionBody old fields recStamp type fresh key).bysVal)
        (RecStruct.contentLength (versionBody old fields recStamp type fresh key).bysVal) := by
  have layout : HasLayout (versionBody old fields recStamp type fresh key).bysVal _ _ _ _ _ :=
    hasLayout_primaryBytes fresh.crc32 (versionTotalLen old fields type fresh key.length) recStamp
      (versionLength fields type) (lt_of_le_of_lt keyFits (by decide)) type
      (versionOverflow fields type fresh key.length) (versionValue fields type)
  have overflow : (versionOverflow fields type fresh key.length).isSome =
      decide (maxValueLength key.length < versionLength fields type) := isSome_overflowPageFor _
  rw [layout.length, layout.totalLen,
    contentLength_versionBody old fields recStamp type fresh keyFits,
    length_versionValue fields type change, overflow]
  simp only [decide_eq_true_eq]
  split <;> omega

omit change in
/-- The stored length of a new version is right exactly if the value is counted when it is in the
page, or does not count in 16 bits. -/
theorem stored_versionBody_iff :
    RecStruct.totalLen (versionBody old fields recStamp type fresh key).bysVal =
        RecStruct.contentLength (versionBody old fields recStamp type fresh key).bysVal ↔
      (old.body.overflowPage.isSome = true ↔
          maxValueLength key.length < versionLength fields type) ∨
        versionLength fields type % 2 ^ 16 = 0 := by
  rw [totalLen_versionBody old fields recStamp type fresh keyFits,
    contentLength_versionBody old fields recStamp type fresh keyFits, maxValueLength_eq keyFits]
  unfold maxKeyLength at keyFits
  unfold maxRecordLength
  cases old.body.overflowPage <;>
    · simp only [Option.isSome_none, Option.isSome_some, Bool.false_eq_true, if_true, if_false,
        false_iff, true_iff]
      split <;> omega

end Update

theorem roundTrips_versionBody_iff {vctKey : List DataValue}
    (keyFits : (rawKey vctKey).length ≤ maxKeyLength) (old : LeafRecord) {fields : List Field}
    (sized : ∀ field ∈ fields, field.1.Sized) (recStamp : ℕ) (fresh : NewRecord) :
    RoundTrips vctKey fields
        (.unlocked (versionBody old fields recStamp .update fresh (rawKey vctKey))) ↔
      (∀ field ∈ fields, field.2.isSome = true → field.stored ≠ []) ∧
        versionLength fields .update ≤ indexPageSize * 65535 := by
  let body := versionBody old fields recStamp .update fresh (rawKey vctKey)
  have overflow : body.overflowPage = overflowPageFor fresh.ovfPageId (rawKey vctKey).length
      (valueLength fields) (fillValueBuff (Field.format fields) (fields.map Field.dataValue)) := rfl
  have bytes : body.bysVal = primaryBytes fresh.crc32 (versionTotalLen old fields .update fresh
      (rawKey vctKey).length) (rawKey vctKey) recStamp (valueLength fields) .insert
      body.overflowPage (fillValueBuff (Field.format fields) (fields.map Field.dataValue)) := rfl
  constructor
  · intro roundTrips
    refine ⟨?_, ?_⟩
    · have released : RoundTrips vctKey fields
          (LeafRecord.ofBody body (LeafRecord.newLock 0 .insert none)) := roundTrips
      exact stored_ne_nil_of_roundTrips keyFits sized overflow bytes rfl released
    · exact valueLength_le_of_roundTrips keyFits
        (show (LeafRecord.unlocked body).body.overflowPage = _ from overflow) roundTrips
  · rintro ⟨nonempty, short⟩
    have released : RoundTrips vctKey fields
        (LeafRecord.ofBody body (LeafRecord.newLock 0 .insert none)) :=
      roundTrips_of_stored_ne_nil keyFits sized overflow bytes rfl nonempty short
    exact released

/-- A new version is laid out as its header says and read as the new values exactly if it has an
overflow page like the old one, or a value whose length does not count in 16 bits, and if the
values can be read back at all. -/
theorem wellLaidOut_iff (vctKey : List DataValue) (old : LeafRecord)
    (version : PrimaryVersion vctKey old) (fields : List Field)
    (sized : ∀ field ∈ fields, field.1.Sized) (recStamp : ℕ) (stmt : StatementRef)
    (type : ActionType) (change : type = .update ∨ type = .delete) (gapLock : Bool)
    (fresh : NewRecord) :
    WellLaidOut vctKey fields type (newVersion old fields recStamp stmt type gapLock fresh) ↔
      ((old.body.overflowPage.isSome = true ↔
            maxValueLength (rawKey vctKey).length < versionLength fields type) ∨
          versionLength fields type % 2 ^ 16 = 0) ∧
        (type = .update → (∀ field ∈ fields, field.2.isSome = true → field.stored ≠ []) ∧
          versionLength fields type ≤ indexPageSize * 65535) := by
  have body := body_newVersion fields recStamp stmt type gapLock fresh version
  have sound := primaryVersion_newVersion fields recStamp stmt type gapLock fresh version
  have storedIff := stored_versionBody_iff old fields recStamp type fresh version.keyFits
  have length := length_versionBody old fields recStamp type fresh version.keyFits change
  constructor
  · intro laidOut
    refine ⟨?_, ?_⟩
    · have stored := laidOut.stored
      unfold LeafRecord.getActualLength at stored
      rw [body] at stored
      exact storedIff.mp stored
    · rintro rfl
      have readsBack := laidOut.readsBack rfl
      rw [body] at readsBack
      exact (roundTrips_versionBody_iff version.keyFits old sized recStamp fresh).mp readsBack
  · rintro ⟨counted, back⟩
    have stored := storedIff.mpr counted
    refine ⟨?_, ?_, sound.bysKey, ?_⟩
    · unfold LeafRecord.getActualLength
      rw [body]
      exact stored
    · unfold LeafRecord.getActualLength
      rw [body, length, ← stored, max_self]
      rfl
    · rintro rfl
      rw [body]
      exact (roundTrips_versionBody_iff version.keyFits old sized recStamp fresh).mpr (back rfl)

theorem primaryVersion_sampleKey :
    PrimaryVersion sampleKey (primaryRecord sampleKey sampleFields 1 none ⟨1, 2, 3, crc32⟩) := by
  refine ⟨rfl, ?_, ?_, ?_, ?_⟩ <;> decide +kernel

theorem wellLaidOut_sampleKey :
    WellLaidOut sampleKey sampleFields .update
      (newVersion (primaryRecord sampleKey sampleFields 1 none ⟨1, 2, 3, crc32⟩) sampleFields 2
        ⟨1, 1⟩ .update false ⟨4, 5, 6, crc32⟩) :=
  (wellLaidOut_iff sampleKey _ primaryVersion_sampleKey sampleFields
    (by simp [sampleFields, ValueColumn.Sized]) 2 ⟨1, 1⟩ .update (Or.inl rfl) false
    ⟨4, 5, 6, crc32⟩).mpr
    (by decide +kernel)

/-- A row with a `BLOB` that needs an overflow page. -/
def longFields : List Field :=
  [⟨.blob 10000, some ⟨List.replicate 9000 1, by rw [List.length_replicate]; decide⟩⟩]

theorem versionLength_longFields : versionLength longFields .update = 9005 := by
  have stored : (Field.dataValue ⟨.blob 10000, some ⟨List.replicate 9000 1,
      by rw [List.length_replicate]; decide⟩⟩).persistenceLength .value = 9000 :=
    List.length_replicate
  unfold versionLength calcValueLength longFields
  rw [if_neg (by decide), List.map_singleton, List.map_singleton, stored]
  rfl

/-- The old version is in its page, and the new one stores the length of a value that is not. -/
theorem not_wellLaidOut_longFields :
    ¬WellLaidOut sampleKey longFields .update
      (newVersion (primaryRecord sampleKey sampleFields 1 none ⟨1, 2, 3, crc32⟩) longFields 2 ⟨1, 1⟩
        .update false ⟨4, 5, 6, crc32⟩) := by
  intro laidOut
  have stored := laidOut.stored
  unfold LeafRecord.getActualLength at stored
  rw [body_newVersion longFields 2 ⟨1, 1⟩ .update false ⟨4, 5, 6, crc32⟩ primaryVersion_sampleKey]
    at stored
  have counted := (stored_versionBody_iff _ longFields 2 .update ⟨4, 5, 6, crc32⟩
    primaryVersion_sampleKey.keyFits).mp stored
  rw [versionLength_longFields] at counted
  exact absurd counted (by decide +kernel)

end RapidDb
