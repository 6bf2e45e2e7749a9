import RapidDb.DataType.VarCharBuilders

/-!
# Copies between the two classes of text

A FIXCHAR fills its buffer up to the maximum length with blanks, a VARCHAR keeps the length of its
bytes. `Copy` of a FIXCHAR moves or shares the pointer of a source with the same maximum length, and
otherwise copies as many bytes as the maximum length of the source has, less one, and writes blanks
from the maximum length of the source on. `Copy` of a VARCHAR from a FIXCHAR keeps what stands
before the last blank.

So the byte behind those that are copied stays as it was in the block, bytes behind the value of
the source are copied with it, and of a text that is padded with several blanks all but one stay.
-/

namespace RapidDb

open Bytes

inductive TextType where
  | fixChar
  | varChar
deriving DecidableEq, Repr

/-- The parts of a text. The two classes keep the pointer at the same place, so that it is read
through a reference to either class. -/
structure TextValue where
  type : TextType
  valType : ValueType
  maxLength : ℕ
  soleLength : ℕ
  bysValue : List Byte

/-- The sources of a copy: texts, and the other classes with what `ToString` makes of them. -/
inductive CopySource where
  | text (dv : TextValue)
  | other (sb : Option (List Byte))

/-- A copy is refused, or reads or writes outside of a buffer, or is made. -/
inductive CopyOutcome where
  | refused
  | outside
  | done (dv : TextValue)

/-- A block of `CachePool::Apply`, with the bytes that are in it. -/
structure AppliedBlock (size : ℕ) where
  bytes : List Byte
  holds : size ≤ bytes.length

def BLANK : Byte := 32

namespace TextValue

/-- `GetDataLength`. -/
def getDataLength (dv : TextValue) : ℕ :=
  if dv.valType = .nullValue then 0
  else match dv.type with
    | .fixChar => dv.maxLength
    | .varChar => dv.soleLength

/-- The bytes of a value that is not NULL. -/
def content (dv : TextValue) : List Byte :=
  dv.bysValue.take dv.getDataLength

/-- The bytes of a value can be read, and are not more than its maximum length. -/
structure Sound (dv : TextValue) : Prop where
  readable : dv.getDataLength ≤ dv.bysValue.length
  within : dv.getDataLength ≤ dv.maxLength
  maxLength_lt : dv.maxLength < 256 ^ 4

def null (dv : TextValue) : TextValue :=
  { dv with valType := .nullValue, bysValue := [] }

/-!
## FIXCHAR
-/

/-- The buffer that is written: that of the value, or a block that is applied for it. -/
def target (dv : TextValue) (applied : AppliedBlock dv.maxLength) : List Byte :=
  if dv.valType = .soleValue then dv.bysValue else applied.bytes

/-- A text is written, and blanks up to the maximum length. -/
def fill (dv : TextValue) (applied : AppliedBlock dv.maxLength) (text : List Byte) : TextValue :=
  { dv with
    valType := .soleValue
    bysValue := overwrite text.length (List.replicate (dv.maxLength - text.length) BLANK)
      (overwrite 0 text (dv.target applied)) }

/-- `DataValueFixChar::SetValue`. The length is cut to 32 bits. -/
def setFixChar (dv : TextValue) (applied : AppliedBlock dv.maxLength) (val : List Byte) :
    Option TextValue :=
  let len := val.length % 256 ^ 4
  if len ≥ dv.maxLength then none else some (dv.fill applied (val.take len))

/-- `DataValueFixChar::PutValue` of a string. -/
def putFixChar (dv : TextValue) (applied : AppliedBlock dv.maxLength) (kind : TextKind)
    (val : List Byte) : Option TextValue :=
  let len := kind.len val
  if len > dv.maxLength then none else some (dv.fill applied (val.take len))

/-- The number of bytes that a FIXCHAR copies: `dv.GetMaxLength() - 1`. -/
def copyCount (source : TextValue) : ℕ :=
  (source.maxLength + UINT32_MAX) % 256 ^ 4

/-- The buffer after the bytes of the source and the blanks have been written. -/
def copied (source : TextValue) (maxLength : ℕ) (buffer : List Byte) : List Byte :=
  let buffer := overwrite 0 (source.bysValue.take source.copyCount) buffer
  if maxLength > source.maxLength then
    overwrite source.maxLength (List.replicate (maxLength - source.maxLength) BLANK) buffer
  else buffer

/-- `DataValueFixChar::Copy`. -/
def copyFixChar (dv : TextValue) (source : CopySource) (bMove : Bool) (refCount : ℕ)
    (applied : AppliedBlock dv.maxLength) : CopyOutcome :=
  let bMove := if refCount > 1 then false else bMove
  match source with
  | .other none => .done dv.null
  | .other (some sb) =>
      if dv.maxLength < sb.length then .refused else .done (dv.fill applied sb)
  | .text source =>
      if source.valType = .nullValue then .done dv.null
      else if source.getDataLength > dv.maxLength then .refused
      else if bMove ∧ source.type = .fixChar ∧ dv.maxLength = source.maxLength then
        .done { dv with valType := source.valType, bysValue := source.bysValue }
      else if source.valType = .bytesValue ∧ dv.maxLength = source.maxLength then
        .done { dv with valType := .bytesValue, bysValue := source.bysValue }
      else if source.copyCount > source.bysValue.length ∨
          source.copyCount > (dv.target applied).length then .outside
      else .done { dv with
        valType := .soleValue
        bysValue := source.copied dv.maxLength (dv.target applied) }

/-!
## VARCHAR
-/

/-- The loop that looks for a blank from the end of a FIXCHAR. -/
def lastBlank (bys : List Byte) : ℕ → ℕ
  | 0 => 0
  | len + 1 =>
      if bys[len]? = some BLANK then len
      else if len = 0 then 0
      else lastBlank bys len

def own (dv : TextValue) (bytes applied : List Byte) : TextValue :=
  { dv with
    valType := .soleValue
    soleLength := bytes.length
    bysValue := overwrite 0 bytes applied }

/-- `DataValueVarChar::Copy`, with what is in the block that it applies. In a FIXCHAR of length 0
the loop starts at the largest index. -/
def copyVarChar (dv : TextValue) (source : CopySource) (bMove : Bool) (refCount : ℕ)
    (applied : List Byte) : CopyOutcome :=
  let bMove := if refCount > 1 then false else bMove
  match source with
  | .other none => .done dv.null
  | .other (some sb) =>
      if dv.maxLength < sb.length + 1 then .refused else .done (dv.own (sb ++ [0]) applied)
  | .text source =>
      if source.valType = .nullValue then .done dv.null
      else if source.getDataLength > dv.maxLength then .refused
      else match source.type with
        | .varChar =>
            if bMove then
              .done { dv with
                valType := source.valType
                soleLength := source.getDataLength
                bysValue := source.bysValue }
            else if source.valType = .bytesValue then
              .done { dv with
                valType := .bytesValue
                soleLength := source.getDataLength
                bysValue := source.bysValue }
            else if source.getDataLength > source.bysValue.length then .outside
            else .done (dv.own source.content applied)
        | .fixChar =>
            let length := source.getDataLength
            if length = 0 ∨ length > source.bysValue.length then .outside
            else .done (dv.own
              (source.bysValue.take (lastBlank source.bysValue length) ++ [0]) applied)

/-!
## The bytes of the target
-/

def padded (val : List Byte) (length : ℕ) : List Byte :=
  val ++ List.replicate (length - val.length) BLANK

theorem getElem?_padded (val : List Byte) {length index : ℕ} (indexLt : index < length) :
    (padded val length)[index]? = if index < val.length then val[index]? else some BLANK := by
  unfold padded
  split
  case isTrue within => exact List.getElem?_append_left within
  case isFalse behind =>
    rw [List.getElem?_append_right (by omega), List.getElem?_replicate_of_lt (by omega)]

theorem length_padded {val : List Byte} {length : ℕ} (short : val.length ≤ length) :
    (padded val length).length = length := by
  rw [padded, List.length_append, List.length_replicate]
  omega

theorem take_eq_padded_iff {buffer val : List Byte} {length : ℕ} (short : val.length ≤ length) :
    buffer.take length = padded val length ↔
      ∀ index < length, buffer[index]? = (padded val length)[index]? := by
  constructor
  · intro same index indexLt
    rw [← same, List.getElem?_take_of_lt indexLt]
  · intro same
    refine List.ext_getElem? ?_
    intro index
    by_cases indexLt : index < length
    · rw [List.getElem?_take_of_lt indexLt, same index indexLt]
    · rw [List.getElem?_eq_none, List.getElem?_eq_none]
      · rw [length_padded short]
        omega
      · rw [List.length_take]
        omega

theorem length_target {dv : TextValue} (fixChar : dv.type = .fixChar) (sound : dv.Sound)
    (applied : AppliedBlock dv.maxLength) : dv.maxLength ≤ (dv.target applied).length := by
  unfold target
  split
  case isTrue sole =>
    have readable := sound.readable
    simpa [getDataLength, sole, fixChar] using readable
  case isFalse => exact applied.holds

theorem content_with {dv : TextValue} (fixChar : dv.type = .fixChar) {valType : ValueType}
    (notNull : valType ≠ .nullValue) (buffer : List Byte) :
    content { dv with valType := valType, bysValue := buffer } = buffer.take dv.maxLength := by
  simp [content, getDataLength, fixChar, notNull]

theorem content_fill {dv : TextValue} (fixChar : dv.type = .fixChar) (sound : dv.Sound)
    (applied : AppliedBlock dv.maxLength) {text : List Byte} (short : text.length ≤ dv.maxLength) :
    (dv.fill applied text).content = padded text dv.maxLength := by
  have room := length_target fixChar sound applied
  have lengthEq : (overwrite 0 text (dv.target applied)).length = (dv.target applied).length :=
    length_overwrite (by omega)
  rw [fill, content_with fixChar (by simp)]
  refine (take_eq_padded_iff short).mpr ?_
  intro index indexLt
  rw [getElem?_padded text indexLt, getElem?_overwrite (by omega), List.length_replicate,
    getElem?_overwrite (by omega)]
  by_cases within : index < text.length
  · rw [if_neg (by omega), if_pos (by omega), if_pos within, Nat.sub_zero]
  · rw [if_pos (by omega), if_neg within, List.getElem?_replicate_of_lt (by omega)]

theorem getElem?_copied {source : TextValue} {maxLength : ℕ} {buffer : List Byte}
    (sourceLt : source.maxLength < 256 ^ 4) (read : source.copyCount ≤ source.bysValue.length)
    (written : source.copyCount ≤ buffer.length) (room : maxLength ≤ buffer.length) {index : ℕ}
    (indexLt : index < maxLength) :
    (source.copied maxLength buffer)[index]? =
      if source.maxLength ≤ index then some BLANK
      else if index + 1 = source.maxLength then buffer[index]?
      else source.bysValue[index]? := by
  have lengthTake : (source.bysValue.take source.copyCount).length = source.copyCount :=
    List.length_take_of_le read
  have count : index < source.maxLength → source.copyCount + 1 = source.maxLength := by
    intro inside
    simp only [copyCount, UINT32_MAX]
    omega
  have bytes : index < source.maxLength →
      (overwrite 0 (source.bysValue.take source.copyCount) buffer)[index]? =
        if index + 1 = source.maxLength then buffer[index]? else source.bysValue[index]? := by
    intro inside
    rw [getElem?_overwrite (Nat.zero_le _), lengthTake]
    by_cases last : index + 1 = source.maxLength
    · rw [if_neg (by have := count inside; omega), if_pos last]
    · rw [if_pos (by have := count inside; omega), if_neg last, Nat.sub_zero,
        List.getElem?_take_of_lt (by have := count inside; omega)]
  have lengthEq : (overwrite 0 (source.bysValue.take source.copyCount) buffer).length =
      buffer.length := length_overwrite (by omega)
  unfold copied
  by_cases behind : source.maxLength ≤ index
  · rw [if_pos behind, if_pos (by omega), getElem?_overwrite (by omega), List.length_replicate,
      if_pos (by omega), List.getElem?_replicate_of_lt (by omega)]
  · rw [if_neg behind, ← bytes (by omega)]
    split
    case isTrue => rw [getElem?_overwrite (by omega), if_neg (by omega)]
    case isFalse => rfl

theorem length_copied {source : TextValue} {maxLength : ℕ} {buffer : List Byte}
    (read : source.copyCount ≤ source.bysValue.length)
    (written : source.copyCount ≤ buffer.length) (room : maxLength ≤ buffer.length) :
    (source.copied maxLength buffer).length = buffer.length := by
  have lengthEq : (overwrite 0 (source.bysValue.take source.copyCount) buffer).length =
      buffer.length := by
    refine length_overwrite ?_
    rw [List.length_take_of_le read]
    omega
  unfold copied
  split
  · rw [length_overwrite, lengthEq]
    rw [List.length_replicate, lengthEq]
    omega
  · exact lengthEq

/-!
## Copies into a FIXCHAR
-/

/-- The value is not NULL and holds the text, a VARCHAR with the NUL behind it or without it. -/
structure IsText (val : List Byte) (dv : TextValue) : Prop where
  notNull : dv.valType ≠ .nullValue
  content : dv.content = val ∨ dv.type = .varChar ∧ dv.content = val ++ [0]

theorem IsText.length_le {val : List Byte} {dv : TextValue} (isText : dv.IsText val) :
    val.length ≤ dv.getDataLength := by
  have contentLe : dv.content.length ≤ dv.getDataLength := List.length_take_le _ _
  rcases isText.content with content | ⟨-, content⟩
  · rw [content] at contentLe
    exact contentLe
  · rw [content, List.length_append] at contentLe
    omega

theorem IsText.getElem? {val : List Byte} {dv : TextValue} (isText : dv.IsText val) {index : ℕ}
    (within : index < val.length) : dv.bysValue[index]? = val[index]? := by
  have lengthLe := isText.length_le
  have byte : dv.content[index]? = dv.bysValue[index]? := by
    rw [TextValue.content, List.getElem?_take_of_lt (by omega)]
  rw [← byte]
  rcases isText.content with content | ⟨-, content⟩
  · rw [content]
  · rw [content, List.getElem?_append_left within]

/-- The copy moves or shares the pointer of the source. -/
def TakesPointer (dv source : TextValue) (bMove : Bool) (refCount : ℕ) : Prop :=
  dv.maxLength = source.maxLength ∧
    (refCount ≤ 1 ∧ bMove = true ∧ source.type = .fixChar ∨ source.valType = .bytesValue)

/-- The bytes that are copied are in the buffer of the source and in that of the target. -/
def Inside (dv source : TextValue) (applied : AppliedBlock dv.maxLength) : Prop :=
  source.copyCount ≤ source.bysValue.length ∧
    source.copyCount ≤ (dv.target applied).length

instance decidableInside (dv source : TextValue) (applied : AppliedBlock dv.maxLength) :
    Decidable (dv.Inside source applied) := by
  unfold Inside
  infer_instance

variable {dv source : TextValue} {bMove : Bool} {refCount : ℕ} {applied : AppliedBlock dv.maxLength}

theorem copyFixChar_refused (notNull : source.valType ≠ .nullValue)
    (long : dv.maxLength < source.getDataLength) :
    dv.copyFixChar (.text source) bMove refCount applied = .refused := by
  simp only [copyFixChar, if_neg notNull, if_pos long]

section

variable (notNull : source.valType ≠ .nullValue) (fits : source.getDataLength ≤ dv.maxLength)

include notNull fits

theorem copyFixChar_fits :
    dv.copyFixChar (.text source) bMove refCount applied =
      if (refCount ≤ 1 ∧ bMove = true) ∧ source.type = .fixChar ∧
          dv.maxLength = source.maxLength then
        .done { dv with valType := source.valType, bysValue := source.bysValue }
      else if source.valType = .bytesValue ∧ dv.maxLength = source.maxLength then
        .done { dv with valType := .bytesValue, bysValue := source.bysValue }
      else if dv.Inside source applied then
        .done { dv with
          valType := .soleValue
          bysValue := source.copied dv.maxLength (dv.target applied) }
      else .outside := by
  have moves : (if refCount > 1 then false else bMove) = true ↔ refCount ≤ 1 ∧ bMove = true := by
    by_cases shared : refCount > 1
    · simp [shared]
    · simp [Nat.le_of_not_lt shared]
  have outside : (source.copyCount > source.bysValue.length ∨
      source.copyCount > (dv.target applied).length) ↔ ¬dv.Inside source applied := by
    unfold Inside
    omega
  simp only [copyFixChar, if_neg notNull, if_neg (Nat.not_lt.mpr fits), moves, outside, ite_not]

theorem copyFixChar_takes (takes : dv.TakesPointer source bMove refCount) :
    ∃ valType, valType ≠ .nullValue ∧ dv.copyFixChar (.text source) bMove refCount applied =
      .done { dv with valType := valType, bysValue := source.bysValue } := by
  rcases takes with ⟨sameMax, way⟩
  rw [copyFixChar_fits notNull fits]
  by_cases moved : (refCount ≤ 1 ∧ bMove = true) ∧ source.type = .fixChar ∧
      dv.maxLength = source.maxLength
  · exact ⟨_, notNull, if_pos moved⟩
  · have shared : source.valType = .bytesValue := by
      rcases way with ⟨single, move, fixChar⟩ | shared
      · exact absurd ⟨⟨single, move⟩, fixChar, sameMax⟩ moved
      · exact shared
    refine ⟨.bytesValue, by simp, ?_⟩
    rw [if_neg moved, if_pos ⟨shared, sameMax⟩]

theorem copyFixChar_copies (copies : ¬dv.TakesPointer source bMove refCount) :
    dv.copyFixChar (.text source) bMove refCount applied =
      if dv.Inside source applied then
        .done { dv with
          valType := .soleValue
          bysValue := source.copied dv.maxLength (dv.target applied) }
      else .outside := by
  rw [copyFixChar_fits notNull fits, if_neg, if_neg]
  · rintro ⟨shared, sameMax⟩
    exact copies ⟨sameMax, Or.inr shared⟩
  · rintro ⟨⟨single, move⟩, fixChar, sameMax⟩
    exact copies ⟨sameMax, Or.inl ⟨single, move, fixChar⟩⟩

end

/-- A value that has been made consists of the text and blanks up to its maximum length. -/
def PadsText (val : List Byte) : CopyOutcome → Prop
  | .refused => True
  | .outside => False
  | .done dv => dv.content = padded val dv.maxLength

/-- What stands behind the text in the buffers is what a padded text has there: blanks in the
source, as far as it is read, and in the target the byte that is not written. -/
def Padding (val : List Byte) (dv source : TextValue) (bMove : Bool) (refCount : ℕ)
    (applied : AppliedBlock dv.maxLength) : Prop :=
  source.getDataLength ≤ dv.maxLength →
    (dv.TakesPointer source bMove refCount →
      ∀ index, val.length ≤ index → index < dv.maxLength →
        source.bysValue[index]? = some BLANK) ∧
    (¬dv.TakesPointer source bMove refCount →
      dv.Inside source applied ∧
      (∀ index, val.length ≤ index → index < dv.maxLength → index + 1 < source.maxLength →
        source.bysValue[index]? = some BLANK) ∧
      ∀ index, index + 1 = source.maxLength → index < dv.maxLength →
        (dv.target applied)[index]? = (padded val dv.maxLength)[index]?)

theorem IsText.take_eq_padded_iff {val : List Byte} (isText : source.IsText val) {length : ℕ}
    (short : val.length ≤ length) :
    source.bysValue.take length = padded val length ↔
      ∀ index, val.length ≤ index → index < length → source.bysValue[index]? = some BLANK := by
  rw [TextValue.take_eq_padded_iff short]
  constructor
  · intro same index behind indexLt
    rw [same index indexLt, getElem?_padded val indexLt, if_neg (by omega)]
  · intro blanks index indexLt
    rw [getElem?_padded val indexLt]
    split
    case isTrue within => exact isText.getElem? within
    case isFalse behind => exact blanks index (by omega) indexLt

theorem IsText.copied_eq_padded_iff {val : List Byte} (isText : source.IsText val)
    (sound : source.Sound) (fixChar : dv.type = .fixChar) (dvSound : dv.Sound)
    (fits : source.getDataLength ≤ dv.maxLength) (inside : dv.Inside source applied) :
    (source.copied dv.maxLength (dv.target applied)).take dv.maxLength = padded val dv.maxLength ↔
      (∀ index, val.length ≤ index → index < dv.maxLength → index + 1 < source.maxLength →
        source.bysValue[index]? = some BLANK) ∧
      ∀ index, index + 1 = source.maxLength → index < dv.maxLength →
        (dv.target applied)[index]? = (padded val dv.maxLength)[index]? := by
  have lengthLe := isText.length_le
  have within := sound.within
  have room := length_target fixChar dvSound applied
  have byte {index : ℕ} (indexLt : index < dv.maxLength) :=
    getElem?_copied sound.maxLength_lt inside.1 inside.2 room indexLt
  rw [TextValue.take_eq_padded_iff (by omega)]
  constructor
  · intro same
    refine ⟨?_, ?_⟩
    · intro index behind indexLt read
      have sameByte := same index indexLt
      rw [byte indexLt, if_neg (by omega), if_neg (by omega), getElem?_padded val indexLt,
        if_neg (by omega)] at sameByte
      exact sameByte
    · intro index last indexLt
      have sameByte := same index indexLt
      rw [byte indexLt, if_neg (by omega), if_pos last] at sameByte
      exact sameByte
  · rintro ⟨blanks, kept⟩ index indexLt
    rw [byte indexLt]
    split
    case isTrue behind => rw [getElem?_padded val indexLt, if_neg (by omega)]
    case isFalse inSource =>
      split
      case isTrue last => exact kept index last indexLt
      case isFalse notLast =>
        rw [getElem?_padded val indexLt]
        split
        case isTrue inText => exact isText.getElem? inText
        case isFalse behind => exact blanks index (by omega) indexLt (by omega)

theorem padsText_with_iff {val : List Byte} (fixChar : dv.type = .fixChar) {valType : ValueType}
    (notNull : valType ≠ .nullValue) (buffer : List Byte) :
    PadsText val (.done { dv with valType := valType, bysValue := buffer }) ↔
      buffer.take dv.maxLength = padded val dv.maxLength := by
  rw [PadsText, content_with fixChar notNull]

theorem padsText_copyFixChar_iff {val : List Byte} (isText : source.IsText val)
    (sound : source.Sound) (fixChar : dv.type = .fixChar) (dvSound : dv.Sound) :
    PadsText val (dv.copyFixChar (.text source) bMove refCount applied) ↔
      Padding val dv source bMove refCount applied := by
  have notNull := isText.notNull
  have lengthLe := isText.length_le
  by_cases fits : source.getDataLength ≤ dv.maxLength
  · refine Iff.trans ?_ (forall_prop_of_true fits).symm
    by_cases takes : dv.TakesPointer source bMove refCount
    · rcases @copyFixChar_takes dv source bMove refCount applied notNull fits takes with
        ⟨valType, valTypeNe, pointer⟩
      rw [pointer, padsText_with_iff fixChar valTypeNe, isText.take_eq_padded_iff (by omega)]
      exact ⟨fun blanks => ⟨fun _ => blanks, fun copies => absurd takes copies⟩,
        fun padding => padding.1 takes⟩
    · rw [copyFixChar_copies notNull fits takes]
      by_cases inside : dv.Inside source applied
      · have padded := isText.copied_eq_padded_iff sound fixChar dvSound fits inside
        rw [if_pos inside, padsText_with_iff fixChar (by simp), padded]
        exact ⟨fun bytes => ⟨fun pointer => absurd pointer takes, fun _ => ⟨inside, bytes⟩⟩,
          fun padding => (padding.2 takes).2⟩
      · rw [if_neg inside]
        exact ⟨fun wrong => wrong.elim, fun padding => absurd (padding.2 takes).1 inside⟩
  · rw [copyFixChar_refused notNull (by omega)]
    exact ⟨fun _ fits' => absurd fits' fits, fun _ => trivial⟩

/-!
## There and back
-/

theorem lastBlank_spec (bys : List Byte) {len : ℕ} (positive : 0 < len) :
    (lastBlank bys len < len ∧ bys[lastBlank bys len]? = some BLANK ∧
        ∀ index, lastBlank bys len < index → index < len → bys[index]? ≠ some BLANK) ∨
      lastBlank bys len = 0 ∧ ∀ index < len, bys[index]? ≠ some BLANK := by
  induction len with
  | zero => omega
  | succ len ih =>
      unfold lastBlank
      by_cases blank : bys[len]? = some BLANK
      · rw [if_pos blank]
        exact Or.inl ⟨Nat.lt_succ_self len, blank, fun index behind within => by omega⟩
      · rw [if_neg blank]
        have behind {index : ℕ} (indexLt : index < len + 1) (notLess : ¬index < len) :
            bys[index]? ≠ some BLANK := by
          have last : index = len := by omega
          rwa [last]
        by_cases first : len = 0
        · rw [if_pos first]
          exact Or.inr ⟨rfl, fun index indexLt => behind indexLt (by omega)⟩
        · rw [if_neg first]
          rcases ih (by omega) with ⟨within, isBlank, later⟩ | ⟨zero, noBlank⟩
          · refine Or.inl ⟨by omega, isBlank, ?_⟩
            intro index after indexLt
            by_cases less : index < len
            · exact later index after less
            · exact behind indexLt less
          · refine Or.inr ⟨zero, ?_⟩
            intro index indexLt
            by_cases less : index < len
            · exact noBlank index less
            · exact behind indexLt less

theorem lastBlank_eq_iff {bys : List Byte} {len place : ℕ} (positive : 0 < len) :
    lastBlank bys len = place ↔
      (place < len ∧ bys[place]? = some BLANK ∧
        ∀ index, place < index → index < len → bys[index]? ≠ some BLANK) ∨
      place = 0 ∧ ∀ index < len, bys[index]? ≠ some BLANK := by
  constructor
  · rintro rfl
    exact lastBlank_spec bys positive
  · intro isLast
    rcases lastBlank_spec bys positive with ⟨within, blank, later⟩ | ⟨zero, noBlank⟩
    · rcases isLast with ⟨placeLt, blankPlace, laterPlace⟩ | ⟨-, noBlank⟩
      · rcases Nat.lt_trichotomy (lastBlank bys len) place with before | same | behind
        · exact absurd blankPlace (later place before placeLt)
        · exact same
        · exact absurd blank (laterPlace _ behind within)
      · exact absurd blank (noBlank _ within)
    · rcases isLast with ⟨placeLt, blankPlace, -⟩ | ⟨placeZero, -⟩
      · exact absurd blankPlace (noBlank place placeLt)
      · rw [zero, placeZero]

/-- The value of a text: nothing for NULL. -/
def value (dv : TextValue) : Option (List Byte) :=
  if dv.valType = .nullValue then none else some dv.content

/-- `operator==` of two VARCHAR values. -/
def equalVarChar (dv1 dv2 : TextValue) : Bool :=
  IDataValue.sameEQ (.varChar dv1.value) (.varChar dv2.value) = some true

theorem equalVarChar_iff {dv1 dv2 : TextValue} (notNull1 : dv1.valType ≠ .nullValue)
    (notNull2 : dv2.valType ≠ .nullValue) :
    dv1.equalVarChar dv2 = true ↔ dv1.content = dv2.content := by
  have zero (sameLength : dv1.content.length = dv2.content.length) :
      bytesCompareInt dv1.content dv2.content = 0 ↔ dv1.content = dv2.content := by
    rw [bytesCompareInt_eq (by simp [sameLength, narrowed])]
    exact (compares_bytesCompare dv1.content dv2.content).zero
  simp only [equalVarChar, value, if_neg notNull1, if_neg notNull2, IDataValue.sameEQ, nullsEqual,
    decide_eq_true_eq, Option.some.injEq]
  by_cases sameLength : dv1.content.length = dv2.content.length
  · simp [sameLength, zero sameLength]
  · simp only [ne_eq, sameLength, not_false_eq_true, if_true, Bool.false_eq_true, false_iff]
    intro same
    exact sameLength (congrArg List.length same)

/-- The text is copied into a FIXCHAR and from there into a VARCHAR, which is equal to it. -/
def RoundTrips (dv fix back : TextValue) (bMove1 bMove2 : Bool) (refCount1 refCount2 : ℕ)
    (applied1 : AppliedBlock fix.maxLength) (applied2 : List Byte) : Prop :=
  ∃ middle result, fix.copyFixChar (.text dv) bMove1 refCount1 applied1 = .done middle ∧
    back.copyVarChar (.text middle) bMove2 refCount2 applied2 = .done result ∧
    result.equalVarChar dv = true

/-- The texts that come back: those with a NUL whose length is the maximum length of both classes,
when the target has a blank at the end before, and the empty text with a NUL, when no blank comes
from the buffers. -/
def ComesBack (dv fix back : TextValue) (bMove : Bool) (refCount : ℕ)
    (applied : AppliedBlock fix.maxLength) : Prop :=
  ∃ val, dv.content = val ++ [0] ∧ dv.getDataLength ≤ fix.maxLength ∧
    fix.maxLength ≤ back.maxLength ∧
    (fix.TakesPointer dv bMove refCount →
      val = [] ∧ fix.maxLength ≤ dv.bysValue.length ∧
        ∀ index < fix.maxLength, dv.bysValue[index]? ≠ some BLANK) ∧
    (¬fix.TakesPointer dv bMove refCount →
      fix.Inside dv applied ∧
      (dv.maxLength = dv.getDataLength ∧ fix.maxLength = dv.getDataLength ∧
          (fix.target applied)[val.length]? = some BLANK ∨
        val = [] ∧ fix.maxLength ≤ dv.maxLength ∧
          (∀ index < fix.maxLength, index + 1 < dv.maxLength →
            dv.bysValue[index]? ≠ some BLANK) ∧
          ∀ index < fix.maxLength, index + 1 = dv.maxLength →
            (fix.target applied)[index]? ≠ some BLANK))

theorem content_own {dv : TextValue} (varChar : dv.type = .varChar) (bytes applied : List Byte) :
    (dv.own bytes applied).content = bytes := by
  simp [own, content, getDataLength, varChar, overwrite]

theorem copyVarChar_fixChar {back middle : TextValue} {bMove : Bool} {refCount : ℕ}
    {applied : List Byte} (fixChar : middle.type = .fixChar)
    (notNull : middle.valType ≠ .nullValue) :
    back.copyVarChar (.text middle) bMove refCount applied =
      if middle.maxLength > back.maxLength then .refused
      else if middle.maxLength = 0 ∨ middle.maxLength > middle.bysValue.length then .outside
      else .done (back.own
        (middle.bysValue.take (lastBlank middle.bysValue middle.maxLength) ++ [0]) applied) := by
  have length : middle.getDataLength = middle.maxLength := by
    simp [getDataLength, fixChar, notNull]
  simp only [copyVarChar, if_neg notNull, length, fixChar]

/-- A FIXCHAR is copied back as a value equal to a text when this is what stands before the last
blank, and a NUL. -/
theorem copyBack_iff {back text middle : TextValue} {bMove : Bool} {refCount : ℕ}
    {applied : List Byte} (fixChar : middle.type = .fixChar)
    (notNull : middle.valType ≠ .nullValue) (varChar : back.type = .varChar)
    (textNotNull : text.valType ≠ .nullValue) :
    (∃ result, back.copyVarChar (.text middle) bMove refCount applied = .done result ∧
        result.equalVarChar text = true) ↔
      middle.maxLength ≤ back.maxLength ∧ 0 < middle.maxLength ∧
        middle.maxLength ≤ middle.bysValue.length ∧
        middle.bysValue.take (lastBlank middle.bysValue middle.maxLength) ++ [0] =
          text.content := by
  rw [copyVarChar_fixChar fixChar notNull]
  by_cases fits : middle.maxLength ≤ back.maxLength
  · by_cases read : middle.maxLength = 0 ∨ middle.maxLength > middle.bysValue.length
    · rw [if_neg (by omega), if_pos read]
      refine iff_of_false ?_ ?_
      · rintro ⟨result, impossible, -⟩
        cases impossible
      · rintro ⟨-, positive, readable, -⟩
        omega
    · rw [if_neg (by omega), if_neg read]
      have copyNotNull (bytes : List Byte) : (back.own bytes applied).valType ≠ .nullValue := by
        simp [own]
      constructor
      · rintro ⟨result, isResult, equal⟩
        cases isResult
        rw [equalVarChar_iff (copyNotNull _) textNotNull, content_own varChar] at equal
        exact ⟨fits, by omega, by omega, equal⟩
      · rintro ⟨-, -, -, same⟩
        refine ⟨_, rfl, ?_⟩
        rw [equalVarChar_iff (copyNotNull _) textNotNull, content_own varChar, same]
  · rw [if_pos (by omega)]
    refine iff_of_false ?_ fun ⟨fits', _⟩ => fits fits'
    rintro ⟨result, impossible, -⟩
    cases impossible

theorem cut_iff {buffer content : List Byte} {length : ℕ} (positive : 0 < length)
    (readable : length ≤ buffer.length) :
    buffer.take (lastBlank buffer length) ++ [0] = content ↔
      ∃ val, content = val ++ [0] ∧ buffer.take val.length = val ∧
        lastBlank buffer length = val.length := by
  have blankLt : lastBlank buffer length < length := by
    rcases lastBlank_spec buffer positive with ⟨within, -⟩ | ⟨zero, -⟩
    · exact within
    · omega
  constructor
  · rintro rfl
    have cutLength : (buffer.take (lastBlank buffer length)).length = lastBlank buffer length :=
      List.length_take_of_le (by omega)
    exact ⟨_, rfl, by rw [cutLength], cutLength.symm⟩
  · rintro ⟨val, rfl, isVal, place⟩
    rw [place, isVal]

theorem roundTrips_iff_cut {dv fix back : TextValue} {bMove1 bMove2 : Bool}
    {refCount1 refCount2 : ℕ} {applied1 : AppliedBlock fix.maxLength} {applied2 : List Byte}
    (notNull : dv.valType ≠ .nullValue) (fixChar : fix.type = .fixChar)
    (varChar : back.type = .varChar) :
    RoundTrips dv fix back bMove1 bMove2 refCount1 refCount2 applied1 applied2 ↔
      dv.getDataLength ≤ fix.maxLength ∧ fix.maxLength ≤ back.maxLength ∧ 0 < fix.maxLength ∧
        (fix.TakesPointer dv bMove1 refCount1 → fix.maxLength ≤ dv.bysValue.length ∧
          dv.bysValue.take (lastBlank dv.bysValue fix.maxLength) ++ [0] = dv.content) ∧
        (¬fix.TakesPointer dv bMove1 refCount1 → fix.Inside dv applied1 ∧
          fix.maxLength ≤ (dv.copied fix.maxLength (fix.target applied1)).length ∧
          (dv.copied fix.maxLength (fix.target applied1)).take
            (lastBlank (dv.copied fix.maxLength (fix.target applied1)) fix.maxLength) ++ [0] =
              dv.content) := by
  unfold RoundTrips
  by_cases fits : dv.getDataLength ≤ fix.maxLength
  · by_cases takes : fix.TakesPointer dv bMove1 refCount1
    · rcases @copyFixChar_takes fix dv bMove1 refCount1 applied1 notNull fits takes with
        ⟨valType, valTypeNe, pointer⟩
      have copyBack := @copyBack_iff back dv
        { fix with valType := valType, bysValue := dv.bysValue } bMove2 refCount2 applied2 fixChar
        valTypeNe varChar notNull
      simp only [pointer, CopyOutcome.done.injEq, fits, takes, true_implies, true_and,
        not_true_eq_false, false_implies, and_true]
      rw [← copyBack]
      constructor
      · rintro ⟨middle, result, rfl, copied⟩
        exact ⟨result, copied⟩
      · rintro ⟨result, copied⟩
        exact ⟨_, result, rfl, copied⟩
    · simp only [copyFixChar_copies notNull fits takes, fits, takes, true_implies, true_and,
        false_implies, not_false_eq_true]
      by_cases inside : fix.Inside dv applied1
      · have copyBack := @copyBack_iff back dv
          { fix with
            valType := .soleValue
            bysValue := dv.copied fix.maxLength (fix.target applied1) }
          bMove2 refCount2 applied2 fixChar (by simp) varChar notNull
        simp only [inside, if_true, CopyOutcome.done.injEq, true_and]
        rw [← copyBack]
        constructor
        · rintro ⟨middle, result, rfl, copied⟩
          exact ⟨result, copied⟩
        · rintro ⟨result, copied⟩
          exact ⟨_, result, rfl, copied⟩
      · simp only [inside, if_false, false_and, and_false, iff_false]
        rintro ⟨middle, result, impossible, -⟩
        cases impossible
  · rw [copyFixChar_refused notNull (by omega)]
    refine iff_of_false ?_ fun ⟨fits', _⟩ => fits fits'
    rintro ⟨middle, result, impossible, -⟩
    cases impossible

theorem terminated_facts {dv : TextValue} (sound : dv.Sound) (varChar : dv.type = .varChar)
    (notNull : dv.valType ≠ .nullValue) {val : List Byte} (content : dv.content = val ++ [0]) :
    dv.getDataLength = val.length + 1 ∧ dv.bysValue[val.length]? = some 0 ∧ dv.IsText val := by
  have length : dv.content.length = dv.getDataLength := List.length_take_of_le sound.readable
  rw [content, List.length_append] at length
  refine ⟨length.symm, ?_, ⟨notNull, Or.inr ⟨varChar, content⟩⟩⟩
  have byte : dv.content[val.length]? = dv.bysValue[val.length]? := by
    rw [TextValue.content, List.getElem?_take_of_lt (by simp at length; omega)]
  rw [← byte, content, List.getElem?_append_right le_rfl]
  simp

theorem cut_takes_iff {dv : TextValue} (sound : dv.Sound) (varChar : dv.type = .varChar)
    (notNull : dv.valType ≠ .nullValue) {length : ℕ} (positive : 0 < length) :
    (length ≤ dv.bysValue.length ∧
        dv.bysValue.take (lastBlank dv.bysValue length) ++ [0] = dv.content) ↔
      ∃ val, dv.content = val ++ [0] ∧ val = [] ∧ length ≤ dv.bysValue.length ∧
        ∀ index < length, dv.bysValue[index]? ≠ some BLANK := by
  constructor
  · rintro ⟨readable, cut⟩
    rcases (cut_iff positive readable).mp cut with ⟨val, content, -, place⟩
    rcases terminated_facts sound varChar notNull content with ⟨dataLength, nul, -⟩
    rcases (lastBlank_eq_iff positive).mp place with ⟨-, blank, -⟩ | ⟨zero, noBlank⟩
    · rw [nul] at blank
      cases blank
    · exact ⟨val, content, List.length_eq_zero_iff.mp zero, readable, noBlank⟩
  · rintro ⟨val, content, rfl, readable, noBlank⟩
    refine ⟨readable, (cut_iff positive readable).mpr ⟨[], content, rfl, ?_⟩⟩
    exact (lastBlank_eq_iff positive).mpr (Or.inr ⟨rfl, noBlank⟩)

/-- A text that is copied comes back when the byte behind it is a blank of the target, at the end
of both classes, or when it is empty and no blank is found. -/
theorem cut_copies_iff {dv fix : TextValue} {applied : AppliedBlock fix.maxLength}
    (sound : dv.Sound) (varChar : dv.type = .varChar) (notNull : dv.valType ≠ .nullValue)
    (fixChar : fix.type = .fixChar) (fixSound : fix.Sound) (inside : fix.Inside dv applied)
    (positive : 0 < fix.maxLength) (fits : dv.getDataLength ≤ fix.maxLength) :
    (dv.copied fix.maxLength (fix.target applied)).take
        (lastBlank (dv.copied fix.maxLength (fix.target applied)) fix.maxLength) ++ [0] =
        dv.content ↔
      ∃ val, dv.content = val ++ [0] ∧
        (dv.maxLength = dv.getDataLength ∧ fix.maxLength = dv.getDataLength ∧
            (fix.target applied)[val.length]? = some BLANK ∨
          val = [] ∧ fix.maxLength ≤ dv.maxLength ∧
            (∀ index < fix.maxLength, index + 1 < dv.maxLength →
              dv.bysValue[index]? ≠ some BLANK) ∧
            ∀ index < fix.maxLength, index + 1 = dv.maxLength →
              (fix.target applied)[index]? ≠ some BLANK) := by
  have within := sound.within
  have room := length_target fixChar fixSound applied
  have readable : fix.maxLength ≤ (dv.copied fix.maxLength (fix.target applied)).length := by
    rw [length_copied inside.1 inside.2 room]
    exact room
  have byte {index : ℕ} (indexLt : index < fix.maxLength) :=
    getElem?_copied sound.maxLength_lt inside.1 inside.2 room indexLt
  rw [cut_iff positive readable]
  constructor
  · rintro ⟨val, content, -, place⟩
    rcases terminated_facts sound varChar notNull content with ⟨dataLength, nul, -⟩
    refine ⟨val, content, ?_⟩
    have lastByte := byte (Nat.sub_lt positive Nat.one_pos)
    rcases (lastBlank_eq_iff positive).mp place with ⟨placeLt, blank, later⟩ | ⟨zero, noBlank⟩
    · -- the blank is the byte of the target, since the source has the NUL there
      have full : dv.maxLength = val.length + 1 := by
        rw [byte placeLt, if_neg (by omega)] at blank
        by_cases last : val.length + 1 = dv.maxLength
        · exact last.symm
        · rw [if_neg last, nul] at blank
          cases blank
      have sameMax : fix.maxLength ≤ dv.maxLength := by
        by_contra longer
        rw [if_pos (by omega)] at lastByte
        exact later _ (by omega) (by omega) lastByte
      rw [byte placeLt, if_neg (by omega), if_pos full.symm] at blank
      exact Or.inl ⟨by omega, by omega, blank⟩
    · have short : fix.maxLength ≤ dv.maxLength := by
        by_contra longer
        rw [if_pos (by omega)] at lastByte
        exact noBlank _ (by omega) lastByte
      refine Or.inr ⟨List.length_eq_zero_iff.mp zero, short, ?_, ?_⟩
      · intro index indexLt read
        have noBlankHere := noBlank index indexLt
        rwa [byte indexLt, if_neg (by omega), if_neg (by omega)] at noBlankHere
      · intro index indexLt last
        have noBlankHere := noBlank index indexLt
        rwa [byte indexLt, if_neg (by omega), if_pos last] at noBlankHere
  · rintro ⟨val, content, way⟩
    rcases terminated_facts sound varChar notNull content with ⟨dataLength, nul, isText⟩
    refine ⟨val, content, ?_, ?_⟩
    · refine List.ext_getElem? ?_
      intro index
      by_cases inText : index < val.length
      · rw [List.getElem?_take_of_lt inText, byte (by omega), if_neg (by omega),
          if_neg (by omega), isText.getElem? inText]
      · rw [List.getElem?_eq_none, List.getElem?_eq_none (by omega)]
        rw [List.length_take]
        omega
    · refine (lastBlank_eq_iff positive).mpr ?_
      rcases way with ⟨full, sameMax, blank⟩ | ⟨rfl, short, noBlankSource, noBlankTarget⟩
      · refine Or.inl ⟨by omega, ?_, ?_⟩
        · rw [byte (by omega), if_neg (by omega), if_pos (by omega)]
          exact blank
        · intro index after indexLt
          omega
      · refine Or.inr ⟨rfl, ?_⟩
        intro index indexLt
        rw [byte indexLt, if_neg (by omega)]
        split
        case isTrue last => exact noBlankTarget index indexLt last
        case isFalse notLast => exact noBlankSource index indexLt (by omega)

theorem comesBack_iff {dv fix back : TextValue} {bMove1 bMove2 : Bool} {refCount1 refCount2 : ℕ}
    {applied1 : AppliedBlock fix.maxLength} {applied2 : List Byte} (sound : dv.Sound)
    (dvType : dv.type = .varChar) (notNull : dv.valType ≠ .nullValue)
    (fixChar : fix.type = .fixChar) (fixSound : fix.Sound) (varChar : back.type = .varChar) :
    RoundTrips dv fix back bMove1 bMove2 refCount1 refCount2 applied1 applied2 ↔
      ComesBack dv fix back bMove1 refCount1 applied1 := by
  rw [roundTrips_iff_cut notNull fixChar varChar]
  unfold ComesBack
  constructor
  · rintro ⟨fits, fitsBack, positive, taken, copied⟩
    by_cases takes : fix.TakesPointer dv bMove1 refCount1
    · rcases (cut_takes_iff sound dvType notNull positive).mp (taken takes) with
        ⟨val, content, comesBack⟩
      exact ⟨val, content, fits, fitsBack, fun _ => comesBack, fun copies => absurd takes copies⟩
    · rcases copied takes with ⟨inside, -, cut⟩
      rcases (cut_copies_iff sound dvType notNull fixChar fixSound inside positive fits).mp cut with
        ⟨val, content, comesBack⟩
      exact ⟨val, content, fits, fitsBack, fun pointer => absurd pointer takes,
        fun _ => ⟨inside, comesBack⟩⟩
  · rintro ⟨val, content, fits, fitsBack, taken, copied⟩
    rcases terminated_facts sound dvType notNull content with ⟨dataLength, -, -⟩
    have positive : 0 < fix.maxLength := by omega
    refine ⟨fits, fitsBack, positive, ?_, ?_⟩
    · intro takes
      exact (cut_takes_iff sound dvType notNull positive).mpr ⟨val, content, taken takes⟩
    · intro copies
      rcases copied copies with ⟨inside, comesBack⟩
      have room := length_target fixChar fixSound applied1
      refine ⟨inside, ?_, ?_⟩
      · rw [length_copied inside.1 inside.2 room]
        exact room
      · exact (cut_copies_iff sound dvType notNull fixChar fixSound inside positive fits).mpr
          ⟨val, content, comesBack⟩

/-!
## The ways to fill a FIXCHAR
-/

theorem setFixChar_padded_iff {fix : TextValue} (fixChar : fix.type = .fixChar)
    (fixSound : fix.Sound) (applied : AppliedBlock fix.maxLength) (val : List Byte) :
    (∀ built, fix.setFixChar applied val = some built → built.content = padded val fix.maxLength) ↔
      val.length < 256 ^ 4 ∨ fix.maxLength ≤ val.length % 256 ^ 4 := by
  have maxLt := fixSound.maxLength_lt
  have lengthTake : (val.take (val.length % 256 ^ 4)).length = val.length % 256 ^ 4 :=
    List.length_take_of_le (Nat.mod_le _ _)
  by_cases refused : fix.maxLength ≤ val.length % 256 ^ 4
  · refine iff_of_true ?_ (Or.inr refused)
    intro built isBuilt
    rw [setFixChar, if_pos refused] at isBuilt
    cases isBuilt
  · have content := content_fill fixChar fixSound applied
      (show (val.take (val.length % 256 ^ 4)).length ≤ fix.maxLength by omega)
    have isSet : fix.setFixChar applied val =
        some (fix.fill applied (val.take (val.length % 256 ^ 4))) := if_neg refused
    rw [isSet]
    constructor
    · intro same
      have lengths := congrArg List.length (content.symm.trans (same _ rfl))
      rw [length_padded (by omega), padded, List.length_append] at lengths
      omega
    · intro short built isBuilt
      cases isBuilt
      rw [content, Nat.mod_eq_of_lt (by omega), List.take_length]

theorem putFixChar_padded {fix : TextValue} (fixChar : fix.type = .fixChar)
    (fixSound : fix.Sound) (applied : AppliedBlock fix.maxLength) {kind : TextKind}
    {val : List Byte} {built : TextValue} (isBuilt : fix.putFixChar applied kind val = some built) :
    built.content = padded (val.take (kind.len val)) fix.maxLength := by
  simp only [putFixChar, Option.ite_none_left_eq_some, Option.some.injEq] at isBuilt
  rcases isBuilt with ⟨fits, rfl⟩
  refine content_fill fixChar fixSound applied ?_
  rw [List.length_take]
  omega

theorem padsText_other {fix : TextValue} (fixChar : fix.type = .fixChar) (fixSound : fix.Sound)
    (applied : AppliedBlock fix.maxLength) (sb : List Byte) (bMove : Bool) (refCount : ℕ) :
    PadsText sb (fix.copyFixChar (.other (some sb)) bMove refCount applied) := by
  simp only [copyFixChar]
  split
  case isTrue => trivial
  case isFalse fits => exact content_fill fixChar fixSound applied (by omega)

/-!
## The bounds of the buffers
-/

theorem copyFixChar_inside_iff :
    dv.copyFixChar (.text source) bMove refCount applied ≠ .outside ↔
      (source.valType ≠ .nullValue → source.getDataLength ≤ dv.maxLength →
        ¬dv.TakesPointer source bMove refCount → dv.Inside source applied) := by
  by_cases isNull : source.valType = .nullValue
  · simp [copyFixChar, isNull]
  · by_cases fits : source.getDataLength ≤ dv.maxLength
    · by_cases takes : dv.TakesPointer source bMove refCount
      · rcases @copyFixChar_takes dv source bMove refCount applied isNull fits takes with
          ⟨valType, -, pointer⟩
        simp [pointer, takes]
      · rw [copyFixChar_copies isNull fits takes]
        by_cases inside : dv.Inside source applied
        · simp [inside]
        · simp [inside, isNull, fits, takes]
    · rw [copyFixChar_refused isNull (by omega)]
      simp [fits]

theorem copyVarChar_inside_iff {back source : TextValue} {bMove : Bool} {refCount : ℕ}
    {applied : List Byte} (sound : source.Sound) :
    back.copyVarChar (.text source) bMove refCount applied ≠ .outside ↔
      (source.valType ≠ .nullValue → source.getDataLength ≤ back.maxLength →
        source.type = .fixChar → 0 < source.maxLength) := by
  have readable := sound.readable
  by_cases isNull : source.valType = .nullValue
  · simp [copyVarChar, isNull]
  · by_cases fits : source.getDataLength ≤ back.maxLength
    · cases sourceType : source.type with
      | fixChar =>
          have length : source.getDataLength = source.maxLength := by
            simp [getDataLength, sourceType, isNull]
          rw [copyVarChar_fixChar sourceType isNull, if_neg (by omega)]
          by_cases empty : source.maxLength = 0
          · simp [empty, isNull, length]
          · rw [if_neg (by omega)]
            simp only [ne_eq, reduceCtorEq, not_false_eq_true, true_iff]
            intro _ _ _
            omega
      | varChar =>
          simp only [copyVarChar, if_neg isNull, if_neg (Nat.not_lt.mpr fits), sourceType,
            if_neg (Nat.not_lt.mpr readable)]
          refine iff_of_true ?_ fun _ _ impossible => by cases impossible
          generalize (if refCount > 1 then false else bMove) = moved
          cases moved with
          | true => simp
          | false => by_cases shared : source.valType = .bytesValue <;> simp [shared]
    · simp [copyVarChar, isNull, fits, Nat.lt_of_not_le fits]

end TextValue

namespace TextValue

/-- Which texts come back from a FIXCHAR, which ways to fill a FIXCHAR leave the text with blanks
behind it, and which copies stay inside of the buffers. -/
theorem textConversion_iff {text fix back source : TextValue} {val : List Byte}
    (textSound : text.Sound) (textType : text.type = .varChar)
    (textNotNull : text.valType ≠ .nullValue) (fixChar : fix.type = .fixChar)
    (fixSound : fix.Sound) (varChar : back.type = .varChar) (sourceSound : source.Sound)
    (isText : source.IsText val) (bMove1 bMove2 : Bool) (refCount1 refCount2 : ℕ)
    (applied1 : AppliedBlock fix.maxLength) (applied2 : List Byte) :
    (RoundTrips text fix back bMove1 bMove2 refCount1 refCount2 applied1 applied2 ↔
        ComesBack text fix back bMove1 refCount1 applied1) ∧
      (∀ string, (∀ built, fix.setFixChar applied1 string = some built →
          built.content = padded string fix.maxLength) ↔
        string.length < 256 ^ 4 ∨ fix.maxLength ≤ string.length % 256 ^ 4) ∧
      (∀ kind string built, fix.putFixChar applied1 kind string = some built →
        built.content = padded (string.take (kind.len string)) fix.maxLength) ∧
      (∀ sb, PadsText sb (fix.copyFixChar (.other (some sb)) bMove1 refCount1 applied1)) ∧
      (PadsText val (fix.copyFixChar (.text source) bMove1 refCount1 applied1) ↔
        Padding val fix source bMove1 refCount1 applied1) ∧
      (fix.copyFixChar (.text source) bMove1 refCount1 applied1 ≠ .outside ↔
        (source.valType ≠ .nullValue → source.getDataLength ≤ fix.maxLength →
          ¬fix.TakesPointer source bMove1 refCount1 → fix.Inside source applied1)) ∧
      (back.copyVarChar (.text source) bMove2 refCount2 applied2 ≠ .outside ↔
        (source.valType ≠ .nullValue → source.getDataLength ≤ back.maxLength →
          source.type = .fixChar → 0 < source.maxLength)) := by
  refine ⟨?_, ?_, ?_, ?_, ?_, ?_, ?_⟩
  · exact comesBack_iff textSound textType textNotNull fixChar fixSound varChar
  · exact setFixChar_padded_iff fixChar fixSound applied1
  · intro kind string built isBuilt
    exact putFixChar_padded fixChar fixSound applied1 isBuilt
  · intro sb
    exact padsText_other fixChar fixSound applied1 sb bMove1 refCount1
  · exact padsText_copyFixChar_iff isText sourceSound fixChar fixSound
  · exact copyFixChar_inside_iff
  · exact copyVarChar_inside_iff sourceSound

/-- "ab" in a VARCHAR, with the bytes that are behind it in its block. -/
def twoChars (maxLength : ℕ) : TextValue where
  type := .varChar
  valType := .soleValue
  maxLength := maxLength
  soleLength := 3
  bysValue := [97, 98, 0] ++ List.replicate 13 0

theorem sound_twoChars {maxLength : ℕ} (room : 3 ≤ maxLength) (maxLt : maxLength < 256 ^ 4) :
    (twoChars maxLength).Sound :=
  ⟨by simp [twoChars, getDataLength], room, maxLt⟩

theorem isText_twoChars (maxLength : ℕ) : (twoChars maxLength).IsText [97, 98] :=
  ⟨by simp [twoChars], Or.inr ⟨rfl, rfl⟩⟩

def emptyFixChar (maxLength : ℕ) : TextValue where
  type := .fixChar
  valType := .nullValue
  maxLength := maxLength
  soleLength := 0
  bysValue := []

theorem sound_emptyFixChar {maxLength : ℕ} (maxLt : maxLength < 256 ^ 4) :
    (emptyFixChar maxLength).Sound :=
  ⟨Nat.zero_le _, Nat.zero_le _, maxLt⟩

/-- "ab" fills a VARCHAR(3), and comes back when the block of a FIXCHAR(3) has had blanks. -/
theorem twoChars_comeBack :
    RoundTrips (twoChars 3) (emptyFixChar 3) (twoChars 3) true true 1 1
      ⟨List.replicate 16 BLANK, by simp [emptyFixChar]⟩ [] := by
  refine (textConversion_iff (sound_twoChars le_rfl (by decide)) rfl (by simp [twoChars]) rfl
    (sound_emptyFixChar (by decide)) rfl (sound_twoChars le_rfl (by decide)) (isText_twoChars 3)
    true true 1 1 _ []).1.mpr ⟨[97, 98], rfl, le_rfl, le_rfl, ?_, ?_⟩
  · rintro ⟨-, moved | shared⟩
    · cases moved.2.2
    · cases shared
  · intro _
    exact ⟨by decide, Or.inl ⟨rfl, rfl, rfl⟩⟩

/-- "ab" from a VARCHAR(4) does not come back from a FIXCHAR(6) with zeros in its block, and is
not padded there; from a VARCHAR(40) more bytes are copied than the blocks have. -/
theorem not_textConversion :
    ¬RoundTrips (twoChars 4) (emptyFixChar 6) (twoChars 6) true true 1 1
        ⟨List.replicate 16 0, by simp [emptyFixChar]⟩ [] ∧
      ¬PadsText [97, 98] ((emptyFixChar 6).copyFixChar (.text (twoChars 4)) true 1
        ⟨List.replicate 16 0, by simp [emptyFixChar]⟩) ∧
      (emptyFixChar 6).copyFixChar (.text (twoChars 40)) true 1
        ⟨List.replicate 16 0, by simp [emptyFixChar]⟩ = .outside := by
  have copies (maxLength : ℕ) : ¬(emptyFixChar 6).TakesPointer (twoChars maxLength) true 1 := by
    rintro ⟨-, moved | shared⟩
    · cases moved.2.2
    · cases shared
  refine ⟨?_, ?_, ?_⟩
  · rw [comesBack_iff (sound_twoChars (by decide) (by decide)) rfl (by simp [twoChars]) rfl
      (sound_emptyFixChar (by decide)) rfl]
    rintro ⟨val, content, -, -, -, comesBack⟩
    rcases (comesBack (copies 4)).2 with ⟨full, -⟩ | ⟨rfl, -⟩
    · cases full
    · cases content
  · rw [padsText_copyFixChar_iff (isText_twoChars 4) (sound_twoChars (by decide) (by decide)) rfl
      (sound_emptyFixChar (by decide))]
    intro padding
    have blank := ((padding (by decide)).2 (copies 4)).2.1 2 le_rfl (by decide) (by decide)
    cases blank
  · rw [copyFixChar_copies (by simp [twoChars]) (by decide) (copies 40), if_neg (by decide)]

end TextValue

end RapidDb
