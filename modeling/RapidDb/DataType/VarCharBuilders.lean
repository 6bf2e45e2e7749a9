import Mathlib.Data.List.TakeWhile
import RapidDb.DataType.TaggedValue
import RapidDb.DataType.ValueOrder

/-!
# The ways to build a text

A VARCHAR value is built from a string by `SetValue`, `PutValue`, a constructor, the assignment
operators or `Copy`. `SetValue` and `PutValue` store the NUL behind the string and count it, the
others do not. The key of a value has a NUL more than the value while the length of the value is
less than that of its column.

Values are alike when they are built in the same form: with the NUL, without it, or without it and
with the length of the string as that of the column.
-/

namespace RapidDb

open Bytes

def UINT32_MAX : ℕ := 0xffffffff

/-- The length of the string that a pointer refers to. -/
def strlen (val : List Byte) : ℕ :=
  (val.takeWhile (· ≠ 0)).length

/-- The arguments of `PutValue` that are strings. -/
inductive TextKind where
  | string
  | mString
  | constCharPointer
  | charPointer
deriving DecidableEq, Repr

/-- The length that `PutValue` finds for a string; the pointers come without one. -/
def TextKind.len (kind : TextKind) (val : List Byte) : ℕ :=
  let size := match kind with
    | .string | .mString => val.length
    | .constCharPointer | .charPointer => 0
  if size = 0 then strlen val else size

/-- What a builder comes to: a value, an error, or the crash of `CachePool::Apply(0)`. -/
inductive Built where
  | value (dv : VarLenValue)
  | refused
  | crashed

namespace VarLenValue

/-- A value for whose bytes `CachePool::Apply` is called. -/
def applied (dv : VarLenValue) : Built :=
  if dv.soleLength = 0 then .crashed else .value dv

/-- `SetValue`. The length is cut to 32 bits. -/
def setValue (dv : VarLenValue) (val : List Byte) : Built :=
  let len := val.length % 256 ^ 4
  if len ≥ dv.maxLength then .refused
  else .value {
    valType := .soleValue
    maxLength := dv.maxLength
    soleLength := (len + 1) % 256 ^ 4
    bysValue := val.take len ++ [0]
    holds := by
      intro _
      have cut : len ≤ val.length := Nat.mod_le _ _
      rw [List.length_append, List.length_take_of_le cut]
      exact Nat.mod_le _ _
    soleLength_lt := Nat.mod_lt _ (by decide) }

/-- `PutValue` of a string. -/
def putValue (dv : VarLenValue) (kind : TextKind) (val : List Byte) : Built :=
  let len := kind.len val
  if len ≥ dv.maxLength then .refused
  else .value {
    valType := .soleValue
    maxLength := dv.maxLength
    soleLength := (len % 256 ^ 4 + 1) % 256 ^ 4
    bysValue := padTo ((len % 256 ^ 4 + 1) % 256 ^ 4) (val ++ [0])
    holds := by
      intro _
      rw [padTo, List.length_append, List.length_replicate]
      omega
    soleLength_lt := Nat.mod_lt _ (by decide) }

/-- The constructor from a pointer and a length. -/
def ofChars (val : List Byte) (maxLength : ℕ) : Built :=
  let len := val.length % 256 ^ 4
  applied {
    valType := .soleValue
    maxLength := if maxLength = UINT32_MAX then len else maxLength
    soleLength := len
    bysValue := val.take len
    holds := by
      intro _
      rw [List.length_take_of_le (Nat.mod_le _ _)]
    soleLength_lt := Nat.mod_lt _ (by decide) }

/-- The body of the assignment operators, which throw their error. -/
def assign (dv : VarLenValue) (val : List Byte) : Built :=
  let len := val.length % 256 ^ 4
  if len ≥ (dv.maxLength + UINT32_MAX) % 256 ^ 4 then .refused
  else applied {
    valType := .soleValue
    maxLength := dv.maxLength
    soleLength := len
    bysValue := val.take len
    holds := by
      intro _
      rw [List.length_take_of_le (Nat.mod_le _ _)]
    soleLength_lt := Nat.mod_lt _ (by decide) }

/-- `operator=(const char *)`. -/
def assignChars (dv : VarLenValue) (val : List Byte) : Built :=
  dv.assign (val.take (strlen val))

/-- `operator=(const MString)`. -/
def assignMString (dv : VarLenValue) (val : List Byte) : Built :=
  dv.assign val

/-- `operator=(const string)`. -/
def assignString (dv : VarLenValue) (val : List Byte) : Built :=
  dv.assign val

/-- `Copy` from another VARCHAR. -/
def copy (dv source : VarLenValue) (bMove : Bool) (refCount : ℕ) : Built :=
  let bMove := if refCount > 1 then false else bMove
  if isNull : source.valType = .nullValue then .value (null dv.maxLength)
  else if source.soleLength > dv.maxLength then .refused
  else if bMove then .value { source with maxLength := dv.maxLength }
  -- the pointer of a BYTES_VALUE is shared
  else if source.valType = .bytesValue then .value { source with maxLength := dv.maxLength }
  else applied {
    valType := .soleValue
    maxLength := dv.maxLength
    soleLength := source.soleLength
    bysValue := source.content
    holds := by
      intro _
      rw [length_content isNull]
    soleLength_lt := source.soleLength_lt }

def keyBytes (dv : VarLenValue) : Option (List Byte) :=
  ((TypedValue.varChar dv).writeData true .key).map Prod.fst

/-- `operator==`. -/
def equal (dv1 dv2 : VarLenValue) : Bool :=
  IDataValue.sameEQ (.varChar dv1.value) (.varChar dv2.value) = some true

/-- Two values have the same length and bytes, compare equal and give the same key. -/
structure Alike (dv1 dv2 : VarLenValue) : Prop where
  soleLength : dv1.soleLength = dv2.soleLength
  content : dv1.content = dv2.content
  equal : dv1.equal dv2 = true
  keyBytes : dv1.keyBytes = dv2.keyBytes

/-- The value is the string, with the NUL behind it or without it. -/
def HoldsText (val : List Byte) (dv : VarLenValue) : Prop :=
  dv.valType ≠ .nullValue ∧ (dv.content = val ∨ dv.content = val ++ [0])

end VarLenValue

/-- The ways to build a VARCHAR value from a string. -/
inductive Builder (val : List Byte) where
  | setValue
  | putValue (kind : TextKind)
  | construct
  | literal
  | assignChars
  | assignMString
  | assignString
  | copy (source : VarLenValue) (holdsText : source.HoldsText val) (bMove : Bool) (refCount : ℕ)

/-- What a builder leaves of the string: its bytes with or without the NUL, and whether the length
of the string has become that of the column. -/
inductive TextForm where
  | terminated
  | bare
  | own
deriving DecidableEq, Repr

namespace VarLenValue

variable {val : List Byte}

theorem strlen_eq (nulFree : 0 ∉ val) : strlen val = val.length := by
  have all : val.takeWhile (· ≠ 0) = val := by
    refine List.takeWhile_eq_self_iff.mpr ?_
    intro byte mem
    rw [decide_eq_true_iff]
    rintro rfl
    exact nulFree mem
  rw [strlen, all]

theorem len_eq (nulFree : 0 ∉ val) (kind : TextKind) :
    kind.len val = val.length := by
  cases kind <;> simp [TextKind.len, strlen_eq nulFree]

theorem assignChars_eq (nulFree : 0 ∉ val) (dv : VarLenValue) :
    dv.assignChars val = dv.assign val := by
  rw [assignChars, strlen_eq nulFree, List.take_length]

theorem value_of_not_null {dv : VarLenValue} (notNull : dv.valType ≠ .nullValue) :
    dv.value = some dv.content :=
  if_neg notNull

theorem keyBytes_eq {dv : VarLenValue} (notNull : dv.valType ≠ .nullValue) :
    dv.keyBytes = some (if dv.content.length < dv.maxLength then dv.content ++ [0]
      else dv.content) := by
  rw [length_content notNull]
  simp only [keyBytes, TypedValue.writeData, if_neg notNull]
  split <;> rfl

variable {dv1 dv2 : VarLenValue}

theorem equal_of_content (notNull1 : dv1.valType ≠ .nullValue)
    (notNull2 : dv2.valType ≠ .nullValue) (content : dv1.content = dv2.content) :
    dv1.equal dv2 = true := by
  have compared : bytesCompareInt dv2.content dv2.content = 0 := by
    rw [bytesCompareInt_eq (by simp [narrowed])]
    exact (compares_bytesCompare dv2.content dv2.content).zero.mpr rfl
  rw [equal, value_of_not_null notNull1, value_of_not_null notNull2, content]
  simp [IDataValue.sameEQ, nullsEqual, compared]

theorem alike_iff (notNull1 : dv1.valType ≠ .nullValue) (notNull2 : dv2.valType ≠ .nullValue) :
    dv1.Alike dv2 ↔ dv1.content = dv2.content ∧ dv1.keyBytes = dv2.keyBytes := by
  constructor
  · intro alike
    exact ⟨alike.content, alike.keyBytes⟩
  · rintro ⟨content, keyBytes⟩
    have soleLength : dv1.soleLength = dv2.soleLength := by
      rw [← length_content notNull1, ← length_content notNull2, content]
    exact ⟨soleLength, content, equal_of_content notNull1 notNull2 content, keyBytes⟩

/-- What a value that holds the string is in each of the forms. -/
structure InForm (val : List Byte) (maxLength : ℕ) (form : TextForm) (dv : VarLenValue) :
    Prop where
  notNull : dv.valType ≠ .nullValue
  content : dv.content = if form = .terminated then val ++ [0] else val
  maxLength : dv.maxLength = if form = .own then val.length else maxLength

theorem InForm.keyBytes {maxLength : ℕ} {form : TextForm} {dv : VarLenValue}
    (inForm : dv.InForm val maxLength form) :
    dv.keyBytes = some (match form with
        | .terminated =>
            if val.length + 1 < maxLength then val ++ [0] ++ [0] else val ++ [0]
        | .bare => if val.length < maxLength then val ++ [0] else val
        | .own => val) := by
  rw [keyBytes_eq inForm.notNull, inForm.content, inForm.maxLength]
  cases form <;> simp

theorem alike_iff_form {maxLength : ℕ} {form1 form2 : TextForm} (short : val.length < maxLength)
    (inForm1 : dv1.InForm val maxLength form1) (inForm2 : dv2.InForm val maxLength form2) :
    dv1.Alike dv2 ↔ form1 = form2 := by
  rw [alike_iff inForm1.notNull inForm2.notNull, inForm1.content, inForm2.content,
    inForm1.keyBytes, inForm2.keyBytes]
  cases form1 <;> cases form2 <;> simp [short]

variable {dv built : VarLenValue}

theorem setValue_inForm (maxLt : dv.maxLength < 256 ^ 4)
    (short : val.length < dv.maxLength) (isBuilt : dv.setValue val = .value built) :
    built.InForm val dv.maxLength .terminated := by
  have len : val.length % 256 ^ 4 = val.length := Nat.mod_eq_of_lt (by omega)
  have soleLength : (val.length + 1) % 256 ^ 4 = val.length + 1 := Nat.mod_eq_of_lt (by omega)
  simp only [setValue, len, ge_iff_le, Nat.not_le.mpr short, if_false, Built.value.injEq]
    at isBuilt
  subst isBuilt
  refine ⟨by simp, ?_, rfl⟩
  simp only [content, soleLength, List.take_length, if_true]
  exact List.take_of_length_le (by simp)

theorem putValue_inForm (nulFree : 0 ∉ val)
    {kind : TextKind} (maxLt : dv.maxLength < 256 ^ 4) (short : val.length < dv.maxLength)
    (isBuilt : dv.putValue kind val = .value built) :
    built.InForm val dv.maxLength .terminated := by
  have len : val.length % 256 ^ 4 = val.length := Nat.mod_eq_of_lt (by omega)
  have soleLength : (val.length + 1) % 256 ^ 4 = val.length + 1 := Nat.mod_eq_of_lt (by omega)
  simp only [putValue, len_eq nulFree, ge_iff_le, Nat.not_le.mpr short, if_false,
    Built.value.injEq] at isBuilt
  subst isBuilt
  refine ⟨by simp, ?_, rfl⟩
  simp only [content, padTo, len, soleLength, if_true]
  exact List.take_left' (by simp)

theorem applied_spec (dv : VarLenValue) :
    (dv.applied = .crashed ↔ dv.soleLength = 0) ∧
      ((∃ built, dv.applied = .value built) ↔ dv.soleLength ≠ 0) := by
  unfold applied
  split
  case isTrue empty => simp [empty]
  case isFalse nonempty => simp [nonempty]

/-- A builder that refuses what is too long comes to its other outcome for the rest. -/
theorem refused_spec {len bound : ℕ} {outcome built : Built}
    (eq : built = if len ≥ bound then .refused else outcome) :
    (built = .crashed ↔ len < bound ∧ outcome = .crashed) ∧
      ((∃ dv, built = .value dv) ↔ len < bound ∧ ∃ dv, outcome = .value dv) := by
  by_cases long : len ≥ bound
  · rw [if_pos long] at eq
    simp [eq, Nat.not_lt.mpr long]
  · rw [if_neg long] at eq
    simp [eq, Nat.not_le.mp long]

theorem applied_eq_value_iff {dv built : VarLenValue} :
    dv.applied = .value built ↔ dv.soleLength ≠ 0 ∧ dv = built := by
  unfold applied
  split
  case isTrue empty => simp [empty]
  case isFalse nonempty => simp [nonempty]

theorem ofChars_inForm (lengthLt : val.length < 256 ^ 4) {maxLength : ℕ}
    (isBuilt : ofChars val maxLength = .value built) :
    built.InForm val maxLength (if maxLength = UINT32_MAX then .own else .bare) := by
  have len : val.length % 256 ^ 4 = val.length := Nat.mod_eq_of_lt lengthLt
  obtain ⟨-, rfl⟩ := applied_eq_value_iff.mp isBuilt
  refine ⟨by simp, ?_, ?_⟩
  · simp only [content, len, List.take_length]
    split <;> simp
  · simp only [len]
    split <;> simp

theorem assign_inForm (lengthLt : val.length < 256 ^ 4)
    (isBuilt : dv.assign val = .value built) : built.InForm val dv.maxLength .bare := by
  have len : val.length % 256 ^ 4 = val.length := Nat.mod_eq_of_lt lengthLt
  simp only [assign, len] at isBuilt
  split at isBuilt
  · cases isBuilt
  · obtain ⟨-, rfl⟩ := applied_eq_value_iff.mp isBuilt
    exact ⟨by simp, by simp [content], rfl⟩

/-- Whether a copy applies for no byte: an owned value without a byte is not moved. -/
def CopiesNothing (source : VarLenValue) (bMove : Bool) (refCount : ℕ) : Prop :=
  source.valType = .soleValue ∧ source.soleLength = 0 ∧ (bMove = true → refCount > 1)

/-- A copy of a value that is not NULL keeps the bytes, and takes what is not longer than the
column. -/
theorem copy_spec {source : VarLenValue} (notNull : source.valType ≠ .nullValue)
    (dv : VarLenValue) (bMove : Bool) (refCount : ℕ) :
    if source.soleLength > dv.maxLength then dv.copy source bMove refCount = .refused
    else (source.CopiesNothing bMove refCount ∧ dv.copy source bMove refCount = .crashed) ∨
      ¬source.CopiesNothing bMove refCount ∧
        ∃ built, dv.copy source bMove refCount = .value built ∧ built.valType ≠ .nullValue ∧
          built.maxLength = dv.maxLength ∧ built.content = source.content := by
  split
  case isTrue long => simp only [copy, dif_neg notNull, if_pos long]
  case isFalse fits =>
    have stays : (bMove = true → refCount > 1) ↔
        (if refCount > 1 then false else bMove) = false := by
      by_cases shared : refCount > 1 <;> cases bMove <;> simp [shared]
    simp only [copy, CopiesNothing, stays, dif_neg notNull, if_neg fits]
    generalize (if refCount > 1 then false else bMove) = moved
    cases moved with
    | true => exact Or.inr ⟨by simp, _, rfl, notNull, rfl, rfl⟩
    | false =>
        by_cases referenced : source.valType = .bytesValue
        · exact Or.inr ⟨by simp [referenced], _, if_pos referenced, notNull, rfl, rfl⟩
        · have owned : source.valType = .soleValue := by
            cases valType : source.valType with
            | nullValue => exact absurd valType notNull
            | soleValue => rfl
            | bytesValue => exact absurd valType referenced
          simp only [Bool.false_eq_true, if_false, owned, true_and, and_true, applied]
          by_cases empty : source.soleLength = 0
          · exact Or.inl ⟨empty, if_pos empty⟩
          · exact Or.inr ⟨empty, _, if_neg empty, by simp, rfl, by simp [content]⟩

end VarLenValue

namespace Builder

variable {val : List Byte}

/-- The value that is built in place of a value of the column. -/
def build (dv : VarLenValue) : Builder val → Built
  | setValue => dv.setValue val
  | putValue kind => dv.putValue kind val
  | construct => VarLenValue.ofChars val dv.maxLength
  | literal => VarLenValue.ofChars val UINT32_MAX
  | assignChars => dv.assignChars val
  | assignMString => dv.assignMString val
  | assignString => dv.assignString val
  | copy source _ bMove refCount => dv.copy source bMove refCount

def form (maxLength : ℕ) : Builder val → TextForm
  | setValue | putValue _ => .terminated
  | construct => if maxLength = UINT32_MAX then .own else .bare
  | literal => .own
  | assignChars | assignMString | assignString => .bare
  | copy source _ _ _ => if source.content = val then .bare else .terminated

/-- The strings for which a builder accepts what is shorter than the column and nothing else, and
does not apply for an empty buffer. -/
def LimitRight (maxLength : ℕ) : Builder val → Prop
  | setValue => val.length < 256 ^ 4 ∨ maxLength ≤ val.length % 256 ^ 4
  | putValue _ => True
  | construct | literal => 0 < val.length ∧ val.length < maxLength
  | assignChars | assignMString | assignString =>
      if maxLength = 0 then val.length % 256 ^ 4 = UINT32_MAX
      else val.length + 1 ≠ maxLength ∧
        (0 < val.length ∧ val.length < 256 ^ 4 ∨ maxLength ≤ val.length % 256 ^ 4 + 1)
  | copy source _ bMove refCount =>
      (source.content = val → val.length ≠ maxLength) ∧ ¬source.CopiesNothing bMove refCount

/-- The builder comes to an end, and accepts the string exactly when it is shorter than the
column. -/
def Accepts (maxLength : ℕ) (builder : Builder val) : Prop :=
  ∀ dv : VarLenValue, dv.maxLength = maxLength →
    builder.build dv ≠ .crashed ∧
      ((∃ built, builder.build dv = .value built) ↔ val.length < maxLength)

/-- Two builders accept the strings that are shorter than the column, and build values that are
alike from them, whatever the values of the column were before. -/
structure Agree (maxLength : ℕ) (builder1 builder2 : Builder val) : Prop where
  accepts1 : builder1.Accepts maxLength
  accepts2 : builder2.Accepts maxLength
  alike : val.length < maxLength → ∀ dv1 dv2 built1 built2 : VarLenValue,
    dv1.maxLength = maxLength → dv2.maxLength = maxLength → builder1.build dv1 = .value built1 →
      builder2.build dv2 = .value built2 → built1.Alike built2

def Takes (maxLength : ℕ) : Builder val → Prop
  | setValue => val.length % 256 ^ 4 < maxLength
  | putValue _ => val.length < maxLength
  | construct | literal => True
  | assignChars | assignMString | assignString =>
      val.length % 256 ^ 4 < (maxLength + UINT32_MAX) % 256 ^ 4
  | copy source _ _ _ => source.soleLength ≤ maxLength

/-- The strings that a builder takes but has no byte to apply for. -/
def AppliesNothing (maxLength : ℕ) (builder : Builder val) : Prop :=
  builder.Takes maxLength ∧
    match builder with
    | setValue | putValue _ => False
    | construct | literal | assignChars | assignMString | assignString =>
        val.length % 256 ^ 4 = 0
    | copy source _ bMove refCount => source.CopiesNothing bMove refCount

theorem build_spec (nulFree : 0 ∉ val) (builder : Builder val) (dv : VarLenValue) :
    (builder.build dv = .crashed ↔ builder.AppliesNothing dv.maxLength) ∧
      ((∃ built, builder.build dv = .value built) ↔
        builder.Takes dv.maxLength ∧ ¬builder.AppliesNothing dv.maxLength) := by
  have assigned : (dv.assign val = .crashed ↔
        val.length % 256 ^ 4 < (dv.maxLength + UINT32_MAX) % 256 ^ 4 ∧
          val.length % 256 ^ 4 = 0) ∧
      ((∃ built, dv.assign val = .value built) ↔
        val.length % 256 ^ 4 < (dv.maxLength + UINT32_MAX) % 256 ^ 4 ∧
          ¬val.length % 256 ^ 4 = 0) := by
    have spec : _ ∧ _ := VarLenValue.refused_spec (VarLenValue.assign.eq_1 dv val)
    rw [(VarLenValue.applied_spec _).1, (VarLenValue.applied_spec _).2] at spec
    exact spec
  have taken (maxLength : ℕ) : (VarLenValue.ofChars val maxLength = .crashed ↔
        val.length % 256 ^ 4 = 0) ∧
      ((∃ built, VarLenValue.ofChars val maxLength = .value built) ↔
        ¬val.length % 256 ^ 4 = 0) := VarLenValue.applied_spec _
  have both {takes empty : Prop} : takes ∧ ¬(takes ∧ empty) ↔ takes ∧ ¬empty :=
    and_congr_right fun holds => not_congr (and_iff_right holds)
  have valueSpec (dv : VarLenValue) :
      (Built.value dv = .crashed ↔ False) ∧ ((∃ built, Built.value dv = .value built) ↔ ¬False) :=
    by simp
  simp only [AppliesNothing, both]
  cases builder with
  | setValue =>
      have spec : _ ∧ _ := VarLenValue.refused_spec (VarLenValue.setValue.eq_1 dv val)
      rw [(valueSpec _).1, (valueSpec _).2] at spec
      exact spec
  | putValue kind =>
      have spec : _ ∧ _ := VarLenValue.refused_spec (VarLenValue.putValue.eq_1 dv kind val)
      rw [(valueSpec _).1, (valueSpec _).2, VarLenValue.len_eq nulFree kind] at spec
      exact spec
  | construct =>
      simp only [build, Takes, true_and]
      exact taken dv.maxLength
  | literal =>
      simp only [build, Takes, true_and]
      exact taken UINT32_MAX
  | assignChars =>
      rw [build, VarLenValue.assignChars_eq nulFree]
      exact assigned
  | assignMString | assignString => exact assigned
  | copy source holdsText bMove refCount =>
      have spec := VarLenValue.copy_spec holdsText.1 dv bMove refCount
      simp only [build, Takes]
      split at spec
      case isTrue long => simp [spec, Nat.not_le.mpr long]
      case isFalse fits =>
        have within : source.soleLength ≤ dv.maxLength := Nat.not_lt.mp fits
        rcases spec with ⟨nothing, crashed⟩ | ⟨something, built, isBuilt, -⟩
        · simp [crashed, nothing, within]
        · simp [isBuilt, something, within]

theorem limitRight_iff (builder : Builder val) {maxLength : ℕ} (maxLt : maxLength < 256 ^ 4) :
    (¬builder.AppliesNothing maxLength ∧
        (builder.Takes maxLength ∧ ¬builder.AppliesNothing maxLength ↔ val.length < maxLength)) ↔
      builder.LimitRight maxLength := by
  have split := Nat.div_add_mod val.length (256 ^ 4)
  cases builder with
  | setValue =>
      simp only [AppliesNothing, Takes, LimitRight, and_false, not_false_eq_true,
        and_true, true_and]
      omega
  | putValue kind => simp [AppliesNothing, Takes, LimitRight]
  | construct | literal =>
      simp only [AppliesNothing, Takes, LimitRight, true_and]
      omega
  | assignChars | assignMString | assignString =>
      simp only [AppliesNothing, Takes, LimitRight, UINT32_MAX]
      split
      · omega
      · omega
  | copy source holdsText bMove refCount =>
      have length := VarLenValue.length_content holdsText.1
      have fits : (source.soleLength ≤ maxLength ↔ val.length < maxLength) ↔
          (source.content = val → val.length ≠ maxLength) := by
        rcases holdsText.2 with content | content
        · rw [content] at length
          simp only [content, true_implies]
          omega
        · rw [content, List.length_append] at length
          simp only [content, List.append_right_eq_self, List.cons_ne_nil, false_implies, iff_true]
          rw [← length]
          exact Nat.lt_iff_add_one_le.symm
      have empty (nothing : source.CopiesNothing bMove refCount) :
          source.soleLength ≤ maxLength := by
        rw [nothing.2.1]
        exact Nat.zero_le _
      simp only [AppliesNothing, Takes, LimitRight, ← fits]
      tauto

theorem inForm_build (nulFree : 0 ∉ val) (builder : Builder val) {dv built : VarLenValue}
    (maxLt : dv.maxLength < 256 ^ 4) (short : val.length < dv.maxLength)
    (isBuilt : builder.build dv = .value built) :
    built.InForm val dv.maxLength (builder.form dv.maxLength) := by
  have lengthLt : val.length < 256 ^ 4 := by omega
  cases builder with
  | setValue => exact VarLenValue.setValue_inForm maxLt short isBuilt
  | putValue kind => exact VarLenValue.putValue_inForm nulFree maxLt short isBuilt
  | construct => exact VarLenValue.ofChars_inForm lengthLt isBuilt
  | literal => exact { VarLenValue.ofChars_inForm lengthLt isBuilt with }
  | assignChars =>
      rw [build, VarLenValue.assignChars_eq nulFree] at isBuilt
      exact VarLenValue.assign_inForm lengthLt isBuilt
  | assignMString | assignString => exact VarLenValue.assign_inForm lengthLt isBuilt
  | copy source holdsText bMove refCount =>
      have spec := VarLenValue.copy_spec holdsText.1 dv bMove refCount
      rw [build] at isBuilt
      split at spec
      case isTrue long => rw [spec] at isBuilt; cases isBuilt
      case isFalse fits =>
        rcases spec with ⟨-, crashed⟩ | ⟨-, copied, isCopied, notNull, maxLength, content⟩
        · rw [crashed] at isBuilt
          cases isBuilt
        rw [isCopied] at isBuilt
        cases isBuilt
        simp only [form]
        split
        case isTrue bare => exact ⟨notNull, by simp [content, bare], by simp [maxLength]⟩
        case isFalse notBare =>
          have terminated := holdsText.2.resolve_left notBare
          exact ⟨notNull, by simp [content, terminated], by simp [maxLength]⟩

theorem accepts_iff (nulFree : 0 ∉ val) (builder : Builder val) {maxLength : ℕ}
    (maxLt : maxLength < 256 ^ 4) : builder.Accepts maxLength ↔ builder.LimitRight maxLength := by
  rw [← limitRight_iff builder maxLt]
  constructor
  · intro accepts
    have spec := build_spec nulFree builder (VarLenValue.null maxLength)
    have accepted := accepts (VarLenValue.null maxLength) rfl
    rw [ne_eq, spec.1, spec.2] at accepted
    exact accepted
  · rintro takes dv rfl
    have spec := build_spec nulFree builder dv
    rw [ne_eq, spec.1, spec.2]
    exact takes

/-- Two builders agree on a string exactly when both have the right limit and, where the string
fits, leave it in the same form. -/
theorem agree_iff (nulFree : 0 ∉ val) {maxLength : ℕ} (maxLt : maxLength < 256 ^ 4)
    (builder1 builder2 : Builder val) :
    builder1.Agree maxLength builder2 ↔
      builder1.LimitRight maxLength ∧ builder2.LimitRight maxLength ∧
        (val.length < maxLength → builder1.form maxLength = builder2.form maxLength) := by
  rw [← accepts_iff nulFree builder1 maxLt, ← accepts_iff nulFree builder2 maxLt]
  constructor
  · intro agree
    refine ⟨agree.accepts1, agree.accepts2, ?_⟩
    intro short
    rcases (agree.accepts1 (VarLenValue.null maxLength) rfl).2.mpr short with ⟨built1, isBuilt1⟩
    rcases (agree.accepts2 (VarLenValue.null maxLength) rfl).2.mpr short with ⟨built2, isBuilt2⟩
    have alike := agree.alike short _ _ built1 built2 rfl rfl isBuilt1 isBuilt2
    have inForm1 := inForm_build nulFree builder1 maxLt short isBuilt1
    have inForm2 := inForm_build nulFree builder2 maxLt short isBuilt2
    exact (VarLenValue.alike_iff_form short inForm1 inForm2).mp alike
  · rintro ⟨accepts1, accepts2, sameForm⟩
    refine ⟨accepts1, accepts2, ?_⟩
    rintro short dv1 dv2 built1 built2 rfl sameMax isBuilt1 isBuilt2
    have inForm1 := inForm_build nulFree builder1 maxLt short isBuilt1
    have inForm2 := inForm_build nulFree builder2 (by omega) (by omega) isBuilt2
    rw [sameMax] at inForm2
    exact (VarLenValue.alike_iff_form short inForm1 inForm2).mpr (sameForm short)

/-- Both stores with a NUL agree on "abc" in a VARCHAR(10). -/
theorem agree_setValue_putValue :
    (setValue : Builder [97, 98, 99]).Agree 10 (putValue .string) :=
  (agree_iff (by decide) (by decide) setValue (putValue .string)).mpr
    ⟨Or.inl (by decide), trivial, fun _ => rfl⟩

/-- "abc" in a VARCHAR(10) has four bytes after `SetValue` and three after an assignment. -/
theorem not_agree :
    ¬∀ (val : List Byte) (maxLength : ℕ), 0 ∉ val → maxLength < 256 ^ 4 →
      ∀ builder1 builder2 : Builder val, builder1.Agree maxLength builder2 := by
  intro right
  have agree := right [97, 98, 99] 10 (by decide) (by decide) setValue assignString
  have short : [(97 : Byte), 98, 99].length < 10 := by decide
  rcases (agree.accepts1 (VarLenValue.null 10) rfl).2.mpr short with ⟨built1, isBuilt1⟩
  rcases (agree.accepts2 (VarLenValue.null 10) rfl).2.mpr short with ⟨built2, isBuilt2⟩
  have alike := agree.alike short _ _ built1 built2 rfl rfl isBuilt1 isBuilt2
  simp [build, VarLenValue.setValue, VarLenValue.assignString, VarLenValue.assign,
    VarLenValue.applied, VarLenValue.null, UINT32_MAX] at isBuilt1 isBuilt2
  subst isBuilt1 isBuilt2
  cases alike.soleLength

end Builder

end RapidDb
