import Mathlib.Data.Int.ConditionallyCompleteOrder
import Mathlib.Data.Nat.Bitwise
import Mathlib.Order.ConditionallyCompleteLattice.Basic
import Mathlib.Order.Interval.Set.Basic
import RapidDb.Core.RecordFormat
import RapidDb.Library.OrderedCode
import RapidDb.Utils.BytesFuncs

/-!
# Key columns

The columns of a key have an integer type, `FIXCHAR` or `VARCHAR`. A key is the concatenation
of what `WriteData` stores for the column values: an integer with its sign bit flipped and its
most significant byte first, a fixed text padded to its length, a variable text with its
terminator. Each of these codes keeps the order of the values, so the whole key does.
-/

namespace RapidDb

open Bytes

/-- The integer types of `DataType`. -/
inductive DigitType where
  | char
  | short
  | int
  | long
  | byte
  | ushort
  | uint
  | ulong
deriving DecidableEq, Repr

namespace DigitType

/-- `sizeof(T)`. -/
def size : DigitType → ℕ
  | char | byte => 1
  | short | ushort => 2
  | int | uint => 4
  | long | ulong => 8

def signed : DigitType → Bool
  | char | short | int | long => true
  | byte | ushort | uint | ulong => false

/-- `Case_Min`. -/
def minValue : DigitType → ℤ
  | char => -2 ^ 7
  | short => -2 ^ 15
  | int => -2 ^ 31
  | long => -2 ^ 63
  | byte | ushort | uint | ulong => 0

/-- `Case_Max`. -/
def maxValue : DigitType → ℤ
  | char => 2 ^ 7 - 1
  | short => 2 ^ 15 - 1
  | int => 2 ^ 31 - 1
  | long => 2 ^ 63 - 1
  | byte => 2 ^ 8 - 1
  | ushort => 2 ^ 16 - 1
  | uint => 2 ^ 32 - 1
  | ulong => 2 ^ 64 - 1

abbrev Value (type : DigitType) : Type :=
  Set.Icc type.minValue type.maxValue

/-- The bits of a value in two's complement. -/
def toBits (type : DigitType) (value : ℤ) : ℕ :=
  (value % 2 ^ (8 * type.size)).toNat

/-- The functions `Int8ToBytes` to `UInt64ToBytes`. For a key the sign bit of a signed value is
flipped and the bytes are swapped before they are stored, least significant byte first. -/
def toBytes (type : DigitType) (value : ℤ) (bkey : Bool) : List Byte :=
  if bkey then
    let val := if type.signed then type.toBits value ^^^ 2 ^ (8 * type.size - 1)
      else type.toBits value
    (writeLE type.size val).reverse
  else
    writeLE type.size (type.toBits value)

end DigitType

/-- `DataValueVarChar::SetValue`: the text with its terminator. -/
def varCharSetValue (maxLength : ℕ) (val : List Byte) : Option (List Byte) :=
  if val.length ≥ maxLength then none else some (val ++ [0])

inductive KeyColumn where
  | digit (type : DigitType)
  | fixChar (maxLength : ℕ)
  | varChar (maxLength : ℕ)
deriving DecidableEq, Repr

namespace KeyColumn

/-- A variable text without NUL as `SetValue` builds it, or the one of `SetMaxValue`. -/
def IsVarChar (maxLength : ℕ) (bysValue : List Byte) : Prop :=
  (∃ val, 0 ∉ val ∧ varCharSetValue maxLength val = some bysValue) ∨
    bysValue = List.replicate maxLength 255

/-- The values of a column that are not null: the integers of the type, the byte strings of the
length, and the variable texts. -/
def Value : KeyColumn → Type
  | digit type => type.Value
  | fixChar maxLength => {bysValue : List Byte // bysValue.length = maxLength}
  | varChar maxLength => {bysValue : List Byte // IsVarChar maxLength bysValue}

/-- `WriteData` for a key. A variable text shorter than its column gets one more NUL. -/
def writeKey : (column : KeyColumn) → column.Value → List Byte
  | digit type, value => type.toBytes value.val true
  | fixChar _, value => value.val
  | varChar maxLength, value =>
      if value.val.length < maxLength then value.val ++ [0] else value.val

/-- `GetPersistenceLength` for a key. -/
def keyLength : (column : KeyColumn) → column.Value → ℕ
  | digit type, _ => type.size
  | fixChar maxLength, _ => maxLength
  | varChar maxLength, value =>
      if value.val.length < maxLength then value.val.length + 1 else maxLength

/-- `WriteData` for a value. -/
def writeValue : (column : KeyColumn) → column.Value → List Byte
  | digit type, value => type.toBytes value.val false
  | fixChar _, value => value.val
  | varChar _, value => value.val

/-- The column value as the record code sees it. -/
def dataValue (column : KeyColumn) (value : column.Value) : DataValue where
  isNull := false
  isFixLength :=
    match column with
    | digit _ | fixChar _ => true
    | varChar _ => false
  persistenceLength
    | .key => column.keyLength value
    | .value => (column.writeValue value).length
  writeData
    | .key => column.writeKey value
    | .value => column.writeValue value

/-- The operator `<` of two column values. -/
def less : (column : KeyColumn) → column.Value → column.Value → Bool
  | digit _, left, right => decide (left.val < right.val)
  | fixChar _, left, right => !decide (bytesCompare left.val right.val ≥ 0)
  | varChar _, left, right => !decide (bytesCompare left.val right.val ≥ 0)

/-- The operator `==` of two column values. -/
def equal : (column : KeyColumn) → column.Value → column.Value → Bool
  | digit _, left, right => decide (left.val = right.val)
  | fixChar _, left, right => decide (bytesCompare left.val right.val = 0)
  | varChar _, left, right =>
      left.val.length = right.val.length && decide (bytesCompare left.val right.val = 0)

end KeyColumn

/-- A row of values for a list of key columns. -/
def KeyRow : List KeyColumn → Type
  | [] => PUnit
  | column :: columns => column.Value ×ₗ KeyRow columns

namespace KeyRow

def dataValues : (columns : List KeyColumn) → KeyRow columns → List DataValue
  | [], _ => []
  | column :: columns, row =>
      column.dataValue (ofLex row).1 :: dataValues columns (ofLex row).2

/-- The comparison of two rows column by column. -/
def compareRows : (columns : List KeyColumn) → KeyRow columns → KeyRow columns → Ordering
  | [], _, _ => .eq
  | column :: columns, left, right =>
      if column.less (ofLex left).1 (ofLex right).1 then
        .lt
      else if column.equal (ofLex left).1 (ofLex right).1 then
        compareRows columns (ofLex left).2 (ofLex right).2
      else
        .gt

end KeyRow

/-- The bytes of a `RawKey`. -/
def rawKey (vctKey : List DataValue) : List Byte :=
  vctKey.flatMap fun value => value.writeData .key

namespace DigitType

variable {type : DigitType}

theorem size_pos (type : DigitType) : 0 < type.size := by
  cases type <;> decide

theorem xor_two_pow {x k : ℕ} (lt : x < 2 ^ (k + 1)) :
    x ^^^ 2 ^ k = if x < 2 ^ k then x + 2 ^ k else x - 2 ^ k := by
  have quotient : (x ^^^ 2 ^ k) / 2 ^ k = x / 2 ^ k ^^^ 1 := by
    rw [Nat.xor_div_two_pow, Nat.div_self (Nat.two_pow_pos k)]
  have remainder : (x ^^^ 2 ^ k) % 2 ^ k = x % 2 ^ k := by
    rw [Nat.xor_mod_two_pow, Nat.mod_self, Nat.xor_zero]
  have whole := Nat.div_add_mod (x ^^^ 2 ^ k) (2 ^ k)
  rw [quotient, remainder] at whole
  split
  · rename_i low
    rw [Nat.div_eq_of_lt low, Nat.mod_eq_of_lt low, Nat.zero_xor, Nat.mul_one] at whole
    omega
  · rename_i high
    have one : x / 2 ^ k = 1 := by
      apply Nat.div_eq_of_lt_le
      · omega
      · rw [pow_succ] at lt
        omega
    have split := Nat.div_add_mod x (2 ^ k)
    rw [one] at whole split
    rw [Nat.xor_self, Nat.mul_zero] at whole
    omega

theorem toNat_emod_xor {k : ℕ} {value : ℤ} (lower : -2 ^ k ≤ value) (upper : value ≤ 2 ^ k - 1) :
    (value % 2 ^ (k + 1)).toNat ^^^ 2 ^ k = (value - -2 ^ k).toNat := by
  have cast : ((2 ^ k : ℕ) : ℤ) = 2 ^ k := by push_cast; rfl
  have double : (2 : ℤ) ^ (k + 1) = 2 * (2 ^ k : ℕ) := by rw [pow_succ, cast, mul_comm]
  have double' : 2 ^ (k + 1) = 2 * 2 ^ k := by rw [pow_succ, mul_comm]
  rw [← cast] at lower upper ⊢
  rw [double]
  have emod : value % (2 * (2 ^ k : ℕ)) = if 0 ≤ value then value else value + 2 * (2 ^ k : ℕ) := by
    split
    · exact Int.emod_eq_of_lt (by omega) (by omega)
    · rw [← Int.add_emod_right]
      exact Int.emod_eq_of_lt (by omega) (by omega)
  rw [emod, xor_two_pow]
  · split <;> split <;> omega
  · rw [double']
    split <;> omega

theorem keyBits_eq (value : type.Value) :
    (if type.signed then type.toBits value.val ^^^ 2 ^ (8 * type.size - 1)
      else type.toBits value.val) = (value.val - type.minValue).toNat := by
  obtain ⟨value, lower, upper⟩ := value
  cases type
  case char => exact toNat_emod_xor lower upper
  case short => exact toNat_emod_xor lower upper
  case int => exact toNat_emod_xor lower upper
  case long => exact toNat_emod_xor lower upper
  all_goals
    simp only [signed, minValue, maxValue, toBits, size, Bool.false_eq_true,
      if_false] at lower upper ⊢
    omega

theorem length_toBytes (value : ℤ) (bkey : Bool) :
    (type.toBytes value bkey).length = type.size := by
  unfold toBytes
  split <;> simp

theorem distance_lt (value : type.Value) :
    (value.val - type.minValue).toNat < 256 ^ type.size := by
  obtain ⟨value, lower, upper⟩ := value
  cases type <;> simp only [minValue, maxValue, size] at lower upper ⊢ <;> omega

theorem readBE_toBytes (value : type.Value) :
    readBE (type.toBytes value.val true) = (value.val - type.minValue).toNat := by
  unfold toBytes
  rw [if_pos rfl, keyBits_eq, readBE_reverse, length_writeLE, readLE_writeLE]
  exact Nat.mod_eq_of_lt (distance_lt value)

theorem orderedCode_toBytes : OrderedCode fun value : type.Value =>
    type.toBytes value.val true := by
  apply OrderedCode.of_strictMono
  · intro left right lt
    have sameLength :
      (type.toBytes left.val true).length = (type.toBytes right.val true).length := by
      rw [length_toBytes, length_toBytes]
    apply (compares_readBE sameLength).1.mp
    rw [readBE_toBytes, readBE_toBytes]
    have less : left.val < right.val := lt
    have lower : type.minValue ≤ left.val := left.property.1
    omega
  · intro left right
    rw [length_toBytes, length_toBytes]

end DigitType

namespace KeyColumn

instance instLinearOrderValue : (column : KeyColumn) → LinearOrder column.Value
  | digit type => inferInstanceAs (LinearOrder type.Value)
  | fixChar maxLength =>
      inferInstanceAs (LinearOrder {bysValue : List Byte // bysValue.length = maxLength})
  | varChar maxLength =>
      inferInstanceAs (LinearOrder {bysValue : List Byte // IsVarChar maxLength bysValue})

theorem varChar_shape {maxLength : ℕ} (value : (varChar maxLength).Value) :
    (∃ val : List Byte, 0 ∉ val ∧ val.length < maxLength ∧ value.val = val ++ [0]) ∨
      value.val = List.replicate maxLength 255 := by
  obtain ⟨bysValue, ⟨val, noNul, set⟩ | full⟩ := value
  · left
    unfold varCharSetValue at set
    split at set
    · cases set
    · rename_i fits
      exact ⟨val, noNul, not_le.mp fits, (Option.some.inj set).symm⟩
  · exact Or.inr full

theorem length_varChar_le {maxLength : ℕ} (value : (varChar maxLength).Value) :
    value.val.length ≤ maxLength := by
  rcases varChar_shape value with ⟨val, -, fits, eq⟩ | eq
  · rw [eq, List.length_append]
    exact fits
  · rw [eq, List.length_replicate]

theorem precedes_varChar {maxLength : ℕ} {left right : (varChar maxLength).Value}
    (lt : left.val < right.val) : Precedes left.val right.val := by
  rcases varChar_shape left with ⟨val, -, -, eq⟩ | eq
  · rcases varChar_shape right with ⟨val', noNul, -, eq'⟩ | eq'
    · rw [eq, eq'] at lt ⊢
      exact precedes_of_terminated lt noNul
    · apply precedes_of_not_prefix lt
      intro isPrefix
      have nul : (0 : Byte) ∈ right.val := isPrefix.subset (by simp [eq])
      rw [eq'] at nul
      exact absurd (List.eq_of_mem_replicate nul) (by decide)
  · apply precedes_of_not_prefix lt
    intro isPrefix
    have full : left.val.length = maxLength := by rw [eq, List.length_replicate]
    have short := length_varChar_le right
    have same := isPrefix.eq_of_length_le (by omega)
    rw [same] at lt
    exact lt_irrefl _ lt

theorem less_iff {column : KeyColumn} (left right : column.Value) :
    column.less left right = true ↔ left < right := by
  cases column with
  | digit type => exact decide_eq_true_iff
  | fixChar maxLength =>
      have compares := compares_bytesCompare left.val right.val
      simp only [less, ge_iff_le, Bool.not_eq_true', decide_eq_false_iff_not, not_le, compares.neg]
      rfl
  | varChar maxLength =>
      have compares := compares_bytesCompare left.val right.val
      simp only [less, ge_iff_le, Bool.not_eq_true', decide_eq_false_iff_not, not_le, compares.neg]
      rfl

theorem equal_iff {column : KeyColumn} (left right : column.Value) :
    column.equal left right = true ↔ left = right := by
  cases column with
  | digit type =>
      simp only [equal, decide_eq_true_eq]
      exact Subtype.ext_iff.symm
  | fixChar maxLength =>
      have compares := compares_bytesCompare left.val right.val
      simp only [equal, decide_eq_true_eq, compares.zero]
      exact Subtype.ext_iff.symm
  | varChar maxLength =>
      have compares := compares_bytesCompare left.val right.val
      simp only [equal, Bool.and_eq_true, decide_eq_true_eq, compares.zero]
      constructor
      · rintro ⟨-, same⟩
        exact Subtype.ext same
      · rintro rfl
        exact ⟨rfl, rfl⟩

theorem length_writeKey (column : KeyColumn) (value : column.Value) :
    (column.writeKey value).length = column.keyLength value := by
  cases column with
  | digit type => exact DigitType.length_toBytes value.val true
  | fixChar maxLength => exact value.property
  | varChar maxLength =>
      have fits := length_varChar_le value
      simp only [writeKey, keyLength]
      split
      · simp
      · omega

theorem orderedCode_writeKey (column : KeyColumn) : OrderedCode column.writeKey := by
  cases column with
  | digit type => exact DigitType.orderedCode_toBytes
  | fixChar maxLength =>
      apply OrderedCode.of_strictMono
      · exact fun left right lt => lt
      · intro left right
        exact left.property.trans right.property.symm
  | varChar maxLength =>
      intro left right lt
      have precedes : Precedes left.val right.val := precedes_varChar lt
      -- the additional NUL comes behind the place where the texts part
      simp only [writeKey]
      split <;> split
      · exact precedes.append [0] [0]
      · simpa using precedes.append [0] []
      · simpa using precedes.append [] [0]
      · exact precedes

end KeyColumn

namespace KeyRow

/-- The first column decides, then the next one. -/
instance instLinearOrder : (columns : List KeyColumn) → LinearOrder (KeyRow columns)
  | [] => inferInstanceAs (LinearOrder PUnit)
  | column :: columns =>
      @Prod.Lex.instLinearOrder column.Value (KeyRow columns) _ (instLinearOrder columns)

theorem compare_cons {column : KeyColumn} {columns : List KeyColumn}
    (left right : KeyRow (column :: columns)) :
    compare left right =
      (compare (ofLex left).1 (ofLex right).1).then (compare (ofLex left).2 (ofLex right).2) :=
  rfl

theorem compareRows_eq {columns : List KeyColumn} (left right : KeyRow columns) :
    compareRows columns left right = compare left right := by
  induction columns with
  | nil => exact (compare_eq_iff_eq.mpr rfl).symm
  | cons column columns ih =>
      simp only [compareRows, KeyColumn.less_iff, KeyColumn.equal_iff, ih]
      rw [compare_cons]
      rcases lt_trichotomy (ofLex left).1 (ofLex right).1 with less | same | greater
      · rw [if_pos less, compare_lt_iff_lt.mpr less, Ordering.lt_then]
      · rw [if_neg (same ▸ lt_irrefl _), if_pos same, compare_eq_iff_eq.mpr same, Ordering.eq_then]
      · rw [if_neg (not_lt_of_gt greater), if_neg greater.ne', compare_gt_iff_gt.mpr greater,
          Ordering.gt_then]

theorem orderedCode_rawKey (columns : List KeyColumn) :
    OrderedCode fun row : KeyRow columns => rawKey (dataValues columns row) := by
  induction columns with
  | nil =>
      intro left right lt
      exact absurd lt (lt_irrefl _)
  | cons column columns ih =>
      exact (column.orderedCode_writeKey).prod ih

theorem compares_code {α : Type*} [LinearOrder α] {code : α → List Byte}
    (ordered : OrderedCode code) (left right : α) :
    Compares (bytesCompare (code left) (code right)) left right where
  neg := (compares_bytesCompare _ _).neg.trans ordered.lt_iff_lt
  pos := (compares_bytesCompare _ _).pos.trans ordered.lt_iff_lt

theorem compare_bytesCompare {α : Type*} [LinearOrder α] {code : α → List Byte}
    (ordered : OrderedCode code) (left right : α) :
    compare (bytesCompare (code left) (code right)) 0 = compare left right := by
  have compares := compares_code ordered left right
  rcases lt_trichotomy left right with less | same | greater
  · rw [compare_lt_iff_lt.mpr less]
    exact compare_lt_iff_lt.mpr (compares.neg.mpr less)
  · rw [compare_eq_iff_eq.mpr same]
    exact compare_eq_iff_eq.mpr (compares.zero.mpr same)
  · rw [compare_gt_iff_gt.mpr greater]
    exact compare_gt_iff_gt.mpr (compares.pos.mpr greater)

theorem length_rawKey (columns : List KeyColumn) (row : KeyRow columns) :
    (rawKey (dataValues columns row)).length =
      ((dataValues columns row).map fun value => value.persistenceLength .key).sum := by
  induction columns with
  | nil => rfl
  | cons column columns ih =>
      simp only [dataValues, rawKey, List.flatMap_cons, List.length_append, List.map_cons,
        List.sum_cons]
      rw [← ih]
      congr 1
      exact column.length_writeKey _

end KeyRow

end RapidDb
