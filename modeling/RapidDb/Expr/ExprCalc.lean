import RapidDb.DataType.DataValue
import RapidDb.Library.RefCounts

/-!
# The values of data expressions

`Calc` of an expression returns a pointer to a data value, with a reference that the caller
releases. A constant returns its own value, whose count stays at the limit. A field or a parameter
returns the value of the row or of the parameters with one more reference. An operator takes the
values of its operands, makes a new one and releases them. Two integers give an integer of 64 bits.
A division whose quotient has no room stops the program, and the unary minus makes a copy of its
operand. Texts are joined with `strcat` in a `StrBuff`, and the value is copied from there: where
nothing has been printed, the block of no bytes that is applied for is none.

The arithmetic on `double`, the text that two values give together and whether `strcat` keeps to the
blocks are parameters.
-/

namespace RapidDb

def UINT16_MAX : ℕ := 0xFFFF

/-- The data values by their addresses, with their `_refCount`. -/
abbrev DataHeap : Type := RefHeap UINT16_MAX IDataValue

theorem zero_lt_UINT16_MAX : 0 < UINT16_MAX := by decide

theorem one_lt_UINT16_MAX : 1 < UINT16_MAX := by decide

/-- What makes `Calc` stop: a null pointer, a pointer to a value that has been deleted, a quotient
that has no room, `Apply` for a block of no bytes, or a text that runs out of its block. -/
inductive CalcStop where
  | nullPointer
  | deletedValue
  | divideError
  | emptyBlock
  | outsideBlock
deriving DecidableEq, Repr

/-- Data expressions. A constant is given by the address of its value. -/
inductive ArithExpr where
  | const (val : ℕ)
  | field (rowPos : ℕ)
  | parameter (paraPos : ℕ)
  | add (exprLeft exprRight : ArithExpr)
  | sub (exprLeft exprRight : ArithExpr)
  | mul (exprLeft exprRight : ArithExpr)
  | div (exprLeft exprRight : ArithExpr)
  | minus (exprData : ArithExpr)
deriving DecidableEq, Repr

/-- The new values that are made from two `double` numbers, from one, or from two texts. Two texts
can be joined if each comes to a zero byte within its block and what is printed has room. -/
structure NewValues where
  doubleAdd : IDataValue → IDataValue → IDataValue
  doubleSub : IDataValue → IDataValue → IDataValue
  doubleMul : IDataValue → IDataValue → IDataValue
  doubleDiv : IDataValue → IDataValue → IDataValue
  doubleCopy : IDataValue → IDataValue
  joinable : IDataValue → IDataValue → Bool
  joined : IDataValue → IDataValue → IDataValue

theorem toInt64_mem (value : ℤ) :
    toInt64 value ∈ Set.Icc DigitType.long.minValue DigitType.long.maxValue := by
  simp only [Set.mem_Icc, DigitType.minValue, DigitType.maxValue, toInt64]
  omega

/-- `DataValueLong`. -/
def newLong (value : ℤ) : IDataValue :=
  .digit .long (some ⟨toInt64 value, toInt64_mem value⟩)

namespace IDataValue

def isStringType (dv : IDataValue) : Bool :=
  dv.getDataType = .fixChar || dv.getDataType = .varChar

/-- `ToString` of the value appends nothing. -/
def printsNothing : IDataValue → Bool
  | fixChar (some bysValue) | varChar (some bysValue) => bysValue.isEmpty
  | dv => dv.isNull

end IDataValue

section Values

variable (newValues : NewValues) (left right : IDataValue)

/-- The `DataValueVarChar` of what both values have printed. -/
def joinValues : Except CalcStop IDataValue :=
  if left.printsNothing && right.printsNothing then .error .emptyBlock
  else if newValues.joinable left right then .ok (newValues.joined left right)
  else .error .outsideBlock

/-- The value that `ExprAdd::Calc` makes. -/
def addValues : Except CalcStop IDataValue :=
  if left.isAutoPrimaryKey && right.isAutoPrimaryKey then
    .ok (newLong (left.getLong + right.getLong))
  else if left.isDigital && right.isDigital then
    .ok (newValues.doubleAdd left right)
  else if left.isStringType || right.isStringType then
    joinValues newValues left right
  else
    .ok left

def subValues : IDataValue :=
  if left.isAutoPrimaryKey && right.isAutoPrimaryKey then
    newLong (left.getLong - right.getLong)
  else if left.isDigital && right.isDigital then
    newValues.doubleSub left right
  else
    left

def mulValues : IDataValue :=
  if left.isAutoPrimaryKey && right.isAutoPrimaryKey then
    newLong (left.getLong * right.getLong)
  else if left.isDigital && right.isDigital then
    newValues.doubleMul left right
  else
    left

/-- A zero divisor gives a copy of the dividend. -/
def divValues : Except CalcStop IDataValue :=
  if left.isAutoPrimaryKey && right.isAutoPrimaryKey then
    let r := right.getLong
    if r ≠ 0 then
      if left.getLong = -2 ^ 63 ∧ r = -1 then .error .divideError
      else .ok (newLong (left.getLong.tdiv r))
    else
      .ok left
  else if left.isDigital && right.isDigital then
    if right.getDouble ≠ .ofRat 0 then .ok (newValues.doubleDiv left right) else .ok left
  else
    .ok left

/-- The value that `ExprMinus::Calc` makes, or a null pointer. -/
def minusValue (data : IDataValue) : Option IDataValue :=
  if data.isAutoPrimaryKey then some (newLong data.getLong)
  else if data.isDigital then
    if data.getDouble ≠ .ofRat 0 then some (newValues.doubleCopy data) else none
  else
    none

end Values

namespace DataHeap

def orStop {β : Type} (stop : CalcStop) : Option β → Except CalcStop β
  | none => .error stop
  | some value => .ok value

/-- `AddRef` of the value at a pointer. -/
def addRef (heap : DataHeap) (ptr : Option ℕ) : Except CalcStop (Option ℕ × DataHeap) := do
  let ptr ← orStop .nullPointer ptr
  let heap ← orStop .deletedValue (RefHeap.addRef heap ptr)
  return (some ptr, heap)

end DataHeap

/-- `Calc` of an expression with two operands. -/
def calcBinary (make : IDataValue → IDataValue → Except CalcStop IDataValue)
    (left right : DataHeap → Except CalcStop (Option ℕ × DataHeap)) (heap : DataHeap) :
    Except CalcStop (Option ℕ × DataHeap) := do
  let (left, heap) ← left heap
  let (right, heap) ← right heap
  let left ← DataHeap.orStop .nullPointer left
  let right ← DataHeap.orStop .nullPointer right
  let leftValue ← DataHeap.orStop .deletedValue (heap.read left)
  let rightValue ← DataHeap.orStop .deletedValue (heap.read right)
  let value ← make leftValue rightValue
  let (rt, heap) := heap.new value one_lt_UINT16_MAX
  let heap ← DataHeap.orStop .deletedValue (heap.decRef left)
  let heap ← DataHeap.orStop .deletedValue (heap.decRef right)
  return (some rt, heap)

/-- `ExprMinus::Calc`. -/
def calcMinus (newValues : NewValues)
    (data : DataHeap → Except CalcStop (Option ℕ × DataHeap)) (heap : DataHeap) :
    Except CalcStop (Option ℕ × DataHeap) := do
  let (data, heap) ← data heap
  let data ← DataHeap.orStop .nullPointer data
  let value ← DataHeap.orStop .deletedValue (heap.read data)
  match minusValue newValues value with
  | none => do
      let heap ← DataHeap.orStop .deletedValue (heap.decRef data)
      return (none, heap)
  | some value => do
      let (rt, heap) := heap.new value one_lt_UINT16_MAX
      let heap ← DataHeap.orStop .deletedValue (heap.decRef data)
      return (some rt, heap)

namespace ArithExpr

/-- `Calc`: a pointer to the value, and the data values afterwards. -/
def calcData (newValues : NewValues) (vdParas vdRow : List ℕ) :
    ArithExpr → DataHeap → Except CalcStop (Option ℕ × DataHeap)
  | const val => fun heap => .ok (some val, heap)
  | field rowPos => fun heap => heap.addRef vdRow[rowPos]?
  | parameter paraPos => fun heap => heap.addRef vdParas[paraPos]?
  | add exprLeft exprRight =>
      calcBinary (addValues newValues)
        (exprLeft.calcData newValues vdParas vdRow) (exprRight.calcData newValues vdParas vdRow)
  | sub exprLeft exprRight =>
      calcBinary (fun left right => .ok (subValues newValues left right))
        (exprLeft.calcData newValues vdParas vdRow) (exprRight.calcData newValues vdParas vdRow)
  | mul exprLeft exprRight =>
      calcBinary (fun left right => .ok (mulValues newValues left right))
        (exprLeft.calcData newValues vdParas vdRow) (exprRight.calcData newValues vdParas vdRow)
  | div exprLeft exprRight =>
      calcBinary (divValues newValues)
        (exprLeft.calcData newValues vdParas vdRow) (exprRight.calcData newValues vdParas vdRow)
  | minus exprData => calcMinus newValues (exprData.calcData newValues vdParas vdRow)

def pointer (vdParas vdRow : List ℕ) : ArithExpr → Option ℕ
  | const val => some val
  | field rowPos => vdRow[rowPos]?
  | parameter paraPos => vdParas[paraPos]?
  | _ => none

/-- The expressions of a tree, with itself. -/
def subtrees : ArithExpr → List ArithExpr
  | add exprLeft exprRight => add exprLeft exprRight :: (exprLeft.subtrees ++ exprRight.subtrees)
  | sub exprLeft exprRight => sub exprLeft exprRight :: (exprLeft.subtrees ++ exprRight.subtrees)
  | mul exprLeft exprRight => mul exprLeft exprRight :: (exprLeft.subtrees ++ exprRight.subtrees)
  | div exprLeft exprRight => div exprLeft exprRight :: (exprLeft.subtrees ++ exprRight.subtrees)
  | minus exprData => minus exprData :: exprData.subtrees
  | leaf => [leaf]

end ArithExpr

/-!
## The value of a tree
-/

/-- A value of a signed integer type that is not NULL. -/
def IDataValue.IsSigned (dv : IDataValue) : Prop :=
  ∃ type value, dv = digit type (some value) ∧ type.signed = true

namespace DataHeap

def bits (heap : DataHeap) (ptr : Option ℕ) : BitVec 64 :=
  match ptr.bind heap.read with
  | some dv => BitVec.ofInt 64 dv.getLong
  | none => 0

/-- There is a signed integer at the pointer. -/
def HasSigned (heap : DataHeap) (ptr : ℕ) : Prop :=
  ∃ dv, heap.read ptr = some dv ∧ dv.IsSigned

end DataHeap

namespace ArithExpr

variable (heap : DataHeap) (vdParas vdRow : List ℕ)

/-- The value of a tree under the arithmetic of 64 bits in two's complement. -/
def value : ArithExpr → BitVec 64
  | const val => heap.bits (some val)
  | field rowPos => heap.bits vdRow[rowPos]?
  | parameter paraPos => heap.bits vdParas[paraPos]?
  | add exprLeft exprRight => exprLeft.value + exprRight.value
  | sub exprLeft exprRight => exprLeft.value - exprRight.value
  | mul exprLeft exprRight => exprLeft.value * exprRight.value
  | div exprLeft exprRight => exprLeft.value.sdiv exprRight.value
  | minus exprData => -exprData.value

/-- The leaves of a tree are signed integers, and those of constants have their count at the
limit. -/
def Ready : ArithExpr → Prop
  | const val => heap.HasSigned val ∧
      ∀ cell, heap.cells val = some cell → cell.count = UINT16_MAX
  | field rowPos => ∃ ptr, vdRow[rowPos]? = some ptr ∧ heap.HasSigned ptr
  | parameter paraPos => ∃ ptr, vdParas[paraPos]? = some ptr ∧ heap.HasSigned ptr
  | add exprLeft exprRight | sub exprLeft exprRight | mul exprLeft exprRight
  | div exprLeft exprRight => exprLeft.Ready ∧ exprRight.Ready
  | minus exprData => exprData.Ready

/-- What holds of all operands of the operators in a tree: of the two of a quotient, and of the
one of a unary minus. -/
def Operands (quotient : BitVec 64 → BitVec 64 → Prop) (negated : BitVec 64 → Prop) :
    ArithExpr → Prop
  | const _ | field _ | parameter _ => True
  | add exprLeft exprRight | sub exprLeft exprRight | mul exprLeft exprRight =>
      exprLeft.Operands quotient negated ∧ exprRight.Operands quotient negated
  | div exprLeft exprRight =>
      exprLeft.Operands quotient negated ∧ exprRight.Operands quotient negated ∧
        quotient (exprLeft.value heap vdParas vdRow) (exprRight.value heap vdParas vdRow)
  | minus exprData =>
      exprData.Operands quotient negated ∧ negated (exprData.value heap vdParas vdRow)

def NoZeroDivisor (tree : ArithExpr) : Prop :=
  tree.Operands heap vdParas vdRow (fun _ divisor => divisor ≠ 0) fun _ => True

/-- The most references to a value that the calculation of a tree holds at one time. -/
def peak (other : ℕ) : ArithExpr → ℕ
  | const val => if val = other then 1 else 0
  | field rowPos => if vdRow[rowPos]? = some other then 1 else 0
  | parameter paraPos => if vdParas[paraPos]? = some other then 1 else 0
  | add exprLeft exprRight | sub exprLeft exprRight | mul exprLeft exprRight
  | div exprLeft exprRight =>
      max (exprLeft.peak other)
        ((if exprLeft.pointer vdParas vdRow = some other then 1 else 0) + exprRight.peak other)
  | minus exprData => exprData.peak other

/-- The calculation brings no count of a value to the limit. -/
def CountsFit (tree : ArithExpr) : Prop :=
  ∀ ptr cell, heap.cells ptr = some cell → cell.count < UINT16_MAX →
    cell.count + tree.peak vdParas vdRow ptr < UINT16_MAX

/-- The calculation is right: it returns a signed integer with the value of the tree, all values
are unchanged, and when the caller releases the result, all is as before. -/
def CalcRight (newValues : NewValues) (tree : ArithExpr) : Prop :=
  ∃ ptr after dv released,
    tree.calcData newValues vdParas vdRow heap = .ok (some ptr, after) ∧
    after.read ptr = some dv ∧ dv.IsSigned ∧
    dv.getLong = (tree.value heap vdParas vdRow).toInt ∧
    (∀ other old, heap.read other = some old → after.read other = some old) ∧
    after.decRef ptr = some released ∧ released.cells = heap.cells

end ArithExpr

/-!
## The values that operators make
-/

theorem toInt64_eq_bmod (value : ℤ) : toInt64 value = value.bmod (2 ^ 64) := by
  simp only [toInt64, Int.bmod]
  split <;> omega

namespace IDataValue

/-- A signed integer that stands for 64 bits. -/
def Denotes (dv : IDataValue) (bits : BitVec 64) : Prop :=
  dv.IsSigned ∧ dv.getLong = bits.toInt

theorem getLong_newLong (value : ℤ) : (newLong value).getLong = value.bmod (2 ^ 64) := by
  change toInt64 (toInt64 value) = _
  rw [toInt64_eq_bmod, toInt64_eq_bmod, Int.bmod_bmod]

theorem newLong_denotes {value : ℤ} {bits : BitVec 64}
    (valueEq : value.bmod (2 ^ 64) = bits.toInt) :
    (newLong value).Denotes bits :=
  ⟨⟨.long, _, rfl, rfl⟩, (getLong_newLong value).trans valueEq⟩

theorem IsSigned.isAutoPrimaryKey {dv : IDataValue} (signed : dv.IsSigned) :
    dv.isAutoPrimaryKey = true := by
  rcases signed with ⟨type, value, rfl, -⟩
  apply DataType.isAutoPrimaryKey_iff.mpr
  cases type <;> simp [getDataType, DigitType.dataType]

theorem IsSigned.isStringType {dv : IDataValue} (signed : dv.IsSigned) :
    dv.isStringType = false := by
  rcases signed with ⟨type, value, rfl, -⟩
  cases type <;> rfl

theorem IsSigned.denotes {dv : IDataValue} (signed : dv.IsSigned) :
    dv.Denotes (BitVec.ofInt 64 dv.getLong) := by
  refine ⟨signed, ?_⟩
  rcases signed with ⟨type, value, rfl, -⟩
  change toInt64 value.val = (BitVec.ofInt 64 (toInt64 value.val)).toInt
  rw [BitVec.toInt_ofInt, toInt64_eq_bmod, Int.bmod_bmod]

variable {newValues : NewValues} {left right : IDataValue} {bits1 bits2 : BitVec 64}

theorem addValues_denotes (leftDenotes : left.Denotes bits1) (rightDenotes : right.Denotes bits2) :
    ∃ dv, addValues newValues left right = .ok dv ∧ dv.Denotes (bits1 + bits2) := by
  rw [addValues, leftDenotes.1.isAutoPrimaryKey, rightDenotes.1.isAutoPrimaryKey]
  refine ⟨_, rfl, ?_⟩
  apply newLong_denotes
  rw [leftDenotes.2, rightDenotes.2, BitVec.toInt_add]

theorem subValues_denotes (leftDenotes : left.Denotes bits1) (rightDenotes : right.Denotes bits2) :
    (subValues newValues left right).Denotes (bits1 - bits2) := by
  rw [subValues, leftDenotes.1.isAutoPrimaryKey, rightDenotes.1.isAutoPrimaryKey]
  apply newLong_denotes
  rw [leftDenotes.2, rightDenotes.2, BitVec.toInt_sub]

theorem mulValues_denotes (leftDenotes : left.Denotes bits1) (rightDenotes : right.Denotes bits2) :
    (mulValues newValues left right).Denotes (bits1 * bits2) := by
  rw [mulValues, leftDenotes.1.isAutoPrimaryKey, rightDenotes.1.isAutoPrimaryKey]
  apply newLong_denotes
  rw [leftDenotes.2, rightDenotes.2, BitVec.toInt_mul]

theorem toInt_eq_intMin {bits : BitVec 64} : bits.toInt = -2 ^ 63 ↔ bits = BitVec.intMin 64 := by
  have least : (BitVec.intMin 64).toInt = -2 ^ 63 := by decide
  rw [← least, BitVec.toInt_inj]

theorem toInt_eq_neg_one {bits : BitVec 64} : bits.toInt = -1 ↔ bits = -1 := by
  have minusOne : (-1 : BitVec 64).toInt = -1 := by decide
  rw [← minusOne, BitVec.toInt_inj]

theorem divValues_denotes (leftDenotes : left.Denotes bits1) (rightDenotes : right.Denotes bits2)
    (notZero : bits2 ≠ 0) (room : ¬(bits1 = BitVec.intMin 64 ∧ bits2 = -1)) :
    ∃ dv, divValues newValues left right = .ok dv ∧ dv.Denotes (bits1.sdiv bits2) := by
  have divisor : bits2.toInt ≠ 0 := by
    intro zero
    exact notZero (BitVec.toInt_inj.mp zero)
  rw [divValues, leftDenotes.1.isAutoPrimaryKey, rightDenotes.1.isAutoPrimaryKey]
  simp only [Bool.and_self, if_true, leftDenotes.2, rightDenotes.2, if_pos divisor,
    toInt_eq_intMin, toInt_eq_neg_one, if_neg room]
  refine ⟨_, rfl, ?_⟩
  apply newLong_denotes
  rw [BitVec.toInt_sdiv]

theorem minusValue_denotes (leftDenotes : left.Denotes bits1) :
    ∃ dv, minusValue newValues left = some dv ∧ dv.Denotes bits1 := by
  rw [minusValue, leftDenotes.1.isAutoPrimaryKey]
  refine ⟨_, rfl, ?_⟩
  apply newLong_denotes
  rw [leftDenotes.2, ← BitVec.toInt_ofInt, BitVec.ofInt_toInt]

end IDataValue

namespace ArithExpr

/-- A quotient that `Calc` can calculate. -/
def HasQuotient (left right : BitVec 64) : Prop :=
  ¬(left = BitVec.intMin 64 ∧ right = -1)

def OwnNegative (data : BitVec 64) : Prop :=
  data = 0 ∨ data = BitVec.intMin 64

theorem ownNegative_iff (data : BitVec 64) : OwnNegative data ↔ data = -data := by
  have least : (BitVec.intMin 64).toNat = 2 ^ 63 := by decide
  have zero : (0 : BitVec 64).toNat = 0 := rfl
  have lt := data.isLt
  unfold OwnNegative
  rw [← BitVec.toNat_inj, ← BitVec.toNat_inj, ← BitVec.toNat_inj, BitVec.toNat_neg, least, zero]
  omega

/-- The operands with which every calculation in a tree is right. -/
def Regular (heap : DataHeap) (vdParas vdRow : List ℕ) (tree : ArithExpr) : Prop :=
  tree.Operands heap vdParas vdRow HasQuotient OwnNegative

/-- A LONG 6 of a row, a SHORT -4 of the parameters and a constant 3. -/
def sampleHeap : DataHeap where
  cells
    | 0 => some ⟨.digit .long (some ⟨6, by decide⟩), 1, by decide, by decide⟩
    | 1 => some ⟨.digit .short (some ⟨-4, by decide⟩), 2, by decide, by decide⟩
    | 2 => some ⟨newLong 3, UINT16_MAX, zero_lt_UINT16_MAX, Nat.le_refl _⟩
    | _ => none
  next := 3
  free := by
    intro ptr le
    match ptr, le with
    | _ + 3, _ => rfl

/-- No `double` and no text is made in the sample. -/
def sampleValues : NewValues where
  doubleAdd left _ := left
  doubleSub left _ := left
  doubleMul left _ := left
  doubleDiv left _ := left
  doubleCopy data := data
  joinable _ _ := true
  joined left _ := left

/-- The tree `(c1 - ?) * c1 / 3 + -(c1 - c1)`. -/
def sampleTree : ArithExpr :=
  add (div (mul (sub (field 0) (parameter 0)) (field 0)) (const 2))
    (minus (sub (field 0) (field 0)))

end ArithExpr

end RapidDb
