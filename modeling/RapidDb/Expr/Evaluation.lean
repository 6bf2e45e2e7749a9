import RapidDb.Expr.ExprCalc
import RapidDb.Expr.ExprLogic

/-!
# Evaluation of expressions

`Calc` of data and logic expressions on data values with counted references, and the places that
call it: a condition, a value of an INSERT and a new value of an UPDATE. A failed data expression
returns a null pointer. The operators of arithmetic do not look for it; a comparison does, but
releases the right operand where the left one has failed. INSERT casts its elements to data
expressions and takes what comes back for a value, UPDATE tests the value but not the cast. A point
query tests the values of its equations. `ConditionConvert` takes what comes back for the borders of
its ranges, which release them: the value of a `<>` is a border of two ranges with one reference.

A function returns a null pointer whatever its parameters are. What `Exist` says of a set is given,
and what is copied into a row or a key after a calculation, the other borders of ranges and what
merges do with ranges are left out.
-/

namespace RapidDb

/-- What makes an evaluation stop: a stop in a calculation, a call of `Calc` on what is not a data
expression, or an operator that ends the program. -/
inductive EvalStop where
  | inCalc (stop : CalcStop)
  | notData
  | aborted
deriving DecidableEq, Repr

inductive DataOper where
  | add
  | sub
  | mul
  | div
deriving DecidableEq, Repr

/-- Data expressions. A constant is given by the address of its value. -/
inductive DataExpr where
  | const (val : ℕ)
  | field (rowPos : ℕ)
  | parameter (paraPos : ℕ)
  | oper (op : DataOper) (exprLeft exprRight : DataExpr)
  | minus (exprData : DataExpr)
  | func (funcName : String)
deriving DecidableEq, Repr

/-- Logic expressions. The values of an IN are given by what `Exist` says. -/
inductive LogicExpr where
  | comp (compType : CompType) (exprLeft exprRight : DataExpr)
  | inNot (exprData : DataExpr) (exist : IDataValue → Bool) (bIn : Bool)
  | isNullNot (child : DataExpr) (bNull : Bool)
  | between (child exprLeft exprRight : DataExpr)
  | like (child : DataExpr) (dvPatten : ℕ) (bLike : Bool)
  | not (child : LogicExpr)
  | and (vctChild : List LogicExpr)
  | or (vctChild : List LogicExpr)

/-- What the parser takes as a value; an aggregate is not a data expression. -/
inductive ElemExpr where
  | data (exprData : DataExpr)
  | logic (exprLogic : LogicExpr)
  | aggr (exprData : Option DataExpr)

def DataOper.make (newValues : NewValues) (left right : IDataValue) :
    DataOper → Except CalcStop IDataValue
  | add => addValues newValues left right
  | sub => .ok (subValues newValues left right)
  | mul => .ok (mulValues newValues left right)
  | div => divValues newValues left right

/-- `Calc` of a data expression. -/
def DataExpr.calcData (newValues : NewValues) (vdParas vdRow : List ℕ) :
    DataExpr → DataHeap → Except CalcStop (Option ℕ × DataHeap)
  | const val => fun heap => .ok (some val, heap)
  | field rowPos => fun heap => heap.addRef vdRow[rowPos]?
  | parameter paraPos => fun heap => heap.addRef vdParas[paraPos]?
  | oper op exprLeft exprRight =>
      calcBinary (fun left right => op.make newValues left right)
        (exprLeft.calcData newValues vdParas vdRow) (exprRight.calcData newValues vdParas vdRow)
  | minus exprData => calcMinus newValues (exprData.calcData newValues vdParas vdRow)
  | func _ => fun heap => .ok (none, heap)

namespace DataHeap

def readAll (heap : DataHeap) (ptrs : List ℕ) : Except CalcStop (List IDataValue) :=
  ptrs.mapM fun ptr => orStop .deletedValue (heap.read ptr)

def decRefAll : List ℕ → DataHeap → Except CalcStop DataHeap
  | [], heap => .ok heap
  | ptr :: ptrs, heap => do
      let heap ← orStop .deletedValue (RefHeap.decRef heap ptr)
      decRefAll ptrs heap

end DataHeap

/-- The operands of a test, one after the other. -/
def calcAll (newValues : NewValues) (vdParas vdRow : List ℕ) :
    List DataExpr → DataHeap → Except CalcStop (List (Option ℕ) × DataHeap)
  | [], heap => .ok ([], heap)
  | exprData :: rest, heap => do
      let (ptr, heap) ← exprData.calcData newValues vdParas vdRow heap
      let (ptrs, heap) ← calcAll newValues vdParas vdRow rest heap
      return (ptr :: ptrs, heap)

def CompType.compare (checked : Bool) (left right : IDataValue) : CompType → Option Bool
  | EQ => (IDataValue.operators checked).eq left right
  | GT => (IDataValue.operators checked).gt left right
  | GE => (IDataValue.operators checked).ge left right
  | LT => (IDataValue.operators checked).lt left right
  | LE => (IDataValue.operators checked).le left right
  | NE => (IDataValue.operators checked).ne left right

def IDataValue.ableCompare (left right : IDataValue) : Bool :=
  DataType.ableCompare left.getDataType right.getDataType

namespace LogicExpr

/-- What a comparison says of its operands; none where an operator ends the program. -/
def judgeComp (checked : Bool) (compType : CompType) : List IDataValue → Option TriBool
  | [left, right] =>
      if left.ableCompare right then
        (compType.compare checked left right).map ExprLogic.triBool
      else
        some .error
  | _ => some .error

def judgeInNot (exist : IDataValue → Bool) (bIn : Bool) : List IDataValue → Option TriBool
  | [pdv] => some (ExprLogic.triBool (bIn == exist pdv))
  | _ => some .error

def judgeIsNullNot (bNull : Bool) : List IDataValue → Option TriBool
  | [pdv] => some (ExprLogic.triBool (bNull == pdv.isNull))
  | _ => some .error

/-- The upper bound is looked at where the lower one holds. -/
def judgeBetween (checked : Bool) : List IDataValue → Option TriBool
  | [pdv, left, right] =>
      if pdv.ableCompare left && pdv.ableCompare right then
        (CompType.GE.compare checked pdv left).bind fun atLeast =>
          if atLeast then (CompType.LE.compare checked pdv right).map ExprLogic.triBool
          else some .false
      else
        some .error
  | _ => some .error

/-- The right operand is released where the left one is null, also when both are. -/
def bothNull (there : List Bool) : Bool := there.all (! ·)

/-- `Calc` of a test: the operands are calculated, judged and released. Where one has failed, the
others are released; `usesNull` says from which operands are there whether a null pointer is
used. -/
def calcTest (newValues : NewValues) (vdParas vdRow : List ℕ) (operands : List DataExpr)
    (usesNull : List Bool → Bool) (judge : List IDataValue → Option TriBool) (heap : DataHeap) :
    Except EvalStop (TriBool × DataHeap) := do
  let (ptrs, heap) ← (calcAll newValues vdParas vdRow operands heap).mapError .inCalc
  if ptrs.all Option.isSome then
    let values ← (heap.readAll ptrs.reduceOption).mapError .inCalc
    match judge values with
    | none => .error .aborted
    | some tb => do
        let heap ← (DataHeap.decRefAll ptrs.reduceOption heap).mapError .inCalc
        return (tb, heap)
  else if usesNull (ptrs.map Option.isSome) then
    .error (.inCalc .nullPointer)
  else do
    let heap ← (DataHeap.decRefAll ptrs.reduceOption heap).mapError .inCalc
    return (.error, heap)

def flip : TriBool → TriBool
  | .error => .error
  | .true => .false
  | .false => .true

mutual

/-- `Calc` of a logic expression. -/
def calcLogic (newValues : NewValues) (checked : Bool) (vdParas vdRow : List ℕ) :
    LogicExpr → DataHeap → Except EvalStop (TriBool × DataHeap)
  | comp compType exprLeft exprRight, heap =>
      calcTest newValues vdParas vdRow [exprLeft, exprRight] bothNull
        (judgeComp checked compType) heap
  | inNot exprData exist bIn, heap =>
      calcTest newValues vdParas vdRow [exprData] (fun _ => false) (judgeInNot exist bIn) heap
  | isNullNot child bNull, heap =>
      calcTest newValues vdParas vdRow [child] (fun _ => false) (judgeIsNullNot bNull) heap
  | between child exprLeft exprRight, heap =>
      calcTest newValues vdParas vdRow [child, exprLeft, exprRight] (fun _ => false)
        (judgeBetween checked) heap
  | like _ _ _, heap => .ok (.false, heap)
  | not child, heap => do
      let (tb, heap) ← child.calcLogic newValues checked vdParas vdRow heap
      return (flip tb, heap)
  | and vctChild, heap => calcAnd newValues checked vdParas vdRow vctChild heap
  | or vctChild, heap => calcOr newValues checked vdParas vdRow vctChild heap

/-- The loop of an AND: the first value that is not `True`. -/
def calcAnd (newValues : NewValues) (checked : Bool) (vdParas vdRow : List ℕ) :
    List LogicExpr → DataHeap → Except EvalStop (TriBool × DataHeap)
  | [], heap => .ok (.true, heap)
  | expr :: rest, heap => do
      let (tb, heap) ← expr.calcLogic newValues checked vdParas vdRow heap
      if tb = .true then calcAnd newValues checked vdParas vdRow rest heap
      else return (tb, heap)

/-- The loop of an OR: the first value that is not `False`. -/
def calcOr (newValues : NewValues) (checked : Bool) (vdParas vdRow : List ℕ) :
    List LogicExpr → DataHeap → Except EvalStop (TriBool × DataHeap)
  | [], heap => .ok (.false, heap)
  | expr :: rest, heap => do
      let (tb, heap) ← expr.calcLogic newValues checked vdParas vdRow heap
      if tb = .false then calcOr newValues checked vdParas vdRow rest heap
      else return (tb, heap)

end

end LogicExpr

/-- The borders of the ranges of a comparison that are the value it compares with. -/
def CompType.borders (dv : ℕ) (heap : DataHeap) : CompType → Except CalcStop (List ℕ × DataHeap)
  | EQ => do
      let (_, heap) ← heap.addRef (some dv)
      return ([dv, dv], heap)
  | NE => .ok ([dv, dv], heap)
  | GT | GE | LT | LE => .ok ([dv], heap)

/-- The bounds of a BETWEEN are compared before they are borders. -/
def judgeBorders (checked : Bool) : List IDataValue → Option TriBool
  | [left, right] =>
      (CompType.GT.compare checked left right).bind fun greater =>
        if greater then some .true
        else (CompType.EQ.compare checked left right).map fun _ => .true
  | _ => some .error

/-- An expression in its place: a condition on a row, a value of an INSERT or of an UPDATE, the
right side of an equation of a point query, and a comparison or a BETWEEN of a column that is
turned into ranges. -/
inductive Evaluation where
  | condition (exprLogic : LogicExpr)
  | rowData (elem : ElemExpr)
  | updateColumn (elem : ElemExpr)
  | pointComp (exprRight : DataExpr)
  | rangeComp (compType : CompType) (exprRight : DataExpr)
  | rangeBetween (exprLeft exprRight : DataExpr)

/-- The evaluation of an expression. That of a value is `True` when there is one, and what it has
returned is released. There is no row yet where a key or a range is made. -/
def Evaluation.run (newValues : NewValues) (checked : Bool) (vdParas vdRow : List ℕ)
    (heap : DataHeap) : Evaluation → Except EvalStop (TriBool × DataHeap)
  | condition exprLogic => exprLogic.calcLogic newValues checked vdParas vdRow heap
  | rowData (.data exprData) =>
      LogicExpr.calcTest newValues vdParas vdRow [exprData] (fun _ => true)
        (fun _ => some .true) heap
  | updateColumn (.data exprData) =>
      LogicExpr.calcTest newValues vdParas vdRow [exprData] (fun _ => false)
        (fun _ => some .true) heap
  | rowData _ | updateColumn _ => .error .notData
  | pointComp exprRight =>
      LogicExpr.calcTest newValues vdParas [] [exprRight] (fun _ => false)
        (fun _ => some .true) heap
  | rangeComp compType exprRight => do
      let (dv, heap) ← (exprRight.calcData newValues vdParas [] heap).mapError .inCalc
      let dv ← (DataHeap.orStop .nullPointer dv).mapError .inCalc
      let (borders, heap) ← (compType.borders dv heap).mapError .inCalc
      let heap ← (DataHeap.decRefAll borders heap).mapError .inCalc
      return (.true, heap)
  | rangeBetween exprLeft exprRight =>
      LogicExpr.calcTest newValues vdParas [] [exprLeft, exprRight] (fun _ => true)
        (judgeBorders checked) heap

/-! ## What an expression means -/

abbrev ValuesAt : Type := ℕ → Option IDataValue

namespace DataExpr

variable (newValues : NewValues) (values : ValuesAt) (vdParas vdRow : List ℕ)

def pointer : DataExpr → Option ℕ
  | const val => some val
  | field rowPos => vdRow[rowPos]?
  | parameter paraPos => vdParas[paraPos]?
  | _ => none

/-- The value of an expression, or none if it fails. -/
def denote : DataExpr → Option IDataValue
  | const val => values val
  | field rowPos => vdRow[rowPos]?.bind values
  | parameter paraPos => vdParas[paraPos]?.bind values
  | oper op exprLeft exprRight =>
      exprLeft.denote.bind fun left => exprRight.denote.bind fun right =>
        (op.make newValues left right).toOption
  | minus exprData => exprData.denote.bind (minusValue newValues)
  | func _ => none

/-- Two texts, of which one prints something and that can be joined; a quotient of integers that has
room; or another operator. -/
def HasRoom (left right : IDataValue) : DataOper → Prop
  | .add => (left.isStringType || right.isStringType) = true →
      (left.printsNothing && right.printsNothing) = false ∧ newValues.joinable left right = true
  | .div => ¬(left.isAutoPrimaryKey = true ∧ right.isAutoPrimaryKey = true ∧
      left.getLong = -2 ^ 63 ∧ right.getLong = -1)
  | .sub | .mul => True

/-- Operators and unary minuses have the values of their operands, and their own have room. -/
def Safe : DataExpr → Prop
  | const _ | field _ | parameter _ | func _ => True
  | oper op exprLeft exprRight =>
      exprLeft.Safe ∧ exprRight.Safe ∧
        ∃ left right, exprLeft.denote newValues values vdParas vdRow = some left ∧
          exprRight.denote newValues values vdParas vdRow = some right ∧
            HasRoom newValues left right op
  | minus exprData => exprData.Safe ∧
      ∃ data, exprData.denote newValues values vdParas vdRow = some data

/-- The most references to a value that are held at one time. -/
def peak (other : ℕ) : DataExpr → ℕ
  | const val => if val = other then 1 else 0
  | field rowPos => if vdRow[rowPos]? = some other then 1 else 0
  | parameter paraPos => if vdParas[paraPos]? = some other then 1 else 0
  | oper _ exprLeft exprRight =>
      max (exprLeft.peak other)
        ((if exprLeft.pointer vdParas vdRow = some other then 1 else 0) + exprRight.peak other)
  | minus exprData => exprData.peak other
  | func _ => 0

/-- The leaves are values, and those of constants have their count at the limit. -/
def Ready (heap : DataHeap) : DataExpr → Prop
  | const val => ∃ cell, heap.cells val = some cell ∧ cell.count = UINT16_MAX
  | field rowPos => ∃ ptr cell, vdRow[rowPos]? = some ptr ∧ heap.cells ptr = some cell
  | parameter paraPos => ∃ ptr cell, vdParas[paraPos]? = some ptr ∧ heap.cells ptr = some cell
  | oper _ exprLeft exprRight => exprLeft.Ready heap ∧ exprRight.Ready heap
  | minus exprData => exprData.Ready heap
  | func _ => True

/-- The most references that are held while several expressions are calculated. -/
def peakAll (other : ℕ) : List DataExpr → ℕ
  | [] => 0
  | exprData :: rest =>
      max (exprData.peak vdParas vdRow other)
        ((if exprData.pointer vdParas vdRow = some other then 1 else 0) + peakAll other rest)

/-- What a test says of its operands; it is an error if one fails. -/
def judgeAll (operands : List DataExpr) (judge : List IDataValue → Option TriBool) :
    Option TriBool :=
  let judged := operands.map (denote newValues values vdParas vdRow)
  if judged.all Option.isSome then judge judged.reduceOption else some .error

end DataExpr

namespace LogicExpr

variable (newValues : NewValues) (checked : Bool) (values : ValuesAt) (vdParas vdRow : List ℕ)

mutual

/-- The truth of a condition: an error if an operand that is looked at fails, and none where an
operator ends the program. -/
def truth : LogicExpr → Option TriBool
  | comp compType exprLeft exprRight =>
      DataExpr.judgeAll newValues values vdParas vdRow [exprLeft, exprRight]
        (judgeComp checked compType)
  | inNot exprData exist bIn =>
      DataExpr.judgeAll newValues values vdParas vdRow [exprData] (judgeInNot exist bIn)
  | isNullNot child bNull =>
      DataExpr.judgeAll newValues values vdParas vdRow [child] (judgeIsNullNot bNull)
  | between child exprLeft exprRight =>
      DataExpr.judgeAll newValues values vdParas vdRow [child, exprLeft, exprRight]
        (judgeBetween checked)
  | like _ _ _ => some .false
  | not child => child.truth.map flip
  | and vctChild => truthAnd vctChild
  | or vctChild => truthOr vctChild

def truthAnd : List LogicExpr → Option TriBool
  | [] => some .true
  | expr :: rest => if expr.truth = some .true then truthAnd rest else expr.truth

def truthOr : List LogicExpr → Option TriBool
  | [] => some .false
  | expr :: rest => if expr.truth = some .false then truthOr rest else expr.truth

end

mutual

/-- The data expressions that are looked at are safe, and not both operands of a comparison
fail. -/
def Safe : LogicExpr → Prop
  | comp _ exprLeft exprRight =>
      (exprLeft.Safe newValues values vdParas vdRow ∧
          exprRight.Safe newValues values vdParas vdRow) ∧
        ¬(exprLeft.denote newValues values vdParas vdRow = none ∧
          exprRight.denote newValues values vdParas vdRow = none)
  | inNot exprData _ _ => exprData.Safe newValues values vdParas vdRow
  | isNullNot child _ => child.Safe newValues values vdParas vdRow
  | between child exprLeft exprRight =>
      child.Safe newValues values vdParas vdRow ∧ exprLeft.Safe newValues values vdParas vdRow ∧
        exprRight.Safe newValues values vdParas vdRow
  | like _ _ _ => True
  | not child => child.Safe
  | and vctChild => SafeAnd vctChild
  | or vctChild => SafeOr vctChild

def SafeAnd : List LogicExpr → Prop
  | [] => True
  | expr :: rest => expr.Safe ∧
      (expr.truth newValues checked values vdParas vdRow = some .true → SafeAnd rest)

def SafeOr : List LogicExpr → Prop
  | [] => True
  | expr :: rest => expr.Safe ∧
      (expr.truth newValues checked values vdParas vdRow = some .false → SafeOr rest)

end

mutual

/-- The most references to a value that are held at one time. -/
def peak (other : ℕ) : LogicExpr → ℕ
  | comp _ exprLeft exprRight => DataExpr.peakAll vdParas vdRow other [exprLeft, exprRight]
  | inNot exprData _ _ => DataExpr.peakAll vdParas vdRow other [exprData]
  | isNullNot child _ => DataExpr.peakAll vdParas vdRow other [child]
  | between child exprLeft exprRight =>
      DataExpr.peakAll vdParas vdRow other [child, exprLeft, exprRight]
  | like _ _ _ => 0
  | not child => child.peak other
  | and vctChild => peakAnd other vctChild
  | or vctChild => peakOr other vctChild

def peakAnd (other : ℕ) : List LogicExpr → ℕ
  | [] => 0
  | expr :: rest => max (expr.peak other)
      (if expr.truth newValues checked values vdParas vdRow = some .true then peakAnd other rest
      else 0)

def peakOr (other : ℕ) : List LogicExpr → ℕ
  | [] => 0
  | expr :: rest => max (expr.peak other)
      (if expr.truth newValues checked values vdParas vdRow = some .false then peakOr other rest
      else 0)

end

mutual

/-- The leaves of the data expressions are values. -/
def Ready (heap : DataHeap) : LogicExpr → Prop
  | comp _ exprLeft exprRight =>
      exprLeft.Ready vdParas vdRow heap ∧ exprRight.Ready vdParas vdRow heap
  | inNot exprData _ _ => exprData.Ready vdParas vdRow heap
  | isNullNot child _ => child.Ready vdParas vdRow heap
  | between child exprLeft exprRight =>
      child.Ready vdParas vdRow heap ∧ exprLeft.Ready vdParas vdRow heap ∧
        exprRight.Ready vdParas vdRow heap
  | like child _ _ => child.Ready vdParas vdRow heap
  | not child => child.Ready heap
  | and vctChild => AllReady heap vctChild
  | or vctChild => AllReady heap vctChild

def AllReady (heap : DataHeap) : List LogicExpr → Prop
  | [] => True
  | expr :: rest => expr.Ready heap ∧ AllReady heap rest

end

end LogicExpr

end RapidDb
