import RapidDb.Statement.ConditionConvert

/-!
# Conditions of a WHERE clause

The trees that the parser builds, what they say of a row, and `PickIndexCondition`, which looks
for the conditions an index can serve. Looking at a comparison turns it round when its constant
stands on the left, so that the tree changes even where nothing is picked.

A field is resolved by the name of its column; `mapColPos` gives the position of a column in a
row, as `FillElemFiled` writes it into the fields.
-/

namespace RapidDb

inductive TriBool where
  | error
  | false
  | true
deriving DecidableEq, Repr

/-- What conditions use of data values: `AbleCompare`, the operators `==`, `>` and `>=` from which
the others are made, and `IsNull`. Values that can be compared can be compared either way round. -/
structure DataOps (V : Type) where
  ableCompare : V → V → Bool
  eq : V → V → Bool
  gt : V → V → Bool
  ge : V → V → Bool
  isNull : V → Bool
  ableCompare_comm : ∀ left right, ableCompare left right = ableCompare right left
  eq_comm : ∀ left right, ableCompare left right = true → eq left right = eq right left
  gt_eq_not_ge : ∀ left right, ableCompare left right = true → gt left right = !ge right left

namespace DataOps

variable {V : Type}

def compare (ops : DataOps V) (left right : V) : CompType → Bool
  | .EQ => ops.eq left right
  | .GT => ops.gt left right
  | .GE => ops.ge left right
  | .LT => !ops.ge left right
  | .LE => !ops.gt left right
  | .NE => !ops.eq left right

end DataOps

/-- `Reverse` of a comparison operator. -/
def CompType.reverse : CompType → CompType
  | EQ => EQ
  | GT => LT
  | GE => LE
  | LT => GT
  | LE => GE
  | NE => NE

/-- Data expressions. An operator or a function calculates its value from those of its operands;
a null pointer is `none`. Only a call of a function can have no operands. -/
inductive ExprData (V : Type) where
  | const (val : V)
  | parameter (paraPos : ℕ)
  | field (colName : String)
  | oper (func : List V → Option V) (vctData : List (ExprData V))

namespace ExprData

variable {V : Type}

mutual

def calcData (mapColPos : String → Option ℕ) (vdParas vdRow : List V) : ExprData V → Option V
  | const val => some val
  | parameter paraPos => vdParas[paraPos]?
  | field colName => (mapColPos colName).bind fun rowPos => vdRow[rowPos]?
  | oper func vctData => (calcList mapColPos vdParas vdRow vctData).bind func

def calcList (mapColPos : String → Option ℕ) (vdParas vdRow : List V) :
    List (ExprData V) → Option (List V)
  | [] => some []
  | data :: rest =>
      (data.calcData mapColPos vdParas vdRow).bind fun value =>
        (calcList mapColPos vdParas vdRow rest).map (value :: ·)

end

mutual

def isConstValue : ExprData V → Bool
  | const _ => true
  | parameter _ => true
  | field _ => false
  | oper _ vctData => areConstValues vctData

def areConstValues : List (ExprData V) → Bool
  | [] => true
  | data :: rest => data.isConstValue && areConstValues rest

end

mutual

/-- The columns of the fields that `CollectElem` finds. -/
def columns : ExprData V → List String
  | const _ => []
  | parameter _ => []
  | field colName => [colName]
  | oper _ vctData => columnsOf vctData

def columnsOf : List (ExprData V) → List String
  | [] => []
  | data :: rest => data.columns ++ columnsOf rest

end

mutual

/-- A call without parameters has no list of them, and `CollectElem` goes through it. -/
def lacksPara : ExprData V → Bool
  | const _ => false
  | parameter _ => false
  | field _ => false
  | oper _ vctData => vctData.isEmpty || anyLacksPara vctData

def anyLacksPara : List (ExprData V) → Bool
  | [] => false
  | data :: rest => data.lacksPara || anyLacksPara rest

end

/-- Whether `GetType` is `EXPR_FIELD`. -/
def isField : ExprData V → Bool
  | field _ => true
  | _ => false

end ExprData

/-- Logic expressions. The values of an IN are given by what `Exist` says; an OR has a first
operand. -/
inductive ExprLogic (V : Type) where
  | comp (compType : CompType) (exprLeft exprRight : ExprData V)
  | inNot (exprData : ExprData V) (exist : V → Bool) (bIn : Bool)
  | isNullNot (child : ExprData V) (bNull : Bool)
  | between (child exprLeft exprRight : ExprData V)
  | like (child : ExprData V) (dvPatten : V) (bLike : Bool)
  | not (child : ExprLogic V)
  | and (vctChild : List (ExprLogic V))
  | or (first : ExprLogic V) (rest : List (ExprLogic V))

/-- What makes the preparation of a condition stop: a null pointer, or a loop that has not come
to an end. -/
inductive Stop where
  | nullPointer
  | outOfFuel
deriving DecidableEq, Repr

namespace ExprLogic

variable {V : Type}

/-- A truth value of the language as one of the three of a condition. -/
def triBool (value : Bool) : TriBool := if value then .true else .false

mutual

def calcLogic (ops : DataOps V) (mapColPos : String → Option ℕ) (vdParas vdRow : List V) :
    ExprLogic V → TriBool
  | comp compType exprLeft exprRight =>
      match exprLeft.calcData mapColPos vdParas vdRow,
        exprRight.calcData mapColPos vdParas vdRow with
      | some left, some right =>
          if ops.ableCompare left right then triBool (ops.compare left right compType) else .error
      | _, _ => .error
  | inNot exprData exist bIn =>
      match exprData.calcData mapColPos vdParas vdRow with
      | none => .error
      | some pdv => triBool (bIn == exist pdv)
  | isNullNot child bNull =>
      match child.calcData mapColPos vdParas vdRow with
      | none => .error
      | some pdv => triBool (bNull == ops.isNull pdv)
  | between child exprLeft exprRight =>
      match child.calcData mapColPos vdParas vdRow, exprLeft.calcData mapColPos vdParas vdRow,
        exprRight.calcData mapColPos vdParas vdRow with
      | some pdv, some left, some right =>
          if ops.ableCompare pdv left && ops.ableCompare pdv right then
            triBool (ops.compare pdv left .GE && ops.compare pdv right .LE)
          else
            .error
      | _, _, _ => .error
  | like _ _ _ => .false
  | not child =>
      match child.calcLogic ops mapColPos vdParas vdRow with
      | .error => .error
      | .true => .false
      | .false => .true
  | and vctChild => calcAnd ops mapColPos vdParas vdRow vctChild
  | or first rest =>
      match first.calcLogic ops mapColPos vdParas vdRow with
      | .false => calcOr ops mapColPos vdParas vdRow rest
      | tb => tb

/-- The loop of an AND: the first value that is not `True`. -/
def calcAnd (ops : DataOps V) (mapColPos : String → Option ℕ) (vdParas vdRow : List V) :
    List (ExprLogic V) → TriBool
  | [] => .true
  | logic :: rest =>
      match logic.calcLogic ops mapColPos vdParas vdRow with
      | .true => calcAnd ops mapColPos vdParas vdRow rest
      | tb => tb

/-- The loop of an OR: the first value that is not `False`. -/
def calcOr (ops : DataOps V) (mapColPos : String → Option ℕ) (vdParas vdRow : List V) :
    List (ExprLogic V) → TriBool
  | [] => .false
  | logic :: rest =>
      match logic.calcLogic ops mapColPos vdParas vdRow with
      | .false => calcOr ops mapColPos vdParas vdRow rest
      | tb => tb

end

mutual

/-- The columns of the fields that `CollectElem` finds. -/
def columns : ExprLogic V → List String
  | comp _ exprLeft exprRight => exprLeft.columns ++ exprRight.columns
  | inNot exprData _ _ => exprData.columns
  | isNullNot child _ => child.columns
  | between child exprLeft exprRight =>
      child.columns ++ exprLeft.columns ++ exprRight.columns
  | like child _ _ => child.columns
  | not child => child.columns
  | and vctChild => columnsOf vctChild
  | or first rest => first.columns ++ columnsOf rest

def columnsOf : List (ExprLogic V) → List String
  | [] => []
  | logic :: rest => logic.columns ++ columnsOf rest

end

mutual

/-- `CollectElem` comes to a call without parameters. -/
def lacksPara : ExprLogic V → Bool
  | comp _ exprLeft exprRight => exprLeft.lacksPara || exprRight.lacksPara
  | inNot exprData _ _ => exprData.lacksPara
  | isNullNot child _ => child.lacksPara
  | between child exprLeft exprRight =>
      child.lacksPara || exprLeft.lacksPara || exprRight.lacksPara
  | like child _ _ => child.lacksPara
  | not child => child.lacksPara
  | and vctChild => anyLacksPara vctChild
  | or first rest => first.lacksPara || anyLacksPara rest

def anyLacksPara : List (ExprLogic V) → Bool
  | [] => false
  | logic :: rest => logic.lacksPara || anyLacksPara rest

end

/-- `FillElemFiled`: every field names a column. -/
def fillElemField (mapColPos : String → Option ℕ) (logic : ExprLogic V) : Bool :=
  logic.columns.all fun colName => (mapColPos colName).isSome

def isAnd : ExprLogic V → Bool
  | and _ => true
  | _ => false

def isOr : ExprLogic V → Bool
  | or _ _ => true
  | _ => false

end ExprLogic

/-!
## The indexes of a table
-/

/-- `_mapIndexFirstField`, filled by `emplace`: the first index whose first column has the
position. An index is the list of the positions of its columns. -/
def indexFirstField (vctIndex : List (List ℕ)) (colPos : ℕ) : Option ℕ :=
  vctIndex.findIdx? fun vctCol => vctCol.head? == some colPos

/-- The index that a data expression is the first column of. -/
def ExprData.fieldIndex {V : Type} (mapColPos : String → Option ℕ) (vctIndex : List (List ℕ)) :
    ExprData V → Option ℕ
  | field colName => (mapColPos colName).bind (indexFirstField vctIndex)
  | _ => none

namespace ExprLogic

variable {V : Type}

/-- The comparison after `PickIndexCondition` has looked at it. -/
def turned (compType : CompType) (exprLeft exprRight : ExprData V) :
    CompType × ExprData V × ExprData V :=
  if exprRight.isField && exprLeft.isConstValue then (compType.reverse, exprRight, exprLeft)
  else (compType, exprLeft, exprRight)

mutual

/-- `PickIndexCondition` without a vector for the conditions: the tree it leaves, and the index
if it returns `True`. -/
def pick (mapColPos : String → Option ℕ) (vctIndex : List (List ℕ)) :
    ExprLogic V → Except Stop (ExprLogic V × Option ℕ)
  | comp compType exprLeft exprRight =>
      let (compType, exprLeft, exprRight) := turned compType exprLeft exprRight
      .ok (comp compType exprLeft exprRight,
        if exprRight.isConstValue then exprLeft.fieldIndex mapColPos vctIndex else none)
  | inNot exprData exist bIn =>
      .ok (inNot exprData exist bIn,
        if bIn then exprData.fieldIndex mapColPos vctIndex else none)
  | isNullNot child bNull => .ok (isNullNot child bNull, none)
  | between child exprLeft exprRight =>
      -- the cast is applied to the left bound, a constant, instead of the field
      if child.isField && exprLeft.isConstValue && exprRight.isConstValue then .error .nullPointer
      else .ok (between child exprLeft exprRight, none)
  | like child dvPatten bLike => .ok (like child dvPatten bLike, none)
  | not child => .ok (not child, none)
  | and vctChild => do
      let (vctChild, vctIL) ← andLoop mapColPos vctIndex 0 [] vctChild
      -- the conditions are pushed into a vector that is not there
      if vctIL.isEmpty then .ok (and vctChild, none) else .error .nullPointer
  | or first rest => do
      let (first, ipos) ← pick mapColPos vctIndex first
      match ipos with
      | none => .ok (or first rest, none)
      | some ipos =>
          let (rest, same) ← orLoop mapColPos vctIndex ipos rest
          .ok (or first rest, if same then some ipos else none)

/-- The loop over the conditions of an AND: the positions of those that can be picked so far, with
their index. -/
def andLoop (mapColPos : String → Option ℕ) (vctIndex : List (List ℕ)) (pos : ℕ)
    (vctIL : List (ℕ × ℕ)) :
    List (ExprLogic V) → Except Stop (List (ExprLogic V) × List (ℕ × ℕ))
  | [] => .ok ([], vctIL)
  | logic :: rest => do
      if logic.isAnd then
        let (rest, vctIL) ← andLoop mapColPos vctIndex (pos + 1) vctIL rest
        .ok (logic :: rest, vctIL)
      else
        let (logic', ipos) ← pick mapColPos vctIndex logic
        match ipos with
        | none =>
            let (rest, vctIL) ← andLoop mapColPos vctIndex (pos + 1) vctIL rest
            .ok (logic' :: rest, vctIL)
        | some ipos =>
            if vctIL.head?.any fun il => il.2 < ipos then
              let (rest, vctIL) ← andLoop mapColPos vctIndex (pos + 1) vctIL rest
              .ok (logic' :: rest, vctIL)
            else
              let vctIL := if vctIL.head?.any fun il => ipos < il.2 then [] else vctIL
              if logic.isOr then
                .ok (logic' :: rest, if vctIL.isEmpty then [(pos, ipos)] else vctIL)
              else
                let (rest, vctIL) ←
                  andLoop mapColPos vctIndex (pos + 1) (vctIL ++ [(pos, ipos)]) rest
                .ok (logic' :: rest, vctIL)

/-- The loop over the further operands of an OR: whether all of them have the same index. -/
def orLoop (mapColPos : String → Option ℕ) (vctIndex : List (List ℕ)) (idxPos : ℕ) :
    List (ExprLogic V) → Except Stop (List (ExprLogic V) × Bool)
  | [] => .ok ([], true)
  | logic :: rest => do
      let (logic, ipos) ← pick mapColPos vctIndex logic
      if ipos = some idxPos then
        let (rest, same) ← orLoop mapColPos vctIndex idxPos rest
        .ok (logic :: rest, same)
      else
        .ok (logic :: rest, false)

end

/-- What is picked, in the order of the vector, and what is left of the conditions of an AND. -/
def takeOut (vctIL : List (ℕ × ℕ)) (vctChild : List (ExprLogic V)) :
    List (ExprLogic V) × List (ExprLogic V) :=
  (vctIL.reverse.filterMap fun il => vctChild[il.1]?,
    vctIL.reverse.foldl (fun vctChild il => vctChild.eraseIdx il.1) vctChild)

/-- `PickIndexCondition` of the whole condition: the tree it leaves, and the index with the
conditions pushed into the vector if it returns `True`. -/
def pickIndexCondition (mapColPos : String → Option ℕ) (vctIndex : List (List ℕ)) :
    ExprLogic V → Except Stop (ExprLogic V × Option (ℕ × List (ExprLogic V)))
  | and vctChild => do
      let (vctChild, vctIL) ← andLoop mapColPos vctIndex 0 [] vctChild
      match vctIL with
      | [] => .ok (and vctChild, none)
      | (pos, idxPos) :: rest =>
          let (vctExpr, vctChild) := takeOut ((pos, idxPos) :: rest) vctChild
          .ok (and vctChild, some (idxPos, vctExpr))
  | logic => do
      let (logic, ipos) ← pick mapColPos vctIndex logic
      .ok (logic, ipos.map fun idxPos => (idxPos, []))

/-- `CombinedIndexCondition`: the position of the column of an equality in an index. -/
def combinedIndexCondition (mapColPos : String → Option ℕ) (vctCol : List ℕ) :
    ExprLogic V → Except Stop (Option ℕ)
  | comp .EQ (.field colName) _ =>
      .ok ((mapColPos colName).bind fun rowPos => vctCol.findIdx? (· == rowPos))
  | comp .EQ _ _ => .error .nullPointer
  | _ => .ok none

end ExprLogic

end RapidDb
