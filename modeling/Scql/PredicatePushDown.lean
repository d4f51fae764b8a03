import Scql.PlanSemantics

/-! # Predicate push-down

The rule of the planner that moves conditions towards the tables. A node gets the conditions of
the nodes above it, keeps or passes on what it can, and returns the rest together with the new
node. New columns are numbered from a counter that holds the last number given out. -/
namespace Scql.Planner

/-- The bytes of a hash code. A correlated column has the code of a column, and the arguments of
a function are not delimited. -/
inductive HashToken
  | column (id : ℕ)
  | constant (d : Datum)
  | function (f : FuncName)
  deriving DecidableEq

mutual
def Expr.hashCode : Expr → List HashToken
  | .column c => [.column c.uniqueID]
  | .correlatedColumn c => [.column c.uniqueID]
  | .constant d => [.constant d]
  | .scalarFunction f args => .function f::Expr.hashCodes args

def Expr.hashCodes : List Expr → List HashToken
  | [] => []
  | e::es => e.hashCode ++ Expr.hashCodes es
end

def removeDupFrom : List (List HashToken) → List Expr → List Expr
  | _, [] => []
  | seen, e::es =>
    if e.hashCode ∈ seen then removeDupFrom seen es
    else e::removeDupFrom (e.hashCode::seen) es

def removeDupExprs (es : List Expr) : List Expr := removeDupFrom [] es

def schemaContains (schema : List Column) (c : Column) : Bool :=
  schema.any (fun d => d.uniqueID = c.uniqueID)

def exprFromSchema (schema : List Column) (e : Expr) : Bool :=
  e.extractColumns.all (schemaContains schema)

/-- The groups a join divides conditions into. `own` are the conditions appended to the join's
own conditions on the side that may have no match. -/
structure OnConditions where
  equal : List ScalarFunction := []
  left : List Expr := []
  right : List Expr := []
  other : List Expr := []
  own : List Expr := []

/-- Conditions without columns go down according to the type of the join. -/
def OnConditions.pushDownConstExpr (tp : JoinType) (e : Expr) (on : OnConditions) :
    OnConditions :=
  match tp with
  | .LeftOuterJoin | .LeftOuterSemiJoin | .AntiLeftOuterSemiJoin =>
    {on with left := e::on.left, own := e::on.own}
  | .RightOuterJoin => {on with right := e::on.right, own := e::on.own}
  | .SemiJoin | .InnerJoin | .AntiSemiJoin =>
    {on with left := e::on.left, right := e::on.right}

/-- An equality of a column of each side, the left one first. -/
def columnEquality (left right : List Column) : Expr → Option ScalarFunction
  | .scalarFunction f [.column a, .column b] =>
    let (a, b) := if schemaContains left a && schemaContains right b then (a, b) else (b, a)
    if schemaContains left a && schemaContains right b && f = .EQ && !a.inOperand && !b.inOperand
    then some {funcName := .EQ, args := [.column a, .column b]} else none
  | _ => none

def extractOnCondition (tp : JoinType) (left right : List Column) : List Expr → OnConditions
  | [] => {}
  | e::es =>
    let on := extractOnCondition tp left right es
    match columnEquality left right e with
    | some sf => {on with equal := sf::on.equal}
    | none =>
      if e.extractColumns.isEmpty then on.pushDownConstExpr tp e
      else if exprFromSchema right e then {on with right := e::on.right}
      else if exprFromSchema left e then {on with left := e::on.left}
      else {on with other := e::on.other}

/-- What a join does with the conditions it gets: `ret` goes back up, `leftCond` and `rightCond`
go down, `info` is the join that remains. -/
structure PushedConditions where
  ret : List Expr := []
  leftCond : List Expr
  rightCond : List Expr
  info : JoinInfo

def JoinInfo.pushConditions (info : JoinInfo) (left right : List Column) (preds : List Expr) :
    PushedConditions :=
  match info.joinType with
  | .LeftOuterJoin | .LeftOuterSemiJoin | .AntiLeftOuterSemiJoin =>
    let on := extractOnCondition info.joinType left right preds
    { ret := on.equal.map ScalarFunction.toExpr ++ on.other ++ on.right
      leftCond := on.left
      rightCond := info.rightConditions ++ on.own
      info := {info with rightConditions := []}}
  | .RightOuterJoin =>
    let on := extractOnCondition info.joinType left right preds
    { ret := on.equal.map ScalarFunction.toExpr ++ on.other ++ on.left
      leftCond := info.leftConditions ++ on.own
      rightCond := on.right
      info := {info with leftConditions := []}}
  | .SemiJoin | .InnerJoin =>
    let on := extractOnCondition info.joinType left right
      (info.leftConditions ++ info.rightConditions ++
        info.equalConditions.map ScalarFunction.toExpr ++ info.otherConditions ++ preds)
    { leftCond := on.left
      rightCond := on.right
      info := { info with
        leftConditions := [], rightConditions := []
        equalConditions := on.equal, otherConditions := on.other}}
  | .AntiSemiJoin =>
    let on := extractOnCondition info.joinType left right preds
    { leftCond := on.left
      rightCond := info.rightConditions ++ on.right
      info := {info with rightConditions := []}}

def addSelection (child : LogicalPlan) (conds : List Expr) : LogicalPlan :=
  if conds.isEmpty then child else .selection conds false child.schema child

/-- The sides of an equality whose arguments come from one side each. -/
def joinKeys (left right : List Column) (e : Expr) : Option (Expr × Expr) :=
  match e with
  | .scalarFunction .EQ [a, b] =>
    if isEQCondFromIn e then none
    else if exprFromSchema left a && exprFromSchema right b then some (a, b)
    else if exprFromSchema right a && exprFromSchema left b then some (b, a)
    else none
  | _ => none

def Expr.isColumn : Expr → Bool
  | .column _ => true
  | _ => false

structure Proj where
  exprs : List Expr
  schema : List Column
  child : LogicalPlan

def Proj.plan (p : Proj) : LogicalPlan := .projection p.exprs p.schema p.child

/-- The child itself if it is a projection, or a new one that passes all its columns. -/
def getProj : LogicalPlan → Proj
  | .projection exprs schema child => {exprs, schema, child}
  | child => {exprs := child.schema.map .column, schema := child.schema, child}

/-- Compute an expression in a new column, unless it is a column. -/
def Proj.appendExpr (p : Proj) (next : ℕ) : Expr → Expr × Proj × ℕ
  | .column c => (.column c, p, next)
  | e =>
    let col : Column := {uniqueID := next+1}
    (.column col, { p with
      exprs := p.exprs ++ [e.columnSubstitute (p.schema.zip p.exprs)]
      schema := p.schema ++ [col]}, next+1)

/-- A side without a projection has only columns as keys. -/
def appendKey (proj : Option Proj) (next : ℕ) (key : Expr) : Expr × Option Proj × ℕ :=
  match proj with
  | none => (key, none, next)
  | some p =>
    let (key, p, next) := p.appendExpr next key
    (key, some p, next)

def appendKeys (lProj rProj : Option Proj) (next : ℕ) :
    List (Expr × Expr) → List ScalarFunction × Option Proj × Option Proj × ℕ
  | [] => ([], lProj, rProj, next)
  | (lKey, rKey)::keys =>
    let (lKey, lProj, next) := appendKey lProj next lKey
    let (rKey, rProj, next) := appendKey rProj next rKey
    let (eqs, lProj, rProj, next) := appendKeys lProj rProj next keys
    ({funcName := .EQ, args := [lKey, rKey]}::eqs, lProj, rProj, next)

/-- A projection is needed on a side with a key that is not a column. -/
def keyProj (child : LogicalPlan) (keys : List Expr) : Option Proj :=
  if keys.all Expr.isColumn then none else some (getProj child)

def sidePlan (child : LogicalPlan) (proj : Option Proj) : LogicalPlan :=
  (proj.map Proj.plan).getD child

/-- Move the equalities of the remaining conditions to the equal conditions, the last one
first. -/
def updateEQCond (info : JoinInfo) (left right : LogicalPlan) (next : ℕ) :
    JoinInfo × LogicalPlan × LogicalPlan × ℕ :=
  let keys := info.otherConditions.reverse.filterMap (joinKeys left.schema right.schema)
  let (eqs, lProj, rProj, next) := appendKeys (keyProj left (keys.map (·.1)))
    (keyProj right (keys.map (·.2))) next keys
  ({ info with
      otherConditions := info.otherConditions.filter
        (fun e => (joinKeys left.schema right.schema e).isNone)
      equalConditions := info.equalConditions ++ eqs},
    sidePlan left lProj, sidePlan right rProj, next)

/-- Conditions that are left at an inner or outer join are applied above it. -/
def JoinInfo.remaining (info : JoinInfo) : List Expr :=
  info.otherConditions ++ info.leftConditions ++ info.rightConditions

def JoinInfo.withoutRemaining (info : JoinInfo) : JoinInfo :=
  {info with otherConditions := [], leftConditions := [], rightConditions := []}

/-- `mk` builds the join itself, or the apply it is part of; under a selection it is always a
join. -/
def finishJoin (mk : JoinInfo → List Column → LogicalPlan → LogicalPlan → LogicalPlan)
    (info : JoinInfo) (schema : List Column) (left right : LogicalPlan) : LogicalPlan :=
  let schema := buildLogicalJoinSchema info.joinType schema left right
  match info.joinType with
  | .InnerJoin | .LeftOuterJoin | .RightOuterJoin =>
    if info.remaining.isEmpty then mk info schema left right
    else .selection info.remaining false schema (.join info.withoutRemaining schema left right)
  | _ => mk info schema left right

def AggInfo.arguments (info : AggInfo) : List Expr :=
  info.aggFuncs.map (fun f => f.args.headD (.constant .null))

/-- The conditions that go below an aggregation and those that stay above it. -/
def AggInfo.pushConditions (info : AggInfo) (schema : List Column) :
    List Expr → List Expr × List Expr
  | [] => ([], [])
  | e::es =>
    let (push, ret) := info.pushConditions schema es
    match e with
    | .constant d => (.constant d::push, .constant d::ret)
    | .scalarFunction f args =>
      if exprFromSchema info.getGroupByCols (.scalarFunction f args) then
        (Expr.columnSubstitute (schema.zip info.arguments) (.scalarFunction f args)::push, ret)
      else (push, .scalarFunction f args::ret)
    | e => (push, e::ret)

def WindowInfo.pushes (info : WindowInfo) (e : Expr) : Bool :=
  exprFromSchema (info.partitionBy.map (·.col)) e

/-- A selection that keeps conditions also keeps the child it had: of a join that came back under
a new selection it keeps the join. -/
def keptChild : LogicalPlan → LogicalPlan → LogicalPlan
  | .join _ _ _ _, .selection _ _ _ p => p
  | .apply _ _ _ _, .selection _ _ _ (.join info schema left right) =>
    .apply info schema left right
  | _, p => p

mutual
/-- The conditions a node could not take, the new node and the new counter. -/
def predicatePushDown : LogicalPlan → List Expr → ℕ → List Expr × LogicalPlan × ℕ
  | .dataSource ds, preds, next => (preds, .dataSource ds, next)
  | .selection conds aff schema child, preds, next =>
    let (ret, child', next) := predicatePushDown child (conds ++ preds) next
    ([], if ret.isEmpty then child' else .selection ret aff schema (keptChild child child'), next)
  | .projection exprs schema child, preds, next =>
    let (ret, child, next) := predicatePushDown child
      (preds.map (Expr.columnSubstitute (schema.zip exprs))) next
    ([], .projection exprs schema (addSelection child ret), next)
  | .join info schema left right, preds, next =>
    let pushed := info.pushConditions left.schema right.schema preds
    let (leftRet, left, next) := predicatePushDown left (removeDupExprs pushed.leftCond) next
    let (rightRet, right, next) := predicatePushDown right (removeDupExprs pushed.rightCond) next
    let (info, left, right, next) :=
      updateEQCond pushed.info (addSelection left leftRet) (addSelection right rightRet) next
    (pushed.ret, finishJoin .join info schema left right, next)
  | .apply info schema left right, preds, next =>
    let pushed := info.pushConditions left.schema right.schema preds
    let (leftRet, left, next) := predicatePushDown left (removeDupExprs pushed.leftCond) next
    let (rightRet, right, next) := predicatePushDown right (removeDupExprs pushed.rightCond) next
    let (info, left, right, next) :=
      updateEQCond pushed.info (addSelection left leftRet) (addSelection right rightRet) next
    (pushed.ret, finishJoin .apply info schema left right, next)
  | .aggregation info schema child, preds, next =>
    let (push, keep) := info.pushConditions schema preds
    let (ret, child, next) := predicatePushDown child push next
    (keep, .aggregation info schema (addSelection child ret), next)
  | .unionAll schema children, preds, next =>
    let (children, next) := predicatePushDowns children preds next
    ([], .unionAll schema children, next)
  | .limit offset count child, preds, next =>
    let (ret, child, next) := predicatePushDown child preds next
    ([], .limit offset count (addSelection child ret), next)
  | .sort byItems child, preds, next =>
    let (ret, child, next) := predicatePushDown child preds next
    ([], .sort byItems (addSelection child ret), next)
  | .window info schema child, preds, next =>
    let (ret, child, next) := predicatePushDown child (preds.filter info.pushes) next
    (preds.filter (fun e => !info.pushes e), .window info schema (addSelection child ret), next)
  | .maxOneRow child, preds, next =>
    let (ret, child, next) := predicatePushDown child preds next
    ([], .maxOneRow (addSelection child ret), next)

def predicatePushDowns : List LogicalPlan → List Expr → ℕ → List LogicalPlan × ℕ
  | [], _, next => ([], next)
  | p::ps, preds, next =>
    let (ret, p, next) := predicatePushDown p preds next
    let (ps, next) := predicatePushDowns ps preds next
    (addSelection p ret::ps, next)
end

def ppdSolver (p : LogicalPlan) (next : ℕ) : LogicalPlan := (predicatePushDown p [] next).2.1

end Scql.Planner
