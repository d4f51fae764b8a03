import Scql.LogicalPlan

/-! # Rewriting of aggregations

The planner marks one count of every `GROUP BY` as the group size, pushes aggregations below
unions and removes projections; the translator then puts a selection on the marked count. -/
namespace Scql.Planner

inductive PlanError
  | argNotInGroupBy
  deriving DecidableEq

mutual
/-- Mark the columns of an expression as the inner operand of an `in`. -/
def Expr.setColumnInOperand : Expr → Expr
  | .column c => .column {c with inOperand := true}
  | .correlatedColumn c => .correlatedColumn c
  | .constant d => .constant d
  | .scalarFunction f args => .scalarFunction f (Expr.setColumnInOperandList args)

def Expr.setColumnInOperandList : List Expr → List Expr
  | [] => []
  | e::es => e.setColumnInOperand::Expr.setColumnInOperandList es
end

mutual
def Expr.columnSubstitute (subst : List (Column × Expr)) : Expr → Expr
  | .column c =>
    match subst.find? (fun q => q.1.uniqueID = c.uniqueID) with
    | none => .column c
    | some q => if c.inOperand then q.2.setColumnInOperand else q.2
  | .correlatedColumn c => .correlatedColumn c
  | .constant d => .constant d
  | .scalarFunction f args => .scalarFunction f (Expr.columnSubstituteList subst args)

def Expr.columnSubstituteList (subst : List (Column × Expr)) : List Expr → List Expr
  | [] => []
  | e::es => e.columnSubstitute subst::Expr.columnSubstituteList subst es
end

mutual
/-- Put columns, in order, in the place of the columns of an expression. -/
def Expr.refill : Expr → List Column → Expr × List Column
  | .column c, cols => (.column (cols.headD c), cols.tail)
  | .correlatedColumn c, cols => (.correlatedColumn c, cols)
  | .constant d, cols => (.constant d, cols)
  | .scalarFunction f args, cols =>
    let (args, cols) := Expr.refillList args cols
    (.scalarFunction f args, cols)

def Expr.refillList : List Expr → List Column → List Expr × List Column
  | [], cols => ([], cols)
  | e::es, cols =>
    let (e, cols) := e.refill cols
    let (es, cols) := Expr.refillList es cols
    (e::es, cols)
end

mutual
/-- Equality of expressions; columns are compared by their number. -/
def Expr.equal : Expr → Expr → Bool
  | .column c, .column d => c.uniqueID = d.uniqueID
  | .correlatedColumn c, .correlatedColumn d => c.uniqueID = d.uniqueID
  | .constant d, .constant d' => d = d'
  | .scalarFunction f args, .scalarFunction g args' => f = g && Expr.equalList args args'
  | _, _ => false

def Expr.equalList : List Expr → List Expr → Bool
  | [], [] => true
  | e::es, e'::es' => e.equal e' && Expr.equalList es es'
  | _, _ => false
end

def AggInfo.isGroupBy (info : AggInfo) : Bool :=
  !info.groupByItems.isEmpty && !info.producedByDistinct

def markFirstCount : List AggFuncDesc → Option (List AggFuncDesc)
  | [] => none
  | f::fs =>
    if f.name = .Count ∧ f.hasDistinct = false then some ({f with useAsThreshold := true}::fs)
    else (markFirstCount fs).map (f :: ·)

def countOne : AggFuncDesc :=
  {name := .Count, args := [.constant (.int 1)], useAsThreshold := true}

/-- Without a count to mark, a count of the rows is added in a new column. -/
def markAgg (info : AggInfo) (schema : List Column) (next : ℕ) : AggInfo × List Column × ℕ :=
  if info.isGroupBy then
    match markFirstCount info.aggFuncs with
    | some fs => ({info with aggFuncs := fs}, schema, next)
    | none =>
      ({info with aggFuncs := info.aggFuncs ++ [countOne]}, schema ++ [{uniqueID := next+1}],
        next+1)
  else (info, schema, next)

mutual
def markAggCountFunc : LogicalPlan → ℕ → LogicalPlan × ℕ
  | .dataSource ds, next => (.dataSource ds, next)
  | .selection conds aff schema child, next =>
    let (child, next) := markAggCountFunc child next
    (.selection conds aff schema child, next)
  | .projection exprs schema child, next =>
    let (child, next) := markAggCountFunc child next
    (.projection exprs schema child, next)
  | .join info schema left right, next =>
    let (left, next) := markAggCountFunc left next
    let (right, next) := markAggCountFunc right next
    (.join info schema left right, next)
  | .apply info schema left right, next =>
    let (left, next) := markAggCountFunc left next
    let (right, next) := markAggCountFunc right next
    (.apply info schema left right, next)
  | .aggregation info schema child, next =>
    let (child, next) := markAggCountFunc child next
    let (info, schema, next) := markAgg info schema next
    (.aggregation info schema child, next)
  | .unionAll schema children, next =>
    let (children, next) := markAggCountFuncs children next
    (.unionAll schema children, next)
  | .limit offset count child, next =>
    let (child, next) := markAggCountFunc child next
    (.limit offset count child, next)
  | .sort byItems child, next =>
    let (child, next) := markAggCountFunc child next
    (.sort byItems child, next)
  | .window info schema child, next =>
    let (child, next) := markAggCountFunc child next
    (.window info schema child, next)
  | .maxOneRow child, next =>
    let (child, next) := markAggCountFunc child next
    (.maxOneRow child, next)

def markAggCountFuncs : List LogicalPlan → ℕ → List LogicalPlan × ℕ
  | [], next => ([], next)
  | p::ps, next =>
    let (p, next) := markAggCountFunc p next
    let (ps, next) := markAggCountFuncs ps next
    (p::ps, next)
end

/-- The argument of a `first_row` is a constant or one of the group keys. -/
def checkFirstRows (info : AggInfo) : Bool :=
  info.aggFuncs.all (fun f =>
    if f.name = .FirstRow then
      match f.args with
      | [] => true
      | .constant _::_ => true
      | a::_ => info.groupByItems.any a.equal
    else true)

mutual
def checkAggFuncArgInGroupByItems : LogicalPlan → Bool
  | .dataSource _ => true
  | .selection _ _ _ child => checkAggFuncArgInGroupByItems child
  | .projection _ _ child => checkAggFuncArgInGroupByItems child
  | .join _ _ left right =>
    checkAggFuncArgInGroupByItems left && checkAggFuncArgInGroupByItems right
  | .apply _ _ left right =>
    checkAggFuncArgInGroupByItems left && checkAggFuncArgInGroupByItems right
  | .aggregation info _ child => checkAggFuncArgInGroupByItems child && checkFirstRows info
  | .unionAll _ children => checkAggFuncArgsInGroupByItems children
  | .limit _ _ child => checkAggFuncArgInGroupByItems child
  | .sort _ child => checkAggFuncArgInGroupByItems child
  | .window _ _ child => checkAggFuncArgInGroupByItems child
  | .maxOneRow child => checkAggFuncArgInGroupByItems child

def checkAggFuncArgsInGroupByItems : List LogicalPlan → Bool
  | [] => true
  | p::ps => checkAggFuncArgInGroupByItems p && checkAggFuncArgsInGroupByItems ps
end

/-- Whether a function of a union is a function of its values on the branches. -/
def isDecomposable (f : AggFuncDesc) : Bool :=
  match f.name with
  | .Max | .Min | .FirstRow => true
  | .Sum | .Count => !f.hasDistinct
  | _ => false

/-- A clone is never the group size of its aggregation. -/
def AggFuncDesc.clone (f : AggFuncDesc) : AggFuncDesc := {f with useAsThreshold := false}

/-- Split a function into a partial one, with a new column, and one that combines the partial
results. -/
def decompose (acc : List AggFuncDesc × List AggFuncDesc × List Column × ℕ) (f : AggFuncDesc) :
    List AggFuncDesc × List AggFuncDesc × List Column × ℕ :=
  let (finals, partials, schema, next) := acc
  let col : Column := {uniqueID := next+1}
  (finals ++ [{f with args := [.column col], finalMode := true}], partials ++ [f.clone], schema ++
    [col], next+1)

/-- Keep a group column of the pushed aggregation. If a `first_row` of it is there already, the
group column takes the number of that function's column. -/
def addGroupColumn (acc : List AggFuncDesc × List Column × List Column) (g : Column) :
    List AggFuncDesc × List Column × List Column :=
  let (funcs, schema, gbyCols) := acc
  let isFirstRow := fun f : AggFuncDesc =>
    f.name = .FirstRow ∧ f.hasDistinct = false ∧ Expr.equalList [.column g] f.args
  match (funcs.zip schema).find? (fun q => isFirstRow q.1) with
  | some q => (funcs, schema, gbyCols ++ [{g with uniqueID := q.2.uniqueID}])
  | none => (funcs ++ [{name := .FirstRow, args := [.column g]}], schema ++ [g], gbyCols ++ [g])

/-- The aggregation to push below a union and what remains above. -/
structure PushedAgg where
  partialInfo : AggInfo
  partialSchema : List Column
  finalInfo : AggInfo
  next : ℕ

/-- The group columns of the pushed aggregation are those of the union: the column objects are
shared, so a new number shows in both. -/
def makeNewAgg (info : AggInfo) (next : ℕ) : PushedAgg :=
  let gbyCols := info.groupByItems.flatMap (·.extractColumns)
  let (finals, partials, schema, next) := info.aggFuncs.foldl decompose ([], [], [], next)
  let (funcs, schema, renamed) := gbyCols.foldl addGroupColumn (partials, schema, [])
  ⟨{ aggFuncs := funcs, groupByItems := gbyCols.map .column,
     producedByDistinct := info.producedByDistinct}, schema,
   {info with aggFuncs := finals, groupByItems := (Expr.refillList info.groupByItems renamed).1},
   next⟩

/-- The pushed aggregation over the columns of one branch. -/
def pushAggCrossUnion (info : AggInfo) (unionSchema childSchema : List Column) : AggInfo :=
  let subst := unionSchema.zip (childSchema.map Expr.column)
  { info with
    aggFuncs := info.aggFuncs.map (fun f =>
      {f.clone with args := Expr.columnSubstituteList subst f.args})
    groupByItems := Expr.columnSubstituteList subst info.groupByItems}

/-- A projection that only selects as many columns as its child has. -/
def canProjectionBeEliminatedLoose (exprs : List Expr) (schema : List Column)
    (child : LogicalPlan) : Bool :=
  exprs.all (fun e => match e with | .column _ => true | _ => false)
    && schema.length == child.schema.length

/-- An aggregation over a projection, with the projection's expressions put in. -/
def substituteAgg (subst : List (Column × Expr)) (info : AggInfo) : AggInfo :=
  { info with
    aggFuncs := info.aggFuncs.map (fun f =>
      {f with args := Expr.columnSubstituteList subst f.args})
    groupByItems := Expr.columnSubstituteList subst info.groupByItems}

/-- Put the aggregation that is waiting above a plan, if any, on the plan. -/
def placeAgg (above : Option (AggInfo × List Column)) (p : LogicalPlan) : LogicalPlan :=
  match above with
  | none => p
  | some (info, schema) => .aggregation info schema p

mutual
/-- Push aggregations down, top to bottom. `above` is the aggregation right above the plan. -/
def aggPushDown (above : Option (AggInfo × List Column)) : LogicalPlan → ℕ → LogicalPlan × ℕ
  | .dataSource ds, next => (placeAgg above (.dataSource ds), next)
  | .selection conds aff schema child, next =>
    let (child, next) := aggPushDown none child next
    (placeAgg above (.selection conds aff schema child), next)
  | .projection exprs schema child, next =>
    let eliminable := canProjectionBeEliminatedLoose exprs schema child
    let (child', next) := aggPushDown none child next
    match above with
    | some (info, aggSchema) =>
      if eliminable then
        (.aggregation (substituteAgg (schema.zip exprs) info) aggSchema child', next)
      else (.aggregation info aggSchema (.projection exprs schema child'), next)
    | none => (.projection exprs schema child', next)
  | .join info schema left right, next =>
    let (left, next) := aggPushDown none left next
    let (right, next) := aggPushDown none right next
    (placeAgg above (.join info schema left right), next)
  | .apply info schema left right, next =>
    let (left, next) := aggPushDown none left next
    let (right, next) := aggPushDown none right next
    (placeAgg above (.apply info schema left right), next)
  | .aggregation info schema child, next =>
    let (p, next) := aggPushDown (some (info, schema)) child next
    (placeAgg above p, next)
  | .unionAll schema children, next =>
    match above with
    | some (info, aggSchema) =>
      if info.aggFuncs.all isDecomposable then
        let pushed := makeNewAgg info next
        let (children, next) := aggPushDownBranches pushed schema children pushed.next
        (.aggregation pushed.finalInfo aggSchema (.unionAll pushed.partialSchema children), next)
      else
        let (children, next) := aggPushDowns children next
        (.aggregation info aggSchema (.unionAll schema children), next)
    | none =>
      let (children, next) := aggPushDowns children next
      (.unionAll schema children, next)
  | .limit offset count child, next =>
    let (child, next) := aggPushDown none child next
    (placeAgg above (.limit offset count child), next)
  | .sort byItems child, next =>
    let (child, next) := aggPushDown none child next
    (placeAgg above (.sort byItems child), next)
  | .window info schema child, next =>
    let (child, next) := aggPushDown none child next
    (placeAgg above (.window info schema child), next)
  | .maxOneRow child, next =>
    let (child, next) := aggPushDown none child next
    (placeAgg above (.maxOneRow child), next)

def aggPushDowns : List LogicalPlan → ℕ → List LogicalPlan × ℕ
  | [], next => ([], next)
  | p::ps, next =>
    let (p, next) := aggPushDown none p next
    let (ps, next) := aggPushDowns ps next
    (p::ps, next)

/-- Each branch of a union gets the pushed aggregation, which is then pushed on. -/
def aggPushDownBranches (pushed : PushedAgg) (unionSchema : List Column) :
    List LogicalPlan → ℕ → List LogicalPlan × ℕ
  | [], next => ([], next)
  | p::ps, next =>
    let info := pushAggCrossUnion pushed.partialInfo unionSchema p.schema
    let (p, next) := aggPushDown (some (info, pushed.partialSchema)) p next
    let (ps, next) := aggPushDownBranches pushed unionSchema ps next
    (p::ps, next)
end

def aggregationPushDown (p : LogicalPlan) (next : ℕ) : Except PlanError (LogicalPlan × ℕ) :=
  let (p, next) := markAggCountFunc p next
  if checkAggFuncArgInGroupByItems p then .ok (aggPushDown none p next)
  else .error .argNotInGroupBy

/-- Columns of removed projections and the columns they stand for. -/
abbrev ReplaceMap := AList (fun _ : ℕ => Column)

def resolveFrom (replace : ReplaceMap) : ℕ → Column → Column
  | 0, c => c
  | n+1, c =>
    match replace.lookup c.uniqueID with
    | none => c
    | some d => if d.uniqueID = c.uniqueID then c else resolveFrom replace n d

/-- Follow the replacements of a column. A chain has at most as many steps as the map has
entries. The mark of an `in` operand stays with the place. -/
def resolveColumnAndReplace (replace : ReplaceMap) (c : Column) : Column :=
  match replace.lookup c.uniqueID with
  | none => c
  | some d => {resolveFrom replace replace.entries.length d with inOperand := c.inOperand}

mutual
def resolveExprAndReplace (replace : ReplaceMap) : Expr → Expr
  | .column c => .column (resolveColumnAndReplace replace c)
  | .correlatedColumn c => .correlatedColumn (resolveColumnAndReplace replace c)
  | .constant d => .constant d
  | .scalarFunction f args => .scalarFunction f (resolveExprsAndReplace replace args)

def resolveExprsAndReplace (replace : ReplaceMap) : List Expr → List Expr
  | [] => []
  | e::es => resolveExprAndReplace replace e::resolveExprsAndReplace replace es
end

def JoinInfo.replaceExprColumns (replace : ReplaceMap) (info : JoinInfo) : JoinInfo :=
  { info with
    equalConditions := info.equalConditions.map (fun sf =>
      {sf with args := resolveExprsAndReplace replace sf.args})
    leftConditions := resolveExprsAndReplace replace info.leftConditions
    rightConditions := resolveExprsAndReplace replace info.rightConditions
    otherConditions := resolveExprsAndReplace replace info.otherConditions}

def AggInfo.replaceExprColumns (replace : ReplaceMap) (info : AggInfo) : AggInfo :=
  { info with
    aggFuncs := info.aggFuncs.map (fun f =>
      {f with args := resolveExprsAndReplace replace f.args})
    groupByItems := resolveExprsAndReplace replace info.groupByItems}

/-- The columns of a join that are used above it; one column is always kept. -/
def buildLogicalJoinSchema (tp : JoinType) (schema : List Column) (left right : LogicalPlan) :
    List Column :=
  match tp with
  | .SemiJoin | .AntiSemiJoin => left.schema
  | .LeftOuterSemiJoin | .AntiLeftOuterSemiJoin => left.schema ++ schema.getLast?.toList
  | _ =>
    let merged := left.schema ++ right.schema
    if schema.isEmpty then merged.head?.toList
    else merged.filter (fun c => c.uniqueID ∈ schema.map (·.uniqueID))

mutual
def Expr.exprHasSetVarOrSleep : Expr → Bool
  | .scalarFunction f args => f = .other "setvar" || f = .other "sleep" || exprsHasSideEffects args
  | _ => false

def exprsHasSideEffects : List Expr → Bool
  | [] => false
  | e :: es => e.exprHasSetVarOrSleep || exprsHasSideEffects es
end

mutual
def Expr.replaceColumnOfExpr (subst : List (Column × Expr)) : Expr → Expr
  | .column c => ((subst.find? (fun q => q.1.uniqueID = c.uniqueID)).map (·.2)).getD (.column c)
  | .correlatedColumn c => .correlatedColumn c
  | .constant d => .constant d
  | .scalarFunction f args => .scalarFunction f (replaceColumnOfExprs subst args)

def replaceColumnOfExprs (subst : List (Column × Expr)) : List Expr → List Expr
  | [] => []
  | e :: es => e.replaceColumnOfExpr subst :: replaceColumnOfExprs subst es
end

/-- The expressions of a projection whose child is a projection refer to the child's child. -/
def mergeProjection (exprs : List Expr) (schema : List Column) : LogicalPlan → LogicalPlan
  | .projection inner innerSchema child =>
    if exprsHasSideEffects inner then .projection exprs schema (.projection inner innerSchema child)
    else .projection (replaceColumnOfExprs (innerSchema.zip inner) exprs) schema child
  | child => .projection exprs schema child

def dropProjection (canEliminate : Bool) (replace : ReplaceMap) :
    LogicalPlan → LogicalPlan × ReplaceMap
  | .projection exprs schema child =>
    if canEliminate && canProjectionBeEliminatedLoose exprs schema child then
      (child, (schema.zip exprs).foldl (fun m q =>
        match q.2 with
        | .column c => m.insert q.1.uniqueID c
        | _ => m) replace)
    else (.projection exprs schema child, replace)
  | p => (p, replace)

mutual
def eliminate (canEliminate : Bool) : LogicalPlan → ReplaceMap → LogicalPlan × ReplaceMap
  | .dataSource ds, replace =>
    (.dataSource {ds with schema := ds.schema.map (resolveColumnAndReplace replace)}, replace)
  | .selection conds aff schema child, replace =>
    let (child, replace) := eliminate canEliminate child replace
    (.selection (resolveExprsAndReplace replace conds) aff
      (schema.map (resolveColumnAndReplace replace)) child, replace)
  | .projection exprs schema child, replace =>
    let (child, replace) := eliminate true child replace
    dropProjection canEliminate replace (mergeProjection (resolveExprsAndReplace replace exprs)
      (schema.map (resolveColumnAndReplace replace)) child)
  | .join info schema left right, replace =>
    let (left, replace) := eliminate canEliminate left replace
    let (right, replace) := eliminate canEliminate right replace
    (.join (info.replaceExprColumns replace)
      (buildLogicalJoinSchema info.joinType schema left right) left right, replace)
  | .apply info schema left right, replace =>
    let (left, replace) := eliminate canEliminate left replace
    let (right, replace) := eliminate canEliminate right replace
    (.apply (info.replaceExprColumns replace)
      (buildLogicalJoinSchema info.joinType schema left right) left right, replace)
  | .aggregation info schema child, replace =>
    let (child, replace) := eliminate true child replace
    (.aggregation (info.replaceExprColumns replace)
      (schema.map (resolveColumnAndReplace replace)) child, replace)
  | .unionAll schema children, replace =>
    let (children, replace) := eliminates children replace
    (.unionAll (schema.map (resolveColumnAndReplace replace)) children, replace)
  | .limit offset count child, replace =>
    let (child, replace) := eliminate canEliminate child replace
    (.limit offset count child, replace)
  | .sort byItems child, replace =>
    let (child, replace) := eliminate canEliminate child replace
    (.sort (byItems.map (fun i => (resolveExprAndReplace replace i.1, i.2))) child, replace)
  | .window info schema child, replace =>
    let (child, replace) := eliminate canEliminate child replace
    (.window info (schema.map (resolveColumnAndReplace replace)) child, replace)
  | .maxOneRow child, replace =>
    let (child, replace) := eliminate canEliminate child replace
    (.maxOneRow child, replace)

def eliminates : List LogicalPlan → ReplaceMap → List LogicalPlan × ReplaceMap
  | [], replace => ([], replace)
  | p::ps, replace =>
    let (p, replace) := eliminate false p replace
    let (ps, replace) := eliminates ps replace
    (p::ps, replace)
end

def eliminateProjections (p : LogicalPlan) : LogicalPlan := (eliminate false p ∅).1

def markColumns (info : AggInfo) (schema : List Column) : List Column :=
  schema.zipIdx.map (fun q =>
    if (info.aggFuncs[q.2]?).any (·.useAsThreshold) then {q.1 with useAsThreshold := true}
    else q.1)

/-- A selection on the marked count. Each marked function replaces the selection made for an
earlier one. -/
def protectAgg (info : AggInfo) (schema : List Column) (child : LogicalPlan) : LogicalPlan :=
  let schema := markColumns info schema
  match ((schema.zip info.aggFuncs).filter (·.2.useAsThreshold)).getLast? with
  | none => .aggregation info schema child
  | some q => .selection [.column q.1] false schema (.aggregation info schema child)

mutual
/-- Add the selections on the group sizes. The root has no parent to hang a selection on. -/
def addThreshold (isRoot : Bool) : LogicalPlan → LogicalPlan
  | .dataSource ds => .dataSource ds
  | .selection conds aff schema child => .selection conds aff schema (addThreshold false child)
  | .projection exprs schema child => .projection exprs schema (addThreshold false child)
  | .join info schema left right =>
    .join info schema (addThreshold false left) (addThreshold false right)
  | .apply info schema left right =>
    .apply info schema (addThreshold false left) (addThreshold false right)
  | .aggregation info schema child =>
    if isRoot then .aggregation info schema (addThreshold false child)
    else protectAgg info schema (addThreshold false child)
  | .unionAll schema children => .unionAll schema (addThresholds children)
  | .limit offset count child => .limit offset count (addThreshold false child)
  | .sort byItems child => .sort byItems (addThreshold false child)
  | .window info schema child => .window info schema (addThreshold false child)
  | .maxOneRow child => .maxOneRow (addThreshold false child)

def addThresholds : List LogicalPlan → List LogicalPlan
  | [] => []
  | p::ps => addThreshold false p::addThresholds ps
end

mutual
/-- Merge a selection with a selection right below it, once, and go on below. -/
def mergeSelection : LogicalPlan → LogicalPlan
  | .selection conds aff schema (.selection conds' _ _ child) =>
    .selection (conds ++ conds') aff schema (mergeSelection child)
  | .selection conds aff schema child => .selection conds aff schema (mergeSelection child)
  | .dataSource ds => .dataSource ds
  | .projection exprs schema child => .projection exprs schema (mergeSelection child)
  | .join info schema left right => .join info schema (mergeSelection left) (mergeSelection right)
  | .apply info schema left right => .apply info schema (mergeSelection left) (mergeSelection right)
  | .aggregation info schema child => .aggregation info schema (mergeSelection child)
  | .unionAll schema children => .unionAll schema (mergeSelections children)
  | .limit offset count child => .limit offset count (mergeSelection child)
  | .sort byItems child => .sort byItems (mergeSelection child)
  | .window info schema child => .window info schema (mergeSelection child)
  | .maxOneRow child => .maxOneRow (mergeSelection child)

def mergeSelections : List LogicalPlan → List LogicalPlan
  | [] => []
  | p::ps => mergeSelection p::mergeSelections ps
end

/-- What the translator does to a plan before it builds its nodes. -/
def process (p : LogicalPlan) : LogicalPlan := mergeSelection (addThreshold true p)

end Scql.Planner
