import Scql.ColumnControl

/-! # Logical plans

Expressions and operator trees as the planner hands them to the translator. A column is
identified by its unique number; a source column carries its full name. -/
namespace Scql.Planner

open ColumnControl

structure Column where
  uniqueID : ℕ
  origName : String := ""
  /-- Set on the count column a group size threshold is applied to. -/
  useAsThreshold : Bool := false
  /-- The inner operand of an equality made from `[not] in (subquery)`. -/
  inOperand : Bool := false
  deriving DecidableEq

/-- Function names the code tells apart; the rest are `other`. -/
inductive FuncName
  | GT | GE | LT | LE | EQ | NE | GeoDist | Trim | Upper | Lower
  | other (name : String)
  deriving DecidableEq

inductive Datum
  | null
  | int (v : ℤ)
  | string (v : String)
  deriving DecidableEq

inductive Expr
  | column (c : Column)
  | correlatedColumn (c : Column)
  | constant (d : Datum)
  | scalarFunction (f : FuncName) (args : List Expr)

structure ScalarFunction where
  funcName : FuncName
  args : List Expr

def ScalarFunction.toExpr (sf : ScalarFunction) : Expr := .scalarFunction sf.funcName sf.args

mutual
def Expr.extractColumns : Expr → List Column
  | .column c => [c]
  | .correlatedColumn _ => []
  | .constant _ => []
  | .scalarFunction _ args => Expr.extractColumnsList args

def Expr.extractColumnsList : List Expr → List Column
  | [] => []
  | e::es => e.extractColumns ++ Expr.extractColumnsList es
end

inductive JoinType
  | InnerJoin | LeftOuterJoin | RightOuterJoin | SemiJoin | AntiSemiJoin | LeftOuterSemiJoin
  | AntiLeftOuterSemiJoin
  deriving DecidableEq

inductive AggName
  | Count | Sum | Avg | Max | Min | FirstRow | PercentileDisc
  | other (name : String)
  deriving DecidableEq

structure AggFuncDesc where
  name : AggName
  args : List Expr
  hasDistinct : Bool := false
  useAsThreshold : Bool := false
  /-- The function combines partial results. -/
  finalMode : Bool := false

inductive WindowName
  | RowNumber | PercentRank | Rank
  | other (name : String)
  deriving DecidableEq

structure SortItem where
  col : Column
  desc : Bool := false
  deriving DecidableEq

/-- A table scan: `dbTable` names the table, the columns carry their full names. -/
structure DataSource where
  dbTable : String
  schema : List Column
  deriving DecidableEq

structure JoinInfo where
  joinType : JoinType
  equalConditions : List ScalarFunction
  leftConditions : List Expr := []
  rightConditions : List Expr := []
  otherConditions : List Expr := []

structure AggInfo where
  aggFuncs : List AggFuncDesc
  groupByItems : List Expr
  producedByDistinct : Bool := false

def AggInfo.getGroupByCols (info : AggInfo) : List Column :=
  info.groupByItems.filterMap (fun
    | .column c => some c
    | _ => none)

structure WindowInfo where
  windowFuncDescs : List WindowName
  partitionBy : List SortItem
  orderBy : List SortItem

inductive LogicalPlan
  | dataSource (ds : DataSource)
  | selection (conditions : List Expr) (affectedByGroupThreshold : Bool) (schema : List Column)
      (child : LogicalPlan)
  | projection (exprs : List Expr) (schema : List Column) (child : LogicalPlan)
  | join (info : JoinInfo) (schema : List Column) (left right : LogicalPlan)
  | apply (info : JoinInfo) (schema : List Column) (left right : LogicalPlan)
  | aggregation (info : AggInfo) (schema : List Column) (child : LogicalPlan)
  | unionAll (schema : List Column) (children : List LogicalPlan)
  | limit (offset count : ℕ) (child : LogicalPlan)
  | sort (byItems : List (Expr × Bool)) (child : LogicalPlan)
  | window (info : WindowInfo) (schema : List Column) (child : LogicalPlan)
  | maxOneRow (child : LogicalPlan)

namespace LogicalPlan

/-- Operators without a schema of their own show the one of their child. -/
def schema : LogicalPlan → List Column
  | dataSource ds => ds.schema
  | selection _ _ schema _ => schema
  | projection _ schema _ => schema
  | join _ schema _ _ => schema
  | apply _ schema _ _ => schema
  | aggregation _ schema _ => schema
  | unionAll schema _ => schema
  | limit _ _ child => child.schema
  | sort _ child => child.schema
  | window _ schema _ => schema
  | maxOneRow child => child.schema

def ids (p : LogicalPlan) : List ℕ := p.schema.map (·.uniqueID)

@[elab_as_elim] lemma induct {motive : LogicalPlan → Prop}
  (dataSource : ∀ ds, motive (dataSource ds)) (selection : ∀ conds aff schema child, motive child →
    motive (selection conds aff schema child))
  (projection : ∀ exprs schema child, motive child → motive (projection exprs schema child))
  (join : ∀ info schema left right, motive left → motive right →
    motive (join info schema left right))
  (apply : ∀ info schema left right, motive left → motive right →
    motive (apply info schema left right))
  (aggregation : ∀ info schema child, motive child → motive (aggregation info schema child))
  (unionAll : ∀ schema children, (∀ c ∈ children, motive c) → motive (unionAll schema children))
  (limit : ∀ offset count child, motive child → motive (limit offset count child))
  (sort : ∀ byItems child, motive child → motive (sort byItems child))
  (window : ∀ info schema child, motive child → motive (window info schema child))
  (maxOneRow : ∀ child, motive child → motive (maxOneRow child)) (p : LogicalPlan) : motive p := by
  refine @LogicalPlan.rec motive (fun cs => ∀ c ∈ cs, motive c)
    dataSource selection projection join apply aggregation unionAll limit sort window maxOneRow
    (by simp) ?_ p
  intro c cs hc hcs c' hc'
  rcases List.mem_cons.mp hc' with rfl | hmem
  · exact hc
  · exact hcs c' hmem

end LogicalPlan
end Scql.Planner
