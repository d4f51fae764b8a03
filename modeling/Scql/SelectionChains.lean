import Scql.PlanSemantics

/-! # Chains of selections

The translator merges a selection with the selection right below it and goes on below both, so
that a chain of selections is left with half its length. The rows stay the same. -/
namespace Scql.Planner

open RowAlgebra List

mutual
/-- A plan whose selections read their conditions through `g`. -/
def readConditions (g : Expr → Expr) : LogicalPlan → LogicalPlan
  | .dataSource ds => .dataSource ds
  | .selection conds aff schema child =>
    .selection (conds.map g) aff schema (readConditions g child)
  | .projection exprs schema child => .projection exprs schema (readConditions g child)
  | .join info schema left right =>
    .join info schema (readConditions g left) (readConditions g right)
  | .apply info schema left right =>
    .apply info schema (readConditions g left) (readConditions g right)
  | .aggregation info schema child => .aggregation info schema (readConditions g child)
  | .unionAll schema children => .unionAll schema (readConditionsList g children)
  | .limit offset count child => .limit offset count (readConditions g child)
  | .sort byItems child => .sort byItems (readConditions g child)
  | .window info schema child => .window info schema (readConditions g child)
  | .maxOneRow child => .maxOneRow (readConditions g child)

def readConditionsList (g : Expr → Expr) : List LogicalPlan → List LogicalPlan
  | [] => []
  | p::ps => readConditions g p::readConditionsList g ps
end
variable {V : Type} [DecidableEq V]

lemma eval_mergeSelection (I : Interp V) (db : Database V) (g : Expr → Expr) (p : LogicalPlan) :
    ∀ env : Row V,
  (readConditions g (mergeSelection p)).eval I db env = (readConditions g p).eval I db env := by
  refine mergeSelection.induct
    (fun p => ∀ env, (readConditions g (mergeSelection p)).eval I db env =
      (readConditions g p).eval I db env)
    (fun ps => ∀ env, LogicalPlan.evals I db (readConditionsList g (mergeSelections ps)) env =
      LogicalPlan.evals I db (readConditionsList g ps) env)
    ?merged ?kept ?_ ?_ ?_ ?_ ?_ ?_ ?_ ?_ ?_ ?_ ?_ ?_ p
  case merged =>
    intro conds aff schema conds' aff' schema' child ih env
    rw [mergeSelection, readConditions, readConditions, readConditions, LogicalPlan.eval,
      LogicalPlan.eval, LogicalPlan.eval, ih, Option.map_map]
    refine congrArg (Option.map · _) (funext fun rows => ?_)
    rw [Function.comp_apply, filter_filter, map_append]
    exact filter_congr fun _ _ => holdsAll_append
  case kept =>
    intro conds aff schema child hchild ih env
    rw [mergeSelection, readConditions, readConditions, LogicalPlan.eval, LogicalPlan.eval, ih]
    exact hchild
  all_goals
    intros
    simp only [mergeSelection, mergeSelections, readConditions, readConditionsList,
      LogicalPlan.eval, LogicalPlan.evals, *]

/-- The number of selections a plan starts with. -/
def topChain : LogicalPlan → ℕ
  | .selection _ _ _ child => topChain child+1
  | _ => 0

mutual
/-- The length of the longest chain of selections. -/
def longestChain : LogicalPlan → ℕ
  | .dataSource _ => 0
  | .selection _ _ _ child => max (topChain child+1) (longestChain child)
  | .projection _ _ child | .aggregation _ _ child | .limit _ _ child | .sort _ child
  | .window _ _ child | .maxOneRow child => longestChain child
  | .join _ _ left right | .apply _ _ left right => max (longestChain left) (longestChain right)
  | .unionAll _ children => longestChains children

def longestChains : List LogicalPlan → ℕ
  | [] => 0
  | p::ps => max (longestChain p) (longestChains ps)
end

lemma topChain_mergeSelection (p : LogicalPlan) : topChain (mergeSelection p) = (topChain p+1)/2 ∧
    longestChain (mergeSelection p) = (longestChain p+1)/2 := by
  refine mergeSelection.induct
    (fun p => topChain (mergeSelection p) = (topChain p+1)/2 ∧
      longestChain (mergeSelection p) = (longestChain p+1)/2)
    (fun ps => longestChains (mergeSelections ps) = (longestChains ps+1)/2)
    ?_ ?kept ?source ?_ ?_ ?_ ?_ ?_ ?_ ?_ ?_ ?_ ?nil ?_ p
  case source => exact fun _ => by simp [mergeSelection, topChain, longestChain]
  case nil => rfl
  case kept =>
    intro conds aff schema child hchild ih
    have htop : topChain child = 0 := by
      cases child with
      | selection => exact absurd rfl (hchild _ _ _ _)
      | _ => rfl
    rw [mergeSelection, topChain, longestChain, topChain, longestChain]
    · omega
    · exact hchild
  all_goals
    intros
    simp only [mergeSelection, mergeSelections, topChain, longestChain, longestChains,
      true_and] at *
    omega

/-- The processed plan has no selection below a selection, and gives the rows of the plan with its
threshold conditions, however these are read. -/
structure MergedOnce (p : LogicalPlan) : Prop where
  single : longestChain (process p) ≤ 1
  rows : ∀ (V : Type) [DecidableEq V] (I : Interp V) (db : Database V) (g : Expr → Expr)
    (env : Row V), (readConditions g (process p)).eval I db env =
      (readConditions g (addThreshold true p)).eval I db env

end Scql.Planner
