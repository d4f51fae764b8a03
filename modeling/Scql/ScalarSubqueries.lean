import Scql.PlanSemantics

/-! # Subqueries used as a value

After the optimizing rules the planner checks that below every node that allows one row stands an
aggregation, or a projection of one. The check looks for columns among the group keys, accepts the
node when it finds one, and does not look below the projection. -/
namespace Scql.Planner

namespace LogicalPlan

def tp : LogicalPlan → String
  | dataSource _ => "TableScan"
  | selection .. => "Selection"
  | projection .. => "Projection"
  | join .. => "Join"
  | apply .. => "Apply"
  | aggregation .. => "Aggregation"
  | unionAll .. => "Union"
  | limit .. => "Limit"
  | sort .. => "Sort"
  | window .. => "Window"
  | maxOneRow _ => "MaxOneRow"

mutual
def maxOneRowCheck : LogicalPlan → Except String Unit
  | dataSource _ => .ok ()
  | selection _ _ _ child => maxOneRowCheck child
  | projection _ _ child => maxOneRowCheck child
  | join _ _ left right => do maxOneRowCheck left; maxOneRowCheck right
  | apply _ _ left right => do maxOneRowCheck left; maxOneRowCheck right
  | aggregation _ _ child => maxOneRowCheck child
  | unionAll _ children => maxOneRowChecks children
  | limit _ _ child => maxOneRowCheck child
  | sort _ child => maxOneRowCheck child
  | window _ _ child => maxOneRowCheck child
  | maxOneRow (aggregation info _ child) =>
    if info.getGroupByCols.length > 0 then .ok () else maxOneRowCheck child
  | maxOneRow (projection _ _ (aggregation ..)) => .ok ()
  | maxOneRow (projection _ _ child) =>
    .error s!"child node of Projection must be Aggregation, but got {child.tp}"
  | maxOneRow child =>
    .error s!"child node of MaxOneRow must be Aggregation or Projection, but got {child.tp}"

def maxOneRowChecks : List LogicalPlan → Except String Unit
  | [] => .ok ()
  | p::ps => do maxOneRowCheck p; maxOneRowChecks ps
end

/-- The rules in the order of the list, then the check. -/
def logicalOptimize (rules : List (LogicalPlan → Except String LogicalPlan)) (logic : LogicalPlan) :
    Except String LogicalPlan := do
  let logic ← rules.foldlM (fun logic rule => rule logic) logic
  maxOneRowCheck logic
  return logic

mutual
/-- The plans below the nodes that allow one row, at any depth. -/
def subqueries : LogicalPlan → List LogicalPlan
  | dataSource _ => []
  | selection _ _ _ child => child.subqueries
  | projection _ _ child => child.subqueries
  | join _ _ left right => left.subqueries ++ right.subqueries
  | apply _ _ left right => left.subqueries ++ right.subqueries
  | aggregation _ _ child => child.subqueries
  | unionAll _ children => subqueriesList children
  | limit _ _ child => child.subqueries
  | sort _ child => child.subqueries
  | window _ _ child => child.subqueries
  | maxOneRow child => child::child.subqueries

def subqueriesList : List LogicalPlan → List LogicalPlan
  | [] => []
  | p::ps => p.subqueries ++ subqueriesList ps
end

def Aggregates : LogicalPlan → Prop
  | aggregation .. => True
  | projection _ _ (aggregation ..) => True
  | _ => False

/-- No group key. The check does not look below a projection, where further subqueries have to be
aggregations as well. -/
def Ungrouped : LogicalPlan → Prop
  | aggregation info _ _ => info.groupByItems = []
  | projection _ _ (aggregation info _ child) =>
    info.groupByItems = [] ∧ ∀ c ∈ child.subqueries, c.Aggregates
  | _ => True

def Single (V : Type) [DecidableEq V] (p : LogicalPlan) : Prop :=
  ∀ (I : Interp V) (db : Database V) (env : Row V) (rows : List (Row V)),
    p.eval I db env = some rows → rows.length ≤ 1

variable {V : Type} [DecidableEq V]

lemma single_aggregation {info : AggInfo} (h : info.groupByItems = []) (schema : List Column)
  (child : LogicalPlan) : Single V (aggregation info schema child) := by
  intro I db env rows hrows
  rw [eval, Option.map_eq_some_iff] at hrows
  obtain ⟨below, -, rfl⟩ := hrows
  simp [aggregateRows, h]

lemma Single.projection {child : LogicalPlan} (h : Single V child) (exprs : List Expr)
  (schema : List Column) : Single V (projection exprs schema child) := by
  intro I db env rows hrows
  rw [eval, Option.map_eq_some_iff] at hrows
  obtain ⟨below, hbelow, rfl⟩ := hrows
  rw [List.length_map]
  exact h I db env below hbelow

lemma single_of_aggregates {p : LogicalPlan} (h : p.Aggregates) (hungrouped : p.Ungrouped) :
    Single V p := by
  cases p with
  | aggregation info schema child => exact single_aggregation hungrouped schema child
  | projection exprs schema child =>
    cases child with
    | aggregation info schema' child =>
      exact (single_aggregation hungrouped.1 schema' child).projection exprs schema
    | _ => cases h
  | _ => cases h

/-- What the check finds below a node that allows one row. -/
lemma maxOneRowCheck_maxOneRow {child : LogicalPlan}
    (h : maxOneRowCheck (maxOneRow child) = .ok ()) (hungrouped : child.Ungrouped) :
    child.Aggregates ∧
      ((∀ c ∈ child.subqueries, c.Aggregates) ∨ maxOneRowCheck child = .ok ()) := by
  cases child with
  | aggregation info schema child =>
    refine ⟨trivial, .inr ?_⟩
    rw [Ungrouped] at hungrouped
    simpa [maxOneRowCheck, AggInfo.getGroupByCols, hungrouped] using h
  | projection exprs schema child =>
    cases child with
    | aggregation info schema' child => exact ⟨trivial, .inl hungrouped.2⟩
    | _ => cases h
  | _ => cases h

lemma forall_append_of_checks {x y : Except String Unit} {l k : List LogicalPlan}
    {P Q : LogicalPlan → Prop}
  (hl : x = .ok () → (∀ c ∈ l, P c) → ∀ c ∈ l, Q c)
  (hk : y = .ok () → (∀ c ∈ k, P c) → ∀ c ∈ k, Q c) :
  (do x; y) = .ok () → (∀ c ∈ l ++ k, P c) → ∀ c ∈ l ++ k, Q c := by
  intro h
  obtain ⟨_, hx, hy⟩ := Fallible.bind_eq_ok.mp h
  simp only [List.forall_mem_append]
  exact fun ⟨hpl, hpk⟩ => ⟨hl hx hpl, hk hy hpk⟩

lemma single_of_maxOneRowCheck (p : LogicalPlan) : maxOneRowCheck p = .ok () →
  (∀ c ∈ p.subqueries, c.Ungrouped) → ∀ c ∈ p.subqueries, Single V c := by
  induction p using induct with
  | dataSource => simp [subqueries]
  | selection _ _ _ _ ih | projection _ _ _ ih | aggregation _ _ _ ih | limit _ _ _ ih
  | sort _ _ ih | window _ _ _ ih => exact ih
  | join _ _ _ _ ihl ihr | apply _ _ _ _ ihl ihr => exact forall_append_of_checks ihl ihr
  | unionAll _ children ih =>
    change maxOneRowChecks children = .ok () → _
    simp only [subqueries]
    induction children with
    | nil => simp [subqueriesList]
    | cons p ps ihs =>
      exact forall_append_of_checks (ih p List.mem_cons_self)
        (ihs fun c hc => ih c (List.mem_cons_of_mem p hc))
  | maxOneRow child ih =>
    intro h hungrouped c hc
    rw [subqueries] at hungrouped
    obtain ⟨haggregates, hbelow⟩ := maxOneRowCheck_maxOneRow h (hungrouped child List.mem_cons_self)
    rcases List.mem_cons.mp hc with rfl | hc
    · exact single_of_aggregates haggregates (hungrouped c List.mem_cons_self)
    · have hungrouped := fun c hc => hungrouped c (List.mem_cons_of_mem _ hc)
      rcases hbelow with hall | hcheck
      · exact single_of_aggregates (hall c hc) (hungrouped c hc)
      · exact ih hcheck hungrouped c hc

theorem single_of_logicalOptimize (rules : List (LogicalPlan → Except String LogicalPlan))
  (p p' : LogicalPlan) (h : logicalOptimize rules p = .ok p')
  (hungrouped : ∀ c ∈ p'.subqueries, c.Ungrouped) : ∀ c ∈ p'.subqueries, Single V c := by
  obtain ⟨q, -, h⟩ := Fallible.bind_eq_ok.mp h
  obtain ⟨_, hcheck, h⟩ := Fallible.bind_eq_ok.mp h
  obtain rfl := Fallible.pure_eq_ok.mp h
  exact single_of_maxOneRowCheck q hcheck hungrouped

/-- `SELECT COUNT(*) FROM t GROUP BY a`, with the given group keys. -/
def countPer (keys : List Expr) : LogicalPlan :=
  aggregation ⟨[⟨.Count, [], false, false, false⟩], keys, false⟩ [{uniqueID := 2}]
    (dataSource ⟨"t", [{uniqueID := 1, origName := "a"}]⟩)

theorem single_countPer_nil : Single ℕ (countPer []) :=
  single_of_logicalOptimize [] (maxOneRow (countPer [])) _ rfl
    (by simp [subqueries, countPer, Ungrouped]) _ List.mem_cons_self

/-- Values are numbers, and all that matters is which are equal. -/
def numbers : Interp ℕ where
  null := 0
  constant _ := 0
  scalarFunction _ _ := 0
  truth _ := none
  ofTruth _ := 0
  aggregate _ _ _ _ := 0
  window _ _ _ _ := 0
  le := Nat.ble
  equal_comm _ _ := rfl
  le_total a b := by simpa using Nat.le_total a b
  le_trans a b c := by simpa using Nat.le_trans

theorem not_single_countPer :
  ∃ p c, logicalOptimize [] p = .ok p ∧ c ∈ p.subqueries ∧ ¬Single ℕ c := by
  refine ⟨maxOneRow (countPer [.column {uniqueID := 1}]), _, rfl, List.mem_cons_self, fun h => ?_⟩
  have hrows := h numbers (fun _ => [fun _ => 0, fun _ => 1]) (fun _ => 0) _ rfl
  revert hrows
  decide

end LogicalPlan

end Scql.Planner
