import Scql.AggregationRules
import Scql.PlanDependencies
import Scql.RowAlgebra

/-! # What a plan returns

The rows of a plan over a database. A row gives a value to every column number; numbers that
are not bound below a node read as null, and so do the columns of the missing side of an outer
join. A node shows the columns of its schema; the numbers of columns it hides are not used
again above it. Conditions follow three-valued logic. -/
namespace Scql.Planner

open RowAlgebra

/-- The meaning of constants, functions, aggregates and window functions, and the order of
values. Values are abstract: all the rules of the planner may use is stated here. -/
structure Interp (V : Type) where
  null : V
  constant : Datum → V
  scalarFunction : FuncName → List V → V
  /-- The truth of a value; `none` is unknown. -/
  truth : V → Option Bool
  ofTruth : Option Bool → V
  /-- Arguments: whether the function is distinct, whether it combines partial results, and the
  argument values of the rows. -/
  aggregate : AggName → Bool → Bool → List (List V) → V
  /-- Arguments: which order keys are descending, the order keys of the rows of the partition
  and the position of the row among them. -/
  window : WindowName → List Bool → List (List V) → ℕ → V
  le : V → V → Bool
  equal_comm : ∀ a b, scalarFunction .EQ [a, b] = scalarFunction .EQ [b, a]
  le_total : ∀ a b, le a b = true ∨ le b a = true
  le_trans : ∀ a b c, le a b = true → le b c = true → le a c = true

abbrev Row (V : Type) := ℕ → V

abbrev Database (V : Type) := String → List (String → V)

variable {V : Type} (I : Interp V) (env : Row V)

mutual
/-- `env` holds the row of the enclosing query. -/
def Expr.value (row : Row V) : Expr → V
  | .column c => row c.uniqueID
  | .correlatedColumn c => env c.uniqueID
  | .constant d => I.constant d
  | .scalarFunction f args => I.scalarFunction f (Expr.values row args)

def Expr.values (row : Row V) : List Expr → List V
  | [] => []
  | e::es => Expr.value row e::Expr.values row es
end

def Expr.truth (row : Row V) (e : Expr) : Option Bool := I.truth (e.value I env row)

def Expr.holds (row : Row V) (e : Expr) : Bool := e.truth I env row = some true

def holdsAll (es : List Expr) (row : Row V) : Bool := es.all (Expr.holds I env row)

/-- An equality made from `[not] in (subquery)`. -/
def isEQCondFromIn : Expr → Bool
  | .scalarFunction .EQ args => (Expr.extractColumnsList args).any (·.inOperand)
  | _ => false

/-- The outcome of one condition of a semi join: an unknown comparison with a member of the
subquery counts, an unknown condition on a row of the subquery excludes the row. -/
def Expr.outcome (row : Row V) (e : Expr) : Option Bool :=
  if isEQCondFromIn e then e.truth I env row else some (e.holds I env row)

def outcome (conds : List Expr) (row : Row V) : Option Bool :=
  allTri (conds.map (Expr.outcome I env row))

variable {I env} {row' : Row V}

mutual
lemma Expr.value_congr {row : Row V} (e : Expr)
    (h : ∀ c ∈ e.extractColumns, row c.uniqueID = row' c.uniqueID) :
  e.value I env row = e.value I env row' := by
  cases e with
  | column c => exact h c (by simp [Expr.extractColumns])
  | correlatedColumn c | constant d => rfl
  | scalarFunction f args =>
    rw [Expr.value, Expr.value, Expr.values_congr args h]

lemma Expr.values_congr {row : Row V} (es : List Expr)
  (h : ∀ c ∈ Expr.extractColumnsList es, row c.uniqueID = row' c.uniqueID) :
  Expr.values I env row es = Expr.values I env row' es := by
  cases es with
  | nil => rfl
  | cons e es =>
    rw [Expr.values, Expr.values, Expr.value_congr e fun c hc => h c (List.mem_append_left _ hc),
      Expr.values_congr es fun c hc => h c (List.mem_append_right _ hc)]
end

lemma Expr.values_eq_map (row : Row V) (es : List Expr) :
  Expr.values I env row es = es.map (Expr.value I env row) := by
  induction es with
  | nil => rfl
  | cons e es ih => rw [Expr.values, ih, List.map_cons]

variable {es : List Expr} {row : Row V}

lemma mem_extractColumnsList {c : Column} :
  c ∈ Expr.extractColumnsList es ↔ ∃ e ∈ es, c ∈ e.extractColumns := by
  induction es with
  | nil => simp [Expr.extractColumnsList]
  | cons e es ih => simp [Expr.extractColumnsList, ih]

variable {e : Expr}

lemma Expr.holds_congr (h : ∀ c ∈ e.extractColumns, row c.uniqueID = row' c.uniqueID) :
  e.holds I env row = e.holds I env row' := by
  rw [Expr.holds, Expr.holds, Expr.truth, Expr.truth, Expr.value_congr e h]

lemma Expr.outcome_congr (h : ∀ c ∈ e.extractColumns, row c.uniqueID = row' c.uniqueID) :
  e.outcome I env row = e.outcome I env row' := by
  rw [Expr.outcome, Expr.outcome, Expr.holds_congr h, Expr.truth, Expr.truth, Expr.value_congr e h]

lemma Expr.outcome_eq_true : e.outcome I env row = some true ↔ e.holds I env row = true := by
  rw [Expr.outcome]
  split
  · simp [Expr.holds]
  · simp

lemma holdsAll_iff : holdsAll I env es row = true ↔ ∀ e ∈ es, e.holds I env row = true := by
  simp [holdsAll]

lemma holdsAll_congr (h : ∀ e ∈ es, ∀ c ∈ e.extractColumns, row c.uniqueID = row' c.uniqueID) :
  holdsAll I env es row = holdsAll I env es row' :=
  all_congr_of_mem fun e he => Expr.holds_congr (h e he)

@[simp] lemma holdsAll_nil {row : Row V} : holdsAll I env [] row = true := rfl

lemma holdsAll_cons (e : Expr) (es : List Expr) (row : Row V) :
  holdsAll I env (e::es) row = (e.holds I env row && holdsAll I env es row) := rfl

@[simp] lemma holdsAll_append {es' : List Expr} :
  holdsAll I env (es ++ es') row = (holdsAll I env es row && holdsAll I env es' row) := by
  simp [holdsAll]

lemma outcome_eq_true {conds : List Expr} :
  outcome I env conds row = some true ↔ holdsAll I env conds row = true := by
  rw [outcome, allTri_eq_true, holdsAll_iff]
  simp [Expr.outcome_eq_true]

variable {V : Type} [DecidableEq V] (I : Interp V) (env : Row V)

/-- The columns of both sides; a number is bound on one side only. -/
def merge (l r : Row V) : Row V := fun id => if l id = I.null then r id else l id

def bindRow (subst : List (Column × Expr)) (row : Row V) : Row V := fun id =>
  match subst.find? (fun q => q.1.uniqueID = id) with
  | some q => q.2.value I env row
  | none => row id

def sourceRow (schema : List Column) (record : String → V) : Row V := fun id =>
  match schema.find? (fun c => c.uniqueID = id) with
  | some c => record c.origName
  | none => I.null

def setColumn (c : Option Column) (v : V) (row : Row V) : Row V := fun id =>
  if c.map (·.uniqueID) = some id then v else row id

/-- Rows before others come first; ties are broken by the next item. -/
def sortLe : List (Expr × Bool) → Row V → Row V → Bool
  | [], _, _ => true
  | (e, desc)::items, row, row' =>
    let a := e.value I env row
    let b := e.value I env row'
    if I.le a b && I.le b a then sortLe items row row'
    else if desc then I.le b a else I.le a b

def aggValue (f : AggFuncDesc) (rows : List (Row V)) : V :=
  match f.name with
  | .FirstRow => match rows with
    | [] => I.null
    | row::_ => (Expr.values I env row f.args).headD I.null
  | name => I.aggregate name f.hasDistinct f.finalMode
      (rows.map (fun row => Expr.values I env row f.args))

def aggRow (info : AggInfo) (schema : List Column) (rows : List (Row V)) : Row V := fun id =>
  match (schema.zip info.aggFuncs).find? (fun q => q.1.uniqueID = id) with
  | some q => aggValue I env q.2 rows
  | none => I.null

/-- Without `GROUP BY` all rows form one group, also when there are none. -/
def aggregateRows (info : AggInfo) (schema : List Column) (rows : List (Row V)) : List (Row V) :=
  if info.groupByItems.isEmpty then [aggRow I env info schema rows]
  else (groups (fun row => Expr.values I env row info.groupByItems) rows).map
    (fun g => aggRow I env info schema g.2)

def WindowInfo.resultColumns (info : WindowInfo) (schema : List Column) :
    List (Column × WindowName) :=
  (schema.drop (schema.length-info.windowFuncDescs.length)).zip info.windowFuncDescs

def sortKey (items : List SortItem) (row : Row V) : List V :=
  items.map (fun item => row item.col.uniqueID)

def windowRow (info : WindowInfo) (schema : List Column) (w : Row V × List (Row V) × ℕ) : Row V :=
  fun id =>
    match (info.resultColumns schema).find? (fun q => q.1.uniqueID = id) with
    | some q => I.window q.2 (info.orderBy.map (·.desc)) (w.2.1.map (sortKey info.orderBy)) w.2.2
    | none => w.1 id

def windowOp (info : WindowInfo) (schema : List Column) (rows : List (Row V)) : List (Row V) :=
  (windowRows (sortKey info.partitionBy) rows).map (windowRow I info schema)

def JoinInfo.conditions (info : JoinInfo) : List Expr :=
  info.leftConditions ++ info.rightConditions ++
    (info.equalConditions.map ScalarFunction.toExpr ++ info.otherConditions)

def pairOutcome (conds : List Expr) (l r : Row V) : Option Bool :=
  outcome I env conds (merge I l r)

def pairHolds (conds : List Expr) (l r : Row V) : Bool := holdsAll I env conds (merge I l r)

/-- Whether some row of the right side satisfies the conditions. -/
def semiOutcome (conds : List Expr) (R : List (Row V)) (l : Row V) : Option Bool :=
  anyTri (R.map (pairOutcome I env conds l))

/-- `result` is the column an outer semi join writes its outcome to. -/
def joinRows (tp : JoinType) (conds : List Expr) (result : Option Column) (L R : List (Row V)) :
    List (Row V) :=
  match tp with
  | .InnerJoin => innerJoin (pairHolds I env conds) (merge I) L R
  | .LeftOuterJoin => leftJoin (pairHolds I env conds) (merge I) id L R
  | .RightOuterJoin =>
    leftJoin (fun r l => pairHolds I env conds l r) (fun r l => merge I l r) id R L
  | .SemiJoin => semiJoin (pairHolds I env conds) L R
  | .AntiSemiJoin => L.filter (fun l => semiOutcome I env conds R l = some false)
  | .LeftOuterSemiJoin =>
    L.map (fun l => setColumn result (I.ofTruth (semiOutcome I env conds R l)) l)
  | .AntiLeftOuterSemiJoin =>
    L.map (fun l => setColumn result (I.ofTruth ((semiOutcome I env conds R l).map not)) l)

def sortRows (items : List (Expr × Bool)) (rows : List (Row V)) : List (Row V) :=
  rows.insertionSort (fun row row' => sortLe I env items row row' = true)

mutual
/-- The rows of a plan; `none` if a node that allows one row gets more. -/
def LogicalPlan.eval (db : Database V) : LogicalPlan → Row V → Option (List (Row V))
  | .dataSource ds, _ => some ((db ds.dbTable).map (sourceRow I ds.schema))
  | .selection conds _ _ child, env =>
    (child.eval db env).map (List.filter (holdsAll I env conds))
  | .projection exprs schema child, env =>
    (child.eval db env).map (List.map (bindRow I env (schema.zip exprs)))
  | .join info schema left right, env =>
    (left.eval db env).bind (fun L => (right.eval db env).map
      (joinRows I env info.joinType info.conditions (info.resultColumn schema) L))
  | .apply info schema left right, env =>
    -- the right side is evaluated again for each row of the left side
    (left.eval db env).bind (fun L => concatAll (L.map (fun l =>
      (right.eval db (merge I l env)).map
        (joinRows I env info.joinType info.conditions (info.resultColumn schema) [l]))))
  | .aggregation info schema child, env =>
    (child.eval db env).map (aggregateRows I env info schema)
  | .unionAll _ children, env => concatAll (LogicalPlan.evals db children env)
  | .limit offset count child, env =>
    (child.eval db env).map (fun rows => (rows.drop offset).take count)
  | .sort byItems child, env => (child.eval db env).map (sortRows I env byItems)
  | .window info schema child, env => (child.eval db env).map (windowOp I info schema)
  | .maxOneRow child, env =>
    (child.eval db env).bind (fun rows => if rows.length ≤ 1 then some rows else none)

def LogicalPlan.evals (db : Database V) : List LogicalPlan → Row V → List (Option (List (Row V)))
  | [], _ => []
  | p::ps, env => p.eval db env::LogicalPlan.evals db ps env
end

def LogicalPlan.tuples (db : Database V) (p : LogicalPlan) (ids : List ℕ) :
    Option (List (List V)) :=
  (p.eval I db (fun _ => I.null)).map (List.map (fun row => ids.map row))

end Scql.Planner
