import Scql.ControlInference

/-! # Dependencies between the columns of a plan

Which source columns the value of an output column depends on, and how a planner numbers
columns: a number that occurs below a node is either hidden by the node or passed through
unchanged. -/
namespace Scql.Planner

open ControlInference List

variable {e : ℕ × ℕ}

namespace LogicalPlan

mutual
/-- The column numbers used by a plan and everything below it. -/
def allIds : LogicalPlan → List ℕ
  | dataSource ds => ds.schema.map (·.uniqueID)
  | selection _ _ schema child => schema.map (·.uniqueID) ++ child.allIds
  | projection _ schema child => schema.map (·.uniqueID) ++ child.allIds
  | join _ schema left right => schema.map (·.uniqueID) ++ (left.allIds ++ right.allIds)
  | apply _ schema left right => schema.map (·.uniqueID) ++ (left.allIds ++ right.allIds)
  | aggregation _ schema child => schema.map (·.uniqueID) ++ child.allIds
  | unionAll schema children => schema.map (·.uniqueID) ++ allIdsList children
  | limit _ _ child => child.allIds
  | sort _ child => child.allIds
  | window _ schema child => schema.map (·.uniqueID) ++ child.allIds
  | maxOneRow child => child.allIds

def allIdsList : List LogicalPlan → List ℕ
  | [] => []
  | p::ps => p.allIds ++ allIdsList ps
end

/-- The root arguments a join records for a projection below it. -/
def ownRootPairs : LogicalPlan → List (ℕ × ℕ)
  | projection exprs schema _ => (schema.zip exprs).filterMap (fun p =>
      match p.2, rootOf p.2 with
      | .scalarFunction _ _, .ok (some root) => some (p.1.uniqueID, root)
      | _, _ => none)
  | _ => []

mutual
/-- The root arguments recorded while a plan is inferred. -/
def rootPairs : LogicalPlan → List (ℕ × ℕ)
  | dataSource _ => []
  | selection _ _ _ child => child.rootPairs
  | projection _ _ child => child.rootPairs
  | join _ _ left right =>
    left.rootPairs ++ right.rootPairs ++ (left.ownRootPairs ++ right.ownRootPairs)
  | apply _ _ left right => left.rootPairs ++ right.rootPairs
  | aggregation _ _ child => child.rootPairs
  | unionAll _ children => rootPairsList children
  | limit _ _ child => child.rootPairs
  | sort _ child => child.rootPairs
  | window _ _ child => child.rootPairs
  | maxOneRow child => child.rootPairs

def rootPairsList : List LogicalPlan → List (ℕ × ℕ)
  | [] => []
  | p::ps => p.rootPairs ++ rootPairsList ps
end

variable {ps : List LogicalPlan}

lemma mem_allIdsList {id : ℕ} : id ∈ allIdsList ps ↔ ∃ p ∈ ps, id ∈ p.allIds := by
  induction ps with
  | nil => simp [allIdsList]
  | cons p ps ih => simp [allIdsList, ih]

lemma mem_rootPairsList : e ∈ rootPairsList ps ↔ ∃ p ∈ ps, e ∈ p.rootPairs := by
  induction ps with
  | nil => simp [rootPairsList]
  | cons p ps ih => simp [rootPairsList, ih]

lemma ids_subset_allIds (p : LogicalPlan) : p.ids ⊆ p.allIds := by
  induction p using LogicalPlan.induct with
  | limit _ _ _ ih | sort _ _ ih | maxOneRow _ ih => exact ih
  | dataSource ds => exact List.Subset.refl _
  | selection | projection | join | apply | aggregation | unionAll | window =>
    exact subset_append_left _ _

end LogicalPlan

open LogicalPlan

/-- The column a semi join that keeps all rows adds for its outcome. -/
def JoinInfo.resultColumn (info : JoinInfo) (schema : List Column) : Option Column :=
  match info.joinType with
  | .LeftOuterSemiJoin | .AntiLeftOuterSemiJoin => schema.getLast?
  | _ => none

/-- How a planner numbers columns. A number comes from one counter, so two subtrees of a join
share none, and a number that occurs below a node reappears above it only for the same
value. The branches of a union may share the numbers of the union's own columns. -/
inductive WellIdentified : LogicalPlan → Prop
  | dataSource (ds : DataSource)
      (functional : ∀ c ∈ ds.schema, ∀ d ∈ ds.schema, c.uniqueID = d.uniqueID →
        c.origName = d.origName) : WellIdentified (.dataSource ds)
  | selection (conds : List Expr) (aff : Bool) (schema : List Column) {child : LogicalPlan}
      (hc : WellIdentified child) (merged : ∀ c ∈ schema, c.uniqueID ∈ child.ids) :
      WellIdentified (.selection conds aff schema child)
  | projection (exprs : List Expr) (schema : List Column) {child : LogicalPlan}
      (hc : WellIdentified child) (length : exprs.length = schema.length)
      (bound : ∀ e ∈ exprs, ∀ x ∈ e.extractColumns, x.uniqueID ∈ child.ids)
      (passed : ∀ q ∈ schema.zip exprs, q.1.uniqueID ∈ child.allIds →
        q.1.uniqueID ∈ child.ids ∧ ∃ c, q.2 = .column c ∧ c.uniqueID = q.1.uniqueID)
      (functional : ∀ q ∈ schema.zip exprs, ∀ q' ∈ schema.zip exprs, q.1.uniqueID = q'.1.uniqueID →
        q.2 = q'.2) :
      WellIdentified (.projection exprs schema child)
  | join (info : JoinInfo) (schema : List Column) {left right : LogicalPlan}
      (hl : WellIdentified left) (hr : WellIdentified right)
      (disjoint : ∀ id ∈ left.allIds, id ∉ right.allIds)
      (bound : ∀ sf ∈ info.equalConditions, ∀ x ∈ sf.toExpr.extractColumns,
        x.uniqueID ∈ left.ids ∨ x.uniqueID ∈ right.ids)
      (merged : ∀ c ∈ schema, c.uniqueID ∈ left.ids ∨ c.uniqueID ∈ right.ids) :
      WellIdentified (.join info schema left right)
  | apply (info : JoinInfo) (schema : List Column) {left right : LogicalPlan}
      (hl : WellIdentified left) (hr : WellIdentified right)
      (disjoint : ∀ id ∈ left.allIds, id ∉ right.allIds)
      (merged : ∀ c ∈ schema, c.uniqueID ∈ left.ids ∨ c.uniqueID ∈ right.ids ∨
        info.resultColumn schema = some c)
      (fresh : ∀ c, info.resultColumn schema = some c →
        c.uniqueID ∉ left.allIds ∧ c.uniqueID ∉ right.allIds) :
      WellIdentified (.apply info schema left right)
  | aggregation (info : AggInfo) (schema : List Column) {child : LogicalPlan}
      (hc : WellIdentified child) (length : info.aggFuncs.length = schema.length)
      (passed : ∀ q ∈ schema.zip info.aggFuncs, q.1.uniqueID ∈ child.allIds →
        q.1.uniqueID ∈ child.ids ∧ q.2.name = .FirstRow ∧
          ∃ c, q.2.args.head? = some (.column c) ∧ c.uniqueID = q.1.uniqueID)
      (functional : ∀ q ∈ schema.zip info.aggFuncs, ∀ q' ∈ schema.zip info.aggFuncs,
        q.1.uniqueID = q'.1.uniqueID → q.2 = q'.2) :
      WellIdentified (.aggregation info schema child)
  | unionAll (schema : List Column) {children : List LogicalPlan}
      (hcs : ∀ c ∈ children, WellIdentified c) (nodup : (schema.map (·.uniqueID)).Nodup)
      (fresh : ∀ c ∈ children, ∀ e ∈ c.rootPairs, ∀ col ∈ schema, col.uniqueID ≠ e.1 ∧
        col.uniqueID ≠ e.2)
      (disjoint : children.Pairwise (fun c d => ∀ e ∈ c.rootPairs, e.1 ∉ d.allIds)) :
      WellIdentified (.unionAll schema children)
  | limit (offset count : ℕ) {child : LogicalPlan} (hc : WellIdentified child) :
      WellIdentified (.limit offset count child)
  | sort (byItems : List (Expr × Bool)) {child : LogicalPlan} (hc : WellIdentified child) :
      WellIdentified (.sort byItems child)
  | window (info : WindowInfo) (schema : List Column) {child : LogicalPlan}
    (hc : WellIdentified child)
      (merged : ∀ c ∈ schema, c.uniqueID ∈ child.ids ∨ schema.getLast? = some c)
      (fresh : ∀ c, schema.getLast? = some c → c.uniqueID ∉ child.allIds) :
      WellIdentified (.window info schema child)
  | maxOneRow {child : LogicalPlan} (hc : WellIdentified child) : WellIdentified (.maxOneRow child)

/-- Dependencies that are counted besides the arguments of functions. -/
structure Channels where
  /-- The partition keys of a window. -/
  partitionKeys : Bool
  /-- The group keys of an aggregation made from a `DISTINCT`. -/
  distinctKeys : Bool

/-- `Depends ch p id s`: the value of column `id` of `p` depends on the source column `s`. -/
inductive Depends (ch : Channels) : LogicalPlan → ℕ → String → Prop
  | source {ds : DataSource} {c : Column} (hc : c ∈ ds.schema) :
      Depends ch (.dataSource ds) c.uniqueID c.origName
  | selection {conds : List Expr} {aff : Bool} {schema : List Column} {child : LogicalPlan}
      {c : Column} {s : String} (hc : c ∈ schema) (h : Depends ch child c.uniqueID s) :
      Depends ch (.selection conds aff schema child) c.uniqueID s
  | projection {exprs : List Expr} {schema : List Column} {child : LogicalPlan}
      {q : Column × Expr} {x : Column} {s : String} (hq : q ∈ schema.zip exprs)
      (hx : x ∈ q.2.extractColumns) (h : Depends ch child x.uniqueID s) :
      Depends ch (.projection exprs schema child) q.1.uniqueID s
  | join {info : JoinInfo} {schema : List Column} {left right child : LogicalPlan}
      {c : Column} {s : String} (hchild : child = left ∨ child = right) (hc : c ∈ schema)
      (h : Depends ch child c.uniqueID s) : Depends ch (.join info schema left right) c.uniqueID s
  | apply {info : JoinInfo} {schema : List Column} {left right child : LogicalPlan}
      {c : Column} {s : String} (hchild : child = left ∨ child = right) (hc : c ∈ schema)
      (h : Depends ch child c.uniqueID s) : Depends ch (.apply info schema left right) c.uniqueID s
  | applyResult {info : JoinInfo} {schema : List Column} {left right child : LogicalPlan}
      {c x : Column} {sf : ScalarFunction} {s : String} (hchild : child = left ∨ child = right)
      (hc : info.resultColumn schema = some c) (hsf : applyCondition info = .ok sf)
      (hx : x ∈ sf.toExpr.extractColumns) (h : Depends ch child x.uniqueID s) :
      Depends ch (.apply info schema left right) c.uniqueID s
  | aggArgument {info : AggInfo} {schema : List Column} {child : LogicalPlan}
      {q : Column × AggFuncDesc} {a : Expr} {x : Column} {s : String}
      (hq : q ∈ schema.zip info.aggFuncs) (hname : q.2.name ≠ .Count)
      (ha : q.2.args.head? = some a) (hx : x ∈ a.extractColumns)
      (h : Depends ch child x.uniqueID s) :
      Depends ch (.aggregation info schema child) q.1.uniqueID s
  | groupKey {info : AggInfo} {schema : List Column} {child : LogicalPlan}
      {q : Column × AggFuncDesc} {g : Expr} {x : Column} {s : String}
      (hq : q ∈ schema.zip info.aggFuncs) (hname : q.2.name = .FirstRow)
      (hdistinct : info.producedByDistinct = true → ch.distinctKeys = true)
      (hg : g ∈ info.groupByItems) (hx : x ∈ g.extractColumns)
      (h : Depends ch child x.uniqueID s) :
      Depends ch (.aggregation info schema child) q.1.uniqueID s
  | branch {schema : List Column} {children : List LogicalPlan} {child : LogicalPlan} {i : ℕ}
      {c x : Column} {s : String} (hchild : child ∈ children) (hc : schema[i]? = some c)
      (hx : child.schema[i]? = some x) (h : Depends ch child x.uniqueID s) :
      Depends ch (.unionAll schema children) c.uniqueID s
  | limit {offset count : ℕ} {child : LogicalPlan} {id : ℕ} {s : String}
      (h : Depends ch child id s) : Depends ch (.limit offset count child) id s
  | sort {byItems : List (Expr × Bool)} {child : LogicalPlan} {id : ℕ} {s : String}
      (h : Depends ch child id s) : Depends ch (.sort byItems child) id s
  | window {info : WindowInfo} {schema : List Column} {child : LogicalPlan} {c : Column}
      {s : String} (hc : c ∈ schema) (h : Depends ch child c.uniqueID s) :
      Depends ch (.window info schema child) c.uniqueID s
  | orderKey {info : WindowInfo} {schema : List Column} {child : LogicalPlan} {c : Column}
      {item : SortItem} {s : String} (hc : schema.getLast? = some c) (hitem : item ∈ info.orderBy)
      (h : Depends ch child item.col.uniqueID s) :
      Depends ch (.window info schema child) c.uniqueID s
  | partitionKey {info : WindowInfo} {schema : List Column} {child : LogicalPlan} {c : Column}
      {item : SortItem} {s : String} (hch : ch.partitionKeys = true)
      (hc : schema.getLast? = some c) (hitem : item ∈ info.partitionBy)
      (h : Depends ch child item.col.uniqueID s) :
      Depends ch (.window info schema child) c.uniqueID s
  | maxOneRow {child : LogicalPlan} {id : ℕ} {s : String} (h : Depends ch child id s) :
      Depends ch (.maxOneRow child) id s

mutual
variable {root : ℕ}

lemma rootOf_mem (e : Expr) (h : rootOf e = .ok (some root)) :
    ∃ c ∈ e.extractColumns, c.uniqueID = root := by
  cases e with
  | column c =>
    refine ⟨c, mem_singleton_self c, ?_⟩
    simpa [rootOf] using h
  | correlatedColumn c | constant d => simp [rootOf] at h
  | scalarFunction f args =>
    rw [rootOf] at h
    split at h
    · exact rootOfArgs_mem f args h
    · simp at h

lemma rootOfArgs_mem (f : FuncName) (args : List Expr) (h : rootOfArgs f args = .ok (some root)) :
  ∃ c ∈ Expr.extractColumnsList args, c.uniqueID = root := by
  match args, h with
  | [], h => simp [rootOfArgs] at h
  | [a], h =>
    obtain ⟨c, hc, hroot⟩ := rootOf_mem a (by simpa [rootOfArgs] using h)
    exact ⟨c, by simp [Expr.extractColumnsList, hc], hroot⟩
  | _::_::_, h => simp [rootOfArgs] at h
end

variable {p : LogicalPlan} {e : ℕ × ℕ}

lemma mem_ownRootPairs (h : e ∈ p.ownRootPairs) :
  ∃ exprs schema child, p = .projection exprs schema child ∧ ∃ q ∈ schema.zip exprs,
    q.1.uniqueID = e.1 ∧ ∃ x ∈ q.2.extractColumns, x.uniqueID = e.2 := by
  cases p with
  | projection exprs schema child =>
    refine ⟨exprs, schema, child, rfl, ?_⟩
    obtain ⟨q, hq, he⟩ := mem_filterMap.mp h
    split at he
    · rename_i hroot
      obtain ⟨x, hx, hid⟩ := rootOf_mem q.2 hroot
      cases he
      exact ⟨q, hq, rfl, x, hx, hid⟩
    · cases he
  | _ => simp [ownRootPairs] at h

private lemma mem_ids_of_mem_zip {β : Type} {schema : List Column} {l : List β}
  {q : Column × β} (h : q ∈ schema.zip l) : q.1.uniqueID ∈ schema.map (·.uniqueID) :=
  mem_map_of_mem (of_mem_zip h).1

lemma ownRootPairs_mem_allIds (hwf : WellIdentified p) (h : e ∈ p.ownRootPairs) :
  e.1 ∈ p.allIds ∧ e.2 ∈ p.allIds := by
  obtain ⟨exprs, schema, child, rfl, q, hq, hkey, x, hx, hroot⟩ := mem_ownRootPairs h
  cases hwf with
  | projection _ _ hc length bound passed functional =>
    have hroot' := bound q.2 (of_mem_zip hq).2 x hx
    rw [hroot] at hroot'
    refine ⟨?_, mem_append_right _ (child.ids_subset_allIds hroot')⟩
    exact hkey ▸ mem_append_left _ (mem_ids_of_mem_zip hq)

lemma rootPairs_mem_allIds (hwf : WellIdentified p) (h : e ∈ p.rootPairs) :
  e.1 ∈ p.allIds ∧ e.2 ∈ p.allIds := by
  induction hwf with
  | dataSource => simp [rootPairs] at h
  | selection _ _ _ _ _ ih | projection _ _ _ _ _ _ _ ih | aggregation _ _ _ _ _ _ ih
  | window _ _ _ _ _ ih => exact (ih h).imp (mem_append_right _) (mem_append_right _)
  | limit _ _ _ ih | sort _ _ ih | maxOneRow _ ih => exact ih h
  | join _ _ hl hr _ _ _ ihl ihr =>
    simp only [rootPairs, mem_append] at h
    simp only [allIds, mem_append]
    rcases h with (h | h) | h | h
    · exact (ihl h).imp (fun h => .inr (.inl h)) (fun h => .inr (.inl h))
    · exact (ihr h).imp (fun h => .inr (.inr h)) (fun h => .inr (.inr h))
    · exact (ownRootPairs_mem_allIds hl h).imp (fun h => .inr (.inl h)) (fun h => .inr (.inl h))
    · exact (ownRootPairs_mem_allIds hr h).imp (fun h => .inr (.inr h)) (fun h => .inr (.inr h))
  | apply _ _ _ _ _ _ _ ihl ihr =>
    simp only [rootPairs, mem_append] at h
    simp only [allIds, mem_append]
    rcases h with h | h
    · exact (ihl h).imp (fun h => .inr (.inl h)) (fun h => .inr (.inl h))
    · exact (ihr h).imp (fun h => .inr (.inr h)) (fun h => .inr (.inr h))
  | unionAll _ _ _ _ _ ih =>
    obtain ⟨c, hc, hpair⟩ := mem_rootPairsList.mp h
    obtain ⟨hkey, hroot⟩ := ih c hc hpair
    exact ⟨mem_append_right _ (mem_allIdsList.mpr ⟨c, hc, hkey⟩),
      mem_append_right _ (mem_allIdsList.mpr ⟨c, hc, hroot⟩)⟩

variable {ch : Channels} {id : ℕ} {s : String}

lemma Depends.mem_ids (h : Depends ch p id s) : id ∈ p.ids := by
  induction h with
  | source hc | selection hc | join _ hc | apply _ hc | window hc => exact mem_map_of_mem hc
  | limit _ ih | sort _ ih | maxOneRow _ ih => exact ih
  | projection hq | aggArgument hq | groupKey hq => exact mem_ids_of_mem_zip hq
  | applyResult _ hc =>
    rw [JoinInfo.resultColumn] at hc
    split at hc
    · exact mem_map_of_mem (mem_of_getLast? hc)
    · exact mem_map_of_mem (mem_of_getLast? hc)
    · cases hc
  | branch _ hc => exact mem_map_of_mem (mem_of_getElem? hc)
  | orderKey hc | partitionKey _ hc => exact mem_map_of_mem (mem_of_getLast? hc)

lemma Depends.mem_allIds (h : Depends ch p id s) : id ∈ p.allIds :=
  p.ids_subset_allIds h.mem_ids

private lemma exists_mem_zip {β : Type} {schema : List Column} {l : List β}
  (hlen : l.length = schema.length) (hid : id ∈ schema.map (·.uniqueID)) :
  ∃ q ∈ schema.zip l, q.1.uniqueID = id := by
  obtain ⟨c, hc, rfl⟩ := mem_map.mp hid
  obtain ⟨i, hi, rfl⟩ := getElem_of_mem hc
  have hi' : i < (schema.zip l).length := by simp [hlen, hi]
  exact ⟨(schema.zip l)[i], getElem_mem hi', by simp⟩

/-- A column that passes through a projection depends on what it depends on below it. -/
lemma Depends.projection_iff {exprs : List Expr} {schema : List Column} {child : LogicalPlan}
  (hwf : WellIdentified (.projection exprs schema child)) (hbelow : id ∈ child.allIds) :
  Depends ch (.projection exprs schema child) id s ↔
    id ∈ schema.map (·.uniqueID) ∧ Depends ch child id s := by
  cases hwf with
  | projection _ _ hc length bound passed functional =>
    constructor
    · intro h
      refine ⟨h.mem_ids, ?_⟩
      cases h with
      | projection hq hx h =>
        obtain ⟨-, c, hcol, hid⟩ := passed _ hq hbelow
        rw [hcol, Expr.extractColumns, mem_singleton] at hx
        rwa [hx, hid] at h
    · intro ⟨hid, h⟩
      obtain ⟨q, hq, rfl⟩ := exists_mem_zip length hid
      obtain ⟨-, c, hcol, hcid⟩ := passed q hq hbelow
      refine .projection hq (x := c) ?_ (hcid ▸ h)
      rw [hcol]
      exact mem_singleton_self c

lemma Depends.of_ownRootPair (hwf : WellIdentified p) (he : e ∈ p.ownRootPairs)
  (h : Depends ch p e.2 s) : Depends ch p e.1 s := by
  obtain ⟨exprs, schema, child, rfl, q, hq, hkey, x, hx, hroot⟩ := mem_ownRootPairs he
  have hx' : x.uniqueID ∈ child.ids := by
    cases hwf with
    | projection _ _ _ _ bound _ _ => exact bound q.2 (of_mem_zip hq).2 x hx
  have hbelow := ((Depends.projection_iff hwf (hroot ▸ child.ids_subset_allIds hx')).mp h).2
  rw [← hkey]
  exact .projection hq hx (hroot ▸ hbelow)

variable {left right child child' : LogicalPlan}

lemma same_side (disjoint : ∀ id ∈ left.allIds, id ∉ right.allIds)
  (hchild : child = left ∨ child = right) (hchild' : child' = left ∨ child' = right)
  (h : id ∈ child.allIds) (h' : id ∈ child'.allIds) : child = child' := by
  rcases hchild with rfl | rfl
  · rcases hchild' with rfl | rfl
    · rfl
    · exact absurd h' (disjoint id h)
  · rcases hchild' with rfl | rfl
    · exact absurd h (disjoint id h')
    · rfl

lemma mem_ids_of_side (disjoint : ∀ id ∈ left.allIds, id ∉ right.allIds)
  (hchild : child = left ∨ child = right) (h : id ∈ child.allIds)
  (hids : id ∈ left.ids ∨ id ∈ right.ids) : id ∈ child.ids := by
  rcases hids with hid | hid
  · exact same_side disjoint (.inl rfl) hchild (left.ids_subset_allIds hid) h ▸ hid
  · exact same_side disjoint (.inr rfl) hchild (right.ids_subset_allIds hid) h ▸ hid

/-- Where both columns of a recorded pair are visible, the key depends on all its root argument
depends on. -/
lemma Depends.of_rootPair {p : LogicalPlan} (hwf : WellIdentified p) {s : String}
  (he : e ∈ p.rootPairs) (hkey : e.1 ∈ p.ids) (h : Depends ch p e.2 s) : Depends ch p e.1 s := by
  induction hwf with
  | dataSource => simp [rootPairs] at he
  | selection conds aff schema hc merged ih =>
    obtain ⟨c, hcs, hck⟩ := mem_map.mp hkey
    generalize hroot : e.2 = root at h
    cases h with
    | selection _ h =>
      rw [← hck]
      refine .selection hcs ?_
      rw [hck]
      exact ih he (hck ▸ merged c hcs) (hroot ▸ h)
  | limit _ _ _ ih => cases h with | limit h => exact .limit (ih he hkey h)
  | sort _ _ ih => cases h with | sort h => exact .sort (ih he hkey h)
  | maxOneRow _ ih => cases h with | maxOneRow h => exact .maxOneRow (ih he hkey h)
  | projection exprs schema hc length bound passed functional ih =>
    have hwf := WellIdentified.projection exprs schema hc length bound passed functional
    obtain ⟨hk, hx⟩ := rootPairs_mem_allIds hc he
    have hbelow := ((Depends.projection_iff hwf hx).mp h).2
    obtain ⟨q, hq, hqk⟩ := exists_mem_zip length hkey
    have hkey' := hqk ▸ (passed q hq (hqk ▸ hk)).1
    exact (Depends.projection_iff hwf hk).mpr ⟨hkey, ih he hkey' hbelow⟩
  | aggregation info schema hc length passed functional ih =>
    obtain ⟨hk, hx⟩ := rootPairs_mem_allIds hc he
    obtain ⟨q, hq, hqk⟩ := exists_mem_zip length hkey
    obtain ⟨hkey', hname, c, hargs, hcid⟩ := passed q hq (hqk ▸ hk)
    generalize hroot : e.2 = root at h hx
    cases h with
    | aggArgument hq' _ ha' hx' h' =>
      obtain ⟨-, -, c', hargs', hcid'⟩ := passed _ hq' hx
      rw [hargs', Option.some.injEq] at ha'
      subst ha'
      rw [Expr.extractColumns, mem_singleton] at hx'
      rw [hx', hcid', ← hroot] at h'
      rw [← hqk]
      refine .aggArgument hq (by simp [hname]) hargs (mem_singleton_self c) ?_
      rw [hcid, hqk]
      exact ih he (hqk ▸ hkey') h'
    | groupKey hq' hname' hdistinct hg hx' h' =>
      rw [← hqk]
      exact .groupKey hq hname hdistinct hg hx' h'
  | unionAll schema hcs nodup fresh disjoint ih =>
    obtain ⟨c, hc, hpair⟩ := mem_rootPairsList.mp he
    obtain ⟨col, hcol, hid⟩ := mem_map.mp hkey
    exact absurd hid (fresh c hc e hpair col hcol).1
  | window info schema hc merged fresh ih =>
    obtain ⟨hk, hx⟩ := rootPairs_mem_allIds hc he
    obtain ⟨c, hcs, hck⟩ := mem_map.mp hkey
    have hkey' : e.1 ∈ _ := (merged c hcs).elim (fun h => hck ▸ h)
      (fun hlast => absurd (hck ▸ hk) (fresh c hlast))
    generalize hroot : e.2 = root at h hx
    cases h with
    | window _ h => exact hck ▸ .window hcs (hck ▸ ih he hkey' (hroot ▸ h))
    | orderKey hlast _ _ => exact absurd hx (fresh _ hlast)
    | partitionKey _ hlast _ _ => exact absurd hx (fresh _ hlast)
  | @join info schema left right hl hr disjoint bound merged ihl ihr =>
    obtain ⟨c, hcs, hck⟩ := mem_map.mp hkey
    -- both columns come from one side, where the key depends on its root argument
    have lift : ∀ child, child = left ∨ child = right → e.1 ∈ child.allIds ∧ e.2 ∈ child.allIds →
        (e.1 ∈ child.ids → Depends ch child e.2 s → Depends ch child e.1 s) →
        Depends ch (.join info schema left right) e.1 s := by
      intro child hchild ⟨hk, hx⟩ hstep
      rw [← hck]
      refine .join hchild hcs ?_
      rw [hck]
      apply hstep
      · exact mem_ids_of_side disjoint hchild hk (hck ▸ merged c hcs)
      · generalize e.2 = root at h hx
        cases h with
        | join hchild' _ h => exact same_side disjoint hchild' hchild h.mem_allIds hx ▸ h
    simp only [rootPairs, mem_append] at he
    rcases he with (he | he) | he | he
    · exact lift left (.inl rfl) (rootPairs_mem_allIds hl he) (ihl he)
    · exact lift right (.inr rfl) (rootPairs_mem_allIds hr he) (ihr he)
    · exact lift left (.inl rfl) (ownRootPairs_mem_allIds hl he)
        (fun _ => Depends.of_ownRootPair hl he)
    · exact lift right (.inr rfl) (ownRootPairs_mem_allIds hr he)
        (fun _ => Depends.of_ownRootPair hr he)
  | @apply info schema left right hl hr disjoint merged fresh ihl ihr =>
    obtain ⟨c, hcs, hck⟩ := mem_map.mp hkey
    have lift : ∀ child, child = left ∨ child = right → e.1 ∈ child.allIds ∧ e.2 ∈ child.allIds →
        (e.1 ∈ child.ids → Depends ch child e.2 s → Depends ch child e.1 s) →
        Depends ch (.apply info schema left right) e.1 s := by
      intro child hchild ⟨hk, hx⟩ hstep
      have old : ∀ c', info.resultColumn schema = some c' → c'.uniqueID ∉ child.allIds := by
        intro c' hlast
        rcases hchild with rfl | rfl
        · exact (fresh c' hlast).1
        · exact (fresh c' hlast).2
      have hids : e.1 ∈ left.ids ∨ e.1 ∈ right.ids := by
        rcases merged c hcs with h | h | hlast
        · exact .inl (hck ▸ h)
        · exact .inr (hck ▸ h)
        · exact absurd (hck ▸ hk) (old c hlast)
      rw [← hck]
      refine .apply hchild hcs ?_
      rw [hck]
      apply hstep
      · exact mem_ids_of_side disjoint hchild hk hids
      · generalize e.2 = root at h hx
        cases h with
        | apply hchild' _ h => exact same_side disjoint hchild' hchild h.mem_allIds hx ▸ h
        | applyResult _ hlast _ _ _ => exact absurd hx (old _ hlast)
    simp only [rootPairs, mem_append] at he
    rcases he with he | he
    · exact lift left (.inl rfl) (rootPairs_mem_allIds hl he) (ihl he)
    · exact lift right (.inr rfl) (rootPairs_mem_allIds hr he) (ihr he)

end Scql.Planner
