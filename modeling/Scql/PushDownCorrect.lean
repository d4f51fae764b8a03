import Scql.JoinKeyColumns

/-! # Predicate push-down returns the same rows

Push-down is correct for the plans in which no condition reaches a limit or a node that allows
one row, no condition without columns goes below an aggregation without `GROUP BY`, and outer
joins have no conditions that would have to be applied above them. -/
namespace Scql.Planner

open RowAlgebra LogicalPlan List

/-- An outer join has nothing to apply above it, and a semi join whose outcome may be unknown
filters its right side by no comparison with an `in` operand. -/
def JoinInfo.pushSafe (info : JoinInfo) (left right : List Column) : Bool :=
  match info.joinType with
  | .InnerJoin | .SemiJoin => true
  | .LeftOuterJoin => info.leftConditions.isEmpty &&
      info.otherConditions.all (fun e => (joinKeys left right e).isSome)
  | .RightOuterJoin => info.rightConditions.isEmpty &&
      info.otherConditions.all (fun e => (joinKeys left right e).isSome)
  | .AntiSemiJoin | .LeftOuterSemiJoin | .AntiLeftOuterSemiJoin =>
    info.rightConditions.all (fun e => !isEQCondFromIn e)

/-- A function of group keys goes below the aggregation and does not stay above it. -/
def AggInfo.pushesFunction (info : AggInfo) : Expr → Bool
  | .scalarFunction f args => exprFromSchema info.getGroupByCols (.scalarFunction f args)
  | _ => false

mutual
/-- The conditions `preds` may be pushed into the plan. -/
def pushSafe : LogicalPlan → List Expr → Bool
  | .dataSource _, _ => true
  | .selection conds _ _ child, preds => pushSafe child (conds ++ preds)
  | .projection exprs schema child, preds =>
    pushSafe child (preds.map (Expr.columnSubstitute (schema.zip exprs)))
  | .join info _ left right, preds =>
    let pushed := info.pushConditions left.schema right.schema preds
    info.pushSafe left.schema right.schema &&
      (hashSafe pushed.leftCond && pushSafe left (removeDupExprs pushed.leftCond)) &&
      (hashSafe pushed.rightCond && pushSafe right (removeDupExprs pushed.rightCond))
  | .apply _ _ _ _, _ => false
  | .aggregation info schema child, preds =>
    (!info.groupByItems.isEmpty || preds.all (fun e => !info.pushesFunction e)) &&
      pushSafe child (info.pushConditions schema preds).1
  | .unionAll _ children, preds => pushSafes children preds
  | .limit _ _ child, preds => preds.isEmpty && pushSafe child preds
  | .sort _ child, preds => pushSafe child preds
  | .window info _ child, preds => pushSafe child (preds.filter info.pushes)
  | .maxOneRow child, preds => preds.isEmpty && pushSafe child preds

def pushSafes : List LogicalPlan → List Expr → Bool
  | [], _ => true
  | p::ps, preds => pushSafe p preds && pushSafes ps preds
end

variable {V : Type} [DecidableEq V] {I : Interp V} {env : Row V} {db : Database V}
  {info : JoinInfo} {schema : List Column} {left right left' right' : LogicalPlan}
  {preds : List Expr} {n : ℕ}

lemma joinKeys_isSome_mono {e : Expr} (hl : left.ids ⊆ left'.ids) (hr : right.ids ⊆ right'.ids)
  (h : (joinKeys left.schema right.schema e).isSome = true) :
  (joinKeys left'.schema right'.schema e).isSome = true := by
  have hleft : ∀ {x : Expr}, exprFromSchema left.schema x = true →
      exprFromSchema left'.schema x = true := fun hx =>
    exprFromSchema_iff.mpr ((within_of_exprFromSchema hx).mono hl)
  have hright : ∀ {x : Expr}, exprFromSchema right.schema x = true →
      exprFromSchema right'.schema x = true := fun hx =>
    exprFromSchema_iff.mpr ((within_of_exprFromSchema hx).mono hr)
  obtain ⟨⟨a, b⟩, hkey⟩ := Option.isSome_iff_exists.mp h
  obtain ⟨hin, rfl | rfl, ha, hb⟩ := joinKeys_eq_some hkey
  · simp [joinKeys, hin, hleft ha, hright hb]
  · rw [joinKeys, hin, if_neg (by simp)]
    split
    · rfl
    · simp [hleft ha, hright hb]

lemma remaining_eq_nil (preds : List Expr) (n : ℕ)
  (hsafe : info.pushSafe left.schema right.schema = true) (hl : left.ids ⊆ left'.ids)
  (hr : right.ids ⊆ right'.ids)
  (htp : info.joinType = .LeftOuterJoin ∨ info.joinType = .RightOuterJoin) :
  (updateEQCond (info.pushConditions left.schema right.schema preds).info left' right'
    n).1.remaining
    = [] := by
  have hother : ∀ other : List Expr,
      other.all (fun e => (joinKeys left.schema right.schema e).isSome) = true →
      other.filter (fun e => (joinKeys left'.schema right'.schema e).isNone) = [] := by
    intro other hall
    rw [filter_eq_nil_iff]
    intro e he
    have hsome := joinKeys_isSome_mono hl hr (all_eq_true.mp hall e he)
    simpa using Option.isSome_iff_ne_none.mp hsome
  rcases htp with htp | htp
  all_goals
    simp only [JoinInfo.pushSafe, htp, Bool.and_eq_true, List.isEmpty_iff] at hsafe
    simp [updateEQCond, JoinInfo.remaining, JoinInfo.pushConditions, htp, hsafe.1, hother _ hsafe.2]

lemma resultColumn_joinSchema (hresult : info.joinType.isOuterSemi = true → schema ≠ []) :
  info.resultColumn (buildLogicalJoinSchema info.joinType schema left right) =
    info.resultColumn schema := by
  unfold JoinInfo.resultColumn buildLogicalJoinSchema
  cases htp : info.joinType <;> simp only
  all_goals
    obtain ⟨c, hc⟩ := Option.ne_none_iff_exists'.mp
      (mt getLast?_eq_none_iff.mp (hresult (by rw [htp]; rfl)))
    simp [hc]

lemma filter_remaining (L R : List (Row V)) :
  (joinRows I env .InnerJoin info.withoutRemaining.conditions none L R).filter
    (holdsAll I env info.remaining) = joinRows I env .InnerJoin info.conditions none L R := by
  rw [joinRows, joinRows, filter_innerJoin]
  refine innerJoin_congr fun l _ r _ => ?_
  rw [pairHolds, pairHolds, JoinInfo.conditions, JoinInfo.conditions, JoinInfo.remaining]
  simp only [JoinInfo.withoutRemaining, nil_append, append_nil, holdsAll_append]
  ac_rfl

lemma eval_finishJoin (hresult : info.joinType.isOuterSemi = true → schema ≠ [])
  (hremaining : info.joinType = .LeftOuterJoin ∨ info.joinType = .RightOuterJoin →
    info.remaining = []) : (finishJoin .join info schema left right).eval I db env =
    (left.eval I db env).bind (fun L => (right.eval I db env).map
      (joinRows I env info.joinType info.conditions (info.resultColumn schema) L)) := by
  have hjoin : (LogicalPlan.join info (buildLogicalJoinSchema info.joinType schema left right)
      left right).eval I db env = (left.eval I db env).bind (fun L => (right.eval I db env).map
        (joinRows I env info.joinType info.conditions (info.resultColumn schema) L)) := by
    rw [LogicalPlan.eval, resultColumn_joinSchema hresult]
  by_cases hempty : info.remaining.isEmpty = true
  · rw [← hjoin, finishJoin]
    split <;> first | rfl | rw [if_pos hempty]
  · rw [finishJoin]
    cases htp : info.joinType <;> rw [htp] at hjoin <;> dsimp only
    · rw [if_neg hempty, LogicalPlan.eval, LogicalPlan.eval]
      have hnone : ∀ s, info.resultColumn s = none := fun s => by simp [JoinInfo.resultColumn, htp]
      have hnone' : ∀ s, info.withoutRemaining.resultColumn s = none := hnone
      have htp' : info.withoutRemaining.joinType = .InnerJoin := htp
      rw [hnone, hnone', htp', Option.map_bind]
      congr 1
      funext L
      rw [Function.comp_apply, Option.map_map]
      congr 1
      funext R
      exact filter_remaining L R
    · exact absurd (List.isEmpty_iff.mpr (hremaining (.inl htp))) hempty
    · exact absurd (List.isEmpty_iff.mpr (hremaining (.inr htp))) hempty
    all_goals exact hjoin

lemma mem_conditions_iff (info : JoinInfo) (e : Expr) : e ∈ info.conditions ↔
  e ∈ info.rightConditions ∨ e ∈ {info with rightConditions := []}.conditions := by
  simp only [JoinInfo.conditions, mem_append, not_mem_nil, or_false]
  tauto

/-- Pushing conditions through a join: the filters on its sides, what is left at the join and what
goes up make the conditions of the join and the ones above it. -/
lemma filter_joinRows_pushConditions {L R : List (Row V)} {result : Option Column}
  (hs : Sides I left right L R) (hleft : AllWithin left.scope info.leftConditions)
  (hright : AllWithin right.scope info.rightConditions)
  (hsafe : info.pushSafe left.schema right.schema = true)
  (hresult : ∀ c, result = some c → c.uniqueID ∉ left.allIds)
  (hpreds : info.joinType = .SemiJoin ∨ info.joinType = .AntiSemiJoin →
    AllWithin left.scope preds) :
  (joinRows I env info.joinType
    (info.pushConditions left.schema right.schema preds).info.conditions result
    (L.filter (holdsAll I env (info.pushConditions left.schema right.schema preds).leftCond))
    (R.filter (holdsAll I env
      (info.pushConditions left.schema right.schema preds).rightCond))).filter
      (holdsAll I env (info.pushConditions left.schema right.schema preds).ret) =
  (joinRows I env info.joinType info.conditions result L R).filter (holdsAll I env preds) := by
  have hfilter_nil : ∀ rows : List (Row V), rows.filter (holdsAll I env []) = rows :=
    fun rows => filter_eq_self.mpr fun _ _ => rfl
  have hin : ∀ {b : Bool}, b = info.pushSafe left.schema right.schema → b = true :=
    fun h => h.trans hsafe
  cases htp : info.joinType with
  | InnerJoin =>
    simp only [JoinInfo.pushConditions, htp]
    rw [hfilter_nil]
    refine innerJoin_divided hs fun row => ?_
    simp only [JoinInfo.conditions, holdsAll_append, Bool.and_assoc]
  | SemiJoin =>
    simp only [JoinInfo.pushConditions, htp]
    rw [hfilter_nil]
    refine semiJoin_divided hs (hpreds (.inl htp)) fun row => ?_
    simp only [JoinInfo.conditions, holdsAll_append, Bool.and_assoc]
  | LeftOuterJoin =>
    simp only [JoinInfo.pushConditions, htp]
    refine leftJoin_divided hs hright fun row => ?_
    simp only [JoinInfo.conditions, holdsAll_append, holdsAll_nil, Bool.and_true]
    ac_rfl
  | RightOuterJoin =>
    simp only [JoinInfo.pushConditions, htp]
    refine rightJoin_divided hs hleft fun row => ?_
    simp only [JoinInfo.conditions, holdsAll_append, holdsAll_nil, Bool.true_and, Bool.and_assoc]
  | AntiSemiJoin =>
    simp only [JoinInfo.pushConditions, htp]
    rw [hfilter_nil]
    exact antiSemiJoin_divided hs hright (hin (by rw [JoinInfo.pushSafe, htp]))
      (mem_conditions_iff info) (hpreds (.inr htp))
  | LeftOuterSemiJoin =>
    simp only [JoinInfo.pushConditions, htp]
    exact outerSemiJoin_divided rfl hs hright (hin (by rw [JoinInfo.pushSafe, htp]))
      (mem_conditions_iff info) hresult I.ofTruth
  | AntiLeftOuterSemiJoin =>
    simp only [JoinInfo.pushConditions, htp]
    exact outerSemiJoin_divided rfl hs hright (hin (by rw [JoinInfo.pushSafe, htp]))
      (mem_conditions_iff info) hresult fun v => I.ofTruth (v.map not)

variable {m : ℕ} {ret : List Expr} {p p' child child' : LogicalPlan}

/-- The node that came back, under a selection with what it returned, has the rows of the node
that satisfy the conditions. -/
def Pushed (I : Interp V) (db : Database V) (env : Row V) (n : ℕ) (p : LogicalPlan)
    (preds : List Expr) (p' : LogicalPlan) (ret : List Expr) : Prop :=
  ((addSelection p' ret).eval I db env).map (map (trunc I n)) =
    (p.eval I db env).map (filter (holdsAll I env preds))

lemma addSelection_nil (p : LogicalPlan) : addSelection p [] = p := rfl

omit [DecidableEq V] in
lemma filter_holdsAll_nil : filter (holdsAll I env []) = id := by
  funext rows
  exact filter_eq_self.mpr fun _ _ => rfl

lemma eval_addSelection (p : LogicalPlan) (conds : List Expr) :
  (addSelection p conds).eval I db env = (p.eval I db env).map (filter (holdsAll I env conds)) := by
  rw [addSelection]
  split
  · rename_i hempty
    rw [List.isEmpty_iff.mp hempty, filter_holdsAll_nil, Option.map_id, id]
  · rfl

omit [DecidableEq V] in
lemma map_congr_of_map_eq {α β γ δ : Type} {A : Option α} {B : Option β} {f : α → γ} {g : β → γ}
  {F : α → δ} {G : β → δ} (h : A.map f = B.map g) (hFG : ∀ a b, f a = g b → F a = G b) :
    A.map F = B.map G := by
  cases A with
  | none => cases B with
    | none => rfl
    | some b => simp at h
  | some a => cases B with
    | none => simp at h
    | some b =>
      simp only [Option.map_some, Option.some.injEq] at h ⊢
      exact hFG a b h

lemma map_trunc_eq_self (hids : ∀ id ∈ p.allIds, id ≤ n) {rows : List (Row V)}
  (h : p.eval I db env = some rows) {rows' : List (Row V)} (hsub : rows' ⊆ rows) :
  rows'.map (trunc I n) = rows' := by
  have hself : ∀ row ∈ rows', trunc I n row = row := fun row hrow =>
    trunc_eq_self fun id hid => eval_null p h (hsub hrow) fun hmem => by
      have := hids id hmem
      omega
  exact (map_congr_left hself).trans (List.map_id' rows')

lemma Pushed.lower (h : Pushed I db env m p preds p' ret) (hids : ∀ id ∈ p.allIds, id ≤ n)
  (hn : n ≤ m) : Pushed I db env n p preds p' ret := by
  have hmap := congrArg (Option.map (map (trunc I n))) h
  rw [Option.map_map, Option.map_map] at hmap
  have htrunc : map (trunc I n) ∘ map (trunc I m) = map (trunc I n) := by
    funext rows
    rw [Function.comp_apply, map_map]
    exact map_congr_left fun row _ => trunc_trunc hn
  rw [htrunc] at hmap
  rw [Pushed, hmap]
  cases heval : p.eval I db env with
  | none => rfl
  | some rows =>
    simp only [Option.map_some, Function.comp_apply, Option.some.injEq]
    exact map_trunc_eq_self hids heval (fun _ => mem_of_mem_filter)

lemma pushed_dataSource (ds : DataSource) (hids : ∀ id ∈ ds.schema.map (·.uniqueID), id ≤ n) :
  Pushed I db env n (.dataSource ds) preds (.dataSource ds) preds := by
  rw [Pushed, eval_addSelection]
  cases heval : (LogicalPlan.dataSource ds).eval I db env with
  | none => rfl
  | some rows =>
    simp only [Option.map_some, Option.some.injEq]
    exact map_trunc_eq_self (p := .dataSource ds) hids heval (fun _ => mem_of_mem_filter)

lemma pushed_selection {conds : List Expr} {aff aff' : Bool} {schema' : List Column}
  (h : Pushed I db env n child (conds ++ preds) child' ret) :
  Pushed I db env n (.selection conds aff schema child) preds
    (if ret.isEmpty then child' else .selection ret aff' schema' child') [] := by
  have hnode : (if ret.isEmpty then child' else LogicalPlan.selection ret aff' schema' child').eval
      I db env = (addSelection child' ret).eval I db env := by
    rw [addSelection]
    split <;> rfl
  rw [Pushed, addSelection_nil, hnode, h, LogicalPlan.eval, Option.map_map]
  congr 1
  funext rows
  rw [Function.comp_apply, filter_filter]
  refine filter_congr fun row _ => ?_
  rw [holdsAll_append, Bool.and_comm]

omit [DecidableEq V] in
lemma holdsAll_columnSubstitute (subst : List (Column × Expr)) (row : Row V) :
  holdsAll I env (preds.map (Expr.columnSubstitute subst)) row =
    holdsAll I env preds (bindRow I env subst row) := by
  rw [holdsAll, holdsAll, List.all_map]
  refine all_congr_of_mem fun e _ => ?_
  rw [Function.comp_apply, Expr.holds, Expr.holds, Expr.truth, Expr.truth,
    Expr.value_columnSubstitute]

lemma pushed_projection {exprs : List Expr}
  (h : Pushed I db env n child (preds.map (Expr.columnSubstitute (schema.zip exprs))) child' ret)
  (hids : ∀ q ∈ schema.zip exprs, q.1.uniqueID ≤ n) (hexprs : ∀ q ∈ schema.zip exprs, q.2.Below n) :
  Pushed I db env n (.projection exprs schema child) preds
    (.projection exprs schema (addSelection child' ret)) [] := by
  rw [Pushed, addSelection_nil, LogicalPlan.eval, LogicalPlan.eval, Option.map_map, Option.map_map]
  refine map_congr_of_map_eq h fun rows' rows hrows => ?_
  rw [Function.comp_apply, Function.comp_apply, map_map, filter_map]
  calc rows'.map (trunc I n ∘ bindRow I env (schema.zip exprs))
      = (rows'.map (trunc I n)).map (bindRow I env (schema.zip exprs)) := by
        rw [map_map]
        exact map_congr_left fun row _ => (trunc_bindRow hids hexprs row).symm
    _ = _ := by
        rw [hrows]
        congr 1
        exact filter_congr fun row _ => holdsAll_columnSubstitute _ row

lemma pushed_limit {offset count : ℕ} (h : Pushed I db env n child [] child' ret) :
  Pushed I db env n (.limit offset count child) []
    (.limit offset count (addSelection child' ret)) [] := by
  rw [Pushed, addSelection_nil, LogicalPlan.eval, LogicalPlan.eval, Option.map_map, Option.map_map]
  refine map_congr_of_map_eq h fun rows' rows hrows => ?_
  rw [filter_holdsAll_nil, id] at hrows
  rw [Function.comp_apply, Function.comp_apply, filter_holdsAll_nil, id, map_take, map_drop, hrows]

lemma pushed_maxOneRow (h : Pushed I db env n child [] child' ret) :
  Pushed I db env n (.maxOneRow child) [] (.maxOneRow (addSelection child' ret)) [] := by
  rw [Pushed, filter_holdsAll_nil, Option.map_id, id] at h
  rw [Pushed, filter_holdsAll_nil, Option.map_id, id, addSelection_nil, LogicalPlan.eval,
    LogicalPlan.eval, ← h]
  cases (addSelection child' ret).eval I db env with
  | none => rfl
  | some rows =>
    simp only [Option.bind_some, Option.map_some, length_map]
    split <;> rfl

omit [DecidableEq V] in
lemma sortLe_total (items : List (Expr × Bool)) (a b : Row V) :
  sortLe I env items a b = true ∨ sortLe I env items b a = true := by
  induction items with
  | nil => exact .inl rfl
  | cons item items ih =>
    have := I.le_total (item.1.value I env a) (item.1.value I env b)
    rw [sortLe, sortLe]
    grind

omit [DecidableEq V] in
lemma sortLe_trans (items : List (Expr × Bool)) (a b c : Row V)
  (hab : sortLe I env items a b = true) (hbc : sortLe I env items b c = true) :
  sortLe I env items a c = true := by
  induction items with
  | nil => rfl
  | cons item items ih =>
    have htrans := I.le_trans
    have htotal := I.le_total
    rw [sortLe] at hab hbc ⊢
    grind

lemma pushed_sort {byItems : List (Expr × Bool)} (h : Pushed I db env n child preds child' ret)
  (hitems : ∀ item ∈ byItems, item.1.Below n) :
  Pushed I db env n (.sort byItems child) preds (.sort byItems (addSelection child' ret)) [] := by
  rw [Pushed, addSelection_nil, LogicalPlan.eval, LogicalPlan.eval, Option.map_map, Option.map_map]
  refine map_congr_of_map_eq h fun rows' rows hrows => ?_
  have : Std.Total (fun a b : Row V => sortLe I env byItems a b = true) := ⟨sortLe_total byItems⟩
  have : IsTrans (Row V) (fun a b => sortLe I env byItems a b = true) := ⟨sortLe_trans byItems⟩
  rw [Function.comp_apply, Function.comp_apply, ← sortRows_trunc hitems, hrows]
  exact (filter_insertionSort rows).symm

omit [DecidableEq V] in
lemma holdsAll_filter_split (f : Expr → Bool) (es : List Expr) (row : Row V) :
  (holdsAll I env (es.filter f) row && holdsAll I env (es.filter (fun e => !f e)) row) =
    holdsAll I env es row := by
  rw [Bool.eq_iff_iff, Bool.and_eq_true, holdsAll_iff, holdsAll_iff, holdsAll_iff]
  simp only [mem_filter]
  constructor
  · rintro ⟨h, h'⟩ e he
    by_cases hf : f e = true
    · exact h e ⟨he, hf⟩
    · exact h' e ⟨he, by simp [hf]⟩
  · exact fun h => ⟨fun e he => h e he.1, fun e he => h e he.1⟩

lemma pushed_window {info : WindowInfo}
  (h : Pushed I db env n child (preds.filter info.pushes) child' ret)
  (hpartition : ∀ item ∈ info.partitionBy, item.col.uniqueID ≤ n)
  (horder : ∀ item ∈ info.orderBy, item.col.uniqueID ≤ n) (hschema : ∀ c ∈ schema, c.uniqueID ≤ n)
  (hpreds : ∀ e ∈ preds, e.Below n)
  (hfresh : ∀ item ∈ info.partitionBy, ∀ q ∈ info.resultColumns schema,
    q.1.uniqueID ≠ item.col.uniqueID)
  : Pushed I db env n (.window info schema child) preds
    (.window info schema (addSelection child' ret)) (preds.filter (fun e => !info.pushes e)) := by
  have hbelow : ∀ e ∈ preds.filter (fun e => !info.pushes e), e.Below n := fun e he =>
    hpreds e (mem_of_mem_filter he)
  -- the conditions that go down depend on the partition key only
  have hcolumns : ∀ e ∈ preds.filter info.pushes, ∀ c ∈ e.extractColumns,
      ∃ item ∈ info.partitionBy, item.col.uniqueID = c.uniqueID := by
    intro e he c hc
    have hmem := within_of_exprFromSchema (mem_filter.mp he).2 c hc
    simpa using hmem
  have hkey : ∀ a b : Row V, sortKey info.partitionBy a = sortKey info.partitionBy b →
      holdsAll I env (preds.filter info.pushes) a =
        holdsAll I env (preds.filter info.pushes) b := by
    intro a b hab
    refine holdsAll_congr fun e he c hc => ?_
    obtain ⟨item, hitem, heq⟩ := hcolumns e he c hc
    exact heq ▸ map_inj_left.mp hab item hitem
  rw [Pushed, eval_addSelection, LogicalPlan.eval, LogicalPlan.eval, Option.map_map, Option.map_map,
    Option.map_map]
  refine map_congr_of_map_eq h fun rows' rows hrows => ?_
  simp only [Function.comp_apply]
  rw [← filter_map_trunc hbelow, ← windowOp_trunc hpartition horder hschema, hrows]
  obtain ⟨q, hq⟩ := exists_key_filter (L := rows) fun a _ b _ => hkey a b
  have hrows' : rows.filter (holdsAll I env (preds.filter info.pushes)) =
      rows.filter (fun row => q (sortKey info.partitionBy row)) :=
    filter_congr fun row hrow => hq row hrow
  rw [hrows', windowOp, windowOp, windowRows_filter, filter_map, filter_map, filter_filter]
  congr 1
  refine filter_congr fun w hw => ?_
  have hw' : holdsAll I env (preds.filter info.pushes) (windowRow I info schema w) =
      q (sortKey info.partitionBy w.1) := by
    rw [← hq w.1 (mem_windowRows hw)]
    refine holdsAll_congr fun e he c hc => ?_
    obtain ⟨item, hitem, heq⟩ := hcolumns e he c hc
    exact windowRow_of_notMem (fun p hp => heq ▸ hfresh item hitem p hp) w
  rw [Function.comp_apply, Function.comp_apply, ← hw', Bool.and_comm]
  exact holdsAll_filter_split info.pushes preds _

variable {info : AggInfo}

lemma mem_getGroupByCols {c : Column} :
  c ∈ info.getGroupByCols ↔ .column c ∈ info.groupByItems := by
  rw [AggInfo.getGroupByCols, mem_filterMap]
  constructor
  · rintro ⟨e, he, heq⟩
    split at heq
    · cases heq
      exact he
    · simp at heq
  · exact fun h => ⟨_, h, rfl⟩

lemma argument_of_mem_zip {q : Column × Expr} (h : q ∈ schema.zip info.arguments) :
  ∃ f, (q.1, f) ∈ schema.zip info.aggFuncs ∧ q.2 = f.args.headD (.constant .null) := by
  rw [AggInfo.arguments, zip_map_right, mem_map] at h
  obtain ⟨⟨c, f⟩, hcf, rfl⟩ := h
  exact ⟨f, hcf, rfl⟩

omit [DecidableEq V] in
lemma bindRow_groupKey (hpass : info.PassesKeys schema) (row : Row V) {id : ℕ}
  (hid : id ∈ info.groupIds) : bindRow I env (schema.zip info.arguments) row id = row id := by
  rw [bindRow]
  split
  · rename_i q hq
    have heq : q.1.uniqueID = id := by simpa using find?_some hq
    obtain ⟨f, hf, harg⟩ := argument_of_mem_zip (mem_of_find?_eq_some hq)
    obtain ⟨-, c, hc, hcid⟩ := hpass (q.1, f) hf (heq ▸ hid)
    rw [harg, headD_eq_head?_getD, hc]
    exact congrArg row (hcid.trans heq)
  · rfl

omit [DecidableEq V] in
lemma aggRow_groupKey (hpass : info.PassesKeys schema) {row : Row V} {rows : List (Row V)}
  {id : ℕ} (hid : id ∈ info.groupIds)
  (hshown : id ∈ (schema.zip info.aggFuncs).map (·.1.uniqueID)) :
  aggRow I env info schema (row::rows) id = row id := by
  rw [aggRow]
  split
  · rename_i q hq
    have heq : q.1.uniqueID = id := by simpa using find?_some hq
    obtain ⟨hname, c, hc, hcid⟩ := hpass q (mem_of_find?_eq_some hq) (heq ▸ hid)
    obtain ⟨args, hargs⟩ : ∃ args, q.2.args = .column c::args := head?_eq_some_iff.mp hc
    simp only [aggValue, hname, hargs, Expr.values, Expr.value, headD_cons]
    exact congrArg row (hcid.trans heq)
  · rename_i hq
    obtain ⟨q, hq', heq⟩ := mem_map.mp hshown
    exact absurd (find?_eq_none.mp hq q hq') (by simp [heq])

omit [DecidableEq V] in
lemma holds_groupFunction (hpass : info.PassesKeys schema) {e : Expr}
  (he : exprFromSchema info.getGroupByCols e = true) (row : Row V) :
  (e.columnSubstitute (schema.zip info.arguments)).holds I env row = e.holds I env row := by
  rw [Expr.holds, Expr.holds, Expr.truth, Expr.truth, Expr.value_columnSubstitute,
    Expr.value_congr e fun c hc =>
      bindRow_groupKey hpass row (within_of_exprFromSchema he c hc)]

omit [DecidableEq V] in
/-- What goes below an aggregation, on a row of a group, and what stays above it, on the row of the
group, make the conditions. -/
lemma holdsAll_aggPush (hpass : info.PassesKeys schema) {row g : Row V}
  (hkeys : ∀ e ∈ preds, ∀ c ∈ e.extractColumns, c.uniqueID ∈ info.groupIds →
    g c.uniqueID = row c.uniqueID) :
  (holdsAll I env (info.pushConditions schema preds).1 row &&
    holdsAll I env (info.pushConditions schema preds).2 g) = holdsAll I env preds g := by
  induction preds with
  | nil => rfl
  | cons e es ih =>
    obtain ⟨he, hes⟩ := forall_mem_cons.mp hkeys
    rw [AggInfo.pushConditions, holdsAll_cons e es g, ← ih hes]
    dsimp only
    split
    · rename_i d
      have hconst : (Expr.constant d).holds I env row = (Expr.constant d).holds I env g := rfl
      rw [holdsAll_cons, holdsAll_cons, hconst]
      cases (Expr.constant d).holds I env g <;> simp
    · rename_i f args
      split
      · rename_i hfrom
        have hgroup : (Expr.scalarFunction f args).holds I env row =
            (Expr.scalarFunction f args).holds I env g :=
          Expr.holds_congr fun c hc => (he c hc (within_of_exprFromSchema hfrom c hc)).symm
        rw [holdsAll_cons, holds_groupFunction hpass hfrom, hgroup, Bool.and_assoc]
      · rw [holdsAll_cons]
        cases (Expr.scalarFunction f args).holds I env g <;> simp
    · rw [holdsAll_cons]
      cases e.holds I env g <;> simp

/-- Without a function that goes below, everything stays above and only constants go below. -/
lemma aggPush_constants (schema : List Column)
    (h : preds.all (fun e => !info.pushesFunction e) = true) :
  (info.pushConditions schema preds).2 = preds ∧ (info.pushConditions schema preds).1 ⊆ preds ∧
    AllWithin ∅ (info.pushConditions schema preds).1 := by
  induction preds with
  | nil => exact ⟨rfl, List.Subset.refl _, .nil⟩
  | cons e es ih =>
    rw [all_cons, Bool.and_eq_true] at h
    obtain ⟨hkeep, hsub, hconst⟩ := ih h.2
    rw [AggInfo.pushConditions]
    dsimp only
    split
    · exact ⟨by rw [hkeep], cons_subset_cons _ hsub, .cons (within_of_isEmpty rfl) hconst⟩
    · rename_i f args
      have hfrom : ¬exprFromSchema info.getGroupByCols (.scalarFunction f args) = true := by
        simpa [AggInfo.pushesFunction] using h.1
      rw [if_neg hfrom]
      exact ⟨by rw [hkeep], subset_cons_of_subset _ hsub, hconst⟩
    · exact ⟨by rw [hkeep], subset_cons_of_subset _ hsub, hconst⟩

omit [DecidableEq V] in
lemma holdsAll_aggPush_congr (hpass : info.PassesKeys schema) {a b : Row V}
  (h : Expr.values I env a info.groupByItems = Expr.values I env b info.groupByItems) :
  holdsAll I env (info.pushConditions schema preds).1 a =
    holdsAll I env (info.pushConditions schema preds).1 b := by
  have hkey : ∀ id ∈ info.groupIds, a id = b id := by
    intro id hid
    obtain ⟨c, hc, rfl⟩ := mem_map.mp hid
    rw [Expr.values_eq_map, Expr.values_eq_map] at h
    exact map_inj_left.mp h (.column c) (mem_getGroupByCols.mp hc)
  induction preds with
  | nil => rfl
  | cons e es ih =>
    rw [AggInfo.pushConditions]
    dsimp only
    split
    · rw [holdsAll_cons, holdsAll_cons, ih]
      rfl
    · rename_i f args
      split
      · rename_i hfrom
        rw [holdsAll_cons, holdsAll_cons, ih, holds_groupFunction hpass hfrom,
          holds_groupFunction hpass hfrom,
          Expr.holds_congr fun c hc => hkey _ (within_of_exprFromSchema hfrom c hc)]
      · exact ih
    · exact ih

/-- Conditions pushed below an aggregation and those kept above it select the groups that the
conditions above it select. -/
lemma aggregateRows_push (hpass : info.PassesKeys schema)
    (hsized : info.aggFuncs.length = schema.length)
  (hpreds : AllWithin {id | id ∈ schema.map (·.uniqueID)} preds)
  (hsafe : (!info.groupByItems.isEmpty || preds.all (fun e => !info.pushesFunction e)) = true)
  (rows : List (Row V)) : (aggregateRows I env info schema (rows.filter
    (holdsAll I env (info.pushConditions schema preds).1))).filter
      (holdsAll I env (info.pushConditions schema preds).2) =
  (aggregateRows I env info schema rows).filter (holdsAll I env preds) := by
  have hshown : (schema.zip info.aggFuncs).map (·.1.uniqueID) = schema.map (·.uniqueID) := by
    calc (schema.zip info.aggFuncs).map (·.1.uniqueID)
        = ((schema.zip info.aggFuncs).map Prod.fst).map (·.uniqueID) := by
          rw [map_map]
          rfl
      _ = schema.map (·.uniqueID) := by rw [map_fst_zip hsized.ge]
  rw [aggregateRows, aggregateRows]
  split
  · rename_i hempty
    -- one group: constants either drop its row or keep all rows
    have hsafe : preds.all (fun e => !info.pushesFunction e) = true := by simpa [hempty] using hsafe
    obtain ⟨hkeep, hsub, hconst⟩ := aggPush_constants schema hsafe
    rw [hkeep]
    by_cases hholds : holdsAll I env (info.pushConditions schema preds).1 env = true
    · have hall : rows.filter (holdsAll I env (info.pushConditions schema preds).1) = rows :=
        filter_eq_self.mpr fun row _ => (holdsAll_const hconst row env).trans hholds
      rw [hall]
    · have hnone : ∀ row : Row V, ¬holdsAll I env preds row = true := fun row hrow =>
        hholds ((holdsAll_const hconst env row).trans (holdsAll_of_subset hsub hrow))
      rw [filter_eq_nil_iff.mpr fun row _ => hnone row, filter_eq_nil_iff.mpr fun row _ =>
        hnone row]
  · obtain ⟨q, hq⟩ : ∃ q : List V → Bool, ∀ row ∈ rows,
        holdsAll I env (info.pushConditions schema preds).1 row =
          q (Expr.values I env row info.groupByItems) :=
      exists_key_filter fun a _ b _ hab => holdsAll_aggPush_congr hpass hab
    have hrows : rows.filter (holdsAll I env (info.pushConditions schema preds).1) =
        rows.filter (fun row => q (Expr.values I env row info.groupByItems)) :=
      filter_congr hq
    have hgroups : groups (fun row => Expr.values I env row info.groupByItems)
        (rows.filter (fun row => q (Expr.values I env row info.groupByItems))) =
        (groups (fun row => Expr.values I env row info.groupByItems) rows).filter
          (fun g => q g.1) := groups_filter
    rw [hrows, hgroups, filter_map, filter_map, filter_filter]
    congr 1
    refine filter_congr fun g hg => ?_
    obtain ⟨hne, hmem⟩ := mem_groups hg
    obtain ⟨row, tail, hg₂⟩ := exists_cons_of_ne_nil hne
    obtain ⟨hrow, hkey⟩ := hmem row (by rw [hg₂]; exact mem_cons_self)
    have hpush : q g.1 = holdsAll I env (info.pushConditions schema preds).1 row := by
      rw [hq row hrow, ← hkey]
    rw [Function.comp_apply, Function.comp_apply, hpush, Bool.and_comm]
    refine holdsAll_aggPush hpass fun e he c hc hid => ?_
    rw [hg₂]
    exact aggRow_groupKey hpass hid (hshown ▸ hpreds e he c hc)

lemma pushed_aggregation (h : Pushed I db env n child
    (info.pushConditions schema preds).1 child' ret) (hpass : info.PassesKeys schema)
  (hsized : info.aggFuncs.length = schema.length)
  (hpreds : AllWithin {id | id ∈ schema.map (·.uniqueID)} preds)
  (hsafe : (!info.groupByItems.isEmpty || preds.all (fun e => !info.pushesFunction e)) = true)
  (hkeys : ∀ e ∈ info.groupByItems, e.Below n)
  (hargs : ∀ f ∈ info.aggFuncs, ∀ e ∈ f.args, e.Below n)
  (hids : ∀ id ∈ schema.map (·.uniqueID), id ≤ n) :
    Pushed I db env n (.aggregation info schema child) preds
    (.aggregation info schema (addSelection child' ret)) (info.pushConditions schema preds).2 := by
  have htrunc : ∀ rows : List (Row V), ∀ row ∈ aggregateRows I env info schema rows, trunc I n row =
    row := by
    intro rows row hrow
    have hagg : ∀ rows', trunc I n (aggRow I env info schema rows') =
        aggRow I env info schema rows' := fun rows' => trunc_eq_self fun id hid => by
      rw [aggRow, find?_zip_eq_none fun hmem => by have := hids id hmem; omega]
    rw [aggregateRows] at hrow
    split at hrow
    · rw [mem_singleton.mp hrow, hagg]
    · obtain ⟨g, -, rfl⟩ := mem_map.mp hrow
      exact hagg g.2
  rw [Pushed, eval_addSelection, LogicalPlan.eval, LogicalPlan.eval, Option.map_map, Option.map_map,
    Option.map_map]
  refine map_congr_of_map_eq h fun rows' rows hrows => ?_
  simp only [Function.comp_apply]
  rw [← aggregateRows_push hpass hsized hpreds hsafe, ← hrows, aggregateRows_trunc hkeys hargs]
  refine (map_congr_left fun row hrow => ?_).trans (List.map_id' _)
  exact htrunc rows' row (mem_of_mem_filter hrow)

variable {n₁ n₂ : ℕ} {S : Set ℕ} {info : JoinInfo} {children : List LogicalPlan}

lemma aggPush_within {info : AggInfo} (hkeys : AllWithin S info.groupByItems)
  (hargs : ∀ f ∈ info.aggFuncs, AllWithin S f.args) :
    AllWithin S (info.pushConditions schema preds).1 := by
  have hsubst : ∀ q ∈ schema.zip info.arguments, q.2.Within S := by
    intro q hq
    obtain ⟨f, hf, harg⟩ := argument_of_mem_zip hq
    rw [harg]
    cases hfargs : f.args with
    | nil => exact within_of_isEmpty rfl
    | cons a as => exact hargs f (of_mem_zip hf).2 a (by rw [hfargs]; exact mem_cons_self)
  induction preds with
  | nil => exact .nil
  | cons e es ih =>
    rw [AggInfo.pushConditions]
    dsimp only
    split
    · exact .cons (within_of_isEmpty rfl) ih
    · split
      · rename_i hfrom
        refine .cons (Expr.within_columnSubstitute _ hsubst fun c hc _ => ?_) ih
        obtain ⟨d, hd, heq⟩ := mem_map.mp (within_of_exprFromSchema hfrom c hc)
        exact heq ▸ hkeys _ (mem_getGroupByCols.mp hd) d mem_cons_self
      · exact ih
    · exact ih

lemma pushConditions_within (hleft : AllWithin left.scope info.leftConditions)
  (hright : AllWithin right.scope info.rightConditions) (hpreds : AllWithin S preds) :
  AllWithin left.scope (info.pushConditions left.schema right.schema preds).leftCond ∧
  AllWithin right.scope (info.pushConditions left.schema right.schema preds).rightCond ∧
  AllWithin S (info.pushConditions left.schema right.schema preds).ret := by
  have hempty : ∀ {T : Set ℕ} {es : List Expr}, AllWithin ∅ es → AllWithin T es := fun h =>
    h.mono (Set.empty_subset _)
  have houter : ∀ tp : JoinType, let on := extractOnCondition tp left.schema right.schema preds
      AllWithin left.scope on.left ∧ AllWithin right.scope (info.rightConditions ++ on.own) ∧
      AllWithin S (on.equal.map ScalarFunction.toExpr ++ on.other ++ on.right) := by
    intro tp on
    have hdiv := divides_extractOnCondition tp left.schema right.schema preds
    exact ⟨hdiv.left_within, hright.append (hempty hdiv.own_within),
      ((hdiv.equal hpreds).append (hpreds.of_subset hdiv.other_subset)).append
        (hpreds.of_subset hdiv.right_subset)⟩
  have hboth : ∀ (tp : JoinType) (es : List Expr),
      AllWithin left.scope (extractOnCondition tp left.schema right.schema es).left ∧
      AllWithin right.scope (extractOnCondition tp left.schema right.schema es).right := by
    intro tp es
    have hdiv := divides_extractOnCondition tp left.schema right.schema es
    exact ⟨hdiv.left_within, hdiv.right_within⟩
  cases htp : info.joinType with
  | InnerJoin | SemiJoin =>
    simp only [JoinInfo.pushConditions, htp]
    exact ⟨(hboth _ _).1, (hboth _ _).2, .nil⟩
  | LeftOuterJoin | LeftOuterSemiJoin | AntiLeftOuterSemiJoin =>
    simp only [JoinInfo.pushConditions, htp]
    exact houter _
  | RightOuterJoin =>
    simp only [JoinInfo.pushConditions, htp]
    have hdiv := divides_extractOnCondition .RightOuterJoin left.schema right.schema preds
    exact ⟨hleft.append (hempty hdiv.own_within), hdiv.right_within,
      ((hdiv.equal hpreds).append (hpreds.of_subset hdiv.other_subset)).append
        (hpreds.of_subset hdiv.left_subset)⟩
  | AntiSemiJoin =>
    simp only [JoinInfo.pushConditions, htp]
    exact ⟨(hboth _ _).1, hright.append (hboth _ _).2, .nil⟩

/-- The join that remains has no columns other than those of its conditions and the ones above. -/
lemma pushConditions_conditions_within (hconds : AllWithin S info.conditions)
  (hpreds : AllWithin S preds) :
  AllWithin S (info.pushConditions left.schema right.schema preds).info.conditions := by
  have hall : AllWithin S (info.leftConditions ++ info.rightConditions ++
      info.equalConditions.map ScalarFunction.toExpr ++ info.otherConditions ++ preds) := by
    refine AllWithin.append (hconds.of_subset fun e he => ?_) hpreds
    simpa [JoinInfo.conditions, append_assoc] using he
  have hinner : ∀ (tp : JoinType) (es : List Expr), AllWithin S es →
      AllWithin S ((extractOnCondition tp left.schema right.schema es).equal.map
        ScalarFunction.toExpr ++ (extractOnCondition tp left.schema right.schema es).other) := by
    intro tp es hes
    have hdiv := divides_extractOnCondition tp left.schema right.schema es
    exact (hdiv.equal hes).append (hes.of_subset hdiv.other_subset)
  have hright : {info with rightConditions := []}.conditions ⊆ info.conditions := fun e he =>
    (mem_conditions_iff info e).mpr (.inr he)
  cases htp : info.joinType with
  | InnerJoin | SemiJoin =>
    simp only [JoinInfo.pushConditions, htp]
    exact hinner _ _ hall
  | LeftOuterJoin | LeftOuterSemiJoin | AntiLeftOuterSemiJoin | AntiSemiJoin =>
    simp only [JoinInfo.pushConditions, htp]
    refine hconds.of_subset fun e he => hright ?_
    simpa [JoinInfo.conditions, htp] using he
  | RightOuterJoin =>
    simp only [JoinInfo.pushConditions, htp]
    refine hconds.of_subset fun e he => ?_
    simp only [JoinInfo.conditions, nil_append, mem_append] at he ⊢
    tauto

lemma bind_map_congr {α β γ : Type} {A A' : Option α} {B B' : Option β} {f : α → α} {g : β → β}
  {F : α → β → γ} (hA : A.map f = A') (hB : B.map g = B') :
  (A.bind fun a => B.map fun b => F (f a) (g b)) = A'.bind fun a => B'.map fun b => F a b := by
  subst hA hB
  cases A with
  | none => rfl
  | some a => cases B <;> rfl

lemma pushed_join (hfl : Frame n n₁ left left') (hfr : Frame n₁ n₂ right right')
  (hp : Scoped (.join info schema left right))
  (hids : ∀ id ∈ (LogicalPlan.join info schema left right).allIds, id ≤ n)
  (hpreds : AllWithin (LogicalPlan.join info schema left right).scope preds)
  (hsafe : info.pushSafe left.schema right.schema = true)
  (hl : (left'.eval I db env).map (map (trunc I n)) =
    (left.eval I db env).map
      (filter (holdsAll I env (info.pushConditions left.schema right.schema preds).leftCond)))
  (hr : (right'.eval I db env).map (map (trunc I n)) =
    (right.eval I db env).map
      (filter (holdsAll I env (info.pushConditions left.schema right.schema preds).rightCond)))
  : let pushed := info.pushConditions left.schema right.schema preds
  let out := updateEQCond pushed.info left' right' n₂
  Pushed I db env n (.join info schema left right) preds
    (finishJoin .join out.1 schema out.2.1 out.2.2.1) pushed.ret := by
  intro pushed out
  have .join _ _ hdisjoint boundLeft boundRight bound shown result fresh := hp
  have hidl : ∀ id ∈ left.allIds, id ≤ n := fun id hid =>
    hids id (mem_append_right _ (mem_append_left _ hid))
  have hidr : ∀ id ∈ right.allIds, id ≤ n := fun id hid =>
    hids id (mem_append_right _ (mem_append_right _ hid))
  have hscopel : left.scope⊆{id | id ≤ n} := fun id hid => hidl id (ids_subset_allIds left hid)
  have hscoper : right.scope⊆{id | id ≤ n} := fun id hid => hidr id (ids_subset_allIds right hid)
  have hbelow : AllWithin {id | id ≤ n} preds :=
    hpreds.mono fun id hid => hids id (mem_append_left _ hid)
  have hconds : AllWithin {id | id ≤ n} info.conditions :=
    ((boundLeft.mono hscopel).append (boundRight.mono hscoper)).append
      (bound.mono (Set.union_subset hscopel hscoper))
  have hresult : ∀ c, info.resultColumn schema = some c → c.uniqueID ≤ n := fun c hc =>
    hids _ (mem_append_left _ (mem_map_of_mem (mem_of_resultColumn hc)))
  have hret : ∀ e ∈ pushed.ret, e.Below n :=
    (pushConditions_within boundLeft boundRight hbelow).2.2
  -- the numbers of the new sides come from two intervals above the old ones
  have hle := hfl.le.trans hfr.le
  have hdisjoint' : ∀ id ∈ left'.allIds, id ∉ right'.allIds := by
    intro id hid hid'
    rcases hfl.allIds id hid with hold | hnew
    · rcases hfr.allIds id hid' with hold' | hnew'
      · exact hdisjoint id hold hold'
      · have := hidl id hold
        have := hfl.le
        omega
    · rcases hfr.allIds id hid' with hold' | hnew'
      · have := hidr id hold'
        omega
      · omega
  have hbl : ∀ id ∈ left'.allIds, id ≤ n₂ := fun id hid => by
    have := hfr.le
    rcases hfl.allIds id hid with hold | hnew
    · exact (hidl id hold).trans hle
    · omega
  have hbr : ∀ id ∈ right'.allIds, id ≤ n₂ := fun id hid => by
    rcases hfr.allIds id hid with hold | hnew
    · exact (hidr id hold).trans hle
    · omega
  have hfinish : (finishJoin .join out.1 schema out.2.1 out.2.2.1).eval I db env = _ :=
    eval_finishJoin (by simpa [out, pushed] using result) fun htp =>
      remaining_eq_nil preds n₂ hsafe hfl.ids hfr.ids (by simpa [out, pushed] using htp)
  have htp : out.1.joinType = info.joinType := by simp [out, pushed]
  have hcol : out.1.resultColumn schema = info.resultColumn schema := by
    simp only [JoinInfo.resultColumn, htp]
  rw [Pushed, eval_addSelection, hfinish, htp, hcol, LogicalPlan.eval]
  calc _ = ((out.2.1.eval I db env).bind fun L => (out.2.2.1.eval I db env).map fun R =>
        (joinRows I env info.joinType out.1.conditions (info.resultColumn schema) L R).map
          (trunc I n)).map (filter (holdsAll I env pushed.ret)) := by
        cases out.2.1.eval I db env with
        | none => rfl
        | some L => cases out.2.2.1.eval I db env with
          | none => rfl
          | some R => exact congrArg some (filter_map_trunc hret _).symm
    _ = ((left'.eval I db env).bind fun L => (right'.eval I db env).map fun R =>
        joinRows I env info.joinType pushed.info.conditions (info.resultColumn schema)
          (L.map (trunc I n)) (R.map (trunc I n))).map (filter (holdsAll I env pushed.ret)) := by
        rw [joinRows_updateEQCond hfl.sized hfr.sized hle hbl hbr hdisjoint'
          (pushConditions_conditions_within hconds hbelow) hresult]
    _ = _ := by
        rw [bind_map_congr hl hr]
        cases hL : left.eval I db env with
        | none => rfl
        | some L => cases hR : right.eval I db env with
          | none => rfl
          | some R =>
            have hs : Sides I left right L R := ⟨fun l hlmem id hid => eval_null left hL hlmem hid,
              fun r hrmem id hid => eval_null right hR hrmem hid, hdisjoint⟩
            refine congrArg some (filter_joinRows_pushConditions hs boundLeft boundRight hsafe
              (fun c hc => (fresh c hc).1) fun hsemi => hpreds.mono fun id hid => ?_)
            obtain ⟨c, hc, rfl⟩ := mem_map.mp hid
            rcases shown c hc with h | ⟨h, -⟩ | h
            · exact h
            · rcases hsemi with hsemi | hsemi <;> simp [hsemi, JoinType.showsRight] at h
            · rcases hsemi with hsemi | hsemi <;> simp [hsemi, JoinInfo.resultColumn] at h

lemma keptChild_of_safe (hp : Scoped p) (hsafe : pushSafe p preds = true)
  (hret : (predicatePushDown p preds n).1 ≠ []) :
  keptChild p (predicatePushDown p preds n).2.1 = (predicatePushDown p preds n).2.1 := by
  cases hp with
  | @join info schema left right hl hr disjoint boundLeft boundRight bound shown result fresh =>
    rw [pushSafe] at hsafe
    simp only [Bool.and_eq_true] at hsafe
    rw [predicatePushDown_join] at hret ⊢
    have hfl := frame_pushedSide hl (info.pushConditions left.schema right.schema preds).leftCond n
    have hfr := frame_pushedSide hr (info.pushConditions left.schema right.schema preds).rightCond
      (pushedSide left (info.pushConditions left.schema right.schema preds).leftCond n).2
    have hnil := fun m => remaining_eq_nil preds m hsafe.1.1 hfl.ids hfr.ids
    dsimp only at hret ⊢
    rw [finishJoin]
    cases htp : info.joinType <;>
      simp only [joinType_updateEQCond, joinType_pushConditions, htp] at hnil ⊢
    · exact absurd (by simp [JoinInfo.pushConditions, htp]) hret
    · rw [hnil _ (by simp)]
      rfl
    · rw [hnil _ (by simp)]
      rfl
    all_goals rfl
  | dataSource | selection | projection | aggregation | unionAll | limit | sort | window
  | maxOneRow => rfl

lemma evals_predicatePushDowns (hframe : ∀ c ∈ children, ∀ m, m ≤ (predicatePushDown c preds m).2.2)
  (hpushed : ∀ c ∈ children, ∀ m ≥ n, pushSafe c preds = true →
    Pushed I db env n c preds (predicatePushDown c preds m).2.1 (predicatePushDown c preds m).1)
  (hsafe : pushSafes children preds = true) {m : ℕ} (hm : n ≤ m) :
  (evals I db (predicatePushDowns children preds m).1 env).map (Option.map (map (trunc I n)))
    = (evals I db children env).map (Option.map (filter (holdsAll I env preds))) := by
  induction children generalizing m with
  | nil => rfl
  | cons c cs ih =>
    rw [pushSafes, Bool.and_eq_true] at hsafe
    have hhead := hpushed c mem_cons_self m hm hsafe.1
    have htail := ih (fun d hd => hframe d (mem_cons_of_mem _ hd))
      (fun d hd => hpushed d (mem_cons_of_mem _ hd)) hsafe.2
      (hm.trans (hframe c mem_cons_self m))
    rw [Pushed] at hhead
    rw [predicatePushDowns]
    dsimp only
    rw [evals, evals, map_cons, map_cons, hhead, htail]

lemma pushed_unionAll {children' : List LogicalPlan}
  (h : (evals I db children' env).map (Option.map (map (trunc I n))) =
    (evals I db children env).map (Option.map (filter (holdsAll I env preds))))
  : Pushed I db env n (.unionAll schema children) preds (.unionAll schema children') [] := by
  rw [Pushed, addSelection_nil, LogicalPlan.eval, LogicalPlan.eval,
    ← concatAll_map rfl (fun l l' => map_append), h,
      concatAll_map rfl (fun l l' => filter_append l l')]

/-- A side of a join gives the rows of the side that satisfy the conditions sent to it. -/
lemma eval_pushedSide {conds : List Expr} {m : ℕ}
  (h : Pushed I db env m p (removeDupExprs conds) (predicatePushDown p (removeDupExprs conds) m).2.1
    (predicatePushDown p (removeDupExprs conds) m).1)
  (hhash : hashSafe conds = true) (hids : ∀ id ∈ p.allIds, id ≤ n) (hm : n ≤ m) :
  ((pushedSide p conds m).1.eval I db env).map (map (trunc I n)) =
    (p.eval I db env).map (filter (holdsAll I env conds)) := by
  have hdedup : holdsAll I env (removeDupExprs conds) = holdsAll I env conds :=
    funext (holdsAll_removeDupExprs hhash)
  have hlow := h.lower hids hm
  rwa [Pushed, hdedup] at hlow

lemma pushed_predicatePushDown (hp : Scoped p) {preds : List Expr} {n : ℕ}
  (hids : ∀ id ∈ p.allIds, id ≤ n) (hsafe : pushSafe p preds = true)
  (hpreds : AllWithin p.scope preds) :
  Pushed I db env n p preds (predicatePushDown p preds n).2.1 (predicatePushDown p preds n).1 := by
  induction hp generalizing preds n with
  | dataSource ds => exact pushed_dataSource ds hids
  | @selection conds aff schema child hc bound shown ih =>
    rw [pushSafe] at hsafe
    have hchild := ih (fun id hid => hids id (mem_append_right _ hid)) hsafe
      (bound.append (hpreds.mono fun id hid => shown hid))
    rw [predicatePushDown]
    dsimp only
    have hkept : ∀ ret, ret = (predicatePushDown child (conds ++ preds) n).1 →
        (if ret.isEmpty then (predicatePushDown child (conds ++ preds) n).2.1
          else .selection ret aff schema
            (keptChild child (predicatePushDown child (conds ++ preds) n).2.1)) =
        if ret.isEmpty then (predicatePushDown child (conds ++ preds) n).2.1
          else .selection ret aff schema (predicatePushDown child (conds ++ preds) n).2.1 := by
      rintro ret rfl
      split
      · rfl
      · rename_i hret
        rw [keptChild_of_safe hc hsafe fun h => hret (List.isEmpty_iff.mpr h)]
    rw [hkept _ rfl]
    exact pushed_selection hchild
  | @projection exprs schema child hc sized bound ih =>
    rw [pushSafe] at hsafe
    have hzip : ∀ q ∈ schema.zip exprs, q.2.Within child.scope := fun q hq =>
      bound _ (of_mem_zip hq).2
    have hidc : ∀ id ∈ child.allIds, id ≤ n := fun id hid => hids id (mem_append_right _ hid)
    refine pushed_projection (ih hidc hsafe fun e he => ?_)
      (fun q hq => hids _ (mem_append_left _ (mem_map_of_mem (of_mem_zip hq).1)))
      fun q hq => (hzip q hq).mono fun id hid => hidc id (ids_subset_allIds child hid)
    obtain ⟨e, hmem, rfl⟩ := mem_map.mp he
    have hnames : schema.map (·.uniqueID) = (schema.zip exprs).map (·.1.uniqueID) := by
      conv_lhs => rw [← map_fst_zip sized.ge, map_map]
      rfl
    refine Expr.within_columnSubstitute e hzip fun c hc hfree => absurd ?_ hfree
    exact hnames ▸ hpreds e hmem c hc
  | @join info schema left right hl hr disjoint boundLeft boundRight bound shown result fresh
      ihl ihr =>
    rw [pushSafe] at hsafe
    simp only [Bool.and_eq_true] at hsafe
    obtain ⟨⟨hinfo, hhashl, hsafel⟩, hhashr, hsafer⟩ := hsafe
    have hidl : ∀ id ∈ left.allIds, id ≤ n := fun id hid =>
      hids id (mem_append_right _ (mem_append_left _ hid))
    have hidr : ∀ id ∈ right.allIds, id ≤ n := fun id hid =>
      hids id (mem_append_right _ (mem_append_right _ hid))
    obtain ⟨hconl, hconr, -⟩ := pushConditions_within boundLeft boundRight hpreds
    have hfl := frame_pushedSide hl (info.pushConditions left.schema right.schema preds).leftCond n
    have hfr := frame_pushedSide hr (info.pushConditions left.schema right.schema preds).rightCond
      (pushedSide left (info.pushConditions left.schema right.schema preds).leftCond n).2
    rw [predicatePushDown_join]
    exact pushed_join hfl hfr
      (.join hl hr disjoint boundLeft boundRight bound shown result fresh) hids hpreds hinfo
      (eval_pushedSide (ihl hidl hsafel (hconl.of_subset (removeDupExprs_subset _))) hhashl hidl
        le_rfl)
      (eval_pushedSide (ihr (fun id hid => (hidr id hid).trans hfl.le) hsafer
        (hconr.of_subset (removeDupExprs_subset _))) hhashr hidr hfl.le)
  | @aggregation info schema child hc boundKeys boundArgs passed sized ih =>
    rw [pushSafe, Bool.and_eq_true] at hsafe
    have hidc : ∀ id ∈ child.allIds, id ≤ n := fun id hid => hids id (mem_append_right _ hid)
    have hscope : child.scope⊆{id | id ≤ n} := fun id hid => hidc id (ids_subset_allIds child hid)
    exact pushed_aggregation (ih hidc hsafe.2 (aggPush_within boundKeys boundArgs)) passed sized
      hpreds hsafe.1 (boundKeys.mono hscope) (fun f hf => (boundArgs f hf).mono hscope)
      fun id hid => hids id (mem_append_left _ hid)
  | @unionAll schema children hcs shown ih =>
    rw [pushSafe] at hsafe
    have hidc : ∀ c ∈ children, ∀ id ∈ c.allIds, id ≤ n := fun c hc id hid =>
      hids id (mem_append_right _ (mem_allIdsList.mpr ⟨c, hc, hid⟩))
    exact pushed_unionAll (evals_predicatePushDowns
      (fun c hc m => (frame_predicatePushDown (hcs c hc) preds m).le)
      (fun c hc m hm hsafe => (ih c hc (fun id hid => (hidc c hc id hid).trans hm) hsafe
        (hpreds.mono fun id hid => shown c hc hid)).lower (hidc c hc) hm) hsafe le_rfl)
  | @limit offset count child hc ih =>
    rw [pushSafe, Bool.and_eq_true, List.isEmpty_iff] at hsafe
    obtain ⟨rfl, hsafe⟩ := hsafe
    exact pushed_limit (ih hids hsafe .nil)
  | @sort byItems child hc bound ih =>
    rw [pushSafe] at hsafe
    exact pushed_sort (ih hids hsafe hpreds) fun item hitem => (bound item hitem).mono fun id hid =>
      hids id (ids_subset_allIds child hid)
  | @window info schema child hc boundPartition boundOrder fresh ih =>
    rw [pushSafe] at hsafe
    have hidc : ∀ id ∈ child.ids, id ≤ n := fun id hid =>
      hids id (mem_append_right _ (ids_subset_allIds child hid))
    refine pushed_window (ih (fun id hid => hids id (mem_append_right _ hid)) hsafe
      fun e he c hc => ?_) (fun item hitem => hidc _ (boundPartition item hitem))
      (fun item hitem => hidc _ (boundOrder item hitem))
      (fun c hc => hids _ (mem_append_left _ (mem_map_of_mem hc)))
      (hpreds.mono fun id hid => hids id (mem_append_left _ hid)) fresh
    -- the conditions that go down use columns of the partition only
    have hmem := within_of_exprFromSchema (mem_filter.mp he).2 c hc
    obtain ⟨item, hitem, heq⟩ : ∃ item ∈ info.partitionBy, item.col.uniqueID = c.uniqueID := by
      simpa using hmem
    exact heq ▸ boundPartition item hitem
  | @maxOneRow child hc ih =>
    rw [pushSafe, Bool.and_eq_true, List.isEmpty_iff] at hsafe
    obtain ⟨rfl, hsafe⟩ := hsafe
    exact pushed_maxOneRow (ih hids hsafe .nil)

lemma predicatePushDown_nil (p : LogicalPlan) (n : ℕ) : (predicatePushDown p [] n).1 = [] := by
  have hjoin : ∀ (info : JoinInfo) (left right : List Column),
      (info.pushConditions left right []).ret = [] := by
    intro info left right
    rw [JoinInfo.pushConditions]
    split <;> rfl
  cases p with
  | join info schema left right =>
    rw [predicatePushDown_join]
    exact hjoin info left.schema right.schema
  | apply info schema left right =>
    rw [predicatePushDown]
    exact hjoin info left.schema right.schema
  | _ => rfl

/-- Push-down over a whole safe plan keeps its columns and its rows, in their order. -/
theorem tuples_ppdSolver (I : Interp V) (db : Database V) {p : LogicalPlan} (hp : Scoped p)
  {next : ℕ} (hids : ∀ id ∈ p.allIds, id ≤ next) (hsafe : pushSafe p [] = true) :
  p.ids ⊆ (ppdSolver p next).ids ∧ (ppdSolver p next).tuples I db p.ids = p.tuples I db p.ids := by
  refine ⟨(frame_predicatePushDown hp [] next).ids, ?_⟩
  have hpushed : Pushed I db (fun _ => I.null) next p [] (ppdSolver p next)
      (predicatePushDown p [] next).1 := pushed_predicatePushDown hp hids hsafe .nil
  rw [predicatePushDown_nil, Pushed, addSelection_nil, filter_holdsAll_nil, Option.map_id,
    id] at hpushed
  rw [tuples, tuples, ← hpushed, Option.map_map]
  congr 1
  funext rows
  rw [Function.comp_apply, map_map]
  refine map_congr_left fun row _ => map_congr_left fun id hid => ?_
  rw [trunc, if_pos (hids id (ids_subset_allIds p hid))]

/-- Integers with SQL comparisons; a comparison with `NULL` is unknown. -/
def sqlInterp : Interp Datum where
  null := .null
  constant := id
  scalarFunction
    | .EQ, [.int a, .int b] => .int (if a = b then 1 else 0)
    | .GT, [.int a, .int b] => .int (if b < a then 1 else 0)
    | _, _ => .null
  truth
    | .null => none
    | .int v => some (v ≠ 0)
    | .string _ => some false
  ofTruth
    | none => .null
    | some b => .int (if b then 1 else 0)
  aggregate _ _ _ rows := .int rows.length
  window _ _ _ i := .int (i+1)
  le
    | .null, _ => true
    | _, .null => false
    | .int a, .int b => a ≤ b
    | .int _, .string _ => true
    | .string _, .int _ => false
    | .string a, .string b => a ≤ b
  equal_comm a b := by
    cases a <;> cases b <;> first | rfl | simp only [eq_comm]
  le_total a b := by
    cases a <;> cases b <;> simp [le_total]
  le_trans a b c := by
    cases a <;> cases b <;> cases c <;> simp <;> exact le_trans

def scanColumn (table : String) (id : ℕ) : LogicalPlan :=
  .dataSource {dbTable := table, schema := [{uniqueID := id, origName := table}]}

def greater (id : ℕ) (v : ℤ) : Expr :=
  .scalarFunction .GT [.column {uniqueID := id}, .constant (.int v)]

def equals (id id' : ℕ) : ScalarFunction where
  funcName := .EQ
  args := [.column {uniqueID := id}, .column {uniqueID := id'}]

/-- `select * from (select a from t limit 1) where a > 5`. -/
def limitedPlan : LogicalPlan :=
  .selection [greater 1 5] false [{uniqueID := 1}] (.limit 0 1 (scanColumn "t" 1))

/-- `select * from t join u on t.a = u.b and t.a > 5`. -/
def joinedPlan (tp : JoinType) : LogicalPlan :=
  .join {joinType := tp, equalConditions := [equals 1 2], leftConditions := [greater 1 5]}
    [{uniqueID := 1}, {uniqueID := 2}] (scanColumn "t" 1) (scanColumn "u" 2)

def sampleTables : Database Datum := fun table =>
  if table = "t" then [fun _ => .int 3, fun _ => .int 7] else [fun _ => .int 3]

lemma scoped_limitedPlan : Scoped limitedPlan :=
  .selection (.limit (.dataSource _))
    (by simp [AllWithin, Expr.Within, greater, Expr.extractColumns, Expr.extractColumnsList,
      LogicalPlan.scope, LogicalPlan.ids, LogicalPlan.schema, scanColumn])
    (by decide)

lemma scoped_joinedPlan (tp : JoinType) (h : tp = .InnerJoin ∨ tp = .LeftOuterJoin) :
  Scoped (joinedPlan tp) := by
  refine .join (.dataSource _) (.dataSource _) ?_ ?_ .nil ?_ ?_ ?_ ?_
  · decide
  · simp [AllWithin, Expr.Within, greater, Expr.extractColumns, Expr.extractColumnsList,
      LogicalPlan.scope, LogicalPlan.ids, LogicalPlan.schema, scanColumn]
  · simp [AllWithin, Expr.Within, equals, ScalarFunction.toExpr, Expr.extractColumns,
      Expr.extractColumnsList, LogicalPlan.scope, LogicalPlan.ids, LogicalPlan.schema, scanColumn]
  · rcases h with rfl | rfl <;>
      simp [LogicalPlan.ids, LogicalPlan.schema, scanColumn, JoinType.showsRight]
  · rcases h with rfl | rfl <;> simp
  · rcases h with rfl | rfl <;> simp [JoinInfo.resultColumn]

theorem tuples_ppdSolver_joinedPlan :
  (ppdSolver (joinedPlan .InnerJoin) 2).tuples sqlInterp sampleTables [1, 2] =
    (joinedPlan .InnerJoin).tuples sqlInterp sampleTables [1, 2] :=
  (tuples_ppdSolver sqlInterp sampleTables (scoped_joinedPlan .InnerJoin (.inl rfl))
    (by decide : ∀ id ∈ (joinedPlan .InnerJoin).allIds, id ≤ 2) (by decide)).2

/-- A condition that passes a limit selects before the limit; a condition of an outer join that
is applied above it drops the rows without a partner. -/
theorem ppdSolver_changes_rows :
  (Scoped limitedPlan ∧ limitedPlan.tuples sqlInterp sampleTables [1] = some [] ∧
    (ppdSolver limitedPlan 1).tuples sqlInterp sampleTables [1] = some [[.int 7]]) ∧
  (Scoped (joinedPlan .LeftOuterJoin) ∧
    (joinedPlan .LeftOuterJoin).tuples sqlInterp sampleTables [1, 2] =
      some [[.int 3, .null], [.int 7, .null]] ∧
    (ppdSolver (joinedPlan .LeftOuterJoin) 2).tuples sqlInterp sampleTables [1, 2] =
      some [[.int 7, .null]]) :=
  ⟨⟨scoped_limitedPlan, by decide, by decide⟩,
    scoped_joinedPlan .LeftOuterJoin (.inr rfl), by decide, by decide⟩

end Scql.Planner
