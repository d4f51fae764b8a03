import Scql.PushDownFrame
import Scql.RowScope

/-! # Moving conditions through a join

The conditions above a join and its own conditions are divided by the side they look at. For
each type of join the rows that remain are the same, as long as no condition of an outer join
has to be applied above it, and no comparison with an `in` operand is taken for a filter. -/
namespace Scql.Planner

open RowAlgebra LogicalPlan List

variable {V : Type} {I : Interp V} {env : Row V}

/-- Conditions with the same hash code are the same condition. -/
def hashSafe (es : List Expr) : Bool :=
  es.all (fun e => es.all (fun e' => e.hashCode ≠ e'.hashCode || e.equal e'))

mutual
lemma Expr.value_of_equal {row : Row V} (e e' : Expr) (h : e.equal e' = true) :
  e.value I env row = e'.value I env row := by
  cases e <;> cases e' <;> simp only [Expr.equal, Bool.false_eq_true] at h
  · rw [Expr.value, Expr.value, of_decide_eq_true h]
  · rw [Expr.value, Expr.value, of_decide_eq_true h]
  · rw [Expr.value, Expr.value, of_decide_eq_true h]
  · rename_i f args f' args'
    rw [Bool.and_eq_true, decide_eq_true_eq] at h
    rw [Expr.value, Expr.value, h.1, Expr.values_of_equalList args args' h.2]

lemma Expr.values_of_equalList {row : Row V} (es es' : List Expr)
  (h : Expr.equalList es es' = true) : Expr.values I env row es = Expr.values I env row es' := by
  cases es <;> cases es' <;> simp only [Expr.equalList, Bool.false_eq_true] at h
  · rfl
  · rename_i e es e' es'
    rw [Bool.and_eq_true] at h
    rw [Expr.values, Expr.values, Expr.value_of_equal e e' h.1, Expr.values_of_equalList es es' h.2]
end

lemma removeDupFrom_subset (seen : List (List HashToken)) (es : List Expr) :
  removeDupFrom seen es ⊆ es := by
  induction es generalizing seen with
  | nil => exact List.Subset.refl _
  | cons e es ih =>
    rw [removeDupFrom]
    split
    · exact subset_cons_of_subset e (ih seen)
    · exact cons_subset_cons e (ih _)

variable (es : List Expr)

lemma removeDupExprs_subset : removeDupExprs es ⊆ es :=
  removeDupFrom_subset [] es

lemma exists_mem_removeDupFrom (seen : List (List HashToken)) {es : List Expr} {e : Expr}
  (he : e ∈ es) : e.hashCode ∈ seen ∨ ∃ e' ∈ removeDupFrom seen es, e'.hashCode = e.hashCode := by
  induction es generalizing seen with
  | nil => exact absurd he not_mem_nil
  | cons d es ih =>
    rw [removeDupFrom]
    rcases mem_cons.mp he with rfl | he
    · split
      · exact .inl ‹_›
      · exact .inr ⟨e, mem_cons_self, rfl⟩
    · split
      · exact ih seen he
      · rcases ih (d.hashCode::seen) he with hseen | ⟨e', he', heq⟩
        · rcases mem_cons.mp hseen with hd | hseen
          · exact .inr ⟨d, mem_cons_self, hd.symm⟩
          · exact .inl hseen
        · exact .inr ⟨e', mem_cons_of_mem _ he', heq⟩

lemma holdsAll_removeDupExprs {es : List Expr} (h : hashSafe es = true) (row : Row V) :
  holdsAll I env (removeDupExprs es) row = holdsAll I env es row := by
  rw [Bool.eq_iff_iff, holdsAll_iff, holdsAll_iff]
  refine ⟨fun hholds e he => ?_, fun hholds e he => hholds e (removeDupExprs_subset es he)⟩
  rcases exists_mem_removeDupFrom [] he with hseen | ⟨e', he', hhash⟩
  · exact absurd hseen not_mem_nil
  · have hsafe := all_eq_true.mp (all_eq_true.mp h e he) e' (removeDupExprs_subset es he')
    have hequal : e.equal e' = true := by simpa [hhash] using hsafe
    rw [Expr.holds, Expr.truth, Expr.value_of_equal e e' hequal]
    exact hholds e' he'

variable {tp : JoinType} {left right : List Column}

lemma holds_of_columnEquality {e : Expr} {sf : ScalarFunction}
  (h : columnEquality left right e = some sf) (row : Row V) :
  sf.toExpr.holds I env row = e.holds I env row := by
  obtain ⟨a, b, rfl, rfl | rfl, -, -⟩ := columnEquality_eq_some h
  · rfl
  · have hvalue : (ScalarFunction.toExpr {funcName := .EQ, args := [.column a, .column b]}).value
        I env row = (Expr.scalarFunction .EQ [.column b, .column a]).value I env row :=
      I.equal_comm _ _
    rw [Expr.holds, Expr.truth, hvalue]
    rfl

variable (I env) in
lemma holdsAll_extractOnCondition (tp : JoinType) (left right : List Column) (es : List Expr)
  (row : Row V) : holdsAll I env es row =
    (holdsAll I env ((extractOnCondition tp left right es).equal.map ScalarFunction.toExpr) row &&
      holdsAll I env (extractOnCondition tp left right es).other row &&
      (holdsAll I env (extractOnCondition tp left right es).left row &&
        holdsAll I env (extractOnCondition tp left right es).right row)) := by
  induction es with
  | nil => rfl
  | cons e es ih =>
    rw [extractOnCondition, holdsAll_cons, ih]
    split
    · rename_i sf hsf
      rw [map_cons, holdsAll_cons, holds_of_columnEquality hsf]
      simp only [Bool.and_assoc]
    · split_ifs
      · unfold OnConditions.pushDownConstExpr
        split <;> simp only [holdsAll_cons] <;> cases e.holds I env row <;> simp
      all_goals
        simp only [holdsAll_cons]
        cases e.holds I env row <;> simp

lemma holdsAll_ret_left (row : Row V) :
  (holdsAll I env ((extractOnCondition tp left right es).equal.map ScalarFunction.toExpr ++
      (extractOnCondition tp left right es).other ++
      (extractOnCondition tp left right es).right) row &&
    holdsAll I env (extractOnCondition tp left right es).left row) = holdsAll I env es row := by
  rw [holdsAll_extractOnCondition I env tp left right es, holdsAll_append, holdsAll_append,
    Bool.and_assoc _ _ (holdsAll I env (extractOnCondition tp left right es).left row),
    Bool.and_comm (holdsAll I env (extractOnCondition tp left right es).right row)]

lemma holdsAll_ret_right (row : Row V) :
  (holdsAll I env ((extractOnCondition tp left right es).equal.map ScalarFunction.toExpr ++
      (extractOnCondition tp left right es).other ++
      (extractOnCondition tp left right es).left) row &&
    holdsAll I env (extractOnCondition tp left right es).right row) = holdsAll I env es row := by
  rw [holdsAll_extractOnCondition I env tp left right es, holdsAll_append, holdsAll_append,
    Bool.and_assoc]

/-- The join keeps rows of its left side that have no match. -/
def JoinType.keepsLeft : JoinType → Bool
  | .LeftOuterJoin | .LeftOuterSemiJoin | .AntiLeftOuterSemiJoin => true
  | _ => false

lemma own_subset_left (htp : tp.keepsLeft = true) (es : List Expr) :
  (extractOnCondition tp left right es).own ⊆ (extractOnCondition tp left right es).left := by
  induction es with
  | nil => exact List.Subset.refl _
  | cons e es ih =>
    rw [extractOnCondition]
    split
    · exact ih
    · split_ifs
      · cases tp <;> simp only [JoinType.keepsLeft, Bool.false_eq_true] at htp <;>
          exact cons_subset_cons e ih
      · exact ih
      · exact subset_cons_of_subset e ih
      · exact ih

lemma own_subset_right : (extractOnCondition .RightOuterJoin left right es).own ⊆
    (extractOnCondition .RightOuterJoin left right es).right := by
  induction es with
  | nil => exact List.Subset.refl _
  | cons e es ih =>
    rw [extractOnCondition]
    split
    · exact ih
    · split_ifs
      · exact cons_subset_cons e ih
      · exact subset_cons_of_subset e ih
      · exact ih
      · exact ih

/-- Conditions on the left side of an anti join go down on the left; those without columns also
on the right. -/
lemma extractOnCondition_antiSemi (left right : List Column) {es : List Expr}
  (hes : AllWithin {id | id ∈ left.map (·.uniqueID)} es) (hdisjoint : ∀ id ∈ left.map (·.uniqueID),
    id ∉ right.map (·.uniqueID)) : (extractOnCondition .AntiSemiJoin left right es).left = es ∧
  ∀ e ∈ (extractOnCondition .AntiSemiJoin left right es).right, e ∈ es ∧ e.Within ∅ := by
  induction es with
  | nil => exact ⟨rfl, fun e he => absurd he not_mem_nil⟩
  | cons e es ih =>
    obtain ⟨he, hes⟩ := forall_mem_cons.mp hes
    obtain ⟨hleft, hright⟩ := ih hes
    have hright' : ∀ e' ∈ (extractOnCondition .AntiSemiJoin left right es).right,
        e' ∈ e::es ∧ e'.Within ∅ := fun e' he' =>
      ⟨mem_cons_of_mem _ (hright e' he').1, (hright e' he').2⟩
    rw [extractOnCondition]
    split
    · rename_i sf hsf
      obtain ⟨a, b, -, hform, ha, hb⟩ := columnEquality_eq_some hsf
      have hb' : b.uniqueID ∈ left.map (·.uniqueID) := by
        rcases hform with rfl | rfl
        · exact he b (by simp [Expr.extractColumns, Expr.extractColumnsList])
        · exact he b (by simp [Expr.extractColumns, Expr.extractColumnsList])
      exact absurd hb (hdisjoint _ hb')
    · split_ifs with hempty hfromRight hfromLeft
      · refine ⟨by rw [OnConditions.pushDownConstExpr, hleft], fun e' he' => ?_⟩
        rcases mem_cons.mp he' with rfl | he'
        · exact ⟨mem_cons_self, within_of_isEmpty hempty⟩
        · exact hright' e' he'
      · obtain ⟨c, hc⟩ := exists_mem_of_ne_nil e.extractColumns (fun h => hempty (by simp [h]))
        exact absurd (within_of_exprFromSchema hfromRight c hc) (hdisjoint _ (he c hc))
      · exact ⟨by rw [hleft], hright'⟩
      · exact absurd (exprFromSchema_iff.mpr he) hfromLeft

section Sides

variable [DecidableEq V]

/-- The rows of the two sides of a join bind different columns. -/
structure Sides (I : Interp V) (left right : LogicalPlan) (L R : List (Row V)) : Prop where
  left_null : ∀ l ∈ L, ∀ id, id ∉ left.allIds → l id = I.null
  right_null : ∀ r ∈ R, ∀ id, id ∉ right.allIds → r id = I.null
  disjoint : ∀ id ∈ left.allIds, id ∉ right.allIds

variable {left right : LogicalPlan} {L R : List (Row V)} {l r : Row V} {es : List Expr}

section
variable (h : Sides I left right L R)
include h

lemma Sides.merge_left (hr : r ∈ R) {id : ℕ} (hid : id ∈ left.allIds) : merge I l r id = l id := by
  rw [merge]
  split
  · rename_i hnull
    rw [hnull, h.right_null r hr id (h.disjoint id hid)]
  · rfl

lemma Sides.merge_right (hl : l ∈ L) {id : ℕ} (hid : id ∈ right.allIds) :
  merge I l r id = r id := by
  rw [merge, if_pos]
  exact h.left_null l hl id fun hmem => h.disjoint id hmem hid

lemma Sides.holdsAll_left (hr : r ∈ R) (hes : AllWithin left.scope es) :
  holdsAll I env es (merge I l r) = holdsAll I env es l :=
  holdsAll_congr fun e he c hc => h.merge_left hr (ids_subset_allIds left (hes e he c hc))

lemma Sides.holdsAll_right (hl : l ∈ L) (hes : AllWithin right.scope es) :
  holdsAll I env es (merge I l r) = holdsAll I env es r :=
  holdsAll_congr fun e he c hc => h.merge_right hl (ids_subset_allIds right (hes e he c hc))

end

omit [DecidableEq V] in
lemma holdsAll_const (hes : AllWithin ∅ es) (row row' : Row V) :
  holdsAll I env es row = holdsAll I env es row' :=
  holdsAll_congr fun e he c hc => absurd (hes e he c hc) (Set.notMem_empty _)

omit [DecidableEq V] in
lemma holdsAll_of_subset {es' : List Expr} {row : Row V} (hsub : es' ⊆ es)
  (h : holdsAll I env es row = true) : holdsAll I env es' row = true :=
  holdsAll_iff.mpr fun e he => holdsAll_iff.mp h e (hsub he)

omit [DecidableEq V] in
/-- A row of the side that is kept decides the conditions without columns that were added to the
other side. -/
lemma holdsAll_own {own kept : List Expr} (hsub : own ⊆ kept) (hown : AllWithin ∅ own)
  {row : Row V} (h : holdsAll I env kept row = true) (row' : Row V) :
    holdsAll I env own row' = true := by
  rw [holdsAll_const hown row' row]
  exact holdsAll_of_subset hsub h

end Sides

variable [DecidableEq V] {left right : LogicalPlan} {L R : List (Row V)}
  {es conds conds' side preds : List Expr} {result : Option Column}

section
variable (h : Sides I left right L R)
include h

lemma Sides.holdsAll_divided (tp : JoinType) (es : List Expr) {l r : Row V} (hl : l ∈ L)
    (hr : r ∈ R) :
  let on := extractOnCondition tp left.schema right.schema es
  (holdsAll I env on.left l && holdsAll I env on.right r &&
    pairHolds I env (on.equal.map ScalarFunction.toExpr ++ on.other) l r) =
      holdsAll I env es (merge I l r) := by
  intro on
  have hdiv := divides_extractOnCondition tp left.schema right.schema es
  rw [holdsAll_extractOnCondition I env tp left.schema right.schema es,
    h.holdsAll_left hr hdiv.left_within, h.holdsAll_right hl hdiv.right_within, pairHolds,
    holdsAll_append]
  exact Bool.and_comm _ _

lemma innerJoin_divided
  (hes : ∀ row, holdsAll I env es row = (holdsAll I env conds row && holdsAll I env preds row)) :
  let on := extractOnCondition .InnerJoin left.schema right.schema es
  innerJoin (pairHolds I env (on.equal.map ScalarFunction.toExpr ++ on.other)) (merge I)
    (L.filter (holdsAll I env on.left)) (R.filter (holdsAll I env on.right)) =
  (innerJoin (pairHolds I env conds) (merge I) L R).filter (holdsAll I env preds) := by
  intro on
  rw [innerJoin_filter, filter_innerJoin]
  refine innerJoin_congr fun l hl r hr => ?_
  exact (h.holdsAll_divided .InnerJoin es hl hr).trans (hes _)

lemma semiJoin_divided (hpreds : AllWithin left.scope preds)
  (hes : ∀ row, holdsAll I env es row = (holdsAll I env conds row && holdsAll I env preds row)) :
  let on := extractOnCondition .SemiJoin left.schema right.schema es
  semiJoin (pairHolds I env (on.equal.map ScalarFunction.toExpr ++ on.other))
    (L.filter (holdsAll I env on.left)) (R.filter (holdsAll I env on.right)) =
  (semiJoin (pairHolds I env conds) L R).filter (holdsAll I env preds) := by
  intro on
  rw [semiJoin_filter, filter_semiJoin]
  refine semiJoin_congr fun l hl r hr => ?_
  rw [← h.holdsAll_left hr hpreds]
  exact (h.holdsAll_divided .SemiJoin es hl hr).trans (hes _)

omit h [DecidableEq V] in
/-- An outer join whose kept rows were filtered by `kept` and whose other rows by conditions of the
join. -/
lemma outerJoin_divided {K O : List (Row V)} {m m' : Row V → Row V → Bool}
    {g : Row V → Row V → Row V}
  {kept other ret : List Expr} (hmatch : ∀ k ∈ K, holdsAll I env kept k = true → ∀ o ∈ O,
    (holdsAll I env other o && m' k o) = m k o)
  (hkept : ∀ k ∈ K, ∀ o ∈ O, holdsAll I env kept (g k o) = holdsAll I env kept k)
  (hret : ∀ row, (holdsAll I env ret row && holdsAll I env kept row) = holdsAll I env preds row) :
  (leftJoin m' g id (K.filter (holdsAll I env kept)) (O.filter (holdsAll I env other))).filter
      (holdsAll I env ret) = (leftJoin m g id K O).filter (holdsAll I env preds) := by
  refine (congrArg _ (leftJoin_filter hmatch hkept fun _ _ => rfl)).trans ?_
  rw [filter_filter]
  exact filter_congr fun row _ => hret row

lemma leftJoin_divided (hside : AllWithin right.scope side)
  (hconds : ∀ row, holdsAll I env conds row =
    (holdsAll I env side row && holdsAll I env conds' row)) :
  let on := extractOnCondition .LeftOuterJoin left.schema right.schema preds
  (leftJoin (pairHolds I env conds') (merge I) id (L.filter (holdsAll I env on.left))
    (R.filter (holdsAll I env (side ++ on.own)))).filter
      (holdsAll I env (on.equal.map ScalarFunction.toExpr ++ on.other ++ on.right)) =
  (leftJoin (pairHolds I env conds) (merge I) id L R).filter (holdsAll I env preds) := by
  intro on
  have hdiv := divides_extractOnCondition .LeftOuterJoin left.schema right.schema preds
  refine outerJoin_divided (fun l hl hpass r hr => ?_)
    (fun l _ r hr => h.holdsAll_left hr hdiv.left_within) (holdsAll_ret_left preds)
  rw [holdsAll_append, holdsAll_own (own_subset_left rfl preds) hdiv.own_within hpass r,
    Bool.and_true, pairHolds, pairHolds, hconds, h.holdsAll_right hl hside]

lemma rightJoin_divided (hside : AllWithin left.scope side)
  (hconds : ∀ row, holdsAll I env conds row =
    (holdsAll I env side row && holdsAll I env conds' row)) :
  let on := extractOnCondition .RightOuterJoin left.schema right.schema preds
  (leftJoin (fun r l => pairHolds I env conds' l r) (fun r l => merge I l r) id
    (R.filter (holdsAll I env on.right)) (L.filter (holdsAll I env (side ++ on.own)))).filter
      (holdsAll I env (on.equal.map ScalarFunction.toExpr ++ on.other ++ on.left)) =
  (leftJoin (fun r l => pairHolds I env conds l r) (fun r l => merge I l r) id R L).filter
    (holdsAll I env preds) := by
  intro on
  have hdiv := divides_extractOnCondition .RightOuterJoin left.schema right.schema preds
  refine outerJoin_divided (fun r hr hpass l hl => ?_)
    (fun r _ l hl => h.holdsAll_right hl hdiv.right_within) (holdsAll_ret_right preds)
  rw [holdsAll_append, holdsAll_own (own_subset_right preds) hdiv.own_within hpass l,
    Bool.and_true, pairHolds, pairHolds, hconds, h.holdsAll_left hr hside]

end

omit [DecidableEq V] in
/-- Conditions that are no comparison with an `in` operand act as a filter on the rows of the
subquery. -/
lemma outcome_side {row : Row V} (hside : side.all (fun e => !isEQCondFromIn e) = true)
  (hconds : ∀ e, e ∈ conds ↔ e ∈ side ∨ e ∈ conds') : outcome I env conds row =
    if holdsAll I env side row then outcome I env conds' row else some false := by
  have hvalue : ∀ e ∈ side, e.outcome I env row = some (e.holds I env row) := by
    intro e he
    have hin : isEQCondFromIn e = false := by simpa using all_eq_true.mp hside e he
    simp [Expr.outcome, hin]
  have hmem : ∀ v, v ∈ conds.map (Expr.outcome I env row) ↔
      v ∈ side.map (Expr.outcome I env row) ++ conds'.map (Expr.outcome I env row) := by
    intro v
    simp only [mem_map, mem_append, hconds, or_and_right, exists_or]
  rw [outcome, allTri_congr hmem, outcome]
  by_cases hholds : holdsAll I env side row = true
  · rw [if_pos hholds, allTri_append_of_true]
    intro v hv
    obtain ⟨e, he, rfl⟩ := mem_map.mp hv
    rw [hvalue e he, holdsAll_iff.mp hholds e he]
  · rw [if_neg hholds, allTri_append_of_false]
    rw [holdsAll_iff, not_forall₂] at hholds
    obtain ⟨e, he, hnot⟩ := hholds
    rw [← Bool.eq_false_iff.mpr hnot, ← hvalue e he]
    exact mem_map_of_mem he

/-- A semi join whose conditions on the right side were applied there, for a left row that
satisfies the conditions without columns. -/
lemma semiOutcome_side (h : Sides I left right L R) (hside : AllWithin right.scope side)
  (hin : side.all (fun e => !isEQCondFromIn e) = true)
  (hconds : ∀ e, e ∈ conds ↔ e ∈ side ∨ e ∈ conds')
  {l : Row V} (hl : l ∈ L) {own : List Expr} (hown : ∀ r, holdsAll I env own r = true) :
    semiOutcome I
  env conds' (R.filter (holdsAll I env (side ++ own))) l = semiOutcome I env conds R l := by
  rw [semiOutcome, semiOutcome, anyTri_filter]
  congr 1
  refine map_congr_left fun r hr => ?_
  rw [pairOutcome, pairOutcome, outcome_side hin hconds, h.holdsAll_right hl hside,
    holdsAll_append, hown, Bool.and_true]

lemma antiSemiJoin_divided (h : Sides I left right L R) (hside : AllWithin right.scope side)
  (hin : side.all (fun e => !isEQCondFromIn e) = true)
  (hconds : ∀ e, e ∈ conds ↔ e ∈ side ∨ e ∈ conds') (hpreds : AllWithin left.scope preds) :
  let on := extractOnCondition .AntiSemiJoin left.schema right.schema preds
  joinRows I env .AntiSemiJoin conds' result (L.filter (holdsAll I env on.left))
    (R.filter (holdsAll I env (side ++ on.right))) =
  (joinRows I env .AntiSemiJoin conds result L R).filter (holdsAll I env preds) := by
  intro on
  obtain ⟨hleft, hright⟩ := extractOnCondition_antiSemi left.schema right.schema hpreds
    fun id hid hid' => h.disjoint id (ids_subset_allIds left hid) (ids_subset_allIds right hid')
  rw [joinRows, joinRows, filter_filter, filter_filter]
  refine filter_congr fun l hl => ?_
  rw [Bool.and_comm, hleft]
  by_cases hpass : holdsAll I env preds l = true
  · rw [semiOutcome_side h hside hin hconds hl
      (holdsAll_own (fun e he => (hright e he).1) (fun e he => (hright e he).2) hpass)]
  · simp [hpass]

omit [DecidableEq V] in
lemma holdsAll_setColumn {v : V} {row : Row V} (hes : AllWithin left.scope es)
  (hresult : ∀ c, result = some c → c.uniqueID ∉ left.allIds) :
  holdsAll I env es (setColumn result v row) = holdsAll I env es row := by
  refine holdsAll_congr fun e he c hc => ?_
  rw [setColumn, if_neg]
  intro heq
  obtain ⟨d, hd, hid⟩ := Option.map_eq_some_iff.mp heq
  exact hresult d hd (hid ▸ ids_subset_allIds left (hes e he c hc))

lemma outerSemiJoin_divided {tp : JoinType} (htp : tp.keepsLeft = true)
  (h : Sides I left right L R) (hside : AllWithin right.scope side)
  (hin : side.all (fun e => !isEQCondFromIn e) = true)
  (hconds : ∀ e, e ∈ conds ↔ e ∈ side ∨ e ∈ conds')
  (hresult : ∀ c, result = some c → c.uniqueID ∉ left.allIds) (f : Option Bool → V) :
  let on := extractOnCondition tp left.schema right.schema preds
  ((L.filter (holdsAll I env on.left)).map (fun l => setColumn result
    (f (semiOutcome I env conds' (R.filter (holdsAll I env (side ++ on.own))) l)) l)).filter
      (holdsAll I env (on.equal.map ScalarFunction.toExpr ++ on.other ++ on.right)) =
  (L.map (fun l => setColumn result (f (semiOutcome I env conds R l)) l)).filter
    (holdsAll I env preds) := by
  intro on
  have hdiv : on.Divides left.schema right.schema preds := divides_extractOnCondition _ _ _ preds
  have hrows : (L.filter (holdsAll I env on.left)).map (fun l => setColumn result
      (f (semiOutcome I env conds' (R.filter (holdsAll I env (side ++ on.own))) l)) l) =
      (L.map (fun l => setColumn result (f (semiOutcome I env conds R l)) l)).filter
        (holdsAll I env on.left) := by
    rw [filter_map]
    have hfilter : L.filter (holdsAll I env on.left ∘
        fun l => setColumn result (f (semiOutcome I env conds R l)) l) =
        L.filter (holdsAll I env on.left) :=
      filter_congr fun l _ => holdsAll_setColumn hdiv.left_within hresult
    rw [hfilter]
    refine map_congr_left fun l hl => ?_
    obtain ⟨hl, hpass⟩ := mem_filter.mp hl
    rw [semiOutcome_side h hside hin hconds hl
      (holdsAll_own (own_subset_left htp preds) hdiv.own_within hpass)]
  rw [hrows, filter_filter]
  exact filter_congr fun row _ => holdsAll_ret_left preds row

end Scql.Planner
