import Scql.PlanSemantics

/-! # Which columns the rows of a plan bind

A plan binds only the columns numbered below it, and its operators do not look at other
numbers: hiding the numbers above a bound before or after an operator gives the same rows. -/
namespace Scql.Planner

open RowAlgebra LogicalPlan List Function
open Option (bind_eq_some_iff map_eq_some_iff some)

variable {V : Type} [DecidableEq V] {I : Interp V} {env : Row V} {id : ℕ}

variable {tp : JoinType} {conds : List Expr} {L R : List (Row V)}

lemma joinRows_null {result : Option Column} (hL : ∀ l ∈ L, l id = I.null)
    (hR : ∀ r ∈ R, r id = I.null)
  (hresult : ∀ c, result = some c → c.uniqueID ≠ id) :
  ∀ row ∈ joinRows I env tp conds result L R, row id = I.null := by
  have hmerge : ∀ l ∈ L, ∀ r ∈ R, merge I l r id = I.null := by
    intro l hl r hr
    rw [merge, if_pos (hL l hl), hR r hr]
  have hset : ∀ v, ∀ l ∈ L, setColumn result v l id = I.null := by
    intro v l hl
    rw [setColumn, if_neg, hL l hl]
    intro heq
    obtain ⟨c, hc, hid⟩ := map_eq_some_iff.mp heq
    exact hresult c hc hid
  intro row hrow
  cases tp with
  | InnerJoin =>
    obtain ⟨l, hl, hrow⟩ := mem_flatMap.mp hrow
    obtain ⟨r, hr, rfl⟩ := mem_map.mp hrow
    exact hmerge l hl r (mem_of_mem_filter hr)
  | LeftOuterJoin =>
    obtain ⟨l, hl, hrow⟩ := mem_flatMap.mp hrow
    split at hrow
    · obtain ⟨r, hr, rfl⟩ := mem_map.mp hrow
      exact hmerge l hl r (mem_of_mem_filter hr)
    · rw [mem_singleton.mp hrow]
      exact hL l hl
  | RightOuterJoin =>
    obtain ⟨r, hr, hrow⟩ := mem_flatMap.mp hrow
    split at hrow
    · obtain ⟨l, hl, rfl⟩ := mem_map.mp hrow
      exact hmerge l (mem_of_mem_filter hl) r hr
    · rw [mem_singleton.mp hrow]
      exact hR r hr
  | SemiJoin | AntiSemiJoin => exact hL row (mem_of_mem_filter hrow)
  | LeftOuterSemiJoin | AntiLeftOuterSemiJoin =>
    obtain ⟨l, hl, rfl⟩ := mem_map.mp hrow
    exact hset _ l hl

variable {schema : List Column}

lemma mem_of_resultColumn {info : JoinInfo} {c : Column} (h : info.resultColumn schema = some c) :
  c ∈ schema := by
  unfold JoinInfo.resultColumn at h
  split at h
  · exact mem_of_getLast? h
  · exact mem_of_getLast? h
  · simp at h

lemma find?_zip_eq_none {α : Type} {as : List α} (h : id ∉ schema.map (·.uniqueID)) :
  (schema.zip as).find? (fun q => q.1.uniqueID = id) = none := by
  rw [find?_eq_none]
  intro q hq heq
  have hid : q.1.uniqueID = id := by simpa using heq
  exact h (hid ▸ mem_map_of_mem (of_mem_zip hq).1)

variable {info : WindowInfo}

lemma mem_schema_of_resultColumns {q : Column × WindowName}
  (h : q ∈ info.resultColumns schema) : q.1 ∈ schema :=
  mem_of_mem_drop (of_mem_zip h).1

omit [DecidableEq V] in
lemma windowRow_of_notMem (h : ∀ q ∈ info.resultColumns schema, q.1.uniqueID ≠ id)
  (w : Row V × List (Row V) × ℕ) : windowRow I info schema w id = w.1 id := by
  have hnone : (info.resultColumns schema).find? (fun q => q.1.uniqueID = id) = none := by
    rw [find?_eq_none]
    exact fun q hq heq => h q hq (by simpa using heq)
  rw [windowRow, hnone]

variable {db : Database V}

lemma mem_evals {ps : List LogicalPlan} {x : Option (List (Row V))} :
  x ∈ evals I db ps env ↔ ∃ p ∈ ps, p.eval I db env = x := by
  induction ps with
  | nil => simp [evals]
  | cons p ps ih => simp [evals, ih, eq_comm]

lemma eval_null (p : LogicalPlan) {env : Row V} {rows : List (Row V)}
  (h : p.eval I db env = some rows) {row : Row V} (hrow : row ∈ rows) (hid : id ∉ p.allIds) :
    row id = I.null := by
  induction p using LogicalPlan.induct generalizing env rows row with
  | dataSource ds =>
    cases h
    obtain ⟨record, -, rfl⟩ := mem_map.mp hrow
    have hnone : ds.schema.find? (fun c => c.uniqueID = id) = none := by
      rw [find?_eq_none]
      intro c hc heq
      have hid' : c.uniqueID = id := by simpa using heq
      exact hid (hid' ▸ mem_map_of_mem hc)
    rw [sourceRow, hnone]
  | selection conds aff schema child ih =>
    obtain ⟨rows', hrows', rfl⟩ := map_eq_some_iff.mp h
    exact ih hrows' (mem_of_mem_filter hrow) fun hmem => hid (mem_append_right _ hmem)
  | projection exprs schema child ih =>
    obtain ⟨rows', hrows', rfl⟩ := map_eq_some_iff.mp h
    obtain ⟨row', hrow', rfl⟩ := mem_map.mp hrow
    rw [bindRow, find?_zip_eq_none fun hmem => hid (mem_append_left _ hmem)]
    exact ih hrows' hrow' fun hmem => hid (mem_append_right _ hmem)
  | join info schema left right ihl ihr =>
    obtain ⟨L, hL, h⟩ := bind_eq_some_iff.mp h
    obtain ⟨R, hR, rfl⟩ := map_eq_some_iff.mp h
    rw [LogicalPlan.allIds, mem_append, mem_append, not_or, not_or] at hid
    refine joinRows_null (fun l hl => ihl hL hl hid.2.1) (fun r hr => ihr hR hr hid.2.2)
      (fun c hc heq => ?_) row hrow
    exact hid.1 (heq ▸ mem_map_of_mem (mem_of_resultColumn hc))
  | apply info schema left right ihl ihr =>
    obtain ⟨L, hL, h⟩ := bind_eq_some_iff.mp h
    rw [LogicalPlan.allIds, mem_append, mem_append, not_or, not_or] at hid
    obtain ⟨rows', hrows', hrow⟩ := mem_of_concatAll h hrow
    obtain ⟨l, hl, hrows'⟩ := mem_map.mp hrows'
    obtain ⟨R, hR, rfl⟩ := map_eq_some_iff.mp hrows'
    refine joinRows_null (fun l' hl' => ?_) (fun r hr => ihr hR hr hid.2.2)
      (fun c hc heq => ?_) row hrow
    · obtain rfl := mem_singleton.mp hl'
      exact ihl hL hl hid.2.1
    · exact hid.1 (heq ▸ mem_map_of_mem (mem_of_resultColumn hc))
  | aggregation info schema child ih =>
    obtain ⟨rows', hrows', rfl⟩ := map_eq_some_iff.mp h
    have hagg : ∀ rows'', aggRow I env info schema rows'' id = I.null := by
      intro rows''
      rw [aggRow, find?_zip_eq_none fun hmem => hid (mem_append_left _ hmem)]
    rw [aggregateRows] at hrow
    split at hrow
    · obtain rfl := mem_singleton.mp hrow
      exact hagg rows'
    · obtain ⟨g, -, rfl⟩ := mem_map.mp hrow
      exact hagg g.2
  | unionAll schema children ih =>
    obtain ⟨rows', hrows', hrow⟩ := mem_of_concatAll h hrow
    obtain ⟨c, hc, hrows'⟩ := mem_evals.mp hrows'
    refine ih c hc hrows' hrow fun hmem => hid (mem_append_right _ ?_)
    exact mem_allIdsList.mpr ⟨c, hc, hmem⟩
  | limit offset count child ih =>
    obtain ⟨rows', hrows', rfl⟩ := map_eq_some_iff.mp h
    exact ih hrows' (mem_of_mem_drop (mem_of_mem_take hrow)) hid
  | sort byItems child ih =>
    obtain ⟨rows', hrows', rfl⟩ := map_eq_some_iff.mp h
    exact ih hrows' ((mem_insertionSort _).mp hrow) hid
  | window info schema child ih =>
    obtain ⟨rows', hrows', rfl⟩ := map_eq_some_iff.mp h
    obtain ⟨w, hw, rfl⟩ := mem_map.mp hrow
    have hresult : ∀ q ∈ info.resultColumns schema, q.1.uniqueID ≠ id := by
      rintro q hq rfl
      exact hid (mem_append_left _ (mem_map_of_mem (mem_schema_of_resultColumns hq)))
    rw [windowRow_of_notMem hresult]
    exact ih hrows' (mem_windowRows hw) fun hmem => hid (mem_append_right _ hmem)
  | maxOneRow child ih =>
    obtain ⟨rows', hrows', h⟩ := bind_eq_some_iff.mp h
    split at h
    · cases h
      exact ih hrows' hrow hid
    · simp at h

def trunc (I : Interp V) (n : ℕ) (row : Row V) : Row V :=
    fun id => if id ≤ n then row id else I.null

/-- The expression uses only columns numbered up to `n`. -/
def Expr.Below (n : ℕ) (e : Expr) : Prop := ∀ c ∈ e.extractColumns, c.uniqueID ≤ n

variable {n : ℕ} {row row' : Row V} {id : ℕ}

omit [DecidableEq V] in
lemma trunc_of_le (h : id ≤ n) : trunc I n row id = row id := if_pos h

omit [DecidableEq V] in
lemma trunc_of_lt (h : n < id) : trunc I n row id = I.null := if_neg (by omega)

omit [DecidableEq V] in
lemma trunc_eq_self (h : ∀ id, n < id → row id = I.null) : trunc I n row = row := by
  funext id
  rw [trunc]
  split
  · rfl
  · exact (h id (by omega)).symm

omit [DecidableEq V] in
lemma trunc_trunc {m : ℕ} (h : n ≤ m) : trunc I n (trunc I m row) = trunc I n row := by
  funext id
  by_cases hid : id ≤ n
  · rw [trunc_of_le hid, trunc_of_le hid, trunc_of_le (hid.trans h)]
  · rw [trunc_of_lt (by omega), trunc_of_lt (by omega)]

lemma trunc_merge (l r : Row V) :
  trunc I n (merge I l r) = merge I (trunc I n l) (trunc I n r) := by
  funext id
  by_cases hid : id ≤ n
  · rw [trunc_of_le hid, merge, merge, trunc_of_le hid, trunc_of_le hid]
  · simp [trunc, merge, hid]

variable {e : Expr}

omit [DecidableEq V] in
lemma Expr.value_trunc (h : e.Below n) : e.value I env (trunc I n row) = e.value I env row :=
  Expr.value_congr e fun c hc => trunc_of_le (h c hc)

variable {es : List Expr}

omit [DecidableEq V] in
lemma Expr.values_trunc (h : ∀ e ∈ es, e.Below n) :
  Expr.values I env (trunc I n row) es = Expr.values I env row es := by
  rw [Expr.values_eq_map, Expr.values_eq_map]
  exact map_congr_left fun e he => Expr.value_trunc (h e he)

omit [DecidableEq V] in
lemma holdsAll_trunc (h : ∀ e ∈ es, e.Below n) :
    holdsAll I env es (trunc I n row) = holdsAll I env es row :=
  holdsAll_congr fun e he c hc => trunc_of_le (h e he c hc)

omit [DecidableEq V] in
lemma outcome_trunc (h : e.Below n) : e.outcome I env (trunc I n row) = e.outcome I env row :=
  Expr.outcome_congr fun c hc => trunc_of_le (h c hc)

omit [DecidableEq V] in
lemma filter_map_trunc (h : ∀ e ∈ es, e.Below n) (rows : List (Row V)) :
  (rows.map (trunc I n)).filter (holdsAll I env es) =
    (rows.filter (holdsAll I env es)).map (trunc I n) := by
  rw [filter_map]
  congr 1
  exact filter_congr fun row _ => holdsAll_trunc h

omit [DecidableEq V] in
lemma trunc_bindRow {subst : List (Column × Expr)} (hids : ∀ q ∈ subst, q.1.uniqueID ≤ n)
  (hexprs : ∀ q ∈ subst, q.2.Below n) (row : Row V) :
  bindRow I env subst (trunc I n row) = trunc I n (bindRow I env subst row) := by
  funext id
  rcases hfind : subst.find? (fun q => q.1.uniqueID = id) with - | q
  · by_cases hid : id ≤ n
    · rw [trunc_of_le hid, bindRow, bindRow, hfind]
      exact trunc_of_le hid
    · simp [trunc, bindRow, hfind, hid]
  · have hq := mem_of_find?_eq_some hfind
    have hid : q.1.uniqueID = id := by simpa using find?_some hfind
    rw [trunc_of_le (hid ▸ hids q hq), bindRow, bindRow, hfind]
    exact Expr.value_trunc (hexprs q hq)

variable {result : Option Column} {items : List (Expr × Bool)}

omit [DecidableEq V] in
lemma setColumn_trunc (hresult : ∀ c, result = some c → c.uniqueID ≤ n) (v : V) (row : Row V) :
  setColumn result v (trunc I n row) = trunc I n (setColumn result v row) := by
  funext id
  by_cases hid : id ≤ n
  · rw [trunc_of_le hid, setColumn, setColumn, trunc_of_le hid]
  · have hne : ¬result.map (·.uniqueID) = some id := by
      intro heq
      obtain ⟨c, hc, rfl⟩ := map_eq_some_iff.mp heq
      exact hid (hresult c hc)
    rw [setColumn, if_neg hne, trunc_of_lt (by omega), trunc_of_lt (by omega)]

/-- Two joins whose conditions have the same outcome for each pair of rows, after hiding the
numbers above `n`, give the same rows after hiding them. -/
lemma joinRows_trunc {conds' : List Expr} (hresult : ∀ c, result = some c → c.uniqueID ≤ n)
  (hpair : ∀ l ∈ L, ∀ r ∈ R, pairOutcome I env conds (trunc I n l) (trunc I n r) =
    pairOutcome I env conds' l r)
  : joinRows I env tp conds result (L.map (trunc I n)) (R.map (trunc I n)) =
    (joinRows I env tp conds' result L R).map (trunc I n) := by
  have hholds : ∀ l ∈ L, ∀ r ∈ R, pairHolds I env conds (trunc I n l) (trunc I n r) =
      pairHolds I env conds' l r := by
    intro l hl r hr
    rw [pairHolds, pairHolds, Bool.eq_iff_iff, ← outcome_eq_true, ← outcome_eq_true]
    exact iff_of_eq (congrArg (· = some true) (hpair l hl r hr))
  have hsemi : ∀ l ∈ L, semiOutcome I env conds (R.map (trunc I n)) (trunc I n l) =
      semiOutcome I env conds' R l := by
    intro l hl
    rw [semiOutcome, semiOutcome, map_map]
    congr 1
    exact map_congr_left fun r hr => hpair l hl r hr
  cases tp with
  | InnerJoin => exact innerJoin_map hholds fun l _ r _ => (trunc_merge l r).symm
  | LeftOuterJoin =>
    exact leftJoin_map hholds (fun l _ r _ => (trunc_merge l r).symm) fun l _ => rfl
  | RightOuterJoin =>
    exact leftJoin_map (fun r hr l hl => hholds l hl r hr) (fun r _ l _ => (trunc_merge l r).symm)
      fun l _ => rfl
  | SemiJoin => exact semiJoin_map hholds
  | AntiSemiJoin =>
    rw [joinRows, joinRows, filter_map]
    congr 1
    refine filter_congr fun l hl => ?_
    rw [comp_apply, hsemi l hl]
  | LeftOuterSemiJoin | AntiLeftOuterSemiJoin =>
    rw [joinRows, joinRows, map_map, map_map]
    refine map_congr_left fun l hl => ?_
    rw [comp_apply, comp_apply, hsemi l hl, setColumn_trunc hresult]

omit [DecidableEq V] in
lemma aggValue_trunc {f : AggFuncDesc} (h : ∀ e ∈ f.args, e.Below n) (rows : List (Row V)) :
  aggValue I env f (rows.map (trunc I n)) = aggValue I env f rows := by
  have hvalues : (rows.map (trunc I n)).map (fun row => Expr.values I env row f.args) =
      rows.map (fun row => Expr.values I env row f.args) := by
    rw [map_map]
    exact map_congr_left fun row _ => Expr.values_trunc h
  unfold aggValue
  split
  · cases rows with
    | nil => rfl
    | cons row rows =>
      rw [map_cons]
      dsimp only
      rw [Expr.values_trunc h]
  · rw [hvalues]

lemma aggregateRows_trunc {info : AggInfo} {schema : List Column}
  (hkeys : ∀ e ∈ info.groupByItems, e.Below n)
  (hargs : ∀ f ∈ info.aggFuncs, ∀ e ∈ f.args, e.Below n)
  (rows : List (Row V)) : aggregateRows I env info schema (rows.map (trunc I n)) =
    aggregateRows I env info schema rows := by
  have hrow : ∀ rows : List (Row V), aggRow I env info schema (rows.map (trunc I n)) =
      aggRow I env info schema rows := by
    intro rows
    funext id
    rw [aggRow, aggRow]
    split
    · rename_i q hq
      exact aggValue_trunc (hargs q.2 (of_mem_zip (mem_of_find?_eq_some hq)).2) rows
    · rfl
  have hgroups : groups (fun row => Expr.values I env row info.groupByItems)
      (rows.map (trunc I n)) = (groups (fun row => Expr.values I env row info.groupByItems)
        rows).map (fun g => (g.1, g.2.map (trunc I n))) :=
    groups_map fun row _ => Expr.values_trunc hkeys
  rw [aggregateRows, aggregateRows]
  split
  · rw [hrow]
  · rw [hgroups, map_map]
    exact map_congr_left fun g _ => hrow g.2

omit [DecidableEq V] in
lemma sortLe_trunc (h : ∀ item ∈ items, item.1.Below n) (row row' : Row V) :
  sortLe I env items (trunc I n row) (trunc I n row') = sortLe I env items row row' := by
  induction items with
  | nil => rfl
  | cons item items ih =>
    obtain ⟨hitem, hitems⟩ := forall_mem_cons.mp h
    rw [sortLe, sortLe, Expr.value_trunc hitem, Expr.value_trunc hitem, ih hitems]

omit [DecidableEq V] in
lemma sortRows_trunc (h : ∀ item ∈ items, item.1.Below n) (rows : List (Row V)) :
  sortRows I env items (rows.map (trunc I n)) = (sortRows I env items rows).map (trunc I n) := by
  refine (map_insertionSort _ _ _ rows fun row _ row' _ => ?_).symm
  rw [sortLe_trunc h]

omit [DecidableEq V] in
lemma sortKey_trunc {items : List SortItem} (h : ∀ item ∈ items, item.col.uniqueID ≤ n)
  (row : Row V) : sortKey items (trunc I n row) = sortKey items row :=
  map_congr_left fun item hitem => trunc_of_le (h item hitem)

lemma windowOp_trunc {schema : List Column}
    (hpartition : ∀ item ∈ info.partitionBy, item.col.uniqueID ≤ n)
  (horder : ∀ item ∈ info.orderBy, item.col.uniqueID ≤ n) (hschema : ∀ c ∈ schema, c.uniqueID ≤ n)
  (rows : List (Row V)) : windowOp I info schema (rows.map (trunc I n)) =
    (windowOp I info schema rows).map (trunc I n) := by
  rw [windowOp, windowOp, windowRows_map fun row _ => sortKey_trunc hpartition row, map_map,
    map_map]
  refine map_congr_left fun w _ => ?_
  funext id
  rw [comp_apply, comp_apply, windowRow]
  split
  · rename_i q hq
    have hid : q.1.uniqueID = id := by simpa using find?_some hq
    have hmem := mem_schema_of_resultColumns (mem_of_find?_eq_some hq)
    rw [trunc_of_le (hid ▸ hschema q.1 hmem), windowRow, hq, map_map]
    congr 1
    exact map_congr_left fun row _ => sortKey_trunc horder row
  · rename_i hq
    by_cases hid : id ≤ n
    · rw [trunc_of_le hid, windowRow, hq]
      exact trunc_of_le hid
    · rw [trunc_of_lt (by omega)]
      exact trunc_of_lt (by omega)

end Scql.Planner
