import Scql.PredicatePushDown

/-! # Scopes and columns under predicate push-down

The plans a planner builds: the expressions of a node use columns its children show. Push-down
keeps the columns a node shows, and the numbers it adds come from the counter. -/
namespace Scql.Planner

open LogicalPlan List

section Within

/-- All columns of the expression are numbered in `S`. -/
def Expr.Within (S : Set ℕ) (e : Expr) : Prop := ∀ c ∈ e.extractColumns, c.uniqueID ∈ S

def AllWithin (S : Set ℕ) (es : List Expr) : Prop := ∀ e ∈ es, e.Within S

def LogicalPlan.scope (p : LogicalPlan) : Set ℕ := {id | id ∈ p.ids}

variable {S T : Set ℕ} {e : Expr} {es es' : List Expr}

lemma Expr.Within.mono (h : e.Within S) (hST : S ⊆ T) : e.Within T := fun c hc => hST (h c hc)

lemma AllWithin.mono (h : AllWithin S es) (hST : S ⊆ T) : AllWithin T es :=
  fun e he => (h e he).mono hST

lemma AllWithin.nil : AllWithin S [] := fun _ he => absurd he not_mem_nil

lemma AllWithin.append (h : AllWithin S es) (h' : AllWithin S es') : AllWithin S (es ++ es') :=
  forall_mem_append.mpr ⟨h, h'⟩

lemma AllWithin.cons (h : e.Within S) (h' : AllWithin S es) : AllWithin S (e::es) :=
  forall_mem_cons.mpr ⟨h, h'⟩

lemma AllWithin.of_subset (h : AllWithin S es) (hsub : es' ⊆ es) : AllWithin S es' :=
  fun e he => h e (hsub he)

variable {schema : List Column}

lemma schemaContains_iff {c : Column} :
  schemaContains schema c = true ↔ c.uniqueID ∈ schema.map (·.uniqueID) := by
  simp [schemaContains]

lemma within_of_exprFromSchema (h : exprFromSchema schema e = true) :
  e.Within {id | id ∈ schema.map (·.uniqueID)} := fun c hc =>
  schemaContains_iff.mp (all_eq_true.mp h c hc)

lemma exprFromSchema_iff :
  exprFromSchema schema e = true ↔ e.Within {id | id ∈ schema.map (·.uniqueID)} := by
  refine ⟨within_of_exprFromSchema, fun h => all_eq_true.mpr fun c hc => ?_⟩
  exact schemaContains_iff.mpr (h c hc)

lemma within_of_isEmpty (h : e.extractColumns.isEmpty = true) : e.Within S := fun c hc => by
  rw [isEmpty_iff.mp h] at hc
  exact absurd hc not_mem_nil

mutual
lemma Expr.extractColumns_setColumnInOperand (e : Expr) :
  e.setColumnInOperand.extractColumns.map (·.uniqueID) = e.extractColumns.map (·.uniqueID) := by
  cases e with
  | column c | correlatedColumn c | constant d => rfl
  | scalarFunction f args => exact Expr.extractColumnsList_setColumnInOperand args

lemma Expr.extractColumnsList_setColumnInOperand (es : List Expr) :
  (Expr.extractColumnsList (Expr.setColumnInOperandList es)).map (·.uniqueID) =
    (Expr.extractColumnsList es).map (·.uniqueID) := by
  cases es with
  | nil => rfl
  | cons e es =>
    rw [Expr.setColumnInOperandList, Expr.extractColumnsList, Expr.extractColumnsList,
      map_append, map_append, Expr.extractColumns_setColumnInOperand e,
      Expr.extractColumnsList_setColumnInOperand es]
end

lemma Expr.Within.setColumnInOperand (h : e.Within S) : e.setColumnInOperand.Within S := by
  intro c hc
  have hmem : c.uniqueID ∈ e.setColumnInOperand.extractColumns.map (·.uniqueID) :=
    mem_map_of_mem hc
  rw [Expr.extractColumns_setColumnInOperand] at hmem
  obtain ⟨d, hd, heq⟩ := mem_map.mp hmem
  exact heq ▸ h d hd

mutual
/-- A substitution is within the scope of its expressions if every column it leaves is. -/
lemma Expr.within_columnSubstitute {S : Set ℕ} {subst : List (Column × Expr)} (e : Expr)
  (hsubst : ∀ q ∈ subst, q.2.Within S)
  (hfree : ∀ c ∈ e.extractColumns, c.uniqueID ∉ subst.map (·.1.uniqueID) → c.uniqueID ∈ S) :
  (e.columnSubstitute subst).Within S := by
  cases e with
  | column c =>
    rw [Expr.columnSubstitute]
    split
    · rename_i hnone
      intro d hd
      obtain rfl := mem_singleton.mp hd
      refine hfree d mem_cons_self fun hmem => ?_
      obtain ⟨q, hq, heq⟩ := mem_map.mp hmem
      simpa [heq] using find?_eq_none.mp hnone q hq
    · rename_i q hq
      have hwithin := hsubst q (mem_of_find?_eq_some hq)
      split
      · exact hwithin.setColumnInOperand
      · exact hwithin
  | correlatedColumn c | constant d => exact within_of_isEmpty rfl
  | scalarFunction f args => exact within_columnSubstituteList args hsubst hfree

lemma within_columnSubstituteList {S : Set ℕ} {subst : List (Column × Expr)} (es : List Expr)
  (hsubst : ∀ q ∈ subst, q.2.Within S)
  (hfree : ∀ c ∈ Expr.extractColumnsList es, c.uniqueID ∉ subst.map (·.1.uniqueID) →
    c.uniqueID ∈ S) :
  ∀ c ∈ Expr.extractColumnsList (Expr.columnSubstituteList subst es), c.uniqueID ∈ S := by
  cases es with
  | nil => exact fun c hc => absurd hc not_mem_nil
  | cons e es =>
    intro c hc
    rcases mem_append.mp hc with hc | hc
    · exact Expr.within_columnSubstitute e hsubst
        (fun d hd => hfree d (mem_append_left _ hd)) c hc
    · exact within_columnSubstituteList es hsubst
        (fun d hd => hfree d (mem_append_right _ hd)) c hc
end

end Within

variable {V : Type} {I : Interp V} {env : Row V}

mutual
lemma Expr.value_setColumnInOperand (row : Row V) (e : Expr) :
  e.setColumnInOperand.value I env row = e.value I env row := by
  cases e with
  | column c | correlatedColumn c | constant d => rfl
  | scalarFunction f args =>
    rw [Expr.setColumnInOperand, Expr.value, Expr.value, Expr.values_setColumnInOperand]

lemma Expr.values_setColumnInOperand (row : Row V) (es : List Expr) :
  Expr.values I env row (Expr.setColumnInOperandList es) = Expr.values I env row es := by
  cases es with
  | nil => rfl
  | cons e es =>
    rw [Expr.setColumnInOperandList, Expr.values, Expr.values, Expr.value_setColumnInOperand,
      Expr.values_setColumnInOperand]
end

mutual
lemma Expr.value_columnSubstitute (subst : List (Column × Expr)) (row : Row V) (e : Expr) :
  (e.columnSubstitute subst).value I env row = e.value I env (bindRow I env subst row) := by
  cases e with
  | column c =>
    rw [Expr.columnSubstitute, Expr.value, bindRow]
    split <;> rename_i hfind
    · simp [hfind, Expr.value]
    · rw [hfind]
      split
      · exact Expr.value_setColumnInOperand row _
      · rfl
  | correlatedColumn c | constant d => rfl
  | scalarFunction f args =>
    rw [Expr.columnSubstitute, Expr.value, Expr.value, Expr.values_columnSubstitute]

lemma Expr.values_columnSubstitute (subst : List (Column × Expr)) (row : Row V) (es : List Expr) :
  Expr.values I env row (Expr.columnSubstituteList subst es) =
    Expr.values I env (bindRow I env subst row) es := by
  cases es with
  | nil => rfl
  | cons e es =>
    rw [Expr.columnSubstituteList, Expr.values, Expr.values, Expr.value_columnSubstitute,
      Expr.values_columnSubstitute]
end

variable {left right : List Column} {tp : JoinType} {S : Set ℕ} {e : Expr} {sf : ScalarFunction}

lemma columnEquality_eq_some (h : columnEquality left right e = some sf) : ∃ a b : Column,
  sf = {funcName := .EQ, args := [.column a, .column b]} ∧
    (e = .scalarFunction .EQ [.column a, .column b] ∨
    e = .scalarFunction .EQ [.column b, .column a]) ∧
  a.uniqueID ∈ left.map (·.uniqueID) ∧ b.uniqueID ∈ right.map (·.uniqueID) := by
  unfold columnEquality at h
  split at h
  · rename_i f a b
    dsimp only at h
    by_cases hside : (schemaContains left a && schemaContains right b) = true
    · rw [if_pos hside] at h
      simp only [Option.ite_none_right_eq_some, Option.some.injEq, Bool.and_eq_true,
        decide_eq_true_eq] at h
      obtain ⟨⟨⟨⟨⟨ha, hb⟩, rfl⟩, -⟩, -⟩, rfl⟩ := h
      exact ⟨a, b, rfl, .inl rfl, schemaContains_iff.mp ha, schemaContains_iff.mp hb⟩
    · rw [if_neg hside] at h
      simp only [Option.ite_none_right_eq_some, Option.some.injEq, Bool.and_eq_true,
        decide_eq_true_eq] at h
      obtain ⟨⟨⟨⟨⟨hb, ha⟩, rfl⟩, -⟩, -⟩, rfl⟩ := h
      exact ⟨b, a, rfl, .inr rfl, schemaContains_iff.mp hb, schemaContains_iff.mp ha⟩
  · simp at h

lemma columnEquality_within
  (h : columnEquality left right e = some sf) (he : e.Within S) : sf.toExpr.Within S := by
  obtain ⟨a, b, rfl, rfl | rfl, -, -⟩ := columnEquality_eq_some h
  · exact he
  · intro c hc
    refine he c ?_
    simp only [ScalarFunction.toExpr, Expr.extractColumns, Expr.extractColumnsList,
      append_nil, cons_append, nil_append, mem_cons, not_mem_nil, or_false] at hc ⊢
    exact hc.symm

/-- Each group consists of conditions that were given, and fits the side it is for. -/
structure OnConditions.Divides (on : OnConditions) (left right : List Column) (es : List Expr) :
    Prop where
  equal : ∀ {S : Set ℕ}, AllWithin S es → AllWithin S (on.equal.map ScalarFunction.toExpr)
  left_subset : on.left ⊆ es
  right_subset : on.right ⊆ es
  other_subset : on.other ⊆ es
  left_within : AllWithin {id | id ∈ left.map (·.uniqueID)} on.left
  right_within : AllWithin {id | id ∈ right.map (·.uniqueID)} on.right
  own_within : AllWithin ∅ on.own

lemma divides_pushDownConstExpr {on : OnConditions} {es : List Expr}
  (h : on.Divides left right es) (he : e.extractColumns.isEmpty = true) :
  (on.pushDownConstExpr tp e).Divides left right (e::es) := by
  have hequal : ∀ {S : Set ℕ}, AllWithin S (e::es) →
      AllWithin S (on.equal.map ScalarFunction.toExpr) := fun hes =>
    h.equal (hes.of_subset (subset_cons_self e es))
  have hleft := subset_cons_of_subset e h.left_subset
  have hright := subset_cons_of_subset e h.right_subset
  have hother := subset_cons_of_subset e h.other_subset
  have hleft' := cons_subset_cons e h.left_subset
  have hright' := cons_subset_cons e h.right_subset
  have hl := AllWithin.cons (within_of_isEmpty he) h.left_within
  have hr := AllWithin.cons (within_of_isEmpty he) h.right_within
  have hown := AllWithin.cons (within_of_isEmpty he) h.own_within
  unfold OnConditions.pushDownConstExpr
  split
  iterate 3 exact ⟨hequal, hleft', hright, hother, hl, h.right_within, hown⟩
  · exact ⟨hequal, hleft, hright', hother, h.left_within, hr, hown⟩
  all_goals exact ⟨hequal, hleft', hright', hother, hl, hr, h.own_within⟩

lemma divides_extractOnCondition (tp : JoinType) (left right : List Column) (es : List Expr) :
  (extractOnCondition tp left right es).Divides left right es := by
  induction es with
  | nil =>
    exact ⟨fun _ => .nil, nil_subset _, nil_subset _, nil_subset _, .nil, .nil, .nil⟩
  | cons e es ih =>
    have hequal : ∀ {S : Set ℕ}, AllWithin S (e::es) → AllWithin S
        ((extractOnCondition tp left right es).equal.map ScalarFunction.toExpr) := fun hes =>
      ih.equal (hes.of_subset (subset_cons_self e es))
    have hleft := subset_cons_of_subset e ih.left_subset
    have hright := subset_cons_of_subset e ih.right_subset
    have hother := subset_cons_of_subset e ih.other_subset
    rw [extractOnCondition]
    split
    · rename_i sf hsf
      refine ⟨fun hes => ?_, hleft, hright, hother, ih.left_within, ih.right_within, ih.own_within⟩
      exact .cons (columnEquality_within hsf (hes e mem_cons_self)) (hequal hes)
    · split_ifs with hempty hfromRight hfromLeft
      · exact divides_pushDownConstExpr ih hempty
      · exact ⟨hequal, hleft, cons_subset_cons e ih.right_subset, hother, ih.left_within,
          .cons (within_of_exprFromSchema hfromRight) ih.right_within, ih.own_within⟩
      · exact ⟨hequal, cons_subset_cons e ih.left_subset, hright, hother,
          .cons (within_of_exprFromSchema hfromLeft) ih.left_within, ih.right_within, ih.own_within⟩
      · exact ⟨hequal, hleft, hright, cons_subset_cons e ih.other_subset, ih.left_within,
          ih.right_within, ih.own_within⟩

/-- The columns of a projection with their expressions. -/
def Proj.subst (p : Proj) : List (Column × Expr) := p.schema.zip p.exprs

/-- A projection to which columns numbered above `n` and up to `n'` were added. -/
structure Proj.Extends (n n' : ℕ) (p p' : Proj) : Prop where
  child : p'.child = p.child
  sized : p.exprs.length = p.schema.length
  sized' : p'.exprs.length = p'.schema.length
  added : ∃ new, p'.subst = p.subst ++ new ∧ ∀ q ∈ new, n < q.1.uniqueID ∧ q.1.uniqueID ≤ n'

variable {n n' m : ℕ} {p p' p'' : Proj} {left right left' right' : Option Proj}

lemma Proj.Extends.refl (h : p.exprs.length = p.schema.length) : p.Extends n n p :=
  ⟨rfl, h, h, [], by simp, by simp⟩

lemma Proj.Extends.trans (h : p.Extends n n' p') (h' : p'.Extends n' m p'') (hn : n ≤ n')
  (hm : n' ≤ m) : p.Extends n m p'' := by
  obtain ⟨new, hnew, hbound⟩ := h.added
  obtain ⟨new', hnew', hbound'⟩ := h'.added
  refine ⟨h'.child.trans h.child, h.sized, h'.sized', new ++ new', ?_, fun q hq => ?_⟩
  · rw [hnew', hnew, append_assoc]
  · rcases mem_append.mp hq with hq | hq
    · exact ⟨(hbound q hq).1, (hbound q hq).2.trans hm⟩
    · exact ⟨hn.trans_lt (hbound' q hq).1, (hbound' q hq).2⟩

lemma Proj.schema_eq (h : p.exprs.length = p.schema.length) : p.schema = p.subst.map (·.1) := by
  rw [Proj.subst, map_fst_zip h.ge]

lemma Proj.Extends.schema (h : p.Extends n n' p') : ∃ new, p'.schema = p.schema ++ new ∧
  ∀ c ∈ new, n < c.uniqueID ∧ c.uniqueID ≤ n' := by
  obtain ⟨new, hnew, hbound⟩ := h.added
  refine ⟨new.map (·.1), ?_, fun c hc => ?_⟩
  · rw [Proj.schema_eq h.sized', hnew, map_append, ← Proj.schema_eq h.sized]
  · obtain ⟨q, hq, rfl⟩ := mem_map.mp hc
    exact hbound q hq

lemma appendExpr_extends (h : p.exprs.length = p.schema.length) (e : Expr) :
  n ≤ (p.appendExpr n e).2.2 ∧ p.Extends n (p.appendExpr n e).2.2 (p.appendExpr n e).2.1 := by
  cases e with
  | column c => exact ⟨le_rfl, .refl h⟩
  | correlatedColumn _ | constant _ | scalarFunction _ _ =>
    refine ⟨Nat.le_succ n, rfl, h, by simp [Proj.appendExpr, h], _, zip_append h.symm, ?_⟩
    simp [Proj.appendExpr]

/-- Each side has its projection before and after, or none. -/
abbrev SideExtends (n n' : ℕ) : Option Proj → Option Proj → Prop := Option.Rel (Proj.Extends n n')

def SideSized (proj : Option Proj) : Prop := ∀ p ∈ proj, p.exprs.length = p.schema.length

lemma SideExtends.refl (h : SideSized left) : SideExtends n n left left := by
  cases left with
  | none => exact .none
  | some p => exact .some (.refl (h p rfl))

section
variable (h : SideExtends n n' left left')
include h

lemma SideExtends.trans {left'' : Option Proj} (h' : SideExtends n' m left' left'') (hn : n ≤ n')
  (hm : n' ≤ m) : SideExtends n m left left'' := by
  cases h with
  | none =>
    cases h'
    exact .none
  | some h =>
    cases h' with
    | some h' => exact .some (h.trans h' hn hm)

lemma SideExtends.mono_bound {k k' : ℕ} (hk : k ≤ n) (hk' : n' ≤ k') :
    SideExtends k k' left left' := by
  cases h with
  | none => exact .none
  | some h =>
    obtain ⟨new, hnew, hbound⟩ := h.added
    refine .some ⟨h.child, h.sized, h.sized', new, hnew, fun q hq => ?_⟩
    exact ⟨hk.trans_lt (hbound q hq).1, (hbound q hq).2.trans hk'⟩

lemma SideExtends.sized : SideSized left' := by
  cases h with
  | none => exact fun p hp => absurd hp (by simp)
  | some h =>
    intro p hp
    cases hp
    exact h.sized'

end

lemma appendKey_extends (h : SideSized left) (e : Expr) : n ≤ (appendKey left n e).2.2 ∧
    SideExtends n (appendKey left n e).2.2 left (appendKey left n e).2.1 := by
  cases left with
  | none => exact ⟨le_rfl, .none⟩
  | some p =>
    obtain ⟨hle, hext⟩ := appendExpr_extends (n := n) (h p rfl) e
    exact ⟨hle, .some hext⟩

lemma appendKeys_extends (hl : SideSized left) (hr : SideSized right)
  (keys : List (Expr × Expr)) : n ≤ (appendKeys left right n keys).2.2.2 ∧
  SideExtends n (appendKeys left right n keys).2.2.2 left (appendKeys left right n keys).2.1 ∧
  SideExtends n (appendKeys left right n keys).2.2.2 right
    (appendKeys left right n keys).2.2.1 := by
  induction keys generalizing left right n with
  | nil => exact ⟨le_rfl, .refl hl, .refl hr⟩
  | cons key keys ih =>
    obtain ⟨hle₁, hext₁⟩ := appendKey_extends (n := n) hl key.1
    obtain ⟨hle₂, hext₂⟩ := appendKey_extends (n := (appendKey left n key.1).2.2) hr key.2
    obtain ⟨hle₃, hext₃, hext₄⟩ := ih hext₁.sized hext₂.sized
      (n := (appendKey right (appendKey left n key.1).2.2 key.2).2.2)
    have hle₁₃ := hle₂.trans hle₃
    refine ⟨hle₁.trans hle₁₃, ?_, ?_⟩
    · exact hext₁.trans (hext₃.mono_bound hle₂ le_rfl) hle₁ hle₁₃
    · exact (hext₂.mono_bound hle₁ le_rfl).trans hext₄ (hle₁.trans hle₂) hle₃

def LogicalPlan.Sized : LogicalPlan → Prop
  | .projection exprs schema _ => exprs.length = schema.length
  | _ => True

/-- What push-down does to a plan: the columns it shows stay, and the numbers it adds are above
`n` and up to `n'`. -/
structure Frame (n n' : ℕ) (p p' : LogicalPlan) : Prop where
  le : n ≤ n'
  ids : p.ids ⊆ p'.ids
  allIds : ∀ id ∈ p'.allIds, id ∈ p.allIds ∨ n < id ∧ id ≤ n'
  sized : p'.Sized

variable {p p' p'' : LogicalPlan}

lemma ids_addSelection (p : LogicalPlan) (conds : List Expr) :
  (addSelection p conds).ids = p.ids := by
  rw [addSelection]
  split <;> rfl

variable {id : ℕ}

lemma mem_allIds_addSelection {conds : List Expr} : id ∈ (addSelection p conds).allIds ↔
    id ∈ p.allIds := by
  rw [addSelection]
  split
  · rfl
  · rw [LogicalPlan.allIds, mem_append]
    exact ⟨fun h => h.elim (fun h => ids_subset_allIds p h) (fun h => h), .inr⟩

lemma Frame.addSelection (h : Frame n n' p p') (conds : List Expr) :
  Frame n n' p (addSelection p' conds) := by
  refine ⟨h.le, ?_, fun id hid => h.allIds id (mem_allIds_addSelection.mp hid), ?_⟩
  · rw [ids_addSelection]
    exact h.ids
  · rw [Planner.addSelection]
    split
    · exact h.sized
    · trivial

lemma Frame.mono_bound {k k' : ℕ} (h : Frame n n' p p') (hk : k ≤ n) (hk' : n' ≤ k') :
    Frame k k' p p' :=
  ⟨hk.trans (h.le.trans hk'), h.ids, fun id hid => (h.allIds id hid).imp_right fun hb =>
    ⟨hk.trans_lt hb.1, hb.2.trans hk'⟩, h.sized⟩

lemma Frame.trans (h : Frame n n' p p') (h' : Frame n' m p' p'') : Frame n m p p'' := by
  refine ⟨h.le.trans h'.le, fun id hid => h'.ids (h.ids hid), fun id hid => ?_, h'.sized⟩
  rcases h'.allIds id hid with hid | hb
  · exact (h.allIds id hid).imp_right fun hb => ⟨hb.1, hb.2.trans h'.le⟩
  · exact .inr ⟨h.le.trans_lt hb.1, hb.2⟩

lemma ids_getProj (p : LogicalPlan) : (getProj p).plan.ids = p.ids := by
  cases p <;> rfl

lemma mem_allIds_getProj : id ∈ (getProj p).plan.allIds ↔ id ∈ p.allIds := by
  have hsub : ∀ q : LogicalPlan, id ∈ q.schema.map (·.uniqueID) ++ q.allIds ↔ id ∈ q.allIds := by
    intro q
    rw [mem_append]
    exact ⟨fun h => h.elim (fun h => ids_subset_allIds q h) (fun h => h), .inr⟩
  cases p with
  | projection exprs schema child => rfl
  | dataSource | selection | join | apply | aggregation | unionAll | limit | sort | window
  | maxOneRow => exact hsub _

lemma getProj_sized (h : p.Sized) : (getProj p).exprs.length = (getProj p).schema.length := by
  cases p with
  | projection exprs schema child => exact h
  | dataSource | selection | join | apply | aggregation | unionAll | limit | sort | window
  | maxOneRow => exact length_map _

lemma keyProj_sized (h : p.Sized) (keys : List Expr) : SideSized (keyProj p keys) := by
  intro q hq
  rw [keyProj] at hq
  split at hq
  · simp at hq
  · cases hq
    exact getProj_sized h

lemma frame_sidePlan {keys : List Expr} {proj : Option Proj} (hp : p.Sized) (hn : n ≤ n')
  (h : SideExtends n n' (keyProj p keys) proj) : Frame n n' p (sidePlan p proj) := by
  rw [keyProj] at h
  split at h
  · cases h
    exact ⟨hn, List.Subset.refl _, fun id hid => .inl hid, hp⟩
  · obtain ⟨q, rfl, hext⟩ : ∃ q, proj = some q ∧ (getProj p).Extends n n' q := by
      cases h with
      | some h => exact ⟨_, rfl, h⟩
    obtain ⟨new, hschema, hnew⟩ := hext.schema
    have hids : (sidePlan p (some q)).ids = p.ids ++ new.map (·.uniqueID) := by
      calc (sidePlan p (some q)).ids = q.schema.map (·.uniqueID) := rfl
        _ = (getProj p).plan.ids ++ new.map (·.uniqueID) := by
          rw [hschema, map_append]
          rfl
        _ = _ := by rw [ids_getProj]
    refine ⟨hn, ?_, fun id hid => ?_, hext.sized'⟩
    · rw [hids]
      exact subset_append_left _ _
    · have hid : id ∈ (sidePlan p (some q)).ids ++ q.child.allIds := hid
      rw [hids, hext.child, append_assoc, mem_append, mem_append] at hid
      rcases hid with hid | hid | hid
      · exact .inl (ids_subset_allIds p hid)
      · obtain ⟨c, hc, rfl⟩ := mem_map.mp hid
        exact .inr (hnew c hc)
      · refine .inl (mem_allIds_getProj.mp ?_)
        exact mem_append_right _ hid

def JoinType.isOuterSemi : JoinType → Bool
  | .LeftOuterSemiJoin | .AntiLeftOuterSemiJoin => true
  | _ => false

def JoinType.showsRight : JoinType → Bool
  | .InnerJoin | .LeftOuterJoin | .RightOuterJoin => true
  | _ => false

def AggInfo.groupIds (info : AggInfo) : List ℕ := info.getGroupByCols.map (·.uniqueID)

def AggInfo.PassesKeys (info : AggInfo) (schema : List Column) : Prop :=
  ∀ q ∈ schema.zip info.aggFuncs, q.1.uniqueID ∈ info.groupIds → q.2.name = .FirstRow ∧
    ∃ c, q.2.args.head? = some (.column c) ∧ c.uniqueID = q.1.uniqueID

/-- How a planner builds a plan. The expressions of a node use columns its children show; the
two sides of a join share no number, and its conditions are divided by side; an aggregation
shows a group key under its own number by `first_row`; every branch of a union shows the columns
of the union. There is no apply. -/
inductive Scoped : LogicalPlan → Prop
  | dataSource (ds : DataSource) : Scoped (.dataSource ds)
  | selection {conds : List Expr} {aff : Bool} {schema : List Column} {child : LogicalPlan}
      (hc : Scoped child) (bound : AllWithin child.scope conds)
      (shown : schema.map (·.uniqueID) ⊆ child.ids) : Scoped (.selection conds aff schema child)
  | projection {exprs : List Expr} {schema : List Column} {child : LogicalPlan}
      (hc : Scoped child) (sized : exprs.length = schema.length)
      (bound : AllWithin child.scope exprs) : Scoped (.projection exprs schema child)
  | join {info : JoinInfo} {schema : List Column} {left right : LogicalPlan}
      (hl : Scoped left) (hr : Scoped right) (disjoint : ∀ id ∈ left.allIds, id ∉ right.allIds)
      (boundLeft : AllWithin left.scope info.leftConditions)
      (boundRight : AllWithin right.scope info.rightConditions)
      (bound : AllWithin (left.scope ∪ right.scope)
        (info.equalConditions.map ScalarFunction.toExpr ++ info.otherConditions))
      (shown : ∀ c ∈ schema, c.uniqueID ∈ left.ids ∨
        info.joinType.showsRight = true ∧ c.uniqueID ∈ right.ids ∨
        info.resultColumn schema = some c)
      (result : info.joinType.isOuterSemi = true → schema ≠ [])
      (fresh : ∀ c, info.resultColumn schema = some c →
        c.uniqueID ∉ left.allIds ∧ c.uniqueID ∉ right.allIds) :
      Scoped (.join info schema left right)
  | aggregation {info : AggInfo} {schema : List Column} {child : LogicalPlan}
      (hc : Scoped child) (boundKeys : AllWithin child.scope info.groupByItems)
      (boundArgs : ∀ f ∈ info.aggFuncs, AllWithin child.scope f.args)
      (passed : info.PassesKeys schema) (sized : info.aggFuncs.length = schema.length) :
        Scoped (.aggregation info schema child)
  | unionAll {schema : List Column} {children : List LogicalPlan}
      (hcs : ∀ c ∈ children, Scoped c)
      (shown : ∀ c ∈ children, schema.map (·.uniqueID) ⊆ c.ids) :
      Scoped (.unionAll schema children)
  | limit {offset count : ℕ} {child : LogicalPlan} (hc : Scoped child) :
      Scoped (.limit offset count child)
  | sort {byItems : List (Expr × Bool)} {child : LogicalPlan} (hc : Scoped child)
      (bound : ∀ item ∈ byItems, item.1.Within child.scope) : Scoped (.sort byItems child)
  | window {info : WindowInfo} {schema : List Column} {child : LogicalPlan} (hc : Scoped child)
      (boundPartition : ∀ item ∈ info.partitionBy, item.col.uniqueID ∈ child.ids)
      (boundOrder : ∀ item ∈ info.orderBy, item.col.uniqueID ∈ child.ids)
      (fresh : ∀ item ∈ info.partitionBy, ∀ q ∈ info.resultColumns schema,
        q.1.uniqueID ≠ item.col.uniqueID) : Scoped (.window info schema child)
  | maxOneRow {child : LogicalPlan} (hc : Scoped child) : Scoped (.maxOneRow child)

variable {left right left' right' : LogicalPlan} {info : JoinInfo} {schema : List Column}
  {preds : List Expr}

@[simp] lemma joinType_pushConditions {l r : List Column} :
  (info.pushConditions l r preds).info.joinType = info.joinType := by
  rw [JoinInfo.pushConditions]
  split <;> rfl

@[simp] lemma joinType_updateEQCond : (updateEQCond info left right n).1.joinType =
  info.joinType := rfl

lemma mem_ids_joinSchema {tp : JoinType} (h : id ∈
  (buildLogicalJoinSchema tp schema left right).map (·.uniqueID)) :
  id ∈ left.ids ∨ id ∈ right.ids ∨ id ∈ schema.map (·.uniqueID) := by
  have hmerged : ∀ c ∈ left.schema ++ right.schema, c.uniqueID ∈ left.ids ∨
      c.uniqueID ∈ right.ids ∨ c.uniqueID ∈ schema.map (·.uniqueID) := by
    intro c hc
    rcases mem_append.mp hc with hc | hc
    · exact .inl (mem_map_of_mem hc)
    · exact .inr (.inl (mem_map_of_mem hc))
  obtain ⟨c, hc, rfl⟩ := mem_map.mp h
  unfold buildLogicalJoinSchema at hc
  split at hc
  iterate 2 exact .inl (mem_map_of_mem hc)
  iterate 2
    rcases mem_append.mp hc with hc | hc
    · exact .inl (mem_map_of_mem hc)
    · refine .inr (.inr (mem_map_of_mem ?_))
      exact mem_of_getLast? (Option.mem_toList.mp hc)
  · dsimp only at hc
    split at hc
    · exact hmerged c (mem_of_mem_head? (Option.mem_toList.mp hc))
    · exact hmerged c (mem_of_mem_filter hc)

lemma ids_subset_joinSchema (hl : left.ids ⊆ left'.ids) (hr : right.ids ⊆ right'.ids)
  (shown : ∀ c ∈ schema, c.uniqueID ∈ left.ids ∨ info.joinType.showsRight = true ∧
    c.uniqueID ∈ right.ids ∨
    info.resultColumn schema = some c) : schema.map (·.uniqueID) ⊆
    (buildLogicalJoinSchema info.joinType schema left' right').map (·.uniqueID) := by
  intro id hid
  obtain ⟨c, hc, rfl⟩ := mem_map.mp hid
  have hshown := shown c hc
  unfold buildLogicalJoinSchema
  unfold JoinInfo.resultColumn at hshown
  have hinner : info.joinType.showsRight = true → c.uniqueID ∈ left.ids ∨ c.uniqueID ∈ right.ids →
      c.uniqueID ∈ ((left'.schema ++ right'.schema).filter
        (fun d => d.uniqueID ∈ schema.map (·.uniqueID))).map (·.uniqueID) := by
    intro _ hside
    obtain ⟨d, hd, heq⟩ : ∃ d ∈ left'.schema ++ right'.schema, d.uniqueID = c.uniqueID := by
      rcases hside with h | h
      · obtain ⟨d, hd, heq⟩ := mem_map.mp (hl h)
        exact ⟨d, mem_append_left _ hd, heq⟩
      · obtain ⟨d, hd, heq⟩ := mem_map.mp (hr h)
        exact ⟨d, mem_append_right _ hd, heq⟩
    rw [← heq] at hid ⊢
    exact mem_map_of_mem (mem_filter.mpr ⟨hd, by simpa using hid⟩)
  have hne : ¬schema.isEmpty = true := fun h => by
    rw [isEmpty_iff.mp h] at hc
    exact absurd hc not_mem_nil
  cases htp : info.joinType <;>
    simp only [htp, JoinType.showsRight, Bool.false_eq_true, false_and, reduceCtorEq, or_false,
      false_or, true_and] at hshown hinner ⊢
  · rw [if_neg hne]
    exact hinner trivial hshown
  · rw [if_neg hne]
    exact hinner trivial hshown
  · rw [if_neg hne]
    exact hinner trivial hshown
  · exact hl hshown
  · exact hl hshown
  · rw [map_append, mem_append]
    rcases hshown with h | h
    · exact .inl (hl h)
    · exact .inr (by simp [h])
  · rw [map_append, mem_append]
    rcases hshown with h | h
    · exact .inl (hl h)
    · exact .inr (by simp [h])

lemma frame_finishJoin {info₀ : JoinInfo} (hl : Frame n n' left left')
  (hr : Frame n n' right right') (htp : info.joinType = info₀.joinType)
  (shown : ∀ c ∈ schema, c.uniqueID ∈ left.ids ∨ info₀.joinType.showsRight = true ∧
    c.uniqueID ∈ right.ids ∨
    info₀.resultColumn schema = some c) :
  Frame n n' (.join info₀ schema left right) (finishJoin .join info schema left' right') := by
  have hids : schema.map (·.uniqueID) ⊆
      (buildLogicalJoinSchema info.joinType schema left' right').map (·.uniqueID) := by
    rw [htp]
    exact ids_subset_joinSchema hl.ids hr.ids shown
  have hside : ∀ id, id ∈ left'.allIds ∨ id ∈ right'.allIds →
      id ∈ (LogicalPlan.join info₀ schema left right).allIds ∨ n < id ∧ id ≤ n' := by
    intro id hid
    rw [LogicalPlan.allIds, mem_append, mem_append]
    rcases hid with hid | hid
    · exact (hl.allIds id hid).imp_left fun h => .inr (.inl h)
    · exact (hr.allIds id hid).imp_left fun h => .inr (.inr h)
  have hschema : ∀ id ∈ (buildLogicalJoinSchema info.joinType schema left' right').map
      (·.uniqueID), id ∈ (LogicalPlan.join info₀ schema left right).allIds ∨ n < id ∧ id ≤ n' := by
    intro id hid
    rcases mem_ids_joinSchema hid with hid | hid | hid
    · exact hside id (.inl (ids_subset_allIds _ hid))
    · exact hside id (.inr (ids_subset_allIds _ hid))
    · exact .inl (mem_append_left _ hid)
  have hjoin : ∀ i : JoinInfo, Frame n n' (.join info₀ schema left right)
      (.join i (buildLogicalJoinSchema info.joinType schema left' right') left' right') := by
    intro i
    refine ⟨hl.le, hids, fun id hid => ?_, trivial⟩
    rw [LogicalPlan.allIds, mem_append, mem_append] at hid
    exact hid.elim (hschema id) (hside id)
  have hselection : Frame n n' (.join info₀ schema left right) (.selection info.remaining false
      (buildLogicalJoinSchema info.joinType schema left' right') (.join info.withoutRemaining
        (buildLogicalJoinSchema info.joinType schema left' right') left' right')) := by
    refine ⟨hl.le, hids, fun id hid => ?_, trivial⟩
    rw [LogicalPlan.allIds, mem_append] at hid
    exact hid.elim (hschema id) ((hjoin info.withoutRemaining).allIds id)
  rw [finishJoin]
  split
  all_goals first | exact hjoin info | skip
  all_goals
    split
    · exact hjoin info
    · exact hselection

lemma frame_updateEQCond (info : JoinInfo) {q : LogicalPlan} (hp : Frame n n' p left)
  (hq : Frame n n' q right) :
  Frame n (updateEQCond info left right n').2.2.2 p (updateEQCond info left right n').2.1 ∧
  Frame n (updateEQCond info left right n').2.2.2 q (updateEQCond info left right n').2.2.1 := by
  have hkeys := appendKeys_extends (n := n')
    (keyProj_sized hp.sized (((info.otherConditions.reverse.filterMap
      (joinKeys left.schema right.schema))).map (·.1)))
    (keyProj_sized hq.sized (((info.otherConditions.reverse.filterMap
      (joinKeys left.schema right.schema))).map (·.2)))
    (info.otherConditions.reverse.filterMap (joinKeys left.schema right.schema))
  obtain ⟨hle, hleft, hright⟩ := hkeys
  exact ⟨hp.trans (frame_sidePlan hp.sized hle hleft),
    hq.trans (frame_sidePlan hq.sized hle hright)⟩

lemma keptChild_eq (p p' : LogicalPlan) : keptChild p p' = p' ∨
  (∃ conds aff schema, p' = .selection conds aff schema (keptChild p p')) ∨
  ∃ conds aff schema info jschema left right,
    p' = .selection conds aff schema (.join info jschema left right) ∧
    keptChild p p' = .apply info jschema left right := by
  unfold keptChild
  split
  · exact .inr (.inl ⟨_, _, _, rfl⟩)
  · exact .inr (.inr ⟨_, _, _, _, _, _, _, rfl, rfl⟩)
  · exact .inl rfl

lemma allIds_keptChild {p' : LogicalPlan} : (keptChild p p').allIds ⊆ p'.allIds := by
  obtain h | ⟨conds, aff, schema, h⟩ | ⟨conds, aff, schema, info, jschema, left, right, h, hk⟩ :=
    keptChild_eq p p'
  · rw [h]
    exact List.Subset.refl _
  · nth_rewrite 2 [h]
    exact subset_append_right _ _
  · rw [hk, h]
    exact subset_append_right _ _

/-- A side of a join after push-down, under a selection with what it returned, and the counter. -/
def pushedSide (p : LogicalPlan) (conds : List Expr) (n : ℕ) : LogicalPlan × ℕ :=
  (addSelection (predicatePushDown p (removeDupExprs conds) n).2.1
    (predicatePushDown p (removeDupExprs conds) n).1,
    (predicatePushDown p (removeDupExprs conds) n).2.2)

lemma predicatePushDown_join (info : JoinInfo) (schema : List Column) (left right : LogicalPlan)
  (preds : List Expr) (n : ℕ) : let pushed := info.pushConditions left.schema right.schema preds
  let l := pushedSide left pushed.leftCond n
  let r := pushedSide right pushed.rightCond l.2
  let out := updateEQCond pushed.info l.1 r.1 r.2
  predicatePushDown (.join info schema left right) preds n =
    (pushed.ret, finishJoin .join out.1 schema out.2.1 out.2.2.1, out.2.2.2) := by
  rw [predicatePushDown]
  rfl

lemma mem_or_of_mem_append {own ids ids' : List ℕ} {P : ℕ → Prop} (id : ℕ)
  (h : ∀ id ∈ ids', id ∈ ids ∨ P id) (hid : id ∈ own ++ ids') : id ∈ own ++ ids ∨ P id := by
  rcases mem_append.mp hid with hid | hid
  · exact .inl (mem_append_left _ hid)
  · exact (h id hid).imp_left (mem_append_right _)

/-- The frame of push-down: the columns a plan shows stay, new numbers come from the counter. -/
lemma frame_predicatePushDown (hp : Scoped p) (preds : List Expr) (n : ℕ) :
  Frame n (predicatePushDown p preds n).2.2 p (predicatePushDown p preds n).2.1 := by
  induction hp generalizing preds n with
  | dataSource ds => exact ⟨le_rfl, List.Subset.refl _, fun id hid => .inl hid, trivial⟩
  | @selection conds aff schema child hc bound shown ih =>
    obtain ⟨hle, hids, hall, hsized⟩ := ih (conds ++ preds) n
    have hall' : ∀ id ∈ (predicatePushDown child (conds ++ preds) n).2.1.allIds,
        id ∈ (LogicalPlan.selection conds aff schema child).allIds ∨ n < id ∧
          id ≤ (predicatePushDown child (conds ++ preds) n).2.2 := fun id hid =>
      (hall id hid).imp_left (mem_append_right _)
    rw [predicatePushDown]
    dsimp only
    split
    · exact ⟨hle, fun id hid => hids (shown hid), hall', hsized⟩
    · refine ⟨hle, List.Subset.refl _, fun id hid => ?_, trivial⟩
      rcases mem_append.mp hid with hid | hid
      · exact .inl (mem_append_left _ hid)
      · exact hall' id (allIds_keptChild hid)
  | @projection exprs schema child hc sized bound ih =>
    rw [predicatePushDown]
    refine ⟨(ih _ n).le, List.Subset.refl _, fun id hid => ?_, sized⟩
    exact mem_or_of_mem_append id ((ih _ n).addSelection _).allIds hid
  | @join info schema left right hl hr disjoint boundLeft boundRight bound shown result fresh ihl
      ihr =>
    rw [predicatePushDown_join]
    -- a side keeps the frame of its plan: the selection put on it shows the same columns
    have hside : ∀ {p : LogicalPlan} (conds : List Expr) (m : ℕ),
        (∀ ps, Frame m (predicatePushDown p ps m).2.2 p (predicatePushDown p ps m).2.1) →
        Frame m (pushedSide p conds m).2 p (pushedSide p conds m).1 :=
      fun conds m h => (h (removeDupExprs conds)).addSelection _
    have hl' := hside (info.pushConditions left.schema right.schema preds).leftCond n
      fun ps => ihl ps n
    have hr' := hside (info.pushConditions left.schema right.schema preds).rightCond
      (pushedSide left (info.pushConditions left.schema right.schema preds).leftCond n).2
      fun ps => ihr ps _
    obtain ⟨hl'', hr''⟩ := frame_updateEQCond (info.pushConditions left.schema
      right.schema preds).info (hl'.mono_bound le_rfl hr'.le) (hr'.mono_bound hl'.le le_rfl)
    exact frame_finishJoin hl'' hr'' (by simp) shown
  | @aggregation info schema child hc boundKeys boundArgs passed sized ih =>
    rw [predicatePushDown]
    refine ⟨(ih _ n).le, List.Subset.refl _, fun id hid => ?_, trivial⟩
    exact mem_or_of_mem_append id ((ih _ n).addSelection _).allIds hid
  | @unionAll schema children hcs shown ih =>
    rw [predicatePushDown]
    have hchildren : n ≤ (predicatePushDowns children preds n).2 ∧
        ∀ id ∈ allIdsList (predicatePushDowns children preds n).1,
          id ∈ allIdsList children ∨ n < id ∧ id ≤ (predicatePushDowns children preds n).2 := by
      clear hcs shown
      induction children generalizing n with
      | nil => exact ⟨le_rfl, fun id hid => .inl hid⟩
      | cons c cs ihcs =>
        have hc := ih c mem_cons_self preds n
        obtain ⟨hle, hall⟩ := ihcs (fun d hd => ih d (mem_cons_of_mem _ hd))
          (predicatePushDown c preds n).2.2
        refine ⟨hc.le.trans hle, fun id hid => ?_⟩
        rcases mem_append.mp hid with hid | hid
        · refine ((hc.addSelection _).allIds id hid).imp (mem_append_left _) fun hb => ?_
          exact ⟨hb.1, hb.2.trans hle⟩
        · refine (hall id hid).imp (mem_append_right _) fun hb => ?_
          exact ⟨hc.le.trans_lt hb.1, hb.2⟩
    refine ⟨hchildren.1, List.Subset.refl _, fun id hid => ?_, trivial⟩
    exact mem_or_of_mem_append id hchildren.2 hid
  | @limit _ _ child hc ih | @sort _ child hc bound ih | @maxOneRow child hc ih =>
    rw [predicatePushDown]
    have h := (ih preds n).addSelection (predicatePushDown child preds n).1
    exact ⟨h.le, h.ids, h.allIds, trivial⟩
  | @window info schema child hc boundPartition boundOrder fresh ih =>
    rw [predicatePushDown]
    refine ⟨(ih _ n).le, List.Subset.refl _, fun id hid => ?_, trivial⟩
    exact mem_or_of_mem_append id ((ih _ n).addSelection _).allIds hid

lemma frame_pushedSide (hp : Scoped p) (conds : List Expr) (n : ℕ) :
  Frame n (pushedSide p conds n).2 p (pushedSide p conds n).1 :=
  (frame_predicatePushDown hp (removeDupExprs conds) n).addSelection _

end Scql.Planner
