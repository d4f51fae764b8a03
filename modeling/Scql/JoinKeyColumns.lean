import Scql.JoinPushDown

/-! # Keys of a join computed in new columns

Equalities between expressions of the two sides become equalities of columns, computed by a
projection on each side. The join has the same rows, up to the new columns. -/
namespace Scql.Planner

open RowAlgebra LogicalPlan List

variable {V : Type} {I : Interp V} {env : Row V}

def sideRow (I : Interp V) (env : Row V) : Option Proj → Row V → Row V
  | none, row => row
  | some p, row => bindRow I env p.subst row

def sideBase (child : LogicalPlan) (proj : Option Proj) : LogicalPlan :=
  (proj.map (·.child)).getD child

variable {n n' : ℕ} {proj proj' : Option Proj} {id : ℕ}

lemma bindRow_append_of_le {subst new : List (Column × Expr)} {row : Row V}
  (hnew : ∀ q ∈ new, n < q.1.uniqueID) (hid : id ≤ n) :
  bindRow I env (subst ++ new) row id = bindRow I env subst row id := by
  have hnone : new.find? (fun q => q.1.uniqueID = id) = none := by
    rw [find?_eq_none]
    intro q hq heq
    have := hnew q hq
    simp only [decide_eq_true_eq] at heq
    omega
  rw [bindRow, bindRow, find?_append, hnone, Option.or_none]

lemma SideExtends.sideRow_eq (h : SideExtends n n' proj proj') (row : Row V)
  (hid : id ≤ n) : sideRow I env proj' row id = sideRow I env proj row id := by
  cases h with
  | none => rfl
  | some h =>
    obtain ⟨new, hnew, hbound⟩ := h.added
    rw [sideRow, sideRow, hnew]
    exact bindRow_append_of_le (fun q hq => (hbound q hq).1) hid

lemma SideExtends.sideBase_eq (h : SideExtends n n' proj proj') (child : LogicalPlan) :
  sideBase child proj' = sideBase child proj := by
  cases h with
  | none => rfl
  | some h => exact h.child

/-- The columns of a side's projection are numbered up to `n`. -/
def SideBelow (n : ℕ) (proj : Option Proj) : Prop :=
  ∀ p, proj = some p → ∀ c ∈ p.schema, c.uniqueID ≤ n

/-- `a` computes on the extended side what `key` computes on the side. -/
structure KeyMade (I : Interp V) (env : Row V) (proj proj' : Option Proj) (key a : Expr) :
    Prop where
  value : ∀ row, a.value I env (sideRow I env proj' row) = key.value I env (sideRow I env proj row)
  columns : ∀ c ∈ a.extractColumns, c ∈ key.extractColumns ∨
    c.inOperand = false ∧ ∃ p, proj' = some p ∧ c ∈ p.schema

lemma SideBelow.extends (h : SideBelow n proj) (hle : n ≤ n')
  (hext : SideExtends n n' proj proj') : SideBelow n' proj' := by
  cases hext with
  | none => exact fun p hp => absurd hp (by simp)
  | some hext =>
    rintro p ⟨⟩ c hc
    obtain ⟨new, hschema, hnew⟩ := hext.schema
    rw [hschema] at hc
    rcases mem_append.mp hc with hc | hc
    · exact (h _ rfl c hc).trans hle
    · exact (hnew c hc).2

variable {key : Expr} {a : Expr} {proj'' : Option Proj}

lemma KeyMade.extends (h : KeyMade I env proj proj' key a)
  (ha : a.Below n) (hext : SideExtends n n' proj' proj'') : KeyMade I env proj proj'' key a := by
  refine ⟨fun row => ?_, fun c hc => (h.columns c hc).imp_right fun ⟨hin, p, hp, hmem⟩ => ?_⟩
  · rw [← h.value row]
    exact Expr.value_congr a fun c hc => hext.sideRow_eq row (ha c hc)
  · subst hp
    cases hext with
    | some hext =>
      obtain ⟨new, hschema, -⟩ := hext.schema
      exact ⟨hin, _, rfl, hschema ▸ mem_append_left _ hmem⟩

lemma KeyMade.of_extends (h : KeyMade I env proj' proj'' key a)
  (hkey : key.Below n) (hext : SideExtends n n' proj proj') : KeyMade I env proj proj'' key a := by
  refine ⟨fun row => ?_, h.columns⟩
  rw [h.value row]
  exact Expr.value_congr key fun c hc => hext.sideRow_eq row (hkey c hc)

lemma Proj.appendExpr_made {p : Proj} (hsized : p.exprs.length = p.schema.length)
  (hbelow : ∀ c ∈ p.schema, c.uniqueID ≤ n) (hkey : key.Below n) :
  KeyMade I env (some p) (some (p.appendExpr n key).2.1) key (p.appendExpr n key).1 ∧
    (p.appendExpr n key).1.Below (p.appendExpr n key).2.2 := by
  have hnew : ∀ e : Expr, KeyMade I env (some p) (some { p with
      exprs := p.exprs ++ [e.columnSubstitute (p.schema.zip p.exprs)]
      schema := p.schema ++ [{uniqueID := n+1}]}) e (.column {uniqueID := n+1}) := by
    intro e
    refine ⟨fun row => ?_, fun c hc => .inr ?_⟩
    · have hnone : p.subst.find? (fun q => q.1.uniqueID = n+1) = none := by
        refine find?_zip_eq_none fun hmem => ?_
        obtain ⟨c, hc, hid⟩ := mem_map.mp hmem
        have := hbelow c hc
        omega
      have hzip : (p.schema ++ [({uniqueID := n+1} : Column)]).zip
          (p.exprs ++ [e.columnSubstitute (p.schema.zip p.exprs)]) =
          p.subst ++ [({uniqueID := n+1}, e.columnSubstitute (p.schema.zip p.exprs))] :=
        zip_append hsized.symm
      rw [sideRow, sideRow, Proj.subst, hzip, Expr.value, bindRow, find?_append, hnone]
      simp only [find?_cons, decide_true, Option.none_or]
      exact Expr.value_columnSubstitute p.subst row e
    · obtain rfl := mem_singleton.mp hc
      exact ⟨rfl, _, rfl, mem_append_right _ mem_cons_self⟩
  have hbound : (Expr.column {uniqueID := n+1}).Below (n+1) := by
    intro c hc
    obtain rfl := mem_singleton.mp hc
    exact le_rfl
  cases key with
  | column c => exact ⟨⟨fun row => rfl, fun c hc => .inl hc⟩, hkey⟩
  | correlatedColumn c | constant d | scalarFunction f args => exact ⟨hnew _, hbound⟩

variable (I env) in
lemma appendKey_made (hsized : SideSized proj) (hbelow : SideBelow n proj) (hkey : key.Below n) :
  KeyMade I env proj (appendKey proj n key).2.1 key (appendKey proj n key).1 ∧
    (appendKey proj n key).1.Below (appendKey proj n key).2.2 := by
  cases proj with
  | none => exact ⟨⟨fun row => rfl, fun c hc => .inl hc⟩, hkey⟩
  | some p => exact Proj.appendExpr_made (hsized p rfl) (hbelow p rfl) hkey

def PairMade (I : Interp V) (env : Row V) (lProj rProj lProj' rProj' : Option Proj)
    (key : Expr × Expr) (sf : ScalarFunction) : Prop :=
  ∃ a b, sf = {funcName := .EQ, args := [a, b]} ∧ KeyMade I env lProj lProj' key.1 a ∧
    KeyMade I env rProj rProj' key.2 b

variable {lProj rProj : Option Proj}

lemma appendKeys_made (hl : SideSized lProj) (hr : SideSized rProj)
  (hbl : SideBelow n lProj) (hbr : SideBelow n rProj) (keys : List (Expr × Expr))
  (hkeys : ∀ key ∈ keys, key.1.Below n ∧ key.2.Below n) :
  Forall₂ (PairMade I env lProj rProj (appendKeys lProj rProj n keys).2.1
    (appendKeys lProj rProj n keys).2.2.1) keys (appendKeys lProj rProj n keys).1 := by
  induction keys generalizing lProj rProj n with
  | nil => exact .nil
  | cons key keys ih =>
    obtain ⟨hkey, hkeys⟩ := forall_mem_cons.mp hkeys
    -- one key on each side, then the rest on the extended sides
    obtain ⟨hle₁, hext₁⟩ := appendKey_extends (n := n) hl key.1
    obtain ⟨hmade₁, hbelow₁⟩ := appendKey_made I env hl hbl hkey.1
    obtain ⟨hle₂, hext₂⟩ := appendKey_extends (n := (appendKey lProj n key.1).2.2) hr key.2
    have hbr₁ : SideBelow (appendKey lProj n key.1).2.2 rProj := fun p hp c hc =>
      (hbr p hp c hc).trans hle₁
    obtain ⟨hmade₂, hbelow₂⟩ := appendKey_made I env hr hbr₁ fun c hc => (hkey.2 c hc).trans hle₁
    have hbl₂ := fun p hp c hc => ((hbl.extends hle₁ hext₁) p hp c hc).trans hle₂
    have hrest := ih hext₁.sized hext₂.sized hbl₂ (hbr₁.extends hle₂ hext₂) fun key' hkey' =>
      ⟨fun c hc => ((hkeys key' hkey').1 c hc).trans (hle₁.trans hle₂),
        fun c hc => ((hkeys key' hkey').2 c hc).trans (hle₁.trans hle₂)⟩
    obtain ⟨-, hextl, hextr⟩ := appendKeys_extends
      (n := (appendKey rProj (appendKey lProj n key.1).2.2 key.2).2.2) hext₁.sized hext₂.sized keys
    refine .cons ⟨_, _, rfl, ?_, ?_⟩
      (((forall₂_and_left _ _).mpr ⟨hkeys, hrest⟩).imp fun key' sf ⟨hkey', hsf⟩ => ?_)
    · exact hmade₁.extends hbelow₁ (hextl.mono_bound hle₂ le_rfl)
    · exact hmade₂.extends hbelow₂ hextr
    · obtain ⟨a, b, rfl, ha, hb⟩ := hsf
      exact ⟨a, b, rfl, ha.of_extends hkey'.1 hext₁,
        hb.of_extends hkey'.2 (hext₂.mono_bound hle₁ le_rfl)⟩

variable {n : ℕ} {proj : Option Proj}

section Evaluation

variable [DecidableEq V] {db : Database V}

omit [DecidableEq V] in
lemma bindRow_columns (schema : List Column) (row : Row V) :
  bindRow I env (schema.zip (schema.map .column)) row = row := by
  funext id
  rw [bindRow]
  split
  · rename_i q hq
    have hid : q.1.uniqueID = id := by simpa using find?_some hq
    have hmem := mem_of_find?_eq_some hq
    rw [zip_map_right, mem_map] at hmem
    obtain ⟨⟨c, d⟩, hcd, rfl⟩ := hmem
    have heq : c = d := by
      obtain ⟨i, hi, heq⟩ := mem_iff_getElem.mp hcd
      simp only [getElem_zip, Prod.mk.injEq] at heq
      exact heq.1.symm.trans heq.2
    subst heq
    exact congrArg row hid
  · rfl

lemma eval_getProj (p : LogicalPlan) : (getProj p).plan.eval I db env = p.eval I db env := by
  have hpass : ∀ q : LogicalPlan, (LogicalPlan.projection (q.schema.map .column) q.schema q).eval
      I db env = q.eval I db env := by
    intro q
    have hid : (map (bindRow I env (q.schema.zip (q.schema.map .column)))) = id := by
      funext rows
      exact map_id'' (bindRow_columns q.schema) rows
    rw [LogicalPlan.eval, hid, Option.map_id, id]
  cases p with
  | projection exprs schema child => rfl
  | dataSource | selection | join | apply | aggregation | unionAll | limit | sort | window
  | maxOneRow => exact hpass _

lemma eval_sidePlan (child : LogicalPlan) (proj : Option Proj) :
    (sidePlan child proj).eval I db env =
    ((sideBase child proj).eval I db env).map (map (sideRow I env proj)) := by
  cases proj with
  | none =>
    have hid : map (sideRow I env none) = id := by
      funext rows
      exact map_id rows
    rw [hid, Option.map_id]
    rfl
  | some p => rfl

lemma eval_keyProj (child : LogicalPlan) (keys : List Expr) :
  (sidePlan child (keyProj child keys)).eval I db env = child.eval I db env := by
  rw [keyProj]
  split
  · rfl
  · exact eval_getProj child

variable (I env db) in
lemma eval_extended {n' : ℕ} {child : LogicalPlan} {keys : List Expr}
  (h : SideExtends n n' (keyProj child keys) proj) : ∃ base : Option (List (Row V)),
    child.eval I db env = base.map (map (sideRow I env (keyProj child keys))) ∧
    (sidePlan child proj).eval I db env = base.map (map (sideRow I env proj)) := by
  refine ⟨(sideBase child (keyProj child keys)).eval I db env, ?_, ?_⟩
  · rw [← eval_sidePlan, eval_keyProj]
  · rw [eval_sidePlan, h.sideBase_eq]

end Evaluation

variable {e : Expr} {sf : ScalarFunction} {l r : Row V}

section Conditions

variable {b : Expr}

lemma joinKeys_eq_some {left right : List Column}
  (h : joinKeys left right e = some (a, b)) : isEQCondFromIn e = false ∧
  (e = .scalarFunction .EQ [a, b] ∨ e = .scalarFunction .EQ [b, a]) ∧
  exprFromSchema left a = true ∧ exprFromSchema right b = true := by
  unfold joinKeys at h
  split at h
  · rename_i x y
    split_ifs at h with hin hxy hyx
    · obtain ⟨rfl, rfl⟩ := Prod.mk.inj (Option.some.inj h)
      rw [Bool.and_eq_true] at hxy
      exact ⟨Bool.eq_false_iff.mpr hin, .inl rfl, hxy⟩
    · obtain ⟨rfl, rfl⟩ := Prod.mk.inj (Option.some.inj h)
      rw [Bool.and_eq_true] at hyx
      exact ⟨Bool.eq_false_iff.mpr hin, .inr rfl, hyx.2, hyx.1⟩
  · simp at h

lemma inOperand_of_mem (hin : isEQCondFromIn e = false)
  (he : e = .scalarFunction .EQ [a, b] ∨ e = .scalarFunction .EQ [b, a]) {c : Column}
  (hc : c ∈ a.extractColumns ∨ c ∈ b.extractColumns) : c.inOperand = false := by
  have hall : ∀ d ∈ e.extractColumns, d.inOperand = false := by
    intro d hd
    rcases he with rfl | rfl <;> exact Bool.eq_false_iff.mpr (any_eq_false.mp hin d hd)
  refine hall c ?_
  rcases he with rfl | rfl <;>
    simp only [Expr.extractColumns, Expr.extractColumnsList, append_nil, mem_append] <;>
    tauto

variable [DecidableEq V] {left right : LogicalPlan} {L R : List (Row V)}

/-- The equality of the key columns has the outcome of the condition it was made from. -/
lemma outcome_made {lProj' rProj' : Option Proj} (hs : Sides I left right L R)
  (hl : sideRow I env lProj' l ∈ L) (hr : sideRow I env rProj' r ∈ R)
  (hlcols : ∀ p, lProj' = some p → ∀ c ∈ p.schema, c.uniqueID ∈ left.allIds)
  (hrcols : ∀ p, rProj' = some p → ∀ c ∈ p.schema, c.uniqueID ∈ right.allIds)
  (hlkeep : ∀ id ≤ n, sideRow I env lProj' l id = sideRow I env lProj l id)
  (hrkeep : ∀ id ≤ n, sideRow I env rProj' r id = sideRow I env rProj r id)
  (ha : a.Within {id | id ∈ left.allIds ∧ id ≤ n}) (hb : b.Within {id | id ∈ right.allIds ∧ id ≤ n})
  (he : e = .scalarFunction .EQ [a, b] ∨ e = .scalarFunction .EQ [b, a])
  (hin : isEQCondFromIn e = false) (hmade : PairMade I env lProj rProj lProj' rProj' (a, b) sf) :
  sf.toExpr.outcome I env (merge I (sideRow I env lProj' l) (sideRow I env rProj' r)) =
    e.outcome I env (merge I (sideRow I env lProj' l) (sideRow I env rProj' r)) := by
  obtain ⟨a', b', rfl, hmadeA, hmadeB⟩ := hmade
  set row := merge I (sideRow I env lProj' l) (sideRow I env rProj' r) with hrow
  have hA : a'.value I env row = a.value I env row := by
    calc a'.value I env row = a'.value I env (sideRow I env lProj' l) := by
          refine Expr.value_congr a' fun c hc => hs.merge_left hr ?_
          rcases hmadeA.columns c hc with hc | ⟨-, p, hp, hc⟩
          · exact (ha c hc).1
          · exact hlcols p hp c hc
      _ = a.value I env (sideRow I env lProj l) := hmadeA.value l
      _ = a.value I env (sideRow I env lProj' l) :=
          Expr.value_congr a fun c hc => (hlkeep _ (ha c hc).2).symm
      _ = a.value I env row :=
          Expr.value_congr a fun c hc => (hs.merge_left hr (ha c hc).1).symm
  have hB : b'.value I env row = b.value I env row := by
    calc b'.value I env row = b'.value I env (sideRow I env rProj' r) := by
          refine Expr.value_congr b' fun c hc => hs.merge_right hl ?_
          rcases hmadeB.columns c hc with hc | ⟨-, p, hp, hc⟩
          · exact (hb c hc).1
          · exact hrcols p hp c hc
      _ = b.value I env (sideRow I env rProj r) := hmadeB.value r
      _ = b.value I env (sideRow I env rProj' r) :=
          Expr.value_congr b fun c hc => (hrkeep _ (hb c hc).2).symm
      _ = b.value I env row :=
          Expr.value_congr b fun c hc => (hs.merge_right hl (hb c hc).1).symm
  have hvalue : (Expr.scalarFunction .EQ [a', b']).value I env row = e.value I env row := by
    rcases he with rfl | rfl
    · simp only [Expr.value, Expr.values, hA, hB]
    · simp only [Expr.value, Expr.values, hA, hB]
      exact I.equal_comm _ _
  have hnot : isEQCondFromIn (.scalarFunction .EQ [a', b']) = false := by
    rw [isEQCondFromIn, any_eq_false]
    intro c hc
    rw [Bool.not_eq_true]
    obtain ⟨x, hx, hcx⟩ := mem_extractColumnsList.mp hc
    rcases mem_cons.mp hx with rfl | hx
    · rcases hmadeA.columns c hcx with hc | ⟨hin', -⟩
      · exact inOperand_of_mem hin he (.inl hc)
      · exact hin'
    · obtain rfl := mem_singleton.mp hx
      rcases hmadeB.columns c hcx with hc | ⟨hin', -⟩
      · exact inOperand_of_mem hin he (.inr hc)
      · exact hin'
  rw [ScalarFunction.toExpr, Expr.outcome, Expr.outcome, hnot, hin, Expr.holds, Expr.holds,
    Expr.truth, Expr.truth, hvalue]

end Conditions

/-- Columns of the two sides share only numbers up to `k`. -/
def SideDisjoint (k : ℕ) (lProj rProj : Option Proj) : Prop :=
  ∀ p, lProj = some p → ∀ q, rProj = some q →
    ∀ c ∈ p.schema, ∀ d ∈ q.schema, c.uniqueID = d.uniqueID → c.uniqueID ≤ k

variable {k : ℕ} {lProj rProj : Option Proj}

lemma SideDisjoint.symm (h : SideDisjoint k lProj rProj) : SideDisjoint k rProj lProj :=
  fun p hp q hq c hc d hd heq => heq ▸ h q hq p hp d hd c hc heq.symm

lemma SideDisjoint.extends_left (h : SideDisjoint k lProj rProj) (hbelow : SideBelow n rProj)
  (hext : SideExtends n n' lProj proj') : SideDisjoint k proj' rProj := by
  cases hext with
  | none => exact h
  | some hext =>
    rintro p ⟨⟩ q hq c hc d hd heq
    obtain ⟨new, hschema, hnew⟩ := hext.schema
    rw [hschema] at hc
    rcases mem_append.mp hc with hc | hc
    · exact h _ rfl q hq c hc d hd heq
    · have := (hnew c hc).1
      have := hbelow q hq d hd
      omega

lemma appendKeys_disjoint (hl : SideSized lProj) (hr : SideSized rProj)
  (hbl : SideBelow n lProj) (hbr : SideBelow n rProj) (h : SideDisjoint k lProj rProj)
  (keys : List (Expr × Expr)) : SideDisjoint k (appendKeys lProj rProj n keys).2.1
    (appendKeys lProj rProj n keys).2.2.1 := by
  induction keys generalizing lProj rProj n with
  | nil => exact h
  | cons key keys ih =>
    obtain ⟨hle₁, hext₁⟩ := appendKey_extends (n := n) hl key.1
    obtain ⟨hle₂, hext₂⟩ := appendKey_extends (n := (appendKey lProj n key.1).2.2) hr key.2
    have hbl₁ := hbl.extends hle₁ hext₁
    have hbr₁ : SideBelow (appendKey lProj n key.1).2.2 rProj := fun p hp c hc =>
      (hbr p hp c hc).trans hle₁
    have hbl₂ := fun p hp c hc => (hbl₁ p hp c hc).trans hle₂
    have hleft := h.extends_left hbr hext₁
    exact ih hext₁.sized hext₂.sized hbl₂ (hbr₁.extends hle₂ hext₂)
      (hleft.symm.extends_left hbl₁ hext₂).symm

variable {p : LogicalPlan}

lemma mem_allIds_sidePlan {keys : List Expr}
  (h : SideExtends n n' (keyProj p keys) proj) (hid : id ∈ (sidePlan p proj).allIds) :
  id ∈ p.allIds ∨ ∃ q, proj = some q ∧ id ∈ q.schema.map (·.uniqueID) ∧ n < id := by
  rw [keyProj] at h
  split at h
  · cases h
    exact .inl hid
  · obtain ⟨q, rfl, hext⟩ : ∃ q, proj = some q ∧ (getProj p).Extends n n' q := by
      cases h with
      | some h => exact ⟨_, rfl, h⟩
    obtain ⟨new, hschema, hnew⟩ := hext.schema
    have hid : id ∈ q.schema.map (·.uniqueID) ++ q.child.allIds := hid
    rw [hext.child] at hid
    rcases mem_append.mp hid with hid | hid
    · obtain ⟨c, hc, rfl⟩ := mem_map.mp hid
      rcases mem_append.mp (hschema ▸ hc) with hold | hc'
      · exact .inl (mem_allIds_getProj.mp (mem_append_left _ (mem_map_of_mem hold)))
      · exact .inr ⟨q, rfl, hid, (hnew c hc').1⟩
    · exact .inl (mem_allIds_getProj.mp (mem_append_right _ hid))

lemma schema_subset_sidePlan {q : Proj} (h : proj = some q) :
  ∀ c ∈ q.schema, c.uniqueID ∈ (sidePlan p proj).allIds := by
  subst h
  exact fun c hc => mem_append_left _ (mem_map_of_mem hc)

lemma keyProj_below (h : ∀ id ∈ p.allIds, id ≤ n) (keys : List Expr) :
    SideBelow n (keyProj p keys) := by
  intro q hq c hc
  rw [keyProj] at hq
  split at hq
  · simp at hq
  · cases hq
    exact h _ (mem_allIds_getProj.mp (mem_append_left _ (mem_map_of_mem hc)))

lemma disjoint_sidePlan {left right : LogicalPlan} {lKeys rKeys : List Expr}
  (hl : SideExtends n n' (keyProj left lKeys) lProj)
  (hr : SideExtends n n' (keyProj right rKeys) rProj) (hbl : ∀ id ∈ left.allIds, id ≤ n)
  (hbr : ∀ id ∈ right.allIds, id ≤ n) (hdisjoint : ∀ id ∈ left.allIds, id ∉ right.allIds)
  (hnew : SideDisjoint n lProj rProj) :
  ∀ id ∈ (sidePlan left lProj).allIds, id ∉ (sidePlan right rProj).allIds := by
  intro id hid hid'
  rcases mem_allIds_sidePlan hl hid with hid | ⟨p, hp, hmem, hlt⟩
  · rcases mem_allIds_sidePlan hr hid' with hid' | ⟨-, -, -, hlt⟩
    · exact hdisjoint id hid hid'
    · have := hbl id hid
      omega
  · rcases mem_allIds_sidePlan hr hid' with hid' | ⟨q, hq, hmem', -⟩
    · have := hbr id hid'
      omega
    · obtain ⟨c, hc, rfl⟩ := mem_map.mp hmem
      obtain ⟨d, hd, heq⟩ := mem_map.mp hmem'
      have := hnew p hp q hq c hc d hd heq.symm
      omega

variable [DecidableEq V] {db : Database V}

/-- The equalities that are moved, with their two sides. -/
def movedKeys (info : JoinInfo) (left right : LogicalPlan) : List (Expr × Expr) :=
  info.otherConditions.reverse.filterMap (joinKeys left.schema right.schema)

variable {key : Expr × Expr} {info : JoinInfo}

lemma mem_movedKeys {left right : LogicalPlan} : key ∈ movedKeys info left right ↔
    ∃ e ∈ info.otherConditions, joinKeys left.schema right.schema e = some key := by
  simp [movedKeys, mem_filterMap]

def keyEqualities (info : JoinInfo) (left right : LogicalPlan) (next : ℕ) : List ScalarFunction :=
  (appendKeys (keyProj left ((movedKeys info left right).map (·.1)))
    (keyProj right ((movedKeys info left right).map (·.2))) next (movedKeys info left right)).1

omit [DecidableEq V] in
lemma outcome_updateEQCond {left right : LogicalPlan} {next : ℕ} {row : Row V}
  (hmoved : ∀ e ∈ info.otherConditions, ∀ key, joinKeys left.schema right.schema e = some key →
    ∃ sf ∈ keyEqualities info left right next, sf.toExpr.outcome I env row = e.outcome I env row)
  (hmade : ∀ sf ∈ keyEqualities info left right next, ∃ e ∈ info.otherConditions,
    sf.toExpr.outcome I env row = e.outcome I env row) :
  outcome I env (updateEQCond info left right next).1.conditions row =
    outcome I env info.conditions row := by
  have hconds : (updateEQCond info left right next).1.conditions = info.leftConditions ++
      info.rightConditions ++ ((info.equalConditions ++
        keyEqualities info left right next).map ScalarFunction.toExpr ++
        info.otherConditions.filter (fun e => (joinKeys left.schema right.schema e).isNone)) := rfl
  rw [outcome, outcome, hconds, JoinInfo.conditions]
  refine allTri_congr fun v => ?_
  simp only [map_append, mem_append, mem_map, mem_filter]
  constructor
  · rintro (h | (h | ⟨_, ⟨sf, hsf, rfl⟩, hv⟩) | ⟨e, ⟨he, -⟩, hv⟩)
    · exact .inl h
    · exact .inr (.inl h)
    · obtain ⟨e, he, heq⟩ := hmade sf hsf
      exact .inr (.inr ⟨e, he, heq ▸ hv⟩)
    · exact .inr (.inr ⟨e, he, hv⟩)
  · rintro (h | h | ⟨e, he, hv⟩)
    · exact .inl h
    · exact .inr (.inl (.inl h))
    · cases hkey : joinKeys left.schema right.schema e with
      | none => exact .inr (.inr ⟨e, ⟨he, by simp [hkey]⟩, hv⟩)
      | some key =>
        obtain ⟨sf, hsf, heq⟩ := hmoved e he key hkey
        exact .inr (.inl (.inr ⟨sf.toExpr, ⟨sf, hsf, rfl⟩, heq.trans hv⟩))

/-- The sides of a join after its keys were computed in columns numbered above `n`. -/
structure KeyColumns (I : Interp V) (env : Row V) (info : JoinInfo) (left right : LogicalPlan)
    (n n' : ℕ) (lProj rProj : Option Proj) (eqs : List ScalarFunction) : Prop where
  sized_left : left.Sized
  sized_right : right.Sized
  below_left : ∀ id ∈ left.allIds, id ≤ n
  below_right : ∀ id ∈ right.allIds, id ≤ n
  le : n ≤ n'
  extends_left : SideExtends n n' (keyProj left ((movedKeys info left right).map (·.1))) lProj
  extends_right : SideExtends n n' (keyProj right ((movedKeys info left right).map (·.2))) rProj
  disjoint : ∀ id ∈ (sidePlan left lProj).allIds, id ∉ (sidePlan right rProj).allIds
  made : Forall₂ (PairMade I env (keyProj left ((movedKeys info left right).map (·.1)))
    (keyProj right ((movedKeys info left right).map (·.2))) lProj rProj)
    (movedKeys info left right) eqs

variable {info : JoinInfo} {left right : LogicalPlan} {n₁ n₂ : ℕ} {eqs : List ScalarFunction}

lemma joinKeys_within (h : joinKeys left.schema right.schema e = some key) :
  key.1.Within left.scope ∧ key.2.Within right.scope := by
  obtain ⟨-, -, ha, hb⟩ := joinKeys_eq_some h
  exact ⟨within_of_exprFromSchema ha, within_of_exprFromSchema hb⟩

omit [DecidableEq V] in
lemma keyColumns_updateEQCond (I : Interp V) (env : Row V) (info : JoinInfo)
  (hsl : left.Sized) (hsr : right.Sized) (hbl : ∀ id ∈ left.allIds, id ≤ n)
  (hbr : ∀ id ∈ right.allIds, id ≤ n)
  (hdisjoint : ∀ id ∈ left.allIds, id ∉ right.allIds) :
  ∃ lProj rProj, KeyColumns I env info left right n (updateEQCond info left right n).2.2.2
    lProj rProj (keyEqualities info left right n) ∧
    (updateEQCond info left right n).2.1 = sidePlan left lProj ∧
    (updateEQCond info left right n).2.2.1 = sidePlan right rProj := by
  have hkl := keyProj_sized hsl ((movedKeys info left right).map (·.1))
  have hkr := keyProj_sized hsr ((movedKeys info left right).map (·.2))
  have hkbl := keyProj_below hbl ((movedKeys info left right).map (·.1))
  have hkbr := keyProj_below hbr ((movedKeys info left right).map (·.2))
  obtain ⟨hle, hextl, hextr⟩ := appendKeys_extends (n := n) hkl hkr (movedKeys info left right)
  have hnew := appendKeys_disjoint hkl hkr hkbl hkbr (fun p hp _ _ c hc _ _ _ => hkbl p hp c hc)
    (movedKeys info left right)
  have hbelow : ∀ key ∈ movedKeys info left right, key.1.Below n ∧ key.2.Below n := by
    intro key hkey
    obtain ⟨e, -, hkey⟩ := mem_movedKeys.mp hkey
    obtain ⟨ha, hb⟩ := joinKeys_within hkey
    exact ⟨fun c hc => hbl _ (ids_subset_allIds left (ha c hc)),
      fun c hc => hbr _ (ids_subset_allIds right (hb c hc))⟩
  exact ⟨_, _,
    ⟨hsl, hsr, hbl, hbr, hle, hextl, hextr, disjoint_sidePlan hextl hextr hbl hbr hdisjoint hnew,
    appendKeys_made hkl hkr hkbl hkbr (movedKeys info left right) hbelow⟩, rfl, rfl⟩

lemma KeyColumns.outcome_eq (h : KeyColumns I env info left right n n₁ lProj rProj eqs)
  {L R : List (Row V)} (hs : Sides I (sidePlan left lProj) (sidePlan right rProj) L R)
  (hl : sideRow I env lProj l ∈ L) (hr : sideRow I env rProj r ∈ R)
  (hkey : joinKeys left.schema right.schema e = some key)
  (hsf : PairMade I env (keyProj left ((movedKeys info left right).map (·.1)))
    (keyProj right ((movedKeys info left right).map (·.2))) lProj rProj key sf)
  : sf.toExpr.outcome I env (merge I (sideRow I env lProj l) (sideRow I env rProj r)) =
    e.outcome I env (merge I (sideRow I env lProj l) (sideRow I env rProj r)) := by
  obtain ⟨hin, hform, -, -⟩ := joinKeys_eq_some hkey
  obtain ⟨ha, hb⟩ := joinKeys_within hkey
  have hframel := frame_sidePlan h.sized_left h.le h.extends_left
  have hframer := frame_sidePlan h.sized_right h.le h.extends_right
  refine outcome_made hs hl hr (fun p hp => schema_subset_sidePlan hp)
    (fun p hp => schema_subset_sidePlan hp) (fun id hid => h.extends_left.sideRow_eq l hid)
    (fun id hid => h.extends_right.sideRow_eq r hid) (fun c hc => ?_) (fun c hc => ?_) hform hin hsf
  · exact ⟨ids_subset_allIds _ (hframel.ids (ha c hc)),
      h.below_left _ (ids_subset_allIds left (ha c hc))⟩
  · exact ⟨ids_subset_allIds _ (hframer.ids (hb c hc)),
      h.below_right _ (ids_subset_allIds right (hb c hc))⟩

omit [DecidableEq V] in
lemma map_trunc_sideRow {proj' : Option Proj} (hext : SideExtends n₁ n₂ proj proj')
  (hle : n ≤ n₁) (B : List (Row V)) : (B.map (sideRow I env proj)).map (trunc I n) =
    (B.map (sideRow I env proj')).map (trunc I n) := by
  rw [map_map, map_map]
  refine map_congr_left fun row _ => ?_
  funext id
  by_cases hid : id ≤ n
  · rw [Function.comp_apply, Function.comp_apply, trunc_of_le hid, trunc_of_le hid,
      hext.sideRow_eq row (hid.trans hle)]
  · exact (trunc_of_lt (by omega)).trans (trunc_of_lt (by omega)).symm

omit [DecidableEq V] in
lemma outcome_trunc_of_below {conds : List Expr} (h : ∀ e ∈ conds, e.Below n) (row : Row V) :
  outcome I env conds (trunc I n row) = outcome I env conds row := by
  rw [outcome, outcome]
  congr 1
  exact map_congr_left fun e he => outcome_trunc (h e he)

/-- Moving equalities to key columns does not change the rows of a join, up to the new columns. -/
lemma joinRows_updateEQCond {tp : JoinType} {result : Option Column} (hsl : left.Sized)
  (hsr : right.Sized) (hle : n ≤ n₁) (hbl : ∀ id ∈ left.allIds, id ≤ n₁)
  (hbr : ∀ id ∈ right.allIds, id ≤ n₁) (hdisjoint : ∀ id ∈ left.allIds, id ∉ right.allIds)
  (hconds : ∀ e ∈ info.conditions, e.Below n) (hresult : ∀ c, result = some c → c.uniqueID ≤ n) :
  ((updateEQCond info left right n₁).2.1.eval I db env).bind (fun L =>
    ((updateEQCond info left right n₁).2.2.1.eval I db env).map (fun R =>
      (joinRows I env tp (updateEQCond info left right n₁).1.conditions result L R).map
        (trunc I n))) = (left.eval I db env).bind (fun L => (right.eval I db env).map (fun R =>
    joinRows I env tp info.conditions result (L.map (trunc I n)) (R.map (trunc I n)))) := by
  obtain ⟨lProj, rProj, h, hleft, hright⟩ :=
    keyColumns_updateEQCond I env info hsl hsr hbl hbr hdisjoint
  obtain ⟨BL, hL₁, hL₂⟩ := eval_extended I env db h.extends_left
  obtain ⟨BR, hR₁, hR₂⟩ := eval_extended I env db h.extends_right
  rw [hleft, hright, hL₁, hL₂, hR₁, hR₂]
  rcases BL with - | BL
  · rfl
  rcases BR with - | BR
  · rfl
  simp only [Option.map_some, Option.bind_some, Option.some.injEq]
  rw [map_trunc_sideRow h.extends_left hle, map_trunc_sideRow h.extends_right hle]
  refine (joinRows_trunc hresult fun l' hl' r' hr' => ?_).symm
  obtain ⟨l, -, rfl⟩ := mem_map.mp hl'
  obtain ⟨r, -, rfl⟩ := mem_map.mp hr'
  have hs : Sides I (sidePlan left lProj) (sidePlan right rProj) (BL.map (sideRow I env lProj))
      (BR.map (sideRow I env rProj)) :=
    ⟨fun l hl id hid => eval_null _ hL₂ hl hid, fun r hr id hid => eval_null _ hR₂ hr hid,
      h.disjoint⟩
  rw [pairOutcome, pairOutcome, ← trunc_merge, outcome_trunc_of_below hconds]
  refine (outcome_updateEQCond (fun e he key hkey => ?_) fun sf hsf => ?_).symm
  · obtain ⟨sf, hsf, hmade⟩ := Fallible.exists_of_forall₂ h.made (mem_movedKeys.mpr ⟨e, he, hkey⟩)
    exact ⟨sf, hsf, h.outcome_eq hs hl' hr' hkey hmade⟩
  · obtain ⟨key, hkey, hmade⟩ := Fallible.exists_of_forall₂ h.made.flip hsf
    obtain ⟨e, he, hkey⟩ := mem_movedKeys.mp hkey
    exact ⟨e, he, h.outcome_eq hs hl' hr' hkey hmade⟩

end Scql.Planner
