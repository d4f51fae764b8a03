import Mathlib.Order.Bounds.Basic
import Scql.ControlInference

/-! # Levels of an expression

The levels of control are ordered by what they hide. Without comparisons, the level of an
expression for a party is the least upper bound of the levels of its columns. -/
namespace Scql.ControlInference

open ColumnControl Planner CCLLevel Fallible List

/-- `Plain` hides nothing, `Encrypt` everything; `Unknown` is above all other levels. -/
instance : LE CCLLevel := ⟨fun l r => l = r ∨ l = Plain ∨ r = Encrypt ∨ r = Unknown ∧ l ≠ Encrypt⟩

instance (l r : CCLLevel) : Decidable (l ≤ r) :=
  inferInstanceAs (Decidable (l = r ∨ l = Plain ∨ r = Encrypt ∨ r = Unknown ∧ l ≠ Encrypt))

instance : SemilatticeSup CCLLevel where
  sup := lookUpVis
  le_refl _ := .inl rfl
  le_trans a b c := by cases a <;> cases b <;> cases c <;> decide
  le_antisymm a b := by cases a <;> cases b <;> decide
  le_sup_left a b := by cases a <;> cases b <;> decide
  le_sup_right a b := by cases a <;> cases b <;> decide
  sup_le a b c := by cases a <;> cases b <;> cases c <;> decide

instance : OrderBot CCLLevel where
  bot := Plain
  bot_le _ := .inr (.inl rfl)

def CclEnv.ofMap (m : AList (fun _ : ℕ => CCL)) : CclEnv := ⟨m.lookup, m.entries.map (·.2)⟩

mutual
/-- No comparison, and no column of an outer query. -/
def CompareFree : Expr → Prop
  | .column _ | .constant _ => True
  | .correlatedColumn _ => False
  | .scalarFunction f args => isCompareAstFunc f = false ∧ CompareFreeList args

def CompareFreeList : List Expr → Prop
  | [] => True
  | e::es => CompareFree e ∧ CompareFreeList es
end

variable {m : AList (fun _ : ℕ => CCL)} {p : PartyCode} {cc : CCL} {ccs : List CCL}

/-- Some column control of the map names the party. -/
def Named (m : AList (fun _ : ℕ => CCL)) (p : PartyCode) : Prop :=
  ∃ id k, m.lookup id = some k ∧ p ∈ k.partyLevels

/-- The levels of the columns for a party; a party that is not named counts as `Unknown`. -/
def levels (m : AList (fun _ : ℕ => CCL)) (p : PartyCode) (cols : List Column) : Set CCLLevel :=
  {l | l = Unknown ∧ ¬Named m p ∨ ∃ c ∈ cols, ∃ k, m.lookup c.uniqueID = some k ∧ k.levelFor p = l}

lemma levels_append (cols cols' : List Column) :
  levels m p (cols ++ cols') = levels m p cols ∪ levels m p cols' := by
  ext l
  simp only [levels, mem_append, or_and_right, exists_or, Set.mem_union, Set.mem_ofPred_eq]
  exact or_or_distrib_left

lemma mem_extractPartyCodes_ofMap : p ∈ CCL.extractPartyCodes (CclEnv.ofMap m).all ↔ Named m p := by
  rw [CCL.mem_extractPartyCodes, Named]
  simp only [CclEnv.ofMap, mem_map]
  constructor
  · rintro ⟨_, ⟨⟨id, k⟩, hk, rfl⟩, hp⟩
    exact ⟨id, k, AList.mem_lookup_iff.mpr hk, hp⟩
  · rintro ⟨id, k, hk, hp⟩
    exact ⟨k, ⟨⟨id, k⟩, AList.mem_lookup_iff.mp hk, rfl⟩, hp⟩

lemma isLUB_constant (h : inferConstantCCL (.ofMap m) = .ok cc) :
  IsLUB (levels m p []) (cc.levelFor p) := by
  rw [inferConstantCCL] at h
  split at h
  · cases h
  · cases h
    rw [CCL.levelFor_createAllPlainCCL]
    split
    · next hp =>
      refine ⟨?_, fun _ _ => bot_le⟩
      rintro l (⟨-, hnot⟩ | ⟨c, hc, -⟩)
      · exact absurd (mem_extractPartyCodes_ofMap.mp hp) hnot
      · cases hc
    · next hp =>
      refine IsGreatest.isLUB ⟨.inl ⟨rfl, mt mem_extractPartyCodes_ofMap.mpr hp⟩, ?_⟩
      rintro l (⟨rfl, -⟩ | ⟨c, hc, -⟩)
      · exact le_rfl
      · cases hc

lemma isLUB_column {c : Column} (h : m.lookup c.uniqueID = some cc) :
  IsLUB (levels m p [c]) (cc.levelFor p) := by
  refine IsGreatest.isLUB ⟨.inr ⟨c, mem_cons_self, cc, h, rfl⟩, ?_⟩
  rintro l (⟨rfl, hnot⟩ | ⟨c', hc', k, hk, rfl⟩)
  · rw [CCL.levelFor_eq_unknown_of_notMem cc p fun hp => hnot ⟨c.uniqueID, cc, h, hp⟩]
  · rw [mem_singleton.mp hc', h, Option.some.injEq] at hk
    rw [hk]

mutual
lemma isLUB_inferExpression (e : Expr) {cc : CCL} (hfree : CompareFree e)
  (h : inferExpressionCCL (.ofMap m) e = .ok cc) :
  IsLUB (levels m p e.extractColumns) (cc.levelFor p) := by
  cases e with
  | column c =>
    rw [inferExpressionCCL] at h
    split at h
    · cases h
    · cases h
      exact isLUB_column ‹_›
  | correlatedColumn c => cases h
  | constant d => exact isLUB_constant h
  | scalarFunction f args =>
    cases args with
    | nil => exact isLUB_constant h
    | cons a as =>
      simp only [inferExpressionCCL, bind_eq_ok] at h
      obtain ⟨c, hc, cs, hcs, h⟩ := h
      cases h
      obtain ⟨hf, ha, has⟩ := hfree
      rw [inferScalarFuncCCLUsingArgCCL, hf]
      exact isLUB_inferExpressions as has hcs (isLUB_inferExpression a ha hc)

lemma isLUB_inferExpressions (es : List Expr) {ccs : List CCL} (hfree : CompareFreeList es)
  (h : inferExpressionCCLs (.ofMap m) es = .ok ccs) {cc : CCL} {cols : List Column}
  (hcols : IsLUB (levels m p cols) (cc.levelFor p)) :
  IsLUB (levels m p (cols ++ Expr.extractColumnsList es))
    ((ccs.foldl CCL.updateMoreRestrictedCCLFrom cc).levelFor p) := by
  cases es with
  | nil =>
    cases h
    rwa [Expr.extractColumnsList, append_nil]
  | cons e es =>
    simp only [inferExpressionCCLs, bind_eq_ok] at h
    obtain ⟨c, hc, cs, hcs, h⟩ := h
    cases h
    rw [foldl_cons, Expr.extractColumnsList, ← append_assoc]
    refine isLUB_inferExpressions es hfree.2 hcs ?_
    rw [levels_append, CCL.levelFor_updateMoreRestrictedCCLFrom]
    exact hcols.union (isLUB_inferExpression e hfree.1 hc)
end

lemma exists_constant (h : Named m p) : ∃ cc, inferConstantCCL (.ofMap m) = .ok cc :=
  ⟨_, if_neg (ne_nil_of_mem (mem_extractPartyCodes_ofMap.mpr h))⟩

mutual
lemma exists_inferExpression (hp : Named m p) (e : Expr) (hfree : CompareFree e)
  (hcols : ∀ c ∈ e.extractColumns, c.uniqueID ∈ m) :
    ∃ cc, inferExpressionCCL (.ofMap m) e = .ok cc := by
  cases e with
  | column c =>
    obtain ⟨k, hk⟩ := Option.isSome_iff_exists.mp (AList.lookup_isSome.mpr (hcols c mem_cons_self))
    exact ⟨k, by simp only [inferExpressionCCL, CclEnv.ofMap, hk]⟩
  | correlatedColumn c => exact hfree.elim
  | constant d => exact exists_constant hp
  | scalarFunction f args =>
    cases args with
    | nil => exact exists_constant hp
    | cons a as =>
      obtain ⟨ccs, hccs⟩ := exists_inferExpressions hp (a::as) hfree.2 hcols
      simp only [inferExpressionCCLs, bind_eq_ok] at hccs
      obtain ⟨c, hc, cs, hcs, -⟩ := hccs
      exact ⟨_, by simp only [inferExpressionCCL, hc, hcs]; rfl⟩

lemma exists_inferExpressions (hp : Named m p) (es : List Expr) (hfree : CompareFreeList es)
  (hcols : ∀ c ∈ Expr.extractColumnsList es, c.uniqueID ∈ m) :
  ∃ ccs, inferExpressionCCLs (.ofMap m) es = .ok ccs := by
  cases es with
  | nil => exact ⟨[], rfl⟩
  | cons e es =>
    rw [Expr.extractColumnsList, forall_mem_append] at hcols
    obtain ⟨c, hc⟩ := exists_inferExpression hp e hfree.1 hcols.1
    obtain ⟨cs, hcs⟩ := exists_inferExpressions hp es hfree.2 hcols.2
    exact ⟨c::cs, by simp only [inferExpressionCCLs, hc, hcs]; rfl⟩
end

/-- A level that a comparison may reveal. -/
def Comparable (l : CCLLevel) : Prop := l = Plain ∨ l = Compare

lemma inferCompareFunc_eq_plain_iff (l r : CCLLevel) :
  inferCompareFunc l r = Plain ↔ Comparable l ∧ Comparable r := by
  cases l <;> cases r <;> simp [inferCompareFunc, lookUpVis, Comparable]

lemma inferCompareFunc_ne_compare (l r : CCLLevel) : inferCompareFunc l r ≠ Compare := by
  cases l <;> cases r <;> decide

lemma plain_foldl_inferCompare (hcc : cc.levelFor p ≠ Compare) :
  (ccs.foldl CCL.inferCompareFuncCCL cc).levelFor p = Plain ↔
    cc.levelFor p = Plain ∧ ∀ c ∈ ccs, Comparable (c.levelFor p) := by
  induction ccs generalizing cc with
  | nil => simp
  | cons c ccs ih =>
    rw [foldl_cons, ih, CCL.levelFor_inferCompareFuncCCL, inferCompareFunc_eq_plain_iff]
    · simp [Comparable, hcc, and_assoc]
    · rw [CCL.levelFor_inferCompareFuncCCL]
      exact inferCompareFunc_ne_compare _ _

/-- The level of an expression without comparisons is the least upper bound of the levels of its
columns; a comparison shows its outcome exactly if all arguments may be compared. -/
theorem inferExpressionCCL_isLUB (m : AList (fun _ : ℕ => CCL)) (p : PartyCode) (e : Expr) :
  (CompareFree e → (∀ c ∈ e.extractColumns, c.uniqueID ∈ m) → Named m p →
    ∃ cc, inferExpressionCCL (.ofMap m) e = .ok cc) ∧
  (CompareFree e → ∀ cc, inferExpressionCCL (.ofMap m) e = .ok cc →
    IsLUB (levels m p e.extractColumns) (cc.levelFor p)) ∧
  ∀ f a b as cc, isCompareAstFunc f = true →
    inferExpressionCCL (.ofMap m) (.scalarFunction f (a::b::as)) = .ok cc →
    ∃ ccs, inferExpressionCCLs (.ofMap m) (a::b::as) = .ok ccs ∧
      (cc.levelFor p = Plain ↔ ∀ c ∈ ccs, c.levelFor p = Plain ∨ c.levelFor p = Compare) := by
  refine ⟨fun hfree hcols hp => exists_inferExpression hp e hfree hcols,
    fun hfree _ h => isLUB_inferExpression e hfree h, ?_⟩
  intro f a b as cc hf h
  simp only [inferExpressionCCL, inferExpressionCCLs, bind_eq_ok] at h
  obtain ⟨c, hc, _, ⟨d, hd, ds, hds, hpure⟩, h⟩ := h
  cases hpure
  cases h
  refine ⟨c::d::ds, by simp only [inferExpressionCCLs, hc, hd, hds]; rfl, ?_⟩
  rw [inferScalarFuncCCLUsingArgCCL, hf, if_pos rfl, foldl_cons, plain_foldl_inferCompare,
    CCL.levelFor_inferCompareFuncCCL, inferCompareFunc_eq_plain_iff]
  · simp [Comparable, and_assoc]
  · rw [CCL.levelFor_inferCompareFuncCCL]
    exact inferCompareFunc_ne_compare _ _

/-- Two columns, one of which the party may compare and the other one see. -/
def twoLevels : AList (fun _ : ℕ => CCL) :=
  (AList.singleton 1 ⟨.singleton "alice" Compare⟩).insert 2 ⟨.singleton "alice" Plain⟩

def pair (f : FuncName) : Expr :=
  .scalarFunction f [.column { uniqueID := 1 }, .column { uniqueID := 2 }]

theorem inferExpressionCCL_isLUB_pair :
    (∃ cc, inferExpressionCCL (.ofMap twoLevels) (pair (.other "plus")) = .ok cc ∧
      IsLUB (levels twoLevels "alice" (pair (.other "plus")).extractColumns)
        (cc.levelFor "alice")) ∧
    ∃ cc, inferExpressionCCL (.ofMap twoLevels) (pair .LT) = .ok cc ∧
      cc.levelFor "alice" = Plain := by
  obtain ⟨hok, hlub, hcompare⟩ :=
    inferExpressionCCL_isLUB twoLevels "alice" (pair (.other "plus"))
  have hfree : CompareFree (pair (.other "plus")) := by
    simp [pair, CompareFree, CompareFreeList, isCompareAstFunc]
  constructor
  · obtain ⟨cc, hcc⟩ := hok hfree (by decide) ⟨1, _, rfl, by decide⟩
    exact ⟨cc, hcc, hlub hfree cc hcc⟩
  · obtain ⟨ccs, hccs, hplain⟩ := hcompare .LT (.column { uniqueID := 1 })
      (.column { uniqueID := 2 }) [] _ rfl rfl
    cases hccs
    exact ⟨_, rfl, hplain.mpr (by decide)⟩

end Scql.ControlInference
