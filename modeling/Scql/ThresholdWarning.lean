import Scql.GroupThreshold

/-! # The warning about the threshold of group sizes

The translator keeps one flag for a whole query. Every selection that it builds sets the flag anew,
and a subtree with the data of one party is not visited: it becomes a query of its own. -/
namespace Scql.ControlInference

open MapRange ColumnControl Planner Fallible List

variable {ε : Type} {build : LNode → Except ε Unit} {o : RangeOrder} {env : BuilderEnv} {k : ℕ}

mutual
/-- The flag after a node has been translated. `build` stands for the builders, which do not read
the flag; only the one for selections sets it. -/
def translateInternal (build : LNode → Except ε Unit) : LNode → Bool → Except ε Bool
  | .mk lp ccl parties childParties condVis rt children, flag => do
    let n := LNode.mk lp ccl parties childParties condVis rt children
    if parties.length = 1 then
      build n
      return flag
    let flag ← translateChildren build children flag
    build n
    match lp with
    | .selection _ affected _ _ => return affected
    | _ => return flag

def translateChildren (build : LNode → Except ε Unit) : List LNode → Bool → Except ε Bool
  | [], flag => return flag
  | n::ns, flag => do
    let flag ← translateInternal build n flag
    translateChildren build ns flag
end

def ownFlag : LogicalPlan → List Bool
  | .selection _ affected _ _ => [affected]
  | _ => []

mutual
/-- The flags of the selections that are built, in this order. -/
def builtFlags : LNode → List Bool
  | .mk lp _ parties _ _ _ children =>
    if parties.length = 1 then [] else builtFlagsAll children ++ ownFlag lp

def builtFlagsAll : List LNode → List Bool
  | [] => []
  | n::ns => builtFlags n ++ builtFlagsAll ns
end

lemma translateInternal_eq (n : LNode) : ∀ {flag w : Bool},
  translateInternal build n flag = .ok w → w = (builtFlags n).getLast?.getD flag := by
  refine builtFlags.induct
    (fun n => ∀ {flag w}, translateInternal build n flag = .ok w →
      w = (builtFlags n).getLast?.getD flag)
    (fun ns => ∀ {flag w}, translateChildren build ns flag = .ok w →
      w = (builtFlagsAll ns).getLast?.getD flag) ?party ?node ?nil ?cons n
  case party =>
    intro lp ccl parties cp cv rt children hone flag w h
    rw [translateInternal, if_pos hone] at h
    obtain ⟨_, -, h⟩ := bind_eq_ok.mp h
    rw [builtFlags, if_pos hone]
    exact (pure_eq_ok.mp h).symm
  case node =>
    intro lp ccl parties cp cv rt children hne ih flag w h
    rw [translateInternal, if_neg hne] at h
    obtain ⟨flag₁, hchildren, h⟩ := bind_eq_ok.mp h
    obtain ⟨_, -, h⟩ := bind_eq_ok.mp h
    rw [builtFlags, if_neg hne]
    cases lp with
    | selection _ affected _ _ => simpa [ownFlag] using (pure_eq_ok.mp h).symm
    | _ =>
      cases h
      simpa [ownFlag] using ih hchildren
  case nil => exact fun h => (pure_eq_ok.mp h).symm
  case cons =>
    intro n ns ihn ihns flag w h
    obtain ⟨flag₁, hn, h⟩ := bind_eq_ok.mp h
    rw [builtFlagsAll, getLast?_append, ihns h, ihn hn]
    cases (builtFlagsAll ns).getLast? <;> rfl

mutual
/-- For the selections of a plan, whether they filter groups by the threshold `k`. A plan that is
compiled again has flags from before. -/
def groupFilters (k : ℕ) : LogicalPlan → List Bool
  | .dataSource _ => []
  | .selection conds affected _ child =>
    groupFilters k child ++ [affected || decide (1 < k) && conds.any isMark]
  | .projection _ _ child | .aggregation _ _ child | .limit _ _ child | .sort _ child
  | .window _ _ child | .maxOneRow child => groupFilters k child
  | .join _ _ left right | .apply _ _ left right => groupFilters k left ++ groupFilters k right
  | .unionAll _ children => groupFiltersAll k children

def groupFiltersAll (k : ℕ) : List LogicalPlan → List Bool
  | [] => []
  | p::ps => groupFilters k p ++ groupFiltersAll k ps
end

variable {b : Bool}

lemma mem_builtFlagsAll {ns : List LNode} : b ∈ builtFlagsAll ns ↔ ∃ n ∈ ns, b ∈ builtFlags n := by
  induction ns with
  | nil => simp [builtFlagsAll]
  | cons n ns ih => simp [builtFlagsAll, ih]

lemma mem_groupFiltersAll {ps : List LogicalPlan} :
  b ∈ groupFiltersAll k ps ↔ ∃ p ∈ ps, b ∈ groupFilters k p := by
  induction ps with
  | nil => simp [groupFiltersAll]
  | cons p ps ih => simp [groupFiltersAll, ih]

lemma mem_builtFlags {n : LNode} (h : b ∈ builtFlags n) :
  (∃ c ∈ n.children, b ∈ builtFlags c) ∨ b ∈ ownFlag n.lp := by
  cases n
  rw [builtFlags] at h
  split at h
  · cases h
  · exact (mem_append.mp h).imp_left mem_builtFlagsAll.mp

/-- Only selections of the plan are built, with the flags that inference gives them. -/
lemma mem_groupFilters (p : LogicalPlan) : ∀ {st : InferState} {r : LNode × InferState},
  buildCCL o env p st = .ok r → b ∈ builtFlags r.1 → b ∈ groupFilters env.groupByThreshold p := by
  induction p using LogicalPlan.induct with
  | dataSource ds =>
    intro st r h hb
    rw [buildCCL] at h
    split at h
    · cases h
    · obtain ⟨values, -, h⟩ := bind_eq_ok.mp h
      cases h
      cases hb
  | selection conds aff schema child ih =>
    intro st r h hb
    simp only [buildCCL, bind_eq_ok] at h
    obtain ⟨⟨c, st₁⟩, hc, m, -, ⟨conds', rewritten⟩, hconds, h⟩ := h
    have hnode : r.1.children = [c] ∧ ownFlag r.1.lp = [aff || rewritten] := by
      dsimp only at h
      split at h
      · cases h
        exact ⟨rfl, rfl⟩
      · simp only [bind_eq_ok, pure_eq_ok] at h
        obtain ⟨cond, -, values, -, rfl⟩ := h
        exact ⟨rfl, rfl⟩
    have hmark : rewritten = (decide (1 < env.groupByThreshold) && conds.any isMark) :=
      congrArg Prod.snd (rewriteConditions_eq hconds)
    rcases mem_builtFlags hb with ⟨n, hn, hb⟩ | hb
    · rw [hnode.1] at hn
      exact mem_append_left _ (ih hc (mem_singleton.mp hn ▸ hb))
    · exact mem_append_right _ (hmark ▸ hnode.2 ▸ hb)
  | projection _ _ _ ih | aggregation _ _ _ ih =>
    intro st r h hb
    simp only [buildCCL, bind_eq_ok, pure_eq_ok, Prod.exists] at h
    obtain ⟨c, st₁, hc, m, -, values, -, rfl⟩ := h
    rcases mem_builtFlags hb with ⟨n, hn, hb⟩ | hb
    · exact ih hc (mem_singleton.mp hn ▸ hb)
    · cases hb
  | join _ _ _ _ ihl ihr | apply _ _ _ _ ihl ihr =>
    intro st r h hb
    simp only [buildCCL, bind_eq_ok, pure_eq_ok, Prod.exists] at h
    obtain ⟨l, st₁, hl, rn, st₂, hr, childCCL, -, m, st₃, -, rfl⟩ := h
    rcases mem_builtFlags hb with ⟨n, hn, hb⟩ | hb
    · rcases mem_pair.mp hn with heq | heq
      · exact mem_append_left _ (ihl hl (heq ▸ hb))
      · exact mem_append_right _ (ihr hr (heq ▸ hb))
    · cases hb
  | unionAll schema children ih =>
    intro st r h hb
    simp only [buildCCL, bind_eq_ok, pure_eq_ok, Prod.exists] at h
    obtain ⟨cs, st₁, hcs, values, -, rfl⟩ := h
    rcases mem_builtFlags hb with ⟨n, hn, hb⟩ | hb
    · obtain ⟨c, hc, st₀, st₀', hrun⟩ := mem_buildCCLs hcs hn
      exact mem_groupFiltersAll.mpr ⟨c, hc, ih c hc hrun hb⟩
    · cases hb
  | limit _ _ _ ih | sort _ _ ih | maxOneRow _ ih =>
    intro st r h hb
    simp only [buildCCL, bind_eq_ok, pure_eq_ok, Prod.exists] at h
    obtain ⟨c, st₁, hc, m, -, rfl⟩ := h
    rcases mem_builtFlags hb with ⟨n, hn, hb⟩ | hb
    · exact ih hc (mem_singleton.mp hn ▸ hb)
    · cases hb
  | window _ _ _ ih =>
    intro st r h hb
    rw [buildCCL] at h
    split at h
    · split at h
      · cases h
      · simp only [bind_eq_ok, pure_eq_ok, Prod.exists] at h
        obtain ⟨c, st₁, hc, m, -, m', st₂, -, rfl⟩ := h
        rcases mem_builtFlags hb with ⟨n, hn, hb⟩ | hb
        · exact ih hc (mem_singleton.mp hn ▸ hb)
        · cases hb
    · cases h

/-- `select count(1) from (select k from t union all select k from u) group by k`, with the count
marked. -/
def markedPlan : LogicalPlan :=
  .projection [.column {uniqueID := 4}] [{uniqueID := 5}]
    (.aggregation ⟨[{name := .Count, args := [.constant (.int 1)], useAsThreshold := true}],
      [.column {uniqueID := 3}], false⟩ [{uniqueID := 4}]
      (.unionAll [{uniqueID := 3}] [scan "t" 1, scan "u" 2]))

def noErrors (_ : LNode) : Except Unit Unit := .ok ()

/-- `select count(1) from t group by k`, with the count marked. -/
def singlePartyPlan : LogicalPlan :=
  .projection [.column {uniqueID := 2}] [{uniqueID := 3}]
    (.aggregation ⟨[{name := .Count, args := [.constant (.int 1)], useAsThreshold := true}],
      [.column {uniqueID := 1}], false⟩ [{uniqueID := 2}] (scan "t" 1))

end Scql.ControlInference
