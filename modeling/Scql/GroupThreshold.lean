import Scql.AggregationRules
import Scql.ControlInference

/-! # Group size protection

Every `GROUP BY` of the plan that is translated sits right below a selection that compares
one of its counts with the threshold. Exempt are the root and the partial aggregations that
were pushed below a union, whose groups are combined above it. -/
namespace Scql.Planner

open MapRange ControlInference Fallible List

/-- Where a node sits, as far as the protection of aggregations is concerned. -/
inductive Position
  | root
  | inner
  /-- Right below an aggregation that combines partial results. -/
  | belowFinal
  /-- A branch of a union right below an aggregation that combines partial results. -/
  | partialBranch
  deriving DecidableEq

def AggInfo.isFinal (info : AggInfo) : Bool := info.aggFuncs.all (·.finalMode)

/-- A property of an aggregation, seen with its position and the conditions of the selection
right above it. -/
abbrev AggProperty := Position → List Expr → AggInfo → List Column → Prop

mutual
def Aggs (R : AggProperty) : Position → List Expr → LogicalPlan → Prop
  | _, _, .dataSource _ => True
  | _, _, .selection conds _ _ child => Aggs R .inner conds child
  | _, _, .projection _ _ child => Aggs R .inner [] child
  | _, _, .join _ _ left right => Aggs R .inner [] left ∧ Aggs R .inner [] right
  | _, _, .apply _ _ left right => Aggs R .inner [] left ∧ Aggs R .inner [] right
  | pos, above, .aggregation info schema child =>
    R pos above info schema ∧ Aggs R (if info.isFinal then .belowFinal else .inner) [] child
  | pos, _, .unionAll _ children =>
    AggsAll R (if pos = .belowFinal then .partialBranch else .inner) children
  | _, _, .limit _ _ child => Aggs R .inner [] child
  | _, _, .sort _ child => Aggs R .inner [] child
  | _, _, .window _ _ child => Aggs R .inner [] child
  | _, _, .maxOneRow child => Aggs R .inner [] child

def AggsAll (R : AggProperty) (pos : Position) : List LogicalPlan → Prop
  | [] => True
  | p::ps => Aggs R pos [] p ∧ AggsAll R pos ps
end

def LogicalPlan.isAggregation : LogicalPlan → Bool
  | .aggregation _ _ _ => true
  | _ => false

/-- The position of a whole plan: only an aggregation there has no parent. -/
def LogicalPlan.rootPosition (p : LogicalPlan) : Position :=
  if p.isAggregation then .root else .inner

variable {R R' : AggProperty} {pos pos' : Position} {above above' : List Expr} {p : LogicalPlan}

variable {ps : List LogicalPlan}

lemma aggsAll_iff : AggsAll R pos ps ↔ ∀ p ∈ ps, Aggs R pos [] p := by
  induction ps with
  | nil => simp [AggsAll]
  | cons p ps ih => simp [AggsAll, ih]

/-- The branches of a union are rewritten one after the other. -/
lemma aggsAll_threaded {σ : Type} {f : LogicalPlan → σ → LogicalPlan}
  {F : List LogicalPlan → σ → List LogicalPlan × σ} (hnil : ∀ s, (F [] s).1 = [])
  (hcons : ∀ c cs s, ∃ s', (F (c::cs) s).1 = f c s::(F cs s').1) {cs : List LogicalPlan}
  (h : ∀ c ∈ cs, ∀ s, Aggs R pos [] (f c s)) (s : σ) : AggsAll R pos (F cs s).1 := by
  induction cs generalizing s with
  | nil =>
    rw [hnil]
    trivial
  | cons c cs ih =>
    obtain ⟨s', hs'⟩ := hcons c cs s
    rw [hs']
    exact ⟨h c mem_cons_self s, ih (fun c hc => h c (mem_cons_of_mem _ hc)) s'⟩

/-- What is asked of each aggregation may be weakened, and conditions above may be added. -/
lemma Aggs.mono (hR : ∀ pos above above' info schema, above ⊆ above' →
    R pos above info schema → R' pos above' info schema) (hsub : above ⊆ above')
  (h : Aggs R pos above p) : Aggs R' pos above' p := by
  induction p using LogicalPlan.induct generalizing pos above above' with
  | dataSource => trivial
  | selection _ _ _ _ ih | projection _ _ _ ih | limit _ _ _ ih | sort _ _ ih | window _ _ _ ih
  | maxOneRow _ ih => exact ih (List.Subset.refl _) h
  | join _ _ _ _ ihl ihr | apply _ _ _ _ ihl ihr =>
    exact ⟨ihl (List.Subset.refl _) h.1, ihr (List.Subset.refl _) h.2⟩
  | aggregation _ _ _ ih => exact ⟨hR _ _ _ _ _ hsub h.1, ih (List.Subset.refl _) h.2⟩
  | unionAll _ _ ih =>
    rw [Aggs, aggsAll_iff] at h ⊢
    exact fun c hc => ih c hc (List.Subset.refl _) (h c hc)

/-- A column for every function, and only counts are marked. -/
def Shaped (info : AggInfo) (schema : List Column) : Prop :=
  info.aggFuncs.length = schema.length ∧ ∀ f ∈ info.aggFuncs, f.useAsThreshold = true →
    f.name = .Count

def HasMark (info : AggInfo) : Prop := ∃ f ∈ info.aggFuncs, f.useAsThreshold = true

/-- An aggregation as the planner builds it, before the rules run. -/
def Unmarked : AggProperty := fun _ _ info schema =>
  info.aggFuncs.length = schema.length ∧ ∀ f ∈ info.aggFuncs, f.useAsThreshold = false

def Marked : AggProperty := fun _ _ info schema =>
  Shaped info schema ∧ (info.isGroupBy = true → HasMark info)

def MarkedOrPartial : AggProperty := fun pos _ info schema =>
  Shaped info schema ∧ (info.isGroupBy = true → pos = .partialBranch ∨ HasMark info)

variable {fs : List AggFuncDesc}

lemma markFirstCount_spec {fs' : List AggFuncDesc} (h : markFirstCount fs = some fs')
  (hfs : ∀ f ∈ fs, f.useAsThreshold = false) :
  fs'.length = fs.length ∧ (∀ f ∈ fs', f.useAsThreshold = true → f.name = .Count) ∧
    ∃ f ∈ fs', f.useAsThreshold = true := by
  induction fs generalizing fs' with
  | nil => cases h
  | cons f fs ih =>
    rw [markFirstCount] at h
    split at h
    · rename_i hcount
      cases h
      refine ⟨rfl, ?_, _, mem_cons_self, rfl⟩
      intro g hg hmark
      rcases mem_cons.mp hg with rfl | hg
      · exact hcount.1
      · rw [hfs g (mem_cons_of_mem _ hg)] at hmark
        cases hmark
    · obtain ⟨gs, hgs, rfl⟩ := Option.map_eq_some_iff.mp h
      obtain ⟨hlen, hcount, g, hg, hmark⟩ := ih hgs (fun g hg => hfs g (mem_cons_of_mem _ hg))
      refine ⟨by simp [hlen], ?_, g, mem_cons_of_mem _ hg, hmark⟩
      intro g' hg' hmark'
      rcases mem_cons.mp hg' with rfl | hg'
      · rw [hfs g' mem_cons_self] at hmark'
        cases hmark'
      · exact hcount g' hg' hmark'

variable {info : AggInfo}

lemma isGroupBy_congr {info' : AggInfo}
    (hitems : info'.groupByItems.isEmpty = info.groupByItems.isEmpty)
  (hdistinct : info'.producedByDistinct = info.producedByDistinct) :
    info'.isGroupBy = info.isGroupBy := by
  rw [AggInfo.isGroupBy, AggInfo.isGroupBy, hitems, hdistinct]

variable {schema : List Column} {env : BuilderEnv} {pos : Position} {above : List Expr}

lemma marked_markAgg {next : ℕ} (h : Unmarked pos above info schema) :
  Marked pos above (markAgg info schema next).1 (markAgg info schema next).2.1 := by
  obtain ⟨hlen, hfs⟩ := h
  rw [markAgg]
  split
  · split
    · rename_i fs hfs'
      obtain ⟨hlen', hcount, hmark⟩ := markFirstCount_spec hfs' hfs
      exact ⟨⟨hlen'.trans hlen, hcount⟩, fun _ => hmark⟩
    · refine ⟨⟨by simp [hlen], ?_⟩, fun _ => ⟨countOne, by simp, rfl⟩⟩
      intro f hf hmark
      rcases mem_append.mp hf with hf | hf
      · rw [hfs f hf] at hmark
        cases hmark
      · exact mem_singleton.mp hf ▸ rfl
  · rename_i hgroup
    refine ⟨⟨hlen, ?_⟩, fun h => absurd h hgroup⟩
    intro f hf hmark
    rw [hfs f hf] at hmark
    cases hmark

variable {p : LogicalPlan}

lemma aggs_markAggCountFunc :
  ∀ {pos pos' : Position} {above above' : List Expr} (next : ℕ), Aggs Unmarked pos above p →
    Aggs Marked pos' above' (markAggCountFunc p next).1 := by
  induction p using LogicalPlan.induct with
  | dataSource =>
    intros
    trivial
  | selection _ _ _ _ ih | projection _ _ _ ih | limit _ _ _ ih | sort _ _ ih | window _ _ _ ih
  | maxOneRow _ ih =>
    intro _ _ _ _ next h
    exact ih next h
  | join _ _ _ _ ihl ihr | apply _ _ _ _ ihl ihr =>
    intro _ _ _ _ next h
    exact ⟨ihl next h.1, ihr _ h.2⟩
  | aggregation _ _ _ ih =>
    intro _ _ _ _ next h
    exact ⟨marked_markAgg h.1, ih next h.2⟩
  | unionAll schema children ih =>
    intro _ pos' _ _ next h
    rw [Aggs, aggsAll_iff] at h
    exact aggsAll_threaded (fun _ => rfl) (fun _ _ _ => ⟨_, rfl⟩)
      (fun c hc next => ih c hc next (h c hc)) next

/-- Two lists of functions that differ in their arguments and their mode only. -/
def SameMarks : List AggFuncDesc → List AggFuncDesc → Prop :=
  Forall₂ (fun f g => g.name = f.name ∧ g.useAsThreshold = f.useAsThreshold)

variable {info info' : AggInfo}

lemma SameMarks.shaped (hfs : SameMarks info.aggFuncs info'.aggFuncs) (h : Shaped info schema) :
  Shaped info' schema := by
  refine ⟨hfs.length_eq ▸ h.1, ?_⟩
  intro g hg hmark
  obtain ⟨f, hf, hname, hsame⟩ := exists_of_forall₂ hfs.flip hg
  exact hname.trans (h.2 f hf (hsame ▸ hmark))

lemma SameMarks.hasMark (hfs : SameMarks info.aggFuncs info'.aggFuncs) (h : HasMark info) :
  HasMark info' := by
  obtain ⟨f, hf, hmark⟩ := h
  obtain ⟨g, hg, -, hsame⟩ := exists_of_forall₂ hfs hf
  exact ⟨g, hg, hsame.trans hmark⟩

lemma sameMarks_map {g : AggFuncDesc → AggFuncDesc}
  (hg : ∀ f, (g f).name = f.name ∧ (g f).useAsThreshold = f.useAsThreshold) :
    SameMarks fs (fs.map g) := by
  rw [SameMarks, forall₂_map_right_iff]
  exact forall₂_same.mpr (fun f _ => hg f)

lemma columnSubstituteList_isEmpty (subst : List (Column × Expr)) (es : List Expr) :
  (Expr.columnSubstituteList subst es).isEmpty = es.isEmpty := by
  cases es <;> rfl

lemma refillList_isEmpty (es : List Expr) (cols : List Column) :
  (Expr.refillList es cols).1.isEmpty = es.isEmpty := by
  cases es <;> rfl

lemma markedOrPartial_congr
  (hfs : SameMarks info.aggFuncs info'.aggFuncs) (hgroup : info'.isGroupBy = info.isGroupBy)
  (h : MarkedOrPartial pos above info schema) : MarkedOrPartial pos above info' schema :=
  ⟨hfs.shaped h.1, fun hg => (h.2 (hgroup ▸ hg)).imp_right hfs.hasMark⟩

lemma foldl_decompose (fs finals partials : List AggFuncDesc) (schema : List Column) (next : ℕ) :
  ∃ finals' cols, fs.foldl decompose (finals, partials, schema, next) =
      (finals ++ finals', partials ++ fs.map AggFuncDesc.clone, schema ++ cols, next+fs.length) ∧
    SameMarks fs finals' ∧ (∀ f ∈ finals', f.finalMode = true) ∧ cols.length = fs.length := by
  induction fs generalizing finals partials schema next with
  | nil => exact ⟨[], [], by simp, .nil, by simp, rfl⟩
  | cons f fs ih =>
    obtain ⟨finals', cols, heq, hsame, hfinal, hlen⟩ := ih
      (finals ++ [{f with args := [.column {uniqueID := next+1}], finalMode := true}])
      (partials ++ [f.clone]) (schema ++ [{uniqueID := next+1}]) (next+1)
    refine ⟨{f with args := [.column {uniqueID := next+1}], finalMode := true}::finals',
      {uniqueID := next+1}::cols, ?_, .cons ⟨rfl, rfl⟩ hsame, ?_, by simp [hlen]⟩
    · rw [foldl_cons, decompose, heq]
      simp [Nat.add_comm, Nat.add_left_comm]
    · intro g hg
      rcases mem_cons.mp hg with rfl | hg
      · rfl
      · exact hfinal g hg

lemma unmarked_addGroupColumn (fs : List AggFuncDesc) (schema renamed gbyCols : List Column)
  (hlen : fs.length = schema.length) (hfs : ∀ f ∈ fs, f.useAsThreshold = false) :
  (gbyCols.foldl addGroupColumn (fs, schema, renamed)).1.length =
      (gbyCols.foldl addGroupColumn (fs, schema, renamed)).2.1.length ∧
    ∀ f ∈ (gbyCols.foldl addGroupColumn (fs, schema, renamed)).1, f.useAsThreshold = false := by
  refine foldlRecOn (motive := fun acc : List AggFuncDesc × List Column × List Column =>
    acc.1.length = acc.2.1.length ∧ ∀ f ∈ acc.1, f.useAsThreshold = false) gbyCols _
    ⟨hlen, hfs⟩ ?_
  intro acc ⟨hlen, hfs⟩ g _
  obtain ⟨funcs, schema, gbyCols⟩ := acc
  rw [addGroupColumn]
  dsimp only at hlen hfs ⊢
  split
  · exact ⟨hlen, hfs⟩
  · refine ⟨by simp [hlen], ?_⟩
    intro f hf
    rcases mem_append.mp hf with hf | hf
    · exact hfs f hf
    · exact mem_singleton.mp hf ▸ rfl

/-- What is pushed below a union carries no mark; what stays above keeps its marks and
combines. -/
lemma makeNewAgg_spec (info : AggInfo) (next : ℕ) :
    (makeNewAgg info next).partialInfo.aggFuncs.length =
      (makeNewAgg info next).partialSchema.length ∧
    (∀ f ∈ (makeNewAgg info next).partialInfo.aggFuncs, f.useAsThreshold = false) ∧
    SameMarks info.aggFuncs (makeNewAgg info next).finalInfo.aggFuncs ∧
    (makeNewAgg info next).finalInfo.isFinal = true ∧
    (makeNewAgg info next).finalInfo.isGroupBy = info.isGroupBy := by
  obtain ⟨finals, cols, heq, hsame, hfinal, hlen⟩ := foldl_decompose info.aggFuncs [] [] [] next
  have hclones := unmarked_addGroupColumn (info.aggFuncs.map AggFuncDesc.clone) cols []
    (info.groupByItems.flatMap (·.extractColumns)) (by simp [hlen]) (by
      intro f hf
      obtain ⟨g, -, rfl⟩ := mem_map.mp hf
      rfl)
  simp only [nil_append] at heq
  simp only [makeNewAgg, heq]
  refine ⟨hclones.1, hclones.2, hsame, ?_, ?_⟩
  · exact all_eq_true.mpr hfinal
  · exact isGroupBy_congr (refillList_isEmpty _ _) rfl

/-- The aggregation waiting above a plan may be placed at the position. -/
def Waiting (pos : Position) (above : List Expr) : Option (AggInfo × List Column) → Prop
  | none => True
  | some (info, schema) => MarkedOrPartial pos above info schema

lemma aggs_placeAgg {w : Option (AggInfo × List Column)}
  (hw : Waiting pos above w) (hp : ∀ pos above, Aggs MarkedOrPartial pos above p)
  : Aggs MarkedOrPartial pos above (placeAgg w p) := by
  cases w with
  | none => exact hp pos above
  | some w => exact ⟨hw, hp _ _⟩

lemma waiting_pushed (info : AggInfo) (next : ℕ) (unionSchema childSchema : List Column) :
  Waiting .partialBranch [] (some (pushAggCrossUnion (makeNewAgg info next).partialInfo
    unionSchema childSchema, (makeNewAgg info next).partialSchema)) := by
  obtain ⟨hlen, hfs, -⟩ := makeNewAgg_spec info next
  refine ⟨⟨by simpa [pushAggCrossUnion] using hlen, ?_⟩, fun _ => .inl rfl⟩
  intro f hf hmark
  obtain ⟨g, -, rfl⟩ := mem_map.mp hf
  cases hmark

lemma aggs_aggPushDown :
  ∀ {pos₀ pos : Position} {above₀ above : List Expr} (w : Option (AggInfo × List Column))
    (next : ℕ), Aggs Marked pos₀ above₀ p → Waiting pos above w →
    Aggs MarkedOrPartial pos above (aggPushDown w p next).1 := by
  induction p using LogicalPlan.induct with
  | dataSource =>
    intro _ _ _ _ w next _ hw
    exact aggs_placeAgg hw (fun _ _ => trivial)
  | selection _ _ _ _ ih | limit _ _ _ ih | sort _ _ ih | window _ _ _ ih | maxOneRow _ ih =>
    intro _ _ _ _ w next h hw
    exact aggs_placeAgg hw (fun _ _ => ih none next h trivial)
  | projection exprs schema child ih =>
    intro _ pos _ above w next h hw
    have hchild : ∀ pos above, Aggs MarkedOrPartial pos above (aggPushDown none child next).1 :=
      fun pos above => ih none next h trivial
    rw [aggPushDown]
    cases w with
    | none => exact hchild _ _
    | some w =>
      obtain ⟨info, aggSchema⟩ := w
      dsimp only
      split
      · refine ⟨markedOrPartial_congr (sameMarks_map ?_) ?_ hw, hchild _ _⟩
        · exact fun _ => ⟨rfl, rfl⟩
        · exact isGroupBy_congr (columnSubstituteList_isEmpty _ _) rfl
      · exact ⟨hw, hchild _ _⟩
  | join _ _ _ _ ihl ihr | apply _ _ _ _ ihl ihr =>
    intro _ _ _ _ w next h hw
    exact aggs_placeAgg hw (fun _ _ => ⟨ihl none next h.1 trivial, ihr none _ h.2 trivial⟩)
  | aggregation info schema child ih =>
    intro _ _ _ _ w next h hw
    refine aggs_placeAgg hw (fun pos above => ih (some (info, schema)) next h.2 ?_)
    exact ⟨h.1.1, fun hgroup => .inr (h.1.2 hgroup)⟩
  | unionAll schema children ih =>
    intro _ pos _ above w next h hw
    rw [Aggs, aggsAll_iff] at h
    -- the branches of the union, with nothing or the pushed aggregation above them
    have hplain : ∀ branch next, AggsAll MarkedOrPartial branch (aggPushDowns children next).1 :=
      fun branch => aggsAll_threaded (fun _ => rfl) (fun _ _ _ => ⟨_, rfl⟩)
        fun c hc next => ih c hc none next (h c hc) trivial
    have hpushed : ∀ info n next, AggsAll MarkedOrPartial .partialBranch
        (aggPushDownBranches (makeNewAgg info n) schema children next).1 :=
      fun info n => aggsAll_threaded (fun _ => rfl) (fun _ _ _ => ⟨_, rfl⟩)
        fun c hc next => ih c hc _ next (h c hc) (waiting_pushed info n schema c.schema)
    cases w with
    | none => exact hplain _ _
    | some w =>
      obtain ⟨info, aggSchema⟩ := w
      simp only [aggPushDown]
      split
      · obtain ⟨-, -, hsame, hfinal, hgroup⟩ := makeNewAgg_spec info next
        refine ⟨markedOrPartial_congr hsame hgroup hw, ?_⟩
        rw [hfinal]
        exact hpushed info next _
      · exact ⟨hw, hplain _ _⟩

lemma resolveExprsAndReplace_isEmpty (replace : ReplaceMap) (es : List Expr) :
  (resolveExprsAndReplace replace es).isEmpty = es.isEmpty := by
  cases es <;> rfl

lemma Aggs.of_inner
  (h : Aggs MarkedOrPartial .inner above p) : ∀ pos above', Aggs MarkedOrPartial pos above' p := by
  have hweaken : ∀ {pos above above' info schema}, MarkedOrPartial .inner above info schema →
      MarkedOrPartial pos above' info schema := by
    intro pos above above' info schema h
    refine ⟨h.1, fun hgroup => .inr ((h.2 hgroup).resolve_left (by decide))⟩
  induction p using LogicalPlan.induct generalizing above with
  | dataSource =>
    intros
    trivial
  | aggregation _ _ _ _ =>
    intro pos above'
    exact ⟨hweaken h.1, h.2⟩
  | unionAll _ children ih =>
    intro pos above'
    rw [Aggs, aggsAll_iff] at h ⊢
    exact fun c hc => ih c hc (h c hc) _ _
  | selection | projection | join | apply | limit | sort | window | maxOneRow =>
    intro pos above'
    exact h

variable {child : LogicalPlan}

lemma aggs_dropProjection {canEliminate : Bool} {replace : ReplaceMap} {exprs : List Expr}
  (h : Aggs MarkedOrPartial .inner [] child) : Aggs MarkedOrPartial pos above
    (dropProjection canEliminate replace (mergeProjection exprs schema child)).1 := by
  have hdrop : ∀ exprs schema (child : LogicalPlan), Aggs MarkedOrPartial .inner [] child →
      Aggs MarkedOrPartial pos above
        (dropProjection canEliminate replace (.projection exprs schema child)).1 := by
    intro exprs schema child h
    rw [dropProjection]
    split
    · exact h.of_inner _ _
    · exact h
  cases child with
  | projection inner innerSchema grandchild =>
    rw [mergeProjection]
    split <;> exact hdrop _ _ _ h
  | _ => exact hdrop _ _ _ h

lemma aggs_eliminate :
  ∀ {pos : Position} {above above' : List Expr} (canEliminate : Bool) (replace : ReplaceMap),
    Aggs MarkedOrPartial pos above p →
    Aggs MarkedOrPartial pos above' (eliminate canEliminate p replace).1 := by
  induction p using LogicalPlan.induct with
  | dataSource =>
    intros
    trivial
  | selection _ _ _ _ ih | limit _ _ _ ih | sort _ _ ih | window _ _ _ ih | maxOneRow _ ih =>
    intro _ _ _ canEliminate replace h
    exact ih _ _ h
  | projection _ _ _ ih =>
    intro _ _ _ canEliminate replace h
    exact aggs_dropProjection (ih true replace h)
  | join _ _ _ _ ihl ihr | apply _ _ _ _ ihl ihr =>
    intro _ _ _ canEliminate replace h
    exact ⟨ihl _ _ h.1, ihr _ _ h.2⟩
  | aggregation info schema child ih =>
    intro pos above above' canEliminate replace h
    obtain ⟨⟨hshape, hmark⟩, hchild⟩ := h
    have hsame : ∀ replace, SameMarks info.aggFuncs (info.replaceExprColumns replace).aggFuncs :=
      fun replace => sameMarks_map (fun _ => ⟨rfl, rfl⟩)
    have hgroup : ∀ replace, (info.replaceExprColumns replace).isGroupBy = info.isGroupBy :=
      fun replace => isGroupBy_congr (resolveExprsAndReplace_isEmpty _ _) rfl
    have hfinal : ∀ replace, (info.replaceExprColumns replace).isFinal = info.isFinal := by
      intro replace
      rw [AggInfo.isFinal, AggInfo.isFinal, AggInfo.replaceExprColumns, List.all_map]
      rfl
    refine ⟨⟨⟨?_, ((hsame _).shaped hshape).2⟩, ?_⟩, ?_⟩
    · simpa [AggInfo.replaceExprColumns] using hshape.1
    · rw [hgroup]
      exact fun hg => (hmark hg).imp_right (hsame _).hasMark
    · rw [hfinal]
      exact ih true replace hchild
  | unionAll schema children ih =>
    intro pos _ _ canEliminate replace h
    rw [Aggs, aggsAll_iff] at h
    exact aggsAll_threaded (fun _ => rfl) (fun _ _ _ => ⟨_, rfl⟩)
      (fun c hc replace => ih c hc false replace (h c hc)) replace

def IsCountOf (info : AggInfo) (schema : List Column) (c : Column) : Prop :=
  ∃ (i : ℕ) (f : AggFuncDesc), info.aggFuncs[i]? = some f ∧ f.name = .Count ∧ schema[i]? = some c

/-- A `GROUP BY` that is neither the root nor a pushed partial aggregation has a selection with
the given condition on one of its counts right above it. -/
def Protected (cond : Column → Option Expr) : AggProperty := fun pos above info schema =>
  info.isGroupBy = true → pos = .root ∨ pos = .partialBranch ∨
    ∃ c e, IsCountOf info schema c ∧ cond c = some e ∧ e ∈ above

/-- The condition before the threshold is known: the marked column itself. -/
def markCondition (c : Column) : Option Expr :=
  if c.useAsThreshold then some (.column c) else none

def sizeCondition (k : ℕ) (c : Column) : Option Expr := some (thresholdCondition k c)

variable {cond : Column → Option Expr} {above' : List Expr}

lemma Protected.mono (hsub : above ⊆ above') (h : Protected cond pos above info schema) :
  Protected cond pos above' info schema := by
  intro hgroup
  rcases h hgroup with hpos | hpos | ⟨c, e, hc, he, hmem⟩
  · exact .inl hpos
  · exact .inr (.inl hpos)
  · exact .inr (.inr ⟨c, e, hc, he, hsub hmem⟩)

lemma markColumns_getElem? (info : AggInfo) (schema : List Column) {i : ℕ} {f : AggFuncDesc}
  {c : Column} (hf : info.aggFuncs[i]? = some f) (hmark : f.useAsThreshold = true)
  (hc : (markColumns info schema)[i]? = some c) : c.useAsThreshold = true := by
  rw [markColumns, getElem?_map, getElem?_zipIdx, Option.map_map] at hc
  obtain ⟨d, -, rfl⟩ := Option.map_eq_some_iff.mp hc
  simp [hf, hmark]

@[simp] lemma markColumns_length (info : AggInfo) (schema : List Column) :
  (markColumns info schema).length = schema.length := by
  simp [markColumns]

lemma aggs_protectAgg (h : MarkedOrPartial pos above info schema)
  (hchild : Aggs (Protected markCondition)
    (if info.isFinal then .belowFinal else .inner) [] child) :
  Aggs (Protected markCondition) pos above' (protectAgg info schema child) := by
  obtain ⟨⟨hlen, hcount⟩, hmark⟩ := h
  rw [protectAgg]
  split
  · rename_i hnone
    refine ⟨fun hgroup => ?_, hchild⟩
    rcases hmark hgroup with hpos | ⟨f, hf, hfmark⟩
    · exact .inr (.inl hpos)
    · -- a mark would have been found
      exfalso
      obtain ⟨i, hi, rfl⟩ := getElem_of_mem hf
      have hi' : i < (markColumns info schema).length := by simpa [hlen] using hi
      have hempty := getLast?_eq_none_iff.mp hnone
      have hmem : ((markColumns info schema)[i], info.aggFuncs[i]) ∈
          ((markColumns info schema).zip info.aggFuncs).filter (·.2.useAsThreshold) := by
        rw [mem_filter]
        refine ⟨?_, hfmark⟩
        have hz : i < ((markColumns info schema).zip info.aggFuncs).length := by
          rw [length_zip]
          exact lt_min hi' hi
        have hzip := getElem_mem hz
        rwa [getElem_zip] at hzip
      rw [hempty] at hmem
      cases hmem
  · rename_i q hq
    have hmem := mem_of_getLast? hq
    rw [mem_filter] at hmem
    obtain ⟨i, hi⟩ := mem_iff_getElem?.mp hmem.1
    obtain ⟨hcol, hfunc⟩ := getElem?_zip_eq_some.mp hi
    refine ⟨fun _ => .inr (.inr ⟨q.1, .column q.1, ?_, ?_, mem_cons_self⟩), hchild⟩
    · exact ⟨i, q.2, hfunc, hcount q.2 (mem_of_getElem? hfunc) hmem.2, hcol⟩
    · rw [markCondition, if_pos (markColumns_getElem? info schema hfunc hmem.2 hcol)]

lemma aggs_addThreshold : ∀ {pos : Position} {above above' : List Expr} (isRoot : Bool),
    (isRoot = true → p.isAggregation = true → pos = .root) → Aggs MarkedOrPartial pos above p →
    Aggs (Protected markCondition) pos above' (addThreshold isRoot p) := by
  have hinner : ∀ {pos : Position} {p : LogicalPlan},
      false = true → p.isAggregation = true → pos = .root := fun h => by cases h
  induction p using LogicalPlan.induct with
  | dataSource =>
    intros
    trivial
  | selection _ _ _ _ ih | projection _ _ _ ih | limit _ _ _ ih | sort _ _ ih | window _ _ _ ih
  | maxOneRow _ ih =>
    intro _ _ _ _ _ h
    exact ih false hinner h
  | join _ _ _ _ ihl ihr | apply _ _ _ _ ihl ihr =>
    intro _ _ _ _ _ h
    exact ⟨ihl false hinner h.1, ihr false hinner h.2⟩
  | aggregation info schema child ih =>
    intro pos above above' isRoot hroot h
    rw [addThreshold]
    split
    · rename_i hisRoot
      exact ⟨fun _ => .inl (hroot hisRoot rfl), ih false hinner h.2⟩
    · exact aggs_protectAgg h.1 (ih false hinner h.2)
  | unionAll schema children ih =>
    intro pos above above' isRoot hroot h
    rw [Aggs, aggsAll_iff] at h
    exact aggsAll_threaded (F := fun cs (_ : Unit) => (addThresholds cs, ())) (fun _ => rfl)
      (fun _ _ _ => ⟨(), rfl⟩) (fun c hc _ => ih c hc false hinner (h c hc)) ()

lemma aggs_mergeSelection (p : LogicalPlan) :
  ∀ {pos : Position} {above : List Expr}, Aggs (Protected cond) pos above p →
    Aggs (Protected cond) pos above (mergeSelection p) := by
  have hmono : ∀ pos above above' info schema, above ⊆ above' →
      Protected cond pos above info schema → Protected cond pos above' info schema :=
    fun _ _ _ _ _ hsub h => h.mono hsub
  intro pos above
  refine mergeSelection.induct
    (fun p => ∀ pos above, Aggs (Protected cond) pos above p →
      Aggs (Protected cond) pos above (mergeSelection p))
    (fun ps => ∀ pos, AggsAll (Protected cond) pos ps →
      AggsAll (Protected cond) pos (mergeSelections ps))
    ?merged ?kept ?source ?_ ?join ?apply ?aggregation ?_ ?_ ?_ ?_ ?_ ?nil ?cons p pos above
  case merged =>
    intro conds _ _ conds' _ _ child ih pos above h
    have hchild := ih .inner conds' h
    rw [mergeSelection, Aggs]
    exact hchild.mono hmono (subset_append_right _ _)
  case kept =>
    intro conds aff schema child hchild ih pos above h
    rw [mergeSelection.eq_2 _ _ _ _ hchild]
    exact ih _ _ h
  case source => exact fun _ _ _ h => h
  case nil => exact fun _ h => h
  case join | apply => exact fun _ _ _ _ ihl ihr _ _ h => ⟨ihl _ _ h.1, ihr _ _ h.2⟩
  case aggregation => exact fun _ _ _ ih _ _ h => ⟨h.1, ih _ _ h.2⟩
  case cons => exact fun _ _ ih ihs _ h => ⟨ih _ _ h.1, ihs _ h.2⟩
  all_goals
    intros
    simp only [mergeSelection, Aggs] at *
    solve_by_elim

/-- A condition that stands for the comparison of a group size with the threshold. -/
def isMark : Expr → Bool
  | .column c => c.useAsThreshold
  | _ => false

def rewriteCondition (k : ℕ) : Expr → List Expr
  | .column c =>
    if c.useAsThreshold then if 1 < k then [thresholdCondition k c] else [] else [.column c]
  | e => [e]

lemma rewriteConditions_eq {k : ℕ} {conds : List Expr} {r : List Expr × Bool}
  (h : rewriteConditions k conds = .ok r) :
  r = (conds.flatMap (rewriteCondition k), decide (1 < k) && conds.any isMark) := by
  induction conds generalizing r with
  | nil =>
    cases h
    simp
  | cons e es ih =>
    cases e with
    | column c =>
      rw [rewriteConditions] at h
      split at h
      · split at h <;> split at h
        · cases h
        · obtain ⟨rest, hrest, h⟩ := bind_eq_ok.mp h
          cases h
          simp [rewriteCondition, isMark, ih hrest, *]
        · cases h
        · obtain ⟨rest, hrest, h⟩ := bind_eq_ok.mp h
          cases h
          simp [rewriteCondition, ih hrest, *]
      · obtain ⟨rest, hrest, h⟩ := bind_eq_ok.mp h
        cases h
        simp [rewriteCondition, isMark, ih hrest, *]
    | correlatedColumn | constant | scalarFunction =>
      rw [rewriteConditions] at h
      · obtain ⟨rest, hrest, h⟩ := bind_eq_ok.mp h
        cases h
        simp [rewriteCondition, isMark, ih hrest]
      · intro c heq
        cases heq

variable {o : RangeOrder}

lemma mem_buildCCLs {st : InferState}
  {r : List LNode × InferState} (h : buildCCLs o env ps st = .ok r) {n : LNode} (hn : n ∈ r.1) :
  ∃ p ∈ ps, ∃ st₀ st₀', buildCCL o env p st₀ = .ok (n, st₀') := by
  induction ps generalizing st r with
  | nil =>
    cases h
    simp at hn
  | cons p ps ih =>
    simp only [buildCCLs, bind_eq_ok, Prod.exists] at h
    obtain ⟨m, st₁, hm, ms, st₂, hms, h⟩ := h
    cases h
    rcases mem_cons.mp hn with rfl | hn
    · exact ⟨p, mem_cons_self, st, st₁, hm⟩
    · obtain ⟨q, hq, hrun⟩ := ih hms hn
      exact ⟨q, mem_cons_of_mem _ hq, hrun⟩

/-- Inference replaces the marked columns by comparisons and leaves the rest of the plan as it
is. -/
lemma aggs_buildCCL (hk : 1 < env.groupByThreshold) (p : LogicalPlan) :
  ∀ (pos : Position) (above above' : List Expr) (st : InferState) (r : LNode × InferState),
    (∀ c, Expr.column c ∈ above → c.useAsThreshold = true →
      thresholdCondition env.groupByThreshold c ∈ above') →
    Aggs (Protected markCondition) pos above p → buildCCL o env p st = .ok r →
    Aggs (Protected (sizeCondition env.groupByThreshold)) pos above' r.1.lp := by
  have hnil : ∀ c : Column, Expr.column c ∈ ([] : List Expr) → c.useAsThreshold = true →
      thresholdCondition env.groupByThreshold c ∈ ([] : List Expr) := by simp
  induction p using LogicalPlan.induct with
  | dataSource ds =>
    intro pos above above' st r _ _ h
    rw [buildCCL] at h
    split at h
    · cases h
    · obtain ⟨values, -, h⟩ := bind_eq_ok.mp h
      cases h
      trivial
  | selection conds aff schema child ih =>
    intro pos above above' st r _ hp h
    simp only [buildCCL, bind_eq_ok] at h
    obtain ⟨⟨c, st₁⟩, hc, m, -, ⟨conds', rewritten⟩, hconds, h⟩ := h
    have hmark : ∀ c, Expr.column c ∈ conds → c.useAsThreshold = true →
        thresholdCondition env.groupByThreshold c ∈ conds' := by
      intro c hmem hmark
      cases rewriteConditions_eq hconds
      exact mem_flatMap.mpr ⟨_, hmem, by simp [rewriteCondition, hmark, hk]⟩
    have hchild := ih .inner conds conds' st _ hmark hp hc
    dsimp only at h
    split at h
    · cases h
      exact hchild
    · simp only [bind_eq_ok, pure_eq_ok] at h
      obtain ⟨cond, -, values, -, rfl⟩ := h
      exact hchild
  | projection exprs schema child ih =>
    intro pos above above' st r _ hp h
    simp only [buildCCL, bind_eq_ok, pure_eq_ok, Prod.exists] at h
    obtain ⟨c, st₁, hc, m, -, values, -, rfl⟩ := h
    exact ih .inner [] [] st _ hnil hp hc
  | join info schema left right ihl ihr | apply info schema left right ihl ihr =>
    intro pos above above' st r _ hp h
    simp only [buildCCL, bind_eq_ok, pure_eq_ok, Prod.exists] at h
    obtain ⟨l, st₁, hl, rn, st₂, hr, childCCL, -, m, st₃, -, rfl⟩ := h
    exact ⟨ihl .inner [] [] st _ hnil hp.1 hl, ihr .inner [] [] st₁ _ hnil hp.2 hr⟩
  | aggregation info schema child ih =>
    intro pos above above' st r habove hp h
    simp only [buildCCL, bind_eq_ok, pure_eq_ok, Prod.exists] at h
    obtain ⟨c, st₁, hc, m, -, values, -, rfl⟩ := h
    refine ⟨?_, ih _ [] [] st _ hnil hp.2 hc⟩
    intro hgroup
    rcases hp.1 hgroup with hpos | hpos | ⟨c, e, hcount, he, hmem⟩
    · exact .inl hpos
    · exact .inr (.inl hpos)
    · rw [markCondition] at he
      split at he
      · rename_i hmark
        cases he
        exact .inr (.inr ⟨c, _, hcount, rfl, habove c hmem hmark⟩)
      · cases he
  | unionAll schema children ih =>
    intro pos above above' st r _ hp h
    simp only [buildCCL, bind_eq_ok, pure_eq_ok, Prod.exists] at h
    obtain ⟨cs, st₁, hcs, values, -, rfl⟩ := h
    rw [Aggs, aggsAll_iff] at hp
    refine aggsAll_iff.mpr fun lp hlp => ?_
    obtain ⟨n, hn, rfl⟩ := mem_map.mp hlp
    obtain ⟨c, hc, st₀, st₀', hrun⟩ := mem_buildCCLs hcs hn
    exact ih c hc _ [] [] st₀ (n, st₀') hnil (hp c hc) hrun
  | limit _ _ child ih | sort _ child ih | maxOneRow child ih =>
    intro pos above above' st r _ hp h
    simp only [buildCCL, bind_eq_ok, pure_eq_ok, Prod.exists] at h
    obtain ⟨c, st₁, hc, m, -, rfl⟩ := h
    exact ih .inner [] [] st _ hnil hp hc
  | window info schema child ih =>
    intro pos above above' st r _ hp h
    rw [buildCCL] at h
    split at h
    · split at h
      · cases h
      · simp only [bind_eq_ok, pure_eq_ok, Prod.exists] at h
        obtain ⟨c, st₁, hc, m, -, m', st₂, -, rfl⟩ := h
        exact ih .inner [] [] st _ hnil hp hc
    · cases h

lemma isAggregation_markAggCountFunc (p : LogicalPlan) (next : ℕ) :
  (markAggCountFunc p next).1.isAggregation = p.isAggregation := by
  cases p <;> rfl

lemma isAggregation_aggPushDown_some (w : AggInfo × List Column) (p : LogicalPlan) (next : ℕ) :
  (aggPushDown (some w) p next).1.isAggregation = true := by
  cases p with
  | projection | unionAll =>
    simp only [aggPushDown]
    split <;> rfl
  | _ => rfl

lemma isAggregation_aggPushDown_none (p : LogicalPlan) (next : ℕ) :
  (aggPushDown none p next).1.isAggregation = p.isAggregation := by
  cases p with
  | aggregation info schema child => exact isAggregation_aggPushDown_some (info, schema) child next
  | _ => rfl

lemma isAggregation_eliminateProjections (p : LogicalPlan) :
  (eliminateProjections p).isAggregation = p.isAggregation := by
  cases p with
  | projection exprs schema child =>
    rw [eliminateProjections, eliminate]
    dsimp only
    generalize (eliminate true child ∅).1 = child'
    cases child' with
    | projection =>
      rw [mergeProjection]
      split <;> rfl
    | _ => rfl
  | _ => rfl

/-- In the plan that is translated every `GROUP BY`, other than a root and the partial
aggregations pushed below a union, sits right below a selection on its group size. -/
theorem groupBy_protected (o : RangeOrder) (env : BuilderEnv) (hk : 1 < env.groupByThreshold)
  (p p₁ : LogicalPlan) (next next₁ : ℕ) (hp : Aggs Unmarked p.rootPosition [] p)
  (hrule : aggregationPushDown p next = .ok (p₁, next₁)) (r : LNode × InferState)
  (hrun : buildCCL o env (process (eliminateProjections p₁)) .start = .ok r) :
  Aggs (Protected (sizeCondition env.groupByThreshold)) p.rootPosition [] r.1.lp := by
  rw [aggregationPushDown] at hrule
  dsimp only at hrule
  split at hrule
  · have hmarked : Aggs Marked p.rootPosition [] (markAggCountFunc p next).1 :=
      aggs_markAggCountFunc next hp
    have hpushed : Aggs MarkedOrPartial p.rootPosition []
        (aggPushDown none (markAggCountFunc p next).1 (markAggCountFunc p next).2).1 :=
      aggs_aggPushDown none _ hmarked trivial
    have hroot := isAggregation_aggPushDown_none (markAggCountFunc p next).1
      (markAggCountFunc p next).2
    rw [Except.ok.inj hrule] at hpushed hroot
    rw [isAggregation_markAggCountFunc] at hroot
    have helim : Aggs MarkedOrPartial p.rootPosition [] (eliminateProjections p₁) :=
      aggs_eliminate false ∅ hpushed
    have hthreshold : Aggs (Protected markCondition) p.rootPosition []
        (addThreshold true (eliminateProjections p₁)) := by
      refine aggs_addThreshold true (fun _ hagg => ?_) helim
      rw [isAggregation_eliminateProjections, hroot] at hagg
      exact if_pos hagg
    exact aggs_buildCCL hk _ _ [] [] .start r (by simp) (aggs_mergeSelection _ hthreshold) hrun
  · cases hrule

open ColumnControl

/-- Two tables with the same columns, of which bob may see groups and counts. -/
def groupEnv : BuilderEnv where
  partyByTable t := if t = "t" then some "alice" else some "bob"
  originCCL :=
    let cc := (CCL.newCCL.setLevelForParty "alice" .Plain).setLevelForParty "bob" .Plain
    ((∅ : AList (fun _ : String => CCL)).insert "t.k" cc).insert "u.k" cc
  groupByThreshold := 4
  psiType := .AUTO

def groupCount (key : Column) : AggInfo :=
  ⟨[{name := .Count, args := [.constant (.int 1)]}], [.column key], false⟩

def scan (table : String) (id : ℕ) : LogicalPlan :=
  .dataSource ⟨table, [{uniqueID := id, origName := table ++ ".k"}]⟩

/-- `select count(1) from t group by k`. -/
def groupPlan : LogicalPlan :=
  .projection [.column {uniqueID := 3}] [{uniqueID := 4}]
    (.aggregation (groupCount {uniqueID := 1}) [{uniqueID := 3}] (scan "t" 1))

/-- `select count(1) from (select k from t union all select k from u) group by k`. -/
def unionGroupPlan : LogicalPlan :=
  .projection [.column {uniqueID := 4}] [{uniqueID := 5}]
    (.aggregation (groupCount {uniqueID := 3}) [{uniqueID := 4}]
      (.unionAll [{uniqueID := 3}] [scan "t" 1, scan "u" 2]))

def protectedPlan (env : BuilderEnv) (p : LogicalPlan) (next : ℕ) : Option LogicalPlan :=
  match aggregationPushDown p next with
  | .error _ => none
  | .ok (p₁, _) =>
    match buildCCL .inserted env (process (eliminateProjections p₁)) .start with
    | .error _ => none
    | .ok r => some r.1.lp

lemma exists_of_protectedPlan {next : ℕ} {q : LogicalPlan} (h : protectedPlan env p next = some q) :
  ∃ p₁ next₁ r, aggregationPushDown p next = .ok (p₁, next₁) ∧
    buildCCL .inserted env (process (eliminateProjections p₁)) .start = .ok r ∧ r.1.lp = q := by
  rw [protectedPlan] at h
  split at h
  · cases h
  · rename_i p₁ next₁ hrule
    split at h
    · cases h
    · rename_i r hrun
      exact ⟨p₁, next₁, r, hrule, hrun, Option.some.inj h⟩

theorem groupPlan_protected : ∃ q, protectedPlan groupEnv groupPlan 4 = some q ∧
  Aggs (Protected (sizeCondition 4)) .inner [] q := by
  obtain ⟨q, hq⟩ : ∃ q, protectedPlan groupEnv groupPlan 4 = some q := ⟨_, rfl⟩
  obtain ⟨p₁, next₁, r, hrule, hrun, rfl⟩ := exists_of_protectedPlan hq
  have hunmarked : Aggs Unmarked groupPlan.rootPosition [] groupPlan := by
    refine ⟨⟨rfl, ?_⟩, trivial⟩
    intro f hf
    rw [mem_singleton.mp hf]
  exact ⟨r.1.lp, hq, groupBy_protected .inserted groupEnv (by decide) groupPlan p₁ 4 next₁
    hunmarked hrule r hrun⟩

/-- An aggregation with a selection on its group size right above it, wherever it sits. -/
def ProtectedEverywhere (k : ℕ) : AggProperty := fun _ above info schema =>
  info.isGroupBy = true → ∃ c, IsCountOf info schema c ∧ thresholdCondition k c ∈ above

/-- The partial aggregations below a union have no selection above them, and neither has a root
aggregation. -/
theorem partial_and_root_unprotected : (∃ q, protectedPlan groupEnv unionGroupPlan 5 = some q ∧
    ¬Aggs (ProtectedEverywhere 4) .inner [] q) ∧
  ∃ q, protectedPlan groupEnv (.aggregation (groupCount {uniqueID := 1}) [{uniqueID := 3}]
    (scan "t" 1)) 4 = some q ∧ ¬Aggs (ProtectedEverywhere 4) .root [] q := by
  refine ⟨⟨_, rfl, fun h => ?_⟩, _, rfl, fun h => ?_⟩
  · obtain ⟨-, ⟨hbranch, -⟩, -⟩ := h
    obtain ⟨c, -, hmem⟩ := hbranch rfl
    cases hmem
  · obtain ⟨hroot, -⟩ := h
    obtain ⟨c, -, hmem⟩ := hroot rfl
    cases hmem

end Scql.Planner
