import Scql.ExecutionSchedule
import Scql.MapUpdates

/-! # Lifetime of tensors in an engine

An engine holds the private tensors of its party in a table. A tensor's reference number counts
the inputs of the whole graph that name it; every node that has run counts its inputs down, and a
tensor whose counter reaches zero leaves the table. A pipeline run in batches puts one batch after
another under the name of each of its inputs and at the end puts the complete tensor back. -/
namespace Scql.TensorLifetime

open MapUpdates ExecutionGraph List AList
open Option (bind_eq_bind bind_eq_some_iff bind_some some)

/-- What the table has under a name: the tensor, or a batch of it. -/
inductive Value
  | complete
  | batch
  deriving DecidableEq

structure State where
  tensorTable : AList (fun _ : ℕ => Value) := ∅
  tensorRefNums : AList (fun _ : ℕ => ℕ) := ∅
  /-- What the executors of batched pipelines and the nodes outside of a batch have found. -/
  found : List Value := []
  deriving DecidableEq

abbrev Counting := AList (fun _ : ℕ => ℕ) × List ℕ

def countDown (s : Counting) (t : ℕ) : Counting :=
  match s.1.lookup t with
  | none => s
  | some r => if r-1 = 0 then (s.1.erase t, s.2 ++ [t]) else (s.1.insert t (r-1), s.2)

def setRefNum (streaming : Bool) (s : Counting) (out : ℕ × ℕ) : Option Counting :=
  if out.2 = 0 then some (s.1, s.2 ++ [out.1])
  else if streaming ∨ out.1 ∉ s.1 then some (s.1.insert out.1 out.2, s.2)
  else none

def delTensors (table : AList (fun _ : ℕ => Value)) (names : List ℕ) :
    AList (fun _ : ℕ => Value) :=
  names.foldl (fun table t => table.erase t) table

def updateRefName (streaming : Bool) (inputRefNames : List ℕ) (outputRefNums : List (ℕ × ℕ))
    (s : State) : Option State := do
  let counted := inputRefNames.foldl countDown (s.tensorRefNums, [])
  let counted ← outputRefNums.foldlM (setRefNum streaming) counted
  return { s with
    tensorRefNums := counted.1
    tensorTable := delTensors s.tensorTable counted.2}

def addTensor (v : Value) (table : AList (fun _ : ℕ => Value)) (t : ℕ) :
    Option (AList (fun _ : ℕ => Value)) :=
  if t ∈ table then none else some (table.insert t v)

/-- What an engine knows of its plan besides the pipelines: the tensors it holds in its table, as
opposed to shares and to tensors of other parties, and the reference numbers. -/
structure Names where
  held : ℕ → Bool
  refNum : ℕ → ℕ
  streaming : Bool

/-- The slice number of a complete tensor in this engine, and the largest slice number among the
peers for each pipeline. -/
structure Slices where
  sliceNum : ℕ → ℕ
  peerSliceNum : ℕ → ℕ

/-- A pipeline of a party's plan, the nodes in the order in which they run. -/
structure PipelinePlan where
  batched : Bool
  inputs : List ℕ
  outputs : List ℕ
  nodes : List ExecutionNode

variable (names : Names)

/-- `whole` tells whether the node runs outside of a batch. The node finds its private tensors in
the table; the shares among its arguments are symbols of the SPU device, which are neither counted
nor removed. -/
def execute (whole : Bool) (n : ExecutionNode) (s : State) : Option State := do
  let values ← (n.inputs.tensors.filter names.held).mapM (s.tensorTable.lookup ·)
  let result := if .batch ∈ values then Value.batch else .complete
  let table ← (n.outputs.tensors.filter names.held).foldlM (addTensor result) s.tensorTable
  return { s with
    tensorTable := table
    found := if whole then s.found ++ values else s.found}

def runNode (whole : Bool) (s : State) (n : ExecutionNode) : Option State := do
  let s ← execute names whole n s
  updateRefName names.streaming n.inputs.tensors
    (n.outputs.tensors.map (fun t => (t, names.refNum t))) s

structure PipelineExecutor where
  batched : Bool
  batchNum : ℕ := 1
  inputTensors : List Value := []
  /-- The inputs with a reader. -/
  inputTensorNames : List ℕ := []
  outputTensorNames : List ℕ := []

namespace PipelineExecutor

def addInput (sliceNum : ℕ → ℕ) (s : State) (e : PipelineExecutor) (t : ℕ) :
    Option PipelineExecutor := do
  let v ← s.tensorTable.lookup t
  guard (e.inputTensors = [] ∨ sliceNum t = e.batchNum)
  return { e with
    inputTensors := e.inputTensors ++ [v]
    batchNum := sliceNum t
    inputTensorNames :=
      if sliceNum t = 1 then e.inputTensorNames else e.inputTensorNames ++ [t]}

def create (sliceNum : ℕ → ℕ) (peerSliceNum : ℕ) (pl : PipelinePlan) (s : State) :
    Option PipelineExecutor :=
  if !pl.batched then some {batched := false} else do
    let e ← pl.inputs.foldlM (addInput sliceNum s) {batched := true}
    let batchNum := max e.batchNum peerSliceNum
    if batchNum = 1 then return {e with batched := false, batchNum}
    else return {e with batchNum, outputTensorNames := pl.outputs}

def updateTensorTable (e : PipelineExecutor) (s : State) : Option State :=
  if !e.batched then some s
  else if e.inputTensors.length ≤ e.inputTensorNames.length then
    some { s with
      tensorTable := e.inputTensorNames.foldl (fun table t => table.insert t .batch) s.tensorTable}
  else none

def fetchOutputTensors (e : PipelineExecutor) (s : State) : Option State :=
  if !e.batched then some s else do
    let table ← e.outputTensorNames.foldlM (fun table t =>
      if t ∈ table then some (table.erase t) else none) s.tensorTable
    return {s with tensorTable := table}

def finish (e : PipelineExecutor) (s : State) : Option State :=
  if !e.batched then some s else do
    let table ← e.outputTensorNames.foldlM (addTensor .complete) s.tensorTable
    return { s with
      tensorTable := (e.inputTensorNames.zip e.inputTensors).foldl (fun table x =>
        if x.1 ∈ table then table.insert x.1 x.2 else table) table}

end PipelineExecutor

variable (slices : Slices)

def runBatch (e : PipelineExecutor) (pl : PipelinePlan) (s : State) : Option State := do
  let s ← e.updateTensorTable s
  let s ← pl.nodes.foldlM (runNode names (!e.batched)) s
  e.fetchOutputTensors s

def runPipeline (s : State) (pl : PipelinePlan × ℕ) : Option State := do
  let e ← PipelineExecutor.create slices.sliceNum (slices.peerSliceNum pl.2) pl.1 s
  let s ← (range e.batchNum).foldlM (fun s _ => runBatch names e pl.1 s)
    {s with found := s.found ++ e.inputTensors}
  e.finish s

def runPipelines (plan : List PipelinePlan) : Option State :=
  plan.zipIdx.foldlM (runPipeline names slices) {}

/-- A counter after `k` references; it is gone when all of them are used. -/
def countedDown (k : ℕ) (r : Option ℕ) : Option ℕ :=
  r.bind (fun r => if r ≤ k then none else some (r-k))

@[simp] lemma countedDown_none (k : ℕ) : countedDown k none = none := rfl

lemma countedDown_zero {r : Option ℕ} (hr : ∀ n, r = some n → 0 < n) : countedDown 0 r = r := by
  cases r with
  | none => rfl
  | some n => simp [countedDown, (hr n rfl).ne']

lemma countedDown_countedDown (j k : ℕ) (r : Option ℕ) :
  countedDown k (countedDown j r) = countedDown (j+k) r := by
  cases r with
  | none => rfl
  | some n =>
    by_cases hj : n ≤ j
    · simp [countedDown, hj, hj.trans (Nat.le_add_right j k)]
    · simp [countedDown, hj, Nat.sub_sub, Nat.add_comm]

lemma countedDown_pos {k n : ℕ} {r : Option ℕ} (h : countedDown k r = some n) : 0 < n := by
  obtain ⟨m, -, hm⟩ := bind_eq_some_iff.mp h
  split at hm
  · cases hm
  · next hlt =>
    cases hm
    omega

def Positive (refNums : AList (fun _ : ℕ => ℕ)) : Prop := ∀ t r, refNums.lookup t = some r → 0 < r

variable {s : Counting}

lemma countDown_spec (hs : Positive s.1) (t u : ℕ) :
  (countDown s t).1.lookup u = countedDown ([t].count u) (s.1.lookup u) ∧
    (u ∈ (countDown s t).2 ↔ u ∈ s.2 ∨ u = t ∧ s.1.lookup t = some 1) := by
  have hother : u ≠ t → countedDown ([t].count u) (s.1.lookup u) = s.1.lookup u := by
    intro hu
    rw [count_singleton, if_neg (by simpa using Ne.symm hu)]
    exact countedDown_zero (hs u)
  rw [countDown]
  cases hr : s.1.lookup t with
  | none =>
    by_cases hu : u = t
    · subst hu
      simp [hr]
    · simp [hother hu]
  | some r =>
    have hpos := hs t r hr
    by_cases hone : r-1 = 0
    · have : r = 1 := by omega
      subst this
      by_cases hu : u = t
      · subst hu
        simp [hr, countedDown]
      · simp [hother hu, lookup_erase_ne hu, hu]
    · by_cases hu : u = t
      · subst hu
        simp only [if_neg hone, lookup_insert, count_singleton_self, hr, countedDown, bind_some]
        refine ⟨(if_neg (by omega)).symm, ?_⟩
        have : r ≠ 1 := by omega
        simp [this]
      · simp [hone, hother hu, lookup_insert_ne hu, hu]

lemma foldl_countDown_spec (hs : Positive s.1) (ts : List ℕ) (u : ℕ) :
  (ts.foldl countDown s).1.lookup u = countedDown (ts.count u) (s.1.lookup u) ∧
    (u ∈ (ts.foldl countDown s).2 ↔ u ∈ s.2 ∨ ∃ r, s.1.lookup u = some r ∧ r ≤ ts.count u) := by
  induction ts using reverseRecOn generalizing u with
  | nil =>
    refine ⟨(countedDown_zero (hs u)).symm, ?_⟩
    simp only [foldl_nil, count_nil, Nat.le_zero]
    refine ⟨.inl, ?_⟩
    rintro (h | ⟨r, hr, rfl⟩)
    · exact h
    · exact absurd (hs u 0 hr) (lt_irrefl 0)
  | append_singleton ts t ih =>
    have hs' : Positive (ts.foldl countDown s).1 := by
      intro v r hr
      rw [(ih v).1] at hr
      exact countedDown_pos hr
    rw [foldl_append, foldl_cons, foldl_nil, count_append]
    obtain ⟨hlookup, hmem⟩ := countDown_spec hs' t u
    refine ⟨?_, ?_⟩
    · rw [hlookup, (ih u).1, countedDown_countedDown]
    · rw [hmem, (ih u).2, (ih t).1, or_assoc]
      refine or_congr_right ?_
      by_cases hu : u = t
      · subst hu
        cases hr : s.1.lookup u with
        | none => simp
        | some r =>
          simp only [some.injEq, exists_eq_left', true_and, countedDown, bind_some,
            count_singleton_self]
          split
          · next h => simp [h, h.trans (Nat.le_succ _)]
          · next h =>
            simp only [h, false_or, some.injEq]
            omega
      · simp [hu, Ne.symm hu]

lemma foldlM_setRefNum {streaming : Bool} (refNum : ℕ → ℕ) {outs : List ℕ} (hnodup : outs.Nodup)
  (hfresh : streaming = false → ∀ t ∈ outs, s.1.lookup t = none) :
  ∃ s', (outs.map (fun t => (t, refNum t))).foldlM (setRefNum streaming) s = some s' ∧
    (∀ t, s'.1.lookup t =
      if t ∈ outs ∧ refNum t ≠ 0 then some (refNum t) else s.1.lookup t) ∧
    ∀ t, t ∈ s'.2 ↔ t ∈ s.2 ∨ t ∈ outs ∧ refNum t = 0 := by
  rw [foldlM_map]
  refine foldlM_of_step (P := fun done (s' : Counting) => (∀ t, s'.1.lookup t =
        if t ∈ done ∧ refNum t ≠ 0 then some (refNum t) else s.1.lookup t) ∧
      ∀ t, t ∈ s'.2 ↔ t ∈ s.2 ∨ t ∈ done ∧ refNum t = 0) outs ?_ ?_
  · rintro done t rest rfl s' ⟨hlookup, hmem⟩
    have hnot : t ∉ done := fun h => (nodup_append.mp hnodup).2.2 t h t (by simp) rfl
    by_cases hzero : refNum t = 0
    · refine ⟨_, if_pos hzero, fun u => ?_, fun u => ?_⟩
      · rw [hlookup u]
        by_cases hu : u = t
        · subst hu
          simp [hzero]
        · simp [hu]
      · simp only [mem_append, mem_singleton, hmem u, or_assoc]
        refine or_congr_right ?_
        by_cases hu : u = t
        · subst hu
          simp [hzero]
        · simp [hu]
    · have hset : streaming = true ∨ t ∉ s'.1 := by
        cases streaming with
        | true => exact .inl rfl
        | false =>
          right
          rw [← lookup_eq_none, hlookup t, if_neg (fun h => hnot h.1)]
          exact hfresh rfl t (by simp)
      refine ⟨(s'.1.insert t (refNum t), s'.2), ?_, fun u => ?_, fun u => ?_⟩
      · rw [setRefNum, if_neg hzero, if_pos hset]
      · by_cases hu : u = t
        · subst hu
          simp [hzero]
        · rw [lookup_insert_ne hu, hlookup u]
          simp [hu]
      · rw [hmem u]
        by_cases hu : u = t
        · subst hu
          simp [hzero, hnot]
        · simp [hu]
  · simp

lemma lookup_delTensors (table : AList (fun _ : ℕ => Value)) (ts : List ℕ) (t : ℕ) :
  (delTensors table ts).lookup t = if t ∈ ts then none else table.lookup t :=
  lookup_foldl_erase ts table t

lemma foldlM_addTensor (v : Value) {ts : List ℕ} (hnodup : ts.Nodup)
  {table : AList (fun _ : ℕ => Value)} (hfresh : ∀ t ∈ ts, table.lookup t = none) :
  ∃ table', ts.foldlM (addTensor v) table = some table' ∧
    ∀ t, table'.lookup t = if t ∈ ts then some v else table.lookup t := by
  refine foldlM_of_step (P := fun done (table' : AList (fun _ : ℕ => Value)) =>
    ∀ t, table'.lookup t = if t ∈ done then some v else table.lookup t) ts ?_ (by simp)
  rintro done t rest rfl table' hlookup
  have hnot : t ∉ done := fun h => (nodup_append.mp hnodup).2.2 t h t (by simp) rfl
  have habsent : t ∉ table' := by
    rw [← lookup_eq_none, hlookup t, if_neg hnot]
    exact hfresh t (by simp)
  refine ⟨table'.insert t v, if_neg habsent, fun u => ?_⟩
  by_cases hu : u = t
  · subst hu
    simp
  · rw [lookup_insert_ne hu, hlookup u]
    simp [hu]

variable {names : Names}

/-- The counters of a state: positive, and none for a tensor without a reader. Only held tensors
are in the table. -/
structure Sane (names : Names) (s : State) : Prop where
  positive : Positive s.tensorRefNums
  unread : ∀ t, names.refNum t = 0 → s.tensorRefNums.lookup t = none
  held : ∀ t v, s.tensorTable.lookup t = some v → names.held t

/-- All references of a tensor are used by `k` reads. -/
def UsedUp (s : State) (k t : ℕ) : Prop := ∃ r, s.tensorRefNums.lookup t = some r ∧ r ≤ k

def AllComplete (s : State) : Prop := ∀ t v, s.tensorTable.lookup t = some v → v = .complete

/-- The inputs of a node are there and its outputs are new. -/
structure Ready (names : Names) (s : State) (n : ExecutionNode) : Prop where
  inputs : ∀ t ∈ n.inputs.tensors, names.held t → ∃ v, s.tensorTable.lookup t = some v
  outputs : ∀ t ∈ n.outputs.tensors, names.held t → s.tensorTable.lookup t = none
  disjoint : ∀ t ∈ n.outputs.tensors, names.held t → t ∉ n.inputs.tensors
  nodup : n.outputs.tensors.Nodup
  counters : names.streaming = false → ∀ t ∈ n.outputs.tensors, s.tensorRefNums.lookup t = none

structure NodeRun (names : Names) (whole : Bool) (n : ExecutionNode) (s s' : State) : Prop where
  sane : Sane names s'
  refNum_other : ∀ t ∉ n.outputs.tensors, s'.tensorRefNums.lookup t =
    countedDown (n.inputs.tensors.count t) (s.tensorRefNums.lookup t)
  kept : ∀ t ∉ n.outputs.tensors, ¬UsedUp s (n.inputs.tensors.count t) t →
    s'.tensorTable.lookup t = s.tensorTable.lookup t
  gone : ∀ t ∉ n.outputs.tensors, UsedUp s (n.inputs.tensors.count t) t →
    s'.tensorTable.lookup t = none
  refNum_output : ∀ t ∈ n.outputs.tensors, names.refNum t ≠ 0 →
    s'.tensorRefNums.lookup t = some (names.refNum t)
  output : ∀ t ∈ n.outputs.tensors, names.held t → names.refNum t ≠ 0 →
    ∃ v, s'.tensorTable.lookup t = some v
  unread : ∀ t ∈ n.outputs.tensors, names.held t → names.refNum t = 0 →
    s'.tensorTable.lookup t = none
  complete : AllComplete s → AllComplete s' ∧ ∀ v ∈ s'.found, v ∈ s.found ∨ v = .complete
  found : whole = false → s'.found = s.found

lemma execute_spec (whole : Bool) {n : ExecutionNode} {s : State} (hready : Ready names s n) :
  ∃ s' v, execute names whole n s = some s' ∧ s'.tensorRefNums = s.tensorRefNums ∧
    (∀ t, s'.tensorTable.lookup t = if t ∈ n.outputs.tensors ∧ names.held t then some v
      else s.tensorTable.lookup t) ∧
    (AllComplete s → v = .complete ∧ ∀ v ∈ s'.found, v ∈ s.found ∨ v = .complete) ∧
    (whole = false → s'.found = s.found) := by
  obtain ⟨values, hvalues, hmem⟩ := mapM_of_forall
    (f := (s.tensorTable.lookup ·)) (l := n.inputs.tensors.filter names.held) (by
      intro t ht
      obtain ⟨ht, hheld⟩ := mem_filter.mp ht
      exact hready.inputs t ht hheld)
  obtain ⟨table, htable, hlookup⟩ :=
    foldlM_addTensor (if .batch ∈ values then .batch else .complete)
    (hready.nodup.filter names.held) (fun t ht =>
      hready.outputs t (mem_filter.mp ht).1 (mem_filter.mp ht).2)
  have hcomplete : AllComplete s → ∀ v ∈ values, v = .complete := by
    intro hs v hv
    obtain ⟨t, -, ht⟩ := hmem v hv
    exact hs t v ht
  refine ⟨{s with tensorTable := table, found := if whole then s.found ++ values else s.found},
    if .batch ∈ values then .batch else .complete, ?_, rfl, ?_, ?_, ?_⟩
  · rw [execute, hvalues]
    simp only [bind_eq_bind, bind_some, htable]
    rfl
  · intro t
    rw [hlookup t]
    simp only [mem_filter]
  · intro hs
    have hnot : Value.batch ∉ values := fun h => nomatch hcomplete hs _ h
    refine ⟨if_neg hnot, ?_⟩
    intro v hv
    cases whole with
    | false => exact .inl hv
    | true => exact (mem_append.mp hv).imp_right (hcomplete hs v)
  · rintro rfl
    rfl

lemma runNode_spec (whole : Bool) {n : ExecutionNode} {s : State} (hs : Sane names s)
  (hready : Ready names s n) : ∃ s', runNode names whole s n = some s' ∧
    NodeRun names whole n s s' := by
  obtain ⟨s₁, v, hexec, hrefs, htable, hcomplete, hfound⟩ := execute_spec whole hready
  have hcount := foldl_countDown_spec (s := (s.tensorRefNums, [])) hs.positive n.inputs.tensors
  obtain ⟨⟨refNums, removed⟩, hset, hlookup, hmem⟩ := foldlM_setRefNum names.refNum hready.nodup
    (s := n.inputs.tensors.foldl countDown (s.tensorRefNums, [])) (by
      intro hstream t ht
      rw [(hcount t).1, hready.counters hstream t ht]
      rfl)
  have hremoved : ∀ t, t ∈ removed ↔
      UsedUp s (n.inputs.tensors.count t) t ∨ t ∈ n.outputs.tensors ∧ names.refNum t = 0 := by
    intro t
    rw [hmem t, (hcount t).2]
    simp [UsedUp]
  have hnotUsed :
    ∀ t ∈ n.outputs.tensors, names.held t → ¬UsedUp s (n.inputs.tensors.count t) t := by
    rintro t ht hheld ⟨r, hr, hle⟩
    have := hs.positive t r hr
    rw [count_eq_zero_of_not_mem (hready.disjoint t ht hheld)] at hle
    omega
  have hrun : runNode names whole s n = some { s₁ with
      tensorRefNums := refNums, tensorTable := delTensors s₁.tensorTable removed} := by
    rw [runNode, hexec]
    simp only [bind_eq_bind, bind_some, updateRefName, hrefs, hset]
    rfl
  refine ⟨_, hrun, ?_⟩
  have hother : ∀ t ∉ n.outputs.tensors, refNums.lookup t =
      countedDown (n.inputs.tensors.count t) (s.tensorRefNums.lookup t) := by
    intro t ht
    rw [hlookup t, if_neg fun h => ht h.1, (hcount t).1]
  have hafter : ∀ t, (delTensors s₁.tensorTable removed).lookup t =
      if t ∈ removed then none else s₁.tensorTable.lookup t := lookup_delTensors _ _
  exact
    { sane :=
        { positive := by
            intro t r hr
            rw [hlookup t] at hr
            split at hr
            · next h =>
              cases hr
              exact Nat.pos_of_ne_zero h.2
            · rw [(hcount t).1] at hr
              exact countedDown_pos hr
          unread := by
            intro t ht
            rw [hlookup t, if_neg fun h => h.2 ht, (hcount t).1, hs.unread t ht]
            rfl
          held := by
            intro t u hu
            rw [hafter t] at hu
            split at hu
            · cases hu
            · rw [htable t] at hu
              split at hu
              · next h => exact h.2
              · exact hs.held t u hu}
      refNum_other := hother
      kept := by
        intro t ht hused
        rw [hafter t, if_neg (by simp [hremoved, hused, ht]), htable t, if_neg fun h => ht h.1]
      gone := by
        intro t _ hused
        rw [hafter t, if_pos ((hremoved t).mpr (.inl hused))]
      refNum_output := by
        intro t ht hpos
        rw [hlookup t, if_pos ⟨ht, hpos⟩]
      output := by
        intro t ht hheld hpos
        rw [hafter t, if_neg (by simp [hremoved, hnotUsed t ht hheld, hpos]), htable t,
          if_pos ⟨ht, hheld⟩]
        exact ⟨v, rfl⟩
      unread := by
        intro t ht _ hzero
        rw [hafter t, if_pos ((hremoved t).mpr (.inr ⟨ht, hzero⟩))]
      complete := by
        intro hall
        refine ⟨?_, (hcomplete hall).2⟩
        intro t u hu
        rw [hafter t] at hu
        split at hu
        · cases hu
        · rw [htable t] at hu
          split at hu
          · exact (some.inj hu).symm.trans (hcomplete hall).1
          · exact hall t u hu
      found := hfound}

def reads (ns : List ExecutionNode) : List ℕ := ns.flatMap (·.inputs.tensors)

def writes (ns : List ExecutionNode) : List ℕ := ns.flatMap (·.outputs.tensors)

@[simp] lemma reads_nil : reads [] = [] := rfl

@[simp] lemma writes_nil : writes [] = [] := rfl

@[simp] lemma reads_append (ms ns : List ExecutionNode) :
  reads (ms ++ ns) = reads ms ++ reads ns := flatMap_append

@[simp] lemma writes_append (ms ns : List ExecutionNode) :
  writes (ms ++ ns) = writes ms ++ writes ns := flatMap_append

@[simp] lemma reads_cons (n : ExecutionNode) (ns : List ExecutionNode) :
  reads (n::ns) = n.inputs.tensors ++ reads ns := flatMap_cons

@[simp] lemma writes_cons (n : ExecutionNode) (ns : List ExecutionNode) :
  writes (n::ns) = n.outputs.tensors ++ writes ns := flatMap_cons

/-- A held tensor that these nodes produce is produced before it is read. -/
def ProducedFirst (names : Names) (ns : List ExecutionNode) : Prop :=
  ∀ done n rest, ns = done ++ n::rest → ∀ t ∈ n.inputs.tensors, names.held t → t ∈ writes ns →
    t ∈ writes done

/-- When a list of nodes can run: what they produce is new, what they only read is there and has
references enough. -/
structure SegmentReady (names : Names) (s : State) (ns : List ExecutionNode) : Prop where
  sane : Sane names s
  nodup : (writes ns).Nodup
  fresh : ∀ t ∈ writes ns, names.held t → s.tensorTable.lookup t = none
  counters : names.streaming = false → ∀ t ∈ writes ns, s.tensorRefNums.lookup t = none
  inputs : ∀ t ∈ reads ns, names.held t → t ∉ writes ns →
    (∃ v, s.tensorTable.lookup t = some v) ∧ ∀ r, s.tensorRefNums.lookup t = some r →
      (reads ns).count t ≤ r
  first : ProducedFirst names ns
  refNum : ∀ t ∈ writes ns, names.held t → (reads ns).count t ≤ names.refNum t

structure SegmentRun (names : Names) (whole : Bool) (s : State) (ns : List ExecutionNode)
    (s' : State) : Prop where
  sane : Sane names s'
  refNum_other : ∀ t ∉ writes ns, s'.tensorRefNums.lookup t =
    countedDown ((reads ns).count t) (s.tensorRefNums.lookup t)
  kept : ∀ t ∉ writes ns, ¬UsedUp s ((reads ns).count t) t →
    s'.tensorTable.lookup t = s.tensorTable.lookup t
  gone : ∀ t ∉ writes ns, UsedUp s ((reads ns).count t) t → s'.tensorTable.lookup t = none
  refNum_written : ∀ t ∈ writes ns, names.held t → s'.tensorRefNums.lookup t =
    countedDown ((reads ns).count t) (some (names.refNum t))
  written : ∀ t ∈ writes ns, names.held t → (reads ns).count t < names.refNum t →
    ∃ v, s'.tensorTable.lookup t = some v
  spent : ∀ t ∈ writes ns, names.held t → names.refNum t ≤ (reads ns).count t →
    s'.tensorTable.lookup t = none
  complete : AllComplete s → AllComplete s' ∧ ∀ v ∈ s'.found, v ∈ s.found ∨ v = .complete
  found : whole = false → s'.found = s.found

variable {s s' : State} {n : ExecutionNode}

lemma usedUp_add {t j k : ℕ}
  (h : s'.tensorRefNums.lookup t = countedDown j (s.tensorRefNums.lookup t)) :
  UsedUp s (j+k) t ↔ UsedUp s j t ∨ UsedUp s' k t := by
  rw [UsedUp, UsedUp, UsedUp, h]
  cases s.tensorRefNums.lookup t with
  | none => simp
  | some r =>
    by_cases hj : r ≤ j
    · simp [countedDown, hj, hj.trans (Nat.le_add_right j k)]
    · simp [countedDown, hj, Nat.add_comm]

variable {done rest : List ExecutionNode}

lemma ProducedFirst.not_mem_reads (hfirst : ProducedFirst names (done ++ n::rest))
  (hnodup : (writes (done ++ n::rest)).Nodup) {t : ℕ} (ht : t ∈ n.outputs.tensors)
  (hheld : names.held t) : t ∉ reads (done ++ [n]) := by
  rw [writes_append, writes_cons, nodup_append] at hnodup
  have hnot : t ∉ writes done := fun h => hnodup.2.2 t h t (by simp [ht]) rfl
  have hwritten : t ∈ writes (done ++ n::rest) := by simp [ht]
  rw [reads_append, reads_cons, reads_nil, append_nil, mem_append]
  rintro (h | h)
  · obtain ⟨m, hm, hread⟩ := mem_flatMap.mp h
    obtain ⟨before, after, rfl⟩ := append_of_mem hm
    exact hnot (by simp [hfirst before m (after ++ n::rest) (by simp) t hread hheld hwritten])
  · exact hnot (hfirst done n rest rfl t h hheld hwritten)

lemma segment_ready {whole : Bool} (hready : SegmentReady names s (done ++ n::rest))
  (hrun : SegmentRun names whole s done s') : Ready names s' n := by
  have hnodup := hready.nodup
  rw [writes_append, writes_cons, nodup_append, nodup_append] at hnodup
  have hnew : ∀ t ∈ n.outputs.tensors, t ∉ writes done := fun t ht h =>
    hnodup.2.2 t h t (by simp [ht]) rfl
  have hcount :
    ∀ t ∈ n.inputs.tensors, (reads done).count t < (reads (done ++ n::rest)).count t := by
    intro t ht
    rw [reads_append, reads_cons, count_append, count_append]
    have := count_pos_iff.mpr ht
    omega
  refine ⟨?_, ?_, ?_, hnodup.2.1.1, ?_⟩
  · intro t ht hheld
    by_cases hwritten : t ∈ writes (done ++ n::rest)
    · exact hrun.written t (hready.first done n rest rfl t ht hheld hwritten) hheld
        ((hcount t ht).trans_le (hready.refNum t hwritten hheld))
    · obtain ⟨hv, hr⟩ := hready.inputs t (by simp [ht]) hheld hwritten
      rwa [hrun.kept t (fun h => hwritten (by simp [h]))]
      rintro ⟨r, hlookup, hle⟩
      exact absurd (hr r hlookup) (by have := hcount t ht; omega)
  · intro t ht hheld
    have hfresh := hready.fresh t (by simp [ht]) hheld
    by_cases hused : UsedUp s ((reads done).count t) t
    · exact hrun.gone t (hnew t ht) hused
    · rw [hrun.kept t (hnew t ht) hused, hfresh]
  · intro t ht hheld h
    exact hready.first.not_mem_reads hready.nodup ht hheld (by simp [h])
  · intro hstream t ht
    rw [hrun.refNum_other t (hnew t ht), hready.counters hstream t (by simp [ht])]
    rfl

lemma segment_step {whole : Bool} {s'' : State} (hready : SegmentReady names s (done ++ n::rest))
  (hrun : SegmentRun names whole s done s') (hnode : NodeRun names whole n s' s'') :
  SegmentRun names whole s (done ++ [n]) s'' := by
  have hcount : ∀ t, (reads (done ++ [n])).count t =
      (reads done).count t+n.inputs.tensors.count t := by simp
  have hnotMem : ∀ t, t ∉ writes (done ++ [n]) → t ∉ writes done ∧ t ∉ n.outputs.tensors := by
    simp
  have hnodup := hready.nodup
  rw [writes_append, writes_cons, nodup_append, nodup_append] at hnodup
  have hold : ∀ t ∈ writes done, t ∉ n.outputs.tensors := fun t ht h =>
    hnodup.2.2 t ht t (by simp [h]) rfl
  have hzero : ∀ t ∈ n.outputs.tensors, names.held t → (reads (done ++ [n])).count t = 0 :=
    fun t ht hheld => count_eq_zero_of_not_mem (hready.first.not_mem_reads hready.nodup ht hheld)
  refine ⟨hnode.sane, ?_, ?_, ?_, ?_, ?_, ?_, ?_, ?_⟩
  · intro t ht
    obtain ⟨hdone, hn⟩ := hnotMem t ht
    rw [hnode.refNum_other t hn, hrun.refNum_other t hdone, countedDown_countedDown, hcount]
  · intro t ht hused
    obtain ⟨hdone, hn⟩ := hnotMem t ht
    rw [hcount, usedUp_add (hrun.refNum_other t hdone), not_or] at hused
    rw [hnode.kept t hn hused.2, hrun.kept t hdone hused.1]
  · intro t ht hused
    obtain ⟨hdone, hn⟩ := hnotMem t ht
    rw [hcount, usedUp_add (hrun.refNum_other t hdone)] at hused
    by_cases hlast : UsedUp s' (n.inputs.tensors.count t) t
    · exact hnode.gone t hn hlast
    · rw [hnode.kept t hn hlast, hrun.gone t hdone (hused.resolve_right hlast)]
  · intro t ht hheld
    rw [writes_append, mem_append] at ht
    rcases ht with ht | ht
    · rw [hnode.refNum_other t (hold t ht), hrun.refNum_written t ht hheld,
        countedDown_countedDown, hcount]
    · have ht : t ∈ n.outputs.tensors := by simpa using ht
      rw [hzero t ht hheld]
      by_cases hr : names.refNum t = 0
      · rw [hnode.sane.unread t hr, hr]
        rfl
      · rw [hnode.refNum_output t ht hr, countedDown_zero]
        rintro r ⟨⟩
        omega
  · intro t ht hheld hlt
    rw [writes_append, mem_append] at ht
    rcases ht with ht | ht
    · rw [hcount] at hlt
      rw [hnode.kept t (hold t ht)]
      · exact hrun.written t ht hheld (by omega)
      · rintro ⟨r, hr, hle⟩
        rw [hrun.refNum_written t ht hheld, countedDown, bind_some, if_neg (by omega)] at hr
        cases hr
        omega
    · exact hnode.output t (by simpa using ht) hheld (by omega)
  · intro t ht hheld hle
    rw [writes_append, mem_append] at ht
    rcases ht with ht | ht
    · rw [hcount] at hle
      by_cases hused : UsedUp s' (n.inputs.tensors.count t) t
      · exact hnode.gone t (hold t ht) hused
      · rw [hnode.kept t (hold t ht) hused]
        refine hrun.spent t ht hheld
          (not_lt.mp fun hlt => hused ⟨_, ?_, Nat.sub_le_iff_le_add'.mpr hle⟩)
        rw [hrun.refNum_written t ht hheld, countedDown, bind_some, if_neg (by omega)]
    · have ht : t ∈ n.outputs.tensors := by simpa using ht
      rw [hzero t ht hheld] at hle
      exact hnode.unread t ht hheld (by omega)
  · intro hall
    obtain ⟨hall', hfound⟩ := hrun.complete hall
    obtain ⟨hall'', hfound'⟩ := hnode.complete hall'
    exact ⟨hall'', fun v hv => (hfound' v hv).elim (hfound v) .inr⟩
  · intro hwhole
    rw [hnode.found hwhole, hrun.found hwhole]

lemma segment_run (whole : Bool) {ns : List ExecutionNode} (hready : SegmentReady names s ns) :
  ∃ s', ns.foldlM (runNode names whole) s = some s' ∧ SegmentRun names whole s ns s' := by
  refine foldlM_of_step (P := SegmentRun names whole s) ns ?_ ?_
  · rintro done n rest rfl s' hrun
    obtain ⟨s'', hnode, hspec⟩ := runNode_spec whole hrun.sane (segment_ready hready hrun)
    exact ⟨s'', hnode, segment_step hready hrun hspec⟩
  · have hnot : ∀ t, ¬UsedUp s 0 t := by
      rintro t ⟨r, hr, hle⟩
      have := hready.sane.positive t r hr
      omega
    refine ⟨hready.sane, ?_, fun _ _ _ => rfl, fun t _ h => absurd h (hnot t), ?_, ?_, ?_, ?_,
      fun _ => rfl⟩
    · intro t _
      exact (countedDown_zero (hready.sane.positive t)).symm
    · simp
    · simp
    · simp
    · exact fun hall => ⟨hall, fun _ => .inl⟩

end Scql.TensorLifetime
