import Scql.ExecutionGraph
import Scql.FallibleRules
import Scql.KahnSort

/-! # Schedule of an execution graph

Topological order of the nodes of each pipeline, and its partition into one sub-DAG a
node. The order is shown to respect the tensors: their producer comes before all their
consumers, in whatever pipelines they are. -/
namespace Scql.ExecutionSchedule

open MapRange ColumnControl OperatorRegistry ExecutionGraph Fallible List Function

inductive SortError
  | circle
  deriving DecidableEq

/-- Targets of the out edges of a node, in the order of one map loop. -/
def successors (o : RangeOrder) (p : Pipeline) (v : ℕ) : List ℕ :=
  match p.nodes.find? (fun n => n.id = v) with
  | none => []
  | some n => (o.range 5 v n.edges).map (·.target)

def sortPipeline (o : RangeOrder) (p : Pipeline × ℕ) : Except SortError (List ℕ) :=
  match KahnSort.sort (o.range 6 p.2 (p.1.nodes.map (·.id))) (successors o p.1)
      (List.insertionSort (· ≤ ·)) with
  | none => .error .circle
  | some nodes => .ok nodes

def topologicalSort (o : RangeOrder) (graph : Graph) : Except SortError (List (List ℕ)) :=
  graph.pipelines.zipIdx.mapM (sortPipeline o)

/-- One more reference for every occurrence of a tensor among the inputs. -/
def updateTensorRefNum (graph : Graph) : Graph :=
  let count (ts : List Tensor) (t : ℕ) : List Tensor :=
    ts.modify t (fun x => {x with refNum := x.refNum+1})
  {graph with tensors := (graph.pipelines.flatMap (·.inputIds)).foldl count graph.tensors}

structure PartitionedPipeline where
  batched : Bool
  inputTensors : List ℕ
  outputTensors : List ℕ
  subDAGs : List (List ℕ)
  deriving DecidableEq

structure GraphPartitioner where
  graph : Graph
  pipelines : List PartitionedPipeline
  deriving DecidableEq

def partitionPipeline (p : Pipeline) (nodes : List ℕ) : PartitionedPipeline :=
  ⟨p.batched, if p.batched then p.inputTensors else [],
    if p.batched then p.outputTensors else [], nodes.map (fun n => [n])⟩

def naivePartition (o : RangeOrder) (graph : Graph) : Except SortError GraphPartitioner := do
  let graph := updateTensorRefNum graph
  let pipelineNodes ← topologicalSort o graph
  return ⟨graph, zipWith partitionPipeline graph.pipelines pipelineNodes⟩

def GraphPartitioner.order (p : GraphPartitioner) : List ℕ :=
  p.pipelines.flatMap (fun pl => pl.subDAGs.flatten)

structure AddCall where
  name : String
  opType : OpName
  inputs : Arguments
  outputs : Arguments
  attributes : AList (fun _ : String => AttributeValue)
  partyCodes : List PartyCode

/-- What a client of the builder does: create a tensor, change a tensor's fields, or ask
for a node. -/
inductive BuilderStep
  | addTensor (name : String)
  | modifyTensor (t : ℕ) (f : Tensor → Tensor)
  | addExecutionNode (call : AddCall)

def AddCall.apply (c : AddCall) (plan : GraphBuilder) : Except AddNodeError GraphBuilder :=
  plan.addExecutionNode c.name c.opType c.inputs c.outputs c.attributes c.partyCodes

/-- A call that returns an error leaves the builder as it was. -/
def step (plan : GraphBuilder) : BuilderStep → GraphBuilder
  | .addTensor name => plan.addTensor name
  | .modifyTensor t f => plan.modifyTensor t f
  | .addExecutionNode c => (c.apply plan).toOption.getD plan

def run (plan : GraphBuilder) (steps : List BuilderStep) : GraphBuilder := steps.foldl step plan

/-- The calls of a run that returned without an error, in order. -/
def accepted : GraphBuilder → List BuilderStep → List AddCall
  | _, [] => []
  | plan, .addExecutionNode c::steps =>
    if (c.apply plan).isOk then c::accepted (step plan (.addExecutionNode c)) steps
    else accepted (step plan (.addExecutionNode c)) steps
  | plan, s::steps => accepted (step plan s) steps

lemma pushNode_flatMap (node : ExecutionNode) {ps : List PipelineExecNode} (h : ps ≠ []) :
  (GraphBuilder.pushNode node ps).flatMap (·.executionNodes) =
    ps.flatMap (·.executionNodes) ++ [node] := by
  induction ps with
  | nil => exact absurd rfl h
  | cons p ps ih =>
    cases ps with
    | nil => simp [GraphBuilder.pushNode]
    | cons q qs =>
      have htail := ih (cons_ne_nil q qs)
      simp only [GraphBuilder.pushNode, flatMap_cons, append_assoc] at htail ⊢
      rw [htail]

lemma markBatched_flatMap (batched : Bool) (typ : StreamingOpType) (ps : List PipelineExecNode) :
  (GraphBuilder.markBatched batched typ ps).flatMap (·.executionNodes) =
    ps.flatMap (·.executionNodes) := by
  induction ps with
  | nil => rfl
  | cons p ps ih =>
    cases ps with
    | nil =>
      simp only [GraphBuilder.markBatched, flatMap_cons, flatMap_nil, append_nil]
      split <;> rfl
    | cons q qs => simpa [GraphBuilder.markBatched] using ih

lemma nodes_of_apply {c : AddCall} {plan plan' : GraphBuilder} (h : c.apply plan = .ok plan') :
  ∃ n : ExecutionNode, plan'.nodes = plan.nodes ++ [n] ∧ n.inputs = c.inputs ∧
    n.outputs = c.outputs := by
  unfold AddCall.apply GraphBuilder.addExecutionNode at h
  obtain ⟨-, -, h⟩ := bind_eq_ok.mp h
  cases h
  refine ⟨⟨c.name, c.opType, c.inputs, c.outputs, GraphBuilder.withDefaults c.attributes
    (findOpDef c.opType).defaultAttribute, c.partyCodes⟩, ?_, rfl, rfl⟩
  unfold GraphBuilder.nodes
  rw [markBatched_flatMap]
  cases hopen : plan.opensPipeline (findOpDef c.opType).streamingType with
  | true =>
    simp only [if_true]
    rw [pushNode_flatMap _ (by simp)]
    simp
  | false =>
    simp only [Bool.false_eq_true, if_false]
    refine pushNode_flatMap _ ?_
    rintro hnil
    simp [GraphBuilder.opensPipeline, hnil] at hopen

variable (plan : GraphBuilder)

@[simp] lemma nodes_step_addTensor (name : String) :
  (step plan (.addTensor name)).nodes = plan.nodes := rfl

@[simp] lemma nodes_step_modifyTensor (t : ℕ) (f : Tensor → Tensor) :
  (step plan (.modifyTensor t f)).nodes = plan.nodes := rfl

lemma nodes_step_addExecutionNode (c : AddCall) (h : (c.apply plan).isOk = true) : ∃ n :
    ExecutionNode, (step plan (.addExecutionNode c)).nodes = plan.nodes ++ [n] ∧
      n.inputs = c.inputs ∧ n.outputs = c.outputs := by
  cases hc : c.apply plan with
  | error e => simp [hc, Except.isOk, Except.toBool] at h
  | ok plan' =>
    simpa [step, hc, Except.toOption] using nodes_of_apply hc

lemma step_of_not_isOk (c : AddCall) (h : (c.apply plan).isOk = false) :
  step plan (.addExecutionNode c) = plan := by
  cases hc : c.apply plan with
  | error e => simp [step, hc, Except.toOption]
  | ok plan' => simp [hc, Except.isOk, Except.toBool] at h

lemma nodes_run (steps : List BuilderStep) :
  (run plan steps).nodes.map (fun n => (n.inputs, n.outputs)) =
    plan.nodes.map (fun n => (n.inputs, n.outputs)) ++
      (accepted plan steps).map (fun c => (c.inputs, c.outputs)) := by
  induction steps generalizing plan with
  | nil => simp [run, accepted]
  | cons s steps ih =>
    have htail := ih (step plan s)
    cases s with
    | addTensor name => simpa [run, accepted] using htail
    | modifyTensor t f => simpa [run, accepted] using htail
    | addExecutionNode c =>
      cases hok : (c.apply plan).isOk with
      | true =>
        obtain ⟨n, hn, hin, hout⟩ := nodes_step_addExecutionNode plan c hok
        rw [hn] at htail
        simpa [run, accepted, hok, hin, hout] using htail
      | false =>
        rw [step_of_not_isOk plan c hok] at htail
        simpa [run, accepted, hok, step_of_not_isOk plan c hok] using htail

open TensorUse

variable (o : RangeOrder)

lemma mem_tensors_range (i j : ℕ) (args : Arguments) (t : ℕ) :
  t ∈ (o.range i j args.entries).flatMap (·.2) ↔ t ∈ args.tensors := by
  simp [Arguments.tensors]

lemma foldl_recordInput (node : ℕ) (use : TensorUse) (ts : List ℕ) :
  (∀ t c, c ∈ (ts.foldl (recordInput node) use).inputTensorTo t ↔
    c ∈ use.inputTensorTo t ∨ c = node ∧ t ∈ ts) ∧
  (∀ t, t ∈ (ts.foldl (recordInput node) use).tensorIds ↔ t ∈ use.tensorIds ∨ t ∈ ts) ∧
  (ts.foldl (recordInput node) use).outputTensorFrom = use.outputTensorFrom := by
  induction ts generalizing use with
  | nil => simp
  | cons s ts ih =>
    obtain ⟨hin, hids, hout⟩ := ih (recordInput node use s)
    refine ⟨fun t c => ?_, fun t => ?_, hout⟩
    · rw [foldl_cons, hin]
      by_cases hts : t = s
      · subst hts
        simp [recordInput]
        tauto
      · simp [recordInput, hts]
    · rw [foldl_cons, hids]
      simp [recordInput]
      tauto

lemma foldl_recordOutput (node : ℕ) (use : TensorUse) (ts : List ℕ) :
  (ts.foldl (recordOutput node) use).inputTensorTo = use.inputTensorTo ∧
  (∀ t, t ∈ (ts.foldl (recordOutput node) use).tensorIds ↔ t ∈ use.tensorIds ∨ t ∈ ts) ∧
  (∀ t, (ts.foldl (recordOutput node) use).outputTensorFrom t =
    if t ∈ ts then some node else use.outputTensorFrom t) := by
  induction ts generalizing use with
  | nil => simp
  | cons s ts ih =>
    obtain ⟨hin, hids, hout⟩ := ih (recordOutput node use s)
    refine ⟨hin, fun t => ?_, fun t => ?_⟩
    · rw [foldl_cons, hids]
      simp [recordOutput]
      tauto
    · rw [foldl_cons, hout]
      by_cases hts : t = s
      · subst hts
        simp [recordOutput]
      · simp [recordOutput, hts]

/-- The maps after the nodes of a list have been visited, in terms of the list. -/
structure Records (l : List (ExecutionNode × ℕ)) (use : TensorUse) : Prop where
  consumer : ∀ t c, c ∈ use.inputTensorTo t ↔ ∃ n, (n, c) ∈ l ∧ t ∈ n.inputs.tensors
  seen : ∀ t, t ∈ use.tensorIds ↔
    ∃ n ∈ l, t ∈ n.1.inputs.tensors ∨ t ∈ n.1.outputs.tensors
  producer : ∀ t i, use.outputTensorFrom t = some i → ∃ n, (n, i) ∈ l ∧ t ∈ n.outputs.tensors
  produced : ∀ n ∈ l, ∀ t ∈ n.1.outputs.tensors, (use.outputTensorFrom t).isSome

variable {l : List (ExecutionNode × ℕ)} {use : TensorUse}

lemma Records.recordNode (h : Records l use) (n : ExecutionNode × ℕ) :
  Records (l ++ [n]) (TensorUse.recordNode o use n) := by
  obtain ⟨m, k⟩ := n
  obtain ⟨hin, hids, hout⟩ := foldl_recordInput k use
    ((o.range 1 k m.inputs.entries).flatMap (·.2))
  obtain ⟨hin', hids', hout'⟩ := foldl_recordOutput k
    (((o.range 1 k m.inputs.entries).flatMap (·.2)).foldl (recordInput k) use)
    ((o.range 2 k m.outputs.entries).flatMap (·.2))
  simp only [mem_tensors_range] at hin hids hids' hout'
  refine ⟨fun t c => ?_, fun t => ?_, fun t i hi => ?_, fun n hn t ht => ?_⟩
  · simp only [TensorUse.recordNode, hin', hin, h.consumer, mem_append, mem_singleton,
      Prod.mk.injEq]
    constructor
    · rintro (⟨n, hn, ht⟩ | ⟨rfl, ht⟩)
      · exact ⟨n, .inl hn, ht⟩
      · exact ⟨m, .inr ⟨rfl, rfl⟩, ht⟩
    · rintro ⟨n, hn | ⟨rfl, rfl⟩, ht⟩
      · exact .inl ⟨n, hn, ht⟩
      · exact .inr ⟨rfl, ht⟩
  · simp only [TensorUse.recordNode, hids', hids, h.seen, mem_append, mem_singleton]
    constructor
    · rintro ((⟨n, hn, ht⟩ | ht) | ht)
      · exact ⟨n, .inl hn, ht⟩
      · exact ⟨(m, k), .inr rfl, .inl ht⟩
      · exact ⟨(m, k), .inr rfl, .inr ht⟩
    · rintro ⟨n, hn | rfl, ht⟩
      · exact .inl (.inl ⟨n, hn, ht⟩)
      · rcases ht with ht | ht
        · exact .inl (.inr ht)
        · exact .inr ht
  · simp only [TensorUse.recordNode, hout', hout] at hi
    split at hi
    · cases hi
      exact ⟨m, by simp, ‹_›⟩
    · obtain ⟨n, hn, ht⟩ := h.producer t i hi
      exact ⟨n, by simp [hn], ht⟩
  · simp only [TensorUse.recordNode, hout', hout]
    split
    · rfl
    · rename_i hnew
      rcases mem_append.mp hn with hn | hn
      · exact h.produced n hn t ht
      · obtain rfl := mem_singleton.mp hn
        exact absurd ht hnew

lemma records_foldl (l : List (ExecutionNode × ℕ)) :
  Records l (l.foldl (TensorUse.recordNode o) TensorUse.empty) := by
  induction l using reverseRecOn with
  | nil => exact ⟨by simp [TensorUse.empty], by simp [TensorUse.empty],
      by simp [TensorUse.empty], by simp⟩
  | append_singleton l n ih =>
    rw [foldl_append, foldl_cons, foldl_nil]
    exact ih.recordNode o n

lemma Records.congr {l' : List (ExecutionNode × ℕ)} (h : Records l use)
  (hl : ∀ n, n ∈ l ↔ n ∈ l') : Records l' use := by
  refine ⟨fun t c => ?_, fun t => ?_, fun t i hi => ?_, fun n hn => ?_⟩
  · simpa only [hl] using h.consumer t c
  · simpa only [hl] using h.seen t
  · simpa only [hl] using h.producer t i hi
  · exact h.produced n ((hl n).mpr hn)

lemma records_tensorUse (numbered : List (List (ExecutionNode × ℕ))) :
  Records numbered.flatten (tensorUse o numbered) := by
  refine (records_foldl o _).congr (fun n => ?_)
  simp only [mem_flatMap, o.mem_range, mem_flatten]
  constructor
  · rintro ⟨⟨l, i⟩, hl, hn⟩
    exact ⟨l, (mem_zipIdx' hl).2 ▸ getElem_mem _, hn⟩
  · rintro ⟨l, hl, hn⟩
    obtain ⟨i, hi, rfl⟩ := mem_iff_getElem.mp hl
    exact ⟨(numbered[i], i), mem_zipIdx_iff_getElem?.mpr (by simp [hi]), hn⟩

def edgesOf (use : TensorUse) (t : ℕ) : List Edge :=
  (use.outputTensorFrom t).elim [] (fun p => (use.inputTensorTo t).map (fun c => ⟨p, c, t⟩))

lemma edges_eq_ok (o : RangeOrder)
    (h : ∀ t, use.inputTensorTo t ≠ [] → (use.outputTensorFrom t).isSome) :
  use.edges o = .ok ((o.range 4 0 use.tensorIds).flatMap (edgesOf use)) := by
  refine foldlM_append (fun t _ acc => ?_) []
  rcases hin : use.inputTensorTo t with - | ⟨c, cs⟩
  · cases hout : use.outputTensorFrom t <;> simp [edgesOf, hin, hout]
  · obtain ⟨p, hp⟩ := Option.isSome_iff_exists.mp (h t (by simp [hin]))
    simp [edgesOf, hin, hp]

lemma numberNodes_flatten (k : ℕ) (ps : List PipelineExecNode) :
  (numberNodes k ps).flatten = (ps.flatMap (·.executionNodes)).zipIdx k := by
  induction ps generalizing k with
  | nil => rfl
  | cons p ps ih => simp [numberNodes, ih, zipIdx_append]

lemma mem_numberNodes_flatten (plan : GraphBuilder) (n : ExecutionNode) (i : ℕ) :
  (n, i) ∈ (numberNodes 0 plan.pipelineExeNodes).flatten ↔ plan.nodes[i]? = some n := by
  rw [numberNodes_flatten, mem_zipIdx_iff_getElem?]
  rfl

lemma numberNodes_length (k : ℕ) (ps : List PipelineExecNode) :
    (numberNodes k ps).length = ps.length := by
  induction ps generalizing k with
  | nil => rfl
  | cons p ps ih => simp [numberNodes, ih]

lemma numberNodes_ids (ps : List PipelineExecNode) :
  ((numberNodes 0 ps).map (fun l => l.map Prod.snd)).flatten =
    range (ps.flatMap (·.executionNodes)).length := by
  rw [← map_flatten, numberNodes_flatten, zipIdx_map_snd, range_eq_range']

/-- The inputs and outputs of the `i`-th call or node. -/
abbrev Uses := List (Arguments × Arguments)

def Outputs (uses : Uses) (i t : ℕ) : Prop := ∃ a, uses[i]? = some a ∧ t ∈ a.2.tensors

def Consumes (uses : Uses) (i t : ℕ) : Prop := ∃ a, uses[i]? = some a ∧ t ∈ a.1.tensors

/-- Every consumed tensor was output by an earlier call. -/
def ProducedEarlier (uses : Uses) : Prop := ∀ j t, Consumes uses j t → ∃ i < j, Outputs uses i t

/-- Every consumed tensor was output earlier, and no tensor is output by two calls: a
client passes tensors it has just created as outputs. -/
structure WellProduced (uses : Uses) : Prop where
  earlier : ProducedEarlier uses
  once : ∀ i j t, Outputs uses i t → Outputs uses j t → i = j

def nodeUses (plan : GraphBuilder) : Uses := plan.nodes.map (fun n => (n.inputs, n.outputs))

def callUses (calls : List AddCall) : Uses := calls.map (fun c => (c.inputs, c.outputs))

lemma outputs_nodeUses_iff (plan : GraphBuilder) (i t : ℕ) : Outputs (nodeUses plan) i t ↔
  ∃ n, plan.nodes[i]? = some n ∧ t ∈ n.outputs.tensors := by
  simp [Outputs, nodeUses, getElem?_map, Option.map_eq_some_iff]

lemma consumes_nodeUses_iff (plan : GraphBuilder) (i t : ℕ) : Consumes (nodeUses plan) i t ↔
  ∃ n, plan.nodes[i]? = some n ∧ t ∈ n.inputs.tensors := by
  simp [Consumes, nodeUses, getElem?_map, Option.map_eq_some_iff]

variable {i j : ℕ}

lemma WellProduced.lt {uses : Uses} (h : WellProduced uses) {t : ℕ}
  (hi : Outputs uses i t) (hj : Consumes uses j t) : i < j := by
  obtain ⟨k, hk, ho⟩ := h.earlier j t hj
  exact h.once i k t hi ho ▸ hk

variable {plan : GraphBuilder} {es : List Edge}

lemma edges_of_wellProduced (h : WellProduced (nodeUses plan)) :
  ∃ es, (tensorUse o (numberNodes 0 plan.pipelineExeNodes)).edges o = .ok es ∧
    ∀ i j, (∃ e ∈ es, e.source = i ∧ e.target = j) ↔
      ∃ t, Outputs (nodeUses plan) i t ∧ Consumes (nodeUses plan) j t := by
  have hrec := records_tensorUse o (numberNodes 0 plan.pipelineExeNodes)
  generalize tensorUse o (numberNodes 0 plan.pipelineExeNodes) = use at hrec ⊢
  have hconsumer : ∀ t c, c ∈ use.inputTensorTo t ↔ Consumes (nodeUses plan) c t := by
    intro t c
    simp only [hrec.consumer, mem_numberNodes_flatten, consumes_nodeUses_iff]
  have hproducer : ∀ t i, use.outputTensorFrom t = some i ↔ Outputs (nodeUses plan) i t := by
    intro t i
    have hsound : ∀ i, use.outputTensorFrom t = some i → Outputs (nodeUses plan) i t := by
      intro i hi
      simpa only [mem_numberNodes_flatten, outputs_nodeUses_iff] using hrec.producer t i hi
    refine ⟨hsound i, fun hi => ?_⟩
    obtain ⟨n, hn, ht⟩ := (outputs_nodeUses_iff plan i t).mp hi
    obtain ⟨k, hk⟩ := Option.isSome_iff_exists.mp
      (hrec.produced (n, i) ((mem_numberNodes_flatten plan n i).mpr hn) t ht)
    rw [hk, h.once k i t (hsound k hk) hi]
  refine ⟨_, edges_eq_ok o ?_, fun i j => ?_⟩
  · intro t hne
    obtain ⟨c, hc⟩ := exists_mem_of_ne_nil _ hne
    obtain ⟨i, -, hi⟩ := h.earlier c t ((hconsumer t c).mp hc)
    rw [(hproducer t i).mpr hi]
    rfl
  · simp only [mem_flatMap, o.mem_range]
    constructor
    · rintro ⟨e, ⟨t, -, he⟩, rfl, rfl⟩
      cases hout : use.outputTensorFrom t with
      | none => simp [edgesOf, hout] at he
      | some p =>
        simp only [edgesOf, hout, Option.elim_some, mem_map] at he
        obtain ⟨c, hc, rfl⟩ := he
        exact ⟨t, (hproducer t p).mp hout, (hconsumer t c).mp hc⟩
    · rintro ⟨t, hi, hj⟩
      have hout := (hproducer t i).mpr hi
      refine ⟨⟨i, j, t⟩, ⟨t, ?_, ?_⟩, rfl, rfl⟩
      · obtain ⟨n, hn, ht⟩ := (outputs_nodeUses_iff plan i t).mp hi
        exact (hrec.seen t).mpr ⟨(n, i), (mem_numberNodes_flatten plan n i).mpr hn, .inr ht⟩
      · simp only [edgesOf, hout, Option.elim_some, mem_map]
        exact ⟨j, (hconsumer t j).mpr hj, rfl⟩

lemma fillOutputs_nodes (ps : List Pipeline) :
  (Pipeline.fillOutputs ps).map (·.nodes) = ps.map (·.nodes) := by
  induction ps with
  | nil => rfl
  | cons p ps ih => simp [Pipeline.fillOutputs, ih]

lemma fillPipeline_nodes (status : ℕ → TensorStatus) (ps : List Pipeline) :
  (fillPipeline status ps).map (·.nodes) = ps.map (·.nodes) := by
  rw [fillPipeline, fillOutputs_nodes, map_map]
  rfl

lemma build_nodes (hes : (tensorUse o (numberNodes 0 plan.pipelineExeNodes)).edges o = .ok es) :
  ∃ g, plan.build o = .ok g ∧ g.pipelines.map (·.nodes) =
    (numberNodes 0 plan.pipelineExeNodes).map (fun l =>
      l.map (fun n => ⟨n.2, n.1, es.filter (fun e => e.source = n.2)⟩)) := by
  refine ⟨_, by rw [GraphBuilder.build, hes]; rfl, ?_⟩
  have hzip : ∀ f : List (ExecutionNode × ℕ) → List GraphNode,
      (plan.pipelineExeNodes.zip (numberNodes 0 plan.pipelineExeNodes)).map (fun p => f p.2) =
        (numberNodes 0 plan.pipelineExeNodes).map f := by
    intro f
    have hsnd := map_snd_zip (numberNodes_length 0 plan.pipelineExeNodes).le
    conv_rhs => rw [← hsnd, map_map]
    rfl
  dsimp only
  split
  · rw [fillPipeline_nodes, map_map]
    exact hzip _
  · rw [map_map]
    exact hzip _

variable {R : ℕ → ℕ → Prop} {numbered : List (List (ExecutionNode × ℕ))} {p : Pipeline}

lemma mem_successors {o : RangeOrder}
  (hp : p.nodes = l.map (fun n => ⟨n.2, n.1, es.filter (fun e => e.source = n.2)⟩)) (u v : ℕ) :
  u ∈ successors o p v ↔ v ∈ p.nodes.map (·.id) ∧ ∃ e ∈ es, e.source = v ∧ e.target = u := by
  unfold successors
  cases hfind : p.nodes.find? (fun n => n.id = v) with
  | none =>
    have hno : v ∉ p.nodes.map (·.id) := by
      simpa using hfind
    simp [hno]
  | some n =>
    have hid : n.id = v := by simpa using find?_some hfind
    have hmem := mem_of_find?_eq_some hfind
    have hedges : n.edges = es.filter (fun e => e.source = v) := by
      rw [hp, mem_map] at hmem
      obtain ⟨m, -, rfl⟩ := hmem
      simp only at hid
      rw [← hid]
    have hv : v ∈ p.nodes.map (·.id) := mem_map.mpr ⟨n, hmem, hid⟩
    simp only [hedges, hv, true_and, mem_map, o.mem_range, mem_filter, decide_eq_true_eq]
    tauto

lemma sortPipeline_ok (i : ℕ)
    (hp : p.nodes = l.map (fun n => ⟨n.2, n.1, es.filter (fun e => e.source = n.2)⟩))
  (hnodup : (l.map Prod.snd).Nodup) (hlt : ∀ e ∈ es, e.source < e.target) :
  ∃ order, sortPipeline o (p, i) = .ok order ∧ order.Perm (l.map Prod.snd) ∧
    order.Pairwise (fun u v => ¬∃ e ∈ es, e.source = v ∧ e.target = u) := by
  have hids : p.nodes.map (·.id) = l.map Prod.snd := by
    rw [hp, map_map]
    rfl
  have hrank : ∀ v ∈ o.range 6 i (p.nodes.map (·.id)), ∀ u ∈ successors o p v, v < u := by
    intro v _ u hu
    obtain ⟨-, e, he, rfl, rfl⟩ := (mem_successors hp u v).mp hu
    exact hlt e he
  obtain ⟨order, hsort, hperm, hpair⟩ := KahnSort.sort_spec
    ((o.nodup_range 6 i).mpr (hids ▸ hnodup)) (fun l => perm_insertionSort (· ≤ ·) l)
    id hrank
  have hperm' : order.Perm (l.map Prod.snd) := hids ▸ hperm.trans (o.perm 6 i _)
  refine ⟨order, by simp only [sortPipeline, hsort], hperm', ?_⟩
  refine hpair.imp_of_mem (fun {u v} _ hv hnot hedge => hnot ?_)
  exact (mem_successors hp u v).mpr ⟨hids ▸ hperm'.mem_iff.mp hv, hedge⟩

variable {ls : List (List ℕ)}

lemma pairwise_of_forall₂_perm {ks : List (List ℕ)} (h : Forall₂ List.Perm ls ks)
  (hk : ks.Pairwise (fun a b => ∀ x ∈ a, ∀ y ∈ b, R x y)) :
    ls.Pairwise (fun a b => ∀ x ∈ a, ∀ y ∈ b, R x y) := by
  induction h with
  | nil => exact .nil
  | @cons l k ls ks hl hrest ih =>
    obtain ⟨hhead, htail⟩ := pairwise_cons.mp hk
    refine pairwise_cons.mpr ⟨fun l' hl' x hx y hy => ?_, ih htail⟩
    obtain ⟨k', hk', hperm⟩ := exists_of_forall₂ hrest hl'
    exact hhead k' hk' x (hl.mem_iff.mp hx) y (hperm.mem_iff.mp hy)

lemma idxOf_lt_of_pairwise {l : List ℕ} (h : l.Pairwise R) (hi : i ∈ l) (hj : j ∈ l)
  (hne : i ≠ j) (hR : ¬R j i) : l.idxOf i < l.idxOf j := by
  by_contra hle
  have hidx : l.idxOf j ≠ l.idxOf i := fun heq => hne ((idxOf_inj hi).mp heq.symm)
  have hrel := pairwise_iff_getElem.mp h (l.idxOf j) (l.idxOf i)
    (idxOf_lt_length_iff.mpr hj) (idxOf_lt_length_iff.mpr hi) (by omega)
  simp only [getElem_idxOf] at hrel
  exact hR hrel

lemma order_partition {ps : List Pipeline} (h : ps.length = ls.length) :
  (zipWith partitionPipeline ps ls).flatMap (fun pl => pl.subDAGs.flatten) = ls.flatten := by
  induction ps generalizing ls with
  | nil =>
    cases ls with
    | nil => rfl
    | cons l ls => simp at h
  | cons p ps ih =>
    cases ls with
    | nil => simp at h
    | cons l ls =>
      have hsingle : (l.map (fun n => [n])).flatten = l := by
        rw [← flatMap_def]
        simp
      simp only [zipWith_cons_cons, flatMap_cons, flatten_cons, partitionPipeline,
        hsingle, ih (by simpa using h)]

variable {g : Graph}

lemma map_nodes {γ : Type}
  (h : g.pipelines.map (·.nodes) =
    numbered.map (fun l => l.map (fun n => ⟨n.2, n.1, es.filter (fun e => e.source = n.2)⟩)))
  (f : ExecutionNode × ℕ → γ) : g.pipelines.map (fun p => p.nodes.map (fun n => f (n.node, n.id))) =
    numbered.map (fun l => l.map f) := by
  have hmap := congrArg (map (map (fun n : GraphNode => f (n.node, n.id)))) h
  simpa [map_map, comp_def] using hmap

lemma topologicalSort_ok
  (hnodes : g.pipelines.map (·.nodes) =
    numbered.map (fun l => l.map (fun n => ⟨n.2, n.1, es.filter (fun e => e.source = n.2)⟩)))
  (hnodup : ∀ l ∈ numbered, (l.map Prod.snd).Nodup) (hlt : ∀ e ∈ es, e.source < e.target) :
  ∃ sorted, topologicalSort o g = .ok sorted ∧ g.pipelines.length = sorted.length ∧
    Forall₂ List.Perm sorted (numbered.map (fun l => l.map Prod.snd)) ∧
    ∀ order ∈ sorted, order.Pairwise (fun u v => ¬∃ e ∈ es, e.source = v ∧ e.target = u) := by
  have hpipeline : ∀ p ∈ g.pipelines.zipIdx, ∃ order, sortPipeline o p = .ok order ∧
      order.Perm (p.1.nodes.map (·.id)) ∧
      order.Pairwise (fun u v => ¬∃ e ∈ es, e.source = v ∧ e.target = u) := by
    rintro ⟨p, k⟩ hp
    have hmem : p.nodes ∈ g.pipelines.map (·.nodes) :=
      mem_map_of_mem ((mem_zipIdx' hp).2 ▸ getElem_mem _)
    rw [hnodes, mem_map] at hmem
    obtain ⟨l, hl, heq⟩ := hmem
    obtain ⟨order, hsort, hperm, hpair⟩ := sortPipeline_ok o k heq.symm (hnodup l hl) hlt
    refine ⟨order, hsort, ?_, hpair⟩
    rwa [← heq, map_map]
  obtain ⟨sorted, hsorted, hforall⟩ := mapM_ok_of_forall hpipeline
  refine ⟨sorted, hsorted, by simpa using hforall.length_eq, ?_, fun order horder => ?_⟩
  · have hids := map_nodes hnodes Prod.snd
    rw [← zipIdx_map_fst 0 g.pipelines, map_map] at hids
    rw [← hids, forall₂_map_right_iff]
    exact (Forall₂.imp (fun _ _ hr => hr.1) hforall).flip
  · obtain ⟨p, -, hp⟩ := exists_of_forall₂ hforall.flip horder
    exact hp.2

lemma naivePartition_ok {sorted : List (List ℕ)}
  (hsort : topologicalSort o g = .ok sorted) (hlen : g.pipelines.length = sorted.length) :
  ∃ part, naivePartition o g = .ok part ∧ part.order = sorted.flatten := by
  have hsort' : topologicalSort o (updateTensorRefNum g) = .ok sorted := hsort
  refine ⟨⟨updateTensorRefNum g, zipWith partitionPipeline g.pipelines sorted⟩, ?_,
    order_partition hlen⟩
  rw [naivePartition, hsort']
  rfl

lemma schedule_of_nodes (h : WellProduced (nodeUses plan)) : ∃ g sorted part, plan.build o = .ok g ∧
    g.pipelines.flatMap (fun p => p.nodes.map (fun n => (n.node, n.id))) = plan.nodes.zipIdx ∧
    topologicalSort o g = .ok sorted ∧ naivePartition o g = .ok part ∧
    part.order.Perm (range plan.nodes.length) ∧
    ∀ t i j, Outputs (nodeUses plan) i t → Consumes (nodeUses plan) j t →
      part.order.idxOf i < part.order.idxOf j := by
  obtain ⟨es, hes, hedge⟩ := edges_of_wellProduced o h
  obtain ⟨g, hg, hnodes⟩ := build_nodes o hes
  have hlt : ∀ e ∈ es, e.source < e.target := by
    intro e he
    obtain ⟨t, hi, hj⟩ := (hedge e.source e.target).mp ⟨e, he, rfl, rfl⟩
    exact h.lt hi hj
  have hids := numberNodes_ids plan.pipelineExeNodes
  obtain ⟨hwithin, hacross⟩ := pairwise_flatten.mp (hids ▸ pairwise_lt_range)
  obtain ⟨sorted, hsorted, hlen, hperm, hpair⟩ := topologicalSort_ok o hnodes
    (fun l hl => (hwithin _ (mem_map_of_mem hl)).imp (fun hab => hab.ne)) hlt
  obtain ⟨part, hpart, horder⟩ := naivePartition_ok o hsorted hlen
  have hflat : part.order.Perm (range plan.nodes.length) := by
    rw [horder]
    exact hids ▸ List.Perm.flatten_congr hperm
  -- no consumer stands before its producer, in one pipeline or in two
  have hordered : part.order.Pairwise (fun u v => ¬∃ e ∈ es, e.source = v ∧ e.target = u) := by
    rw [horder, pairwise_flatten]
    refine ⟨hpair, (pairwise_of_forall₂_perm hperm hacross).imp ?_⟩
    rintro a b hab u hu v hv ⟨e, he, rfl, rfl⟩
    have := hab _ hu _ hv
    have := hlt e he
    omega
  refine ⟨g, sorted, part, hg, ?_, hsorted, hpart, hflat, fun t i j hi hj => ?_⟩
  · have hpairs := map_nodes hnodes id
    simp only [id_eq, map_id, List.map_id'] at hpairs
    rw [flatMap_def, hpairs, numberNodes_flatten]
    rfl
  · have hlen : ∀ k, (∃ a, (nodeUses plan)[k]? = some a) → k ∈ part.order := by
      rintro k ⟨a, ha⟩
      rw [hflat.mem_iff, mem_range]
      simpa [nodeUses] using (List.getElem?_eq_some_iff.mp ha).1
    obtain ⟨a, ha, -⟩ := id hi
    obtain ⟨b, hb, -⟩ := id hj
    refine idxOf_lt_of_pairwise hordered (hlen i ⟨a, ha⟩) (hlen j ⟨b, hb⟩) (h.lt hi hj).ne ?_
    exact not_not.mpr ((hedge i j).mpr ⟨t, hi, hj⟩)

/-- For every run of the builder in which each input tensor was output by an earlier
call and by one call only, sorting and partitioning the built graph succeed, every node added is
scheduled exactly once, and the producer of a tensor is scheduled before its consumers. -/
theorem schedule_correct (o : RangeOrder) (partyInfo : List PartyCode) (batched : Bool)
  (steps : List BuilderStep) (calls : List AddCall)
  (hcalls : calls = accepted (GraphBuilder.newGraphBuilder partyInfo batched) steps)
  (h : WellProduced (callUses calls)) : ∃ g sorted part,
    (run (GraphBuilder.newGraphBuilder partyInfo batched) steps).build o = .ok g ∧
    (g.pipelines.flatMap (fun p => p.nodes.map (fun n => (n.id, n.node.inputs, n.node.outputs)))
      = calls.zipIdx.map (fun c => (c.2, c.1.inputs, c.1.outputs))) ∧
    topologicalSort o g = .ok sorted ∧ naivePartition o g = .ok part ∧
    part.order.Perm (range calls.length) ∧
    ∀ t i j, Outputs (callUses calls) i t → Consumes (callUses calls) j t →
      part.order.idxOf i < part.order.idxOf j := by
  have huses : nodeUses (run (GraphBuilder.newGraphBuilder partyInfo batched) steps) =
      callUses calls := by
    rw [hcalls]
    exact nodes_run _ steps
  obtain ⟨g, sorted, part, hg, hnodes, hsorted, hpart, hperm, horder⟩ :=
    schedule_of_nodes o (huses ▸ h)
  have hlen := congrArg length huses
  simp only [nodeUses, callUses, length_map] at hlen
  refine ⟨g, sorted, part, hg, ?_, hsorted, hpart, hlen ▸ hperm, huses ▸ horder⟩
  have hmap := congrArg (map (fun n : ExecutionNode × ℕ =>
    (n.2, n.1.inputs, n.1.outputs))) hnodes
  rw [map_flatMap] at hmap
  simp only [map_map, comp_def] at hmap
  rw [hmap]
  have hzip := congrArg (fun l : Uses => l.zipIdx.map (fun u => (u.2, u.1))) huses
  simpa [nodeUses, callUses, zipIdx_map, map_map, comp_def] using hzip

def argument (name : String) (ts : List ℕ) : Arguments := AList.singleton name ts

def readCall : AddCall :=
  ⟨"runsql", .RunSQL, ∅, argument "Out" [0], ∅, ["alice"]⟩

def shareCall : AddCall :=
  ⟨"make_share", .MakeShare, argument "In" [0], argument "Out" [1], ∅, ["alice", "bob"]⟩

/-- A column read at one party and shared, and a call refused in between because it
outputs a tensor without a status. -/
def readAndShare : List BuilderStep :=
  [.addTensor "a", .modifyTensor 0 (fun t => {t with status := .PRIVATE}),
    .addExecutionNode readCall, .addTensor "b", .addExecutionNode shareCall,
    .modifyTensor 1 (fun t => {t with status := .SECRET}), .addExecutionNode shareCall]

lemma accepted_readAndShare : [readCall, shareCall] =
    accepted (GraphBuilder.newGraphBuilder ["alice", "bob"] true) readAndShare := rfl

lemma wellProduced_readAndShare : WellProduced (callUses [readCall, shareCall]) := by
  constructor
  · rintro j t ⟨a, ha, ht⟩
    match j with
    | 0 =>
      cases ha
      exact absurd ht (by decide +revert)
    | 1 =>
      cases ha
      obtain rfl : t = 0 := by simpa [shareCall, argument, Arguments.tensors] using ht
      exact ⟨0, by omega, _, rfl, by decide⟩
    | n+2 => simp [callUses] at ha
  · rintro i j t ⟨a, ha, hta⟩ ⟨b, hb, htb⟩
    match i, j with
    | 0, 0 => rfl
    | 1, 1 => rfl
    | 0, 1 =>
      cases ha
      cases hb
      simp [readCall, shareCall, argument, Arguments.tensors] at hta htb
      omega
    | 1, 0 =>
      cases ha
      cases hb
      simp [readCall, shareCall, argument, Arguments.tensors] at hta htb
      omega
    | n+2, _ => simp [callUses] at ha
    | _, n+2 => simp [callUses] at hb

theorem schedule_correct_readAndShare : ∃ g sorted part,
    (run (GraphBuilder.newGraphBuilder ["alice", "bob"] true) readAndShare).build
      RangeOrder.reversed = .ok g ∧
    (g.pipelines.flatMap (fun p => p.nodes.map (fun n => (n.id, n.node.inputs, n.node.outputs)))
      = [readCall, shareCall].zipIdx.map (fun c => (c.2, c.1.inputs, c.1.outputs))) ∧
    topologicalSort RangeOrder.reversed g = .ok sorted ∧
    naivePartition RangeOrder.reversed g = .ok part ∧
    part.order.Perm (range 2) ∧
    ∀ t i j, Outputs (callUses [readCall, shareCall]) i t →
      Consumes (callUses [readCall, shareCall]) j t →
      part.order.idxOf i < part.order.idxOf j :=
  schedule_correct RangeOrder.reversed ["alice", "bob"] true readAndShare [readCall, shareCall]
    accepted_readAndShare wellProduced_readAndShare

def notCall (input output : ℕ) : AddCall :=
  ⟨"not", .Not, argument "In" [input], argument "Out" [output], ∅, ["alice"]⟩

/-- The second negation writes the column that the first one reads. -/
def rewriteColumn : List BuilderStep :=
  [.addTensor "a", .modifyTensor 0 (fun t => {t with status := .PRIVATE}),
    .addExecutionNode readCall, .addTensor "b",
    .modifyTensor 1 (fun t => {t with status := .PRIVATE}),
    .addExecutionNode (notCall 0 1), .addExecutionNode (notCall 1 0)]

/-- Although every input was output by an earlier call, the nodes depend on each other in a
circle: the edges start at the last producer of a tensor. -/
theorem circle_rewriteColumn :
  ProducedEarlier (callUses (accepted (.newGraphBuilder ["alice"] true) rewriteColumn)) ∧
  ∃ g, (run (.newGraphBuilder ["alice"] true) rewriteColumn).build .inserted = .ok g ∧
    topologicalSort .inserted g = .error .circle := by
  have hcalls : accepted (.newGraphBuilder ["alice"] true) rewriteColumn =
      [readCall, notCall 0 1, notCall 1 0] := rfl
  refine ⟨?_, ?_⟩
  · rw [hcalls]
    rintro j t ⟨a, ha, ht⟩
    match j with
    | 0 =>
      cases ha
      exact absurd ht (by decide +revert)
    | 1 =>
      cases ha
      obtain rfl : t = 0 := by simpa [notCall, argument, Arguments.tensors] using ht
      exact ⟨0, by omega, _, rfl, by decide⟩
    | 2 =>
      cases ha
      obtain rfl : t = 1 := by simpa [notCall, argument, Arguments.tensors] using ht
      exact ⟨1, by omega, _, rfl, by decide⟩
    | n+3 => simp [callUses] at ha
  · exact ⟨_, rfl, by decide +kernel⟩

end Scql.ExecutionSchedule
