import Scql.ExecutionSchedule

/-! # What pipelines hand to each other

The inputs and the outputs of the pipelines of a batched graph are found by comparing the tensors
of their nodes. They fit together because the nodes of the pipelines are in the order in which
they were added. -/
namespace Scql.ExecutionSchedule

open MapRange ColumnControl OperatorRegistry ExecutionGraph Fallible List
open GraphBuilder (newGraphBuilder)

variable {status : ℕ → TensorStatus} {ps qs : List Pipeline} {pl : Pipeline} {plan : GraphBuilder}
    {t : ℕ}

lemma fillOutputs_inputs (ps : List Pipeline) :
  (Pipeline.fillOutputs ps).map (·.inputTensors) = ps.map (·.inputTensors) := by
  induction ps with
  | nil => rfl
  | cons p ps ih => simp [Pipeline.fillOutputs, ih]

variable {pls : List Pipeline}

lemma fillPipeline_split (h : fillPipeline status pls = ps ++ pl::qs) :
  pl.inputTensors = sliceDeDup (pl.inputIds.filter (fun t => t ∉ pl.outputIds)) ∧ pl.outputTensors =
      sliceDeDup ((qs.flatMap (·.inputTensors)).filter (fun t => t ∈ pl.outputIds)) ∧
    (pl.batched = true → ∀ t ∈ pl.inputIds ++ pl.outputIds, status t = .PRIVATE) := by
  induction ps generalizing pls with
  | nil =>
    cases pls with
    | nil => cases h
    | cons p pls =>
      rw [fillPipeline, map_cons, Pipeline.fillOutputs, nil_append] at h
      obtain ⟨rfl, rfl⟩ := cons.inj h
      refine ⟨rfl, ?_, ?_⟩
      · rw [flatMap_def, flatMap_def, fillOutputs_inputs]
        rfl
      · intro hbatched t ht
        have hall := (Bool.and_eq_true_iff.mp hbatched).2
        exact beq_iff_eq.mp (all_eq_true.mp hall t ht)
  | cons q ps ih =>
    cases pls with
    | nil => cases h
    | cons p pls =>
      rw [fillPipeline, map_cons, Pipeline.fillOutputs, cons_append] at h
      exact ih (cons.inj h).2

/-- The outputs of a pipeline, if no later one produces the tensor again. -/
lemma mem_outputTensors (h : fillPipeline status pls = ps ++ pl::qs)
  (honce : t ∈ pl.outputIds → ∀ q ∈ qs, t ∉ q.outputIds) :
  t ∈ pl.outputTensors ↔ t ∈ pl.outputIds ∧ ∃ q ∈ qs, t ∈ q.inputIds := by
  rw [(fillPipeline_split h).2.1, mem_sliceDeDup, mem_filter, decide_eq_true_eq, and_comm,
    mem_flatMap]
  refine and_congr_right fun ht => exists_congr fun q => and_congr_right fun hq => ?_
  have hnot := honce ht q hq
  obtain ⟨as, bs, rfl⟩ := append_of_mem hq
  rw [← cons_append, ← append_assoc] at h
  simp [(fillPipeline_split h).1, hnot]

/-- The nodes of a pipeline with their numbers. -/
def numbered (p : Pipeline) : List (ExecutionNode × ℕ) := p.nodes.map (fun n => (n.node, n.id))

lemma mem_inputIds : t ∈ pl.inputIds ↔ ∃ n ∈ numbered pl, t ∈ n.1.inputs.tensors := by
  simp [Pipeline.inputIds, numbered]

lemma mem_outputIds : t ∈ pl.outputIds ↔ ∃ n ∈ numbered pl, t ∈ n.1.outputs.tensors := by
  simp [Pipeline.outputIds, numbered]

/-- The nodes of the pipelines are those of the builder, in their order. -/
structure Ordered (plan : GraphBuilder) (pls : List Pipeline) : Prop where
  nodes : pls.flatMap numbered = plan.nodes.zipIdx
  produced : WellProduced (nodeUses plan)

lemma Ordered.pairwise (h : Ordered plan (ps ++ pl::qs)) :
  (∀ q ∈ ps, ∀ m ∈ numbered q, ∀ n ∈ numbered pl, m.2 < n.2) ∧
    ∀ q ∈ qs, ∀ n ∈ numbered pl, ∀ m ∈ numbered q, n.2 < m.2 := by
  have hsorted : (plan.nodes.zipIdx.map (·.2)).Pairwise (· < ·) := by
    rw [zipIdx_map_snd]
    exact pairwise_lt_range'
  rw [← h.nodes, flatMap_append, flatMap_cons, pairwise_map, pairwise_append,
    pairwise_append] at hsorted
  refine ⟨fun q hq m hm n hn => ?_, fun q hq n hn m hm => ?_⟩
  · exact hsorted.2.2 m (mem_flatMap.mpr ⟨q, hq, hm⟩) n (mem_append_left _ hn)
  · exact hsorted.2.1.2.2 n hn m (mem_flatMap.mpr ⟨q, hq, hm⟩)

lemma Ordered.getElem? (h : Ordered plan pls) (hpl : pl ∈ pls)
  {n : ExecutionNode × ℕ} (hn : n ∈ numbered pl) : plan.nodes[n.2]? = some n.1 := by
  rw [← mem_zipIdx_iff_getElem?, ← h.nodes]
  exact mem_flatMap.mpr ⟨pl, hpl, hn⟩

lemma mem_append_cons {q : Pipeline} (h : q ∈ ps ++ qs) : q ∈ ps ++ pl::qs :=
  ((sublist_cons_self pl qs).append_left ps).subset h

section
variable (h : Ordered plan (ps ++ pl::qs))
include h

/-- No other pipeline produces what a pipeline produces. -/
lemma Ordered.once (ht : t ∈ pl.outputIds) : ∀ q ∈ ps ++ qs, t ∉ q.outputIds := by
  intro q hq hq'
  obtain ⟨n, hn, hnt⟩ := mem_outputIds.mp ht
  obtain ⟨m, hm, hmt⟩ := mem_outputIds.mp hq'
  have hsame : m.2 = n.2 := by
    refine h.produced.once _ _ t ?_ ?_
    · exact (outputs_nodeUses_iff ..).mpr ⟨_, h.getElem? (mem_append_cons hq) hm, hmt⟩
    · exact (outputs_nodeUses_iff ..).mpr ⟨_, h.getElem? (by simp) hn, hnt⟩
  rcases mem_append.mp hq with hq | hq
  · exact (h.pairwise.1 q hq m hm n hn).ne hsame
  · exact (h.pairwise.2 q hq n hn m hm).ne' hsame

lemma Ordered.once_later (ht : t ∈ pl.outputIds) :
  ∀ q ∈ qs, t ∉ q.outputIds := fun q hq => h.once ht q (mem_append_right _ hq)

lemma Ordered.earlier (hin : t ∈ pl.inputIds) (hout : t ∉ pl.outputIds) :
    ∃ q ∈ ps, t ∈ q.outputIds := by
  obtain ⟨n, hn, hnt⟩ := mem_inputIds.mp hin
  obtain ⟨i, hi, hiout⟩ := h.produced.earlier n.2 t
    ((consumes_nodeUses_iff ..).mpr ⟨_, h.getElem? (by simp) hn, hnt⟩)
  obtain ⟨m, hm, hmt⟩ := (outputs_nodeUses_iff ..).mp hiout
  rw [← mem_zipIdx_iff_getElem? (x := (m, i)), ← h.nodes] at hm
  obtain ⟨q, hq, hmq⟩ := mem_flatMap.mp hm
  have hq' := mem_outputIds.mpr ⟨_, hmq, hmt⟩
  rcases mem_append.mp hq with hq | hq
  · exact ⟨q, hq, hq'⟩
  · rcases mem_cons.mp hq with rfl | hq
    · exact absurd hq' hout
    · exact absurd (h.pairwise.2 q hq n hn _ hmq) hi.not_gt

end

lemma sorted_sliceDeDup (s : List ℕ) : (sliceDeDup s).Pairwise (· < ·) := by
  have hle : (sliceDeDup s).Pairwise (· ≤ ·) :=
    (pairwise_insertionSort (· ≤ ·) s).sublist (destutter_sublist _ _)
  exact (hle.and (nodup_sliceDeDup s)).imp fun h => lt_of_le_of_ne h.1 h.2

/-- The interface of a pipeline between the pipelines before it and those after it. -/
structure Exact (status : ℕ → TensorStatus) (ps : List Pipeline) (pl : Pipeline)
    (qs : List Pipeline) : Prop where
  inputs_sorted : pl.inputTensors.Pairwise (· < ·)
  inputs : ∀ t, t ∈ pl.inputTensors ↔ t ∈ pl.inputIds ∧ t ∉ pl.outputIds
  outputs_sorted : pl.outputTensors.Pairwise (· < ·)
  outputs : ∀ t, t ∈ pl.outputTensors ↔ t ∈ pl.outputIds ∧ ∃ q ∈ qs, t ∈ q.inputIds
  batched : pl.batched = true → ∀ t ∈ pl.inputIds ++ pl.outputIds, status t = .PRIVATE
  produced : ∀ t ∈ pl.inputTensors, ∃ as q bs, ps = as ++ q::bs ∧ t ∈ q.outputTensors ∧
    ∀ q' ∈ as ++ bs, t ∉ q'.outputTensors

lemma Exact.countP_producers (h : Exact status ps pl qs) (ht : t ∈ pl.inputTensors) :
  ps.countP (fun q => t ∈ q.outputTensors) = 1 := by
  obtain ⟨as, q, bs, rfl, hq, honly⟩ := h.produced t ht
  have hnone : (as ++ bs).countP (fun q => t ∈ q.outputTensors) = 0 :=
    countP_eq_zero.mpr fun q' hq' => by simpa using honly q' hq'
  rw [countP_append] at hnone
  rw [countP_append, countP_cons_of_pos (by simpa using hq)]
  omega

lemma mem_outputIds_of_filled {pls' : List Pipeline} (hfill : fillPipeline status pls = pls')
  (hpl : pl ∈ pls') (ht : t ∈ pl.outputTensors) : t ∈ pl.outputIds := by
  obtain ⟨ps, qs, rfl⟩ := append_of_mem hpl
  rw [(fillPipeline_split hfill).2.1, mem_sliceDeDup] at ht
  exact of_decide_eq_true (mem_filter.mp ht).2

lemma exact_of_ordered (hfill : fillPipeline status pls = ps ++ pl::qs)
  (h : Ordered plan (ps ++ pl::qs)) : Exact status ps pl qs := by
  obtain ⟨hinputs, houtputs, hbatched⟩ := fillPipeline_split hfill
  have hmem : ∀ t, t ∈ pl.inputTensors ↔ t ∈ pl.inputIds ∧ t ∉ pl.outputIds := by
    simp [hinputs]
  refine ⟨hinputs ▸ sorted_sliceDeDup _, hmem, houtputs ▸ sorted_sliceDeDup _,
    fun t => mem_outputTensors hfill h.once_later, hbatched, fun t ht => ?_⟩
  obtain ⟨hin, hout⟩ := (hmem t).mp ht
  obtain ⟨q, hq, hqt⟩ := h.earlier hin hout
  obtain ⟨as, bs, rfl⟩ := append_of_mem hq
  rw [append_assoc, cons_append] at hfill h
  refine ⟨as, q, bs, rfl, (mem_outputTensors hfill h.once_later).mpr ⟨hqt, pl, by simp, hin⟩,
    fun q' hq' ht' => ?_⟩
  have hmem : q' ∈ as ++ (bs ++ pl::qs) := by
    rw [← append_assoc]
    exact mem_append_left _ hq'
  exact h.once hqt q' hmem (mem_outputIds_of_filled hfill (mem_append_cons hmem) ht')

lemma batched_step (s : BuilderStep) : (step plan s).batched = plan.batched := by
  cases s with
  | addTensor | modifyTensor => rfl
  | addExecutionNode c =>
    cases hc : c.apply plan with
    | error e => simp [step, hc, Except.toOption]
    | ok plan' =>
      simp only [step, hc, Except.toOption, Option.getD_some]
      obtain ⟨-, -, h⟩ := bind_eq_ok.mp hc
      cases h
      rfl

lemma batched_run (steps : List BuilderStep) : (run plan steps).batched = plan.batched := by
  induction steps generalizing plan with
  | nil => rfl
  | cons s steps ih => exact ih.trans (batched_step s)

lemma pipelines_of_build {o : RangeOrder} {g : Graph} (h : plan.build o = .ok g)
  (hbatched : plan.batched = true) : ∃ pls, fillPipeline plan.status pls = g.pipelines := by
  obtain ⟨es, -, h⟩ := bind_eq_ok.mp h
  cases h
  exact ⟨_, (if_pos hbatched).symm⟩

/-- In every run of a batched builder in which each input tensor was output by an earlier call and
no tensor is output twice, the pipelines of the graph have exact interfaces. -/
theorem interfaces_exact (o : RangeOrder) (partyInfo : List PartyCode) (steps : List BuilderStep)
  (h : WellProduced (callUses (accepted (newGraphBuilder partyInfo true) steps))) :
  ∃ g, (run (newGraphBuilder partyInfo true) steps).build o = .ok g ∧
    ∀ ps pl qs, g.pipelines = ps ++ pl::qs →
      Exact (run (newGraphBuilder partyInfo true) steps).status ps pl qs := by
  have huses : WellProduced (nodeUses (run (newGraphBuilder partyInfo true) steps)) := by
    rw [nodeUses, nodes_run]
    exact h
  obtain ⟨g, -, -, hg, hnodes, -⟩ := schedule_of_nodes o huses
  refine ⟨g, hg, fun ps pl qs hsplit => ?_⟩
  obtain ⟨pls, hfill⟩ := pipelines_of_build hg (batched_run steps)
  rw [hsplit] at hfill hnodes
  exact exact_of_ordered hfill ⟨hnodes, huses⟩

theorem interfaces_readAndShare : ∃ g,
  (run (newGraphBuilder ["alice", "bob"] true) readAndShare).build .reversed = .ok g ∧
    ∀ ps pl qs, g.pipelines = ps ++ pl::qs →
      Exact (run (newGraphBuilder ["alice", "bob"] true) readAndShare).status ps pl qs :=
  interfaces_exact .reversed ["alice", "bob"] readAndShare
    (accepted_readAndShare ▸ wellProduced_readAndShare)

def shareAs (output : ℕ) : AddCall := {shareCall with outputs := argument "Out" [output]}

/-- The column is read and shared twice, both times under the number of one tensor. -/
def readTwice : List BuilderStep :=
  [.addTensor "a", .modifyTensor 0 (fun t => {t with status := .PRIVATE}), .addTensor "b",
    .modifyTensor 1 (fun t => {t with status := .SECRET}), .addTensor "c",
    .modifyTensor 2 (fun t => {t with status := .SECRET}), .addExecutionNode readCall,
    .addExecutionNode (shareAs 1), .addExecutionNode readCall, .addExecutionNode (shareAs 2)]

/-- The builder accepts a node that reads a tensor before it is written, and nodes that write one
tensor twice, although each input was output earlier. -/
theorem not_exact_shareFirst : (∃ steps g pl qs,
  (run (newGraphBuilder ["alice", "bob"] true) steps).build .reversed = .ok g ∧
    g.pipelines = [] ++ pl::qs ∧
    ¬Exact (run (newGraphBuilder ["alice", "bob"] true) steps).status [] pl qs) ∧
  ProducedEarlier (callUses (accepted (newGraphBuilder ["alice", "bob"] true) readTwice)) ∧
  ∃ g ps pl, (run (newGraphBuilder ["alice", "bob"] true) readTwice).build .reversed = .ok g ∧
    g.pipelines = ps ++ [pl] ∧
    ¬Exact (run (newGraphBuilder ["alice", "bob"] true) readTwice).status ps pl [] := by
  refine ⟨⟨[.addTensor "a", .modifyTensor 0 (fun t => {t with status := .PRIVATE}), .addTensor "b",
    .modifyTensor 1 (fun t => {t with status := .SECRET}), .addExecutionNode shareCall,
    .addExecutionNode readCall], _, _, _, rfl, rfl, fun h => ?_⟩, ?_, ?_⟩
  · obtain ⟨as, q, bs, hnil, -⟩ := h.produced 0 (by decide)
    cases as <;> cases hnil
  · have hcalls : accepted (newGraphBuilder ["alice", "bob"] true) readTwice =
        [readCall, shareAs 1, readCall, shareAs 2] := rfl
    rw [hcalls]
    rintro j t ⟨a, ha, ht⟩
    refine ⟨0, ?_, _, rfl, ?_⟩
    · match j with
      | 0 =>
        cases ha
        exact absurd ht (by decide +revert)
      | n+1 => omega
    · match j with
      | 0 | 2 =>
        cases ha
        exact absurd ht (by decide +revert)
      | 1 | 3 =>
        cases ha
        obtain rfl : t = 0 := by simpa [shareAs, shareCall, argument, Arguments.tensors] using ht
        decide
      | n+4 => simp [callUses] at ha
  · refine ⟨_, [_, _, _], _, rfl, rfl, fun h => ?_⟩
    exact absurd (h.countP_producers (t := 0) (by decide)) (by decide)

end Scql.ExecutionSchedule
