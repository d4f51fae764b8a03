import Mathlib.Data.Nat.Pairing
import Scql.ExecutionSchedule
import Scql.MapUpdates

/-! # Mapping a partitioned graph to the parties

Every party gets a plan with the same pipelines and sub-DAGs. In a sub-DAG the nodes are dealt out
to workers; a party's jobs are the nodes it takes part in, by worker. -/
namespace Scql.GraphMapper

open MapRange MapUpdates ColumnControl OperatorRegistry ExecutionGraph List Function

def workerNumLevel1 : ℕ := 8

def workerNumLevel2 : ℕ := 16

structure ParallelJobs where
  /-- From worker id to node ids. -/
  jobs : AList (fun _ : ℕ => List ℕ) := ∅
  needCallBarrierAfterJobs : Bool := false
  needSyncSymbolBeforeJobs : Bool := false

structure PipelineJobs where
  batched : Bool := false
  inputTensors : List ℕ := []
  outputTensors : List ℕ := []
  jobs : List ParallelJobs := []

structure ExecutionPlan where
  nodes : AList (fun _ : ℕ => ExecutionNode) := ∅
  workerNumber : ℕ
  pipelineJobs : List PipelineJobs

def newExecutionPlan (workerNum pipelinesNum : ℕ) : ExecutionPlan where
  workerNumber := workerNum
  pipelineJobs := replicate pipelinesNum {}

abbrev Codes := AList (fun _ : PartyCode => ExecutionPlan)

abbrev SubDAG := List GraphNode

structure Pipeline where
  batched : Bool
  inputTensors : List ℕ
  outputTensors : List ℕ
  subDAGs : List SubDAG

/-- `syncedTensorMap` tells of the tensors seen so far whether they have been synced. -/
structure Mapper where
  codes : Codes := ∅
  syncedTensorMap : AList (fun _ : ℕ => Bool) := ∅

def inferenceWorkerNumber (pipelines : List Pipeline) : ℕ :=
  let workerNum := (pipelines.flatMap (·.subDAGs)).foldl (fun w dag => max w dag.length) 1
  if workerNum ≤ workerNumLevel1 then workerNum
  else if workerNum > workerNumLevel2 then workerNumLevel1
  else workerNum/2

/-- Nodes of several parties first, both groups by their number. -/
def sortedNodes (nodes : SubDAG) : List GraphNode :=
  let byId (ns : List GraphNode) := ns.insertionSort (fun m n => m.id ≤ n.id)
  byId (nodes.filter (fun n => n.node.parties.length ≠ 1)) ++
    byId (nodes.filter (fun n => n.node.parties.length = 1))

/-- A party's copy of a node does not list the parties. -/
def splitExecutionNode (n : GraphNode) : AList (fun _ : PartyCode => ExecutionNode) :=
  n.node.parties.foldl (fun m p => m.insert p {n.node with parties := []}) ∅

def ParallelJobs.add (pj : ParallelJobs) (workerID id : ℕ) : ParallelJobs :=
  {pj with jobs := pj.jobs.insert workerID ((pj.jobs.lookup workerID).getD [] ++ [id])}

/-- The copy of the `i`-th node for one party. A party that the graph does not know has no
jobs to add to. -/
def assignTo (workerNum pipelinesNum : ℕ) (n : GraphNode) (i : ℕ)
    (s : Codes × AList (fun _ : PartyCode => ParallelJobs))
      (copy : (_ : PartyCode) × ExecutionNode) :
    Option (Codes × AList (fun _ : PartyCode => ParallelJobs)) := do
  let codes := getOrCreate copy.1 (newExecutionPlan workerNum pipelinesNum) s.1
  let plan ← codes.lookup copy.1
  let codes := codes.insert copy.1 {plan with nodes := plan.nodes.insert n.id copy.2}
  let jobs ← adjust copy.1 (·.add (i%plan.workerNumber) n.id) s.2
  return (codes, jobs)

/-- Add the jobs of one party as its next sub-DAG of pipeline `i`. -/
def appendJobs (workerNum pipelinesNum i : ℕ) (codes : Codes)
    (jobs : (_ : PartyCode) × ParallelJobs) : Option Codes :=
  adjust jobs.1 (fun plan => { plan with
      pipelineJobs := plan.pipelineJobs.modify i (fun pl => {pl with jobs := pl.jobs ++ [jobs.2]})})
    (getOrCreate jobs.1 (newExecutionPlan workerNum pipelinesNum) codes)

def ExecutionPlan.jobsAt (plan : ExecutionPlan) (i j : ℕ) : Option ParallelJobs := do
  let pl ← plan.pipelineJobs[i]?
  pl.jobs[j]?

def ExecutionPlan.modifyJobs (plan : ExecutionPlan) (i j : ℕ) (f : ParallelJobs → ParallelJobs) :
    ExecutionPlan :=
  { plan with
    pipelineJobs := plan.pipelineJobs.modify i (fun pl => {pl with jobs := pl.jobs.modify j f})}

def workingParties (i j : ℕ) (codes : Codes) : List ((_ : PartyCode) × ExecutionPlan) :=
  codes.entries.filter (fun e => (e.2.jobsAt i j).elim false (·.jobs.entries ≠ []))

def inferenceNeedCallBarrier (i j : ℕ) (codes : Codes) : Option Codes := do
  guard (∀ e ∈ codes.entries, (e.2.jobsAt i j).isSome)
  if (workingParties i j codes).length > 1 then
    return mapValues (·.modifyJobs i j (fun pj => {pj with needCallBarrierAfterJobs := true})) codes
  else return codes

def needSyncSymbol (n : ExecutionNode) : Bool :=
  n.opType = .Replicate ∨ n.opType = .MakeShare

def isInputsSynced (synced : AList (fun _ : ℕ => Bool)) (n : ExecutionNode) : Bool :=
  n.inputs.tensors.all (fun t => (synced.lookup t).getD false)

def updateSyncedTensorMap (synced : AList (fun _ : ℕ => Bool)) (ts : List ℕ) :
    AList (fun _ : ℕ => Bool) :=
  ts.foldl (fun synced t => synced.insert t ((synced.lookup t).getD false)) synced

def ExecutionPlan.nodesAt (plan : ExecutionPlan) (i j : ℕ) : List ExecutionNode :=
  (plan.jobsAt i j).elim [] (fun pj =>
    (pj.jobs.entries.flatMap (·.2)).filterMap (plan.nodes.lookup ·))

/-- One party, whichever is visited first, decides whether everything seen so far counts as
synced. -/
def inferenceNeedSyncSymbol (o : RangeOrder) (i j : ℕ) (m : Mapper) : Mapper :=
  let needs (plan : ExecutionPlan) : Bool := (plan.nodesAt i j).any (fun n =>
    needSyncSymbol n && !isInputsSynced m.syncedTensorMap n)
  let codes := mapValues (fun plan => if needs plan then
    plan.modifyJobs i j (fun pj => {pj with needSyncSymbolBeforeJobs := true}) else plan) m.codes
  let first := (o.range 13 (Nat.pair i j) codes.entries).head?.bind (·.2.jobsAt i j)
  let synced := if first.elim false (·.needSyncSymbolBeforeJobs) then
    mapValues (fun _ => true) m.syncedTensorMap else m.syncedTensorMap
  { codes
    syncedTensorMap := (codes.entries.flatMap (·.2.nodesAt i j)).foldl
      (fun synced n => updateSyncedTensorMap synced n.outputs.tensors) synced}

def setBatched (i : ℕ) (batched : Bool) (plan : ExecutionPlan) : ExecutionPlan :=
  {plan with pipelineJobs := plan.pipelineJobs.modify i (fun pl => {pl with batched})}

/-- The jobs of every party in one sub-DAG, before they are added to the plans. -/
def dealNodes (o : RangeOrder) (workerNum pipelinesNum pos : ℕ) (partyInfo : List PartyCode)
    (nodes : SubDAG) (codes : Codes) :
    Option (Codes × AList (fun _ : PartyCode => ParallelJobs)) :=
  let parallelJobs := partyInfo.foldl (fun m p => m.insert p {}) ∅
  (sortedNodes (o.range 8 pos nodes)).zipIdx.foldlM (fun s n =>
    (o.range 9 (Nat.pair pos n.2) (splitExecutionNode n.1).entries).foldlM
      (assignTo workerNum pipelinesNum n.1 n.2) s) (codes, parallelJobs)

def mapSubDAG (o : RangeOrder) (partyInfo : List PartyCode) (pipelines : List Pipeline)
    (i j : ℕ) (batched : Bool) (m : Mapper) (nodes : SubDAG) : Option Mapper := do
  let workerNum := inferenceWorkerNumber pipelines
  let (codes, parallelJobs) ← dealNodes o workerNum pipelines.length (Nat.pair i j) partyInfo nodes
    m.codes
  let codes ← (o.range 10 (Nat.pair i j) parallelJobs.entries).foldlM
    (appendJobs workerNum pipelines.length i) codes
  let codes := mapValues (setBatched i batched) codes
  let codes ← inferenceNeedCallBarrier i j codes
  return inferenceNeedSyncSymbol o i j {m with codes}

/-- A tensor goes to its owner's plan, which has to exist. -/
def addTensor (tensors : List Tensor) (f : ℕ → ExecutionPlan → ExecutionPlan) (codes : Codes)
    (t : ℕ) : Option Codes := do
  let tensor ← tensors[t]?
  adjust tensor.ownerPartyCode (f t) codes

def mapPipeline (o : RangeOrder) (graph : Graph) (pipelines : List Pipeline) (m : Mapper)
    (p : Pipeline × ℕ) : Option Mapper := do
  let m ← p.1.subDAGs.zipIdx.foldlM (fun m dag =>
    mapSubDAG o graph.partyInfo pipelines p.2 dag.2 p.1.batched m dag.1) m
  if p.1.batched then
    let codes ← p.1.inputTensors.foldlM (addTensor graph.tensors (fun t plan => { plan with
      pipelineJobs := plan.pipelineJobs.modify p.2
        (fun pl => {pl with inputTensors := pl.inputTensors ++ [t]})})) m.codes
    let codes ← p.1.outputTensors.foldlM (addTensor graph.tensors (fun t plan => { plan with
      pipelineJobs := plan.pipelineJobs.modify p.2
        (fun pl => {pl with outputTensors := pl.outputTensors ++ [t]})})) codes
    return {m with codes}
  else return m

/-- `GraphMapper.Map`; `none` where the source dereferences a missing plan. -/
def map (o : RangeOrder) (graph : Graph) (pipelines : List Pipeline) : Option Codes := do
  let m ← pipelines.zipIdx.foldlM (mapPipeline o graph pipelines) {}
  return m.codes

variable {W N : ℕ}

lemma sortedNodes_perm (nodes : SubDAG) : (sortedNodes nodes).Perm nodes := by
  refine (List.Perm.append (perm_insertionSort _ _) (perm_insertionSort _ _)).trans ?_
  have hsplit := filter_append_perm (fun n : GraphNode => decide (n.node.parties.length ≠ 1)) nodes
  simpa using hsplit

lemma sortedNodes_congr {nodes nodes' : SubDAG} (hperm : nodes'.Perm nodes)
  (hids : (nodes.map (·.id)).Nodup) : sortedNodes nodes' = sortedNodes nodes := by
  have hsort : ∀ p : GraphNode → Bool, (nodes'.filter p).insertionSort (fun m n => m.id ≤ n.id) =
        (nodes.filter p).insertionSort (fun m n => m.id ≤ n.id) := by
    intro p
    refine Perm.eq_of_pairwise ?_ (pairwise_insertionSort _ _)
      (pairwise_insertionSort _ _) (((perm_insertionSort _ _).trans
        (hperm.filter p)).trans (perm_insertionSort _ _).symm)
    intro m n hm hn hmn hnm
    have hm : m ∈ nodes :=
      hperm.mem_iff.mp (mem_of_mem_filter ((perm_insertionSort _ _).mem_iff.mp hm))
    have hn : n ∈ nodes := mem_of_mem_filter ((perm_insertionSort _ _).mem_iff.mp hn)
    exact inj_on_of_nodup_map hids hm hn (Nat.le_antisymm hmn hnm)
  simp only [sortedNodes, hsort]

def shareOf (p : PartyCode) (l : List (GraphNode × ℕ)) : List (GraphNode × ℕ) :=
  l.filter (fun n => p ∈ n.1.node.parties)

lemma shareOf_append_singleton (p : PartyCode) (l : List (GraphNode × ℕ)) (n : GraphNode × ℕ) :
  shareOf p (l ++ [n]) = shareOf p l ++ if p ∈ n.1.node.parties then [n] else [] := by
  rw [shareOf, shareOf, filter_append, filter_singleton]
  simp

/-- The jobs of one party if the nodes are dealt out to it alone. -/
def dealt (W : ℕ) (p : PartyCode) (l : List (GraphNode × ℕ)) : ParallelJobs :=
  (shareOf p l).foldl (fun pj n => pj.add (n.2%W) n.1.id) {}

variable (p : PartyCode)

lemma dealt_append_singleton (l : List (GraphNode × ℕ)) (n : GraphNode × ℕ) : dealt W p (l ++ [n]) =
    if p ∈ n.1.node.parties then (dealt W p l).add (n.2%W) n.1.id else dealt W p l := by
  rw [dealt, dealt, shareOf_append_singleton, foldl_append]
  split_ifs <;> rfl

def workerShare (W : ℕ) (p : PartyCode) (w : ℕ) (l : List (GraphNode × ℕ)) : List ℕ :=
  ((shareOf p l).filter (fun n => n.2%W = w)).map (·.1.id)

lemma workerShare_append_singleton (w : ℕ) (l : List (GraphNode × ℕ)) (n : GraphNode × ℕ) :
  workerShare W p w (l ++ [n]) =
    workerShare W p w l ++ if p ∈ n.1.node.parties ∧ n.2%W = w then [n.1.id] else [] := by
  rw [workerShare, workerShare, shareOf, shareOf, filter_append, filter_append, map_append]
  congr 1
  by_cases hp : p ∈ n.1.node.parties <;> by_cases hw : n.2%W = w <;> simp [hp, hw]

lemma lookup_dealt (w : ℕ) (l : List (GraphNode × ℕ)) : (dealt W p l).jobs.lookup w =
    if workerShare W p w l = [] then none else some (workerShare W p w l) := by
  induction l using reverseRecOn with
  | nil => rfl
  | append_singleton l n ih =>
    rw [dealt_append_singleton, workerShare_append_singleton]
    by_cases hp : p ∈ n.1.node.parties
    · rw [if_pos hp]
      by_cases hw : n.2%W = w
      · subst hw
        simp only [ParallelJobs.add, AList.lookup_insert, ih, hp]
        by_cases hnil : workerShare W p (n.2%W) l = [] <;> simp [hnil]
      · simp only [ParallelJobs.add, AList.lookup_insert_ne (Ne.symm hw), ih]
        simp [hw]
    · rw [if_neg hp, ih]
      simp [hp]

lemma dealt_flags (l : List (GraphNode × ℕ)) : (dealt W p l).needCallBarrierAfterJobs = false := by
  induction l using reverseRecOn with
  | nil => rfl
  | append_singleton l n ih =>
    rw [dealt_append_singleton]
    split
    · exact ih
    · exact ih

/-- A party's plan; one without a plan would get an empty one. -/
def planOf (W N : ℕ) (codes : Codes) (p : PartyCode) : ExecutionPlan :=
  (codes.lookup p).getD (newExecutionPlan W N)

lemma planOf_getOrCreate (codes : Codes) (k p : PartyCode) :
  planOf W N (getOrCreate k (newExecutionPlan W N) codes) p = planOf W N codes p := by
  rw [planOf, planOf, lookup_getOrCreate]
  split
  · next h => rw [h, Option.getD_some]
  · rfl

lemma mem_getOrCreate (codes : Codes) (k p : PartyCode) :
  p ∈ getOrCreate k (newExecutionPlan W N) codes ↔ p = k ∨ p ∈ codes := by
  rw [← AList.lookup_isSome, lookup_getOrCreate, ← AList.lookup_isSome]
  split
  · next h => simp [h]
  · next h => simp [h]

def copyOf (n : GraphNode) : ExecutionNode := {n.node with parties := []}

def ExecutionPlan.addNode (plan : ExecutionPlan) (n : GraphNode) : ExecutionPlan :=
  {plan with nodes := plan.nodes.insert n.id (copyOf n)}

/-- What dealing a node to some parties does to all of them. -/
structure Assigned (W N : ℕ) (n : GraphNode) (i : ℕ) (ps : List PartyCode)
    (s s' : Codes × AList (fun _ : PartyCode => ParallelJobs)) : Prop where
  plan : ∀ p, planOf W N s'.1 p = if p ∈ ps then (planOf W N s.1 p).addNode n else planOf W N s.1 p
  mem : ∀ p, p ∈ s'.1 ↔ p ∈ ps ∨ p ∈ s.1
  jobs : ∀ p, s'.2.lookup p = if p ∈ ps then
    (s.2.lookup p).map (·.add (i%(planOf W N s.1 p).workerNumber) n.id) else s.2.lookup p

lemma Assigned.refl (n : GraphNode) (i : ℕ)
  (s : Codes × AList (fun _ : PartyCode => ParallelJobs)) : Assigned W N n i [] s s :=
  ⟨fun _ => by simp, fun _ => by simp, fun _ => by simp⟩

variable {n : GraphNode} {i : ℕ} {s : Codes × AList (fun _ : PartyCode => ParallelJobs)}

lemma assignTo_assigned {p : PartyCode} (hp : p ∈ s.2) :
  ∃ s', assignTo W N n i s ⟨p, copyOf n⟩ = some s' ∧ Assigned W N n i [p] s s' := by
  have hlookup : (getOrCreate p (newExecutionPlan W N) s.1).lookup p = some (planOf W N s.1 p) := by
    simp [lookup_getOrCreate, planOf]
  obtain ⟨jobs, hjobs⟩ := adjust_isSome (·.add (i%(planOf W N s.1 p).workerNumber) n.id) hp
  refine ⟨_, by simp only [assignTo, hlookup, hjobs, Option.bind_eq_bind, Option.bind_some]; rfl,
    fun q => ?_, fun q => ?_, fun q => ?_⟩
  · by_cases hq : q = p
    · subst hq
      simp [planOf, ExecutionPlan.addNode]
    · have := planOf_getOrCreate (W := W) (N := N) s.1 p q
      rw [planOf] at this ⊢
      rw [AList.lookup_insert_ne hq, this]
      simp [hq]
  · rw [AList.mem_insert, mem_getOrCreate]
    simp
  · simp only [lookup_of_adjust hjobs q, mem_singleton]
    split
    · next h => rw [h]
    · rfl

lemma Assigned.trans {ps : List PartyCode} {p : PartyCode}
  {s' s'' : Codes × AList (fun _ : PartyCode => ParallelJobs)} (hp : p ∉ ps)
  (h : Assigned W N n i ps s s') (h' : Assigned W N n i [p] s' s'') :
  Assigned W N n i (ps ++ [p]) s s'' := by
  refine ⟨fun q => ?_, fun q => ?_, fun q => ?_⟩
  · rw [h'.plan, h.plan]
    by_cases hq : q = p
    · subst hq
      simp [hp]
    · simp [hq]
  · rw [h'.mem, h.mem]
    simp only [mem_append, mem_singleton]
    tauto
  · rw [h'.jobs, h.jobs, h.plan]
    by_cases hq : q = p
    · subst hq
      simp [hp]
    · simp [hq]

lemma splitExecutionNode_spec (n : GraphNode) :
    (∀ e ∈ (splitExecutionNode n).entries, e.2 = copyOf n)
  ∧ ∀ p, p ∈ splitExecutionNode n ↔ p ∈ n.node.parties := by
  suffices h : ∀ (ps : List PartyCode) (m : AList (fun _ : PartyCode => ExecutionNode)),
      (∀ e ∈ m.entries, e.2 = copyOf n) →
      (∀ e ∈ (ps.foldl (fun m p => m.insert p (copyOf n)) m).entries, e.2 = copyOf n) ∧
      ∀ p, p ∈ ps.foldl (fun m p => m.insert p (copyOf n)) m ↔ p ∈ ps ∨ p ∈ m by
    have := h n.node.parties ∅ (by simp)
    exact ⟨this.1, fun p => (this.2 p).trans (by simp)⟩
  intro ps
  induction ps with
  | nil => exact fun m hm => ⟨hm, fun p => by simp⟩
  | cons q ps ih =>
    intro m hm
    have hinsert : ∀ e ∈ (m.insert q (copyOf n)).entries, e.2 = copyOf n := by
      intro e he
      rw [AList.entries_insert] at he
      rcases mem_cons.mp he with rfl | he
      · rfl
      · exact hm e ((kerase_sublist q m.entries).subset he)
    obtain ⟨hval, hmem⟩ := ih _ hinsert
    refine ⟨hval, fun p => (hmem p).trans ?_⟩
    simp only [AList.mem_insert, mem_cons]
    tauto

lemma assign_all {copies : List ((_ : PartyCode) × ExecutionNode)}
  (hcopies : copies.Perm (splitExecutionNode n).entries) (hknown : ∀ p ∈ n.node.parties, p ∈ s.2) :
  ∃ s', copies.foldlM (assignTo W N n i) s = some s' ∧ Assigned W N n i n.node.parties s s' := by
  obtain ⟨hval, hmem⟩ := splitExecutionNode_spec n
  have hkeys : copies.keys.Nodup :=
    ((hcopies.map Sigma.fst).nodup_iff).mpr (splitExecutionNode n).nodupKeys
  have hparties : ∀ p, p ∈ copies.keys ↔ p ∈ n.node.parties := by
    intro p
    rw [← hmem p]
    exact (hcopies.map Sigma.fst).mem_iff
  obtain ⟨s', hs', hassigned⟩ := foldlM_of_step (f := assignTo W N n i)
    (P := fun done s' => Assigned W N n i done.keys s s') (s := s) copies (by
      rintro done ⟨p, copy⟩ rest hl t ht
      have hp : p ∈ copies.keys := by simp [hl, keys]
      have hcopy : copy = copyOf n := hval ⟨p, copy⟩ (hcopies.mem_iff.mp (by simp [hl]))
      have hnew : p ∉ done.keys := by
        have := hkeys
        rw [hl, keys, map_append, map_cons, nodup_append] at this
        exact fun h => this.2.2 p h p (by simp) rfl
      have hknown' : p ∈ t.2 := by
        rw [← AList.lookup_isSome, ht.jobs, if_neg hnew, AList.lookup_isSome]
        exact hknown p ((hparties p).mp hp)
      obtain ⟨t', ht', hassigned⟩ := assignTo_assigned (W := W) (N := N) (n := n) (i := i) hknown'
      refine ⟨t', by rw [hcopy]; exact ht', ?_⟩
      rw [keys, map_append]
      exact ht.trans hnew hassigned) (.refl n i s)
  exact ⟨s', hs', fun p => by simp only [hassigned.plan, hparties],
    fun p => by rw [hassigned.mem, hparties], fun p => by simp only [hassigned.jobs, hparties]⟩

def addNodes (p : PartyCode) (l : List (GraphNode × ℕ)) (plan : ExecutionPlan) : ExecutionPlan :=
  (shareOf p l).foldl (fun plan n => plan.addNode n.1) plan

lemma addNodes_append_singleton (l : List (GraphNode × ℕ)) (n : GraphNode × ℕ)
  (plan : ExecutionPlan) : addNodes p (l ++ [n]) plan =
    if p ∈ n.1.node.parties then (addNodes p l plan).addNode n.1 else addNodes p l plan := by
  rw [addNodes, addNodes, shareOf_append_singleton, foldl_append]
  split_ifs <;> rfl

/-- The state of the dealing after some nodes: each party stands as if it had been alone. -/
structure Dealing (W N : ℕ) (partyInfo : List PartyCode) (codes : Codes)
    (l : List (GraphNode × ℕ)) (s : Codes × AList (fun _ : PartyCode => ParallelJobs)) : Prop where
  plan : ∀ p, planOf W N s.1 p = addNodes p l (planOf W N codes p)
  mem : ∀ p, p ∈ s.1 → p ∈ partyInfo ∨ p ∈ codes
  jobs : ∀ p ∈ partyInfo, s.2.lookup p = some (dealt W p l)
  known : ∀ p, p ∈ s.2 ↔ p ∈ partyInfo

lemma lookup_parallelJobs (partyInfo : List PartyCode) :
    ∀ p, (partyInfo.foldl (fun m p => m.insert p {})
    (∅ : AList (fun _ : PartyCode => ParallelJobs))).lookup p =
      if p ∈ partyInfo then some {} else none := by
  intro p
  induction partyInfo using reverseRecOn with
  | nil => rfl
  | append_singleton l q ih =>
    rw [foldl_append, foldl_cons, foldl_nil]
    by_cases hq : p = q
    · subst hq
      simp
    · rw [AList.lookup_insert_ne hq, ih]
      simp [hq]

lemma workerNumber_addNodes (l : List (GraphNode × ℕ)) (plan : ExecutionPlan) :
  (addNodes p l plan).workerNumber = plan.workerNumber ∧
  (addNodes p l plan).pipelineJobs = plan.pipelineJobs := by
  induction l using reverseRecOn with
  | nil => exact ⟨rfl, rfl⟩
  | append_singleton l n ih =>
    rw [addNodes_append_singleton]
    split
    · exact ih
    · exact ih

variable {codes : Codes}

lemma dealNodes_dealing (o : RangeOrder) (pos : ℕ) {partyInfo : List PartyCode} {nodes : SubDAG}
  (hids : (nodes.map (·.id)).Nodup) (hknown : ∀ n ∈ nodes, ∀ p ∈ n.node.parties, p ∈ partyInfo)
  (hW : ∀ p, (planOf W N codes p).workerNumber = W) :
  ∃ s, dealNodes o W N pos partyInfo nodes codes = some s ∧
    Dealing W N partyInfo codes (sortedNodes nodes).zipIdx s := by
  rw [dealNodes, sortedNodes_congr (o.perm 8 pos nodes) hids]
  refine foldlM_of_step (P := Dealing W N partyInfo codes) _ ?_ ?_
  · rintro done ⟨n, i⟩ rest hl s hs
    have hn : n ∈ nodes := by
      have : (n, i) ∈ (sortedNodes nodes).zipIdx := by simp [hl]
      exact (sortedNodes_perm nodes).mem_iff.mp (fst_mem_of_mem_zipIdx this)
    obtain ⟨s', hs', hassigned⟩ := assign_all (W := W) (N := N) (i := i)
      (o.perm 9 (Nat.pair pos i) (splitExecutionNode n).entries)
      (fun p hp => (hs.known p).mpr (hknown n hn p hp))
    refine ⟨s', hs', fun p => ?_, fun p hp => ?_, fun p hp => ?_, fun p => ?_⟩
    · rw [hassigned.plan, hs.plan, addNodes_append_singleton]
    · rcases (hassigned.mem p).mp hp with hp | hp
      · exact .inl (hknown n hn p hp)
      · exact hs.mem p hp
    · rw [hassigned.jobs, hs.jobs p hp, hs.plan, (workerNumber_addNodes _ _ _).1, hW,
        dealt_append_singleton]
      split <;> rfl
    · rw [← hs.known, ← AList.lookup_isSome, ← AList.lookup_isSome, hassigned.jobs]
      split <;> simp
  · refine ⟨fun p => rfl, fun p hp => .inr hp, fun p hp => ?_, fun p => ?_⟩
    · rw [lookup_parallelJobs, if_pos hp]
      rfl
    · rw [← AList.lookup_isSome, lookup_parallelJobs]
      split <;> simp [*]

/-- The jobs and barrier flags of a plan, by pipeline and sub-DAG. -/
def ExecutionPlan.table (plan : ExecutionPlan) :
    List (List (AList (fun _ : ℕ => List ℕ) × Bool)) :=
  plan.pipelineJobs.map (fun pl => pl.jobs.map (fun pj => (pj.jobs, pj.needCallBarrierAfterJobs)))

variable {α : Type} {j : ℕ} {β : Type}

lemma map_modify_of_semiconj (g : α → β) (f : α → α) (f' : β → β) (h : ∀ a, g (f a) = f' (g a))
    (l : List α) (i : ℕ) :
  (l.modify i f).map g = (l.map g).modify i f' := by
  induction l generalizing i with
  | nil => cases i <;> rfl
  | cons a l ih =>
    cases i with
    | zero => simp [modify_zero_cons, h]
    | succ i => simp [modify_succ_cons, ih]

lemma map_modify_of_invariant (g : α → β) (f : α → α) (h : ∀ a, g (f a) = g a) (l : List α)
  (i : ℕ) : (l.modify i f).map g = l.map g := by
  rw [map_modify_of_semiconj g f id h, modify_id]

@[simp] lemma table_setBatched (i : ℕ) (batched : Bool) (plan : ExecutionPlan) :
  (setBatched i batched plan).table = plan.table := by
  rw [ExecutionPlan.table, setBatched]
  refine map_modify_of_invariant _ _ ?_ _ _
  exact fun _ => rfl

lemma table_modifyJobs (i j : ℕ) (f : ParallelJobs → ParallelJobs)
  (f' : AList (fun _ : ℕ => List ℕ) × Bool → AList (fun _ : ℕ => List ℕ) × Bool)
  (h : ∀ pj, ((f pj).jobs, (f pj).needCallBarrierAfterJobs) =
    f' (pj.jobs, pj.needCallBarrierAfterJobs)) (plan : ExecutionPlan) :
  (plan.modifyJobs i j f).table = plan.table.modify i (·.modify j f') := by
  rw [ExecutionPlan.table, ExecutionPlan.modifyJobs]
  refine map_modify_of_semiconj _ _ _ (fun pl => ?_) _ _
  exact map_modify_of_semiconj _ _ _ h _ _

def ExecutionPlan.addJobs (plan : ExecutionPlan) (i : ℕ) (pj : ParallelJobs) : ExecutionPlan :=
  { plan with
    pipelineJobs := plan.pipelineJobs.modify i (fun pl => {pl with jobs := pl.jobs ++ [pj]})}

lemma table_addJobs (plan : ExecutionPlan) (i : ℕ) (pj : ParallelJobs) :
  (plan.addJobs i pj).table =
    plan.table.modify i (· ++ [(pj.jobs, pj.needCallBarrierAfterJobs)]) := by
  rw [ExecutionPlan.table, ExecutionPlan.addJobs]
  exact map_modify_of_semiconj _ _ _ (fun _ => by simp) _ _

lemma map_jobsAt (plan : ExecutionPlan) (i j : ℕ) :
  (plan.jobsAt i j).map (fun pj => (pj.jobs, pj.needCallBarrierAfterJobs)) =
    plan.table[i]?.bind (·[j]?) := by
  simp only [ExecutionPlan.jobsAt, ExecutionPlan.table, getElem?_map, Option.bind_eq_bind]
  cases plan.pipelineJobs[i]? with
  | none => rfl
  | some pl => simp

lemma appendJobs_all (codes : Codes) {jobs : AList (fun _ : PartyCode => ParallelJobs)}
  {entries : List ((_ : PartyCode) × ParallelJobs)} (hperm : entries.Perm jobs.entries) :
  ∃ codes', entries.foldlM (appendJobs W N i) codes = some codes' ∧
    (∀ p, planOf W N codes' p = (jobs.lookup p).elim (planOf W N codes p)
      (fun pj => (planOf W N codes p).addJobs i pj)) ∧ ∀ p, p ∈ codes' ↔ p ∈ jobs ∨ p ∈ codes := by
  have hkeys : entries.NodupKeys := ((hperm.map Sigma.fst).nodup_iff).mpr jobs.nodupKeys
  obtain ⟨codes', hfold, hplan, hmem⟩ := foldlM_of_step (f := appendJobs W N i)
    (P := fun done codes' => (∀ p, planOf W N codes' p =
        (List.dlookup p done).elim (planOf W N codes p)
          (fun pj => (planOf W N codes p).addJobs i pj)) ∧
      ∀ p, p ∈ codes' ↔ p ∈ done.keys ∨ p ∈ codes) (s := codes) entries (by
      rintro done ⟨q, pj⟩ rest hl s ⟨hplan, hmem⟩
      have hnew : q ∉ done.keys := by
        have := hkeys
        rw [hl, List.NodupKeys, keys, map_append, map_cons, nodup_append] at this
        exact fun h => this.2.2 q h q (by simp) rfl
      obtain ⟨s', hs'⟩ := adjust_isSome (fun plan : ExecutionPlan => plan.addJobs i pj)
        ((mem_getOrCreate (W := W) (N := N) s q q).mpr (.inl rfl))
      refine ⟨s', hs', fun p => ?_, fun p => ?_⟩
      · have hlookup := lookup_of_adjust hs' p
        rw [dlookup_append]
        by_cases hp : p = q
        · subst hp
          have hold := hplan p
          rw [dlookup_eq_none.mpr hnew, Option.elim_none] at hold
          rw [planOf, hlookup, if_pos rfl, lookup_getOrCreate, if_pos rfl,
            dlookup_eq_none.mpr hnew, Option.none_or, dlookup_cons_eq]
          exact congrArg (fun plan => ExecutionPlan.addJobs plan i pj) hold
        · have hget := planOf_getOrCreate (W := W) (N := N) s q p
          rw [planOf] at hget
          have hother : List.dlookup p [(⟨q, pj⟩ : (_ : PartyCode) × ParallelJobs)] = none :=
            dlookup_eq_none.mpr (by simpa [keys] using hp)
          rw [planOf, hlookup, if_neg hp, hget, hplan, hother, Option.or_none]
      · rw [← AList.lookup_isSome, lookup_of_adjust hs']
        by_cases hp : p = q
        · subst hp
          simp [lookup_getOrCreate, keys]
        · rw [if_neg hp, AList.lookup_isSome, mem_getOrCreate, hmem]
          simp [hp, keys]) ⟨fun p => rfl, fun p => by simp⟩
  refine ⟨codes', hfold, fun p => ?_, fun p => ?_⟩
  · rw [hplan, perm_dlookup p hkeys hperm]
    rfl
  · rw [hmem, AList.mem_keys, AList.keys]
    exact or_congr_left (hperm.map Sigma.fst).mem_iff

def Works (p : PartyCode) (dag : SubDAG) : Prop := ∃ n ∈ dag, p ∈ n.node.parties

def SharedWork (dag : SubDAG) : Prop := ∃ p q, p ≠ q ∧ Works p dag ∧ Works q dag

lemma exists_mem_shareOf_iff (p : PartyCode) (dag : SubDAG) :
  (∃ n, n ∈ shareOf p (sortedNodes dag).zipIdx) ↔ Works p dag := by
  constructor
  · rintro ⟨n, hn⟩
    obtain ⟨hn, hp⟩ := mem_filter.mp hn
    exact ⟨n.1, (sortedNodes_perm dag).mem_iff.mp (fst_mem_of_mem_zipIdx hn), by simpa using hp⟩
  · rintro ⟨n, hn, hp⟩
    obtain ⟨i, hi⟩ := mem_iff_getElem?.mp ((sortedNodes_perm dag).mem_iff.mpr hn)
    exact ⟨(n, i), mem_filter.mpr ⟨mem_zipIdx_iff_getElem?.mpr hi, by simpa using hp⟩⟩

lemma entries_dealt_ne_nil_iff (p : PartyCode) (dag : SubDAG) :
  (dealt W p (sortedNodes dag).zipIdx).jobs.entries ≠ [] ↔ Works p dag := by
  rw [← exists_mem_shareOf_iff]
  constructor
  · intro hne
    obtain ⟨⟨w, ids⟩, hmem⟩ := exists_mem_of_ne_nil _ hne
    have hlookup := AList.mem_lookup_iff.mpr hmem
    rw [lookup_dealt] at hlookup
    by_contra hnone
    push Not at hnone
    have hnil : workerShare W p w (sortedNodes dag).zipIdx = [] := by
      rw [workerShare, eq_nil_iff_forall_not_mem.mpr hnone]
      rfl
    rw [if_pos hnil] at hlookup
    cases hlookup
  · rintro ⟨n, hn⟩ hnil
    have hshare : workerShare W p (n.2%W) (sortedNodes dag).zipIdx ≠ [] :=
      ne_nil_of_mem (mem_map.mpr ⟨n, mem_filter.mpr ⟨hn, by simp⟩, rfl⟩)
    have hlookup := lookup_dealt (W := W) p (n.2%W) (sortedNodes dag).zipIdx
    rw [if_neg hshare] at hlookup
    have := AList.mem_lookup_iff.mp hlookup
    rw [hnil] at this
    cases this

lemma one_lt_length_iff {l : List α} (hl : l.Nodup) : 1 < l.length ↔ ∃ a ∈ l, ∃ b ∈ l, a ≠ b := by
  match l, hl with
  | [], _ => simp
  | [a], _ => simp
  | a::b::l, hl =>
    refine ⟨fun _ => ⟨a, by simp, b, by simp, ?_⟩, fun _ => by simp⟩
    rintro rfl
    simp at hl

def setBarrier (b : Bool) (i j : ℕ) (plan : ExecutionPlan) : ExecutionPlan :=
  if b then plan.modifyJobs i j (fun pj => {pj with needCallBarrierAfterJobs := true}) else plan

lemma inferenceNeedCallBarrier_spec {dag : SubDAG}
  (hjobs : ∀ p plan, codes.lookup p = some plan → ∃ pj, plan.jobsAt i j = some pj ∧
    (pj.jobs.entries ≠ [] ↔ Works p dag))
  (hall : ∀ p, Works p dag → p ∈ codes) :
    ∃ (b : Bool) (codes' : Codes), (b = true ↔ SharedWork dag) ∧
    inferenceNeedCallBarrier i j codes = some codes' ∧
    ∀ p, codes'.lookup p = (codes.lookup p).map (setBarrier b i j) := by
  have hentry : ∀ e ∈ codes.entries, ∃ pj, e.2.jobsAt i j = some pj ∧
    (pj.jobs.entries ≠ [] ↔ Works e.1 dag) :=
    fun e he => hjobs e.1 e.2 (AList.mem_lookup_iff.mpr he)
  have hworking : ∀ e, e ∈ workingParties i j codes ↔ e ∈ codes.entries ∧ Works e.1 dag := by
    intro e
    rw [workingParties, mem_filter]
    refine and_congr_right fun he => ?_
    obtain ⟨pj, hpj, hworks⟩ := hentry e he
    simp [hpj, ← hworks]
  have hnodup : (workingParties i j codes).Nodup := codes.nodupKeys.nodup.filter _
  refine ⟨decide ((workingParties i j codes).length > 1), if (workingParties i j codes).length > 1
    then mapValues (setBarrier true i j) codes else codes, ?_, ?_, fun p => ?_⟩
  · rw [decide_eq_true_iff, gt_iff_lt, one_lt_length_iff hnodup]
    constructor
    · rintro ⟨e, he, e', he', hne⟩
      obtain ⟨hmem, hworks⟩ := (hworking e).mp he
      obtain ⟨hmem', hworks'⟩ := (hworking e').mp he'
      refine ⟨e.1, e'.1, fun hkey => hne ?_, hworks, hworks'⟩
      exact codes.nodupKeys.eq_of_fst_eq hmem hmem' hkey
    · rintro ⟨p, q, hpq, hp, hq⟩
      obtain ⟨planp, hplanp⟩ := Option.isSome_iff_exists.mp (AList.lookup_isSome.mpr (hall p hp))
      obtain ⟨planq, hplanq⟩ := Option.isSome_iff_exists.mp (AList.lookup_isSome.mpr (hall q hq))
      refine ⟨⟨p, planp⟩, (hworking _).mpr ⟨AList.mem_lookup_iff.mp hplanp, hp⟩, ⟨q, planq⟩,
        (hworking _).mpr ⟨AList.mem_lookup_iff.mp hplanq, hq⟩, fun h => hpq ?_⟩
      exact congrArg Sigma.fst h
  · have hguard : ∀ e ∈ codes.entries, (e.2.jobsAt i j).isSome := by
      intro e he
      obtain ⟨pj, hpj, -⟩ := hentry e he
      simp [hpj]
    rw [inferenceNeedCallBarrier, guard, if_pos hguard]
    by_cases hlen : (workingParties i j codes).length > 1
    · simp only [hlen, if_true]
      rfl
    · simp only [hlen, if_false]
      rfl
  · by_cases hlen : (workingParties i j codes).length > 1
    · simp [hlen]
    · have hid : setBarrier false i j = id := rfl
      simp [hlen, hid]

/-- The two plans have the same jobs, barriers and nodes. -/
structure SameJobs (plan plan' : ExecutionPlan) : Prop where
  workerNumber : plan'.workerNumber = plan.workerNumber
  table : plan'.table = plan.table
  nodes : plan'.nodes = plan.nodes

lemma inferenceNeedSyncSymbol_spec (o : RangeOrder) (i j : ℕ) (m : Mapper) :
  ∃ f : ExecutionPlan → ExecutionPlan, (∀ plan, SameJobs plan (f plan)) ∧
    (inferenceNeedSyncSymbol o i j m).codes = mapValues f m.codes := by
  refine ⟨_, fun plan => ?_, rfl⟩
  split
  · refine ⟨rfl, ?_, rfl⟩
    refine (table_modifyJobs i j _ id ?_ plan).trans ?_
    · exact fun _ => rfl
    · have hid : (fun l : List (AList (fun _ : ℕ => List ℕ) × Bool) => l.modify j id) = id := by
        funext l
        exact modify_id _ _
      rw [hid, modify_id]
  · exact ⟨rfl, rfl, rfl⟩

/-- The jobs of a party in a sub-DAG, with the barrier flag. -/
def JobsFor (W : ℕ) (p : PartyCode) (dag : SubDAG) (x : AList (fun _ : ℕ => List ℕ) × Bool) :
    Prop :=
  x.1 = (dealt W p (sortedNodes dag).zipIdx).jobs ∧ (x.2 = true ↔ SharedWork dag)

/-- A party's plan after the sub-DAGs `done i` of each pipeline `i`. -/
structure PlanFor (W N : ℕ) (p : PartyCode) (done : ℕ → List SubDAG) (plan : ExecutionPlan) :
    Prop where
  workerNumber : plan.workerNumber = W
  length : plan.table.length = N
  jobs : ∀ i l, plan.table[i]? = some l → Forall₂ (JobsFor W p) (done i) l
  nodes : ∀ i, ∀ dag ∈ done i, ∀ n ∈ dag, p ∈ n.node.parties →
    plan.nodes.lookup n.id = some (copyOf n)

structure Mapped (W N : ℕ) (partyInfo : List PartyCode) (done : ℕ → List SubDAG) (codes : Codes) :
    Prop where
  known : ∀ p ∈ codes, p ∈ partyInfo
  present : (∃ i, done i ≠ []) → ∀ p ∈ partyInfo, p ∈ codes
  plan : ∀ p ∈ partyInfo, PlanFor W N p done (planOf W N codes p)

variable {p : PartyCode} {done : ℕ → List SubDAG} {plan : ExecutionPlan} {i : ℕ} {dag : SubDAG}
  {partyInfo : List PartyCode} {codes : Codes} {pipelines : List Pipeline}

variable {plan' : ExecutionPlan} {l : List (GraphNode × ℕ)}

lemma PlanFor.sameJobs (h : PlanFor W N p done plan) (hsame : SameJobs plan plan') :
  PlanFor W N p done plan' := by
  refine ⟨hsame.workerNumber.trans h.workerNumber, ?_, ?_, ?_⟩
  · rw [hsame.table]
    exact h.length
  · rw [hsame.table]
    exact h.jobs
  · rw [hsame.nodes]
    exact h.nodes

lemma planFor_newExecutionPlan (p : PartyCode) :
    PlanFor W N p (fun _ => []) (newExecutionPlan W N) := by
  refine ⟨rfl, by simp [ExecutionPlan.table, newExecutionPlan], fun i l hl => ?_, by simp⟩
  obtain ⟨-, rfl⟩ : i < N ∧ [] = l := by
    simpa [ExecutionPlan.table, newExecutionPlan, getElem?_replicate] using hl
  exact .nil

lemma lookup_addNodes_old {k : ℕ} (hk : ∀ n ∈ l, n.1.id ≠ k) :
  (addNodes p l plan).nodes.lookup k = plan.nodes.lookup k := by
  induction l using reverseRecOn with
  | nil => rfl
  | append_singleton l n ih =>
    have hold := ih fun m hm => hk m (by simp [hm])
    have hne : k ≠ n.1.id := fun h => hk n (by simp) h.symm
    rw [addNodes_append_singleton]
    split
    · rw [ExecutionPlan.addNode, AList.lookup_insert_ne hne, hold]
    · exact hold

lemma lookup_addNodes_new (hids : (l.map (·.1.id)).Nodup) {n : GraphNode × ℕ} (hn : n ∈ l)
  (hp : p ∈ n.1.node.parties) : (addNodes p l plan).nodes.lookup n.1.id = some (copyOf n.1) := by
  induction l using reverseRecOn with
  | nil => cases hn
  | append_singleton l m ih =>
    rw [map_append, nodup_append] at hids
    rw [addNodes_append_singleton]
    rcases mem_append.mp hn with hn | hn
    · have hold := ih hids.1 hn
      have hne : n.1.id ≠ m.1.id :=
        hids.2.2 n.1.id (mem_map.mpr ⟨n, hn, rfl⟩) m.1.id (by simp)
      split
      · rw [ExecutionPlan.addNode, AList.lookup_insert_ne hne, hold]
      · exact hold
    · obtain rfl := mem_singleton.mp hn
      rw [if_pos hp, ExecutionPlan.addNode, AList.lookup_insert]

lemma modify_append_singleton (l : List α) (x : α) (f : α → α) :
    (l ++ [x]).modify l.length f = l ++ [f x] := by
  induction l with
  | nil => rfl
  | cons a l ih => simp [modify_succ_cons, ih]

lemma modify_append_modify {t : List (List α)} (hrow : ∀ l, t[i]? = some l → l.length = j) (x : α)
    (f : α → α) :
  (t.modify i (· ++ [x])).modify i (·.modify j f) = t.modify i (· ++ [f x]) := by
  refine ext_getElem? fun k => ?_
  simp only [getElem?_modify]
  by_cases hk : i = k
  · subst hk
    cases hl : t[i]? with
    | none => rfl
    | some l => simp [← hrow l hl, modify_append_singleton]
  · simp [hk]

variable {x : AList (fun _ : ℕ => List ℕ) × Bool}

lemma PlanFor.addSubDAG (h : PlanFor W N p done plan)
  (hx : JobsFor W p dag x) (hworker : plan'.workerNumber = plan.workerNumber)
  (htable : plan'.table = plan.table.modify i (· ++ [x]))
  (hold : ∀ i, ∀ d ∈ done i, ∀ n ∈ d, plan'.nodes.lookup n.id = plan.nodes.lookup n.id)
  (hnew : ∀ n ∈ dag, p ∈ n.node.parties → plan'.nodes.lookup n.id = some (copyOf n)) :
  PlanFor W N p (update done i (done i ++ [dag])) plan' := by
  refine ⟨hworker.trans h.workerNumber, ?_, fun k l hl => ?_, fun k d hd n hn hp => ?_⟩
  · rw [htable, length_modify]
    exact h.length
  · rw [htable, getElem?_modify] at hl
    obtain ⟨l₀, hl₀, rfl⟩ := Option.map_eq_some_iff.mp hl
    by_cases hk : i = k
    · subst hk
      rw [update_self, if_pos rfl]
      exact rel_append (h.jobs i l₀ hl₀) (.cons hx .nil)
    · rw [update_of_ne (Ne.symm hk), if_neg hk]
      exact h.jobs k l₀ hl₀
  · by_cases hk : k = i
    · subst hk
      rw [update_self] at hd
      rcases mem_append.mp hd with hd | hd
      · rw [hold k d hd n hn]
        exact h.nodes k d hd n hn hp
      · obtain rfl := mem_singleton.mp hd
        exact hnew n hn hp
    · rw [update_of_ne hk] at hd
      rw [hold k d hd n hn]
      exact h.nodes k d hd n hn hp

lemma Mapped.workerNumber (h : Mapped W N partyInfo done codes) (p : PartyCode) :
  (planOf W N codes p).workerNumber = W := by
  by_cases hp : p ∈ partyInfo
  · exact (h.plan p hp).workerNumber
  · have hnone : codes.lookup p = none := AList.lookup_eq_none.mpr (mt (h.known p) hp)
    rw [planOf, hnone]
    rfl

/-- A party's plan when a sub-DAG has been dealt and added, before its flags are inferred. -/
lemma jobsAt_of_table {t : List (List (AList (fun _ : ℕ => List ℕ) × Bool))}
  {l : List (AList (fun _ : ℕ => List ℕ) × Bool)}
  (htable : plan.table = t.modify i (· ++ [x])) (hl : t[i]? = some l) (hj : l.length = j) :
  ∃ pj, plan.jobsAt i j = some pj ∧ pj.jobs = x.1 := by
  have hmap := map_jobsAt plan i j
  rw [htable, getElem?_modify_eq, hl, Option.map_eq_map, Option.map_some, Option.bind_some,
    ← hj, getElem?_concat_length] at hmap
  obtain ⟨pj, hpj, heq⟩ := Option.map_eq_some_iff.mp hmap
  exact ⟨pj, hj ▸ hpj, (Prod.ext_iff.mp heq).1⟩

lemma lookup_eq_some_planOf (hp : p ∈ codes) : codes.lookup p = some (planOf W N codes p) := by
  obtain ⟨plan, hplan⟩ := Option.isSome_iff_exists.mp (AList.lookup_isSome.mpr hp)
  rw [planOf, hplan, Option.getD_some]

/-- A party's plan when a sub-DAG has been dealt and added, before its flags are inferred. -/
def addedPlan (W i : ℕ) (batched : Bool) (dag : SubDAG) (p : PartyCode) (plan : ExecutionPlan) :
    ExecutionPlan :=
  setBatched i batched ((addNodes p (sortedNodes dag).zipIdx plan).addJobs i
    (dealt W p (sortedNodes dag).zipIdx))

lemma table_addedPlan (i : ℕ) (batched : Bool) (dag : SubDAG) (p : PartyCode)
  (plan : ExecutionPlan) : (addedPlan W i batched dag p plan).table =
    plan.table.modify i (· ++ [((dealt W p (sortedNodes dag).zipIdx).jobs, false)]) := by
  have hnodes : (addNodes p (sortedNodes dag).zipIdx plan).table = plan.table := by
    rw [ExecutionPlan.table, (workerNumber_addNodes _ _ _).2, ExecutionPlan.table]
  rw [addedPlan, table_setBatched, table_addJobs, hnodes, dealt_flags]

variable (o : RangeOrder)

lemma deal_and_append (h : Mapped W N partyInfo done codes) (pos i : ℕ) (batched : Bool)
  (hids : (dag.map (·.id)).Nodup) (hknown : ∀ n ∈ dag, ∀ p ∈ n.node.parties, p ∈ partyInfo) :
  ∃ s codes', dealNodes o W N pos partyInfo dag codes = some s ∧
    (o.range 10 pos s.2.entries).foldlM (appendJobs W N i) s.1 = some codes' ∧
    ∀ p, (mapValues (setBatched i batched) codes').lookup p = if p ∈ partyInfo then
      some (addedPlan W i batched dag p (planOf W N codes p)) else none := by
  obtain ⟨s, hdeal, hs⟩ := dealNodes_dealing (W := W) (N := N) o pos hids hknown h.workerNumber
  obtain ⟨codes', happend, hplan, hmem⟩ := appendJobs_all (W := W) (N := N) (i := i) s.1
    (o.perm 10 pos s.2.entries)
  refine ⟨s, codes', hdeal, happend, fun p => ?_⟩
  rw [lookup_mapValues]
  split
  · next hp =>
    rw [lookup_eq_some_planOf ((hmem p).mpr (.inl ((hs.known p).mpr hp))), hplan, hs.jobs p hp,
      hs.plan]
    rfl
  · next hp =>
    have hnot : p ∉ codes' := by
      rw [hmem, hs.known]
      exact fun hor => hor.elim hp fun hs' => hp ((hs.mem p hs').elim id (h.known p))
    rw [AList.lookup_eq_none.mpr hnot]
    rfl

lemma PlanFor.row (h : PlanFor W N p done plan) (hi : i < N) :
  ∃ row, plan.table[i]? = some row ∧ row.length = (done i).length := by
  obtain ⟨row, hget⟩ : ∃ row, plan.table[i]? = some row :=
    ⟨_, getElem?_eq_getElem (h.length.symm ▸ hi)⟩
  exact ⟨row, hget, (h.jobs i row hget).length_eq.symm⟩

lemma PlanFor.addedPlan (h : PlanFor W N p done plan) (batched b : Bool)
  (hb : b = true ↔ SharedWork dag) (hids : (dag.map (·.id)).Nodup)
  (hfresh : ∀ k, ∀ d ∈ done k, ∀ n ∈ d, ∀ n' ∈ dag, n'.id ≠ n.id) :
    PlanFor W N p (update done i (done i ++ [dag]))
    (setBarrier b i (done i).length (addedPlan W i batched dag p plan)) := by
  have hrow : ∀ row, plan.table[i]? = some row → row.length = (done i).length :=
    fun row hget => (h.jobs i row hget).length_eq.symm
  have hnodes :
    (setBarrier b i (done i).length (GraphMapper.addedPlan W i batched dag p plan)).nodes =
      (addNodes p (sortedNodes dag).zipIdx plan).nodes := by
    rw [setBarrier]
    split <;> rfl
  refine h.addSubDAG (x := ((dealt W p (sortedNodes dag).zipIdx).jobs, b)) ⟨rfl, hb⟩ ?_ ?_ ?_ ?_
  · rw [← (workerNumber_addNodes p (sortedNodes dag).zipIdx plan).1, setBarrier]
    split <;> rfl
  · cases b with
    | false => exact table_addedPlan i batched dag p plan
    | true =>
      refine (table_modifyJobs i _ _ (fun x => (x.1, true)) ?_ _).trans ?_
      · exact fun _ => rfl
      · rw [table_addedPlan, modify_append_modify hrow]
  · intro k d hd n hn
    rw [hnodes]
    refine lookup_addNodes_old fun n' hn' => ?_
    exact hfresh k d hd n hn n'.1 ((sortedNodes_perm dag).mem_iff.mp (fst_mem_of_mem_zipIdx hn'))
  · intro n hn hp
    obtain ⟨k, hk⟩ := mem_iff_getElem?.mp ((sortedNodes_perm dag).mem_iff.mpr hn)
    rw [hnodes]
    refine lookup_addNodes_new (n := (n, k)) ?_ (mem_zipIdx_iff_getElem?.mpr hk) hp
    have hmap : (sortedNodes dag).zipIdx.map (·.1.id) = (sortedNodes dag).map (·.id) := by
      conv_rhs => rw [← zipIdx_map_fst 0 (sortedNodes dag), map_map]
      rfl
    rw [hmap]
    exact (((sortedNodes_perm dag).map _).nodup_iff).mpr hids

variable {m : Mapper}

lemma mapSubDAG_mapped (batched : Bool)
  (h : Mapped (inferenceWorkerNumber pipelines) pipelines.length partyInfo done m.codes)
  (hi : i < pipelines.length) (hids : (dag.map (·.id)).Nodup)
  (hfresh : ∀ k, ∀ d ∈ done k, ∀ n ∈ d, ∀ n' ∈ dag, n'.id ≠ n.id)
  (hknown : ∀ n ∈ dag, ∀ p ∈ n.node.parties, p ∈ partyInfo) :
  ∃ m', mapSubDAG o partyInfo pipelines i (done i).length batched m dag = some m' ∧
    Mapped (inferenceWorkerNumber pipelines) pipelines.length partyInfo
      (update done i (done i ++ [dag])) m'.codes := by
  obtain ⟨s, codes, hdeal, happend, hlookup⟩ :=
    deal_and_append o h (Nat.pair i (done i).length) i batched hids hknown
  obtain ⟨b, codes', hb, hbarrier, hlookup'⟩ :=
    inferenceNeedCallBarrier_spec (i := i) (j := (done i).length)
    (fun p plan hplan => by
      rw [hlookup] at hplan
      split at hplan
      · next hp =>
        cases hplan
        obtain ⟨row, hget, hlen⟩ := (h.plan p hp).row hi
        obtain ⟨pj, hpj, hjobs⟩ := jobsAt_of_table (table_addedPlan i batched dag p _) hget hlen
        exact ⟨pj, hpj, by rw [hjobs]; exact entries_dealt_ne_nil_iff p dag⟩
      · cases hplan)
    (fun p hp => by
      obtain ⟨n, hn, hp⟩ := hp
      rw [← AList.lookup_isSome, hlookup, if_pos (hknown n hn p hp)]
      rfl)
  obtain ⟨f, hf, hsync⟩ :=
    inferenceNeedSyncSymbol_spec o i (done i).length {m with codes := codes'}
  refine ⟨_, by simp only [mapSubDAG, hdeal, happend, hbarrier, Option.bind_eq_bind,
    Option.bind_some]; rfl, ?_⟩
  have hfinal : ∀ p, (mapValues f codes').lookup p = if p ∈ partyInfo then
      some (f (setBarrier b i (done i).length (addedPlan (inferenceWorkerNumber pipelines) i batched
        dag p (planOf (inferenceWorkerNumber pipelines) pipelines.length
          m.codes p)))) else none := by
    intro p
    rw [lookup_mapValues, hlookup', hlookup]
    split <;> rfl
  rw [hsync]
  refine ⟨fun p hp => ?_, fun _ p hp => ?_, fun p hp => ?_⟩
  · rw [← AList.lookup_isSome, hfinal] at hp
    by_contra hnot
    simp [hnot] at hp
  · rw [← AList.lookup_isSome, hfinal, if_pos hp]
    rfl
  · rw [planOf, hfinal, if_pos hp, Option.getD_some]
    exact ((h.plan p hp).addedPlan batched b hb hids hfresh).sameJobs (hf _)

/-- What the mapper relies on: numbers are unique, the parties of nodes and the owners of the
tensors of batched pipelines are known, and a batched pipeline is not empty. -/
structure WellFormed (graph : Graph) (pipelines : List Pipeline) : Prop where
  ids : ((pipelines.flatMap (·.subDAGs)).flatten.map (·.id)).Nodup
  parties : ∀ pl ∈ pipelines, ∀ dag ∈ pl.subDAGs, ∀ n ∈ dag, ∀ p ∈ n.node.parties,
    p ∈ graph.partyInfo
  tensors : ∀ pl ∈ pipelines, pl.batched = true → ∀ t ∈ pl.inputTensors ++ pl.outputTensors,
    ∃ x, graph.tensors[t]? = some x ∧ x.ownerPartyCode ∈ graph.partyInfo
  nonempty : ∀ pl ∈ pipelines, pl.batched = true → pl.subDAGs ≠ []

lemma Mapped.adjust {codes' : Codes} (h : Mapped W N partyInfo done codes) {k : PartyCode}
  {f : ExecutionPlan → ExecutionPlan} (hf : ∀ plan, SameJobs plan (f plan))
  (hadjust : adjust k f codes = some codes') : Mapped W N partyInfo done codes' := by
  have hmem : ∀ p, p ∈ codes' ↔ p ∈ codes := by
    intro p
    rw [← AList.lookup_isSome, lookup_of_adjust hadjust, ← AList.lookup_isSome]
    split <;> simp
  refine ⟨fun p hp => h.known p ((hmem p).mp hp),
    fun hdone p hp => (hmem p).mpr (h.present hdone p hp),
    fun p hp => ?_⟩
  have hplan := h.plan p hp
  rw [planOf] at hplan ⊢
  rw [lookup_of_adjust hadjust]
  split
  · cases hlookup : codes.lookup p with
    | none =>
      rw [hlookup] at hplan
      exact hplan
    | some plan =>
      rw [hlookup] at hplan
      exact hplan.sameJobs (hf plan)
  · exact hplan

lemma addTensors_mapped (h : Mapped W N partyInfo done codes) (hdone : ∃ i, done i ≠ [])
  {tensors : List Tensor} {f : ℕ → ExecutionPlan → ExecutionPlan}
  (hf : ∀ t plan, SameJobs plan (f t plan)) {ts : List ℕ}
  (hts : ∀ t ∈ ts, ∃ x, tensors[t]? = some x ∧ x.ownerPartyCode ∈ partyInfo) :
  ∃ codes', ts.foldlM (addTensor tensors f) codes = some codes' ∧
    Mapped W N partyInfo done codes' := by
  refine foldlM_of_step (P := fun _ codes => Mapped W N partyInfo done codes) ts ?_ h
  intro _ t rest hl codes hcodes
  obtain ⟨x, hx, howner⟩ := hts t (by simp [hl])
  obtain ⟨codes', hcodes'⟩ := adjust_isSome (f t) (hcodes.present hdone _ howner)
  refine ⟨codes', ?_, hcodes.adjust (hf t) hcodes'⟩
  rw [addTensor, hx]
  exact hcodes'

lemma zipIdx_split {l : List α} {visited rest : List (α × ℕ)} {a : α}
    (h : l.zipIdx = visited ++ (a, j)::rest) :
  l = visited.map Prod.fst ++ a::rest.map Prod.fst ∧ j = visited.length := by
  constructor
  · rw [← zipIdx_map_fst 0 l, h]
    simp
  · have hget : l.zipIdx[visited.length]? = some (a, j) := by simp [h]
    rw [getElem?_zipIdx] at hget
    obtain ⟨b, -, hb⟩ := Option.map_eq_some_iff.mp hget
    simpa using (Prod.ext_iff.mp hb).2.symm

lemma mapSubDAGs_mapped {dags : List SubDAG} (batched : Bool)
  (h : Mapped (inferenceWorkerNumber pipelines) pipelines.length partyInfo done m.codes)
  (hi : i < pipelines.length) (hnone : done i = []) (hids : (dags.flatten.map (·.id)).Nodup)
  (hfresh : ∀ k, ∀ d ∈ done k, ∀ n ∈ d, ∀ n' ∈ dags.flatten, n'.id ≠ n.id)
  (hknown : ∀ dag ∈ dags, ∀ n ∈ dag, ∀ p ∈ n.node.parties, p ∈ partyInfo) :
    ∃ m', dags.zipIdx.foldlM (fun m dag =>
      mapSubDAG o partyInfo pipelines i dag.2 batched m dag.1) m = some m' ∧
    Mapped (inferenceWorkerNumber pipelines) pipelines.length partyInfo
      (update done i dags) m'.codes := by
  obtain ⟨m', hm', hmapped⟩ := foldlM_of_step (f := fun m (dag : SubDAG × ℕ) =>
      mapSubDAG o partyInfo pipelines i dag.2 batched m dag.1)
    (P := fun visited m => Mapped (inferenceWorkerNumber pipelines) pipelines.length partyInfo
      (update done i (visited.map Prod.fst)) m.codes) (s := m) dags.zipIdx (by
    rintro visited ⟨dag, j⟩ rest hl m hm
    obtain ⟨hdags, hj⟩ := zipIdx_split hl
    replace hj : j = ((update done i (visited.map Prod.fst)) i).length := by
      rw [update_self, length_map, hj]
    rw [hdags, flatten_append, flatten_cons, map_append, map_append, nodup_append,
      nodup_append] at hids
    obtain ⟨m', hm', hmapped⟩ :=
      mapSubDAG_mapped o batched hm hi hids.2.1.1 (fun k d hd n hn n' hn' => by
        by_cases hk : k = i
        · subst hk
          rw [update_self] at hd
          refine Ne.symm
            (hids.2.2 n.id (mem_map.mpr ⟨n, mem_flatten.mpr ⟨d, hd, hn⟩, rfl⟩) n'.id ?_)
          exact mem_append_left _ (mem_map.mpr ⟨n', hn', rfl⟩)
        · rw [update_of_ne hk] at hd
          exact hfresh k d hd n hn n' (by simp [hdags, hn']))
      (hknown dag (by simp [hdags]))
    refine ⟨m', by rw [hj]; exact hm', ?_⟩
    rw [update_self, update_idem] at hmapped
    rw [map_append]
    exact hmapped)
    (by
      rw [map_nil, ← hnone, update_eq_self]
      exact h)
  rw [zipIdx_map_fst] at hmapped
  exact ⟨m', hm', hmapped⟩

def subDAGsAt (pipelines : List Pipeline) (k : ℕ) : List SubDAG :=
  pipelines[k]?.elim [] (·.subDAGs)

lemma subDAGsAt_append_singleton (ps : List Pipeline) (pl : Pipeline) :
  subDAGsAt (ps ++ [pl]) = update (subDAGsAt ps) ps.length pl.subDAGs := by
  funext k
  rw [subDAGsAt, getElem?_append]
  by_cases hk : k = ps.length
  · subst hk
    simp
  · rw [update_of_ne hk, subDAGsAt]
    split
    · rfl
    · next hlt =>
      rw [getElem?_eq_none (by simp; omega), getElem?_eq_none (by omega)]

lemma mem_of_mem_subDAGsAt {ps : List Pipeline} {k : ℕ} {d : SubDAG} (h : d ∈ subDAGsAt ps k) :
  ∃ pl ∈ ps, d ∈ pl.subDAGs := by
  rw [subDAGsAt] at h
  cases hget : ps[k]? with
  | none =>
    rw [hget] at h
    cases h
  | some pl =>
    rw [hget] at h
    exact ⟨pl, mem_of_getElem? hget, h⟩

variable {graph : Graph}

lemma mapPipeline_mapped {ps rest : List Pipeline} {pl : Pipeline}
  (hwf : WellFormed graph pipelines) (hpipelines : pipelines = ps ++ pl::rest)
  (h : Mapped (inferenceWorkerNumber pipelines) pipelines.length graph.partyInfo
    (subDAGsAt ps) m.codes)
  : ∃ m', mapPipeline o graph pipelines m (pl, ps.length) = some m' ∧
    Mapped (inferenceWorkerNumber pipelines) pipelines.length graph.partyInfo
      (subDAGsAt (ps ++ [pl])) m'.codes := by
  have hmem : pl ∈ pipelines := by simp [hpipelines]
  have hids := hwf.ids
  rw [hpipelines, flatMap_append, flatMap_cons, flatten_append, flatten_append,
    map_append, map_append, nodup_append, nodup_append] at hids
  obtain ⟨m₁, hm₁, hmapped⟩ := mapSubDAGs_mapped o pl.batched h (i := ps.length)
    (by simp [hpipelines]) (by simp [subDAGsAt]) hids.2.1.1
    (fun k d hd n hn n' hn' => by
      obtain ⟨pl', hpl', hd⟩ := mem_of_mem_subDAGsAt hd
      refine Ne.symm (hids.2.2 n.id (mem_map.mpr ⟨n, ?_, rfl⟩) n'.id
        (mem_append_left _ (mem_map.mpr ⟨n', hn', rfl⟩)))
      exact mem_flatten.mpr ⟨d, mem_flatMap.mpr ⟨pl', hpl', hd⟩, hn⟩)
    (fun dag hdag => hwf.parties pl hmem dag hdag)
  rw [← subDAGsAt_append_singleton] at hmapped
  rw [mapPipeline, hm₁, Option.bind_eq_bind, Option.bind_some]
  cases hbatched : pl.batched with
  | false => exact ⟨m₁, rfl, hmapped⟩
  | true =>
    have hdone : ∃ i, subDAGsAt (ps ++ [pl]) i ≠ [] :=
      ⟨ps.length, by simpa [subDAGsAt] using hwf.nonempty pl hmem hbatched⟩
    have htensors := hwf.tensors pl hmem hbatched
    have hsame : ∀ (f : ℕ → PipelineJobs → PipelineJobs), (∀ t p, (f t p).jobs = p.jobs) →
        ∀ t (plan : ExecutionPlan), SameJobs plan
          {plan with pipelineJobs := plan.pipelineJobs.modify ps.length (f t)} := by
      intro f hf t plan
      refine ⟨rfl, ?_, rfl⟩
      rw [ExecutionPlan.table, ExecutionPlan.table]
      exact map_modify_of_invariant _ _ (fun p => by rw [hf]) _ _
    obtain ⟨codes₁, hcodes₁, hmapped₁⟩ := addTensors_mapped hmapped hdone
      (hsame (fun t p => {p with inputTensors := p.inputTensors ++ [t]}) (fun _ _ => rfl))
      (fun t ht => htensors t (mem_append_left _ ht))
    obtain ⟨codes₂, hcodes₂, hmapped₂⟩ := addTensors_mapped hmapped₁ hdone
      (hsame (fun t p => {p with outputTensors := p.outputTensors ++ [t]}) (fun _ _ => rfl))
      (fun t ht => htensors t (mem_append_right _ ht))
    refine ⟨{m₁ with codes := codes₂}, ?_, hmapped₂⟩
    simp only [if_true, hcodes₁, hcodes₂, Option.bind_eq_bind, Option.bind_some]
    rfl

lemma map_mapped (hwf : WellFormed graph pipelines) : ∃ codes, map o graph pipelines = some codes ∧
    Mapped (inferenceWorkerNumber pipelines) pipelines.length graph.partyInfo
      (subDAGsAt pipelines) codes := by
  obtain ⟨m, hm, hmapped⟩ := foldlM_of_step (f := mapPipeline o graph pipelines)
    (P := fun visited m => Mapped (inferenceWorkerNumber pipelines) pipelines.length
      graph.partyInfo (subDAGsAt (visited.map Prod.fst)) m.codes) (s := {}) pipelines.zipIdx (by
    rintro visited ⟨pl, i⟩ rest hl m hm
    obtain ⟨hpipelines, hi⟩ := zipIdx_split hl
    obtain ⟨m', hm', hmapped⟩ := mapPipeline_mapped o hwf hpipelines hm
    refine ⟨m', by rw [hi, ← length_map (f := Prod.fst)]; exact hm', ?_⟩
    rw [map_append]
    exact hmapped)
    ⟨fun p hp => (AList.notMem_empty p hp).elim, fun hdone => by simp [subDAGsAt] at hdone,
      fun p _ => planFor_newExecutionPlan p⟩
  rw [zipIdx_map_fst] at hmapped
  exact ⟨m.codes, by rw [map, hm]; rfl, hmapped⟩

end Scql.GraphMapper
