import Scql.GraphMapper

/-! # The compiled plan and the order of execution

The plans of the mapper become the sub-graphs of the compiled plan. The jobs of a sub-DAG are
emitted in the order of a map loop, party by party, and an engine runs them in the order it finds
them. -/
namespace Scql.CompiledPlan

open MapRange MapUpdates ColumnControl ExecutionGraph GraphMapper List Function AList

structure Job where
  workerId : ℕ
  nodeIds : List ℕ

structure SubDAG where
  jobs : List Job
  needCallBarrierAfterJobs : Bool

structure Pipeline where
  batched : Bool := false
  inputs : List ℕ := []
  outputs : List ℕ := []
  subdags : List SubDAG

structure SubGraph where
  nodes : AList (fun _ : ℕ => ExecutionNode)
  workerNum : ℕ
  pipelines : List Pipeline

/-- The sub-graph of the `k`-th party that is visited. -/
def buildSubGraph (o : RangeOrder) (k : ℕ) (plan : ExecutionPlan) : SubGraph where
  nodes := plan.nodes
  workerNum := plan.workerNumber
  pipelines := plan.pipelineJobs.zipIdx.map (fun pl => {
    batched := pl.1.batched
    inputs := if pl.1.batched then pl.1.inputTensors else []
    outputs := if pl.1.batched then pl.1.outputTensors else []
    subdags := pl.1.jobs.zipIdx.map (fun pj => {
      jobs := (o.range 11 (Nat.pair k (Nat.pair pl.2 pj.2)) pj.1.jobs.entries).map
        (fun e => ⟨e.1, e.2⟩)
      needCallBarrierAfterJobs := pj.1.needCallBarrierAfterJobs})})

def buildCompiledPlan (o : RangeOrder) (execPlans : Codes) :
    AList (fun _ : PartyCode => SubGraph) :=
  (o.range 12 0 execPlans.entries).zipIdx.foldl
    (fun m e => m.insert e.1.1 (buildSubGraph o e.2 e.1.2)) ∅

/-- The nodes of a sub-DAG in the order of `RunPlanCore`. -/
def SubDAG.nodeIds (d : SubDAG) : List ℕ := d.jobs.flatMap (·.nodeIds)

/-- The order in which `RunPlanCore` executes nodes, with `batchNum i` batches in pipeline `i`. -/
def executionOrder (batchNum : ℕ → ℕ) (sg : SubGraph) : List ℕ :=
  sg.pipelines.zipIdx.flatMap (fun pl =>
    (replicate (batchNum pl.2) (pl.1.subdags.flatMap (·.nodeIds))).flatten)

variable {W : ℕ}

def emitted (o : RangeOrder) (k : ℕ) (jobs : AList (fun _ : ℕ => List ℕ)) : List ℕ :=
  (o.range 11 k jobs.entries).flatMap (·.2)

variable {l : List (GraphNode × ℕ)} {p : PartyCode} {o : RangeOrder} {k : ℕ} {e : (_ : ℕ) × List ℕ}

lemma mem_range_entries_dealt
  (he : e ∈ o.range 11 k (dealt W p l).jobs.entries) : e.2 = workerShare W p e.1 l := by
  have hlookup := mem_lookup_iff.mpr ((o.mem_range 11 k).mp he)
  rw [lookup_dealt] at hlookup
  split at hlookup
  · cases hlookup
  · exact (Option.some.inj hlookup).symm

lemma mem_entries_dealt {n : GraphNode × ℕ} (hn : n ∈ shareOf p l) :
  (⟨n.2%W, workerShare W p (n.2%W) l⟩ : (_ : ℕ) × List ℕ) ∈ (dealt W p l).jobs.entries := by
  have hshare : workerShare W p (n.2%W) l ≠ [] :=
    ne_nil_of_mem (mem_map.mpr ⟨n, mem_filter.mpr ⟨hn, by simp⟩, rfl⟩)
  rw [← mem_lookup_iff, lookup_dealt, if_neg hshare]
  rfl

lemma mem_workerShare {w a : ℕ} : a ∈ workerShare W p w l ↔ ∃ n ∈ shareOf p l, n.2%W = w ∧
    n.1.id = a := by
  simp [workerShare, and_assoc]

variable (o : RangeOrder)

lemma emitted_perm (k : ℕ) (p : PartyCode) (hids : (l.map (·.1.id)).Nodup) :
  (emitted o k (dealt W p l).jobs).Perm ((shareOf p l).map (·.1.id)) := by
  have hshare : ((shareOf p l).map (·.1.id)).Nodup :=
    hids.sublist (filter_sublist.map _)
  refine (perm_ext_iff_of_nodup ?_ hshare).mpr fun a => ?_
  · refine nodup_flatMap.mpr ⟨fun e he => ?_, ?_⟩
    · rw [mem_range_entries_dealt he]
      exact hshare.sublist (filter_sublist.map _)
    · have hkeys : (o.range 11 k (dealt W p l).jobs.entries).Pairwise (fun e e' => e.1 ≠ e'.1) := by
        rw [← pairwise_map (f := Sigma.fst) (R := (· ≠ ·))]
        exact (((o.perm 11 k _).map _).nodup_iff).mpr (dealt W p l).jobs.nodupKeys
      refine List.Pairwise.imp_of_mem (fun {e e'} he he' hne => ?_) hkeys
      intro a ha ha'
      beta_reduce at ha ha'
      rw [mem_range_entries_dealt he] at ha
      rw [mem_range_entries_dealt he'] at ha'
      obtain ⟨n, hn, hw, rfl⟩ := mem_workerShare.mp ha
      obtain ⟨n', hn', hw', heq⟩ := mem_workerShare.mp ha'
      obtain rfl := inj_on_of_nodup_map hshare hn' hn heq
      exact hne (hw.symm.trans hw')
  · rw [emitted, mem_flatMap]
    constructor
    · rintro ⟨e, he, ha⟩
      rw [mem_range_entries_dealt he] at ha
      obtain ⟨n, hn, -, rfl⟩ := mem_workerShare.mp ha
      exact mem_map.mpr ⟨n, hn, rfl⟩
    · intro ha
      obtain ⟨n, hn, rfl⟩ := mem_map.mp ha
      exact ⟨_, (o.mem_range 11 k).mpr (mem_entries_dealt hn),
        mem_workerShare.mpr ⟨n, hn, rfl, rfl⟩⟩

variable {N : ℕ}

def blocks (sg : SubGraph) : List (List (List ℕ)) :=
  sg.pipelines.map (fun pl => pl.subdags.map (·.nodeIds))

/-- The order of execution, from the nodes of each sub-DAG. -/
def orderOf (batchNum : ℕ → ℕ) (t : List (List (List ℕ))) : List ℕ :=
  t.zipIdx.flatMap (fun x => (replicate (batchNum x.2) x.1.flatten).flatten)

lemma executionOrder_eq (batchNum : ℕ → ℕ) (sg : SubGraph) :
  executionOrder batchNum sg = orderOf batchNum (blocks sg) := by
  rw [executionOrder, orderOf, blocks, zipIdx_map, flatMap_map]
  rfl

lemma filter_orderOf (batchNum : ℕ → ℕ) (t : List (List (List ℕ))) (f : ℕ → Bool) :
  (orderOf batchNum t).filter f = orderOf batchNum (t.map (·.map (·.filter f))) := by
  rw [orderOf, orderOf, filter_flatMap, zipIdx_map, flatMap_map]
  refine flatMap_congr fun x _ => ?_
  simp [filter_flatten]

def partyBlocks (o : RangeOrder) (W k : ℕ) (p : PartyCode) (pipelines : List GraphMapper.Pipeline) :
    List (List (List ℕ)) :=
  pipelines.zipIdx.map (fun x => x.1.subDAGs.zipIdx.map (fun y =>
    emitted o (Nat.pair k (Nat.pair x.2 y.2)) (dealt W p (sortedNodes y.1).zipIdx).jobs))

variable {plan : ExecutionPlan}

lemma map_fst_of_jobsFor {dags : List GraphMapper.SubDAG}
  {row : List (AList (fun _ : ℕ => List ℕ) × Bool)} (h : Forall₂ (JobsFor W p) dags row) :
  row.map Prod.fst = dags.map (fun dag => (dealt W p (sortedNodes dag).zipIdx).jobs) := by
  induction h with
  | nil => rfl
  | cons hx _ ih => rw [map_cons, map_cons, ih, hx.1]

variable {pipelines : List GraphMapper.Pipeline}

lemma table_of_planFor (h : PlanFor W pipelines.length p (subDAGsAt pipelines) plan) :
  plan.table.map (·.map Prod.fst) = pipelines.map (fun pl =>
    pl.subDAGs.map (fun dag => (dealt W p (sortedNodes dag).zipIdx).jobs)) := by
  refine ext_getElem? fun i => ?_
  rw [getElem?_map, getElem?_map]
  cases hpl : pipelines[i]? with
  | none =>
    have hlen : plan.table[i]? = none := by
      rw [List.getElem?_eq_none_iff, h.length]
      exact List.getElem?_eq_none_iff.mp hpl
    rw [hlen]
    rfl
  | some pl =>
    obtain ⟨row, hrow, -⟩ := h.row (List.getElem?_eq_some_iff.mp hpl).1
    have hjobs := h.jobs i row hrow
    rw [subDAGsAt, hpl] at hjobs
    rw [hrow, Option.map_some, Option.map_some, map_fst_of_jobsFor hjobs]
    rfl

lemma blocks_buildSubGraph (k : ℕ) (plan : ExecutionPlan) :
  blocks (buildSubGraph o k plan) = (plan.table.map (·.map Prod.fst)).zipIdx.map (fun x =>
    x.1.zipIdx.map (fun y => emitted o (Nat.pair k (Nat.pair x.2 y.2)) y.1)) := by
  rw [ExecutionPlan.table, map_map, zipIdx_map, map_map, blocks, buildSubGraph, map_map]
  refine map_congr_left fun x _ => ?_
  simp only [comp_apply, map_map, zipIdx_map, Prod.map]
  refine map_congr_left fun y _ => ?_
  simp [SubDAG.nodeIds, emitted, flatMap_map]

lemma blocks_of_planFor (k : ℕ) (h : PlanFor W pipelines.length p (subDAGsAt pipelines) plan) :
  blocks (buildSubGraph o k plan) = partyBlocks o W k p pipelines := by
  rw [blocks_buildSubGraph, table_of_planFor h, partyBlocks, zipIdx_map, map_map]
  refine map_congr_left fun x _ => ?_
  simp only [comp_apply, Prod.map, zipIdx_map, map_map]
  rfl

lemma lookup_buildCompiledPlan (codes : Codes) {sg : SubGraph} :
  (buildCompiledPlan o codes).lookup p = some sg ↔
    ∃ k plan, (o.range 12 0 codes.entries)[k]? = some ⟨p, plan⟩ ∧ sg = buildSubGraph o k plan := by
  have hfold : buildCompiledPlan o codes = ((o.range 12 0 codes.entries).zipIdx.map (fun e =>
      (e.1.1, buildSubGraph o e.2 e.1.2))).foldl (fun m x => m.insert x.1 x.2) ∅ := by
    rw [buildCompiledPlan, foldl_map]
  rw [hfold, lookup_foldl_insert]
  · rw [mem_map]
    constructor
    · rintro ⟨⟨⟨q, plan⟩, k⟩, hmem, heq⟩
      obtain ⟨rfl, rfl⟩ := Prod.ext_iff.mp heq
      exact ⟨k, plan, mem_zipIdx_iff_getElem?.mp hmem, rfl⟩
    · rintro ⟨k, plan, hget, rfl⟩
      exact ⟨(⟨p, plan⟩, k), mem_zipIdx_iff_getElem?.mpr hget, rfl⟩
  · have hkeys : ((o.range 12 0 codes.entries).map Sigma.fst).Nodup :=
      (((o.perm 12 0 _).map _).nodup_iff).mpr codes.nodupKeys
    rw [map_map]
    convert hkeys using 1
    conv_rhs => rw [← zipIdx_map_fst 0 (o.range 12 0 codes.entries), map_map]
    rfl

lemma mem_codes_of_getElem? {o : RangeOrder} {codes : Codes}
  (h : (o.range 12 0 codes.entries)[k]? = some ⟨p, plan⟩) : codes.lookup p = some plan :=
  mem_lookup_iff.mpr ((o.mem_range 12 0).mp (mem_of_getElem? h))

variable {α : Type}

lemma le_foldl_max (f : α → ℕ) (l : List α) (m : ℕ) : m ≤ l.foldl (fun w a => max w (f a)) m := by
  induction l generalizing m with
  | nil => exact le_rfl
  | cons a l ih => exact (le_max_left m (f a)).trans (ih _)

lemma inferenceWorkerNumber_pos (pipelines : List GraphMapper.Pipeline) :
  0 < inferenceWorkerNumber pipelines := by
  have hone :=
    le_foldl_max (fun dag : GraphMapper.SubDAG => dag.length) (pipelines.flatMap (·.subDAGs)) 1
  have hcap : ∀ m : ℕ, 1 ≤ m → 0 < if m ≤ 8 then m else if m > 16 then 8 else m/2 := by
    intro m hm
    split_ifs <;> omega
  exact hcap _ hone

variable {p : PartyCode}

lemma workerId_lt (hW : 0 < W) {l : List (GraphNode × ℕ)} (he : e ∈ (dealt W p l).jobs.entries) :
    e.1 < W := by
  have hlookup := mem_lookup_iff.mpr he
  rw [lookup_dealt] at hlookup
  split at hlookup
  · cases hlookup
  · next hne =>
    obtain ⟨a, ha⟩ := exists_mem_of_ne_nil _ hne
    obtain ⟨n, -, hw, -⟩ := mem_workerShare.mp ha
    exact hw ▸ Nat.mod_lt _ hW

lemma exists_of_forall₂ {β : Type} {R : α → β → Prop} {l : List α} {l' : List β}
  (h : Forall₂ R l l') {j : ℕ} {a : α} (ha : l[j]? = some a) : ∃ b, l'[j]? = some b ∧ R a b := by
  induction h generalizing j with
  | nil => cases ha
  | cons hab _ ih =>
    cases j with
    | zero =>
      cases ha
      exact ⟨_, rfl, hab⟩
    | succ j => exact ih ha

lemma map_id_zipIdx (l : List GraphNode) : l.zipIdx.map (·.1.id) = l.map (·.id) := by
  conv_rhs => rw [← zipIdx_map_fst 0 l, map_map]
  rfl

lemma nodup_sortedNodes {dag : GraphMapper.SubDAG} (hids : (dag.map (·.id)).Nodup) :
  ((sortedNodes dag).zipIdx.map (·.1.id)).Nodup := by
  rw [map_id_zipIdx]
  exact (((sortedNodes_perm dag).map _).nodup_iff).mpr hids

lemma shareOf_sortedNodes_perm (p : PartyCode) (dag : GraphMapper.SubDAG) :
  ((shareOf p (sortedNodes dag).zipIdx).map (·.1.id)).Perm
    ((dag.filter (fun n => p ∈ n.node.parties)).map (·.id)) := by
  have hshare : (shareOf p (sortedNodes dag).zipIdx).map Prod.fst =
      (sortedNodes dag).filter (fun n => p ∈ n.node.parties) := by
    conv_rhs => rw [← zipIdx_map_fst 0 (sortedNodes dag), filter_map]
    rfl
  have hmap : (shareOf p (sortedNodes dag).zipIdx).map (·.1.id) =
      ((shareOf p (sortedNodes dag).zipIdx).map Prod.fst).map (·.id) := by
    rw [map_map]
    rfl
  rw [hmap, hshare]
  exact ((sortedNodes_perm dag).filter _).map _

/-- What a party finds at the position of a sub-DAG: its nodes, each once, on workers that
exist, and a barrier if another party works there too. -/
structure PlacedAt (p : PartyCode) (dag : GraphMapper.SubDAG) (workerNum : ℕ) (d : SubDAG) :
    Prop where
  nodeIds : d.nodeIds.Perm ((dag.filter (fun n => p ∈ n.node.parties)).map (·.id))
  workerId : ∀ job ∈ d.jobs, job.workerId < workerNum
  barrier : d.needCallBarrierAfterJobs = true ↔ SharedWork dag

structure Placed (p : PartyCode) (pipelines : List GraphMapper.Pipeline) (sg : SubGraph) :
    Prop where
  counts : sg.pipelines.map (·.subdags.length) = pipelines.map (·.subDAGs.length)
  positions : ∀ (i j : ℕ) (dag : GraphMapper.SubDAG), (subDAGsAt pipelines i)[j]? = some dag →
    ∃ pl d, sg.pipelines[i]? = some pl ∧ pl.subdags[j]? = some d ∧ PlacedAt p dag sg.workerNum d
  nodes : ∀ n ∈ (pipelines.flatMap (·.subDAGs)).flatten, p ∈ n.node.parties →
    sg.nodes.lookup n.id = some (copyOf n)

lemma placed_buildSubGraph (k : ℕ) {pipelines : List GraphMapper.Pipeline} {plan : ExecutionPlan}
    (hW : 0 < W)
  (hids : ∀ i, ∀ dag ∈ subDAGsAt pipelines i, (dag.map (·.id)).Nodup)
  (h : PlanFor W pipelines.length p (subDAGsAt pipelines) plan) :
  Placed p pipelines (buildSubGraph o k plan) := by
  refine ⟨?_, fun i j dag hdag => ?_, fun n hn hp => ?_⟩
  · have hlen := congrArg (map length) (blocks_of_planFor o k h)
    rw [blocks, map_map, partyBlocks, map_map] at hlen
    conv_rhs => rw [← zipIdx_map_fst 0 pipelines, map_map]
    simpa [comp_def] using hlen
  · have hi : i < pipelines.length := by
      by_contra hi
      rw [subDAGsAt, getElem?_eq_none (Nat.le_of_not_lt hi)] at hdag
      cases hdag
    obtain ⟨row, hrow, -⟩ := h.row hi
    obtain ⟨x, hx, hjobs, hbarrier⟩ := exists_of_forall₂ (h.jobs i row hrow) hdag
    rw [ExecutionPlan.table, getElem?_map] at hrow
    obtain ⟨pl, hpl, rfl⟩ := Option.map_eq_some_iff.mp hrow
    rw [getElem?_map] at hx
    obtain ⟨pj, hpj, rfl⟩ := Option.map_eq_some_iff.mp hx
    refine ⟨_, _, by simp only [buildSubGraph, getElem?_map, getElem?_zipIdx, hpl]; rfl,
      by simp only [getElem?_map, getElem?_zipIdx, hpj]; rfl, ?_, ?_, hbarrier⟩
    · have hemitted := emitted_perm (W := W) o (Nat.pair k (Nat.pair (0+i) (0+j))) p
        (nodup_sortedNodes (hids i dag (mem_of_getElem? hdag)))
      rw [← hjobs] at hemitted
      refine Perm.trans (.of_eq ?_) (hemitted.trans (shareOf_sortedNodes_perm p dag))
      simp only [SubDAG.nodeIds, flatMap_map]
      rfl
    · intro job hjob
      obtain ⟨e, he, rfl⟩ := mem_map.mp hjob
      have he : e ∈ pj.jobs.entries := (o.mem_range _ _).mp he
      have hjobs : pj.jobs = (dealt W p (sortedNodes dag).zipIdx).jobs := hjobs
      rw [hjobs] at he
      have hlt := workerId_lt hW he
      rw [← h.workerNumber] at hlt
      exact hlt
  · obtain ⟨dag, hdag, hn⟩ := mem_flatten.mp hn
    obtain ⟨pl, hpl, hdag⟩ := mem_flatMap.mp hdag
    obtain ⟨i, hi⟩ := mem_iff_getElem?.mp hpl
    exact h.nodes i dag (by rw [subDAGsAt, hi]; exact hdag) n hn hp

end Scql.CompiledPlan
