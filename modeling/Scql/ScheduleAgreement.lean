import Scql.CompiledPlan

/-! # Agreement of the parties' schedules

Two parties run the nodes they share in the same order if the order of the jobs cannot matter:
nodes on different workers of a sub-DAG have at most one party in common. Otherwise some order of
the map loops makes them disagree. -/
namespace Scql.CompiledPlan

open MapRange MapUpdates ColumnControl ExecutionGraph GraphMapper List AList

variable {α : Type} {l : List α}

lemma sublist_or_sublist {a b : α} (ha : a ∈ l) (hb : b ∈ l) (hab : a ≠ b) :
    [a, b].Sublist l ∨ [b, a].Sublist l := by
  induction l with
  | nil => cases ha
  | cons c l ih =>
    rcases mem_cons.mp ha with rfl | ha'
    · have hb' : b ∈ l := (mem_cons.mp hb).resolve_left (Ne.symm hab)
      exact .inl ((singleton_sublist.mpr hb').cons_cons a)
    · rcases mem_cons.mp hb with rfl | hb'
      · exact .inr ((singleton_sublist.mpr ha').cons_cons b)
      · exact (ih ha' hb').imp (.cons c) (.cons c)

lemma not_sublist_swap (hl : l.Nodup) {a b : α} (hab : [a, b].Sublist l) : ¬ [b, a].Sublist l := by
  intro hba
  have hne : a ≠ b := by
    rintro rfl
    simpa using hl.sublist hab
  induction l with
  | nil => cases hab
  | cons c l ih =>
    obtain ⟨hc, hl⟩ := nodup_cons.mp hl
    rcases cons_sublist_cons'.mp hab with hab' | ⟨hac, -⟩
    · rcases cons_sublist_cons'.mp hba with hba' | ⟨hbc, -⟩
      · exact ih hl hab' hba'
      · exact hc (hbc ▸ hab'.subset (by simp : b ∈ [a, b]))
    · rcases cons_sublist_cons'.mp hba with hba' | ⟨hbc, -⟩
      · exact hc (hac ▸ hba'.subset (by simp : a ∈ [b, a]))
      · exact hne (hac.trans hbc.symm)

lemma flatMap_eq_of_unique {β : Type} (hl : l.Nodup) {a : α} (ha : a ∈ l) {f : α → List β}
  (hf : ∀ b ∈ l, b ≠ a → f b = []) : l.flatMap f = f a := by
  induction l with
  | nil => cases ha
  | cons c l ih =>
    obtain ⟨hc, hl⟩ := nodup_cons.mp hl
    rw [flatMap_cons]
    rcases mem_cons.mp ha with rfl | ha
    · have hrest : l.flatMap f = [] :=
        flatMap_eq_nil_iff.mpr fun b hb => hf b (by simp [hb]) (fun h => hc (h ▸ hb))
      rw [hrest, append_nil]
    · rw [hf c (by simp) (fun h => hc (h ▸ ha)), nil_append]
      exact ih hl ha fun b hb => hf b (by simp [hb])

variable {W : ℕ}

def bothOf (p q : PartyCode) (l : List (GraphNode × ℕ)) : List ℕ :=
  (l.filter (fun x => p ∈ x.1.node.parties ∧ q ∈ x.1.node.parties)).map (·.1.id)

variable {p q : PartyCode} {l : List (GraphNode × ℕ)} {f : ℕ → Bool}
    {pipelines : List GraphMapper.Pipeline}

lemma filter_workerShare
    (hf : ∀ x ∈ l, p ∈ x.1.node.parties → (f x.1.id = true ↔ q ∈ x.1.node.parties)) (w : ℕ) :
  (workerShare W p w l).filter f = bothOf p q (l.filter (fun x => x.2%W = w)) := by
  rw [workerShare, filter_map, shareOf, filter_filter, filter_filter, bothOf, filter_filter]
  congr 1
  refine filter_congr fun x hx => ?_
  by_cases hp : p ∈ x.1.node.parties
  · have := hf x hx hp
    by_cases hq : q ∈ x.1.node.parties <;> by_cases hw : x.2%W = w <;> simp_all
  · simp [hp]

/-- Of what a party emits, the nodes it shares with another come in the order they were dealt,
if they were dealt to one worker. -/
lemma filter_emitted (o : RangeOrder) (k : ℕ)
  (hf : ∀ x ∈ l, p ∈ x.1.node.parties → (f x.1.id = true ↔ q ∈ x.1.node.parties))
  (hsame : ∀ x ∈ l, ∀ y ∈ l, p ∈ x.1.node.parties → q ∈ x.1.node.parties → p ∈ y.1.node.parties →
    q ∈ y.1.node.parties → x.2%W = y.2%W)
  : (emitted o k (dealt W p l).jobs).filter f = bothOf p q l := by
  rw [emitted, filter_flatMap]
  have hentry : ∀ e ∈ o.range 11 k (dealt W p l).jobs.entries,
      e.2.filter f = bothOf p q (l.filter (fun x => x.2%W = e.1)) := by
    intro e he
    rw [mem_range_entries_dealt he, filter_workerShare hf]
  by_cases hnone : bothOf p q l = []
  · rw [hnone]
    refine flatMap_eq_nil_iff.mpr fun e he => ?_
    rw [hentry e he]
    refine eq_nil_of_sublist_nil ?_
    rw [← hnone]
    exact (filter_sublist.filter _).map _
  · obtain ⟨a, ha⟩ := exists_mem_of_ne_nil _ hnone
    obtain ⟨x, hx, rfl⟩ := mem_map.mp ha
    obtain ⟨hx, hboth⟩ := mem_filter.mp hx
    simp only [decide_eq_true_eq] at hboth
    have hall :
      ∀ w, bothOf p q (l.filter (fun y => y.2%W = w)) = if w = x.2%W then bothOf p q l else [] := by
      intro w
      rw [bothOf, filter_filter]
      split
      · next hw =>
        rw [bothOf]
        congr 1
        refine filter_congr fun y hy => ?_
        by_cases hb : p ∈ y.1.node.parties ∧ q ∈ y.1.node.parties
        · simp [hb, hw, hsame y hy x hx hb.1 hb.2 hboth.1 hboth.2]
        · simp [hb]
      · next hw =>
        rw [map_eq_nil_iff, filter_eq_nil_iff]
        intro y hy hb
        simp only [Bool.and_eq_true, decide_eq_true_eq] at hb
        exact hw (hb.2.symm.trans (hsame y hy x hx hb.1.1 hb.1.2 hboth.1 hboth.2))
    have hmem : (⟨x.2%W, workerShare W p (x.2%W) l⟩ : (_ : ℕ) × List ℕ) ∈
        o.range 11 k (dealt W p l).jobs.entries :=
      (o.mem_range 11 k).mpr (mem_entries_dealt (mem_filter.mpr ⟨hx, by simpa using hboth.1⟩))
    have hnodup : (o.range 11 k (dealt W p l).jobs.entries).Nodup :=
      (o.nodup_range 11 k).mpr (dealt W p l).jobs.nodupKeys.nodup
    rw [flatMap_eq_of_unique hnodup hmem, hentry _ hmem, hall, if_pos rfl]
    intro e he hne
    rw [hentry e he, hall, if_neg]
    intro hw
    have hkey := mem_range_entries_dealt he
    exact hne (by rw [← hw, ← hkey])

def commonParties (m n : GraphNode) : List PartyCode :=
  m.node.parties.filter (fun p => p ∈ n.node.parties)

/-- Nodes of a sub-DAG on different workers have at most one party in common. -/
def WorkersApart (pipelines : List GraphMapper.Pipeline) : Prop :=
  ∀ pl ∈ pipelines, ∀ dag ∈ pl.subDAGs, ∀ x ∈ (sortedNodes dag).zipIdx,
    ∀ y ∈ (sortedNodes dag).zipIdx,
      x.2%inferenceWorkerNumber pipelines ≠ y.2%inferenceWorkerNumber pipelines →
      ∀ p ∈ commonParties x.1 y.1, ∀ q ∈ commonParties x.1 y.1, p = q

instance (pipelines : List GraphMapper.Pipeline) : Decidable (WorkersApart pipelines) := by
  unfold WorkersApart
  infer_instance

def sharedNodes (p q : PartyCode) (pipelines : List GraphMapper.Pipeline) : List ℕ :=
  ((pipelines.flatMap (·.subDAGs)).flatten.filter
    (fun n => p ∈ n.node.parties ∧ q ∈ n.node.parties)).map (·.id)

variable {pl : GraphMapper.Pipeline} {i : ℕ} {dag : GraphMapper.SubDAG}

section
variable (hids : ((pipelines.flatMap (·.subDAGs)).flatten.map (·.id)).Nodup)
include hids

lemma mem_sharedNodes_iff (hpl : pl ∈ pipelines) (hdag : dag ∈ pl.subDAGs) {n : GraphNode}
    (hn : n ∈ dag) :
  n.id ∈ sharedNodes p q pipelines ↔ p ∈ n.node.parties ∧ q ∈ n.node.parties := by
  have hmem : n ∈ (pipelines.flatMap (·.subDAGs)).flatten :=
    mem_flatten.mpr ⟨dag, mem_flatMap.mpr ⟨pl, hpl, hdag⟩, hn⟩
  constructor
  · intro h
    obtain ⟨n', hn', hid⟩ := mem_map.mp h
    obtain ⟨hn', hboth⟩ := mem_filter.mp hn'
    obtain rfl := inj_on_of_nodup_map hids hn' hmem hid
    simpa using hboth
  · intro h
    exact mem_map.mpr ⟨n, mem_filter.mpr ⟨hmem, by simpa using h⟩, rfl⟩

lemma filter_partyBlocks (hapart : WorkersApart pipelines) (o : RangeOrder) (k : ℕ) (hpq : p ≠ q)
  (hf : ∀ a, f a = true ↔ a ∈ sharedNodes p q pipelines) :
  (partyBlocks o (inferenceWorkerNumber pipelines) k p pipelines).map (·.map (·.filter f)) =
    pipelines.map (fun pl => pl.subDAGs.map (fun dag => bothOf p q (sortedNodes dag).zipIdx)) := by
  conv_rhs => rw [← zipIdx_map_fst 0 pipelines]
  rw [partyBlocks, map_map, map_map]
  refine map_congr_left fun x hx => ?_
  have hpl := fst_mem_of_mem_zipIdx hx
  simp only [Function.comp_apply]
  conv_rhs => rw [← zipIdx_map_fst 0 x.1.subDAGs]
  rw [map_map, map_map]
  refine map_congr_left fun y hy => ?_
  have hdag := fst_mem_of_mem_zipIdx hy
  refine filter_emitted o _ (fun z hz hp => ?_) (fun z hz z' hz' hp hq hp' hq' => ?_)
  · have hz := (sortedNodes_perm y.1).mem_iff.mp (fst_mem_of_mem_zipIdx hz)
    rw [hf, mem_sharedNodes_iff hids hpl hdag hz]
    exact and_iff_right hp
  · by_contra hne
    exact hpq (hapart x.1 hpl y.1 hdag z hz z' hz' hne p (mem_filter.mpr ⟨hp, by simpa using hp'⟩) q
      (mem_filter.mpr ⟨hq, by simpa using hq'⟩))

end

lemma bothOf_comm (p q : PartyCode) (l : List (GraphNode × ℕ)) : bothOf p q l = bothOf q p l := by
  simp only [bothOf, and_comm]

lemma sharedNodes_comm (p q : PartyCode) (pipelines : List GraphMapper.Pipeline) :
  sharedNodes p q pipelines = sharedNodes q p pipelines := by
  simp only [sharedNodes, and_comm]

lemma orderOf_one (t : List (List (List ℕ))) : orderOf (fun _ => 1) t = t.flatten.flatten := by
  suffices h : ∀ n, (t.zipIdx n).flatMap (fun x => (replicate 1 x.1.flatten).flatten) =
      t.flatten.flatten from h 0
  induction t with
  | nil => exact fun _ => rfl
  | cons b t ih =>
    intro n
    rw [zipIdx_cons, flatMap_cons, ih (n+1)]
    simp

lemma flatMap_zipIdx_perm {α β : Type} {F : α × ℕ → List β} {G : α → List β} {l : List α} {n : ℕ}
  (h : ∀ x ∈ l.zipIdx n, (F x).Perm (G x.1)) : ((l.zipIdx n).flatMap F).Perm (l.flatMap G) := by
  induction l generalizing n with
  | nil => exact .refl _
  | cons a l ih =>
    rw [zipIdx_cons] at h ⊢
    rw [flatMap_cons, flatMap_cons]
    exact (h (a, n) (by simp)).append (ih fun x hx => h x (mem_cons_of_mem _ hx))

lemma flatten_partyBlocks_perm (o : RangeOrder) (k : ℕ) (p : PartyCode)
  (hids : ((pipelines.flatMap (·.subDAGs)).flatten.map (·.id)).Nodup) :
  (partyBlocks o W k p pipelines).flatten.flatten.Perm
    (((pipelines.flatMap (·.subDAGs)).flatten.filter
      (fun n => p ∈ n.node.parties)).map (·.id)) := by
  have hright : ((pipelines.flatMap (·.subDAGs)).flatten.filter
      (fun n => p ∈ n.node.parties)).map (·.id) = pipelines.flatMap (fun pl =>
        pl.subDAGs.flatMap (fun dag => (dag.filter (fun n => p ∈ n.node.parties)).map (·.id))) := by
    rw [← flatMap_id, filter_flatMap, map_flatMap, flatMap_assoc]
    rfl
  have hleft : (partyBlocks o W k p pipelines).flatten.flatten = pipelines.zipIdx.flatMap (fun x =>
      x.1.subDAGs.zipIdx.flatMap (fun y =>
        emitted o (Nat.pair k (Nat.pair x.2 y.2)) (dealt W p (sortedNodes y.1).zipIdx).jobs)) := by
    rw [partyBlocks, ← flatMap_def, ← flatMap_id, flatMap_assoc]
    refine flatMap_congr fun x _ => ?_
    rw [flatMap_map]
    rfl
  rw [hleft, hright]
  refine flatMap_zipIdx_perm fun x hx => flatMap_zipIdx_perm fun y hy => ?_
  have hdag : (y.1.map (·.id)).Nodup := by
    refine hids.sublist ((sublist_flatten_of_mem ?_).map _)
    exact mem_flatMap.mpr ⟨x.1, fst_mem_of_mem_zipIdx hx, fst_mem_of_mem_zipIdx hy⟩
  exact (emitted_perm o _ p (nodup_sortedNodes hdag)).trans (shareOf_sortedNodes_perm p y.1)

lemma nodup_partyBlocks (o : RangeOrder) (k : ℕ) (p : PartyCode)
  (hids : ((pipelines.flatMap (·.subDAGs)).flatten.map (·.id)).Nodup) :
  (partyBlocks o W k p pipelines).flatten.flatten.Nodup :=
  (flatten_partyBlocks_perm o k p hids).nodup_iff.mpr (hids.sublist (filter_sublist.map _))

/-- One execution of the loop over the jobs visits them in reverse. -/
def reverseAt (k : ℕ) : RangeOrder where
  range i j l := if i = 11 ∧ j = k then l.reverse else l
  perm i j l := by
    split
    · exact reverse_perm l
    · exact Perm.refl l

lemma emitted_reverseAt (k : ℕ) (jobs : AList (fun _ : ℕ => List ℕ)) :
  emitted (reverseAt k) k jobs = jobs.entries.reverse.flatMap (·.2) := by
  simp [emitted, reverseAt]

lemma emitted_reverseAt_of_ne {k j : ℕ} (h : j ≠ k) (jobs : AList (fun _ : ℕ => List ℕ)) :
  emitted (reverseAt k) j jobs = emitted .inserted j jobs := by
  simp [emitted, reverseAt, RangeOrder.inserted, h]

lemma sublist_flatMap {α β : Type} {e e' : α} {l : List α} {f : α → List β} {a b : β}
  (h : [e, e'].Sublist l) (ha : a ∈ f e) (hb : b ∈ f e') : [a, b].Sublist (l.flatMap f) := by
  have hpair : [a, b].Sublist ([e, e'].flatMap f) := by
    simpa using (singleton_sublist.mpr ha).append (singleton_sublist.mpr hb)
  exact hpair.trans (h.flatMap f)

lemma swapped_of_workers_ne {k : ℕ} {p : PartyCode} {l : List (GraphNode × ℕ)}
  {x y : GraphNode × ℕ} (hx : x ∈ shareOf p l) (hy : y ∈ shareOf p l) (hne : x.2%W ≠ y.2%W) :
  ([x.1.id, y.1.id].Sublist (emitted .inserted k (dealt W p l).jobs) ∧
    [y.1.id, x.1.id].Sublist (emitted (reverseAt k) k (dealt W p l).jobs)) ∨
  ([y.1.id, x.1.id].Sublist (emitted .inserted k (dealt W p l).jobs) ∧
    [x.1.id, y.1.id].Sublist (emitted (reverseAt k) k (dealt W p l).jobs)) := by
  have hex := mem_entries_dealt (W := W) hx
  have hey := mem_entries_dealt (W := W) hy
  have hax : x.1.id ∈ workerShare W p (x.2%W) l := mem_workerShare.mpr ⟨x, hx, rfl, rfl⟩
  have hay : y.1.id ∈ workerShare W p (y.2%W) l := mem_workerShare.mpr ⟨y, hy, rfl, rfl⟩
  rw [emitted_reverseAt]
  refine (sublist_or_sublist hex hey (fun h => hne (congrArg Sigma.fst h))).imp (fun h => ?_)
    (fun h => ?_)
  · exact ⟨sublist_flatMap h hax hay,
      sublist_flatMap (by simpa using reverse_sublist.mpr h) hay hax⟩
  · exact ⟨sublist_flatMap h hay hax,
      sublist_flatMap (by simpa using reverse_sublist.mpr h) hax hay⟩

lemma emitted_sublist (o : RangeOrder) (k : ℕ) (p : PartyCode) {j : ℕ}
  (hpl : pipelines[i]? = some pl) (hdag : pl.subDAGs[j]? = some dag) :
  (emitted o (Nat.pair k (Nat.pair i j)) (dealt W p (sortedNodes dag).zipIdx).jobs).Sublist
    (partyBlocks o W k p pipelines).flatten.flatten := by
  have hpl' : (pl, i) ∈ pipelines.zipIdx := mem_zipIdx_iff_getElem?.mpr hpl
  have hdag' : (dag, j) ∈ pl.subDAGs.zipIdx := mem_zipIdx_iff_getElem?.mpr hdag
  refine sublist_flatten_of_mem (mem_flatten.mpr ⟨_, mem_map.mpr ⟨_, hpl', rfl⟩, ?_⟩)
  exact mem_map.mpr ⟨_, hdag', rfl⟩

lemma partyBlocks_reverseAt {k k' j : ℕ} (h : k' ≠ k) (p : PartyCode)
  (pipelines : List GraphMapper.Pipeline) :
  partyBlocks (reverseAt (Nat.pair k (Nat.pair i j))) W k' p pipelines =
    partyBlocks .inserted W k' p pipelines := by
  refine map_congr_left fun x _ => map_congr_left fun y _ => emitted_reverseAt_of_ne ?_ _
  exact fun heq => h (Nat.pair_eq_pair.mp heq).1

variable {graph : Graph} {codes : Codes} {dag : GraphMapper.SubDAG}

lemma nodup_of_mem_subDAGsAt (hwf : WellFormed graph pipelines)
    (hdag : dag ∈ subDAGsAt pipelines i) :
  (dag.map (·.id)).Nodup := by
  obtain ⟨pl, hpl, hdag⟩ := mem_of_mem_subDAGsAt hdag
  exact hwf.ids.sublist ((sublist_flatten_of_mem (mem_flatMap.mpr ⟨pl, hpl, hdag⟩)).map _)

variable {o : RangeOrder}

lemma exists_planFor
  (hcodes : Mapped (inferenceWorkerNumber pipelines) pipelines.length graph.partyInfo
    (subDAGsAt pipelines) codes)
  {sg : SubGraph} (hsg : (buildCompiledPlan o codes).lookup p = some sg) :
  ∃ k plan, (o.range 12 0 codes.entries)[k]? = some ⟨p, plan⟩ ∧ sg = buildSubGraph o k plan ∧
    PlanFor (inferenceWorkerNumber pipelines) pipelines.length p (subDAGsAt pipelines) plan := by
  obtain ⟨k, plan, hget, rfl⟩ := (lookup_buildCompiledPlan o codes).mp hsg
  have hlookup := mem_codes_of_getElem? hget
  have hp : p ∈ graph.partyInfo := hcodes.known p (lookup_isSome.mp (by simp [hlookup]))
  have hplan := hcodes.plan p hp
  rw [planOf, hlookup] at hplan
  exact ⟨k, plan, hget, rfl, hplan⟩

variable {q : PartyCode}

lemma filter_executionOrder (hwf : WellFormed graph pipelines) (hapart : WorkersApart pipelines)
  (o : RangeOrder) (k : ℕ) (hpq : p ≠ q) {plan : ExecutionPlan}
  (hplan : PlanFor (inferenceWorkerNumber pipelines) pipelines.length p (subDAGsAt pipelines) plan)
  (batchNum : ℕ → ℕ) :
  (executionOrder batchNum (buildSubGraph o k plan)).filter (· ∈ sharedNodes p q pipelines) =
    orderOf batchNum (pipelines.map (fun pl =>
      pl.subDAGs.map (fun dag => bothOf p q (sortedNodes dag).zipIdx))) := by
  rw [executionOrder_eq, filter_orderOf, blocks_of_planFor o k hplan,
    filter_partyBlocks hwf.ids hapart o k hpq (fun a => by simp)]

lemma executionOrder_one (o : RangeOrder) (k : ℕ) {plan : ExecutionPlan}
  (hplan : PlanFor (inferenceWorkerNumber pipelines) pipelines.length p (subDAGsAt pipelines) plan)
  : executionOrder (fun _ => 1) (buildSubGraph o k plan) =
    (partyBlocks o (inferenceWorkerNumber pipelines) k p pipelines).flatten.flatten := by
  rw [executionOrder_eq, orderOf_one, blocks_of_planFor o k hplan]

lemma exists_plan
  (hcodes : Mapped (inferenceWorkerNumber pipelines) pipelines.length graph.partyInfo
    (subDAGsAt pipelines) codes)
  (hi : subDAGsAt pipelines i ≠ []) (hp : p ∈ graph.partyInfo) :
  ∃ (k : ℕ) (plan : ExecutionPlan), codes.entries[k]? = some ⟨p, plan⟩ ∧
    PlanFor (inferenceWorkerNumber pipelines) pipelines.length p (subDAGsAt pipelines) plan := by
  obtain ⟨plan, hlookup⟩ :=
    Option.isSome_iff_exists.mp (lookup_isSome.mpr (hcodes.present ⟨i, hi⟩ p hp))
  obtain ⟨k, hk⟩ := mem_iff_getElem?.mp (mem_lookup_iff.mp hlookup)
  have hplan := hcodes.plan p hp
  rw [planOf, hlookup] at hplan
  exact ⟨k, plan, hk, hplan⟩

lemma sublist_filter_pair {l : List ℕ} {f : ℕ → Bool} {a b : ℕ} (h : [a, b].Sublist l)
  (ha : f a = true) (hb : f b = true) : [a, b].Sublist (l.filter f) := by
  have := h.filter f
  rwa [filter_cons_of_pos ha, filter_cons_of_pos hb] at this

/-- Two nodes on different workers with two parties in common can be run in different orders. -/
lemma exists_disagreement (hwf : WellFormed graph pipelines)
  (hcodes : Mapped (inferenceWorkerNumber pipelines) pipelines.length graph.partyInfo
    (subDAGsAt pipelines) codes)
  (hpl : pl ∈ pipelines) (hdag : dag ∈ pl.subDAGs) {x y : GraphNode × ℕ}
  (hx : x ∈ (sortedNodes dag).zipIdx) (hy : y ∈ (sortedNodes dag).zipIdx)
  (hne : x.2%inferenceWorkerNumber pipelines ≠ y.2%inferenceWorkerNumber pipelines)
  (hpq : p ≠ q) (hp : p ∈ commonParties x.1 y.1) (hq : q ∈ commonParties x.1 y.1) :
  ∃ o sgp sgq, (buildCompiledPlan o codes).lookup p = some sgp ∧
    (buildCompiledPlan o codes).lookup q = some sgq ∧
    (executionOrder (fun _ => 1) sgp).filter (· ∈ sharedNodes p q pipelines) ≠
      (executionOrder (fun _ => 1) sgq).filter (· ∈ sharedNodes p q pipelines) := by
  obtain ⟨hpx, hpy⟩ := mem_filter.mp hp
  obtain ⟨hqx, hqy⟩ := mem_filter.mp hq
  simp only [decide_eq_true_eq] at hpy hqy
  have hx' := (sortedNodes_perm dag).mem_iff.mp (fst_mem_of_mem_zipIdx hx)
  have hy' := (sortedNodes_perm dag).mem_iff.mp (fst_mem_of_mem_zipIdx hy)
  obtain ⟨i, hi⟩ := mem_iff_getElem?.mp hpl
  obtain ⟨j, hj⟩ := mem_iff_getElem?.mp hdag
  have hsome : subDAGsAt pipelines i ≠ [] := by
    rw [subDAGsAt, hi]
    exact ne_nil_of_mem hdag
  obtain ⟨kp, planp, hkp, hplanp⟩ :=
    exists_plan hcodes hsome (hwf.parties pl hpl dag hdag x.1 hx' p hpx)
  obtain ⟨kq, planq, hkq, hplanq⟩ :=
    exists_plan hcodes hsome (hwf.parties pl hpl dag hdag x.1 hx' q hqx)
  have hk : kp ≠ kq := by
    rintro rfl
    exact hpq (congrArg Sigma.fst (Option.some.inj (hkp.symm.trans hkq)))
  let r := reverseAt (Nat.pair kq (Nat.pair i j))
  by_contra hagree
  push Not at hagree
  -- the two orders differ for `q` only, so `q` would have to run both orders alike
  have hins := hagree .inserted _ _ ((lookup_buildCompiledPlan _ _).mpr ⟨kp, planp, hkp, rfl⟩)
    ((lookup_buildCompiledPlan _ _).mpr ⟨kq, planq, hkq, rfl⟩)
  have hrev := hagree r _ _ ((lookup_buildCompiledPlan _ _).mpr ⟨kp, planp, hkp, rfl⟩)
    ((lookup_buildCompiledPlan _ _).mpr ⟨kq, planq, hkq, rfl⟩)
  rw [executionOrder_one _ _ hplanp, executionOrder_one _ _ hplanq] at hins hrev
  rw [partyBlocks_reverseAt hk, hins] at hrev
  let f := fun a => decide (a ∈ sharedNodes p q pipelines)
  have hfx : f x.1.id = true :=
    decide_eq_true ((mem_sharedNodes_iff hwf.ids hpl hdag hx').mpr ⟨hpx, hqx⟩)
  have hfy : f y.1.id = true :=
    decide_eq_true ((mem_sharedNodes_iff hwf.ids hpl hdag hy').mpr ⟨hpy, hqy⟩)
  have hnodup :
    ((partyBlocks r (inferenceWorkerNumber pipelines) kq q pipelines).flatten.flatten.filter
      f).Nodup := (nodup_partyBlocks r kq q hwf.ids).filter _
  rcases swapped_of_workers_ne (k := Nat.pair kq (Nat.pair i j))
    (mem_filter.mpr ⟨hx, by simpa using hqx⟩) (mem_filter.mpr ⟨hy, by simpa using hqy⟩)
    hne with ⟨hxy, hyx⟩ | ⟨hyx, hxy⟩
  · have hxy :=
      sublist_filter_pair (f := f) (hxy.trans (emitted_sublist .inserted kq q hi hj)) hfx hfy
    have hyx := sublist_filter_pair (f := f) (hyx.trans (emitted_sublist r kq q hi hj)) hfy hfx
    rw [hrev] at hxy
    exact not_sublist_swap hnodup hxy hyx
  · have hyx :=
      sublist_filter_pair (f := f) (hyx.trans (emitted_sublist .inserted kq q hi hj)) hfy hfx
    have hxy := sublist_filter_pair (f := f) (hxy.trans (emitted_sublist r kq q hi hj)) hfx hfy
    rw [hrev] at hyx
    exact not_sublist_swap hnodup hyx hxy

/-- The parties' plans have the same shape, place each node once at the same position for each of
its parties, and set the same barriers. The nodes two parties share are run in the same order,
whatever the orders of the map loops, exactly if the workers are apart. -/
theorem schedules_agree (hwf : WellFormed graph pipelines) :
  (∀ o o' : RangeOrder, ∃ codes, map o graph pipelines = some codes ∧
    (pipelines.flatMap (·.subDAGs) ≠ [] →
      ∀ p, p ∈ buildCompiledPlan o' codes ↔ p ∈ graph.partyInfo) ∧
    ∀ p sg, (buildCompiledPlan o' codes).lookup p = some sg → Placed p pipelines sg) ∧
  ((∀ (o o' : RangeOrder) (codes : Codes), map o graph pipelines = some codes →
    ∀ p q sgp sgq, (buildCompiledPlan o' codes).lookup p = some sgp →
      (buildCompiledPlan o' codes).lookup q = some sgq → ∀ batchNum : ℕ → ℕ,
      (executionOrder batchNum sgp).filter (· ∈ sharedNodes p q pipelines) =
        (executionOrder batchNum sgq).filter (· ∈ sharedNodes p q pipelines)) ↔
    WorkersApart pipelines) := by
  refine ⟨fun o o' => ?_, fun hagree => ?_, fun hapart o o' codes hmap p q sgp sgq hp hq batchNum =>
    ?_⟩
  · obtain ⟨codes, hmap, hcodes⟩ := map_mapped o hwf
    refine ⟨codes, hmap, fun hsome p => ⟨fun hp => ?_, fun hp => ?_⟩, fun p sg hsg => ?_⟩
    · obtain ⟨sg, hsg⟩ := Option.isSome_iff_exists.mp (lookup_isSome.mpr hp)
      obtain ⟨k, plan, hget, -, -⟩ := exists_planFor hcodes hsg
      exact hcodes.known p (lookup_isSome.mp (by simp [mem_codes_of_getElem? hget]))
    · obtain ⟨dag, hdag⟩ := exists_mem_of_ne_nil _ hsome
      obtain ⟨pl, hpl, hdag⟩ := mem_flatMap.mp hdag
      obtain ⟨i, hi⟩ := mem_iff_getElem?.mp hpl
      have hne : subDAGsAt pipelines i ≠ [] := by
        rw [subDAGsAt, hi]
        exact ne_nil_of_mem hdag
      obtain ⟨k, plan, hk, -⟩ := exists_plan hcodes hne hp
      obtain ⟨k', hk'⟩ := mem_iff_getElem?.mp ((o'.mem_range 12 0).mpr (mem_of_getElem? hk))
      exact lookup_isSome.mp
        (by simp [(lookup_buildCompiledPlan o' codes).mpr ⟨k', plan, hk', rfl⟩])
    · obtain ⟨k, plan, -, rfl, hplan⟩ := exists_planFor hcodes hsg
      exact placed_buildSubGraph o' k (inferenceWorkerNumber_pos pipelines)
        (fun i dag hdag => nodup_of_mem_subDAGsAt hwf hdag) hplan
  · intro pl hpl dag hdag x hx y hy hne p hp q hq
    by_contra hpq
    obtain ⟨codes, hmap, hcodes⟩ := map_mapped .inserted hwf
    obtain ⟨o', sgp, sgq, hsgp, hsgq, hdiff⟩ :=
      exists_disagreement hwf hcodes hpl hdag hx hy hne hpq hp hq
    exact hdiff (hagree .inserted o' codes hmap p q sgp sgq hsgp hsgq _)
  · obtain ⟨codes', hmap', hcodes⟩ := map_mapped o hwf
    obtain rfl := Option.some.inj (hmap'.symm.trans hmap)
    by_cases hpq : p = q
    · subst hpq
      rw [Option.some.inj (hp.symm.trans hq)]
    · obtain ⟨k, plan, -, rfl, hplan⟩ := exists_planFor hcodes hp
      obtain ⟨k', plan', -, rfl, hplan'⟩ := exists_planFor hcodes hq
      rw [filter_executionOrder hwf hapart o' k hpq hplan, sharedNodes_comm,
        filter_executionOrder hwf hapart o' k' (Ne.symm hpq) hplan']
      simp only [bothOf_comm p q]

lemma workersApart_of_length_le_one
  (h : ∀ pl ∈ pipelines, ∀ dag ∈ pl.subDAGs, dag.length ≤ 1) : WorkersApart pipelines := by
  intro pl hpl dag hdag x hx y hy hne
  have hlen : (sortedNodes dag).length ≤ 1 := (sortedNodes_perm dag).length_eq ▸ h pl hpl dag hdag
  have hindex : ∀ z ∈ (sortedNodes dag).zipIdx, z.2 = 0 := by
    intro z hz
    have := snd_lt_of_mem_zipIdx hz
    omega
  exact absurd (by rw [hindex x hx, hindex y hy]) hne

/-- The nodes behind the numbers of a partitioned pipeline. -/
def resolve (graph : Graph) (p : ExecutionSchedule.PartitionedPipeline) : GraphMapper.Pipeline where
  batched := p.batched
  inputTensors := p.inputTensors
  outputTensors := p.outputTensors
  subDAGs := p.subDAGs.map (·.filterMap (fun id =>
    (graph.pipelines.flatMap (·.nodes)).find? (·.id = id)))

lemma workersApart_naivePartition {gp : ExecutionSchedule.GraphPartitioner}
  (h : ExecutionSchedule.naivePartition o graph = .ok gp) :
  WorkersApart (gp.pipelines.map (resolve gp.graph)) := by
  refine workersApart_of_length_le_one fun pl hpl dag hdag => ?_
  rw [ExecutionSchedule.naivePartition] at h
  cases hsort :
    ExecutionSchedule.topologicalSort o (ExecutionSchedule.updateTensorRefNum graph) with
  | error e =>
    rw [hsort] at h
    cases h
  | ok sorted =>
    rw [hsort] at h
    cases h
    obtain ⟨pp, hpp, rfl⟩ := mem_map.mp hpl
    obtain ⟨ids, hids, rfl⟩ := mem_map.mp hdag
    obtain ⟨i, hi⟩ := mem_iff_getElem?.mp hpp
    obtain ⟨p, ns, -, -, rfl⟩ := getElem?_zipWith_eq_some.mp hi
    obtain ⟨id, -, rfl⟩ := mem_map.mp hids
    exact length_filterMap_le _ _

def sharedNode (id : ℕ) : GraphNode where
  id
  node := ⟨"share", .MakeShare, ∅, ∅, ∅, ["alice", "bob"]⟩
  edges := []

def twoParties : Graph where
  pipelines := []
  nodeCnt := 2
  outputNames := []
  partyInfo := ["alice", "bob"]
  tensors := []

def inTurn : List GraphMapper.Pipeline := [⟨false, [], [], [[sharedNode 0], [sharedNode 1]]⟩]

def atOnce : List GraphMapper.Pipeline := [⟨false, [], [], [[sharedNode 0, sharedNode 1]]⟩]

theorem schedules_agree_inTurn : WorkersApart inTurn ∧
  ∀ (o o' : RangeOrder) (codes : Codes), map o twoParties inTurn = some codes →
    ∀ p q sgp sgq, (buildCompiledPlan o' codes).lookup p = some sgp →
      (buildCompiledPlan o' codes).lookup q = some sgq → ∀ batchNum : ℕ → ℕ,
      (executionOrder batchNum sgp).filter (· ∈ sharedNodes p q inTurn) =
        (executionOrder batchNum sgq).filter (· ∈ sharedNodes p q inTurn) := by
  have hwf : WellFormed twoParties inTurn := ⟨by decide, by decide, by decide, by decide⟩
  exact ⟨by decide, (schedules_agree hwf).2.mpr (by decide)⟩

/-- The loop over one party's jobs runs the other way round: the two shared nodes are run in
different orders. -/
theorem schedules_disagree : (map .inserted twoParties atOnce).map (fun codes =>
    let plan := buildCompiledPlan (reverseAt (Nat.pair 1 (Nat.pair 0 0))) codes
    ((plan.lookup "alice").map (executionOrder (fun _ => 1)),
      (plan.lookup "bob").map (executionOrder (fun _ => 1)))) =
    some (some [0, 1], some [1, 0]) := by
  decide

end Scql.CompiledPlan
