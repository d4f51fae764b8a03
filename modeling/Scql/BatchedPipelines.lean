import Scql.PipelineInterfaces
import Scql.TensorLifetime

/-! # Pipelines run in batches

Between two pipelines every tensor with readers left is in the table, complete, and its counter is
the number of reads left. Running a pipeline in batches counts the reads of its inputs once a
batch, so this is kept only if no later pipeline reads them. -/
namespace Scql.TensorLifetime

open MapUpdates MapRange ColumnControl OperatorRegistry ExecutionGraph ExecutionSchedule List AList

variable {names : Names}

/-- The nodes of a whole plan: every tensor is produced once, a held one before it is read, and
its reference number is the number of reads. -/
structure NodesOK (names : Names) (ns : List ExecutionNode) : Prop where
  nodup : (writes ns).Nodup
  first : ∀ done n rest, ns = done ++ n::rest → ∀ t ∈ n.inputs.tensors, names.held t →
    t ∈ writes done
  refNum : ∀ t ∈ writes ns, names.held t → names.refNum t = (reads ns).count t

/-- The state between two pipelines: a held tensor with readers left is there, complete, with a
counter that says how many. -/
structure Boundary (names : Names) (done rest : List ExecutionNode) (s : State) : Prop where
  sane : Sane names s
  refNum : ∀ t ∈ writes done, names.held t → s.tensorRefNums.lookup t =
    if (reads rest).count t = 0 then none else some ((reads rest).count t)
  present : ∀ t ∈ writes done, names.held t → t ∈ reads rest →
    ∃ v, s.tensorTable.lookup t = some v
  fresh : ∀ t ∈ writes rest, names.held t → s.tensorTable.lookup t = none
  counters : ∀ t ∈ writes rest, s.tensorRefNums.lookup t = none
  complete : AllComplete s
  found : ∀ v ∈ s.found, v = .complete

lemma countedDown_add (j k : ℕ) : countedDown j (some (j+k)) = if k = 0 then none else some k := by
  have hle : j+k ≤ j ↔ k = 0 := by omega
  simp [countedDown, hle]

lemma countedDown_count (j k : ℕ) :
  countedDown j (if j+k = 0 then none else some (j+k)) = if k = 0 then none else some k := by
  split
  · next h => simp [(Nat.add_eq_zero_iff.mp h).2]
  · exact countedDown_add j k

variable {done ns rest : List ExecutionNode} {t : ℕ} {s' : State}

section
variable (hok : NodesOK names (done ++ (ns ++ rest)))
include hok

lemma NodesOK.produced (ht : t ∈ reads ns) (hheld : names.held t) :
    t ∈ writes done ∨ t ∈ writes ns := by
  obtain ⟨n, hn, hread⟩ := mem_flatMap.mp ht
  obtain ⟨before, after, rfl⟩ := append_of_mem hn
  have := hok.first (done ++ before) n (after ++ rest) (by simp) t hread hheld
  rw [writes_append, mem_append] at this
  exact this.imp_right fun h => by simp [h]

lemma NodesOK.disjoint :
  (t ∈ writes done → t ∉ writes ns ∧ t ∉ writes rest) ∧ (t ∈ writes ns → t ∉ writes rest) := by
  have h := hok.nodup
  rw [writes_append, writes_append, nodup_append, nodup_append] at h
  exact ⟨fun ht => ⟨fun h' => h.2.2 t ht t (by simp [h']) rfl,
    fun h' => h.2.2 t ht t (by simp [h']) rfl⟩, fun ht h' => h.2.1.2.2 t ht t h' rfl⟩

lemma NodesOK.refNum_eq (ht : t ∈ writes ns) (hheld : names.held t) :
  names.refNum t = (reads ns).count t+(reads rest).count t := by
  have hnot : t ∉ reads done := by
    intro h
    have hwhole : NodesOK names ([] ++ (done ++ (ns ++ rest))) := hok
    rcases hwhole.produced h hheld with h | h
    · simp at h
    · exact (hok.disjoint.1 h).1 ht
  rw [hok.refNum t (by simp [ht]) hheld]
  simp [count_eq_zero_of_not_mem hnot]

lemma NodesOK.producedFirst : ProducedFirst names ns := by
  rintro before n after rfl t ht hheld hwritten
  have := hok.first (done ++ before) n (after ++ rest) (by simp) t ht hheld
  rw [writes_append, mem_append] at this
  exact this.resolve_left fun h => (hok.disjoint.1 h).1 hwritten

lemma NodesOK.nodup_part : (writes ns).Nodup := by
  have h := hok.nodup
  rw [writes_append, writes_append, nodup_append, nodup_append] at h
  exact h.2.1.1

variable {s : State}

lemma Boundary.segmentReady (hs : Boundary names done (ns ++ rest) s) :
    SegmentReady names s ns where
  sane := hs.sane
  nodup := hok.nodup_part
  fresh := fun t ht => hs.fresh t (by simp [ht])
  counters := fun _ t ht => hs.counters t (by simp [ht])
  inputs := by
    intro t ht hheld hnot
    have hdone := (hok.produced ht hheld).resolve_right hnot
    refine ⟨hs.present t hdone hheld (by simp [ht]), ?_⟩
    intro r hr
    rw [hs.refNum t hdone hheld, reads_append, count_append] at hr
    split at hr
    · cases hr
    · cases hr
      omega
  first := hok.producedFirst
  refNum := by
    intro t ht hheld
    rw [hok.refNum_eq ht hheld]
    omega

lemma Boundary.next (hs : Boundary names done (ns ++ rest) s)
    (hrun : SegmentRun names true s ns s') :
  Boundary names (done ++ ns) rest s' := by
  have hcount : ∀ t, (reads (ns ++ rest)).count t = (reads ns).count t+(reads rest).count t := by
    simp
  refine ⟨hrun.sane, ?_, ?_, ?_, ?_, (hrun.complete hs.complete).1, ?_⟩
  · intro t ht hheld
    rw [writes_append, mem_append] at ht
    rcases ht with ht | ht
    · rw [hrun.refNum_other t (hok.disjoint.1 ht).1, hs.refNum t ht hheld, hcount,
        countedDown_count]
    · rw [hrun.refNum_written t ht hheld, hok.refNum_eq ht hheld, countedDown_add]
  · intro t ht hheld hread
    have hpos := count_pos_iff.mpr hread
    rw [writes_append, mem_append] at ht
    rcases ht with ht | ht
    · rw [hrun.kept t (hok.disjoint.1 ht).1]
      · exact hs.present t ht hheld (by simp [hread])
      · rintro ⟨r, hr, hle⟩
        rw [hs.refNum t ht hheld, hcount, if_neg (by omega)] at hr
        cases hr
        omega
    · exact hrun.written t ht hheld (by rw [hok.refNum_eq ht hheld]; omega)
  · intro t ht hheld
    have hnot : t ∉ writes ns := fun h => hok.disjoint.2 h ht
    have hfresh := hs.fresh t (by simp [ht]) hheld
    by_cases hused : UsedUp s ((reads ns).count t) t
    · exact hrun.gone t hnot hused
    · rw [hrun.kept t hnot hused, hfresh]
  · intro t ht
    rw [hrun.refNum_other t (fun h => hok.disjoint.2 h ht), hs.counters t (by simp [ht])]
    rfl
  · intro v hv
    exact ((hrun.complete hs.complete).2 v hv).elim (hs.found v) id

end

variable {pl : PipelinePlan}

/-- The inputs and outputs of a batched pipeline: what it only reads, and what it produces for
later ones. -/
structure BordersOK (names : Names) (pl : PipelinePlan) (rest : List ExecutionNode) : Prop where
  inputs : ∀ t, t ∈ pl.inputs ↔ names.held t ∧ t ∈ reads pl.nodes ∧ t ∉ writes pl.nodes
  outputs : ∀ t, t ∈ pl.outputs ↔ names.held t ∧ t ∈ writes pl.nodes ∧ t ∈ reads rest
  nodup : pl.outputs.Nodup

/-- The executor of a pipeline with several batches and a reader for every input. -/
def batchExecutor (batchNum : ℕ) (pl : PipelinePlan) : PipelineExecutor where
  batched := true
  batchNum
  inputTensors := replicate pl.inputs.length .complete
  inputTensorNames := pl.inputs
  outputTensorNames := pl.outputs

/-- The state between two batches, where `s₀` is the one before the first. -/
structure BatchInv (names : Names) (pl : PipelinePlan) (s₀ : State) (started : Prop) (s : State) :
    Prop where
  sane : Sane names s
  other : ∀ t ∉ pl.inputs, t ∉ writes pl.nodes → s.tensorTable.lookup t = s₀.tensorTable.lookup t
  refNum_other : ∀ t ∉ pl.inputs, t ∉ writes pl.nodes →
    names.held t ∨ s₀.tensorRefNums.lookup t = none →
    s.tensorRefNums.lookup t = s₀.tensorRefNums.lookup t
  refNum_input : ∀ t ∈ pl.inputs, ∀ r, s.tensorRefNums.lookup t = some r →
    r = (reads pl.nodes).count t ∧ ¬started
  absent : ∀ t ∈ writes pl.nodes, names.held t → s.tensorTable.lookup t = none
  refNum_written : started → ∀ t ∈ writes pl.nodes, names.held t → s.tensorRefNums.lookup t =
    countedDown ((reads pl.nodes).count t) (some (names.refNum t))
  found : s.found = s₀.found

lemma lookup_foldl_insert_const (v : Value) (ts : List ℕ) (table : AList (fun _ : ℕ => Value))
  (t : ℕ) : (ts.foldl (fun table t => table.insert t v) table).lookup t =
    if t ∈ ts then some v else table.lookup t := by
  induction ts using reverseRecOn with
  | nil => simp
  | append_singleton ts u ih =>
    rw [foldl_append, foldl_cons, foldl_nil]
    by_cases ht : t = u
    · subst ht
      simp
    · rw [lookup_insert_ne ht, ih]
      simp [ht]

lemma updateTensorTable_spec (pl : PipelinePlan) (batchNum : ℕ) (s : State) :
  ∃ s', (batchExecutor batchNum pl).updateTensorTable s = some s' ∧
    s'.tensorRefNums = s.tensorRefNums ∧ s'.found = s.found ∧ ∀ t, s'.tensorTable.lookup t =
      if t ∈ pl.inputs then some .batch else s.tensorTable.lookup t := by
  refine ⟨{ s with
      tensorTable := pl.inputs.foldl (fun table t => table.insert t .batch) s.tensorTable},
    ?_, rfl, rfl, lookup_foldl_insert_const .batch pl.inputs s.tensorTable⟩
  simp [PipelineExecutor.updateTensorTable, batchExecutor]

variable {s : State}

lemma fetchOutputTensors_spec (batchNum : ℕ) (hnodup : pl.outputs.Nodup)
  (hs : ∀ t ∈ pl.outputs, ∃ v, s.tensorTable.lookup t = some v) :
  ∃ s', (batchExecutor batchNum pl).fetchOutputTensors s = some s' ∧
    s'.tensorRefNums = s.tensorRefNums ∧ s'.found = s.found ∧ ∀ t, s'.tensorTable.lookup t =
      if t ∈ pl.outputs then none else s.tensorTable.lookup t := by
  obtain ⟨table, htable, hlookup⟩ := foldlM_of_step
    (f := fun (table : AList (fun _ : ℕ => Value)) t =>
      if t ∈ table then some (table.erase t) else none)
    (P := fun done (table : AList (fun _ : ℕ => Value)) => ∀ t, table.lookup t =
      if t ∈ done then none else s.tensorTable.lookup t) pl.outputs (s := s.tensorTable) (by
      intro done t rest hl table hlookup
      rw [hl] at hnodup
      have hnot : t ∉ done := fun h => (nodup_append.mp hnodup).2.2 t h t (by simp) rfl
      have hmem : t ∈ table := by
        obtain ⟨v, hv⟩ := hs t (by simp [hl])
        rw [← lookup_isSome, hlookup t, if_neg hnot, hv]
        rfl
      refine ⟨table.erase t, if_pos hmem, fun u => ?_⟩
      by_cases hu : u = t
      · subst hu
        simp
      · rw [lookup_erase_ne hu, hlookup u]
        simp [hu]) (by simp)
  refine ⟨{s with tensorTable := table}, ?_, rfl, rfl, hlookup⟩
  simp only [PipelineExecutor.fetchOutputTensors, batchExecutor, Bool.not_true,
    Bool.false_eq_true, if_false, htable]
  rfl

variable {batchNum : ℕ}

section
variable (hok : NodesOK names (done ++ (pl.nodes ++ rest)))
include hok

section
variable (hborders : BordersOK names pl rest)
include hborders

variable {s₀ : State} {started : Prop}

lemma BatchInv.segmentReady (hstream : names.streaming) {s₁ : State}
  (hs : BatchInv names pl s₀ started s) (hrefs : s₁.tensorRefNums = s.tensorRefNums)
  (htable : ∀ t, s₁.tensorTable.lookup t =
    if t ∈ pl.inputs then some .batch else s.tensorTable.lookup t)
  : SegmentReady names s₁ pl.nodes where
  sane := by
    refine ⟨hrefs ▸ hs.sane.positive, hrefs ▸ hs.sane.unread, ?_⟩
    intro t v hv
    rw [htable t] at hv
    split at hv
    · next h => exact ((hborders.inputs t).mp h).1
    · exact hs.sane.held t v hv
  nodup := hok.nodup_part
  fresh := by
    intro t ht hheld
    rw [htable t, if_neg fun h => ((hborders.inputs t).mp h).2.2 ht]
    exact hs.absent t ht hheld
  counters := by
    intro h
    rw [hstream] at h
    cases h
  inputs := by
    intro t ht hheld hnot
    have hinput := (hborders.inputs t).mpr ⟨hheld, ht, hnot⟩
    refine ⟨⟨.batch, by rw [htable t, if_pos hinput]⟩, ?_⟩
    intro r hr
    rw [hrefs] at hr
    exact (hs.refNum_input t hinput r hr).1.ge
  first := hok.producedFirst
  refNum := by
    intro t ht hheld
    rw [hok.refNum_eq ht hheld]
    omega

lemma runBatch_spec (hstream : names.streaming) (batchNum : ℕ)
  (hs₀ : Sane names s₀) (hs : BatchInv names pl s₀ started s) :
  ∃ s', runBatch names (batchExecutor batchNum pl) pl s = some s' ∧
    BatchInv names pl s₀ True s' := by
  obtain ⟨s₁, hupdate, hrefs₁, hfound₁, htable₁⟩ := updateTensorTable_spec pl batchNum s
  obtain ⟨s₂, hnodes, hrun⟩ := segment_run false
    (hs.segmentReady hok hborders hstream hrefs₁ htable₁)
  obtain ⟨s₃, hfetch, hrefs₃, hfound₃, htable₃⟩ := fetchOutputTensors_spec batchNum hborders.nodup
    (s := s₂) (by
      intro t ht
      obtain ⟨hheld, hwritten, hlater⟩ := (hborders.outputs t).mp ht
      refine hrun.written t hwritten hheld ?_
      have := count_pos_iff.mpr hlater
      rw [hok.refNum_eq hwritten hheld]
      omega)
  -- a held tensor that is neither an input nor produced here is not read here
  have hunread : ∀ t ∉ pl.inputs, t ∉ writes pl.nodes → names.held t →
      (reads pl.nodes).count t = 0 := fun t hin hout hheld =>
    count_eq_zero_of_not_mem fun h => hin ((hborders.inputs t).mpr ⟨hheld, h, hout⟩)
  have hother : ∀ t ∉ pl.inputs, t ∉ writes pl.nodes →
    s₂.tensorTable.lookup t = s₀.tensorTable.lookup t := by
    intro t hin hout
    by_cases hheld : names.held t
    · rw [hrun.kept t hout, htable₁ t, if_neg hin, hs.other t hin hout]
      rintro ⟨r, hr, hle⟩
      rw [hunread t hin hout hheld] at hle
      have := hs.sane.positive t r (hrefs₁ ▸ hr)
      omega
    · have habsent : ∀ {s : State}, Sane names s → s.tensorTable.lookup t = none := fun h =>
        Option.eq_none_iff_forall_ne_some.mpr fun v hv => hheld (h.held t v hv)
      rw [habsent hrun.sane, habsent hs₀]
  refine ⟨s₃, ?_, ?_, ?_, ?_, ?_, ?_, ?_, ?_⟩
  · rw [runBatch, hupdate]
    simp only [Option.bind_eq_bind, Option.bind_some]
    rw [show (!(batchExecutor batchNum pl).batched) = false from rfl, hnodes]
    exact hfetch
  · refine ⟨hrefs₃ ▸ hrun.sane.positive, hrefs₃ ▸ hrun.sane.unread, ?_⟩
    intro t v hv
    rw [htable₃ t] at hv
    split at hv
    · cases hv
    · exact hrun.sane.held t v hv
  · intro t hin hout
    rw [htable₃ t, if_neg fun h => hout ((hborders.outputs t).mp h).2.1, hother t hin hout]
  · intro t hin hout h
    rw [hrefs₃, hrun.refNum_other t hout, hrefs₁, hs.refNum_other t hin hout h]
    rcases h with hheld | hnone
    · rw [hunread t hin hout hheld, countedDown_zero]
      exact hs₀.positive t
    · rw [hnone]
      rfl
  · intro t hin r hr
    rw [hrefs₃, hrun.refNum_other t ((hborders.inputs t).mp hin).2.2, hrefs₁] at hr
    cases hold : s.tensorRefNums.lookup t with
    | none =>
      rw [hold] at hr
      cases hr
    | some r' =>
      rw [hold, (hs.refNum_input t hin r' hold).1, countedDown, Option.bind_some,
        if_pos le_rfl] at hr
      cases hr
  · intro t ht hheld
    rw [htable₃ t]
    split
    · rfl
    · next hnot =>
      refine hrun.spent t ht hheld ?_
      have hlater : t ∉ reads rest := fun h => hnot ((hborders.outputs t).mpr ⟨hheld, ht, h⟩)
      rw [hok.refNum_eq ht hheld, count_eq_zero_of_not_mem hlater]
      omega
  · intro _ t ht hheld
    rw [hrefs₃]
    exact hrun.refNum_written t ht hheld
  · rw [hfound₃, hrun.found rfl, hfound₁, hs.found]

lemma Boundary.batchInv (honce : ∀ t ∈ pl.inputs, t ∉ reads rest)
  (hs : Boundary names done (pl.nodes ++ rest) s) : BatchInv names pl s False s where
  sane := hs.sane
  other := fun _ _ _ => rfl
  refNum_other := fun _ _ _ _ => rfl
  refNum_input := by
    intro t hin r hr
    obtain ⟨hheld, hread, hout⟩ := (hborders.inputs t).mp hin
    rw [hs.refNum t ((hok.produced hread hheld).resolve_right hout) hheld, reads_append,
      count_append, count_eq_zero_of_not_mem (honce t hin), Nat.add_zero] at hr
    split at hr
    · cases hr
    · exact ⟨(Option.some.inj hr).symm, not_false⟩
  absent := fun t ht => hs.fresh t (by simp [ht])
  refNum_written := False.elim
  found := rfl

lemma runBatches_spec (hstream : names.streaming) (hpos : 0 < batchNum)
    (hs : BatchInv names pl s False s) :
  ∃ s', (range batchNum).foldlM (fun s _ => runBatch names (batchExecutor batchNum pl) pl s) s =
    some s' ∧
    BatchInv names pl s True s' := by
  obtain ⟨s', hrun, hinv⟩ := foldlM_of_step
    (P := fun batches s' => BatchInv names pl s (batches ≠ []) s') (range batchNum)
    (f := fun s _ => runBatch names (batchExecutor batchNum pl) pl s) (s := s) (by
      intro batches i _ _ s' hs'
      obtain ⟨s'', hbatch, hinv⟩ := runBatch_spec hok hborders hstream batchNum hs.sane hs'
      exact ⟨s'', hbatch, by simpa using hinv⟩) (by simpa using hs)
  refine ⟨s', hrun, ?_⟩
  have hne : range batchNum ≠ [] := by simp [hpos.ne']
  simpa only [hne, ne_eq, not_false_eq_true] using hinv

end

end

lemma lookup_foldl_restore (ts : List ℕ) (table : AList (fun _ : ℕ => Value)) (t : ℕ) :
  ((ts.zip (replicate ts.length Value.complete)).foldl (fun table x =>
      if x.1 ∈ table then table.insert x.1 x.2 else table) table).lookup t =
    if t ∈ ts ∧ t ∈ table then some .complete else table.lookup t := by
  induction ts generalizing table with
  | nil => simp
  | cons u ts ih =>
    rw [length_cons, replicate_succ, zip_cons_cons, foldl_cons, ih]
    by_cases hu : u ∈ table
    · by_cases ht : t = u
      · subst ht
        simp [hu]
      · simp [hu, ht, lookup_insert_ne ht]
    · by_cases ht : t = u
      · subst ht
        simp [hu]
      · simp [hu, ht]

/-- The outputs are put into the table, and inputs that are still there are complete again. -/
structure Finished (pl : PipelinePlan) (s s' : State) : Prop where
  refNums : s'.tensorRefNums = s.tensorRefNums
  found : s'.found = s.found
  outputs : ∀ t ∈ pl.outputs, s'.tensorTable.lookup t = some .complete
  inputs : ∀ t ∈ pl.inputs, ∀ v, s'.tensorTable.lookup t = some v → v = .complete
  others : ∀ t ∉ pl.inputs, t ∉ pl.outputs → s'.tensorTable.lookup t = s.tensorTable.lookup t

lemma finish_spec (batchNum : ℕ) (hnodup : pl.outputs.Nodup)
  (hs : ∀ t ∈ pl.outputs, s.tensorTable.lookup t = none)
  (hdisjoint : ∀ t ∈ pl.inputs, t ∉ pl.outputs) :
  ∃ s', (batchExecutor batchNum pl).finish s = some s' ∧ Finished pl s s' := by
  obtain ⟨table, htable, hlookup⟩ := foldlM_addTensor .complete hnodup hs
  have hrestore := lookup_foldl_restore pl.inputs table
  refine ⟨{ s with
      tensorTable := (pl.inputs.zip (replicate pl.inputs.length .complete)).foldl
        (fun table x => if x.1 ∈ table then table.insert x.1 x.2 else table) table},
    ?_, rfl, rfl, ?_, ?_, ?_⟩
  · simp only [PipelineExecutor.finish, batchExecutor, Bool.not_true, Bool.false_eq_true, if_false,
      htable]
    rfl
  · intro t ht
    rw [hrestore t, if_neg fun h => hdisjoint t h.1 ht, hlookup t, if_pos ht]
  · intro t ht v hv
    rw [hrestore t] at hv
    split at hv
    · exact (Option.some.inj hv).symm
    · next h =>
      exact absurd ⟨ht, lookup_isSome.mp (Option.isSome_iff_exists.mpr ⟨v, hv⟩)⟩ h
  · intro t hin hout
    rw [hrestore t, if_neg fun h => hin h.1, hlookup t, if_neg hout]

lemma Boundary.next_batched (hok : NodesOK names (done ++ (pl.nodes ++ rest)))
  (hborders : BordersOK names pl rest) (honce : ∀ t ∈ pl.inputs, t ∉ reads rest) {s'' : State}
  (hs : Boundary names done (pl.nodes ++ rest) s) (hs' : BatchInv names pl s True s')
  (hfinish : Finished pl s' s'') : Boundary names (done ++ pl.nodes) rest s'' := by
  obtain ⟨hrefs, hfound, houtputs, hinputs, hothers⟩ := hfinish
  have hinput : ∀ t ∈ pl.inputs, t ∈ writes done := by
    intro t ht
    obtain ⟨hheld, hread, hout⟩ := (hborders.inputs t).mp ht
    exact (hok.produced hread hheld).resolve_right hout
  have hkept : ∀ t ∉ pl.inputs, t ∉ writes pl.nodes →
    s''.tensorTable.lookup t = s.tensorTable.lookup t := by
    intro t hin hout
    rw [hothers t hin fun h => hout ((hborders.outputs t).mp h).2.1, hs'.other t hin hout]
  have hheldOnly : ∀ t v, s''.tensorTable.lookup t = some v → names.held t := by
    intro t v hv
    by_cases hin : t ∈ pl.inputs
    · exact ((hborders.inputs t).mp hin).1
    · by_cases hout : t ∈ pl.outputs
      · exact ((hborders.outputs t).mp hout).1
      · exact hs'.sane.held t v (hothers t hin hout ▸ hv)
  refine ⟨⟨hrefs ▸ hs'.sane.positive, hrefs ▸ hs'.sane.unread, hheldOnly⟩, ?_, ?_, ?_, ?_, ?_, ?_⟩
  · intro t ht hheld
    rw [hrefs]
    rw [writes_append, mem_append] at ht
    rcases ht with ht | ht
    · by_cases hin : t ∈ pl.inputs
      · rw [count_eq_zero_of_not_mem (honce t hin), if_pos rfl]
        exact Option.eq_none_iff_forall_ne_some.mpr fun r hr =>
          (hs'.refNum_input t hin r hr).2 trivial
      · have hout := (hok.disjoint.1 ht).1
        have hunread : t ∉ reads pl.nodes := fun h =>
          hin ((hborders.inputs t).mpr ⟨hheld, h, hout⟩)
        rw [hs'.refNum_other t hin hout (.inl hheld), hs.refNum t ht hheld, reads_append,
          count_append, count_eq_zero_of_not_mem hunread, Nat.zero_add]
    · rw [hs'.refNum_written trivial t ht hheld, hok.refNum_eq ht hheld, countedDown_add]
  · intro t ht hheld hread
    rw [writes_append, mem_append] at ht
    rcases ht with ht | ht
    · rw [hkept t (fun h => honce t h hread) (hok.disjoint.1 ht).1]
      exact hs.present t ht hheld (by simp [hread])
    · exact ⟨_, houtputs t ((hborders.outputs t).mpr ⟨hheld, ht, hread⟩)⟩
  · intro t ht hheld
    rw [hkept t (fun h => (hok.disjoint.1 (hinput t h)).2 ht) (fun h => hok.disjoint.2 h ht)]
    exact hs.fresh t (by simp [ht]) hheld
  · intro t ht
    have hnone := hs.counters t (by simp [ht])
    rw [hrefs, hs'.refNum_other t (fun h => (hok.disjoint.1 (hinput t h)).2 ht)
      (fun h => hok.disjoint.2 h ht) (.inr hnone), hnone]
  · intro t v hv
    by_cases hin : t ∈ pl.inputs
    · exact hinputs t hin v hv
    by_cases hout : t ∈ pl.outputs
    · exact (Option.some.inj ((houtputs t hout).symm.trans hv)).symm
    by_cases hwritten : t ∈ writes pl.nodes
    · have habsent := hs'.absent t hwritten (hheldOnly t v hv)
      rw [hothers t hin hout, habsent] at hv
      cases hv
    · exact hs.complete t v (hkept t hin hwritten ▸ hv)
  · rw [hfound, hs'.found]
    exact hs.found

variable {slices : Slices}

def ownSliceNum (sliceNum : ℕ → ℕ) (inputs : List ℕ) : ℕ := inputs.head?.elim 1 sliceNum

/-- A batched pipeline whose inputs have the same number of slices and, if there is more than one
batch, a reader here and no reader in a later pipeline. -/
structure PipelineOK (names : Names) (slices : Slices) (pl : PipelinePlan) (k : ℕ)
    (rest : List ExecutionNode) : Prop where
  borders : BordersOK names pl rest
  equal : ∀ t ∈ pl.inputs, slices.sliceNum t = ownSliceNum slices.sliceNum pl.inputs
  pos : 0 < ownSliceNum slices.sliceNum pl.inputs
  once : max (ownSliceNum slices.sliceNum pl.inputs) (slices.peerSliceNum k) ≠ 1 →
    names.streaming ∧ ∀ t ∈ pl.inputs, slices.sliceNum t ≠ 1 ∧ t ∉ reads rest

variable {e : PipelineExecutor} {sliceNum : ℕ → ℕ}

lemma addInput_eq {v : Value} (hv : s.tensorTable.lookup t = some v)
  (hguard : e.inputTensors = [] ∨ sliceNum t = e.batchNum) : e.addInput sliceNum s t = some { e with
    inputTensors := e.inputTensors ++ [v]
    batchNum := sliceNum t
    inputTensorNames :=
      if sliceNum t = 1 then e.inputTensorNames else e.inputTensorNames ++ [t]} := by
  rw [PipelineExecutor.addInput, hv, Option.bind_eq_bind, Option.bind_some, guard, if_pos hguard]
  rfl

lemma foldlM_addInput {inputs : List ℕ} (hs : ∀ t ∈ inputs, s.tensorTable.lookup t = some .complete)
  (hequal : ∀ t ∈ inputs, sliceNum t = ownSliceNum sliceNum inputs) :
  inputs.foldlM (PipelineExecutor.addInput sliceNum s) {batched := true} = some
    { batched := true
      batchNum := ownSliceNum sliceNum inputs
      inputTensors := replicate inputs.length .complete
      inputTensorNames := if ownSliceNum sliceNum inputs = 1 then [] else inputs} := by
  obtain ⟨e, he, hspec⟩ := foldlM_of_step (f := PipelineExecutor.addInput sliceNum s)
    (s := {batched := true})
    (P := fun done e => e = PipelineExecutor.mk true (ownSliceNum sliceNum done)
      (replicate done.length .complete)
      (if ownSliceNum sliceNum inputs = 1 then [] else done) []) inputs (by
      rintro done t rest hl _ rfl
      have ht : t ∈ inputs := by simp [hl]
      have hsame : done ≠ [] → ownSliceNum sliceNum done = ownSliceNum sliceNum inputs := by
        intro hne
        cases done with
        | nil => exact absurd rfl hne
        | cons u us => rw [hl]; rfl
      have hnext : ownSliceNum sliceNum (done ++ [t]) = ownSliceNum sliceNum inputs := by
        cases done with
        | nil | cons u us => rw [hl]; rfl
      have hguard : replicate done.length Value.complete = [] ∨
        sliceNum t = ownSliceNum sliceNum done := by
        by_cases hne : done = []
        · exact .inl (by simp [hne])
        · exact .inr (by rw [hsame hne, hequal t ht])
      refine ⟨_, addInput_eq (hs t ht) hguard, ?_⟩
      rw [hnext, hequal t ht, length_append, length_singleton, replicate_succ']
      split
      · rfl
      · rfl) (by
      show _ = PipelineExecutor.mk true 1 [] (if _ then [] else []) []
      rw [ite_self])
  rw [he, hspec]

lemma Boundary.addFound {vs : List Value} (hs : Boundary names done rest s)
  (hvs : ∀ v ∈ vs, v = .complete) : Boundary names done rest {s with found := s.found ++ vs} where
  sane := ⟨hs.sane.positive, hs.sane.unread, hs.sane.held⟩
  refNum := hs.refNum
  present := hs.present
  fresh := hs.fresh
  counters := hs.counters
  complete := hs.complete
  found := fun v hv => (mem_append.mp hv).elim (hs.found v) (hvs v)

lemma runBatch_whole (he : e.batched = false) (s : State) :
  runBatch names e pl s = pl.nodes.foldlM (runNode names true) s := by
  have hfetch : e.fetchOutputTensors = some := by
    funext s
    simp [PipelineExecutor.fetchOutputTensors, he]
  have hupdate : e.updateTensorTable s = some s := by
    simp [PipelineExecutor.updateTensorTable, he]
  rw [runBatch, hupdate, he, hfetch]
  exact Option.bind_fun_some _

section
variable (hok : NodesOK names (done ++ (pl.nodes ++ rest)))
include hok

lemma run_whole (he : e.batched = false) (hnum : e.batchNum = 1)
  (hs : Boundary names done (pl.nodes ++ rest) s) : ∃ s', (do
      let s ← (range e.batchNum).foldlM (fun s _ => runBatch names e pl s) s
      e.finish s) = some s' ∧ Boundary names (done ++ pl.nodes) rest s' := by
  obtain ⟨s', hnodes, hrun⟩ := segment_run true (hs.segmentReady hok)
  refine ⟨s', ?_, hs.next hok hrun⟩
  rw [hnum, range_one, foldlM_cons, runBatch_whole he, hnodes]
  simp [PipelineExecutor.finish, he]

lemma run_batched (hborders : BordersOK names pl rest) (hstream : names.streaming)
  (honce : ∀ t ∈ pl.inputs, t ∉ reads rest) (hpos : 0 < batchNum)
  (hs : Boundary names done (pl.nodes ++ rest) s) : ∃ s', (do
      let s ← (range batchNum).foldlM
        (fun s _ => runBatch names (batchExecutor batchNum pl) pl s) s
      (batchExecutor batchNum pl).finish s) = some s' ∧
        Boundary names (done ++ pl.nodes) rest s' := by
  obtain ⟨s', hbatches, hinv⟩ := runBatches_spec hok hborders hstream hpos
    (hs.batchInv hok hborders honce)
  obtain ⟨s'', hfinish, hfinished⟩ := finish_spec batchNum hborders.nodup (s := s') (by
      intro t ht
      obtain ⟨hheld, hwritten, -⟩ := (hborders.outputs t).mp ht
      exact hinv.absent t hwritten hheld) (by
      intro t hin hout
      exact ((hborders.inputs t).mp hin).2.2 ((hborders.outputs t).mp hout).2.1)
  refine ⟨s'', ?_, hs.next_batched hok hborders honce hinv hfinished⟩
  rw [hbatches]
  exact hfinish

lemma runPipeline_spec {k : ℕ} (hpl : pl.batched → PipelineOK names slices pl k rest)
  (hs : Boundary names done (pl.nodes ++ rest) s) :
    ∃ s', runPipeline names slices s (pl, k) = some s' ∧
    Boundary names (done ++ pl.nodes) rest s' := by
  have hcomplete : ∀ v ∈ replicate pl.inputs.length Value.complete, v = .complete := by simp
  cases hbatched : pl.batched with
  | false =>
    have hcreate : PipelineExecutor.create slices.sliceNum (slices.peerSliceNum k) pl s =
        some {batched := false} := by
      rw [PipelineExecutor.create, hbatched]
      rfl
    rw [runPipeline, hcreate]
    exact run_whole hok rfl rfl (hs.addFound (by simp))
  | true =>
    obtain ⟨hborders, hequal, hpos, honce⟩ := hpl hbatched
    have hinputs : ∀ t ∈ pl.inputs, s.tensorTable.lookup t = some .complete := by
      intro t ht
      obtain ⟨hheld, hread, hout⟩ := (hborders.inputs t).mp ht
      obtain ⟨v, hv⟩ := hs.present t ((hok.produced hread hheld).resolve_right hout) hheld
        (by simp [hread])
      rw [hv, hs.complete t v hv]
    have hcreate := foldlM_addInput hinputs hequal
    by_cases hone : max (ownSliceNum slices.sliceNum pl.inputs) (slices.peerSliceNum k) = 1
    · rw [runPipeline, PipelineExecutor.create, hbatched]
      simp only [Bool.not_true, Bool.false_eq_true, if_false, hcreate, Option.bind_eq_bind,
        Option.bind_some, hone, if_true]
      exact run_whole hok rfl rfl (hs.addFound hcomplete)
    · obtain ⟨hstream, hlater⟩ := honce hone
      have hreaders : (if ownSliceNum slices.sliceNum pl.inputs = 1 then [] else pl.inputs) =
          pl.inputs := by
        split
        · next h =>
          cases hins : pl.inputs with
          | nil => rfl
          | cons t ts =>
            have ht : t ∈ pl.inputs := by simp [hins]
            exact absurd ((hequal t ht).trans h) (hlater t ht).1
        · rfl
      rw [runPipeline, PipelineExecutor.create, hbatched]
      simp only [Bool.not_true, Bool.false_eq_true, if_false, hcreate, Option.bind_eq_bind,
        Option.bind_some, if_neg hone, hreaders]
      exact run_batched hok hborders hstream (fun t ht => (hlater t ht).2)
        (lt_max_of_lt_left hpos) (hs.addFound hcomplete)

end

def planNodes (plan : List PipelinePlan) : List ExecutionNode := plan.flatMap (·.nodes)

lemma runPipelines_spec {plan : List PipelinePlan} (hok : NodesOK names (planNodes plan))
  (hpl : ∀ ps pl qs, plan = ps ++ pl::qs → pl.batched →
    PipelineOK names slices pl ps.length (planNodes qs)) :
  ∃ s, runPipelines names slices plan = some s ∧ ∀ v ∈ s.found, v = .complete := by
  suffices h : ∀ qs ps s, plan = ps ++ qs → Boundary names (planNodes ps) (planNodes qs) s →
      ∃ s', (qs.zipIdx ps.length).foldlM (runPipeline names slices) s = some s' ∧
        ∀ v ∈ s'.found, v = .complete by
    refine h plan [] {} rfl ⟨⟨?_, ?_, ?_⟩, ?_, ?_, ?_, ?_, ?_, ?_⟩ <;>
      simp [planNodes, Positive, AllComplete]
  intro qs
  induction qs with
  | nil =>
    intro ps s _ hs
    exact ⟨s, rfl, hs.found⟩
  | cons pl qs ih =>
    intro ps s hplan hs
    have hcons : planNodes (pl::qs) = pl.nodes ++ planNodes qs := flatMap_cons
    have happend : planNodes (ps ++ [pl]) = planNodes ps ++ pl.nodes := by simp [planNodes]
    rw [hcons] at hs
    obtain ⟨s₁, hrun, hs₁⟩ := runPipeline_spec
      (by rwa [hplan, planNodes, flatMap_append, ← planNodes, ← planNodes, hcons] at hok)
      (hpl ps pl qs hplan) hs
    obtain ⟨s', hrest, hfound⟩ := ih (ps ++ [pl]) s₁ (by simp [hplan]) (happend ▸ hs₁)
    refine ⟨s', ?_, hfound⟩
    rw [zipIdx_cons, foldlM_cons, hrun]
    simpa using hrest

/-- The tensors in the table of a party's engine. Shares are kept elsewhere. -/
def held (graph : Graph) (p : PartyCode) (t : ℕ) : Bool :=
  (graph.tensors[t]?).elim false (fun x => x.status = .PRIVATE ∧ x.ownerPartyCode = p)

def refNum (graph : Graph) (t : ℕ) : ℕ :=
  ((updateTensorRefNum graph).tensors[t]?).elim 0 (·.refNum)

/-- A plan of several pipelines is run in streaming mode. -/
def planNames (graph : Graph) (p : PartyCode) : Names where
  held := held graph p
  refNum := refNum graph
  streaming := 1 < graph.pipelines.length

def partyPipeline (graph : Graph) (p : PartyCode) (pl : Pipeline) : PipelinePlan where
  batched := pl.batched
  inputs := pl.inputTensors.filter (held graph p)
  outputs := pl.outputTensors.filter (held graph p)
  nodes := (pl.nodes.map (·.node)).filter (fun n => p ∈ n.parties)

/-- What a party's engine does with its plan of a graph whose pipelines list their nodes in the
order in which they run. -/
def runPlan (graph : Graph) (p : PartyCode) (slices : Slices) : Option State :=
  runPipelines (planNames graph p) slices (graph.pipelines.map (partyPipeline graph p))

def graphNodes (pls : List Pipeline) : List ExecutionNode :=
  pls.flatMap (fun pl => pl.nodes.map (·.node))

def ReadAfter (seen : List ℕ) : List ExecutionNode → Prop
  | [] => True
  | n::ns => (∀ t ∈ n.inputs.tensors, t ∈ seen) ∧ ReadAfter (seen ++ n.outputs.tensors) ns

instance decidableReadAfter : ∀ seen ns, Decidable (ReadAfter seen ns)
  | _, [] => inferInstanceAs (Decidable True)
  | seen, n::ns =>
    have := decidableReadAfter (seen ++ n.outputs.tensors) ns
    inferInstanceAs (Decidable (_ ∧ _))

structure WellFormed (graph : Graph) (p : PartyCode) : Prop where
  unreferenced : ∀ x ∈ graph.tensors, x.refNum = 0
  once : (writes (graphNodes graph.pipelines)).Nodup
  readAfter : ReadAfter [] (graphNodes graph.pipelines)
  /-- The owner of a tensor takes part in the nodes that read or write it. -/
  takesPart : ∀ n ∈ graphNodes graph.pipelines, ∀ t ∈ n.inputs.tensors ++ n.outputs.tensors,
    held graph p t → p ∈ n.parties
  filled : (∀ pl ∈ graph.pipelines, pl.batched = false) ∨
    fillPipeline (fun t => (graph.tensors[t]?).elim .UNKNOWN (·.status)) graph.pipelines =
      graph.pipelines

/-- What the inputs of a batched pipeline have to be: tensors of as many slices, and if the
pipeline has several batches, tensors with a reader and not read by a later pipeline. -/
def BatchesOnce (graph : Graph) (p : PartyCode) (slices : Slices) : Prop :=
  ∀ k : Fin graph.pipelines.length, graph.pipelines[k].batched →
    let inputs := graph.pipelines[k].inputTensors.filter (held graph p)
    let own := ownSliceNum slices.sliceNum inputs
    0 < own ∧ (∀ t ∈ inputs, slices.sliceNum t = own) ∧
      (max own (slices.peerSliceNum k) ≠ 1 → 1 < graph.pipelines.length ∧
        ∀ t ∈ inputs, slices.sliceNum t ≠ 1 ∧
          t ∉ reads (graphNodes (graph.pipelines.drop (k+1))))

instance (graph : Graph) (p : PartyCode) (slices : Slices) :
    Decidable (BatchesOnce graph p slices) :=
  inferInstanceAs (Decidable (∀ _ : Fin _, _ → _))

variable {t : ℕ}

lemma ReadAfter.mem_writes {seen : List ℕ} {before : List ExecutionNode} {n : ExecutionNode}
  {after : List ExecutionNode} (h : ReadAfter seen (before ++ n::after))
  (ht : t ∈ n.inputs.tensors) :
  t ∈ seen ∨ t ∈ writes before := by
  induction before generalizing seen with
  | nil => exact .inl (h.1 t ht)
  | cons m before ih =>
    have := ih h.2
    rw [mem_append, or_assoc] at this
    simpa using this

variable {graph : Graph}

lemma refNum_eq_count (hzero : ∀ x ∈ graph.tensors, x.refNum = 0) (ht : t < graph.tensors.length) :
  refNum graph t = (reads (graphNodes graph.pipelines)).count t := by
  have hreads : reads (graphNodes graph.pipelines) = graph.pipelines.flatMap (·.inputIds) := by
    simp only [reads, graphNodes, flatMap_assoc, flatMap_map, Pipeline.inputIds]
  have hfold : ∀ (ts : List ℕ) (xs : List Tensor), ((ts.foldl (fun (ts : List Tensor) (t : ℕ) =>
      ts.modify t (fun x => {x with refNum := x.refNum+1})) xs)[t]?).map (·.refNum) =
        (xs[t]?).map (fun x => x.refNum+ts.count t) := by
    intro ts
    induction ts with
    | nil => simp
    | cons u ts ih =>
      intro xs
      rw [foldl_cons, ih, getElem?_modify]
      by_cases hu : u = t
      · subst hu
        cases xs[u]? with
        | none => rfl
        | some x => simp [Nat.add_assoc, Nat.add_comm 1]
      · simp [hu]
  have hget := hfold (graph.pipelines.flatMap (·.inputIds)) graph.tensors
  rw [getElem?_eq_getElem ht, Option.map_some, hzero _ (getElem_mem ht)] at hget
  obtain ⟨x, hx, hcount⟩ := Option.map_eq_some_iff.mp hget
  rw [refNum, updateTensorRefNum, hx, hreads]
  simpa using hcount

lemma lt_of_held {p : PartyCode} (h : held graph p t) : t < graph.tensors.length := by
  by_contra hge
  rw [held, getElem?_eq_none (not_lt.mp hge)] at h
  cases h

variable {graph : Graph} {p : PartyCode}

lemma planNodes_map (pls : List Pipeline) : planNodes (pls.map (partyPipeline graph p)) =
    (graphNodes pls).filter (fun n => p ∈ n.parties) := by
  simp only [planNodes, graphNodes, partyPipeline, flatMap_map, filter_flatMap]

lemma count_reads_filter (h : ∀ n ∈ ns, t ∈ n.inputs.tensors → p ∈ n.parties) :
  (reads (ns.filter (fun n => p ∈ n.parties))).count t = (reads ns).count t := by
  induction ns with
  | nil => rfl
  | cons n ns ih =>
    have ih := ih fun m hm => h m (by simp [hm])
    by_cases hn : p ∈ n.parties
    · simp [hn, ih]
    · have hnot : t ∉ n.inputs.tensors := fun ht => hn (h n (by simp) ht)
      simp [hn, ih, count_eq_zero_of_not_mem hnot]

lemma mem_writes_filter (h : ∀ n ∈ ns, t ∈ n.outputs.tensors → p ∈ n.parties) :
  t ∈ writes (ns.filter (fun n => p ∈ n.parties)) ↔ t ∈ writes ns := by
  simp only [writes, mem_flatMap, mem_filter, decide_eq_true_eq]
  exact ⟨fun ⟨n, hn, ht⟩ => ⟨n, hn.1, ht⟩, fun ⟨n, hn, ht⟩ => ⟨n, ⟨hn, h n hn ht⟩, ht⟩⟩

lemma WellFormed.nodesOK (h : WellFormed graph p) :
  NodesOK (planNames graph p) (planNodes (graph.pipelines.map (partyPipeline graph p))) := by
  rw [planNodes_map]
  refine ⟨?_, ?_, ?_⟩
  · exact h.once.sublist (filter_sublist.flatMap _)
  · intro done n rest hsplit t ht hheld
    obtain ⟨before, after, hns, hdone, hafter⟩ := filter_eq_append_iff.mp hsplit
    obtain ⟨skipped, after', rfl, hskipped, -, -⟩ := filter_eq_cons_iff.mp hafter
    have hread := h.readAfter
    rw [hns, ← append_assoc] at hread
    have hwritten := (hread.mem_writes ht).resolve_left not_mem_nil
    obtain ⟨m, hm, hout⟩ := mem_flatMap.mp hwritten
    have hpart : p ∈ m.parties := h.takesPart m (by
      rw [hns]
      rcases mem_append.mp hm with hm | hm
      · simp [hm]
      · simp [hm]) t (by simp [hout]) hheld
    refine mem_flatMap.mpr ⟨m, ?_, hout⟩
    rcases mem_append.mp hm with hm | hm
    · exact hdone ▸ mem_filter.mpr ⟨hm, by simpa using hpart⟩
    · exact absurd (by simpa using hpart) (hskipped m hm)
  · intro t ht hheld
    rw [count_reads_filter fun n hn hr => h.takesPart n hn t (by simp [hr]) hheld]
    exact refNum_eq_count h.unreferenced (lt_of_held hheld)

lemma WellFormed.bordersOK (h : WellFormed graph p) {ps qs : List Pipeline} {pl : Pipeline}
  (hsplit : graph.pipelines = ps ++ pl::qs) (hbatched : pl.batched) :
  BordersOK (planNames graph p) (partyPipeline graph p pl)
    (planNodes (qs.map (partyPipeline graph p))) := by
  have hfilled := (h.filled.resolve_left fun hall => by
    rw [hall pl (by simp [hsplit])] at hbatched
    cases hbatched).trans hsplit
  obtain ⟨hinputs, houtputs, -⟩ := fillPipeline_split hfilled
  have hnodes :
    graphNodes graph.pipelines = graphNodes ps ++ (pl.nodes.map (·.node) ++ graphNodes qs) := by
    simp [graphNodes, hsplit]
  have hpart : ∀ n ∈ pl.nodes.map (·.node) ++ graphNodes qs, ∀ t ∈ n.inputs.tensors ++
      n.outputs.tensors, held graph p t → p ∈ n.parties := fun n hn =>
    h.takesPart n (by rw [hnodes]; exact mem_append_right _ hn)
  have hreads : ∀ ns, (∀ n ∈ ns, n ∈ pl.nodes.map (·.node) ++ graphNodes qs) → ∀ t,
      held graph p t → (t ∈ reads (ns.filter (fun n => p ∈ n.parties)) ↔ t ∈ reads ns) := by
    intro ns hns t hheld
    rw [← count_pos_iff, count_reads_filter, count_pos_iff]
    exact fun n hn hr => hpart n (hns n hn) t (by simp [hr]) hheld
  have hwrites : ∀ t, held graph p t →
    (t ∈ writes (partyPipeline graph p pl).nodes ↔ t ∈ pl.outputIds) := by
    intro t hheld
    rw [partyPipeline, mem_writes_filter fun n hn hw =>
      hpart n (mem_append_left _ hn) t (by simp [hw]) hheld]
    simp [writes, Pipeline.outputIds, flatMap_map]
  have hids : reads (pl.nodes.map (·.node)) = pl.inputIds := by
    simp [reads, Pipeline.inputIds, flatMap_map]
  refine ⟨?_, ?_, ?_⟩
  · intro t
    rw [show (partyPipeline graph p pl).inputs = pl.inputTensors.filter (held graph p) from rfl,
      hinputs, mem_filter, mem_sliceDeDup, mem_filter, and_comm]
    refine and_congr_right fun hheld => ?_
    rw [hwrites t hheld, show (partyPipeline graph p pl).nodes =
      (pl.nodes.map (·.node)).filter (fun n => p ∈ n.parties) from rfl,
      hreads _ (fun n hn => mem_append_left _ hn) t hheld, hids]
    simp
  · intro t
    have hlater : t ∈ pl.outputIds → ∀ q ∈ qs, t ∉ q.outputIds := by
      intro hout q hq hw
      have honce := h.once
      rw [hnodes, writes_append, writes_append, nodup_append, nodup_append] at honce
      refine honce.2.1.2.2 t ?_ t ?_ rfl
      · simpa [writes, Pipeline.outputIds, flatMap_map] using hout
      · simp only [writes, graphNodes, flatMap_assoc, mem_flatMap]
        exact ⟨q, hq, by simpa [Pipeline.outputIds] using hw⟩
    rw [show (partyPipeline graph p pl).outputs = pl.outputTensors.filter (held graph p) from rfl,
      mem_filter, mem_outputTensors hfilled hlater, and_comm]
    refine and_congr_right fun hheld => ?_
    rw [hwrites t hheld, planNodes_map, hreads _ (fun n hn => mem_append_right _ hn) t hheld]
    simp [reads, graphNodes, flatMap_assoc, Pipeline.inputIds]
  · exact (houtputs ▸ nodup_sliceDeDup _).filter _

/-- If the inputs of a pipeline run in batches are not read later on, every node finds its input
tensors and whoever is to get a complete tensor gets it. -/
theorem tensors_complete (h : WellFormed graph p) (honce : BatchesOnce graph p slices) :
  ∃ s, runPlan graph p slices = some s ∧ ∀ v ∈ s.found, v = .complete := by
  refine runPipelines_spec h.nodesOK fun ps' pl' qs' hsplit hbatched => ?_
  obtain ⟨ps, rest, hpls, rfl, hrest⟩ := map_eq_append_iff.mp hsplit
  obtain ⟨pl, qs, rfl, rfl, rfl⟩ := map_eq_cons_iff.mp hrest
  have hk : ps.length < graph.pipelines.length := by simp [hpls]
  have hget : graph.pipelines[ps.length] = pl := by simp [hpls]
  have hdrop : graph.pipelines.drop (ps.length+1) = qs := by simp [hpls]
  have hpart := honce ⟨ps.length, hk⟩
  simp only [Fin.getElem_fin, hget, hdrop] at hpart
  obtain ⟨hpos, hequal, hmany⟩ := hpart hbatched
  refine ⟨h.bordersOK hpls hbatched, hequal, hpos, ?_⟩
  intro hne
  rw [length_map] at hne
  obtain ⟨hstream, hlater⟩ := hmany hne
  refine ⟨by simpa [planNames] using hstream, fun t ht => ⟨(hlater t ht).1, fun hread => ?_⟩⟩
  refine (hlater t ht).2 ?_
  rw [planNodes_map] at hread
  exact (filter_sublist.flatMap _).subset hread

def args (name : String) (ts : List ℕ) : Arguments := (∅ : Arguments).insert name ts

/-- A column is bucketed, negated bucket by bucket, and some columns are published. -/
def bucketGraph (published : List ℕ) : Graph where
  pipelines :=
    [⟨false, [], [1],
      [⟨0, ⟨"runsql", .RunSQL, ∅, args "Out" [0], ∅, ["alice"]⟩, [⟨0, 1, 0⟩, ⟨0, 1, 0⟩]⟩,
        ⟨1, ⟨"bucket", .Bucket, (args "Key" [0]).insert "In" [0], args "Out" [1], ∅, ["alice"]⟩,
          [⟨1, 2, 1⟩]⟩]⟩,
    ⟨true, [1], [2],
      [⟨2, ⟨"not", .Not, args "In" [1], args "Out" [2], ∅, ["alice"]⟩, [⟨2, 3, 2⟩]⟩]⟩,
    ⟨false, published, [],
      [⟨3, ⟨"publish", .Publish, args "In" published, args "Out" [3], ∅, ["alice"]⟩, []⟩]⟩]
  nodeCnt := 4
  outputNames := ["a"]
  partyInfo := ["alice"]
  tensors := replicate 4 {name := "a", status := .PRIVATE, ownerPartyCode := "alice"}

def twoBuckets : Slices := ⟨fun t => if t = 1 then 2 else 1, fun k => if k = 1 then 2 else 1⟩

theorem tensors_complete_bucketGraph :
  WellFormed (bucketGraph [2]) "alice" ∧ BatchesOnce (bucketGraph [2]) "alice" twoBuckets ∧
    ∃ s, runPlan (bucketGraph [2]) "alice" twoBuckets = some s ∧ ∀ v ∈ s.found, v = .complete := by
  have hwf : WellFormed (bucketGraph [2]) "alice" :=
    ⟨by decide, by decide, by decide, by decide, .inr rfl⟩
  have honce : BatchesOnce (bucketGraph [2]) "alice" twoBuckets := by decide
  exact ⟨hwf, honce, tensors_complete hwf honce⟩

/-- The bucketed column is published as well. Each batch counts its one reader in the second
pipeline down, the second batch removes it, and publishing does not find it. -/
theorem tensor_lost :
  WellFormed (bucketGraph [1, 2]) "alice" ∧
    runPlan (bucketGraph [1, 2]) "alice" twoBuckets = none :=
  ⟨⟨by decide, by decide, by decide, by decide, .inr rfl⟩, by decide⟩

end Scql.TensorLifetime
