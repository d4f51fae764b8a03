import Scql.FallibleRules
import Scql.MapUpdates
import Scql.TensorSlices

/-! # Slices of the inputs of a batched pipeline

A batched pipeline is run once for each slice of its inputs. Every party slices its own inputs and
the parties agree on the largest number of slices; in each batch the next slice stands in the
tensor table under the name of the input, and the outputs of the batches are written one after
another. -/
namespace Scql.PipelineSlices

open TensorSlices MapUpdates List AList

variable {α : Type}

abbrev TensorTable (α : Type) := AList (fun _ : String => Tensor α)

inductive Failure
  | refused (reason : String)
  /-- A vector is read past its end. -/
  | outOfRange
  deriving DecidableEq

/-- The part of a batched pipeline that one party runs. An output is made by the nodes of the
pipeline and so is no input, and the nodes leave it in the table because a later pipeline reads
it. -/
structure Party (α : Type) where
  inputs : List String
  outputs : List String
  table : TensorTable α
  /-- What the nodes make of the tensor table in a batch. -/
  nodes : ℕ → TensorTable α → TensorTable α
  outputs_nodup : outputs.Nodup
  outputs_new : ∀ name ∈ outputs, name ∉ inputs
  outputs_made : ∀ i table, ∀ name ∈ outputs, name ∈ nodes i table

structure PipelineExecutor (α : Type) where
  inputTensors : List (Tensor α) := []
  /-- The rows each writer has got so far. -/
  outputWriters : List (List α) := []
  inputTensorNames : List String := []
  outputTensorNames : List String := []
  tensorReaders : List (TensorSlice α) := []
  firstBatch : Bool := true
  batched : Bool
  batchNum : ℕ := 1

namespace PipelineExecutor

def addInput (table : TensorTable α) (e : PipelineExecutor α) (name : String) :
    Except Failure (PipelineExecutor α) :=
  match table.lookup name with
  | none => .error (.refused s!"failed to get input tensor: {name}")
  | some tensor =>
    let sliceNum := (createTensorSlice tensor).getSliceNum
    if !e.inputTensors.isEmpty ∧ sliceNum ≠ e.batchNum then
      .error (.refused ("input tensors has different batch num " ++ toString e.batchNum ++ ":" ++
        toString sliceNum))
    else if sliceNum = 1 then
      .ok {e with inputTensors := e.inputTensors ++ [tensor], batchNum := sliceNum}
    else
      .ok { e with
        inputTensors := e.inputTensors ++ [tensor]
        batchNum := sliceNum
        tensorReaders := e.tensorReaders ++ [createTensorSlice tensor]
        inputTensorNames := e.inputTensorNames ++ [name]}

def readInputs (batched : Bool) (p : Party α) : Except Failure (PipelineExecutor α) :=
  if !batched then .ok {batched := false}
  else p.inputs.foldlM (addInput p.table) {batched := true}

def getMaxSliceNum (sliceNums : List ℕ) : ℕ := sliceNums.foldl max 0

def setBatchNum (batchNum : ℕ) (p : Party α) (e : PipelineExecutor α) : PipelineExecutor α :=
  if batchNum = 1 then {e with batched := false, batchNum}
  else {e with batchNum, outputTensorNames := p.outputs}

/-- The constructors at all parties: they wait for one another to exchange the slice numbers. -/
def create (batched : Bool) (parties : List (Party α)) :
    Except Failure (List (PipelineExecutor α)) := do
  let es ← parties.mapM (readInputs batched)
  if !batched then return es
  return zipWith (setBatchNum (getMaxSliceNum (es.map (·.batchNum)))) parties es

/-- The loop goes over the inputs and takes the reader and the name at the same place. -/
def updateTensorTable (e : PipelineExecutor α) (table : TensorTable α) :
    Except Failure (PipelineExecutor α × TensorTable α) :=
  if !e.batched then .ok (e, table)
  else if e.tensorReaders.length < e.inputTensors.length then .error .outOfRange
  else
    let read := e.tensorReaders.map TensorSlice.next
    .ok ({e with tensorReaders := read.map (·.2)},
      (e.inputTensorNames.zip (read.map (·.1))).foldl (fun table x => table.insert x.1 x.2) table)

def fetchOutput (firstBatch : Bool) (s : List (List α) × TensorTable α) (name : String × ℕ) :
    Except Failure (List (List α) × TensorTable α) :=
  match s.2.lookup name.1 with
  | none => .error (.refused ("failed to get output tensor: \x7b\x7d" ++ name.1))
  | some tensor =>
    let writers := if firstBatch then s.1 ++ [[]] else s.1
    match writers[name.2]? with
    | none => .error .outOfRange
    | some rows => .ok (writers.set name.2 (rows ++ tensor.rows), s.2.erase name.1)

def fetchOutputTensors (e : PipelineExecutor α) (table : TensorTable α) :
    Except Failure (PipelineExecutor α × TensorTable α) := do
  if !e.batched then return (e, table)
  let (writers, table) ←
    e.outputTensorNames.zipIdx.foldlM (fetchOutput e.firstBatch) (e.outputWriters, table)
  return ({e with outputWriters := writers, firstBatch := false}, table)

/-- `TensorWriter::Finish`: a writer opens its file with the first row. -/
def finishWriter (rows : List α) : Tensor α := .disk (if rows.isEmpty then [] else [rows])

def addTensor (table : TensorTable α) (x : String × Tensor α) :
    Except Failure (TensorTable α) :=
  if x.1 ∈ table then .error
    (.refused ("tensor named \"" ++ x.1 ++ "\" already exists in TensorTable"))
  else .ok (table.insert x.1 x.2)

def putBack (table : TensorTable α) (x : String × Tensor α) : TensorTable α :=
  if x.1 ∈ table then table.insert x.1 x.2 else table

def finish (e : PipelineExecutor α) (table : TensorTable α) : Except Failure (TensorTable α) := do
  if !e.batched then return table
  let table ← (e.outputTensorNames.zip (e.outputWriters.map finishWriter)).foldlM addTensor table
  return (e.inputTensorNames.zip e.inputTensors).foldl putBack table

end PipelineExecutor

/-- The tensor table when the nodes of a batch start and when they are done. -/
structure Batch (α : Type) where
  before : TensorTable α
  after : TensorTable α

structure Progress (α : Type) where
  executor : PipelineExecutor α
  table : TensorTable α
  batches : List (Batch α) := []

def runBatch (p : Party α) (s : Progress α) (i : ℕ) : Except Failure (Progress α) := do
  let (e, before) ← s.executor.updateTensorTable s.table
  let after := p.nodes i before
  let (e, table) ← e.fetchOutputTensors after
  return ⟨e, table, s.batches ++ [⟨before, after⟩]⟩

/-- What a party does with a pipeline, up to `Finish`. -/
def runPipeline (p : Party α) (e : PipelineExecutor α) :
    Except Failure (TensorTable α × List (Batch α)) := do
  let s ← (range e.batchNum).foldlM (runBatch p) ⟨e, p.table, []⟩
  let table ← s.executor.finish s.table
  return (table, s.batches)

def rowsAt (table : TensorTable α) (name : String) : List α :=
  ((table.lookup name).map Tensor.rows).getD []

/-- A party has run a pipeline in `n` batches: in each of them every input name held the slice of
its turn, all slices together make up the input, and the outputs of the batches stand in the
table one after another. -/
structure Delivered (p : Party α) (n : ℕ) (r : TensorTable α × List (Batch α)) : Prop where
  batches : r.2.length = n
  slice : ∀ i b, r.2[i]? = some b → ∀ name ∈ p.inputs, ∀ t, p.table.lookup name = some t →
    (b.before.lookup name).map Tensor.rows = some (t.slices.getD i [])
  whole : ∀ name ∈ p.inputs, ∀ t, p.table.lookup name = some t →
    (r.2.map (fun b => rowsAt b.before name)).flatten = t.rows
  outputs : ∀ name ∈ p.outputs, (r.1.lookup name).map Tensor.rows =
    some (r.2.map (fun b => rowsAt b.after name)).flatten

def Refused (parties : List (Party α)) : Prop :=
  ∃ reason, PipelineExecutor.create true parties = .error (.refused reason)

/-- An input of the party is missing, or two of its inputs have different numbers of slices. -/
def Party.Unfit (p : Party α) : Prop :=
  (∃ name ∈ p.inputs, p.table.lookup name = none) ∨
    ∃ name ∈ p.inputs, ∃ name' ∈ p.inputs, ∃ t t', p.table.lookup name = some t ∧
      p.table.lookup name' = some t' ∧ t.slices.length ≠ t'.slices.length

/-- The constructor refuses, or all parties run the pipeline in the same number of batches. -/
def RefusedOrDelivered (parties : List (Party α)) : Prop :=
  Refused parties ∨ ∃ es n, PipelineExecutor.create true parties = .ok es ∧
    Forall₂ (fun p e => ∃ r, runPipeline p e = .ok r ∧ Delivered p n r) parties es

/-- All inputs at all parties have one slice, or all have several. -/
def SlicesAgree (parties : List (Party α)) : Prop :=
  (∀ p ∈ parties, ∀ name ∈ p.inputs, ∀ t, p.table.lookup name = some t → t.slices.length = 1) ∨
    ∀ p ∈ parties, ∀ name ∈ p.inputs, ∀ t, p.table.lookup name = some t → t.slices.length ≠ 1

open PipelineExecutor

def Party.tensorOf (p : Party α) (name : String) : Tensor α := (p.table.lookup name).getD (.mem [])

/-- The executor of a party before the slice numbers are exchanged, if its inputs have `k` slices
each. -/
def collected (p : Party α) (names : List String) (k : ℕ) : PipelineExecutor α where
  inputTensors := names.map p.tensorOf
  inputTensorNames := if k = 1 then [] else names
  tensorReaders := if k = 1 then [] else names.map (fun name => createTensorSlice (p.tensorOf name))
  batched := true
  batchNum := k

/-- All inputs named in a list are there with `k` slices each. -/
structure Sliced (p : Party α) (names : List String) (k : ℕ) : Prop where
  slices : ∀ name ∈ names, ∃ t, p.table.lookup name = some t ∧ t.slices.length = k
  none : names = [] → k = 1

variable {p : Party α} {name : String} {e : PipelineExecutor α}

lemma addInput_eq_ok {names : List String} {k : ℕ} (h : Sliced p names k)
  (he : addInput p.table (collected p names k) name = .ok e) :
  ∃ k', e = collected p (names ++ [name]) k' ∧ Sliced p (names ++ [name]) k' := by
  rw [addInput] at he
  split at he
  · cases he
  · next t ht =>
    have htensor : p.tensorOf name = t := by rw [Party.tensorOf, ht, Option.getD_some]
    simp only [getSliceNum_createTensorSlice] at he
    split at he
    · cases he
    · next hsame =>
      -- after the first input the slice number cannot change any more
      have hk : names ≠ [] → k = t.slices.length := by
        intro hne
        by_contra hk
        refine hsame ⟨?_, fun h => hk h.symm⟩
        simpa [collected] using hne
      have hsliced : Sliced p (names ++ [name]) t.slices.length := by
        refine ⟨fun name' hname' => ?_, fun h => absurd h (by simp)⟩
        rcases mem_append.mp hname' with hmem | hmem
        · exact hk (ne_nil_of_mem hmem) ▸ h.slices name' hmem
        · exact ⟨t, mem_singleton.mp hmem ▸ ht, rfl⟩
      have hkone : t.slices.length = 1 ↔ k = 1 ∧ (names = [] → t.slices.length = 1) := by
        by_cases hne : names = []
        · simp [hne, h.none hne]
        · simp [hne, hk hne]
      refine ⟨_, ?_, hsliced⟩
      split at he
      · next hone =>
        cases he
        simp [collected, hone, htensor, (hkone.mp hone).1]
      · next hone =>
        cases he
        by_cases hne : names = []
        · simp [collected, hone, htensor, hne]
        · simp [collected, hone, htensor, hk hne]

lemma foldlM_addInput {names : List String}
    (h : names.foldlM (addInput p.table) { batched := true } = .ok e) :
    ∃ k, e = collected p names k ∧ Sliced p names k := by
  refine Fallible.foldlM_prefix (P := fun names e => ∃ k, e = collected p names k ∧
    Sliced p names k) names ?_ ⟨1, rfl, by simp, fun _ => rfl⟩ h
  rintro names name rest - _ e ⟨k, rfl, hsliced⟩ he
  exact addInput_eq_ok hsliced he

lemma readInputs_eq_ok (h : readInputs true p = .ok e) :
    e = collected p p.inputs e.batchNum ∧ Sliced p p.inputs e.batchNum := by
  obtain ⟨k, rfl, hsliced⟩ := foldlM_addInput h
  exact ⟨rfl, hsliced⟩

variable {f : Failure}

lemma not_unfit_of_sliced {k : ℕ} (h : Sliced p p.inputs k) : ¬p.Unfit := by
  rintro (⟨name, hname, hnone⟩ | ⟨name, hname, name', hname', t, t', ht, ht', hne⟩)
  · obtain ⟨t, ht, -⟩ := h.slices name hname
    simp [hnone] at ht
  · obtain ⟨u, hu, huk⟩ := h.slices name hname
    obtain ⟨u', hu', huk'⟩ := h.slices name' hname'
    obtain rfl : u = t := Option.some.inj (hu.symm.trans ht)
    obtain rfl : u' = t' := Option.some.inj (hu'.symm.trans ht')
    exact hne (huk.trans huk'.symm)

lemma addInput_error {names : List String} {k : ℕ} (h : Sliced p names k)
    (hnames : ∀ name' ∈ names, name' ∈ p.inputs) (hname : name ∈ p.inputs)
    (herror : addInput p.table (collected p names k) name = .error f) :
    (∃ reason, f = .refused reason) ∧ p.Unfit := by
  rw [addInput] at herror
  split at herror
  · next hnone => exact ⟨⟨_, (Except.error.inj herror).symm⟩, .inl ⟨name, hname, hnone⟩⟩
  · next t ht =>
    simp only [getSliceNum_createTensorSlice] at herror
    split at herror
    · next hdiff =>
      -- an earlier input has the number of slices of the executor
      obtain ⟨name', hmem⟩ := exists_mem_of_ne_nil names (by simpa [collected] using hdiff.1)
      obtain ⟨t', ht', rfl⟩ := h.slices name' hmem
      exact ⟨⟨_, (Except.error.inj herror).symm⟩,
        .inr ⟨name, hname, name', hnames name' hmem, t, t', ht, ht', hdiff.2⟩⟩
    · split at herror <;> cases herror

lemma readInputs_error (h : readInputs true p = .error f) :
    (∃ reason, f = .refused reason) ∧ p.Unfit := by
  obtain ⟨done, name, rest, e, hinputs, hdone, herror⟩ := Fallible.exists_of_foldlM_error h
  obtain ⟨k, rfl, hsliced⟩ := foldlM_addInput hdone
  exact addInput_error hsliced (fun _ hmem => hinputs ▸ mem_append_left _ hmem)
    (hinputs ▸ by simp) herror

open PipelineExecutor

def written (batches : List (Batch α)) (name : String) : List α :=
  (batches.map (fun b => rowsAt b.after name)).flatten

lemma written_append (batches : List (Batch α)) (b : Batch α) (name : String) :
  written (batches ++ [b]) name = written batches name ++ rowsAt b.after name := by
  simp [written]

/-- The executor after `i` batches at a party whose inputs all have readers. -/
def executorAt (p : Party α) (n i : ℕ) (batches : List (Batch α)) : PipelineExecutor α where
  inputTensors := p.inputs.map p.tensorOf
  outputWriters := if i = 0 then [] else p.outputs.map (written batches)
  inputTensorNames := p.inputs
  outputTensorNames := p.outputs
  tensorReaders := p.inputs.map (fun name => (createTensorSlice (p.tensorOf name)).after i)
  firstBatch := i = 0
  batched := true
  batchNum := n

structure Running (p : Party α) (n i : ℕ) (s : Progress α) : Prop where
  executor : s.executor = executorAt p n i s.batches
  batches : s.batches.length = i
  slice : ∀ j b, s.batches[j]? = some b → ∀ name ∈ p.inputs,
    (b.before.lookup name).map Tensor.rows = some ((p.tensorOf name).slices.getD j [])
  fetched : 0 < i → ∀ name ∈ p.outputs, s.table.lookup name = none

lemma updateTensorTable_executorAt (p : Party α) (n i : ℕ) (batches : List (Batch α))
  (table : TensorTable α) : ∃ table', (executorAt p n i batches).updateTensorTable table =
      .ok ({ executorAt p n i batches with
        tensorReaders := (executorAt p n (i+1) batches).tensorReaders}, table') ∧
    ∀ name ∈ p.inputs, table'.lookup name =
      some ((createTensorSlice (p.tensorOf name)).after i).next.1 := by
  let slice := fun name => ((createTensorSlice (p.tensorOf name)).after i).next.1
  refine ⟨(p.inputs.map (fun name => (name, slice name))).foldl
    (fun table x => table.insert x.1 x.2) table, ?_, fun name hname => ?_⟩
  · have hzip :
    p.inputs.zip (p.inputs.map slice) = p.inputs.map (fun name => (name, slice name)) := by
      simpa using (zip_map' : (p.inputs.map id).zip (p.inputs.map slice) = _)
    rw [updateTensorTable, if_neg (by simp [executorAt]), if_neg (by simp [executorAt])]
    simp only [executorAt, map_map]
    exact congrArg (fun x => Except.ok (_, x)) (congrArg _ hzip)
  · rw [lookup_foldl_insert_keys, if_pos hname]

variable {names : List String} {table : TensorTable α}

/-- The last output is still in the table when the ones before it were erased. -/
lemma lookup_last {name : String} (hnodup : (names ++ [name]).Nodup) (hmade : name ∈ table) :
  (names.foldl (fun table name => table.erase name) table).lookup name = table.lookup name ∧
    ∃ t, table.lookup name = some t := by
  obtain ⟨-, -, hnew⟩ := nodup_append.mp hnodup
  rw [lookup_foldl_erase, if_neg (fun h => hnew name h name (by simp) rfl)]
  exact ⟨rfl, Option.isSome_iff_exists.mp (lookup_isSome.mpr hmade)⟩

lemma fetchOutput_first (hnodup : names.Nodup) (hmade : ∀ name ∈ names, name ∈ table) :
  names.zipIdx.foldlM (fetchOutput true) ([], table) =
    .ok (names.map (rowsAt table), names.foldl (fun table name => table.erase name) table) := by
  induction names using reverseRecOn with
  | nil => rfl
  | append_singleton names name ih =>
    obtain ⟨hlookup, t, ht⟩ := lookup_last hnodup (hmade name (by simp))
    rw [zipIdx_append, foldlM_append, ih hnodup.of_append_left (fun n hn => hmade n (by simp [hn]))]
    simp [bind, Except.bind, fetchOutput, hlookup, ht, rowsAt, pure, Except.pure]

lemma fetchOutput_later (w : String → List α) (hnodup : names.Nodup)
  (hmade : ∀ name ∈ names, name ∈ table) (rest : List String) :
  names.zipIdx.foldlM (fetchOutput false) ((names ++ rest).map w, table) =
    .ok (names.map (fun name => w name ++ rowsAt table name) ++ rest.map w,
      names.foldl (fun table name => table.erase name) table) := by
  induction names using reverseRecOn generalizing rest with
  | nil => rfl
  | append_singleton names name ih =>
    obtain ⟨hlookup, t, ht⟩ := lookup_last hnodup (hmade name (by simp))
    rw [zipIdx_append, foldlM_append, append_assoc,
      ih hnodup.of_append_left (fun n hn => hmade n (by simp [hn]))]
    simp [bind, Except.bind, fetchOutput, hlookup, ht, rowsAt, pure, Except.pure]

variable {n : ℕ} {i : ℕ}

lemma runBatch_ok {s : Progress α} (h : Running p n i s)
  (hslices : ∀ name ∈ p.inputs, (p.tensorOf name).slices.length ≠ 1) :
  ∃ s', runBatch p s i = .ok s' ∧ Running p n (i+1) s' := by
  obtain ⟨before, hupdate, hbefore⟩ := updateTensorTable_executorAt p n i s.batches s.table
  let after := p.nodes i before
  have hmade : ∀ name ∈ p.outputs, name ∈ after := p.outputs_made i before
  let batches := s.batches ++ [⟨before, after⟩]
  let table := p.outputs.foldl (fun table name => table.erase name) after
  have hfetch : ({ executorAt p n i s.batches with
      tensorReaders := (executorAt p n (i+1) s.batches).tensorReaders} :
        PipelineExecutor α).fetchOutputTensors after =
          .ok (executorAt p n (i+1) batches, table) := by
    rw [fetchOutputTensors, if_neg (by simp [executorAt])]
    by_cases hi : i = 0
    · subst hi
      obtain hnil : s.batches = [] := length_eq_zero_iff.mp h.batches
      simp only [executorAt, decide_true, if_true]
      rw [fetchOutput_first p.outputs_nodup hmade]
      simp [bind, Except.bind, pure, Except.pure, batches, hnil, written, table]
    · have hlater := fetchOutput_later (written s.batches) p.outputs_nodup hmade []
      simp only [append_nil, map_nil] at hlater
      simp only [executorAt, hi, decide_false, if_false]
      rw [hlater]
      simp [bind, Except.bind, pure, Except.pure, batches, written_append, table]
  refine ⟨⟨executorAt p n (i+1) batches, table, batches⟩, ?_, rfl, ?_, ?_, ?_⟩
  · rw [runBatch, h.executor, hupdate]
    simp only [bind, Except.bind, pure, Except.pure]
    rw [hfetch]
  · simp [batches, h.batches]
  · intro j b hb name hname
    rcases lt_or_ge j s.batches.length with hj | hj
    · exact h.slice j b (by rwa [getElem?_append_left hj] at hb) name hname
    · obtain rfl : j = i := by
        have := (List.getElem?_eq_some_iff.mp hb).1
        simp only [batches, length_append, length_singleton] at this
        have := h.batches
        omega
      rw [getElem?_append_right hj, h.batches, Nat.sub_self, getElem?_cons_zero] at hb
      cases hb
      rw [hbefore name hname, Option.map_some, rows_next_after (hslices name hname)]
  · intro _ name hname
    simp only [table]
    rw [lookup_foldl_erase, if_pos hname]

lemma rows_finishWriter (rows : List α) : (finishWriter rows).rows = rows := by
  rw [finishWriter]
  split
  · next h => simp [Tensor.rows, isEmpty_iff.mp h]
  · simp [Tensor.rows]

lemma foldlM_addTensor (hnodup : names.Nodup) (f : String → Tensor α)
  (hnew : ∀ name ∈ names, table.lookup name = none) :
  (names.map (fun name => (name, f name))).foldlM addTensor table =
    .ok ((names.map (fun name => (name, f name))).foldl
      (fun table x => table.insert x.1 x.2) table) := by
  induction names generalizing table with
  | nil => rfl
  | cons name names ih =>
    obtain ⟨hname, hnames⟩ := nodup_cons.mp hnodup
    have hadd : addTensor table (name, f name) = .ok (table.insert name (f name)) :=
      if_neg (lookup_eq_none.mp (hnew name (by simp)))
    rw [map_cons, foldlM_cons, hadd, foldl_cons]
    refine ih hnames (fun other hother => ?_)
    have hne : other ≠ name := fun h => hname (h ▸ hother)
    rw [lookup_insert_ne hne]
    exact hnew other (by simp [hother])

lemma lookup_putBack (l : List (String × Tensor α)) (table : TensorTable α)
  (hname : name ∉ l.map Prod.fst) : (l.foldl putBack table).lookup name = table.lookup name := by
  induction l generalizing table with
  | nil => rfl
  | cons x l ih =>
    obtain ⟨hx, hl⟩ := not_or.mp (mem_cons.not.mp hname)
    rw [foldl_cons, ih _ hl, putBack]
    split
    · exact lookup_insert_ne hx
    · rfl

lemma finish_executorAt (hi : i ≠ 0) (batches : List (Batch α))
  (hfetched : ∀ name ∈ p.outputs, table.lookup name = none) :
  ∃ table', (executorAt p n i batches).finish table = .ok table' ∧
    ∀ name ∈ p.outputs, (table'.lookup name).map Tensor.rows = some (written batches name) := by
  let f := fun name => finishWriter (written batches name)
  have hzip : p.outputs.zip ((p.outputs.map (written batches)).map finishWriter) =
      p.outputs.map (fun name => (name, f name)) := by
    rw [map_map]
    change p.outputs.zip (p.outputs.map f) = _
    simpa using (zip_map' : (p.outputs.map id).zip (p.outputs.map f) = _)
  refine ⟨(p.inputs.zip (p.inputs.map p.tensorOf)).foldl putBack
    ((p.outputs.map (fun name => (name, f name))).foldl (fun table x => table.insert x.1 x.2)
      table), ?_, fun name hname => ?_⟩
  · rw [finish, if_neg (by simp [executorAt])]
    simp only [executorAt, hi, if_false]
    rw [hzip, foldlM_addTensor p.outputs_nodup f hfetched]
    rfl
  · rw [lookup_putBack, lookup_foldl_insert_keys, if_pos hname, Option.map_some, rows_finishWriter]
    intro h
    obtain ⟨x, hx, rfl⟩ := mem_map.mp h
    exact p.outputs_new x.1 hname (of_mem_zip hx).1

lemma flatten_slices_getD {slices : List (List α)} (h : slices.length ≤ n) :
  ((range n).map (fun i => slices.getD i [])).flatten = slices.flatten := by
  obtain ⟨k, rfl⟩ := Nat.exists_eq_add_of_le h
  have hfront : (range slices.length).map (fun i => slices.getD i []) = slices := by
    refine ext_getElem (by simp) (fun i h₁ h₂ => ?_)
    simp [h₂]
  rw [range_add, map_append, flatten_append, hfront, map_map]
  simp

lemma flatten_before {batches : List (Batch α)} (hlen : batches.length = n) {t : Tensor α}
  (hn : t.slices.length ≤ n)
  (hslice : ∀ j b, batches[j]? = some b → (b.before.lookup name).map Tensor.rows =
    some (t.slices.getD j []))
  : (batches.map (fun b => rowsAt b.before name)).flatten = t.rows := by
  have hmap : batches.map (fun b => rowsAt b.before name) =
      (range n).map (fun i => t.slices.getD i []) := by
    refine ext_getElem (by simp [hlen]) (fun i h₁ h₂ => ?_)
    rw [length_map] at h₁
    have := hslice i batches[i] (getElem?_eq_getElem h₁)
    simp [rowsAt, this]
  rw [hmap, flatten_slices_getD hn, Tensor.flatten_slices]

lemma runPipeline_batched (hn : n ≠ 0)
    (hslices : ∀ name ∈ p.inputs, (p.tensorOf name).slices.length ≠ 1)
  (hmax : ∀ name ∈ p.inputs, (p.tensorOf name).slices.length ≤ n) :
  ∃ r, runPipeline p (executorAt p n 0 []) = .ok r ∧ Delivered p n r := by
  have hrun : ∃ s, (range n).foldlM (runBatch p) ⟨executorAt p n 0 [], p.table, []⟩ = .ok s ∧
      Running p n (range n).length s := by
    refine Fallible.foldlM_total (P := fun done s => Running p n done.length s) (range n) ?_
      ⟨rfl, rfl, by simp, fun h => absurd h (lt_irrefl 0)⟩
    intro done i rest hrange s hs
    obtain rfl : i = done.length := by
      have hi : (range n)[done.length]? = some i := by simp [hrange]
      rw [List.getElem?_eq_some_iff] at hi
      obtain ⟨_, hi⟩ := hi
      simpa using hi.symm
    rw [length_append, length_singleton]
    exact runBatch_ok hs hslices
  obtain ⟨s, hs, hrunning⟩ := hrun
  rw [length_range] at hrunning
  obtain ⟨table, hfinish, houtputs⟩ := finish_executorAt (n := n) hn s.batches
    (hrunning.fetched (Nat.pos_of_ne_zero hn))
  have htensor : ∀ name t, p.table.lookup name = some t → p.tensorOf name = t := by
    intro name t ht
    rw [Party.tensorOf, ht, Option.getD_some]
  have hslice : ∀ i b, s.batches[i]? = some b → ∀ name ∈ p.inputs, ∀ t, p.table.lookup name =
    some t →
        (b.before.lookup name).map Tensor.rows = some (t.slices.getD i []) := by
    intro i b hb name hname t ht
    rw [← htensor name t ht]
    exact hrunning.slice i b hb name hname
  refine ⟨(table, s.batches), ?_, hrunning.batches, hslice, fun name hname t ht => ?_, houtputs⟩
  · have hbatchNum : (executorAt p n 0 []).batchNum = n := rfl
    rw [runPipeline, hbatchNum, hs]
    simp only [bind, Except.bind, pure, Except.pure]
    rw [hrunning.executor, hfinish]
  · refine flatten_before hrunning.batches ?_ (fun i b hb => hslice i b hb name hname t ht)
    exact htensor name t ht ▸ hmax name hname

lemma runPipeline_once (hbatched : e.batched = false) (hnum : e.batchNum = 1)
  (hslices : ∀ name ∈ p.inputs, ∀ t, p.table.lookup name = some t → t.slices.length = 1) :
  ∃ r, runPipeline p e = .ok r ∧ Delivered p 1 r := by
  let batch : Batch α := ⟨p.table, p.nodes 0 p.table⟩
  have hslice : ∀ i b, [batch][i]? = some b → ∀ name ∈ p.inputs, ∀ t, p.table.lookup name = some t →
        (b.before.lookup name).map Tensor.rows = some (t.slices.getD i []) := by
    intro i b hb name hname t ht
    obtain ⟨rows, hrows⟩ := length_eq_one_iff.mp (hslices name hname t ht)
    obtain ⟨rfl, rfl⟩ : i = 0 ∧ batch = b := by
      cases i with
      | zero => exact ⟨rfl, by simpa using hb⟩
      | succ i => simp at hb
    have := Tensor.flatten_slices t
    simp [batch, ht, ← this, hrows]
  refine ⟨(p.nodes 0 p.table, [batch]), ?_, rfl, hslice, fun name hname t ht => ?_,
    fun name hname => ?_⟩
  · simp [runPipeline, hnum, runBatch, updateTensorTable, fetchOutputTensors, finish, hbatched,
      bind, Except.bind, pure, Except.pure, batch]
  · exact flatten_before (n := 1) rfl (hslices name hname t ht).le
      (fun i b hb => hslice i b hb name hname t ht)
  · obtain ⟨t, ht⟩ := Option.isSome_iff_exists.mp
      (lookup_isSome.mpr (p.outputs_made 0 p.table name hname))
    simp [batch, rowsAt, ht]

lemma runPipeline_outOfRange (hbatched : e.batched = true) (hnum : e.batchNum ≠ 0)
  (hreaders : e.tensorReaders.length < e.inputTensors.length) :
    runPipeline p e = .error .outOfRange := by
  obtain ⟨k, hk⟩ := Nat.exists_eq_succ_of_ne_zero hnum
  have hupdate : e.updateTensorTable p.table = .error .outOfRange := by
    rw [updateTensorTable, if_neg (by simp [hbatched]), if_pos hreaders]
  rw [runPipeline, hk, range_succ_eq_map, foldlM_cons, runBatch, hupdate]
  rfl

open PipelineExecutor

variable {es : List (PipelineExecutor α)} {parties : List (Party α)} {k : ℕ}

lemma tensorOf_sliced (h : Sliced p p.inputs k) (hname : name ∈ p.inputs) :
  (p.tensorOf name).slices.length = k := by
  obtain ⟨t, ht, hk⟩ := h.slices name hname
  rw [Party.tensorOf, ht, Option.getD_some, hk]

lemma sliced_pos (h : Sliced p p.inputs k) : 0 < k := by
  rcases eq_nil_or_concat' p.inputs with hnil | ⟨names, name, hnames⟩
  · exact (h.none hnil) ▸ Nat.one_pos
  · exact tensorOf_sliced h (by simp [hnames] : name ∈ p.inputs) ▸ slices_length_pos _

/-- Every input can be read in `n` batches: it has a reader, or `n` is one. -/
def Readable (p : Party α) (k n : ℕ) : Prop := n = 1 ∨ p.inputs = [] ∨ k ≠ 1

variable {n : ℕ}

lemma delivered_of_readable (h : Sliced p p.inputs k) (hk : k ≤ n) (hread : Readable p k n) :
  ∃ r, runPipeline p (setBatchNum n p (collected p p.inputs k)) = .ok r ∧ Delivered p n r := by
  have hpos := sliced_pos h
  by_cases hn : n = 1
  · subst hn
    obtain rfl : k = 1 := by omega
    refine runPipeline_once (by simp [setBatchNum]) (by simp [setBatchNum]) ?_
    intro name hname t ht
    simpa [Party.tensorOf, ht] using tensorOf_sliced h hname
  · have hread : p.inputs = [] ∨ k ≠ 1 := hread.resolve_left hn
    have hexec : setBatchNum n p (collected p p.inputs k) = executorAt p n 0 [] := by
      rcases hread with hnil | hne
      · simp [setBatchNum, hn, collected, executorAt, hnil]
      · simp [setBatchNum, hn, collected, executorAt, hne, TensorSlice.after]
    rw [hexec]
    refine runPipeline_batched (by omega) (fun name hname => ?_) (fun name hname => ?_)
    · rw [tensorOf_sliced h hname]
      exact hread.resolve_left (ne_nil_of_mem hname)
    · exact (tensorOf_sliced h hname).le.trans hk

lemma readable_of_ok (h : Sliced p p.inputs k) (hk : k ≤ n) {r : TensorTable α × List (Batch α)}
  (hr : runPipeline p (setBatchNum n p (collected p p.inputs k)) = .ok r) : Readable p k n := by
  have hpos := sliced_pos h
  by_contra hread
  obtain ⟨hn, hne, rfl⟩ : n ≠ 1 ∧ p.inputs ≠ [] ∧ k = 1 := by simpa [Readable, not_or] using hread
  rw [runPipeline_outOfRange (by simp [setBatchNum, hn, collected])
    (by simp only [setBatchNum, hn, if_false]; omega)
    (by simpa [setBatchNum, hn, collected, length_pos_iff] using hne)] at hr
  cases hr

variable {β γ : Type} {l : List β} {l' : List γ}

lemma forall₂_zipWith {δ : Type} {S : β → δ → Prop} {f : β → γ → δ} (h : l.length = l'.length) :
  Forall₂ S l (zipWith f l l') ↔ ∀ b c, (b, c) ∈ l.zip l' → S b (f b c) := by
  induction l generalizing l' with
  | nil => simp
  | cons b l ih =>
    obtain ⟨c, l', rfl⟩ := exists_cons_of_length_eq_add_one h.symm
    rw [zipWith_cons_cons, forall₂_cons, ih (by simpa using h)]
    simp only [zip_cons_cons, mem_cons, Prod.mk.injEq]
    grind

lemma exists_zip_left (h : l.length = l'.length) {b : β} (hb : b ∈ l) : ∃ c, (b, c) ∈ l.zip l' := by
  obtain ⟨i, hi, rfl⟩ := getElem_of_mem hb
  exact ⟨l'[i], mem_of_getElem? (i := i) (by simp [hi, h ▸ hi])⟩

lemma exists_zip_right (h : l.length = l'.length) {c : γ} (hc : c ∈ l') :
  ∃ b, (b, c) ∈ l.zip l' := by
  obtain ⟨i, hi, rfl⟩ := getElem_of_mem hc
  exact ⟨l[i], mem_of_getElem? (i := i) (by simp [hi, h ▸ hi])⟩

lemma foldl_max_eq (l : List ℕ) (a : ℕ) : l.foldl max a = max a (l.foldl max 0) := by
  induction l generalizing a with
  | nil => simp
  | cons b l ih => rw [foldl_cons, ih, foldl_cons, ih (max 0 b)]; omega

lemma le_getMaxSliceNum {l : List ℕ} (hk : k ∈ l) : k ≤ getMaxSliceNum l := by
  induction l with
  | nil => cases hk
  | cons b l ih =>
    rw [getMaxSliceNum, foldl_cons, foldl_max_eq]
    rcases mem_cons.mp hk with rfl | hk
    · omega
    · exact (ih hk).trans (le_max_right _ _)

lemma batchNum_le (he : e ∈ es) : e.batchNum ≤ getMaxSliceNum (es.map (·.batchNum)) :=
  le_getMaxSliceNum (mem_map_of_mem he)

lemma getMaxSliceNum_le {l : List ℕ} (h : ∀ k ∈ l, k ≤ n) : getMaxSliceNum l ≤ n := by
  induction l with
  | nil => exact Nat.zero_le n
  | cons b l ih =>
    rw [getMaxSliceNum, foldl_cons, foldl_max_eq]
    have hl := ih fun k hk => h k (by simp [hk])
    have hb := h b (by simp)
    rw [getMaxSliceNum] at hl
    omega

lemma create_eq_ok (h : create true parties = .ok es) :
  ∃ es₀, es = zipWith (setBatchNum (getMaxSliceNum (es₀.map (·.batchNum)))) parties es₀ ∧
    Forall₂ (fun p e => e = collected p p.inputs e.batchNum ∧ Sliced p p.inputs e.batchNum)
      parties es₀ := by
  rw [create, Fallible.bind_eq_ok] at h
  obtain ⟨es₀, hes₀, h⟩ := h
  refine ⟨es₀, (Except.ok.inj h).symm, ?_⟩
  exact Fallible.forall₂_of_mapM_ok hes₀ (fun p _ e he => readInputs_eq_ok he)

lemma create_error (h : create true parties = .error f) :
    Refused parties ∧ ∃ p ∈ parties, p.Unfit := by
  have hread : parties.mapM (readInputs true) = .error f := by
    rw [create] at h
    cases hes : parties.mapM (readInputs true) with
    | error f' =>
      rw [hes] at h
      exact congrArg Except.error (Except.error.inj h)
    | ok es => simp [hes, bind, Except.bind, pure, Except.pure] at h
  obtain ⟨p, hp, herror⟩ := Fallible.exists_of_mapM_error hread
  obtain ⟨⟨reason, rfl⟩, hunfit⟩ := readInputs_error herror
  exact ⟨⟨reason, h⟩, p, hp, hunfit⟩

lemma not_unfit_of_create (h : create true parties = .ok es) : ¬∃ p ∈ parties, p.Unfit := by
  rintro ⟨p, hp, hunfit⟩
  obtain ⟨es₀, -, hes₀⟩ := create_eq_ok h
  obtain ⟨e, -, -, hsliced⟩ := Fallible.exists_of_forall₂ hes₀ hp
  exact not_unfit_of_sliced hsliced hunfit

/-- The parties can all read their inputs in the largest number of slices if and only if the inputs
have one slice everywhere or several slices everywhere. -/
lemma readable_iff_slicesAgree (hlen : parties.length = es.length)
  (hes : ∀ p e, (p, e) ∈ parties.zip es → Sliced p p.inputs e.batchNum) :
    (∀ p e, (p, e) ∈ parties.zip es →
    Readable p e.batchNum (getMaxSliceNum (es.map (·.batchNum)))) ↔ SlicesAgree parties := by
  have hslices : ∀ p e, (p, e) ∈ parties.zip es → ∀ name ∈ p.inputs, ∀ t,
      p.table.lookup name = some t → t.slices.length = e.batchNum := by
    intro p e hpe name hname t ht
    simpa [Party.tensorOf, ht] using tensorOf_sliced (hes p e hpe) hname
  have hone_iff : getMaxSliceNum (es.map (·.batchNum)) = 1 → ∀ p e, (p, e) ∈ parties.zip es →
    e.batchNum = 1 := by
    intro hone p e hpe
    have := batchNum_le (of_mem_zip hpe).2
    have := sliced_pos (hes p e hpe)
    omega
  constructor
  · intro hread
    by_cases hone : getMaxSliceNum (es.map (·.batchNum)) = 1
    · refine .inl (fun p hp name hname t ht => ?_)
      obtain ⟨e, hpe⟩ := exists_zip_left hlen hp
      rw [hslices p e hpe name hname t ht, hone_iff hone p e hpe]
    · refine .inr (fun p hp name hname t ht => ?_)
      obtain ⟨e, hpe⟩ := exists_zip_left hlen hp
      rw [hslices p e hpe name hname t ht]
      exact ((hread p e hpe).resolve_left hone).resolve_left (ne_nil_of_mem hname)
  · rintro (hone | hmany) p e hpe
    · refine .inl (le_antisymm (getMaxSliceNum_le fun k hk => ?_) ?_)
      · obtain ⟨e', he', rfl⟩ := mem_map.mp hk
        obtain ⟨q, hqe⟩ := exists_zip_right hlen he'
        -- a party without inputs offers one slice as well
        by_cases hnil : q.inputs = []
        · exact ((hes q e' hqe).none hnil).le
        · obtain ⟨name, hname⟩ := exists_mem_of_ne_nil _ hnil
          obtain ⟨t, ht, hk⟩ := (hes q e' hqe).slices name hname
          exact (hk ▸ hone q (of_mem_zip hqe).1 name hname t ht).le
      · exact (sliced_pos (hes p e hpe)).trans_le (batchNum_le (of_mem_zip hpe).2)
    · refine .inr (or_iff_not_imp_left.mpr fun hnil => ?_)
      obtain ⟨name, hname⟩ := exists_mem_of_ne_nil _ hnil
      obtain ⟨t, ht, hk⟩ := (hes p e hpe).slices name hname
      exact hk ▸ hmany p (of_mem_zip hpe).1 name hname t ht

lemma delivered_iff_slicesAgree (h : create true parties = .ok es) :
  (∃ n, Forall₂ (fun p e => ∃ r, runPipeline p e = .ok r ∧ Delivered p n r) parties es) ↔
    SlicesAgree parties := by
  obtain ⟨es₀, rfl, hes₀⟩ := create_eq_ok h
  obtain ⟨hlen, hpair⟩ := forall₂_iff_zip.mp hes₀
  rw [← readable_iff_slicesAgree hlen (fun p e hpe => (hpair hpe).2)]
  simp only [forall₂_zipWith hlen]
  constructor
  · rintro ⟨n, hrun⟩ p e hpe
    obtain ⟨r, hr, -⟩ := hrun p e hpe
    rw [(hpair hpe).1] at hr
    exact readable_of_ok (hpair hpe).2 (batchNum_le (of_mem_zip hpe).2) hr
  · intro hread
    refine ⟨getMaxSliceNum (es₀.map (·.batchNum)), fun p e hpe => ?_⟩
    rw [(hpair hpe).1]
    exact delivered_of_readable (hpair hpe).2 (batchNum_le (of_mem_zip hpe).2) (hread p e hpe)

/-- A batched pipeline is refused or delivers the slices and the outputs at all parties if and only
if an input is missing at a party, or two inputs of a party have different numbers of slices, or
the inputs have one slice everywhere or several slices everywhere. -/
theorem refusedOrDelivered_iff (parties : List (Party α)) :
    RefusedOrDelivered parties ↔ (∃ p ∈ parties, p.Unfit) ∨ SlicesAgree parties := by
  cases hcreate : create true parties with
  | error f =>
    obtain ⟨hrefused, hunfit⟩ := create_error hcreate
    exact ⟨fun _ => .inl hunfit, fun _ => .inl hrefused⟩
  | ok es =>
    have hrefused : ¬Refused parties := fun ⟨reason, h⟩ => by cases hcreate.symm.trans h
    rw [RefusedOrDelivered, ← delivered_iff_slicesAgree hcreate, or_iff_right hrefused,
      or_iff_right (not_unfit_of_create hcreate)]
    constructor
    · rintro ⟨es', n, hes', hrun⟩
      obtain rfl : es' = es := Except.ok.inj (hes'.symm.trans hcreate)
      exact ⟨n, hrun⟩
    · rintro ⟨n, hrun⟩
      exact ⟨es, n, hcreate, hrun⟩

def throughParty (t : Tensor ℕ) : Party ℕ where
  inputs := ["in"]
  outputs := ["out"]
  table := (∅ : TensorTable ℕ).insert "in" t
  nodes _ table := table.insert "out" (.mem (rowsAt table "in"))
  outputs_nodup := by decide
  outputs_new := by decide
  outputs_made := by simp

/-- One party has two buckets, the other one a column in memory: the second party agrees on two
batches and has no reader for its column. -/
theorem twoBuckets_oneSlice_outOfRange :
  ∃ es e, create true [throughParty (.bucket [[1], [2]] (by decide)), throughParty (.mem [3])] =
      .ok es ∧ es[1]? = some e ∧ runPipeline (throughParty (.mem [3])) e = .error .outOfRange ∧
    ¬RefusedOrDelivered [throughParty (.bucket [[1], [2]] (by decide)),
      throughParty (.mem [3])] := by
  refine ⟨_, _, rfl, rfl, rfl, ?_⟩
  rintro (⟨reason, hrefused⟩ | ⟨es, n, hes, hrun⟩)
  · cases hrefused
  · cases hes
    obtain ⟨-, hrun⟩ := forall₂_cons.mp hrun
    obtain ⟨⟨r, hr, -⟩, -⟩ := forall₂_cons.mp hrun
    cases hr

end Scql.PipelineSlices
