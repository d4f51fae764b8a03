import Scql.BatchedPipelines
import Scql.EventRuns

/-! # Reclaiming tensors

When the counter of a tensor is used up, the session removes the tensor from its tensor table, or
else from the table of device symbols, where public and secret tensors are. A symbol is set under
the name of the tensor with a suffix and deleted under the name itself. -/
namespace Scql.TensorReclamation

open ColumnControl ExecutionGraph ExecutionSchedule OperatorRegistry TensorLifetime List Function

variable (graph : Graph) (p : PartyCode)

def uniqueName (t : ℕ) : String := (graph.tensors[t]?).elim "" (·.name) ++ "." ++ toString t

def getValueName (name : String) : String := name ++ ".value"

/-- The tensors of which every party that takes part has a share or a copy. -/
def shared (t : ℕ) : Bool :=
  (graph.tensors[t]?).elim false (fun x => x.status = .SECRET ∨ x.status = .PUBLIC)

structure Session where
  state : State := {}
  deviceSymbols : List String := []

def delVar (symbols : List String) (name : String) : List String := symbols.filter (· ≠ name)

def delTensors (table : AList (fun _ : ℕ => Value)) (symbols : List String) (names : List ℕ) :
    AList (fun _ : ℕ => Value) × List String :=
  names.foldl (fun s t =>
    if t ∈ s.1 then (s.1.erase t, s.2) else (s.1, delVar s.2 (uniqueName graph t))) (table, symbols)

def updateRefName (streaming : Bool) (inputRefNames : List ℕ) (outputRefNums : List (ℕ × ℕ))
    (s : Session) : Option Session := do
  let counted := inputRefNames.foldl countDown (s.state.tensorRefNums, [])
  let counted ← outputRefNums.foldlM (setRefNum streaming) counted
  let (table, symbols) := delTensors graph s.state.tensorTable s.deviceSymbols counted.2
  return ⟨{s.state with tensorRefNums := counted.1, tensorTable := table}, symbols⟩

/-- An operator finds its shared inputs among the symbols and sets its shared outputs. -/
def execute (n : ExecutionNode) (s : Session) : Option Session := do
  guard (∀ t ∈ n.inputs.tensors, shared graph t →
    getValueName (uniqueName graph t) ∈ s.deviceSymbols)
  let state ← TensorLifetime.execute (planNames graph p) true n s.state
  return ⟨state, s.deviceSymbols ++ (n.outputs.tensors.filter (shared graph)).map
    (fun t => getValueName (uniqueName graph t))⟩

def runNode (s : Session) (n : ExecutionNode) : Option Session := do
  let s ← execute graph p n s
  updateRefName graph (planNames graph p).streaming n.inputs.tensors
    (n.outputs.tensors.map (fun t => (t, refNum graph t))) s

/-- The nodes a party runs, in the order in which they run. -/
def partyNodes : List ExecutionNode :=
  (graphNodes graph.pipelines).filter (fun n => p ∈ n.parties)

def runNodes (ns : List ExecutionNode) : Option Session := ns.foldlM (runNode graph p) {}

def Reclaimed (s : Session) (t : ℕ) : Prop :=
  s.state.tensorTable.lookup t = none ∧ uniqueName graph t ∉ s.deviceSymbols ∧
    getValueName (uniqueName graph t) ∉ s.deviceSymbols

/-- The party gets through its nodes, and whenever it has run the last of them that reads a tensor
produced there, the tensor is reclaimed. -/
def Reclaims : Prop :=
  ∀ done rest, partyNodes graph p = done ++ rest → ∃ s, runNodes graph p done = some s ∧
    ∀ t ∈ writes done, t ∉ reads rest → Reclaimed graph s t

/-- What a party holds of the inputs of a node it has from an earlier node. -/
def HasInputs (seen : List ℕ) : List ExecutionNode → Prop
  | [] => True
  | n::ns => (∀ t ∈ n.inputs.tensors, held graph p t ∨ shared graph t → t ∈ seen) ∧
    HasInputs (seen ++ n.outputs.tensors) ns

instance decidableHasInputs : ∀ seen ns, Decidable (HasInputs graph p seen ns)
  | _, [] => inferInstanceAs (Decidable True)
  | seen, n::ns =>
    have := decidableHasInputs (seen ++ n.outputs.tensors) ns
    inferInstanceAs (Decidable (_ ∧ _))

/-- An unbatched plan as a party sees it: every tensor is produced by one node, before it is
read. -/
structure Unbatched : Prop where
  unbatched : ∀ pl ∈ graph.pipelines, pl.batched = false
  unreferenced : ∀ x ∈ graph.tensors, x.refNum = 0
  once : (writes (graphNodes graph.pipelines)).Nodup
  inputs : HasInputs graph p [] (partyNodes graph p)

/-- A tensor the party produces is no share and no copy, and if the party holds it, nobody else
reads it. -/
def ReadHere : Prop :=
  ∀ t ∈ writes (partyNodes graph p), shared graph t = false ∧
    (held graph p t → (reads (partyNodes graph p)).count t =
      (reads (graphNodes graph.pipelines)).count t)

variable {graph p}

lemma append_dot_injective {a b d e : List Char} (h : a ++ '.' :: d = b ++ '.' :: e)
  (hd : '.' ∉ d) (he : '.' ∉ e) : d = e := by
  rcases append_eq_append_iff.mp h with ⟨c, rfl, hc⟩ | ⟨c, rfl, hc⟩
  · cases c with
    | nil => simpa using hc
    | cons x c =>
      obtain ⟨-, rfl⟩ := cons_eq_cons.mp hc
      exact absurd (by simp) hd
  · cases c with
    | nil => simpa using hc.symm
    | cons x c =>
      obtain ⟨-, rfl⟩ := cons_eq_cons.mp hc
      exact absurd (by simp) he

lemma toList_uniqueName (graph : Graph) (t : ℕ) : ∃ name : List Char,
  (uniqueName graph t).toList = name ++ '.' :: Nat.toDigits 10 t := by
  refine ⟨((graph.tensors[t]?).elim "" (·.name)).toList, ?_⟩
  simp [uniqueName, Nat.repr]

lemma isDigit_of_mem {c : Char} {t : ℕ} (h : c ∈ Nat.toDigits 10 t) : c.isDigit :=
  Nat.isDigit_of_mem_toDigits (by decide) (by decide) h

lemma uniqueName_injective (graph : Graph) : Injective (uniqueName graph) := by
  intro t u h
  obtain ⟨a, ha⟩ := toList_uniqueName graph t
  obtain ⟨b, hb⟩ := toList_uniqueName graph u
  have hdot : ∀ v, '.' ∉ Nat.toDigits 10 v := fun v hv => by simpa using isDigit_of_mem hv
  have hdigits := append_dot_injective (ha.symm.trans ((congrArg String.toList h).trans hb))
    (hdot t) (hdot u)
  rw [← @Nat.ofDigitChars_ten_toDigits t, hdigits, Nat.ofDigitChars_ten_toDigits]

lemma getValueName_ne (graph : Graph) (t u : ℕ) :
  getValueName (uniqueName graph t) ≠ uniqueName graph u := by
  intro h
  obtain ⟨b, hb⟩ := toList_uniqueName graph u
  have hlist := congrArg String.toList h
  rw [getValueName, String.toList_append, hb] at hlist
  have hlast : ('.' :: Nat.toDigits 10 u).getLast? = some 'e' := by
    have := congrArg List.getLast? hlist
    simpa [getLast?_append, getLast?_cons] using this.symm
  rcases mem_cons.mp (mem_of_getLast? hlast) with h | h
  · exact absurd h (by decide)
  · exact absurd (isDigit_of_mem h) (by decide)

lemma getValueName_injective : Injective getValueName := by
  intro a b h
  have hlist := congrArg String.toList h
  rw [getValueName, getValueName, String.toList_append, String.toList_append] at hlist
  exact String.toList_injective (append_cancel_right hlist)

def symbolsOf (graph : Graph) (ts : List ℕ) : List String :=
  (ts.filter (shared graph)).map (fun t => getValueName (uniqueName graph t))

variable {t : ℕ} {n : ExecutionNode}

lemma mem_symbolsOf {ts : List ℕ} :
  getValueName (uniqueName graph t) ∈ symbolsOf graph ts ↔ t ∈ ts ∧ shared graph t := by
  have hinjective : Injective (fun t => getValueName (uniqueName graph t)) :=
    getValueName_injective.comp (uniqueName_injective graph)
  exact (mem_map_of_injective hinjective).trans mem_filter

lemma uniqueName_notMem_symbolsOf (ts : List ℕ) (t : ℕ) :
  uniqueName graph t ∉ symbolsOf graph ts := by
  intro h
  obtain ⟨u, -, hu⟩ := mem_map.mp h
  exact getValueName_ne graph u t hu

lemma delTensors_eq (table : AList (fun _ : ℕ => Value)) (ts names : List ℕ) :
  delTensors graph table (symbolsOf graph ts) names =
    (TensorLifetime.delTensors table names, symbolsOf graph ts) := by
  induction names generalizing table with
  | nil => rfl
  | cons t names ih =>
    rw [delTensors, foldl_cons, TensorLifetime.delTensors, foldl_cons]
    by_cases ht : t ∈ table
    · rw [if_pos ht]
      exact ih (table.erase t)
    · have hsame : delVar (symbolsOf graph ts) (uniqueName graph t) = symbolsOf graph ts := by
        rw [delVar, filter_eq_self]
        intro name hname
        simp only [ne_eq, decide_eq_true_eq]
        rintro rfl
        exact uniqueName_notMem_symbolsOf ts t hname
      have herase : table.erase t = table := AList.ext (kerase_of_notMem_keys ht)
      rw [if_neg ht, hsame, herase]
      exact ih table

variable {done rest : List ExecutionNode}

lemma runNode_eq {state : State} (hinputs : ∀ t ∈ n.inputs.tensors, shared graph t →
    t ∈ writes done) :
  runNode graph p ⟨state, symbolsOf graph (writes done)⟩ n =
    (TensorLifetime.runNode (planNames graph p) true state n).map
      (fun state => ⟨state, symbolsOf graph (writes (done ++ [n]))⟩) := by
  have hguard : (guard (∀ t ∈ n.inputs.tensors, shared graph t →
      getValueName (uniqueName graph t) ∈ symbolsOf graph (writes done)) : Option Unit) =
        some () := EventRuns.guard_eq_some.mpr fun t ht hshared =>
    mem_symbolsOf.mpr ⟨hinputs t ht hshared, hshared⟩
  have hsymbols : symbolsOf graph (writes done) ++ (n.outputs.tensors.filter (shared graph)).map
      (fun t => getValueName (uniqueName graph t)) = symbolsOf graph (writes (done ++ [n])) := by
    simp [symbolsOf]
  rw [runNode, execute, TensorLifetime.runNode]
  simp only [hguard, Option.bind_eq_bind, Option.bind_some]
  cases hexec : TensorLifetime.execute (planNames graph p) true n state with
  | none => rfl
  | some state' =>
    simp only [Option.bind_some, hsymbols, updateRefName, TensorLifetime.updateRefName,
      delTensors_eq, Option.bind_eq_bind, pure]
    rw [Option.map_bind]
    rfl

lemma runNodes_eq {ns : List ExecutionNode}
  (hfirst : ∀ done n rest, ns = done ++ n::rest → ∀ t ∈ n.inputs.tensors, shared graph t →
    t ∈ writes done) :
  runNodes graph p ns = (ns.foldlM (TensorLifetime.runNode (planNames graph p) true) {}).map
    (fun state => ⟨state, symbolsOf graph (writes ns)⟩) := by
  induction ns using reverseRecOn with
  | nil => rfl
  | append_singleton ns n ih =>
    have ih := ih fun done m rest hns => hfirst done m (rest ++ [n]) (by simp [hns])
    rw [runNodes] at ih
    rw [runNodes, foldlM_append, foldlM_append, ih]
    cases ns.foldlM (TensorLifetime.runNode (planNames graph p) true) {} with
    | none => rfl
    | some state =>
      have hnode : runNode graph p ⟨state, symbolsOf graph (writes ns)⟩ n = _ :=
        runNode_eq (hfirst ns n [] rfl)
      simpa using hnode

lemma HasInputs.mem_writes {seen : List ℕ} {before : List ExecutionNode}
  {after : List ExecutionNode} (h : HasInputs graph p seen (before ++ n::after))
  (ht : t ∈ n.inputs.tensors) (hstored : held graph p t ∨ shared graph t) :
    t ∈ seen ∨ t ∈ writes before := by
  induction before generalizing seen with
  | nil => exact .inl (h.1 t ht hstored)
  | cons m before ih =>
    have := ih h.2
    rw [mem_append, or_assoc] at this
    simpa using this

lemma Unbatched.first (h : Unbatched graph p) (hsplit : partyNodes graph p = done ++ n::rest)
  (ht : t ∈ n.inputs.tensors) (hstored : held graph p t ∨ shared graph t) : t ∈ writes done := by
  have hinputs := h.inputs
  rw [hsplit] at hinputs
  exact (hinputs.mem_writes ht hstored).resolve_left not_mem_nil

lemma planNames_refNum (h : Unbatched graph p) (hheld : held graph p t) :
  (planNames graph p).refNum t = (reads (graphNodes graph.pipelines)).count t :=
  refNum_eq_count h.unreferenced (lt_of_held hheld)

lemma segmentReady (h : Unbatched graph p) (hsplit : partyNodes graph p = done ++ rest) :
  SegmentReady (planNames graph p) {} done := by
  have hnodup : (writes (partyNodes graph p)).Nodup :=
    h.once.sublist (filter_sublist.flatMap _)
  have hfirst : ∀ before n after, done = before ++ n::after → ∀ t ∈ n.inputs.tensors,
      held graph p t → t ∈ writes before := fun before n after hdone t ht hheld =>
    h.first (by simp [hsplit, hdone] : _ = before ++ n::(after ++ rest)) ht (.inl hheld)
  refine ⟨⟨nofun, fun _ _ => rfl, nofun⟩, ?_, fun _ _ _ => rfl, fun _ _ _ => rfl, ?_, ?_, ?_⟩
  · rw [hsplit, writes_append] at hnodup
    exact (nodup_append.mp hnodup).1
  · intro t ht hheld hnot
    obtain ⟨n, hn, hread⟩ := mem_flatMap.mp ht
    obtain ⟨before, after, rfl⟩ := append_of_mem hn
    exact absurd (hfirst before n after rfl t hread hheld) (fun h => hnot (by simp [h]))
  · intro before n after hdone t ht hheld _
    exact hfirst before n after hdone t ht hheld
  · intro t _ hheld
    rw [planNames_refNum h hheld]
    have hpart : done.Sublist (partyNodes graph p) := hsplit ▸ sublist_append_left done rest
    exact ((hpart.trans filter_sublist).flatMap _).count_le t

/-- A party gets through its nodes. What is used up has left the table, what is not is there, and
the symbols are those of all tensors that were produced. -/
lemma runNodes_spec (h : Unbatched graph p) (hsplit : partyNodes graph p = done ++ rest) :
  ∃ state, runNodes graph p done = some ⟨state, symbolsOf graph (writes done)⟩ ∧
    SegmentRun (planNames graph p) true {} done state := by
  obtain ⟨state, hrun, hspec⟩ := segment_run true (segmentReady h hsplit)
  refine ⟨state, ?_, hspec⟩
  rw [runNodes_eq, hrun, Option.map_some]
  exact fun before n after hdone t ht hshared =>
    h.first (by simp [hsplit, hdone] : _ = before ++ n::(after ++ rest)) ht (.inr hshared)

/-- The tensors of an unbatched plan are reclaimed at a party if and only if the party produces
private tensors only and reads what it holds alone. -/
theorem reclaims_iff (h : Unbatched graph p) : Reclaims graph p ↔ ReadHere graph p := by
  constructor
  · intro hreclaims t ht
    obtain ⟨s, hs, hgone⟩ := hreclaims (partyNodes graph p) [] (by simp)
    obtain ⟨state, hrun, hspec⟩ := runNodes_spec h (append_nil _).symm
    obtain rfl := Option.some.inj (hs.symm.trans hrun)
    obtain ⟨htable, -, hsymbol⟩ := hgone t ht (by simp)
    refine ⟨?_, fun hheld => ?_⟩
    · by_contra hshared
      exact hsymbol (mem_symbolsOf.mpr ⟨ht, by simpa using hshared⟩)
    · -- a counter that is not used up keeps the tensor in the table
      refine le_antisymm (List.Sublist.count_le t (filter_sublist.flatMap _)) ?_
      by_contra hlt
      rw [not_le, ← planNames_refNum h hheld] at hlt
      obtain ⟨v, hv⟩ := hspec.written t ht hheld hlt
      rw [htable] at hv
      cases hv
  · intro hhere done rest hsplit
    obtain ⟨state, hrun, hspec⟩ := runNodes_spec h hsplit
    refine ⟨_, hrun, fun t ht hread => ?_⟩
    obtain ⟨hshared, hcount⟩ := hhere t (by simp [hsplit, ht])
    refine ⟨?_, uniqueName_notMem_symbolsOf _ t, fun hsymbol => ?_⟩
    · by_cases hheld : held graph p t
      · refine hspec.spent t ht hheld ?_
        have hreads : (reads (partyNodes graph p)).count t = (reads done).count t := by
          rw [hsplit, reads_append, count_append, count_eq_zero_of_not_mem hread, Nat.add_zero]
        rw [planNames_refNum h hheld, ← hcount hheld, hreads]
      · rw [Option.eq_none_iff_forall_ne_some]
        exact fun v hv => hheld (hspec.sane.held t v hv)
    · have := (mem_symbolsOf.mp hsymbol).2
      simp [hshared] at this

/-- A column is published, or first shared among two parties and revealed again. -/
def columnGraph (shareFirst : Bool) : Graph where
  pipelines :=
    [⟨false, [], [], if shareFirst then
      [⟨0, ⟨"runsql", .RunSQL, ∅, args "Out" [0], ∅, ["alice"]⟩, [⟨0, 1, 0⟩]⟩,
        ⟨1, ⟨"make_share", .MakeShare, args "In" [0], args "Out" [1], ∅, ["alice", "bob"]⟩,
          [⟨1, 2, 1⟩]⟩,
        ⟨2, ⟨"make_private", .MakePrivate, args "In" [1], args "Out" [2], ∅, ["alice", "bob"]⟩,
        [⟨2, 3, 2⟩]⟩, ⟨3, ⟨"publish", .Publish, args "In" [2], args "Out" [3], ∅, ["alice"]⟩, []⟩]
      else
      [⟨0, ⟨"runsql", .RunSQL, ∅, args "Out" [0], ∅, ["alice"]⟩, [⟨0, 3, 0⟩]⟩,
        ⟨3, ⟨"publish", .Publish, args "In" [0], args "Out" [3], ∅, ["alice"]⟩, []⟩]⟩]
  nodeCnt := 4
  outputNames := ["a"]
  partyInfo := ["alice", "bob"]
  tensors :=
    [{name := "a", status := .PRIVATE, ownerPartyCode := "alice"},
      {name := "a", status := .SECRET},
      {name := "a", status := .PRIVATE, ownerPartyCode := "alice"},
      {name := "a", status := .PRIVATE, ownerPartyCode := "alice"}]

instance (graph : Graph) (p : PartyCode) : Decidable (ReadHere graph p) :=
  inferInstanceAs (Decidable (∀ t ∈ writes (partyNodes graph p), _ ∧ _))

lemma unbatched_columnGraph (shareFirst : Bool) : Unbatched (columnGraph shareFirst) "alice" := by
  cases shareFirst with
  | false | true => exact ⟨by decide, by decide, by decide, by decide⟩

theorem reclaims_columnGraph :
  Unbatched (columnGraph false) "alice" ∧ Reclaims (columnGraph false) "alice" :=
  ⟨unbatched_columnGraph false, (reclaims_iff (unbatched_columnGraph false)).mpr (by decide)⟩

/-- The share of the column stays among the symbols. -/
theorem share_notReclaimed : Unbatched (columnGraph true) "alice" ∧
  (∃ s, runNodes (columnGraph true) "alice" (partyNodes (columnGraph true) "alice") = some s ∧
    s.deviceSymbols = ["a.1.value"]) ∧ ¬Reclaims (columnGraph true) "alice" := by
  have hrun : ∃ s, runNodes (columnGraph true) "alice" (partyNodes (columnGraph true) "alice") =
      some s ∧ s.deviceSymbols = ["a.1.value"] := ⟨_, rfl, by decide⟩
  refine ⟨unbatched_columnGraph true, hrun, fun hreclaims => ?_⟩
  obtain ⟨s, hs, hgone⟩ := hreclaims (partyNodes (columnGraph true) "alice") [] (by simp)
  obtain ⟨s', hs', hsymbols⟩ := hrun
  obtain rfl := Option.some.inj (hs.symm.trans hs')
  have hshare := (hgone 1 (by decide) (by simp)).2.2
  rw [hsymbols] at hshare
  exact hshare (by decide)

end Scql.TensorReclamation
