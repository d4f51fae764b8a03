import Scql.ExecutionGraph

/-! # Where the inputs of an operator are placed

For an operator the translator creates the algorithms that could compute it: each says at which
party and in which status the inputs and the outputs are. An input may be placed where its column
control shows it, or as shares. -/
namespace Scql.AlgorithmPlacement

open ColumnControl OperatorRegistry ExecutionGraph List

inductive Placement
  | privatePlacement (partyCode : PartyCode)
  | publicPlacement (partyCodes : List PartyCode)
  | sharePlacement (partyCodes : List PartyCode)
  deriving DecidableEq

namespace Placement

def status : Placement → TensorStatus
  | privatePlacement _ => .PRIVATE
  | publicPlacement _ => .PUBLIC
  | sharePlacement _ => .SECRET

def partyList : Placement → List PartyCode
  | privatePlacement p => [p]
  | publicPlacement ps | sharePlacement ps => ps

end Placement

open Placement

structure AlgCost where
  communicationCost : ℤ
  calculationCost : ℤ

/-- The placements by parameter; the loops of the code go through the parameters in the order of
their names. -/
structure MaterializedAlgorithm where
  cost : AlgCost
  inputPlacement : List (String × List Placement)
  outputPlacement : List (String × List Placement)

def createPlacementByCCL (cc : CCL) (allParties : List PartyCode) : List Placement :=
  sharePlacement allParties::((allParties.filter cc.isVisibleFor).map privatePlacement ++
    if allParties.all cc.isVisibleFor then [publicPlacement allParties] else [])

def createPlacementByStatus (status : TensorStatus) (partyCodes : List PartyCode) :
    Option Placement :=
  match status, partyCodes with
  | .PRIVATE, [p] => some (privatePlacement p)
  | .SECRET, ps => some (sharePlacement ps)
  | .PUBLIC, ps => some (publicPlacement ps)
  | _, _ => none

def checkPlacementCCL (cc : CCL) : Placement → Bool
  | privatePlacement p => cc.isVisibleFor p
  | publicPlacement ps => ps.all cc.isVisibleFor
  | sharePlacement _ => true

def binaryIOStatusMap : TensorStatus → TensorStatus → Option TensorStatus
  | .PRIVATE, .PRIVATE | .PRIVATE, .PUBLIC | .PUBLIC, .PRIVATE => some .PRIVATE
  | .SECRET, .SECRET | .PUBLIC, .SECRET | .SECRET, .PUBLIC => some .SECRET
  | _, _ => none

/-- The cost of a binary operator, `commuCost` if one side is shared. -/
def binaryCost (commuCost : ℤ) (l r : TensorStatus) : AlgCost where
  calculationCost := if l = .PRIVATE ∨ r = .PRIVATE then
    if l = .PUBLIC ∨ r = .PUBLIC then 2 else 1 else 3
  communicationCost := if l = .SECRET ∨ r = .SECRET then commuCost else 0

/-- `createBinaryAlg`, and with a `commuCost` of zero `createBinaryAlgNoComm`. -/
def createBinaryAlg (commuCost : ℤ) (left right out : CCL) (allParties : List PartyCode) :
    List MaterializedAlgorithm :=
  (createPlacementByCCL left allParties).flatMap fun lp =>
    (createPlacementByCCL right allParties).filterMap fun rp => do
      let status ← binaryIOStatusMap lp.status rp.status
      guard ¬(lp.status = .PRIVATE ∧ rp.status = .PRIVATE ∧ lp.partyList.head? ≠ rp.partyList.head?)
      let outp ← createPlacementByStatus status
        (if rp.status = .PRIVATE then rp.partyList else lp.partyList)
      guard (checkPlacementCCL out outp)
      return ⟨binaryCost commuCost lp.status rp.status, [("Left", [lp]), ("Right", [rp])],
        [("Out", [outp])]⟩

/-- Only the private set intersection is offered, whose result one of the sides gets. -/
def createInAlg (left right out : CCL) (allParties : List PartyCode) :
    List MaterializedAlgorithm :=
  (createPlacementByCCL left allParties).flatMap fun lp =>
    (createPlacementByCCL right allParties).flatMap fun rp =>
      (createPlacementByCCL out allParties).filterMap fun outp => do
        guard (lp.status = .PRIVATE ∧ rp.status = .PRIVATE ∧ outp.status = .PRIVATE)
        guard (outp.partyList.head? = lp.partyList.head? ∨
          outp.partyList.head? = rp.partyList.head?)
        return ⟨⟨1, 3⟩, [("Left", [lp]), ("Right", [rp])], [("Out", [outp])]⟩

/-- The column controls of the arguments of each parameter. -/
abbrev CCLs := List (String × List CCL)

def place (f : CCL → Placement) (m : CCLs) : List (String × List Placement) :=
  m.map fun e => (e.1, e.2.map f)

def createAllPrivateAlgs (ins outs : CCLs) (allParties : List PartyCode) (cost : AlgCost) :
    List MaterializedAlgorithm :=
  (allParties.filter fun p => (ins ++ outs).all (·.2.all (·.isVisibleFor p))).map fun p =>
    ⟨cost, place (fun _ => privatePlacement p) ins, place (fun _ => privatePlacement p) outs⟩

def createAllShareAlgs (ins outs : CCLs) (allParties : List PartyCode) (cost : AlgCost) :
    MaterializedAlgorithm :=
  ⟨cost, place (fun _ => sharePlacement allParties) ins,
    place (fun _ => sharePlacement allParties) outs⟩

def createSharePublicAlgs (ins outs : CCLs) (allParties : List PartyCode)
    (privateCost shareCost : AlgCost) : MaterializedAlgorithm :=
  let hasShareInput := ins.any (·.2.any (! ·.isVisibleForParties allParties))
  ⟨if hasShareInput then shareCost else privateCost,
    place (fun cc => if cc.isVisibleForParties allParties then publicPlacement allParties
      else sharePlacement allParties) ins,
    place (fun cc => if cc.isVisibleForParties allParties && !hasShareInput then
      publicPlacement allParties else sharePlacement allParties) outs⟩

/-- `createIfAlg` and `createCaseWhenAlg` differ in their costs. -/
def createSelectAlgs (ins outs : CCLs) (allParties : List PartyCode)
    (privateCost shareCost : AlgCost) : List MaterializedAlgorithm :=
  createAllPrivateAlgs ins outs allParties privateCost ++
    [createAllShareAlgs ins outs allParties shareCost,
      createSharePublicAlgs ins outs allParties privateCost shareCost]

def mulComm : ℤ := 3
def equalComm : ℤ := 3

def createIfAlg (ins outs : CCLs) (allParties : List PartyCode) : List MaterializedAlgorithm :=
  createSelectAlgs ins outs allParties ⟨0, 3⟩ ⟨mulComm, 3⟩

def createCaseWhenAlg (ins outs : CCLs) (allParties : List PartyCode) :
    List MaterializedAlgorithm :=
  let condSize : ℤ := ((ins.lookup "Condition").getD []).length
  createSelectAlgs ins outs allParties ⟨0, condSize*3⟩
    ⟨(condSize+1)*mulComm+(condSize-1)*2*equalComm, condSize*3⟩

/-- The cost of a conversion, if it is possible. -/
def getStatusConversionCost (t : Tensor) (pm : Placement) : Option AlgCost :=
  let parties : ℤ := pm.partyList.length
  match t.status, pm with
  | .PRIVATE, privatePlacement p => some (if t.ownerPartyCode = p then ⟨0, 0⟩ else ⟨1, 0⟩)
  | .PRIVATE, _ | .SECRET, privatePlacement _ | .PUBLIC, sharePlacement _ => some ⟨parties-1, 0⟩
  | .SECRET, sharePlacement _ | .PUBLIC, publicPlacement _ => some ⟨0, 0⟩
  | .SECRET, publicPlacement _ => some ⟨parties, 0⟩
  | .PUBLIC, privatePlacement _ => some ⟨0, 1⟩
  | .UNKNOWN, _ => none

/-- The calls for which algorithms are created. A `CASE WHEN` has a condition and a value. -/
inductive Call
  | binary (commuCost : ℤ) (left right : Tensor) (out : CCL)
  | isIn (left right : Tensor) (out : CCL)
  | ifElse (cond tTrue tFalse : Tensor)
  | caseWhen (cond : Tensor) (conds : List Tensor) (value : Tensor) (values : List Tensor)
      (valueElse : Tensor)

abbrev Inputs := List (String × List Tensor)

def ccls (inputs : Inputs) : CCLs := inputs.map fun e => (e.1, e.2.map (·.cc))

namespace Call

def inputs : Call → Inputs
  | binary _ left right _ | isIn left right _ => [("Left", [left]), ("Right", [right])]
  | ifElse cond tTrue tFalse =>
    [("Condition", [cond]), ("ValueIfFalse", [tFalse]), ("ValueIfTrue", [tTrue])]
  | caseWhen cond conds value values valueElse =>
    [("Condition", cond::conds), ("Value", value::values), ("ValueElse", [valueElse])]

/-- The algorithms that are created. `addIfNode` passes the column control of `tTrue` twice. -/
def algorithms (allParties : List PartyCode) : Call → List MaterializedAlgorithm
  | binary commuCost left right out => createBinaryAlg commuCost left.cc right.cc out allParties
  | isIn left right out => createInAlg left.cc right.cc out allParties
  | ifElse cond tTrue tFalse =>
    let out := (tTrue.cc.updateMoreRestrictedCCLFrom tFalse.cc).updateMoreRestrictedCCLFrom cond.cc
    createIfAlg (ccls (ifElse cond tTrue tTrue).inputs) [("Out", [out])] allParties
  | caseWhen cond conds value values valueElse =>
    let out := (cond::conds ++ value::values).foldl
      (fun cc t => cc.updateMoreRestrictedCCLFrom t.cc) valueElse.cc
    createCaseWhenAlg (ccls (caseWhen cond conds value values valueElse).inputs) [("Out", [out])]
      allParties

end Call

/-- The numbers of the statuses. -/
def number : TensorStatus → ℕ
  | .UNKNOWN => 0
  | .PRIVATE => 1
  | .SECRET => 2
  | .PUBLIC => 3

def statusOf : ℕ → TensorStatus
  | 1 => .PRIVATE
  | 2 => .SECRET
  | 3 => .PUBLIC
  | _ => .UNKNOWN

def arguments (m : List (String × List Placement)) : Arguments :=
  (m.map fun e =>
    (⟨e.1, e.2.map fun pm => number pm.status⟩ : Sigma fun _ : String => List ℕ)).toAList

/-- An algorithm that `getBestAlg` considers: all conversions are possible, or have been made
before, and the operator takes the statuses. -/
structure Feasible (op : OpName) (cached : Tensor → Placement → Bool) (inputs : Inputs)
    (alg : MaterializedAlgorithm) : Prop where
  conversions : ∀ e ∈ inputs, ∀ q ∈ e.2.zip ((alg.inputPlacement.lookup e.1).getD []),
    cached q.1 q.2 = true ∨ (getStatusConversionCost q.1 q.2).isSome
  statuses : checkParamStatusConstraint statusOf (findOpDef op) (arguments alg.inputPlacement)
    (arguments alg.outputPlacement) = .ok ()

/-- Every argument has a placement that its column control permits. -/
def Permitted (inputs : Inputs) (pms : List (String × List Placement)) : Prop :=
  Forall₂ (fun e f => e.1 = f.1 ∧ Forall₂ (fun t pm => checkPlacementCCL t.cc pm = true) e.2 f.2)
    inputs pms

variable {allParties : List PartyCode} {left right tensor : Tensor} {out : CCL}
  {alg : MaterializedAlgorithm}

lemma check_of_mem {cc : CCL} {pm : Placement}
  (h : pm ∈ createPlacementByCCL cc allParties) : checkPlacementCCL cc pm = true := by
  rcases mem_cons.mp h with rfl | h
  · rfl
  · rcases mem_append.mp h with h | h
    · obtain ⟨p, hp, rfl⟩ := mem_map.mp h
      exact (mem_filter.mp hp).2
    · split at h
      · rename_i hall
        rw [mem_singleton.mp h]
        exact hall
      · cases h

lemma permitted_place {inputs : Inputs} {f : CCL → Placement}
  (h : ∀ e ∈ inputs, ∀ t ∈ e.2, checkPlacementCCL t.cc (f t.cc) = true) :
  Permitted inputs (place f (ccls inputs)) := by
  rw [Permitted, place, ccls, map_map, forall₂_map_right_iff, forall₂_same]
  refine fun e he => ⟨rfl, ?_⟩
  simpa [forall₂_map_right_iff, forall₂_same] using h e he

lemma permitted_pair {lp rp : Placement} (hlp : lp ∈ createPlacementByCCL left.cc allParties)
  (hrp : rp ∈ createPlacementByCCL right.cc allParties) :
  Permitted [("Left", [left]), ("Right", [right])] [("Left", [lp]), ("Right", [rp])] := by
  simp [Permitted, check_of_mem hlp, check_of_mem hrp]

lemma permitted_createBinaryAlg {commuCost : ℤ}
  (h : alg ∈ createBinaryAlg commuCost left.cc right.cc out allParties) :
  Permitted [("Left", [left]), ("Right", [right])] alg.inputPlacement := by
  obtain ⟨lp, hlp, h⟩ := mem_flatMap.mp h
  obtain ⟨rp, hrp, h⟩ := mem_filterMap.mp h
  simp only [Option.bind_eq_bind, Option.bind_eq_some_iff] at h
  obtain ⟨_, -, _, -, _, -, _, -, h⟩ := h
  cases h
  exact permitted_pair hlp hrp

lemma permitted_createInAlg (h : alg ∈ createInAlg left.cc right.cc out allParties) :
  Permitted [("Left", [left]), ("Right", [right])] alg.inputPlacement := by
  obtain ⟨lp, hlp, h⟩ := mem_flatMap.mp h
  obtain ⟨rp, hrp, h⟩ := mem_flatMap.mp h
  obtain ⟨outp, -, h⟩ := mem_filterMap.mp h
  simp only [Option.bind_eq_bind, Option.bind_eq_some_iff] at h
  obtain ⟨_, -, _, -, h⟩ := h
  cases h
  exact permitted_pair hlp hrp

/-- The algorithms for a selection place an argument by the column control `cc` that they are
given; `own` permits the placement if it shows as much. -/
lemma check_of_select {ins outs : CCLs} {privateCost shareCost : AlgCost}
  (h : alg ∈ createSelectAlgs ins outs allParties privateCost shareCost) :
  ∃ f, alg.inputPlacement = place f ins ∧ ∀ own cc : CCL,
    (∀ p, (∀ e ∈ ins ++ outs, ∀ cc ∈ e.2, cc.isVisibleFor p = true) → own.isVisibleFor p = true) →
    (cc.isVisibleForParties allParties = true → own.isVisibleForParties allParties = true) →
      checkPlacementCCL own (f cc) = true := by
  rcases mem_append.mp h with h | h
  · obtain ⟨p, hp, rfl⟩ := mem_map.mp h
    have hall := all_eq_true.mp (mem_filter.mp hp).2
    exact ⟨_, rfl, fun own cc hown _ => hown p fun e he => all_eq_true.mp (hall e he)⟩
  · rcases mem_pair.mp h with rfl | rfl
    · exact ⟨_, rfl, fun _ _ _ _ => rfl⟩
    · refine ⟨_, rfl, fun own cc _ hown => ?_⟩
      split
      · rename_i hcc
        exact hown hcc
      · rfl

lemma visible_updateMoreRestricted {cc other : CCL} {p : PartyCode} :
  (cc.updateMoreRestrictedCCLFrom other).isVisibleFor p = true ↔
    cc.isVisibleFor p = true ∧ other.isVisibleFor p = true := by
  simp only [CCL.isVisibleFor_iff, CCL.levelFor_updateMoreRestrictedCCLFrom]
  cases cc.levelFor p <;> cases other.levelFor p <;> decide

lemma isSome_cost_share (h : tensor.status ≠ .UNKNOWN) :
  (getStatusConversionCost tensor (sharePlacement allParties)).isSome = true := by
  unfold getStatusConversionCost
  split <;> simp_all

lemma eq_of_lookup_place {pm c : Placement} {m : CCLs} {key : String}
  (h : pm ∈ ((place (fun _ => c) m).lookup key).getD []) : pm = c := by
  induction m with
  | nil => cases h
  | cons e m ih =>
    rw [place, map_cons, lookup_cons] at h
    split at h
    · obtain ⟨_, -, rfl⟩ := mem_map.mp h
      rfl
    · exact ih h

lemma conversions_allShare {inputs : Inputs} {ins outs : CCLs} {cost : AlgCost}
  (cached : Tensor → Placement → Bool) (h : ∀ e ∈ inputs, ∀ t ∈ e.2, t.status ≠ .UNKNOWN) :
  ∀ e ∈ inputs, ∀ q ∈ e.2.zip (((createAllShareAlgs ins outs allParties cost).inputPlacement.lookup
    e.1).getD []), cached q.1 q.2 = true ∨ (getStatusConversionCost q.1 q.2).isSome := by
  intro e he q hq
  obtain ⟨ht, hpm⟩ := of_mem_zip hq
  rw [eq_of_lookup_place hpm]
  exact .inr (isSome_cost_share (h e he _ ht))

/-- The operators that select values by conditions. -/
def Call.selectOp : Call → Option OpName
  | .ifElse .. => some .If
  | .caseWhen .. => some .CaseWhen
  | _ => none

/-- What is expected of the algorithms for a call. -/
structure Offered (allParties : List PartyCode) (cached : Tensor → Placement → Bool)
    (call : Call) : Prop where
  permitted : ∀ alg ∈ call.algorithms allParties, Permitted call.inputs alg.inputPlacement
  feasible : ∀ op, call.selectOp = some op → 2 ≤ allParties.length →
    (∀ e ∈ call.inputs, ∀ t ∈ e.2, t.status ≠ .UNKNOWN) →
      ∃ alg ∈ call.algorithms allParties, Feasible op cached call.inputs alg

/-- The false value of an `IF` may be public whenever the true value may. -/
def Call.Alike (allParties : List PartyCode) : Call → Prop
  | .ifElse _ tTrue tFalse => tTrue.cc.isVisibleForParties allParties = true →
    tFalse.cc.isVisibleForParties allParties = true
  | _ => True

lemma permitted_of_alike {call : Call} (h : call.Alike allParties)
  (halg : alg ∈ call.algorithms allParties) : Permitted call.inputs alg.inputPlacement := by
  cases call with
  | binary => exact permitted_createBinaryAlg halg
  | isIn => exact permitted_createInAlg halg
  | ifElse cond tTrue tFalse =>
    obtain ⟨f, hf, hcheck⟩ := check_of_select halg
    have hfalse : checkPlacementCCL tFalse.cc (f tTrue.cc) = true := by
      refine hcheck _ _ (fun p hp => ?_) h
      have hout := hp _ (mem_append_right _ (mem_singleton_self _)) _ (mem_singleton_self _)
      exact (visible_updateMoreRestricted.mp (visible_updateMoreRestricted.mp hout).1).2
    have hown : Permitted (Call.ifElse cond tTrue tTrue).inputs alg.inputPlacement := by
      rw [hf]
      refine permitted_place fun e he t ht => hcheck _ _ (fun p hp => ?_) id
      exact hp _ (mem_append_left _ (mem_map_of_mem he)) _ (mem_map_of_mem ht)
    rw [hf] at hown ⊢
    simp_all [Permitted, place, ccls, Call.inputs]
  | caseWhen cond conds value values valueElse =>
    obtain ⟨f, hf, hcheck⟩ := check_of_select halg
    rw [hf]
    refine permitted_place fun e he t ht => hcheck _ _ (fun p hp => ?_) id
    exact hp _ (mem_append_left _ (mem_map_of_mem he)) _ (mem_map_of_mem ht)

lemma feasible_allShare (call : Call) (cached : Tensor → Placement → Bool) {op : OpName}
  (hop : call.selectOp = some op) (h : ∀ e ∈ call.inputs, ∀ t ∈ e.2, t.status ≠ .UNKNOWN) :
  ∃ alg ∈ call.algorithms allParties, Feasible op cached call.inputs alg := by
  cases call with
  | binary | isIn => cases hop
  | ifElse | caseWhen =>
    cases hop
    exact ⟨_, mem_append_right _ mem_cons_self, conversions_allShare cached h, rfl⟩

lemma alike_of_permitted {call : Call}
  (h : ∀ alg ∈ call.algorithms allParties, Permitted call.inputs alg.inputPlacement) :
  call.Alike allParties := by
  cases call with
  | ifElse cond tTrue tFalse =>
    intro htrue
    have hp := h _ (mem_append_right _ (mem_cons_of_mem _ (mem_singleton_self _)))
    simp only [Permitted, createSharePublicAlgs, place, ccls, Call.inputs, map_cons, map_nil, htrue,
      forall₂_cons, if_true] at hp
    exact hp.2.1.2.1
  | _ => trivial

/-- The placements are legal but for the false value of an `IF`, which is placed by the column
control of the true value. -/
theorem offered_iff (allParties : List PartyCode) (cached : Tensor → Placement → Bool)
  (call : Call) : Offered allParties cached call ↔ call.Alike allParties :=
  ⟨fun h => alike_of_permitted h.permitted, fun h => ⟨fun _ => permitted_of_alike h,
    fun _ hop _ => feasible_allShare call cached hop⟩⟩

/-- A column of alice that the parties may see. -/
def column (name : String) (parties : List PartyCode) : Tensor :=
  {name, status := .PRIVATE, ownerPartyCode := "alice", cc := CCL.createAllPlainCCL parties}

theorem not_offered_hiddenFalse : ¬Offered ["alice", "bob"] (fun _ _ => false) (.ifElse
  (column "c" ["alice", "bob"]) (column "t" ["alice", "bob"]) (column "f" ["alice"])) :=
  fun h => absurd (alike_of_permitted h.permitted (by decide)) (by decide)

end Scql.AlgorithmPlacement
