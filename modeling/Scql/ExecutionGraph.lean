import Scql.ColumnControl
import Scql.OperatorRegistry

/-! # Graph builder and execution graph

A tensor is referred to by its number: `addTensor` numbers tensors by their position in
the builder's tensor list, so the list is the heap the nodes point into. A node is
referred to by the number `build` gives it. -/
namespace Scql.ExecutionGraph

open MapRange ColumnControl OperatorRegistry

inductive PrimitiveDataType
  | UNDEFINED | INT8 | INT16 | INT32 | INT64 | FLOAT32 | FLOAT64 | BOOL | STRING | DATETIME
  | TIMESTAMP
  deriving DecidableEq

structure Tensor where
  name : String
  dType : PrimitiveDataType := .UNDEFINED
  status : TensorStatus := .UNKNOWN
  cc : CCL := CCL.newCCL
  skipDTypeCheck : Bool := false
  /-- Makes sense only when the tensor is private. -/
  ownerPartyCode : PartyCode := ""
  /-- Parties that turned a string into shares, needed again to reveal it. -/
  secretStringOwners : List PartyCode := []
  isConstScalar : Bool := false
  refNum : ℕ := 0
  deriving DecidableEq

abbrev Arguments := AList (fun _ : String => List ℕ)

def Arguments.tensors (args : Arguments) : List ℕ := args.entries.flatMap (·.2)

structure ExecutionNode where
  name : String
  opType : OpName
  inputs : Arguments
  outputs : Arguments
  attributes : AList (fun _ : String => AttributeValue)
  parties : List PartyCode
  deriving DecidableEq

structure PipelineExecNode where
  batched : Bool := false
  executionNodes : List ExecutionNode := []
  deriving DecidableEq

structure GraphBuilder where
  partyInfo : List PartyCode
  pipelineExeNodes : List PipelineExecNode := []
  tensors : List Tensor := []
  outputName : List String := []
  preOpStreamingType : StreamingOpType := .SinkOp
  batched : Bool
  deriving DecidableEq

inductive AddNodeError
  | inputCount (expected actual : ℕ)
  | outputCount (expected actual : ℕ)
  | missingParam (name : String)
  | emptyParam (name : String)
  | missingConstraint (name : String)
  | invalidStatus (name : String) (actual : TensorStatus)
  | statusMismatch (actual expected : TensorStatus)
  deriving DecidableEq

/-- Check one parameter against the statuses bound so far; only the first argument of
the parameter is looked at. -/
def checkParam (status : ℕ → TensorStatus) (args : Arguments)
    (constraints : List (String × List TensorStatus)) (bound : List (String × TensorStatus))
    (param : FormalParameter) : Except AddNodeError (List (String × TensorStatus)) :=
  match args.lookup param.paramName with
  | none => .error (.missingParam param.paramName)
  | some [] =>
    if param.option = .OPTIONAL then .ok bound else .error (.emptyParam param.paramName)
  | some (t::_) =>
    match bound.lookup param.parameterStatusConstraintName with
    | some expected =>
      if status t = expected then .ok bound else .error (.statusMismatch (status t) expected)
    | none =>
      match constraints.lookup param.parameterStatusConstraintName with
      | none => .error (.missingConstraint param.paramName)
      | some allowed =>
        if status t ∈ allowed then
          .ok ((param.parameterStatusConstraintName, status t)::bound)
        else .error (.invalidStatus param.paramName (status t))

def checkParamStatusConstraint (status : ℕ → TensorStatus) (opDef : OperatorDef)
    (inputs outputs : Arguments) : Except AddNodeError Unit := do
  if opDef.inputParams.length ≠ inputs.keys.length then
    throw (.inputCount opDef.inputParams.length inputs.keys.length)
  if opDef.outputParams.length ≠ outputs.keys.length then
    throw (.outputCount opDef.outputParams.length outputs.keys.length)
  let bound ← opDef.inputParams.foldlM (checkParam status inputs opDef.paramStatusConstraints) []
  let _ ← opDef.outputParams.foldlM (checkParam status outputs opDef.paramStatusConstraints) bound

namespace GraphBuilder

def newGraphBuilder (partyInfo : List PartyCode) (batched : Bool) : GraphBuilder :=
  {partyInfo, batched}

/-- The new tensor's number is the length of the tensor list. -/
def addTensor (plan : GraphBuilder) (name : String) : GraphBuilder :=
  {plan with tensors := plan.tensors ++ [{name}]}

def modifyTensor (plan : GraphBuilder) (t : ℕ) (f : Tensor → Tensor) : GraphBuilder :=
  {plan with tensors := plan.tensors.modify t f}

def status (plan : GraphBuilder) (t : ℕ) : TensorStatus :=
  (plan.tensors[t]?).elim .UNKNOWN (·.status)

def nodes (plan : GraphBuilder) : List ExecutionNode :=
  plan.pipelineExeNodes.flatMap (·.executionNodes)

/-- Attributes given by the caller, completed by the operator's defaults. -/
def withDefaults (attributes : AList (fun _ : String => AttributeValue))
    (defaults : List (String × AttributeValue)) : AList (fun _ : String => AttributeValue) :=
  defaults.foldl (fun attrs d => if d.1 ∈ attrs then attrs else attrs.insert d.1 d.2) attributes

def pushNode (node : ExecutionNode) : List PipelineExecNode → List PipelineExecNode
  | [] => []
  | [p] => [{p with executionNodes := p.executionNodes ++ [node]}]
  | p::ps => p::pushNode node ps

/-- Whether the next node opens a pipeline: there is none yet, or the streaming type
changes in a batched plan. -/
def opensPipeline (plan : GraphBuilder) (typ : StreamingOpType) : Bool :=
  match plan.pipelineExeNodes.getLast? with
  | none => true
  | some last => plan.batched && !last.executionNodes.isEmpty && plan.preOpStreamingType != typ

/-- The first node of a pipeline decides whether a batched plan streams it. -/
def markBatched (batched : Bool) (typ : StreamingOpType) :
    List PipelineExecNode → List PipelineExecNode
  | [] => []
  | [p] => [if batched && p.executionNodes.length == 1 then
      {p with batched := typ == .StreamingOp} else p]
  | p::ps => p::markBatched batched typ ps

def addExecutionNode (plan : GraphBuilder) (name : String) (opType : OpName)
    (inputs outputs : Arguments) (attributes : AList (fun _ : String => AttributeValue))
    (partyCodes : List PartyCode) : Except AddNodeError GraphBuilder := do
  let opDef := findOpDef opType
  checkParamStatusConstraint plan.status opDef inputs outputs
  let node : ExecutionNode := ⟨name, opType, inputs, outputs,
    withDefaults attributes opDef.defaultAttribute, partyCodes⟩
  let pipelines := if plan.opensPipeline opDef.streamingType then
    plan.pipelineExeNodes ++ [⟨false, []⟩] else plan.pipelineExeNodes
  return { plan with
    pipelineExeNodes := markBatched plan.batched opDef.streamingType (pushNode node pipelines)
    preOpStreamingType := opDef.streamingType}

end GraphBuilder

structure Edge where
  source : ℕ
  target : ℕ
  value : ℕ
  deriving DecidableEq

/-- A node of the graph: its number, what the builder recorded and its out edges. -/
structure GraphNode where
  id : ℕ
  node : ExecutionNode
  edges : List Edge
  deriving DecidableEq

structure Pipeline where
  batched : Bool
  /-- Tensors created by an earlier pipeline and used in this one. -/
  inputTensors : List ℕ
  /-- Tensors created by this pipeline and used in a later one. -/
  outputTensors : List ℕ
  nodes : List GraphNode
  deriving DecidableEq

structure Graph where
  pipelines : List Pipeline
  nodeCnt : ℕ
  outputNames : List String
  partyInfo : List PartyCode
  tensors : List Tensor
  deriving DecidableEq

/-- Building dereferences the producer of every consumed tensor. -/
inductive BuildError
  | noProducer (tensor : ℕ)
  deriving DecidableEq

/-- The maps filled while the nodes are numbered: the tensors seen, the consumers of a
tensor, one entry an occurrence, and the node that wrote it last. -/
structure TensorUse where
  tensorIds : List ℕ
  inputTensorTo : ℕ → List ℕ
  outputTensorFrom : ℕ → Option ℕ

namespace TensorUse

def empty : TensorUse := ⟨[], fun _ => [], fun _ => none⟩

def recordInput (node : ℕ) (use : TensorUse) (t : ℕ) : TensorUse :=
  { use with
    tensorIds := use.tensorIds.insert t
    inputTensorTo := Function.update use.inputTensorTo t (use.inputTensorTo t ++ [node])}

def recordOutput (node : ℕ) (use : TensorUse) (t : ℕ) : TensorUse :=
  { use with
    tensorIds := use.tensorIds.insert t
    outputTensorFrom := Function.update use.outputTensorFrom t (some node)}

def recordNode (o : RangeOrder) (use : TensorUse) (n : ExecutionNode × ℕ) : TensorUse :=
  let ins := (o.range 1 n.2 n.1.inputs.entries).flatMap (·.2)
  let outs := (o.range 2 n.2 n.1.outputs.entries).flatMap (·.2)
  outs.foldl (recordOutput n.2) (ins.foldl (recordInput n.2) use)

/-- All edges, or the first tensor found without a producer. -/
def edges (o : RangeOrder) (use : TensorUse) : Except BuildError (List Edge) :=
  (o.range 4 0 use.tensorIds).foldlM (fun acc t =>
    match use.inputTensorTo t, use.outputTensorFrom t with
    | [], _ => .ok acc
    | _::_, none => .error (.noProducer t)
    | consumers, some producer => .ok (acc ++ consumers.map (fun c => ⟨producer, c, t⟩))) []

end TensorUse

/-- Number the nodes of the pipelines one pipeline after another. -/
def numberNodes : ℕ → List PipelineExecNode → List (List (ExecutionNode × ℕ))
  | _, [] => []
  | k, p::ps =>
    p.executionNodes.zipIdx k::numberNodes (k+p.executionNodes.length) ps

/-- Pipeline `i` is visited in the order of one map loop. -/
def tensorUse (o : RangeOrder) (numbered : List (List (ExecutionNode × ℕ))) : TensorUse :=
  ((numbered.zipIdx).flatMap (fun p => o.range 3 p.2 p.1)).foldl
    (TensorUse.recordNode o) TensorUse.empty

namespace Pipeline

def inputIds (p : Pipeline) : List ℕ := p.nodes.flatMap (·.node.inputs.tensors)

def outputIds (p : Pipeline) : List ℕ := p.nodes.flatMap (·.node.outputs.tensors)

/-- Fill the inputs; a tensor that is not private turns streaming off. -/
def fillInputs (status : ℕ → TensorStatus) (p : Pipeline) : Pipeline :=
  { p with
    batched := p.batched && (p.inputIds ++ p.outputIds).all (fun t => status t == .PRIVATE)
    inputTensors := sliceDeDup (p.inputIds.filter (fun t => t ∉ p.outputIds))}

/-- Fill the outputs from the inputs of the later pipelines. -/
def fillOutputs : List Pipeline → List Pipeline
  | [] => []
  | p::ps =>
    let outs := sliceDeDup ((ps.flatMap (·.inputTensors)).filter (fun t => t ∈ p.outputIds))
    {p with outputTensors := outs}::fillOutputs ps

end Pipeline

def fillPipeline (status : ℕ → TensorStatus) (ps : List Pipeline) : List Pipeline :=
  Pipeline.fillOutputs (ps.map (Pipeline.fillInputs status))

def GraphBuilder.build (o : RangeOrder) (plan : GraphBuilder) : Except BuildError Graph := do
  let numbered := numberNodes 0 plan.pipelineExeNodes
  let edges ← (tensorUse o numbered).edges o
  let pipelines := (plan.pipelineExeNodes.zip numbered).map (fun p =>
    (⟨p.1.batched, [], [], p.2.map (fun n =>
      ⟨n.2, n.1, edges.filter (fun e => e.source = n.2)⟩)⟩ : Pipeline))
  return {
    pipelines := if plan.batched then fillPipeline plan.status pipelines else pipelines
    nodeCnt := plan.nodes.length
    outputNames := plan.outputName
    partyInfo := plan.partyInfo
    tensors := plan.tensors}

end Scql.ExecutionGraph
