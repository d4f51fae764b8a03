import Mathlib.Data.String.Basic
import Scql.LogicalPlan
import Scql.FallibleRules

/-! # Inference of column controls over a plan

`buildCCL` walks a plan bottom up and computes the column control of every output column.
Column controls are shared between nodes and changed in place, so a node maps its columns
to addresses in a heap of column controls. -/
namespace Scql.ControlInference

open MapRange ColumnControl Planner CCLLevel

inductive PsiAlgorithmType
  | AUTO | ECDH | OPRF | RR22
  deriving DecidableEq

inductive InferError
  | noParty (table : String)
  | noOriginCCL (column : String)
  | emptyParties
  | missingColumn (id : ℕ)
  | unsupportedExpression
  | duplicatedColumn (id : ℕ)
  | trivialArity (name : FuncName)
  | unsupportedEqCondition
  | joinDenied (column : ℕ) (level : CCLLevel) (party : PartyCode)
  | zeroThreshold
  | unsupportedCondition
  | unsupportedJoinType (tp : JoinType)
  | missingArgument
  | unimplementedAgg (name : AggName)
  | unionUnknown (column : ℕ)
  | windowFuncs (n : ℕ)
  | orderRequired
  | partitionRequired
  | aggWindow
  deriving DecidableEq

/-- Where the columns come from. `rootArgMap` links a trivial function of a column to it. -/
structure ColumnTracer where
  colToSourceParties : AList (fun _ : ℕ => List PartyCode)
  rootArgMap : AList (fun _ : ℕ => ℕ)
  deriving DecidableEq

namespace ColumnTracer

def newColumnTracer : ColumnTracer := ⟨∅, ∅⟩

def getRootArg (t : ColumnTracer) (x : ℕ) : ℕ := (t.rootArgMap.lookup x).getD x

def setRootArg (t : ColumnTracer) (x root : ℕ) : ColumnTracer :=
  {t with rootArgMap := t.rootArgMap.insert x root}

def findSourceParties (t : ColumnTracer) (uniqueID : ℕ) : List PartyCode :=
  (t.colToSourceParties.lookup uniqueID).getD []

def addSourceParties (t : ColumnTracer) (uniqueID : ℕ) (parties : List PartyCode) :
    ColumnTracer :=
  let all := sliceDeDup (t.findSourceParties uniqueID ++ parties)
  {t with colToSourceParties := t.colToSourceParties.insert uniqueID all}

def setSourcePartiesFromExpr (t : ColumnTracer) (uniqueID : ℕ) (expr : Expr) : ColumnTracer :=
  t.addSourceParties uniqueID
    (expr.extractColumns.flatMap (fun c => t.findSourceParties c.uniqueID))

end ColumnTracer
/-- A map from columns to column controls, as an expression is inferred against. -/
structure CclEnv where
  lookup : ℕ → Option CCL
  all : List CCL

def isCompareAstFunc : FuncName → Bool
  | .GT | .GE | .LT | .LE | .EQ | .NE | .GeoDist => true
  | _ => false

def inferScalarFuncCCLUsingArgCCL (f : FuncName) : List CCL → CCL
  | [] => CCL.newCCL
  | cc::rest => rest.foldl
      (if isCompareAstFunc f then CCL.inferCompareFuncCCL else CCL.updateMoreRestrictedCCLFrom) cc

/-- Without arguments everyone the map names may see the value. -/
def inferConstantCCL (env : CclEnv) : Except InferError CCL :=
  let parties := CCL.extractPartyCodes env.all
  if parties = [] then .error .emptyParties else .ok (CCL.createAllPlainCCL parties)

mutual
def inferExpressionCCL (env : CclEnv) : Expr → Except InferError CCL
  | .constant _ => inferConstantCCL env
  | .column c =>
    match env.lookup c.uniqueID with
    | none => .error (.missingColumn c.uniqueID)
    | some cc => .ok cc
  | .scalarFunction f args =>
    match args with
    | [] => inferConstantCCL env
    | a::as => do
      let cc ← inferExpressionCCL env a
      let ccs ← inferExpressionCCLs env as
      return inferScalarFuncCCLUsingArgCCL f (cc::ccs)
  | .correlatedColumn _ => .error .unsupportedExpression

def inferExpressionCCLs (env : CclEnv) : List Expr → Except InferError (List CCL)
  | [] => .ok []
  | e::es => do
    let cc ← inferExpressionCCL env e
    let ccs ← inferExpressionCCLs env es
    return cc::ccs
end

/-- Columns of a node and the addresses of their column controls. -/
abbrev CclMap := AList (fun _ : ℕ => ℕ)

/-- State of an inference: the column controls made so far, the tracer and the number of
map loops run. -/
structure InferState where
  heap : List CCL
  tracer : ColumnTracer
  loops : ℕ

namespace InferState

def start : InferState := ⟨[], ColumnTracer.newColumnTracer, 0⟩

def read (st : InferState) (a : ℕ) : CCL := st.heap.getD a CCL.newCCL

def write (st : InferState) (a : ℕ) (cc : CCL) : InferState :=
  {st with heap := st.heap.set a cc}

def alloc (st : InferState) (cc : CCL) : InferState := {st with heap := st.heap ++ [cc]}

def withTracer (st : InferState) (t : ColumnTracer) : InferState := {st with tracer := t}

def lookup (st : InferState) (m : CclMap) (id : ℕ) : Option CCL := (m.lookup id).map st.read

def env (st : InferState) (m : CclMap) : CclEnv :=
  ⟨st.lookup m, m.entries.map (fun e => st.read e.2)⟩

def bind (acc : CclMap × InferState) (e : ℕ × CCL) : CclMap × InferState :=
  (acc.1.insert e.1 acc.2.heap.length, acc.2.alloc e.2)

def bindAll (st : InferState) (values : List (ℕ × CCL)) : CclMap × InferState :=
  values.foldl bind (∅, st)

end InferState

/-- A node of the plan with what inference and translation record about it. -/
inductive LNode
  | mk (lp : LogicalPlan) (ccl : CclMap) (dataSourceParties : List PartyCode)
      (childDataSourceParties : List (List PartyCode)) (condVis : CCL) (rt : List ℕ)
      (children : List LNode)

namespace LNode

def lp : LNode → LogicalPlan | mk lp _ _ _ _ _ _ => lp
def ccl : LNode → CclMap | mk _ ccl _ _ _ _ _ => ccl
def dataSourceParties : LNode → List PartyCode | mk _ _ ps _ _ _ _ => ps
def resultTable : LNode → List ℕ | mk _ _ _ _ _ rt _ => rt
def children : LNode → List LNode | mk _ _ _ _ _ _ cs => cs

def inferred (lp : LogicalPlan) (ccl : CclMap) (dataSourceParties : List PartyCode)
    (children : List LNode) : LNode :=
  mk lp ccl dataSourceParties [] CCL.newCCL [] children

end LNode

def extractChildCCL (children : List LNode) : Except InferError CclMap :=
  (children.flatMap (fun c => c.ccl.entries)).foldlM (fun acc e =>
    if e.1 ∈ acc then .error (.duplicatedColumn e.1) else .ok (acc.insert e.1 e.2)) ∅

def childParties (children : List LNode) : List PartyCode :=
  sliceDeDup (children.flatMap (·.dataSourceParties))

structure BuilderEnv where
  partyByTable : String → Option PartyCode
  originCCL : AList (fun _ : String => CCL)
  groupByThreshold : ℕ
  psiType : PsiAlgorithmType

def dataSourceCCL (env : BuilderEnv) (ds : DataSource) : Except InferError (List (ℕ × CCL)) :=
  ds.schema.mapM (fun c =>
    match env.originCCL.lookup c.origName with
    | none => .error (.noOriginCCL c.origName)
    | some cc => .ok (c.uniqueID, cc))

def projectionCCL (cenv : CclEnv) (exprs : List Expr) (schema : List Column) :
    Except InferError (List (ℕ × CCL)) :=
  (schema.zip exprs).mapM (fun p => do
    let cc ← inferExpressionCCL cenv p.2
    return (p.1.uniqueID, cc))

def isTrivialUnaryAstFunc : FuncName → Bool
  | .Trim | .Upper | .Lower => true
  | _ => false

mutual
/-- The column at the bottom of a chain of trivial functions. -/
def rootOf : Expr → Except InferError (Option ℕ)
  | .column c => .ok (some c.uniqueID)
  | .scalarFunction f args => if isTrivialUnaryAstFunc f then rootOfArgs f args else .ok none
  | .correlatedColumn _ => .ok none
  | .constant _ => .ok none

def rootOfArgs (f : FuncName) : List Expr → Except InferError (Option ℕ)
  | [] => .error (.trivialArity f)
  | [a] => rootOf a
  | _::_::_ => .error (.trivialArity f)
end

def recordRootArg (t : ColumnTracer) (p : Column × Expr) : Except InferError ColumnTracer :=
  match p.2 with
  | .scalarFunction f args => do
    let root ← rootOf (.scalarFunction f args)
    return root.elim t (t.setRootArg p.1.uniqueID)
  | _ => .ok t

def findThenRecordRootArg (n : LNode) (t : ColumnTracer) : Except InferError ColumnTracer :=
  match n.lp with
  | .projection exprs schema _ => (schema.zip exprs).foldlM recordRootArg t
  | _ => .ok t

def getUsedList (usedCols schema : List Column) : List Bool :=
  schema.map (fun c => c.uniqueID ∈ usedCols.map (·.uniqueID))

def take {α : Type} (slice : List α) (predicate : List Bool) : List α :=
  ((slice.zip predicate).filter (·.2)).map (·.1)

def extractEQColumns (sf : ScalarFunction) : Except InferError (Column × Column) :=
  match sf.funcName, sf.args with
  | .EQ, [.column l, .column r] => .ok (l, r)
  | _, _ => .error .unsupportedEqCondition

/-- Whether a side of the join is expected to learn the join result: it has columns in the
result table, or the algorithm or the join type gives it the result. -/
def touchResult (psiType : PsiAlgorithmType) (outer : Bool) (schema : List Column)
    (child : LNode) : Bool :=
  !(take child.resultTable (getUsedList schema child.lp.schema)).isEmpty
    || psiType == .OPRF || outer

/-- Let the parties of one side see the key of the other side, where the join allows it, and
refuse a party that would learn a key it may not see. -/
def checkKey (touch promote : Bool) (col : ℕ) (parties : List PartyCode) (cc : CCL) :
    Except InferError CCL :=
  parties.foldlM (fun cc p =>
    let cc := if cc.levelFor p = Join ∧ promote then cc.setLevelForParty p Plain else cc
    if touch ∧ ¬cc.isVisibleFor p ∧ cc.levelFor p ≠ Join then
      .error (.joinDenied col (cc.levelFor p) p)
    else .ok cc) cc

structure JoinKeys where
  joinKeyCCLs : AList (fun _ : ℕ => CCL)
  joinKeyPairs : List (ℕ × ℕ)
  payloadVisible : List (PartyCode × PartyCode)

def joinCondition (env : BuilderEnv) (info : JoinInfo) (schema : List Column)
    (left right : LNode) (childCCL : ℕ → Option CCL) (t : ColumnTracer) (keys : JoinKeys)
    (cond : ScalarFunction) : Except InferError JoinKeys := do
  let (l, r) ← extractEQColumns cond
  match childCCL l.uniqueID, childCCL r.uniqueID with
  | none, _ => .error (.missingColumn l.uniqueID)
  | some _, none => .error (.missingColumn r.uniqueID)
  | some leftCc, some rightCc =>
    let leftParties := t.findSourceParties l.uniqueID
    let rightParties := t.findSourceParties r.uniqueID
    let visible := if info.joinType = .InnerJoin then
      leftParties.flatMap (fun lp => rightParties.flatMap (fun rp => [(lp, rp), (rp, lp)])) else []
    let leftTouch := touchResult env.psiType (info.joinType == .LeftOuterJoin) schema left
    let rightTouch := touchResult env.psiType (info.joinType == .RightOuterJoin) schema right
    let rightCc ← checkKey leftTouch
      (info.joinType == .InnerJoin || info.joinType == .LeftOuterJoin) r.uniqueID leftParties
        rightCc
    let leftCc ← checkKey rightTouch
      (info.joinType == .InnerJoin || info.joinType == .RightOuterJoin) l.uniqueID rightParties
        leftCc
    return ⟨(keys.joinKeyCCLs.insert l.uniqueID leftCc).insert r.uniqueID rightCc,
      keys.joinKeyPairs ++ [(l.uniqueID, r.uniqueID)], keys.payloadVisible ++ visible⟩

/-- Each side of an equality also comes from the parties of the other side. -/
def addKeySourceParties (t : ColumnTracer) (pairs : List (ℕ × ℕ)) : ColumnTracer :=
  (pairs.flatMap (fun p => [(p.1, t.findSourceParties p.2), (p.2, t.findSourceParties p.1)])).foldl
    (fun t' e => t'.addSourceParties e.1 e.2) t

/-- Reveal a payload column to the parties it was joined with. -/
def revealPayload (sourceParties : List PartyCode) (payloadVisible : List (PartyCode × PartyCode))
    (cc : CCL) : CCL :=
  cc.partyLevels.keys.foldl (fun cc p =>
    if cc.levelFor p = AsJoinPayload ∧ sourceParties.any (fun sp => (p, sp) ∈ payloadVisible)
    then cc.setLevelForParty p Plain else cc) cc

/-- One output column: a key gets a column control of its own, a payload column shares the
child's, which is changed in place. -/
def joinColumn (childCCL : CclMap) (keys : JoinKeys) (acc : CclMap × InferState) (c : Column) :
    Except InferError (CclMap × InferState) :=
  match childCCL.lookup c.uniqueID with
  | none => .error (.missingColumn c.uniqueID)
  | some a =>
    match keys.joinKeyCCLs.lookup c.uniqueID with
    | some cc => .ok (InferState.bind acc (c.uniqueID, cc))
    | none => .ok (acc.1.insert c.uniqueID a, acc.2.write a (revealPayload
        (acc.2.tracer.findSourceParties c.uniqueID) keys.payloadVisible (acc.2.read a)))

/-- A key that is a trivial function of an output column passes its column control on. -/
def passToRootArg (t : ColumnTracer) (acc : CclMap × InferState) (key : ℕ × CCL) :
    CclMap × InferState :=
  if t.getRootArg key.1 ∈ acc.1 then InferState.bind acc (t.getRootArg key.1, key.2) else acc

def joinCCL (o : RangeOrder) (env : BuilderEnv) (info : JoinInfo) (schema : List Column)
    (left right : LNode) (childCCL : CclMap) (st : InferState) :
    Except InferError (CclMap × InferState) := do
  let t ← findThenRecordRootArg left st.tracer
  let t ← findThenRecordRootArg right t
  let keys ← info.equalConditions.foldlM
    (joinCondition env info schema left right (st.lookup childCCL) t) ⟨∅, [], []⟩
  let t := addKeySourceParties t keys.joinKeyPairs
  let acc ← schema.foldlM (joinColumn childCCL keys) (∅, st.withTracer t)
  let order := o.range 0 st.loops (keys.joinKeyCCLs.entries.map (fun e => (e.1, e.2)))
  let (m, st) := order.foldl (passToRootArg t) acc
  return (m, {st with loops := st.loops+1})

def thresholdCondition (k : ℕ) (c : Column) : Expr :=
  .scalarFunction .GE [.column c, .constant (.int k)]

/-- Replace the threshold columns among the conditions by a comparison with the threshold. -/
def rewriteConditions (k : ℕ) : List Expr → Except InferError (List Expr × Bool)
  | [] => .ok ([], false)
  | e::es => do
    match e with
    | .column c =>
      if c.useAsThreshold then
        if k = 0 then throw .zeroThreshold
        let (rest, affected) ← rewriteConditions k es
        if 1 < k then return (thresholdCondition k c::rest, true) else return (rest, affected)
      else
        let (rest, affected) ← rewriteConditions k es
        return (.column c::rest, affected)
    | e =>
      let (rest, affected) ← rewriteConditions k es
      return (e::rest, affected)

/-- Column control of a conjunction; the conditions are not empty. -/
def conditionCCL (cenv : CclEnv) (conds : List Expr) : Except InferError CCL := do
  let ccs ← inferExpressionCCLs cenv conds
  return ccs.tail.foldl CCL.updateMoreRestrictedCCLFrom (ccs.headD CCL.newCCL)

def restrictColumns (lookup : ℕ → Option CCL) (cond : CCL) (schema : List Column) :
    Except InferError (List (ℕ × CCL)) :=
  schema.mapM (fun c =>
    match lookup c.uniqueID with
    | none => .error (.missingColumn c.uniqueID)
    | some cc => .ok (c.uniqueID, cc.updateMoreRestrictedCCLFrom cond))

def applyCondition (info : JoinInfo) : Except InferError ScalarFunction := do
  let other ← match info.otherConditions with
    | [] => .ok none
    | .scalarFunction f args::_ => .ok (some ⟨f, args⟩)
    | _::_ => .error .unsupportedCondition
  match info.equalConditions.head?.or other with
  | none => .error .unsupportedCondition
  | some sf => if sf.funcName = .EQ then return sf else .error .unsupportedCondition

def shareColumns (m : CclMap) (schema : List Column) : Except InferError CclMap :=
  schema.foldlM (fun acc c =>
    match m.lookup c.uniqueID with
    | none => .error (.missingColumn c.uniqueID)
    | some a => .ok (acc.insert c.uniqueID a)) ∅

/-- A semi join that keeps all rows adds a column with its outcome. -/
def semiResultCCL (schema : List Column) (childCCL : CclMap) (sf : ScalarFunction) (cc : CCL)
    (st : InferState) : Except InferError (CclMap × InferState) :=
  match schema.getLast? with
  | none => .error .missingArgument
  | some last => do
    let m ← shareColumns childCCL schema.dropLast
    let st := st.withTracer (st.tracer.setSourcePartiesFromExpr last.uniqueID sf.toExpr)
    return InferState.bind (m, st) (last.uniqueID, cc)

def applyCCL (info : JoinInfo) (schema : List Column) (childCCL : CclMap) (st : InferState) :
    Except InferError (CclMap × InferState) := do
  if info.otherConditions.isEmpty && info.equalConditions.isEmpty then
    return (childCCL, st)
  let sf ← applyCondition info
  let cc ← inferExpressionCCL (st.env childCCL) sf.toExpr
  match info.joinType with
  | .AntiLeftOuterSemiJoin | .LeftOuterSemiJoin => semiResultCCL schema childCCL sf cc st
  | .AntiSemiJoin | .SemiJoin =>
    let values ← restrictColumns (st.lookup childCCL) cc schema
    return st.bindAll values
  | tp => .error (.unsupportedJoinType tp)

def setPlainWhen (level : CCLLevel) (cc : CCL) : CCL :=
  cc.partyLevels.keys.foldl
    (fun cc p => if cc.levelFor p = level then cc.setLevelForParty p Plain else cc) cc

def setAllPlainWhenLevelGroupBy (cc : CCL) : CCL := setPlainWhen GroupBy cc

/-- The child's column controls with the group keys made visible. -/
def childCCLAfterGroupBy (cenv : CclEnv) (keys : List Column) : CclEnv :=
  ⟨fun id => (cenv.lookup id).map (fun cc =>
    if id ∈ keys.map (·.uniqueID) then setAllPlainWhenLevelGroupBy cc else cc), cenv.all⟩

/-- Count without group keys: visible to every party some column is not unknown to. -/
def countWithoutKeys (childCCLs : List CCL) (out : CCL) : CCL :=
  out.partyLevels.keys.foldl (fun out p => out.setLevelForParty p
    (if childCCLs.any (fun cc => cc.levelFor p ≠ Unknown) then Plain else Unknown)) out

/-- One group key; the loop over its parties stops at the first unknown one. -/
def countKey (cc : CCL) : List PartyCode → CCL → CCL
  | [], out => out
  | p::ps, out =>
    if cc.levelFor p = Unknown then out.setLevelForParty p Unknown
    else if cc.levelFor p = Encrypt then countKey cc ps (out.setLevelForParty p Encrypt)
    else countKey cc ps out

def countWithKeys (o : RangeOrder) (site : ℕ) (groupKeyCC : List CCL) (out : CCL) : CCL :=
  let plain := out.partyLevels.keys.foldl (fun out p => out.setLevelForParty p Plain) out
  groupKeyCC.zipIdx.foldl (fun out k => countKey k.1 (k.1.parties o (site+k.2)) out) plain

def aggFuncCCL (o : RangeOrder) (site : ℕ) (info : AggInfo) (childCCLs groupKeyCC : List CCL)
    (f : AggFuncDesc) (arg : CCL) : Except InferError CCL :=
  if info.producedByDistinct then .ok (setAllPlainWhenLevelGroupBy arg)
  else match f.name with
    | .Count => .ok (if groupKeyCC.isEmpty then countWithoutKeys childCCLs arg
        else countWithKeys o site groupKeyCC arg)
    | .FirstRow => .ok (groupKeyCC.foldl CCL.updateMoreRestrictedCCLFrom arg)
    | .Sum | .Avg | .Max | .Min | .PercentileDisc =>
      .ok (setPlainWhen Aggregate (groupKeyCC.foldl CCL.updateMoreRestrictedCCLFrom arg))
    | .other name => .error (.unimplementedAgg (.other name))

def groupKeyCCs (cenv : CclEnv) (keys : List Column) : Except InferError (List CCL) :=
  keys.mapM (fun c =>
    match (childCCLAfterGroupBy cenv keys).lookup c.uniqueID with
    | none => .error (.missingColumn c.uniqueID)
    | some cc => .ok cc)

def aggregationCCL (o : RangeOrder) (site : ℕ) (info : AggInfo) (schema : List Column)
    (cenv : CclEnv) : Except InferError (List (ℕ × CCL)) := do
  let keys := info.groupByItems.flatMap (·.extractColumns)
  let groupKeyCC ← groupKeyCCs cenv keys
  (schema.zip info.aggFuncs).zipIdx.mapM (fun p => do
    match p.1.2.args with
    | [] => .error .missingArgument
    | a::_ =>
      let arg ← inferExpressionCCL (childCCLAfterGroupBy cenv keys) a
      let cc ← aggFuncCCL o (site+p.2*groupKeyCC.length) info cenv.all groupKeyCC p.1.2 arg
      return (p.1.1.uniqueID, cc))

/-- Restrict a column of the union by the column of a branch at the same position. -/
def unionBranch (i : ℕ) (c : Column) (cc : CCL) (child : LogicalPlan × (ℕ → Option CCL)) :
    Except InferError CCL :=
  match (child.1.schema[i]?).bind (fun col => child.2 col.uniqueID) with
  | none => .error (.missingColumn c.uniqueID)
  | some cc' => .ok (cc.updateMoreRestrictedCCLFrom cc')

def unionColumn (parties : List PartyCode) (children : List (LogicalPlan × (ℕ → Option CCL)))
    (i : ℕ) (c : Column) : Except InferError (ℕ × CCL) := do
  let cc ← children.foldlM (unionBranch i c) (CCL.createAllPlainCCL parties)
  if parties.any (fun p => cc.levelFor p = Unknown) then .error (.unionUnknown c.uniqueID)
  else return (c.uniqueID, cc)

def unionCCL (schema : List Column) (children : List LNode) (st : InferState) :
    Except InferError (List (ℕ × CCL)) :=
  let parties := CCL.extractPartyCodes (children.flatMap (fun c => (st.env c.ccl).all))
  schema.zipIdx.mapM (fun p =>
    unionColumn parties (children.map (fun c => (c.lp, st.lookup c.ccl))) p.2 p.1)

def isRankWindowFunc : WindowName → Bool
  | .RowNumber | .PercentRank | .Rank => true
  | .other _ => false

def orderCCL (lookup : ℕ → Option CCL) (items : List SortItem) : Except InferError CCL := do
  let ccs ← items.mapM (fun item =>
    match lookup item.col.uniqueID with
    | none => .error (.missingColumn item.col.uniqueID)
    | some cc => .ok cc)
  return ccs.tail.foldl CCL.updateMoreRestrictedCCLFrom (ccs.headD CCL.newCCL)

def windowCCL (info : WindowInfo) (schema : List Column) (childCCL : CclMap) (st : InferState) :
    Except InferError (CclMap × InferState) := do
  if info.orderBy.isEmpty then throw .orderRequired
  if info.partitionBy.isEmpty then throw .partitionRequired
  match schema.getLast? with
  | none => .error .missingArgument
  | some last =>
    let cc ← orderCCL (st.lookup childCCL) info.orderBy
    let cc := setPlainWhen Rank cc
    let values := childCCL.entries.map (fun e => (e.1, st.read e.2)) ++ [(last.uniqueID, cc)]
    let (m, st) := st.bindAll values
    return (m,
      st.withTracer (st.tracer.addSourceParties last.uniqueID (CCL.extractPartyCodes [cc])))

mutual
/-- Infer the column controls of a plan, returning its annotated tree. -/
def buildCCL (o : RangeOrder) (env : BuilderEnv) :
    LogicalPlan → InferState → Except InferError (LNode × InferState)
  | .dataSource ds, st => do
    match env.partyByTable ds.dbTable with
    | none => .error (.noParty ds.dbTable)
    | some party =>
      let values ← dataSourceCCL env ds
      let (m, st) := st.bindAll values
      let t := ds.schema.foldl (fun t c => t.addSourceParties c.uniqueID [party]) st.tracer
      return (.inferred (.dataSource ds) m [party] [], st.withTracer t)
  | .selection conds affected schema child, st => do
    let (c, st) ← buildCCL o env child st
    let m ← extractChildCCL [c]
    let (conds, rewritten) ← rewriteConditions env.groupByThreshold conds
    let lp := LogicalPlan.selection conds (affected || rewritten) schema c.lp
    if conds.isEmpty then return (.inferred lp m (childParties [c]) [c], st)
    let cond ← conditionCCL (st.env m) conds
    let values ← restrictColumns (st.lookup m) cond schema
    let (m, st) := st.bindAll values
    return (.mk lp m (childParties [c]) [] cond [] [c], st)
  | .projection exprs schema child, st => do
    let (c, st) ← buildCCL o env child st
    let m ← extractChildCCL [c]
    let values ← projectionCCL (st.env m) exprs schema
    let (m, st) := st.bindAll values
    let t := (schema.zip exprs).foldl (fun t p => t.setSourcePartiesFromExpr p.1.uniqueID p.2)
      st.tracer
    return (.inferred (.projection exprs schema c.lp) m (childParties [c]) [c], st.withTracer t)
  | .join info schema left right, st => do
    let (l, st) ← buildCCL o env left st
    let (r, st) ← buildCCL o env right st
    let childCCL ← extractChildCCL [l, r]
    let parties := [l, r].map (fun c => sliceDeDup
      (c.lp.schema.flatMap (fun col => st.tracer.findSourceParties col.uniqueID)))
    let (m, st) ← joinCCL o env info schema l r childCCL st
    return (.mk (.join info schema l.lp r.lp) m (childParties [l, r]) parties CCL.newCCL [] [l, r],
      st)
  | .apply info schema left right, st => do
    let (l, st) ← buildCCL o env left st
    let (r, st) ← buildCCL o env right st
    let childCCL ← extractChildCCL [l, r]
    let (m, st) ← applyCCL info schema childCCL st
    return (.inferred (.apply info schema l.lp r.lp) m (childParties [l, r]) [l, r], st)
  | .aggregation info schema child, st => do
    let (c, st) ← buildCCL o env child st
    let m ← extractChildCCL [c]
    let values ← aggregationCCL o st.loops info schema (st.env m)
    let (m, st) := st.bindAll values
    let loops := info.aggFuncs.length*(info.groupByItems.flatMap (·.extractColumns)).length
    return (.inferred (.aggregation info schema c.lp) m (childParties [c]) [c],
      {st with loops := st.loops+loops})
  | .unionAll schema children, st => do
    let (cs, st) ← buildCCLs o env children st
    let values ← unionCCL schema cs st
    let (m, st) := st.bindAll values
    return (.inferred (.unionAll schema (cs.map (·.lp))) m (childParties cs) cs, st)
  | .limit offset count child, st => do
    let (c, st) ← buildCCL o env child st
    let m ← extractChildCCL [c]
    return (.inferred (.limit offset count c.lp) m (childParties [c]) [c], st)
  | .sort byItems child, st => do
    let (c, st) ← buildCCL o env child st
    let m ← extractChildCCL [c]
    return (.inferred (.sort byItems c.lp) m (childParties [c]) [c], st)
  | .window info schema child, st => do
    match info.windowFuncDescs with
    | [name] =>
      if ¬isRankWindowFunc name then throw .aggWindow
      let (c, st) ← buildCCL o env child st
      let m ← extractChildCCL [c]
      let (m, st) ← windowCCL info schema m st
      return (.inferred (.window info schema c.lp) m (childParties [c]) [c], st)
    | fs => .error (.windowFuncs fs.length)
  | .maxOneRow child, st => do
    let (c, st) ← buildCCL o env child st
    let m ← extractChildCCL [c]
    return (.inferred (.maxOneRow c.lp) m (childParties [c]) [c], st)

def buildCCLs (o : RangeOrder) (env : BuilderEnv) :
    List LogicalPlan → InferState → Except InferError (List LNode × InferState)
  | [], st => .ok ([], st)
  | p::ps, st => do
    let (c, st) ← buildCCL o env p st
    let (cs, st) ← buildCCLs o env ps st
    return (c::cs, st)
end

def outputCCL (r : LNode × InferState) (id : ℕ) : Option CCL := r.2.lookup r.1.ccl id

end Scql.ControlInference
