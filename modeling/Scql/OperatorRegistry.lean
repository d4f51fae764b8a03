import Mathlib.Data.Int.Notation

/-! # Operator definitions

The signature of every operator of an execution graph: its formal parameters, the
tensor statuses each parameter accepts and whether the operator streams. -/
namespace Scql.OperatorRegistry

inductive TensorStatus
  | UNKNOWN | PRIVATE | SECRET | PUBLIC
  deriving DecidableEq

inductive StreamingOpType
  | SinkOp | StreamingOp
  deriving DecidableEq

inductive FormalParameterOptions
  | SINGLE | OPTIONAL | VARIADIC
  deriving DecidableEq

inductive OpName
  | Constant | MakePrivate | MakeShare | MakePublic | FilterByIndex | Bucket | Join
  | SecretJoin | RunSQL | Publish | DumpFile | InsertTable | Copy | Filter | Greatest | Least
  | In | Replicate | BroadcastTo | Cast | Limit | IsNull | ArrowFunc
  | Less | LessEqual | Greater | GreaterEqual | Equal | NotEqual | LogicalAnd | LogicalOr | Pow
  | Add | Minus | Mul | Div | IntDiv | Mod | Not | Sin | Cos | ACos | ASin | Tan | Cot | ATan
  | ATan2
  | ReduceSum | ReduceMax | ReduceMin | ReduceAvg | ReduceCount | ReducePercentileDisc
  | Group | GroupSum | GroupCount | GroupCountDistinct | GroupAvg | GroupMin | GroupMax
  | GroupFirstOf | GroupHeSum | GroupPercentileDisc
  | Unique | Shape | Sort | ObliviousGroupMark | ObliviousGroupCount | ObliviousGroupSum
  | ObliviousGroupMax | ObliviousGroupMin | ObliviousGroupAvg | ObliviousPercentRank
  | ObliviousPercentileDisc | ObliviousRank | Shuffle | Concat
  | CaseWhen | If | IfNull | Coalesce | RowNumber | PercentRank | Rank | Abs | Ceil | Floor
  | Round | Degrees | Radians | Ln | Log10 | Log2 | Sqrt | Exp
  deriving DecidableEq

inductive AttributeValue
  | string (v : String)
  | strings (v : List String)
  | int (v : ℤ)
  | bool (v : Bool)
  deriving DecidableEq

structure FormalParameter where
  paramName : String
  option : FormalParameterOptions
  parameterStatusConstraintName : String
  deriving DecidableEq

/-- Parameters with one constraint name share the status of the first of them. -/
structure OperatorDef where
  inputParams : List FormalParameter
  outputParams : List FormalParameter
  paramStatusConstraints : List (String × List TensorStatus)
  streamingType : StreamingOpType
  defaultAttribute : List (String × AttributeValue)
  deriving DecidableEq

open TensorStatus StreamingOpType FormalParameterOptions

def statusPrivate : List TensorStatus := [PRIVATE]
def statusSecret : List TensorStatus := [SECRET]
def statusPublic : List TensorStatus := [PUBLIC]
def statusPrivateOrSecret : List TensorStatus := [PRIVATE, SECRET]
def statusPrivateOrPublic : List TensorStatus := [PRIVATE, PUBLIC]
def statusSecretOrPublic : List TensorStatus := [SECRET, PUBLIC]
def statusPrivateOrSecretOrPublic : List TensorStatus := [PRIVATE, SECRET, PUBLIC]

def single (name : String) (c : String) : FormalParameter := ⟨name, SINGLE, c⟩
def variadic (name : String) (c : String) : FormalParameter := ⟨name, VARIADIC, c⟩
def optional (name : String) (c : String) : FormalParameter := ⟨name, OPTIONAL, c⟩

/-- Comparisons, logical and arithmetic operators of two arguments. -/
def binaryOpDef : OperatorDef :=
  ⟨[variadic "Left" "T", variadic "Right" "T1"], [variadic "Out" "T2"],
    [("T", statusPrivateOrSecretOrPublic), ("T1", statusPrivateOrSecretOrPublic),
      ("T2", statusPrivateOrSecret)], StreamingOp, []⟩

def unaryOpDef (status : List TensorStatus) (typ : StreamingOpType) : OperatorDef :=
  ⟨[single "In" "T"], [single "Out" "T"], [("T", status)], typ, []⟩

def columnsOpDef (status : List TensorStatus) (typ : StreamingOpType) : OperatorDef :=
  ⟨[variadic "In" "T"], [variadic "Out" "T"], [("T", status)], typ, []⟩

def convertOpDef (source target : List TensorStatus) : OperatorDef :=
  ⟨[variadic "In" "T1"], [variadic "Out" "T2"], [("T1", source), ("T2", target)],
    StreamingOp, []⟩

def obliviousGroupOpDef : OperatorDef :=
  ⟨[single "Group" "T", variadic "In" "T"], [variadic "Out" "T"], [("T", statusSecret)], SinkOp, []⟩

def groupOpDef : OperatorDef :=
  ⟨[single "GroupId" "T", single "GroupNum" "T", variadic "In" "T"], [variadic "Out" "T"],
    [("T", statusPrivate)], SinkOp, []⟩

def rankOpDef : OperatorDef :=
  ⟨[variadic "Key" "T", single "PartitionId" "T", single "PartitionNum" "T"], [single "Out" "T"],
    [("T", statusPrivate)], SinkOp, []⟩

/-- The registered definition of an operator; every name is registered. -/
def findOpDef : OpName → OperatorDef
  | .RunSQL => ⟨[], [variadic "Out" "T"], [("T", statusPrivate)], SinkOp, []⟩
  | .Publish => columnsOpDef statusPrivate SinkOp
  | .Less | .LessEqual | .Greater | .GreaterEqual | .Equal | .NotEqual | .LogicalAnd
  | .LogicalOr | .Add | .Minus | .Mul | .Div | .IntDiv | .Mod | .ATan2 | .Pow => binaryOpDef
  | .MakePublic => convertOpDef statusPrivateOrSecret statusPublic
  | .MakePrivate => convertOpDef statusSecretOrPublic statusPrivate
  | .MakeShare => convertOpDef statusPrivate statusSecret
  | .Join => ⟨[single "Left" "T1", single "Right" "T1"],
      [optional "LeftJoinIndex" "T2", optional "RightJoinIndex" "T2"],
      [("T1", statusPrivate), ("T2", statusPrivate)], SinkOp,
      [("join_type", .int 0), ("psi_algorithm", .int 0)]⟩
  | .FilterByIndex => ⟨[single "RowsIndexFilter" "T", variadic "Data" "T"], [variadic "Out" "T"],
      [("T", statusPrivate)], StreamingOp, []⟩
  | .Copy => ⟨[single "In" "T1"], [single "Out" "T1"], [("T1", statusPrivate)], StreamingOp, []⟩
  | .Filter => ⟨[single "Filter" "T1", variadic "In" "T"], [variadic "Out" "T"],
      [("T1", statusPrivateOrPublic), ("T", statusPrivateOrSecret)], StreamingOp, []⟩
  | .Constant => ⟨[], [single "Out" "T"], [("T", statusPrivateOrPublic)], SinkOp, []⟩
  | .DumpFile => ⟨[variadic "In" "T"], [variadic "Out" "T"], [("T", statusPrivate)], SinkOp,
      [("field_deliminator", .string "\\t"), ("quoting_style", .int 0),
        ("line_terminator", .string "\\n")]⟩
  | .InsertTable => columnsOpDef statusPrivate SinkOp
  | .In => ⟨[single "Left" "T", single "Right" "T1"], [single "Out" "T"],
      [("T", statusPrivate), ("T1", statusPrivate)], StreamingOp,
      [("in_type", .int 0), ("psi_algorithm", .int 0)]⟩
  | .ReduceSum | .ReduceCount | .ReduceMax | .ReduceMin | .ReduceAvg
  | .ReducePercentileDisc => unaryOpDef statusPrivateOrSecret SinkOp
  | .Shape => ⟨[variadic "In" "T"], [variadic "Out" "T1"],
      [("T", statusPrivateOrSecretOrPublic), ("T1", statusPrivate)], SinkOp,
      [("axis", .int (-1))]⟩
  | .Unique => ⟨[single "Key" "T"], [single "UniqueKey" "T"], [("T", statusPrivate)], SinkOp, []⟩
  | .Sort => ⟨[variadic "Key" "T", variadic "In" "T"], [variadic "Out" "T"],
      [("T", statusPrivateOrSecret)], SinkOp, [("reverse", .bool false)]⟩
  | .ObliviousGroupMark => ⟨[variadic "Key" "T"], [single "Group" "T"],
      [("T", statusPrivateOrSecret)], SinkOp, []⟩
  | .ObliviousGroupSum | .ObliviousGroupCount | .ObliviousGroupMax | .ObliviousGroupMin
  | .ObliviousGroupAvg | .ObliviousPercentRank | .ObliviousRank
  | .ObliviousPercentileDisc => obliviousGroupOpDef
  | .Shuffle => columnsOpDef statusSecret SinkOp
  | .BroadcastTo => ⟨[variadic "In" "T", single "ShapeRefTensor" "T1"], [variadic "Out" "T2"],
      [("T", statusPublic), ("T1", statusPrivateOrSecretOrPublic),
        ("T2", statusPrivateOrPublic)], StreamingOp, []⟩
  | .Not => unaryOpDef statusPrivateOrSecretOrPublic StreamingOp
  | .Concat => ⟨[variadic "In" "T"], [single "Out" "T"], [("T", statusSecret)], SinkOp, []⟩
  | .Group => ⟨[variadic "Key" "T"], [single "GroupId" "T", single "GroupNum" "T"],
      [("T", statusPrivate)], SinkOp, []⟩
  | .If => ⟨[single "Condition" "T", single "ValueIfTrue" "T1", single "ValueIfFalse" "T2"],
      [single "Out" "T3"], [("T", statusPrivateOrSecretOrPublic),
        ("T1", statusPrivateOrSecretOrPublic), ("T2", statusPrivateOrSecretOrPublic),
        ("T3", statusPrivateOrSecretOrPublic)], StreamingOp, []⟩
  | .CaseWhen => ⟨[variadic "Condition" "T", variadic "Value" "T1", single "ValueElse" "T2"],
      [single "Out" "T3"], [("T", statusPrivateOrSecretOrPublic),
        ("T1", statusPrivateOrSecretOrPublic), ("T2", statusPrivateOrSecretOrPublic),
        ("T3", statusPrivateOrSecretOrPublic)], StreamingOp, []⟩
  | .GroupFirstOf | .GroupCount | .GroupCountDistinct | .GroupSum | .GroupAvg | .GroupMin
  | .GroupMax | .GroupPercentileDisc => groupOpDef
  | .GroupHeSum => ⟨[single "GroupId" "T", single "GroupNum" "T", single "In" "T"],
      [single "Out" "T"], [("T", statusPrivate)], SinkOp, []⟩
  | .Cast => unaryOpDef statusPrivateOrSecretOrPublic StreamingOp
  | .Limit => columnsOpDef statusPrivateOrSecretOrPublic SinkOp
  | .IsNull => unaryOpDef statusPrivate StreamingOp
  | .IfNull => ⟨[single "Expr" "T", single "AltValue" "T"], [single "Out" "T"],
      [("T", statusPrivate)], StreamingOp, []⟩
  | .Coalesce =>
    ⟨[variadic "Exprs" "T"], [single "Out" "T"], [("T", statusPrivate)], StreamingOp, []⟩
  | .Bucket => ⟨[variadic "Key" "T", variadic "In" "T"], [variadic "Out" "T"],
      [("T", statusPrivate)], SinkOp, []⟩
  | .Sin | .Cos | .Tan | .Cot | .ACos | .ASin
  | .ATan => unaryOpDef statusPrivateOrSecretOrPublic StreamingOp
  | .RowNumber | .PercentRank | .Rank => rankOpDef
  | .SecretJoin => ⟨[variadic "LeftKey" "T", variadic "RightKey" "T", variadic "Left" "T",
        variadic "Right" "T"],
      [variadic "LeftOutput" "T", variadic "RightOutput" "T"], [("T", statusSecret)], SinkOp, []⟩
  | .Abs | .Ceil | .Floor | .Round | .Radians | .Degrees | .Ln | .Log10 | .Log2 | .Sqrt
  | .Exp => unaryOpDef statusPrivateOrSecretOrPublic SinkOp
  | .Greatest | .Least => columnsOpDef statusPrivateOrSecretOrPublic StreamingOp
  | .ArrowFunc => columnsOpDef statusPrivate StreamingOp
  | .Replicate => ⟨[variadic "Left" "T", variadic "Right" "T"],
      [variadic "LeftOut" "T", variadic "RightOut" "T"],
      [("T", statusPrivate)], SinkOp, []⟩

end Scql.OperatorRegistry
