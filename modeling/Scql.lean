import Scql.AlgorithmPlacement
import Scql.CaseWhenOperator
import Scql.ChecksumFacts
import Scql.ControlSoundness
import Scql.CountVisibility
import Scql.DatasourceRouter
import Scql.DateFormat
import Scql.DiskBatches
import Scql.EngineSession
import Scql.ExecutionGate
import Scql.ExpressionLevels
import Scql.JobStatus
import Scql.LeaderElection
import Scql.LikePattern
import Scql.LimitOperator
import Scql.OprfJoin
import Scql.PercentileDisc
import Scql.PipelineSlices
import Scql.ProjectAnswers
import Scql.PsiMembership
import Scql.PushDownCorrect
import Scql.RefreshConvergence
import Scql.ReplicateOperator
import Scql.ResultMerging
import Scql.ScalarSubqueries
import Scql.ScanFolds
import Scql.ScdbRefinement
import Scql.ScheduleAgreement
import Scql.SecretJoinCorrect
import Scql.SelectionChains
import Scql.StatusConstraints
import Scql.TableRenaming
import Scql.TensorReclamation
import Scql.ThresholdWarning
