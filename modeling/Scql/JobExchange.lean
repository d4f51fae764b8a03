import Scql.CheckedStorage
import Scql.EventRuns
import Scql.QueryRunner

/-! # Running a job across brokers

The issuer of a job distributes it to the other parties that work in it; each of them exchanges
checksums with the issuer and with the other data parties, asks for the rows that differ, and
executes. Handlers, the loops that wait for replies and the execution of a job at a broker are
separate events, so storage changes, late replies and failed calls can come between them. -/
namespace Scql.Broker

open MetaStorage MapRange QueryRunner Fallible Function

structure Session where
  job : JobDesc
  usedTables : List String
  dataParties : List PartyCode
  workParties : List PartyCode
  checksums : ChecksumStorage
  endpoints : AList (fun _ : PartyCode => String)
  runner : QueryRunner

structure SessionInfo where
  checksum : Checksum
  engineUrl : String
  deriving DecidableEq

/-- A broker that owns none of the tables has no checksum to report. -/
def sessionInfo (deps : Deps) (self : PartyCode) (s : Session) : Except String SessionInfo :=
  if self ∈ s.dataParties then do
    let c ← (s.checksums.getLocal self).mapError
      ("PersistSessionInfo: get local self checksum failed: " ++ ·)
    return ⟨c, deps.endpoint self⟩
  else .ok ⟨.empty, deps.endpoint self⟩

def checkProjectConf (spuProtocol : Option ProtocolKind) (workParties : List PartyCode) :
    Except String Unit :=
  match spuProtocol with
  | none => .error "spu runtime config is nil"
  | some protocol =>
    if workParties.length = 0 then .error "work parties is empty"
    else if workParties.length = 1 then .ok ()
    else if protocol = .CHEETAH ∧ workParties.length ≠ 2 then
      .error ("protocol cheetah only support 2 parties, but got " ++ toString workParties.length)
    else if protocol = .ABY3 ∧ workParties.length ≠ 3 then
      .error ("protocol aby3 only support 3 parties, but got " ++ toString workParties.length)
    else .ok ()

/-- A session with the tables of the job, before any checksum. -/
def prepareSession (deps : Deps) (self : PartyCode) (job : JobDesc) (project : Project)
    (st refreshed : Database) : Except String Session := do
  let spuProtocol ← deps.spuProtocol project.projectConf
  let usedTables ← deps.getSourceTables job.query
  let prepared ← prepare deps self job false usedTables st refreshed
  checkProjectConf spuProtocol prepared.workParties
  return ⟨job, usedTables, prepared.dataParties, prepared.workParties, {},
    (∅ : AList (fun _ : PartyCode => String)).insert self (deps.endpoint self), prepared.runner⟩

def saveLocalChecksums (deps : Deps) (s : Session) : Except String Session := do
  let sums ← s.runner.createChecksum deps s.dataParties
  let checksums ← sums.foldlM (fun (cs : ChecksumStorage) pc => cs.saveLocal pc.1 pc.2) s.checksums
  return {s with checksums := checksums}

def checkChecksum (self : PartyCode) (s : Session) : Except String Unit :=
  (s.dataParties.filter (· ≠ self)).forM (fun p => do
    let compareResult ← s.checksums.compareChecksumFor p
    if compareResult ≠ .EQUAL then throw ("checksum not equal with party " ++ p))

/-- The start parameters need an endpoint and a key of every party of the plan. -/
def createExecutor (deps : Deps) (self : PartyCode) (s : Session) (plan : CompiledPlan) :
    Except String Unit := do
  plan.parties.forM (fun p => do
    if (s.endpoints.lookup p).isNone then throw ("endpoint of " ++ p ++ " not found")
    deps.checkParty p)
  if self ∉ plan.subGraphs then throw "could not find my graph"

structure DistributeQueryRequest where
  clientProtocol : ℕ
  projectId : String
  jobId : String
  query : String
  clientId : PartyCode
  clientChecksum : Option Checksum
  serverChecksum : Option Checksum
  engineEndpoint : String
  dryRun : Bool
  deriving DecidableEq

/-- A party to hear from, and how often it may still be asked. -/
structure Task where
  party : PartyCode
  attempts : ℕ
  deriving DecidableEq

inductive Phase
  /-- Waiting for the other parties. -/
  | syncing (pending : List Task) (triggered failed : Bool)
  | executing
  /-- The job was prepared a second time. -/
  | reprepared
  /-- The engine was started. -/
  | running
  | stopped
  deriving DecidableEq

structure Job where
  session : Session
  info : SessionInfo
  phase : Phase
  /-- The request that brought the job, at a broker that is not the issuer. -/
  request : Option DistributeQueryRequest
  /-- Syncing with the other parties returned an error. -/
  syncError : Bool := false

def version : ℕ := 1

/-- The project has to have members, and the party has to be one of them. -/
def checkMemberExistInProject (db : Database) (projectID : String) (member : PartyCode) :
    Except String Unit := do
  let members := db.getProjectMembers projectID
  if members = [] then
    throw ("CheckMemberExistInProject: project " ++ projectID ++
      " has no members or project doesn't exist")
  if member ∉ members then
    throw ("CheckMemberExistInProject: issuer code " ++ member ++ " is not member of project " ++
      projectID)

/-- The checks a distributed job has to pass, and its project. -/
def checkDistributeRequest (jobExists : Bool) (db : Database) (req : DistributeQueryRequest) :
    Except String Project := do
  if req.projectId = "" ∨ req.query = "" ∨ (req.dryRun = false ∧ req.engineEndpoint = "") then
    throw "DistributeQuery: illegal request: missing information"
  if req.clientProtocol ≠ version then
    throw ("DistributeQuery: expected client version " ++ toString req.clientProtocol ++
      " equals to version " ++ toString version)
  let _ ← checkProjectArchived db req.projectId "DistributeQuery"
  if jobExists then throw ("DistributeQuery: already existing job for id " ++ req.jobId)
  checkMemberExistInProject db req.projectId req.clientId
  db.getProject req.projectId

/-- Save what the issuer sent: its checksum, if it owns a table, and its endpoint. -/
def saveIssuerReport (req : DistributeQueryRequest) (s : Session) : Except String Session :=
  let s := {s with endpoints := s.endpoints.insert req.clientId req.engineEndpoint}
  if req.clientId ∈ s.dataParties then do
    let checksums ← s.checksums.saveRemote req.clientId req.clientChecksum
    return {s with checksums := checksums}
  else .ok s

/-- The handler of a distributed job, up to the point where it is visible to other brokers and
its execution goes on in the background. -/
def distributeQuery (deps : Deps) (self : PartyCode) (jobExists : Bool) (st refreshed : Database)
    (req : DistributeQueryRequest) : Except String Job := do
  let project ← checkDistributeRequest jobExists st req
  let s ← prepareSession deps self ⟨req.projectId, req.query, req.clientId⟩ project st refreshed
  let s ← saveIssuerReport req s
  let s ← saveLocalChecksums deps s
  let info ← sessionInfo deps self s
  let others := s.dataParties.filter (fun p => p ≠ req.clientId ∧ p ≠ self)
  let pending := ⟨req.clientId, 1⟩ ::
    others.map (fun p => (⟨p, deps.exchangeJobInfoRetryTimes self⟩ : Task))
  return ⟨s, info, if req.dryRun then .stopped else .syncing pending false false, some req, false⟩

/-- The broker has to be a member of the project, which is not archived. -/
def validateProject (self : PartyCode) (projectId : String) (db : Database) :
    Except String Project := do
  checkMemberExistInProject db projectId self
  let project ← db.getProject projectId
  if project.archived then throw ("project " ++ projectId ++ " is archived")
  return project

def submitQuery (deps : Deps) (self : PartyCode) (projectId query : String)
    (st refreshed : Database) : Except String Job := do
  ensure (projectId ≠ "" ∧ query ≠ "")
    "request for SubmitQuery is illegal: empty project or query"
  let project ← validateProject self projectId st
  let s ← prepareSession deps self ⟨projectId, query, self⟩ project st refreshed
  let s ← saveLocalChecksums deps s
  let info ← sessionInfo deps self s
  let pending := (s.workParties.filter (· ≠ self)).map (fun p => (⟨p, 1⟩ : Task))
  return ⟨s, info, .syncing pending false false, none, false⟩

def distributeRequest (deps : Deps) (self : PartyCode) (jobId : String) (s : Session)
    (target : PartyCode) : DistributeQueryRequest where
  clientProtocol := version
  projectId := s.job.projectID
  jobId := jobId
  query := s.job.query
  clientId := self
  clientChecksum := if self ∈ s.dataParties then s.checksums.localChecksums.lookup self else none
  serverChecksum :=
    if target ∈ s.dataParties then s.checksums.localChecksums.lookup target else none
  engineEndpoint := deps.endpoint self
  dryRun := false

structure DistributeQueryResponse where
  inconsistent : Bool
  endpoint : String
  checksumResult : ChecksumCompareResult
  expectedServerChecksum : Option Checksum
  deriving DecidableEq

/-- What the handler answers. A data party needs the issuer's checksum of its tables. -/
def distributeResponse (deps : Deps) (self : PartyCode) (job : Job)
    (req : DistributeQueryRequest) : Except String DistributeQueryResponse :=
  if self ∈ job.session.dataParties then do
    let checksum ← job.session.checksums.getLocal self
    match req.serverChecksum with
    | none => throw "nil checksum"
    | some sent =>
      let equalResult := checksum.compareWith sent
      return ⟨equalResult ≠ .EQUAL, deps.endpoint self, equalResult, some checksum⟩
  else .ok ⟨false, deps.endpoint self, .EQUAL, none⟩

inductive Code
  | OK | DATA_INCONSISTENCY | SESSION_NOT_FOUND | NOT_SUPPORTED
  deriving DecidableEq

structure ExchangeJobInfoResponse where
  code : Code
  endpoint : String := ""
  checksumResult : ChecksumCompareResult := .EQUAL
  expectedServerChecksum : Option Checksum := none
  deriving DecidableEq

/-- The handler of an exchange: the session row is compared with what the caller sent. -/
def exchangeJobInfo (db : Database) (projectID : String) (info : Option SessionInfo)
    (serverChecksum : Checksum) : Except String ExchangeJobInfoResponse :=
  match db.getProject projectID with
  | .error e => .error ("ExchangeJobInfo: get project " ++ projectID ++ " err: " ++ e)
  | .ok project =>
    if project.archived then .ok {code := .NOT_SUPPORTED}
    else
      match info with
      | none => .ok {code := .SESSION_NOT_FOUND}
      | some info =>
        let equalResult := info.checksum.compareWith serverChecksum
        .ok ⟨if equalResult = .EQUAL then .OK else .DATA_INCONSISTENCY, info.engineUrl,
          equalResult, some info.checksum⟩

def Job.taskDone (job : Job) (target : PartyCode) (triggered failed : Bool) : Job :=
  match job.phase with
  | .syncing pending t f =>
    { job with phase :=
        .syncing (pending.filter (·.party ≠ target)) (t || triggered) (f || failed)}
  | _ => job

def Job.retry (job : Job) (target : PartyCode) : Job :=
  match job.phase with
  | .syncing pending t f =>
    { job with phase := .syncing (pending.map (fun task =>
        if task.party = target then {task with attempts := task.attempts-1} else task)) t f}
  | _ => job

/-- Save the checksum and the endpoint a party reported. -/
def Job.record (job : Job) (target : PartyCode) (sum : Option Checksum) (endpoint : String) :
    Except String Job := do
  let checksums ← job.session.checksums.saveRemote target sum
  return { job with session := { job.session with
    checksums := checksums
    endpoints := job.session.endpoints.insert target endpoint}}

/-- Compare with what the issuer reported; rows that differ are asked from it. -/
def syncWithIssuer (job : Job) (askFails : Bool) : Job :=
  let issuer := job.session.job.issuer
  if issuer ∉ job.session.dataParties then job.taskDone issuer false false
  else
    match job.session.checksums.compareChecksumFor issuer with
    | .error _ => job.taskDone issuer false true
    | .ok r => job.taskDone issuer (r ≠ .EQUAL) (r ≠ .EQUAL && askFails)

/-- Take the answer to an exchange. The endpoint is saved even if asking for rows fails. -/
def syncWithOtherParty (job : Job) (target : PartyCode) (attempts : ℕ)
    (response : Except String ExchangeJobInfoResponse) (askFails : Bool) : Job :=
  match response with
  | .error _ => job.taskDone target false true
  | .ok r =>
    match r.code with
    | .NOT_SUPPORTED => job.taskDone target false true
    | .SESSION_NOT_FOUND =>
      if attempts ≤ 1 then job.taskDone target false true else job.retry target
    | .OK | .DATA_INCONSISTENCY =>
      match job.record target r.expectedServerChecksum r.endpoint with
      | .error _ => job.taskDone target false true
      | .ok job =>
        job.taskDone target (r.code = .DATA_INCONSISTENCY)
          (r.code = .DATA_INCONSISTENCY && askFails)

def receiveReply (job : Job) (target : PartyCode)
    (response : Except String DistributeQueryResponse) (askFails : Bool) : Job :=
  match response with
  | .error _ => job.taskDone target false true
  | .ok r =>
    if target ∈ job.session.dataParties then
      match job.record target r.expectedServerChecksum r.endpoint with
      | .error _ => job.taskDone target false true
      | .ok job => job.taskDone target r.inconsistent (r.inconsistent && askFails)
    else
      Job.taskDone { job with session := { job.session with
        endpoints := job.session.endpoints.insert target r.endpoint}} target r.inconsistent
        (r.inconsistent && askFails)

/-- All parties were heard from. The issuer gives up after an error; the other brokers log it and
go on, and then do not prepare again. -/
def finishSync (job : Job) : Option Job :=
  match job.phase with
  | .syncing [] triggered failed =>
    if failed then
      if job.request.isNone then some {job with phase := .stopped, syncError := true}
      else some {job with phase := .executing, syncError := true}
    else some { job with
      phase := .executing
      session := { job.session with
        runner := {job.session.runner with prepareAgain := triggered}}}
  | _ => none

/-- The second preparation. The data parties of the session stay those of the first. -/
def reprepare (deps : Deps) (self : PartyCode) (st : Database) (job : Job) : Option Job :=
  if job.phase = .executing ∧ job.session.runner.prepareAgain = true then
    let s := job.session
    match (do
      let prepared ← prepare deps self s.job true s.usedTables st st
      saveLocalChecksums deps {s with runner := prepared.runner}) with
    | .error _ => some {job with phase := .stopped}
    | .ok s => some {job with session := s, phase := .reprepared}
  else none

def recheck (self : PartyCode) (job : Job) : Except String Unit :=
  if job.phase = .reprepared then checkChecksum self job.session else .ok ()

def start (deps : Deps) (self : PartyCode) (job : Job) : Option Job :=
  let s := job.session
  if job.phase = .reprepared ∨ (job.phase = .executing ∧ s.runner.prepareAgain = false) then
    match (do
      recheck self job
      let plan ← deps.compile (s.runner.buildCompileQueryRequest s.job)
      createExecutor deps self s plan
      sessionInfo deps self s) with
    | .error _ => some {job with phase := .stopped}
    | .ok info => some {job with info := info, phase := .running}
  else none

/-- Rows that are asked from other members change the storage as events of their own: `askFails`
says whether asking ended with an error. -/
inductive Event
  | storageChange (self : PartyCode) (st : Database)
  | submit (self : PartyCode) (jobId projectId query : String) (refreshed : Database)
  | distribute (self : PartyCode) (req : DistributeQueryRequest) (refreshed : Database)
  | distributeReply (self target : PartyCode) (jobId : String) (askFails : Bool)
  | syncIssuer (self : PartyCode) (jobId : String) (askFails : Bool)
  | exchange (self target : PartyCode) (jobId : String) (askFails : Bool)
  | callFails (self target : PartyCode) (jobId : String)
  | finish (self : PartyCode) (jobId : String)
  | reprepare (self : PartyCode) (jobId : String)
  | start (self : PartyCode) (jobId : String)

structure System where
  storage : PartyCode → Database
  jobs : PartyCode → String → Option Job

def System.initial (storage : PartyCode → Database) : System := ⟨storage, fun _ _ => none⟩

def System.setJob (σ : System) (self : PartyCode) (jobId : String) (job : Job) : System :=
  {σ with jobs := update σ.jobs self (update (σ.jobs self) jobId (some job))}

/-- The task for a party, if the job still waits for it. -/
def Job.task (job : Job) (target : PartyCode) : Option Task :=
  match job.phase with
  | .syncing pending _ _ => pending.find? (·.party = target)
  | _ => none

def Job.isIssuer (job : Job) : Bool := job.request.isNone

def Job.syncFailed (job : Job) : Bool :=
  match job.phase with
  | .syncing _ _ failed => failed
  | _ => false

/-- Only the answer to the issuer's own request is taken. -/
def replyOf (deps : Deps) (σ : System) (self target : PartyCode) (jobId : String) (job : Job) :
    Option (Except String DistributeQueryResponse) := do
  let targetJob ← σ.jobs target jobId
  let req ← targetJob.request
  guard (req = distributeRequest deps self jobId job.session target)
  return distributeResponse deps target targetJob req

def exchangeOf (σ : System) (target : PartyCode) (jobId : String) (job : Job) (attempts : ℕ) :
    Except String ExchangeJobInfoResponse := do
  let sum ← job.session.checksums.getLocal target
  if attempts = 0 then throw "err response from party"
  exchangeJobInfo (σ.storage target) job.session.job.projectID
    ((σ.jobs target jobId).map (·.info)) sum

def step (deps : Deps) : Event → System → Option System
  | .storageChange self st, σ => some {σ with storage := update σ.storage self st}
  | .submit self jobId projectId query refreshed, σ => do
    guard (σ.jobs self jobId).isNone
    let job ← (submitQuery deps self projectId query (σ.storage self) refreshed).toOption
    return σ.setJob self jobId job
  | .distribute self req refreshed, σ => do
    let job ← (distributeQuery deps self (σ.jobs self req.jobId).isSome (σ.storage self) refreshed
      req).toOption
    return σ.setJob self req.jobId job
  | .distributeReply self target jobId askFails, σ => do
    let job ← σ.jobs self jobId
    guard job.isIssuer
    let _ ← job.task target
    let response ← replyOf deps σ self target jobId job
    return σ.setJob self jobId (receiveReply job target response askFails)
  | .syncIssuer self jobId askFails, σ => do
    let job ← σ.jobs self jobId
    guard (job.isIssuer = false)
    let _ ← job.task job.session.job.issuer
    return σ.setJob self jobId (syncWithIssuer job askFails)
  | .exchange self target jobId askFails, σ => do
    let job ← σ.jobs self jobId
    guard (job.isIssuer = false ∧ target ≠ job.session.job.issuer)
    let task ← job.task target
    return σ.setJob self jobId (syncWithOtherParty job target task.attempts
      (exchangeOf σ target jobId job task.attempts) askFails)
  | .callFails self target jobId, σ => do
    let job ← σ.jobs self jobId
    guard (job.isIssuer ∨ target ≠ job.session.job.issuer)
    let _ ← job.task target
    return σ.setJob self jobId (job.taskDone target false true)
  | .finish self jobId, σ => do
    let job ← σ.jobs self jobId
    let job ← finishSync job
    return σ.setJob self jobId job
  | .reprepare self jobId, σ => do
    let job ← σ.jobs self jobId
    let job ← reprepare deps self (σ.storage self) job
    return σ.setJob self jobId job
  | .start self jobId, σ => do
    let job ← σ.jobs self jobId
    let job ← start deps self job
    return σ.setJob self jobId job

end Scql.Broker
