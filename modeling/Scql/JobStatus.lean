import Scql.EventRuns
import Scql.KeyedTable

/-! # The status of a query job

A broker keeps a row for each job and, once there is one, a row for its result. Jobs are
submitted, started, reported by the engine, watched, cancelled and expired by actors that know of
each other only through these rows. Every transaction of the storage is one event; what an actor
remembers between two of its transactions is part of the state. -/
namespace Scql.Broker.JobStatus

open EventRuns List

inductive SessionStatus
  | Running | Finished | Canceled | Timeout | Failed | Submitted
  deriving DecidableEq

/-- The columns of a row that are written after its creation, besides the time stamps. -/
structure SessionInfo where
  sessionID : String
  status : SessionStatus := .Running
  outputNames : String := ""
  warning : String := ""
  deriving DecidableEq

structure SessionResult where
  sessionID : String
  code : ℤ
  deriving DecidableEq

abbrev SessionInfos := KeyedTable SessionInfo.sessionID

abbrev SessionResults := KeyedTable SessionResult.sessionID

def codeOK : ℤ := 0

def codeInternal : ℤ := 300

def codeEngineRunSQLError : ℤ := 332

/-- What may be wrong with a report that has the status OK. -/
inductive ReportDefect
  | columnsShape | resultSchemas | warning
  deriving DecidableEq

/-- A call of `Report` that found the job unfinished and now stores its response. `again` is set
for the second attempt. -/
structure PendingReport where
  jobId : String
  code : ℤ
  again : Bool := false
  deriving DecidableEq

/-- The two tables, the calls in flight, and two histories: the jobs whose engine reported an
error, and the jobs for which a result was stored. `tick` holds the jobs a tick of the watcher
has collected and those it has found dead so far. -/
structure State where
  infos : SessionInfos
  results : SessionResults
  reports : List PendingReport := []
  cancels : List String := []
  tick : Option (List String × List String) := none
  engineErrors : List String := []
  delivered : List String := []

def init : State where
  infos := .empty
  results := .empty

inductive Event
  | addSession (info : SessionInfo)
  | updateSession (info : SessionInfo)
  /-- An asynchronous job has been handed to the engine. -/
  | markRunning (sessionID : String)
  | report (jobId : String) (code : ℤ) (defect : Option ReportDefect)
  /-- A pending report stores its response; `committed` is false if the database fails. -/
  | storeReport (i : ℕ) (committed : Bool)
  | collectJobs
  | onJobDead (jobId : String) (committed : Bool)
  | finishTick (committed : Bool)
  | cancelQuery (jobId : String)
  | cancelSession (i : ℕ) (committed : Bool)
  | fetchResult (jobId : String)
  /-- `cleared` are the results that go, of the jobs that have expired. -/
  | clearExpired (expired cleared : List String)
  deriving DecidableEq

/-- `Updates` with a struct does not write a column whose new value is the zero value, which
for the status is `Running`. -/
def SessionInfo.updates (row info : SessionInfo) : SessionInfo :=
  { row with
    status := if info.status = .Running then row.status else info.status
    outputNames := if info.outputNames = "" then row.outputNames else info.outputNames
    warning := if info.warning = "" then row.warning else info.warning}

lemma SessionInfo.updates_sessionID (row info : SessionInfo) :
  (row.updates info).sessionID = row.sessionID := rfl

def SessionInfo.setStatus (status : SessionStatus) (row : SessionInfo) : SessionInfo :=
  {row with status}

lemma SessionInfo.setStatus_sessionID (status : SessionStatus) (row : SessionInfo) :
  (row.setStatus status).sessionID = row.sessionID := rfl

/-- `Where` with a struct: an empty id does not restrict the rows. -/
def SessionInfo.matchesID (sessionID : String) (row : SessionInfo) : Bool :=
  sessionID = "" ∨ row.sessionID = sessionID

def getSessionInfo (infos : SessionInfos) (sessionID : String) : Option SessionInfo :=
  infos.find? sessionID

def updateSessionInfo (infos : SessionInfos) (info : SessionInfo) : Option SessionInfos := do
  guard (info.sessionID ≠ "")
  return infos.updateWhere (·.matchesID info.sessionID) (·.updates info)
    (fun row => row.updates_sessionID info)

def updateSessionInfoStatusWithCondition (infos : SessionInfos) (sessionID : String)
    (conditionStatus targetStatus : SessionStatus) : SessionInfos :=
  infos.updateWhere
    (fun row => row.matchesID sessionID ∧
      (conditionStatus = .Running ∨ row.status = conditionStatus))
    (·.setStatus targetStatus) (fun row => row.setStatus_sessionID _)

def setMultipleSessionStatus (infos : SessionInfos) (ids : List String) (status : SessionStatus) :
    SessionInfos :=
  infos.updateWhere (fun row => row.sessionID ∈ ids)
    (fun row => row.updates {sessionID := row.sessionID, status})
    (fun row => row.updates_sessionID _)

def setSessionStatus (infos : SessionInfos) (sessionID : String) (status : SessionStatus) :
    SessionInfos :=
  setMultipleSessionStatus infos [sessionID] status

/-- `MetaTransaction.SetSessionResult` sets the status once more. -/
def setSessionResultRow (infos : SessionInfos) (results : SessionResults) (sr : SessionResult) :
    Option (SessionInfos × SessionResults) := do
  guard (sr.sessionID ≠ "")
  let infos := infos.updateWhere (·.matchesID sr.sessionID) (·.setStatus .Finished)
    (fun row => row.setStatus_sessionID _)
  let results ← results.insert sr
  return (infos, results)

def clearSessionResult (infos : SessionInfos) (results : SessionResults) (sessionID : String) :
    Option (SessionInfos × SessionResults) := do
  guard (sessionID ≠ "")
  return (infos.updateWhere (·.matchesID sessionID) (·.setStatus .Canceled)
      (fun row => row.setStatus_sessionID _),
    results.deleteWhere (·.sessionID = sessionID))

def getWatchedJobs (infos : SessionInfos) : List String :=
  (infos.rows.filter (·.status = .Running)).map (·.sessionID)

/-- `ClearExpiredSessions`: a limited number of expired results is deleted, all expired rows get
the status. -/
def clearExpiredSessions (infos : SessionInfos) (results : SessionResults)
    (expired cleared : List String) : SessionInfos × SessionResults :=
  (infos.updateWhere (fun row => row.sessionID ∈ expired ∧ row.status ≠ .Timeout)
      (·.setStatus .Timeout) (fun row => row.setStatus_sessionID _),
    results.deleteWhere (fun r => r.sessionID ∈ expired ∧ r.sessionID ∈ cleared))

/-- A transaction that fails leaves no trace. -/
def transact {α : Type} (committed : Bool) (effect : Option α) : Option α :=
  if committed then effect else none

def setSessionResult (s : State) (sid : String) (code : ℤ) : Option State := do
  let info ← getSessionInfo s.infos sid
  guard (info.status = .Running ∨ info.status = .Submitted)
  let infos := setSessionStatus s.infos sid (if code = codeOK then .Finished else .Failed)
  let (infos, results) ← setSessionResultRow infos s.results {sessionID := sid, code}
  return {s with infos, results, delivered := sid::s.delivered}

def ReportDefect.code : ReportDefect → ℤ
  | .columnsShape => codeEngineRunSQLError
  | .resultSchemas | .warning => codeInternal

/-- The code of the response that `Report` stores. -/
def responseCode (code : ℤ) (defect : Option ReportDefect) : ℤ :=
  if code ≠ codeOK then code else (defect.map ReportDefect.code).getD code

def State.noteError (s : State) (jobId : String) (code : ℤ) : State :=
  if code = codeOK then s else {s with engineErrors := jobId::s.engineErrors}

def report (s : State) (jobId : String) (code : ℤ) (defect : Option ReportDefect) :
  Option State := do
  guard (jobId ≠ "")
  let info ← getSessionInfo s.infos jobId
  let s := s.noteError jobId code
  match info.status with
  | .Running | .Submitted =>
    return {s with reports := ⟨jobId, responseCode code defect, false⟩::s.reports}
  | _ => return s

/-- The deferred part of `Report`: if the response is not stored, an error is, once. -/
def storeReport (s : State) (r : PendingReport) (committed : Bool) : State :=
  match transact committed (setSessionResult s r.jobId r.code) with
  | some s => s
  | none => if r.again then s else {s with reports := ⟨r.jobId, codeInternal, true⟩::s.reports}

def onJobDead (s : State) (jobId : String) (committed : Bool) : State :=
  (transact committed (setSessionResult s jobId codeInternal)).getD s

/-- `CancelQuery` and `CancelQueryJob` up to the status check. -/
def cancelQuery (s : State) (jobId : String) : Option State := do
  guard (jobId ≠ "")
  let info ← getSessionInfo s.infos jobId
  if info.status = .Canceled then return s
  else return {s with cancels := jobId::s.cancels}

def cancelSession (s : State) (sid : String) (committed : Bool) : State :=
  match transact committed (clearSessionResult s.infos s.results sid) with
  | some (infos, results) => {s with infos, results}
  | none => s

def step : Event → State → Option State
  | .addSession info, s => do
    let infos ← s.infos.insert {info with status := .Submitted}
    return {s with infos}
  | .updateSession info, s => do
    -- `sessionInfo` leaves the status zero
    let infos ← updateSessionInfo s.infos {info with status := .Running}
    return {s with infos}
  | .markRunning sessionID, s =>
    some { s with
      infos := updateSessionInfoStatusWithCondition s.infos sessionID .Submitted .Running}
  | .report jobId code defect, s => report s jobId code defect
  | .storeReport i committed, s => do
    let r ← s.reports[i]?
    return storeReport {s with reports := s.reports.eraseIdx i} r committed
  | .collectJobs, s => do
    guard s.tick.isNone
    return {s with tick := some (getWatchedJobs s.infos, [])}
  | .onJobDead jobId committed, s => do
    let (watched, failed) ← s.tick
    guard (jobId ∈ watched ∧ jobId ∉ failed)
    return {onJobDead s jobId committed with tick := some (watched, failed ++ [jobId])}
  | .finishTick committed, s => do
    let (_, failed) ← s.tick
    let infos := if committed then setMultipleSessionStatus s.infos failed .Failed else s.infos
    return {s with infos, tick := none}
  | .cancelQuery jobId, s => cancelQuery s jobId
  | .cancelSession i committed, s => do
    let sid ← s.cancels[i]?
    return cancelSession {s with cancels := s.cancels.eraseIdx i} sid committed
  | .fetchResult _, s => some s
  | .clearExpired expired cleared, s =>
    let (infos, results) := clearExpiredSessions s.infos s.results expired cleared
    some {s with infos, results}

/-- What the results about one job speak of: its status, whether a result is stored, whether one
ever was, and whether its engine reported an error. -/
structure View where
  status : Option SessionStatus
  stored : Bool
  delivered : Bool
  engineError : Bool
  deriving DecidableEq

def statusOf (infos : SessionInfos) (id : String) : Option SessionStatus :=
  (infos.find? id).map (·.status)

def State.view (s : State) (id : String) : View where
  status := statusOf s.infos id
  stored := (s.results.find? id).isSome
  delivered := id ∈ s.delivered
  engineError := id ∈ s.engineErrors

/-- All that one event can do to a job. `failing` tells when the watcher may mark it, `reported`
when its engine may report an error. -/
inductive Change (failing reported : Prop) : View → View → Prop
  | same (v : View) : Change failing reported v v
  | reported (h : reported) (v : View) : Change failing reported v {v with engineError := true}
  | added (v : View) (h : v.status = none) :
    Change failing reported v {v with status := some .Submitted}
  | started (v : View) (h : v.status = some .Submitted) :
    Change failing reported v {v with status := some .Running}
  | stored (v : View) (h : v.status = some .Running ∨ v.status = some .Submitted) :
    Change failing reported v {v with status := some .Finished, stored := true, delivered := true}
  | cancelled (v : View) :
    Change failing reported v {v with status := v.status.map fun _ => .Canceled, stored := false}
  | failed (h : failing) (v : View) :
    Change failing reported v {v with status := v.status.map fun _ => .Failed}
  | expired (v : View) (r : Bool) (h : r → v.stored) :
    Change failing reported v {v with status := v.status.map fun _ => .Timeout, stored := r}

variable {f r : Prop}

lemma Change.mono {f' r' : Prop} {v v' : View} (hf : f → f') (hr : r → r') (h : Change f r v v') :
  Change f' r' v v' := by
  cases h with
  | same => exact .same _
  | reported h => exact .reported (hr h) _
  | added _ h => exact .added _ h
  | started _ h => exact .started _ h
  | stored _ h => exact .stored _ h
  | cancelled => exact .cancelled _
  | failed h => exact .failed (hf h) _
  | expired _ r h => exact .expired _ r h

lemma Change.congr {v v' w : View} (h : Change f r v w) (hw : v' = w) : Change f r v v' :=
  hw ▸ h

variable {infos infos' : SessionInfos} {results results' : SessionResults} {id sid : String}

variable {p : SessionInfo → Bool} {s' : State}

lemma statusOf_updateWhere {f : SessionInfo → SessionInfo}
  {hf : ∀ a, (f a).sessionID = a.sessionID} :
  statusOf (infos.updateWhere p f hf) id =
    (infos.find? id).map (fun row => (if p row then f row else row).status) := by
  rw [statusOf, KeyedTable.find?_updateWhere, Option.map_map]
  rfl

variable {st : SessionStatus}

lemma statusOf_updateWhere_of_id {f : SessionInfo → SessionInfo}
  {hf : ∀ a, (f a).sessionID = a.sessionID} {q : Prop} [Decidable q]
  (hp : ∀ row : SessionInfo, row.sessionID = id → (p row ↔ q)) (hst : ∀ row, (f row).status = st) :
  statusOf (infos.updateWhere p f hf) id =
    if q then (statusOf infos id).map (fun _ => st) else statusOf infos id := by
  rw [statusOf_updateWhere, statusOf]
  cases hrow : infos.find? id with
  | none => simp
  | some row =>
    have hkey := hp row (KeyedTable.key_of_find? hrow)
    by_cases hq : q <;> simp [hq, hkey, hst]

lemma statusOf_updateSessionInfo {info : SessionInfo}
  (h : updateSessionInfo infos {info with status := .Running} = some infos') :
  statusOf infos' id = statusOf infos id := by
  obtain ⟨-, -, h⟩ := Option.bind_eq_some_iff.mp h
  cases h
  rw [statusOf_updateWhere, statusOf]
  congr 1
  funext row
  split <;> rfl

lemma statusOf_setMultipleSessionStatus {ids : List String}
  (hst : st ≠ .Running) : statusOf (setMultipleSessionStatus infos ids st) id =
    if id ∈ ids then (statusOf infos id).map (fun _ => st) else statusOf infos id :=
  statusOf_updateWhere_of_id (by rintro row rfl; simp) (by simp [SessionInfo.updates, hst])

lemma matchesID_iff {row : SessionInfo} (hsid : sid ≠ "") (hrow : row.sessionID = id) :
  row.matchesID sid ↔ id = sid := by
  simp [SessionInfo.matchesID, hsid, hrow]

lemma setSessionResultRow_eq_some {sr : SessionResult}
  (h : setSessionResultRow infos results sr = some (infos', results')) :
  (∀ id, statusOf infos' id = if id = sr.sessionID then
    (statusOf infos id).map (fun _ => .Finished) else statusOf infos id) ∧
  results.insert sr = some results' := by
  obtain ⟨_, hsid, h⟩ := Option.bind_eq_some_iff.mp h
  obtain ⟨t, ht, h⟩ := Option.bind_eq_some_iff.mp h
  cases h
  exact ⟨fun id => statusOf_updateWhere_of_id
    (fun _ => matchesID_iff (guard_eq_some.mp hsid)) (fun _ => rfl), ht⟩

lemma clearSessionResult_eq_some
    (h : clearSessionResult infos results sid = some (infos', results')) :
  (∀ id, statusOf infos' id = if id = sid then
    (statusOf infos id).map (fun _ => .Canceled) else statusOf infos id) ∧
  results' = results.deleteWhere (·.sessionID = sid) := by
  obtain ⟨_, hsid, h⟩ := Option.bind_eq_some_iff.mp h
  cases h
  exact ⟨fun id => statusOf_updateWhere_of_id
    (fun _ => matchesID_iff (guard_eq_some.mp hsid)) (fun _ => rfl), rfl⟩

lemma stored_deleteWhere (results : SessionResults) (id : String) {p : SessionResult → Bool}
  {q : Prop} [Decidable q] (hp : ∀ r : SessionResult, r.sessionID = id → (p r ↔ q)) :
  ((results.deleteWhere p).find? id).isSome = (!decide q && (results.find? id).isSome) := by
  rw [KeyedTable.find?_deleteWhere]
  cases hrow : results.find? id with
  | none => simp
  | some row =>
    have hkey := hp row (KeyedTable.key_of_find? hrow)
    by_cases hq : q
    · simp [hq, hkey.mpr hq]
    · simp [hq, Bool.eq_false_iff.mpr (mt hkey.mp hq)]

variable {s : State}

lemma setSessionResult_view {code : ℤ} (h : setSessionResult s sid code = some s') :
  ((s.view sid).status = some .Running ∨ (s.view sid).status = some .Submitted) ∧
  ∀ id, s'.view id = if id = sid then
    {s.view id with status := some .Finished, stored := true, delivered := true}
      else s.view id := by
  obtain ⟨info, hinfo, h⟩ := Option.bind_eq_some_iff.mp h
  obtain ⟨_, hlive, h⟩ := Option.bind_eq_some_iff.mp h
  obtain ⟨⟨infos, results⟩, hrow, h⟩ := Option.bind_eq_some_iff.mp h
  rw [getSessionInfo] at hinfo
  cases h
  obtain ⟨hstatus, hresults⟩ := setSessionResultRow_eq_some hrow
  have hne : (if code = codeOK then SessionStatus.Finished else .Failed) ≠ .Running := by
    split <;> decide
  have hfrom : statusOf s.infos sid = some info.status := by simp [statusOf, hinfo]
  refine ⟨by simpa [State.view, hfrom] using guard_eq_some.mp hlive, fun id => ?_⟩
  by_cases hid : id = sid
  · subst hid
    simp [State.view, hstatus, setSessionStatus, statusOf_setMultipleSessionStatus hne,
      KeyedTable.find?_insert hresults, hfrom]
  · simp [State.view, hstatus, setSessionStatus, statusOf_setMultipleSessionStatus hne,
      KeyedTable.find?_insert hresults, hid, Ne.symm hid]

lemma setSessionResult_change {code : ℤ} (h : setSessionResult s sid code = some s')
  (id : String) : Change f r (s.view id) (s'.view id) := by
  obtain ⟨hlive, hview⟩ := setSessionResult_view h
  rw [hview id]
  split
  · next hid =>
    subst hid
    exact .stored _ hlive
  · exact .same _

lemma view_congr (hinfos : s'.infos = s.infos) (hresults : s'.results = s.results)
  (hdelivered : s'.delivered = s.delivered) (herrors : s'.engineErrors = s.engineErrors)
  (id : String)
  : s'.view id = s.view id := by
  simp only [State.view, hinfos, hresults, hdelivered, herrors]

lemma transact_eq_some {α : Type} {committed : Bool} {effect : Option α} {a : α}
  (h : transact committed effect = some a) : effect = some a := by
  rw [transact] at h
  split at h
  · exact h
  · cases h

lemma storeReport_change (s : State) (p : PendingReport) (committed : Bool) (id : String) :
  Change f r (s.view id) ((storeReport s p committed).view id) := by
  rw [storeReport]
  split
  · next h => exact setSessionResult_change (transact_eq_some h) id
  · split
    · exact .same _
    · rw [view_congr rfl rfl rfl rfl id (s := s)]
      exact .same _

lemma onJobDead_change (s : State) (jobId : String) (committed : Bool) (id : String) :
  Change f r (s.view id) ((onJobDead s jobId committed).view id) := by
  rw [onJobDead]
  cases h : transact committed (setSessionResult s jobId codeInternal) with
  | none => exact .same _
  | some s' => exact setSessionResult_change (transact_eq_some h) id

lemma cancelSession_change (s : State) (sid : String) (committed : Bool) (id : String) :
  Change f r (s.view id) ((cancelSession s sid committed).view id) := by
  rw [cancelSession]
  split
  · next infos results h =>
    obtain ⟨hstatus, rfl⟩ := clearSessionResult_eq_some (transact_eq_some h)
    have hstored := stored_deleteWhere s.results id (p := (·.sessionID = sid)) (q := id = sid)
      (by rintro r rfl; simp)
    by_cases hid : id = sid
    · refine (Change.cancelled _).congr ?_
      simp only [State.view, hstatus, hstored, if_pos hid, decide_eq_true hid, Bool.not_true,
        Bool.false_and]
    · refine (Change.same _).congr ?_
      simp only [State.view, hstatus, hstored, if_neg hid, decide_eq_false hid, Bool.not_false,
        Bool.true_and]
  · exact .same _

lemma statusOf_clearExpiredSessions (expired cleared : List String) :
  statusOf (clearExpiredSessions infos results expired cleared).1 id =
    if id ∈ expired then (statusOf infos id).map (fun _ => .Timeout) else statusOf infos id := by
  rw [clearExpiredSessions, statusOf_updateWhere, statusOf]
  cases hrow : infos.find? id with
  | none => simp
  | some row =>
    have hkey : row.sessionID = id := KeyedTable.key_of_find? hrow
    by_cases hid : id ∈ expired <;> by_cases ht : row.status = .Timeout <;>
      simp [hkey, hid, ht, SessionInfo.setStatus]

lemma stored_clearExpiredSessions (expired cleared : List String) :
  ((clearExpiredSessions infos results expired cleared).2.find? id).isSome =
    (!decide (id ∈ expired ∧ id ∈ cleared) && (results.find? id).isSome) :=
  stored_deleteWhere results id (by rintro r rfl; simp)

lemma clearExpired_change (s : State) (expired cleared : List String) (id : String) :
  Change f r (s.view id) (State.view { s with
    infos := (clearExpiredSessions s.infos s.results expired cleared).1
    results := (clearExpiredSessions s.infos s.results expired cleared).2} id) := by
  by_cases hid : id ∈ expired
  · refine (Change.expired _ (!decide (id ∈ cleared) && (s.view id).stored) (by simp)).congr ?_
    simp [State.view, statusOf_clearExpiredSessions, stored_clearExpiredSessions, hid]
  · refine (Change.same _).congr ?_
    simp [State.view, statusOf_clearExpiredSessions, stored_clearExpiredSessions, hid]

def failing : Event → State → List String
  | .finishTick true, s => (s.tick.map (·.2)).getD []
  | _, _ => []

def ReportsError : Event → String → Prop
  | .report jobId code _, id => id = jobId ∧ code ≠ codeOK
  | _, _ => False

lemma view_noteError (s : State) (jobId : String) (code : ℤ) (id : String) :
  (s.noteError jobId code).view id =
    if id = jobId ∧ code ≠ codeOK then {s.view id with engineError := true} else s.view id := by
  rw [State.noteError]
  by_cases hcode : code = codeOK
  · simp [hcode]
  · by_cases hid : id = jobId <;> simp [State.view, hcode, hid]

variable {s : State} {v v' : View} {jobId : String} {defect : Option ReportDefect}

lemma report_view {code : ℤ} (h : report s jobId code defect = some s') (id : String) :
  s'.view id = (s.noteError jobId code).view id := by
  obtain ⟨-, -, h⟩ := Option.bind_eq_some_iff.mp h
  obtain ⟨info, -, h⟩ := Option.bind_eq_some_iff.mp h
  split at h <;> cases h <;> rfl

lemma report_change {code : ℤ} (h : report s jobId code defect = some s') (id : String) :
  Change f (ReportsError (.report jobId code defect) id) (s.view id) (s'.view id) := by
  rw [report_view h, view_noteError]
  split
  · next hrep => exact .reported hrep _
  · exact .same _

lemma cancelQuery_view (h : cancelQuery s jobId = some s') (id : String) :
  s'.view id = s.view id := by
  obtain ⟨-, -, h⟩ := Option.bind_eq_some_iff.mp h
  obtain ⟨info, -, h⟩ := Option.bind_eq_some_iff.mp h
  split at h <;> cases h <;> rfl

lemma markRunning_change (s : State) (sid id : String) : Change f r (s.view id) (State.view { s with
    infos := updateSessionInfoStatusWithCondition s.infos sid .Submitted .Running} id) := by
  by_cases hmark : ∃ row, s.infos.find? id = some row ∧ row.matchesID sid ∧ row.status = .Submitted
  · obtain ⟨row, hrow, hmatch, hst⟩ := hmark
    refine (Change.started _ (by simp [State.view, statusOf, hrow, hst])).congr ?_
    simp [State.view, updateSessionInfoStatusWithCondition, statusOf_updateWhere, hrow, hmatch, hst,
      SessionInfo.setStatus]
  · refine (Change.same _).congr ?_
    have hstatus : statusOf (updateSessionInfoStatusWithCondition s.infos sid .Submitted .Running)
        id = statusOf s.infos id := by
      rw [updateSessionInfoStatusWithCondition, statusOf_updateWhere, statusOf]
      refine Option.map_congr fun row hrow => ?_
      have hskip : ¬(row.matchesID sid ∧ row.status = .Submitted) := fun h => hmark ⟨row, hrow, h⟩
      simp [hskip]
    simp only [State.view, hstatus]

lemma step_change {e : Event} (h : step e s = some s') (id : String) :
  Change (id ∈ failing e s) (ReportsError e id) (s.view id) (s'.view id) := by
  cases e with
  | addSession info =>
    obtain ⟨infos, hinsert, h⟩ := Option.bind_eq_some_iff.mp h
    cases h
    by_cases hid : info.sessionID = id
    · have hnone : statusOf s.infos id = none := by
        rw [statusOf, ← hid]
        exact congrArg (Option.map _) (KeyedTable.find?_of_insert hinsert)
      refine (Change.added _ hnone).congr ?_
      simp [State.view, statusOf, KeyedTable.find?_insert hinsert, hid]
    · refine (Change.same _).congr ?_
      simp [State.view, statusOf, KeyedTable.find?_insert hinsert, hid]
  | updateSession info =>
    obtain ⟨infos, hupdate, h⟩ := Option.bind_eq_some_iff.mp h
    cases h
    refine (Change.same _).congr ?_
    simp [State.view, statusOf_updateSessionInfo hupdate]
  | markRunning sid =>
    cases h
    exact markRunning_change s sid id
  | report jobId code defect => exact report_change h id
  | storeReport i committed =>
    obtain ⟨r, -, h⟩ := Option.bind_eq_some_iff.mp h
    cases h
    exact storeReport_change {s with reports := s.reports.eraseIdx i} r committed id
  | collectJobs =>
    obtain ⟨-, -, h⟩ := Option.bind_eq_some_iff.mp h
    cases h
    exact .same _
  | onJobDead jobId committed =>
    obtain ⟨⟨watched, failed⟩, -, h⟩ := Option.bind_eq_some_iff.mp h
    obtain ⟨-, -, h⟩ := Option.bind_eq_some_iff.mp h
    cases h
    exact onJobDead_change s jobId committed id
  | finishTick committed =>
    obtain ⟨⟨watched, failed⟩, htick, h⟩ := Option.bind_eq_some_iff.mp h
    cases h
    cases committed with
    | false => exact .same _
    | true =>
      by_cases hid : id ∈ failed
      · refine (Change.failed (by simpa [failing, htick] using hid) _).congr ?_
        simp [State.view, statusOf_setMultipleSessionStatus, hid]
      · refine (Change.same _).congr ?_
        simp [State.view, statusOf_setMultipleSessionStatus, hid]
  | cancelQuery jobId =>
    rw [cancelQuery_view h]
    exact .same _
  | cancelSession i committed =>
    obtain ⟨sid, -, h⟩ := Option.bind_eq_some_iff.mp h
    cases h
    exact cancelSession_change {s with cancels := s.cancels.eraseIdx i} sid committed id
  | fetchResult jobId =>
    cases h
    exact .same _
  | clearExpired expired cleared =>
    cases h
    exact clearExpired_change s expired cleared id

/-- The three statuses in which a job can take no result. -/
def Refusing (st : Option SessionStatus) : Prop :=
  st = some .Failed ∨ st = some .Canceled ∨ st = some .Timeout

instance (st : Option SessionStatus) : Decidable (Refusing st) :=
  inferInstanceAs (Decidable (_ ∨ _))

/-- An engine reports an error only for a job that takes no result any more, and the watcher
marks no job for which a result was stored. -/
def Quiet (e : Event) (s : State) : Prop :=
  match e with
  | .report jobId code _ => code ≠ codeOK → Refusing (s.view jobId).status
  | .finishTick _ => ∀ id ∈ (s.tick.map (·.2)).getD [], id ∉ s.delivered
  | _ => True

instance (e : Event) (s : State) : Decidable (Quiet e s) := by
  unfold Quiet
  split <;> infer_instance

lemma step_change_of_quiet {e : Event} (hq : Quiet e s) (h : step e s = some s') (id : String) :
  Change ((s.view id).delivered = false) (Refusing (s.view id).status)
    (s.view id) (s'.view id) := by
  refine (step_change h id).mono (fun hfail => ?_) (fun hrep => ?_)
  · cases e with
    | finishTick committed =>
      cases committed with
      | false => exact absurd hfail not_mem_nil
      | true => simpa [State.view] using hq id hfail
    | _ => exact absurd hfail not_mem_nil
  · cases e with
    | report jobId code defect =>
      obtain ⟨rfl, hcode⟩ := hrep
      exact hq hcode
    | _ => exact hrep.elim

variable {P : View → Prop} {es : List Event} {id : String}

lemma run_keeps (hP : ∀ v v', Change True True v v' → P v → P v')
  (hrun : run step es s = some s') (hs : P (s.view id)) : P (s'.view id) :=
  run_invariant (C := fun _ _ => True) (P := fun s => P (s.view id)) (fun _ _ _ _ hs h =>
      hP _ _ ((step_change h id).mono (fun _ => trivial) (fun _ => trivial)) hs)
    (along_of_forall (fun _ _ => trivial) _ _) hs hrun

lemma run_keeps_of_quiet (hP : ∀ v v', Change (v.delivered = false) (Refusing v.status) v v' → P v →
    P v')
  (hq : Along step Quiet es s) (hrun : run step es s = some s') (hs : P (s.view id)) :
    P (s'.view id) :=
  run_invariant (P := fun s => P (s.view id))
    (fun _ _ _ hq hs h => hP _ _ (step_change_of_quiet hq h id) hs) hq hs hrun

/-- A job that has reached an end does not become live again. -/
def Ended (st : Option SessionStatus) : Prop := st = some .Finished ∨ Refusing st

lemma Change.ended (h : Change f r v v') (hv : Ended v.status) : Ended v'.status := by
  cases h with
  | same | reported => exact hv
  | added _ hnone => simp [hnone, Ended, Refusing] at hv
  | started _ hsub => simp [hsub, Ended, Refusing] at hv
  | stored => exact .inl rfl
  | cancelled | failed | expired =>
    rcases hv with hv | hv | hv | hv <;> simp [hv, Ended, Refusing]

lemma Change.refusing (h : Change f r v v') (hv : Refusing v.status ∧ v.stored = false) :
  Refusing v'.status ∧ v'.stored = false := by
  obtain ⟨hv, hst⟩ := hv
  cases h with
  | same | reported => exact ⟨hv, hst⟩
  | added _ hnone => simp [hnone, Refusing] at hv
  | started _ hsub => simp [hsub, Refusing] at hv
  | stored _ hlive => rcases hv with hv | hv | hv <;> simp [hv] at hlive
  | cancelled | failed => rcases hv with hv | hv | hv <;> simp [hv, hst, Refusing]
  | expired _ r hr =>
    have : r = false := by simpa [hst] using hr
    rcases hv with hv | hv | hv <;> simp [hv, this, Refusing]

/-- The histories of a quiet run: a job whose engine reported an error refuses results, a job
that had a result is not failed. -/
structure Settled (v : View) : Prop where
  engineError : v.engineError → Refusing v.status
  stored : v.stored → v.delivered
  delivered : v.delivered →
    v.status = some .Finished ∨ v.status = some .Canceled ∨ v.status = some .Timeout

lemma Settled.change (hv : Settled v) (h : Change (v.delivered = false) (Refusing v.status) v v')
  : Settled v' := by
  cases h with
  | same => exact hv
  | reported hrefusing => exact ⟨fun _ => hrefusing, hv.stored, hv.delivered⟩
  | added _ hnone | started _ hnone =>
    refine ⟨fun herr => ?_, hv.stored, fun hdel => ?_⟩
    · simpa [hnone, Refusing] using hv.engineError herr
    · simpa [hnone] using hv.delivered hdel
  | stored _ hlive =>
    refine ⟨fun herr => ?_, fun _ => rfl, fun _ => .inl rfl⟩
    rcases hv.engineError herr with h | h | h <;> simp [h] at hlive
  | cancelled =>
    refine ⟨fun herr => ?_, by simp, fun hdel => ?_⟩
    · rcases hv.engineError herr with h | h | h <;> simp [h, Refusing]
    · rcases hv.delivered hdel with h | h | h <;> simp [h]
  | failed hdel =>
    refine ⟨fun herr => ?_, hv.stored, by simp [hdel]⟩
    rcases hv.engineError herr with h | h | h <;> simp [h, Refusing]
  | expired _ r hr =>
    refine ⟨fun herr => ?_, fun h => hv.stored (hr h), fun hdel => ?_⟩
    · rcases hv.engineError herr with h | h | h <;> simp [h, Refusing]
    · rcases hv.delivered hdel with h | h | h <;> simp [h]

lemma Change.delivered (h : Change f r v v') (hv : v.delivered = true) : v'.delivered = true := by
  cases h <;> first | exact hv | rfl

lemma Change.canceled (h : Change f r v v') (hv : v.status = some .Canceled → v.stored = false) :
  v'.status = some .Canceled → v'.stored = false := by
  cases h with
  | same | reported => exact hv
  | added | started | stored => simp
  | cancelled => exact fun _ => rfl
  | failed | expired => simp

/-- From any point of any run: a job that has ended is not live again, and a cancelled job gets
neither finished nor a result. In a quiet run, moreover, a job whose engine reported an error is
`Failed`, `Canceled` or `Timeout`, and a finished job with a result never fails. -/
theorem jobs_settle {es es' : List Event} {s₁ s₂ : State} (h₁ : run step es init = some s₁)
  (h₂ : run step es' s₁ = some s₂) (id : String) :
  ((s₁.view id).status ∈ [some .Finished, some .Failed, some .Canceled] →
    (s₂.view id).status ∉ [some .Submitted, some .Running]) ∧
  ((s₁.view id).status = some .Canceled →
    (s₂.view id).status ≠ some .Finished ∧ (s₂.view id).stored = false) ∧
  (Along step Quiet (es ++ es') init →
    ((s₁.view id).engineError → Refusing (s₁.view id).status) ∧
    ((s₁.view id).status = some .Finished → (s₁.view id).stored →
      (s₂.view id).status ≠ some .Failed)) := by
  refine ⟨fun hended => ?_, fun hcanceled => ?_, fun hquiet => ?_⟩
  · have h : Ended (s₁.view id).status := by
      simp only [mem_cons, not_mem_nil, or_false] at hended
      rcases hended with h | h | h <;> simp [h, Ended, Refusing]
    have h : Ended (s₂.view id).status :=
      run_keeps (P := fun v => Ended v.status) (fun _ _ => Change.ended) h₂ h
    rcases h with h | h | h | h <;> simp [h]
  · have hstored : (s₁.view id).stored = false :=
      run_keeps (P := fun v => v.status = some .Canceled → v.stored = false)
        (fun _ _ => Change.canceled) h₁ (by simp [State.view, statusOf, init]) hcanceled
    obtain ⟨h, hstored⟩ :=
      run_keeps (fun _ _ => Change.refusing) h₂ ⟨.inr (.inl hcanceled), hstored⟩
    refine ⟨?_, hstored⟩
    rcases h with h | h | h <;> simp [h]
  · obtain ⟨hq₁, hq₂⟩ := along_append hquiet h₁
    have hs₁ : Settled (s₁.view id) :=
      run_keeps_of_quiet (fun _ _ h hv => hv.change h) hq₁ h₁ ⟨by simp [State.view, init],
        by simp [State.view, init], by simp [State.view, init]⟩
    have hs₂ : Settled (s₂.view id) :=
      run_keeps_of_quiet (fun _ _ h hv => hv.change h) hq₂ h₂ hs₁
    refine ⟨hs₁.engineError, fun _ hstored => ?_⟩
    have hdel : (s₂.view id).delivered = true :=
      run_keeps (P := fun v => v.delivered = true) (fun _ _ => Change.delivered) h₂
        (hs₁.stored hstored)
    rcases hs₂.delivered hdel with h | h | h <;> simp [h]

/-- One job finishes with a result, another is cancelled before its engine reports an error. -/
def quietStart : List Event :=
  [.addSession ⟨"a", .Running, "", ""⟩, .addSession ⟨"b", .Running, "", ""⟩, .markRunning "a",
    .report "a" codeOK none, .storeReport 0 true, .cancelQuery "b", .cancelSession 0 true,
    .report "b" codeInternal none]

def quietEnd : List Event :=
  [.collectJobs, .fetchResult "a", .finishTick true]

theorem jobs_settle_quietRun : ∃ s₁ s₂, run step quietStart init = some s₁ ∧
  run step quietEnd s₁ = some s₂ ∧ (s₁.view "a").status = some .Finished ∧
  (s₁.view "a").stored = true ∧ (s₂.view "a").status ≠ some .Failed := by
  have hview :
    (run step quietStart init).map (fun s => ((s.view "a").status, (s.view "a").stored)) =
      some (some .Finished, true) := by decide
  obtain ⟨s₁, h₁, hview⟩ := Option.map_eq_some_iff.mp hview
  have hend : (run step (quietStart ++ quietEnd) init).isSome := by decide
  rw [run_append, h₁] at hend
  obtain ⟨s₂, h₂⟩ := Option.isSome_iff_exists.mp hend
  obtain ⟨hstatus, hstored⟩ := Prod.mk.inj hview
  exact ⟨s₁, s₂, h₁, h₂, hstatus, hstored,
    ((jobs_settle h₁ h₂ "a").2.2 (by decide)).2 hstatus hstored⟩

/-- A job whose engine reports an error is finished, not failed; a dead job is first finished
with a stored error and then failed. -/
theorem jobs_unsettled :
  (run step [.addSession ⟨"a", .Running, "", ""⟩, .markRunning "a",
      .report "a" codeEngineRunSQLError none, .storeReport 0 true] init).map (·.view "a") =
    some ⟨some .Finished, true, true, true⟩ ∧
  (run step [.addSession ⟨"a", .Running, "", ""⟩, .markRunning "a", .collectJobs,
      .onJobDead "a" true] init).map (·.view "a") = some ⟨some .Finished, true, true, false⟩ ∧
  (run step [.addSession ⟨"a", .Running, "", ""⟩, .markRunning "a", .collectJobs,
      .onJobDead "a" true, .finishTick true] init).map (·.view "a") =
    some ⟨some .Failed, true, true, false⟩ := by
  decide

/-- Nothing is stored for the job, and what is stored for it is kept as it is or removed. -/
structure Untouched (id : String) (s s' : State) : Prop where
  delivered : s'.delivered.count id = s.delivered.count id
  results : ∀ row, s'.results.find? id = some row → s.results.find? id = some row

lemma Untouched.trans {s s' s'' : State} (h : Untouched id s s') (h' : Untouched id s' s'') :
  Untouched id s s'' :=
  ⟨h'.delivered.trans h.delivered, fun row hrow => h.results row (h'.results row hrow)⟩

lemma untouched_of_eq (hdelivered : s'.delivered = s.delivered)
    (hresults : s'.results = s.results) :
  Untouched id s s' :=
  ⟨by rw [hdelivered], fun row hrow => hresults ▸ hrow⟩

lemma find?_of_deleteWhere {p : SessionResult → Bool} {row : SessionResult}
  (h : (results.deleteWhere p).find? id = some row) : results.find? id = some row := by
  rw [KeyedTable.find?_deleteWhere] at h
  exact (Option.filter_eq_some_iff.mp h).1

/-- A result is stored for a job that is live only. -/
lemma setSessionResult_untouched {code : ℤ} (h : setSessionResult s sid code = some s')
  (hended : Ended (s.view id).status) : Untouched id s s' := by
  have hlive := (setSessionResult_view h).1
  have hid : sid ≠ id := by
    rintro rfl
    rcases hended with h | h | h | h <;> simp [h] at hlive
  obtain ⟨info, -, h⟩ := Option.bind_eq_some_iff.mp h
  obtain ⟨-, -, h⟩ := Option.bind_eq_some_iff.mp h
  obtain ⟨⟨infos, results⟩, hrow, h⟩ := Option.bind_eq_some_iff.mp h
  have hresults := (setSessionResultRow_eq_some hrow).2
  cases h
  refine ⟨count_cons_of_ne hid, fun row hrow => ?_⟩
  simpa [KeyedTable.find?_insert hresults, hid] using hrow

lemma noteError_untouched (s : State) (jobId : String) (code : ℤ) :
  Untouched id s (s.noteError jobId code) := by
  rw [State.noteError]
  split <;> exact untouched_of_eq rfl rfl

lemma storeReport_untouched (p : PendingReport) (committed : Bool)
  (hended : Ended (s.view id).status) : Untouched id s (storeReport s p committed) := by
  rw [storeReport]
  split
  · next h => exact setSessionResult_untouched (transact_eq_some h) hended
  · split <;> exact untouched_of_eq rfl rfl

lemma onJobDead_untouched (jobId : String) (committed : Bool)
  (hended : Ended (s.view id).status) : Untouched id s (onJobDead s jobId committed) := by
  rw [onJobDead]
  cases h : transact committed (setSessionResult s jobId codeInternal) with
  | none => exact untouched_of_eq rfl rfl
  | some s' => exact setSessionResult_untouched (transact_eq_some h) hended

lemma cancelSession_untouched (s : State) (sid : String) (committed : Bool) :
  Untouched id s (cancelSession s sid committed) := by
  rw [cancelSession]
  split
  · next h =>
    obtain ⟨-, rfl⟩ := clearSessionResult_eq_some (transact_eq_some h)
    exact ⟨rfl, fun row => find?_of_deleteWhere⟩
  · exact untouched_of_eq rfl rfl

lemma step_untouched {e : Event} (h : step e s = some s') (hended : Ended (s.view id).status) :
  Untouched id s s' := by
  cases e with
  | addSession | updateSession | collectJobs | finishTick =>
    obtain ⟨_, _, h⟩ := Option.bind_eq_some_iff.mp h
    cases h
    exact untouched_of_eq rfl rfl
  | markRunning | fetchResult =>
    cases h
    exact untouched_of_eq rfl rfl
  | report jobId code defect =>
    obtain ⟨-, -, h⟩ := Option.bind_eq_some_iff.mp h
    obtain ⟨info, -, h⟩ := Option.bind_eq_some_iff.mp h
    have hnote : Untouched id s (s.noteError jobId code) := noteError_untouched s jobId code
    split at h <;> cases h <;> exact hnote.trans (untouched_of_eq rfl rfl)
  | storeReport i committed =>
    obtain ⟨r, -, h⟩ := Option.bind_eq_some_iff.mp h
    cases h
    have hstore := storeReport_untouched (s := {s with reports := s.reports.eraseIdx i}) r
      committed hended
    exact ⟨hstore.delivered, hstore.results⟩
  | onJobDead jobId committed =>
    obtain ⟨⟨watched, failed⟩, -, h⟩ := Option.bind_eq_some_iff.mp h
    obtain ⟨-, -, h⟩ := Option.bind_eq_some_iff.mp h
    cases h
    exact (onJobDead_untouched jobId committed hended).trans (untouched_of_eq rfl rfl)
  | cancelQuery jobId =>
    obtain ⟨-, -, h⟩ := Option.bind_eq_some_iff.mp h
    obtain ⟨info, -, h⟩ := Option.bind_eq_some_iff.mp h
    split at h <;> cases h <;> exact untouched_of_eq rfl rfl
  | cancelSession i committed =>
    obtain ⟨sid, -, h⟩ := Option.bind_eq_some_iff.mp h
    cases h
    have hcancel : Untouched id _ _ :=
      cancelSession_untouched {s with cancels := s.cancels.eraseIdx i} sid committed
    exact ⟨hcancel.delivered, hcancel.results⟩
  | clearExpired expired cleared =>
    cases h
    exact ⟨rfl, fun row => find?_of_deleteWhere⟩

lemma Change.deliveredEnded (h : Change f r v v') (hv : v.delivered = true → Ended v.status) :
  v'.delivered = true → Ended v'.status := by
  have hended := fun hdel => h.ended (hv hdel)
  cases h with
  | stored => exact fun _ => .inl rfl
  | _ => exact hended

/-- From any point of any run: a job for which a result was once stored has ended for good, no
result is stored for it again, by whatever reports, ticks and retries, and as long as a result is
there it is the one that was stored. -/
theorem result_stored_once {es es' : List Event} {s₁ s₂ : State} (h₁ : run step es init = some s₁)
  (h₂ : run step es' s₁ = some s₂) (id : String) (hdel : (s₁.view id).delivered = true) :
  Ended (s₂.view id).status ∧ s₂.delivered.count id = s₁.delivered.count id ∧
    ∀ row, s₂.results.find? id = some row → s₁.results.find? id = some row := by
  have hended := run_keeps (P := fun v => v.delivered = true → Ended v.status)
    (fun _ _ => Change.deliveredEnded) h₁ (by simp [State.view, init]) hdel
  obtain ⟨hended, huntouched⟩ := run_invariant (C := fun _ _ => True)
    (P := fun s => Ended (s.view id).status ∧ Untouched id s₁ s)
    (fun _ _ _ _ hs h => ⟨(step_change h id).ended hs.1, hs.2.trans (step_untouched h hs.1)⟩)
    (along_of_forall (fun _ _ => trivial) _ _) ⟨hended, untouched_of_eq rfl rfl⟩ h₂
  exact ⟨hended, huntouched.delivered, huntouched.results⟩

theorem result_stored_once_quietStart : ∃ s₁ s₂, run step quietStart init = some s₁ ∧
  run step (.report "a" codeInternal none::quietEnd) s₁ = some s₂ ∧
  s₁.results.find? "a" = some ⟨"a", codeOK⟩ ∧ s₂.delivered.count "a" = 1 ∧
  ∀ row, s₂.results.find? "a" = some row → row = ⟨"a", codeOK⟩ := by
  have hview : (run step quietStart init).map (fun s => (s.delivered, s.results.find? "a")) =
      some (["a"], some ⟨"a", codeOK⟩) := by decide
  obtain ⟨s₁, h₁, hview⟩ := Option.map_eq_some_iff.mp hview
  obtain ⟨hdel, hrow⟩ := Prod.mk.inj hview
  have hend : (run step (quietStart ++ .report "a" codeInternal none::quietEnd) init).isSome := by
    decide
  rw [run_append, h₁] at hend
  obtain ⟨s₂, h₂⟩ := Option.isSome_iff_exists.mp hend
  obtain ⟨-, hcount, hrows⟩ := result_stored_once h₁ h₂ "a" (by simp [State.view, hdel])
  refine ⟨s₁, s₂, h₁, h₂, hrow, by rw [hcount, hdel]; rfl, fun row hfind => ?_⟩
  exact Option.some.inj ((hrows row hfind).symm.trans hrow)

end Scql.Broker.JobStatus
