import Scql.BrokerCalls
import Scql.QueryRunner

/-! # Asking other brokers for their tables

What a broker answers when it is asked for tables and column privileges, and the two calls that
bring the local rows in line with the answers: the check of the status of projects, and the
refresh after two brokers compared the checksums of a query. The other brokers' databases do not
change meanwhile. -/
namespace Scql.Broker.MetaStorage

open MapRange Fallible

def askInfoAll (self : PartyCode) (db : Database) (projectID : String) (tableNames : List String)
    (destParties : List PartyCode) : Except String Database.ProjectMeta := do
  ensure (projectID ≠ "") "AskInfo All: empty project_id"
  db.getProjectMeta projectID tableNames destParties self

def askInfoResource (self : PartyCode) (db : Database) (resource : ResourceSpec) :
    Except String InfoData :=
  match resource.kind with
  | .Table => do
    ensure (resource.projectID ≠ "" ∧ resource.tableNames ≠ [])
      "AskInfo Table: empty project_id or table_name"
    let metas := (db.getTableMetasByTableNames resource.projectID resource.tableNames).1
    metas.forM (fun m => ensure (m.table.owner = self)
      ("AskInfo Table: table " ++ m.table.tableName ++ " not owned by server party " ++ self))
    return .tables metas
  | .CCL => do
    ensure (resource.projectID ≠ "" ∧ resource.tableNames ≠ [])
      "AskInfo CCL: empty project_id or table_name"
    return .ccls (db.listColumnConstraints resource.projectID resource.tableNames
      resource.destParties)
  | .All => do
    let m ← askInfoAll self db resource.projectID resource.tableNames resource.destParties
    return .all m.tables m.ccls

def askInfo (self : PartyCode) (db : Database) (resources : List ResourceSpec) :
    Except String (List InfoData) := do
  ensure (resources ≠ []) "AskInfo illegal request"
  resources.mapM (askInfoResource self db)

def createResourcesFrom (checksumResult : ChecksumCompareResult) (tables : List String)
    (projectID : String) (workParties : List PartyCode) : List ResourceSpec :=
  let ccl : ResourceSpec := ⟨.CCL, projectID, tables, workParties⟩
  match checksumResult with
  | .EQUAL => []
  | .TABLE_SCHEMA_NOT_EQUAL | .TABLE_CCL_NOT_EQUAL => [⟨.Table, projectID, tables, []⟩, ccl]
  | .CCL_NOT_EQUAL => [ccl]

/-- Whether anything was asked for, and the database after it. A broker that does not answer is
passed over. -/
def askInfoByChecksumResult (toLower : String → String) (compRes : ChecksumCompareResult)
    (tables : List String) (projectID : String) (workParties : List PartyCode)
    (targetParty : PartyCode) (remote : Except String Database) (db : Database) :
    Except String (Bool × Database) :=
  let resources := createResourcesFrom compRes tables projectID workParties
  if resources = [] then .ok (false, db) else do
    let answer := do
      let rdb ← remote
      askInfo targetParty rdb resources
    let db ← askInfoAndUpdateStorage toLower [targetParty] resources
      (answer.toOption.toList.map (targetParty, ·)) db
    return (true, db)

/-- `equalConf` decodes and compares two project configurations. -/
def Project.conflicts (equalConf : String → String → Except String Bool) (p other : Project) :
    Except String Bool :=
  if p.id ≠ other.id ∨ p.name ≠ other.name ∨ p.description ≠ other.description ∨
    p.creator ≠ other.creator then .ok true
  else if p.projectConf = "" ∧ other.projectConf = "" then .ok false
  else (equalConf p.projectConf other.projectConf).map (!·)

def checkStatusOwnedBy (m : Database.ProjectMeta) (owner : PartyCode) : Except String Unit := do
  m.tables.forM (fun t => ensure (t.table.owner = owner)
    ("table " ++ t.table.tableName ++ " not owned by party " ++ owner))
  m.ccls.forM (fun c => ensure (c.tableName ∈ m.tables.map (·.table.tableName))
    ("ccl of table " ++ c.tableName ++ " not owned by party " ++ owner))

/-- Whether there is a conflict. If the remote party has no tables, the list of names is empty and
all local tables are looked at. -/
def checkConflict (equalConf : String → String → Except String Bool)
    (loc rem : Database.ProjectMeta)
    (remoteParty : PartyCode) (db : Database) : Except String Bool := do
  if ← loc.proj.conflicts equalConf rem.proj then return true
  let localTables := (db.getTableMetasByTableNames loc.proj.id
    (rem.tables.map (·.table.tableName))).1
  return localTables.any (·.table.owner ≠ remoteParty)

/-- The brokers of other parties, some of which cannot be reached. -/
abbrev Remotes := PartyCode → Except String Database

def getRemoteStatus (remotes : Remotes) (projID : String) (destParty : PartyCode) :
    Except String Database.ProjectMeta := do
  let rdb ← remotes destParty
  let m ← askInfoAll destParty rdb projID [] []
  checkStatusOwnedBy m destParty
  return m

variable (env : Env) (equalConf : String → String → Except String Bool) (remotes : Remotes)

/-- The members the remote party knows, whether there was a conflict, and the database. -/
def checkAndUpdateStatusFor (projID : String) (destParty : PartyCode) (db : Database) :
    Except String (List PartyCode × Bool × Database) := do
  let localStatus ← db.getProjectMeta projID [] [] destParty
  let remoteStatus ← getRemoteStatus remotes projID destParty
  if ← checkConflict equalConf localStatus remoteStatus destParty db then
    return (remoteStatus.members, true, db)
  else
    let db ← updateStatus env.toLower env.digest env.order localStatus remoteStatus destParty db
    return (remoteStatus.members, false, db)

def Database.listProjects (db : Database) (projectIDs : List String) :
    Except String (List (Project × List PartyCode)) := do
  let projects := db.projects.rows.filter (fun p => projectIDs = [] ∨ p.id ∈ projectIDs)
  ensure (∀ id ∈ projectIDs, id ∈ projects.map (·.id)) "projects not found"
  return projects.map (fun p => (p, db.getProjectMembers p.id))

/-- A database and whether there was a conflict so far. -/
abbrev StatusState := Database × Bool

def checkMember (self : PartyCode) (proj : Project) (st : StatusState) (member : PartyCode) :
    Except String StatusState :=
  if member = proj.creator ∨ member = self then .ok st else do
    let (_, conflict, db) ← checkAndUpdateStatusFor env equalConf remotes proj.id member st.1
    return (db, st.2 || conflict)

def checkProject (self : PartyCode) (st : StatusState) (proj : Project × List PartyCode) :
    Except String StatusState := do
  let (members, st) ← (if proj.1.creator ≠ self then do
      let (members, conflict, db) ←
        checkAndUpdateStatusFor env equalConf remotes proj.1.id proj.1.creator st.1
      return (members, db, st.2 || conflict)
    else .ok (proj.2, st))
  members.foldlM (checkMember env equalConf remotes self proj.1) st

def checkAndUpdateStatus (self : PartyCode) (projectIDs : List String) (db : Database) :
    Except String StatusState := do
  let projects ← db.listProjects projectIDs
  projects.foldlM (checkProject env equalConf remotes self) (db, false)

end Scql.Broker.MetaStorage
