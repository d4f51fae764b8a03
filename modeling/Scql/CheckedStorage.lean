import Mathlib.Data.List.AList
import Scql.MetaStorage

/-! # Checked writes and the calls of a broker

Every write to tables, columns and column privileges goes through a function that checks it
first. The calls of a broker, from its own users and from other brokers, are built of these. What
other brokers answer is an argument of the call. -/
namespace Scql.Broker.MetaStorage

open MapRange Fallible

variable (toLower : String → String)

structure OwnerChecker where
  owner : PartyCode := ""
  skipOwnerCheck : Bool := false

abbrev ColumnNames := AList (fun _ : String => AList (fun _ : String => String))

def createMapLowerToOriginColName (tableMetas : List TableMeta) : ColumnNames :=
  tableMetas.foldl (fun colMap m =>
    colMap.insert m.table.tableName (m.columns.foldl
      (fun cols c => cols.insert (toLower c.columnName) c.columnName)
      ((colMap.lookup m.table.tableName).getD ∅))) ∅

def originColName (caller : String) (colMap : ColumnNames) (tableName columnName : String) :
    Except String String :=
  match colMap.lookup tableName with
  | none => .error (caller ++ ": unknown table " ++ tableName)
  | some cols => (cols.lookup (toLower columnName)).elim
      (.error (caller ++ ": unknown column name " ++ columnName ++ " in table " ++ tableName)) .ok

def grantColumnConstraintsWithCheck (db : Database) (projectID : String) (privs : List ColumnPriv)
    (columnOwnerChecker : OwnerChecker) : Except String Database := do
  let caller := "GrantColumnConstraintsWithCheck"
  privs.forM (fun p => ensure (p.projectID = projectID)
    (caller ++ ": grant ccl to columns in project " ++ p.projectID ++ ", expect " ++ projectID))
  let toParties := sliceDeDup (privs.map (·.destParty))
  let members := db.getProjectMembers projectID
  ensure (∀ p ∈ toParties, p ∈ members)
    (caller ++ ": project members " ++ toString (toParties.filter (· ∉ members)) ++ " not found")
  let (tableMetas, notFoundTables) := db.getTableMetasByTableNames projectID
    (sliceDeDup (privs.map (·.tableName)))
  ensure (notFoundTables = []) (caller ++ ": table " ++ toString notFoundTables ++ " not found")
  tableMetas.forM (fun m => do
    ensure (columnOwnerChecker.skipOwnerCheck ∨ m.table.owner = columnOwnerChecker.owner)
      (caller ++ ": grant ccl to columns in table " ++ m.table.tableName ++ " by " ++
        columnOwnerChecker.owner ++ ", but owner is " ++ m.table.owner)
    ensure (m.table.isView = false)
      (caller ++ ": table " ++ m.table.tableName ++ " is view, not support grant ccl"))
  let colMap := createMapLowerToOriginColName toLower tableMetas
  let newPrivs ← privs.mapM (fun p => do
    let columnName ← originColName toLower caller colMap p.tableName p.columnName
    return {p with columnName})
  return db.grantColumnConstraints newPrivs

def revokeColumnConstraintsWithCheck (db : Database) (projectID : String) (party : PartyCode)
    (privIDs : List ColumnPrivIdentifier) : Except String Database := do
  let caller := "RevokeColumnConstraintsWithCheck"
  privIDs.forM (fun p => ensure (p.projectID = projectID)
    (caller ++ ": grant ccl to columns in project " ++ p.projectID ++ ", expect " ++ projectID))
  let (tableMetas, notFoundTables) := db.getTableMetasByTableNames projectID
    (sliceDeDup (privIDs.map (·.tableName)))
  ensure (notFoundTables = []) (caller ++ ": table " ++ toString notFoundTables ++ " not found")
  tableMetas.forM (fun m => ensure (m.table.owner = party)
    (caller ++ ": revoke ccl in table " ++ m.table.tableName ++ " by " ++ party ++
      ", but owner is " ++ m.table.owner))
  let colMap := createMapLowerToOriginColName toLower tableMetas
  let newPrivIDs ← privIDs.mapM (fun p => do
    let columnName ← originColName toLower caller colMap p.tableName p.columnName
    return {p with columnName})
  return db.revokeColumnConstraints newPrivIDs

def archiveProjectWithCheck (db : Database) (project : Project) (party : PartyCode) :
    Except String Database := do
  ensure (party ∈ db.getProjectMembers project.id)
    ("ArchiveProjectWithCheck: party " ++ party ++ " is not in project " ++ project.id)
  db.updateProject {project with archived := true}

def addTableWithCheck (db : Database) (projectID : String) (party : PartyCode)
    (table : TableMeta) : Except String Database := do
  let caller := "AddTableWithCheck: "
  let id := table.table.toTableIdentifier
  ensure (table.table.owner = party)
    (caller ++ "table " ++ id.tableName ++ " is not owned by " ++ party)
  ensure (table.table.projectID = projectID)
    (caller ++ "table " ++ id.tableName ++ " is not in project " ++ projectID)
  let lowerColumnNames := table.columns.map (fun c => toLower c.columnName)
  ensure (lowerColumnNames.length = (sliceDeDup lowerColumnNames).length)
    (caller ++ "duplicate column names in table " ++ id.tableName)
  ensure (party ∈ db.getProjectMembers projectID)
    (caller ++ "party " ++ party ++ " is not in project " ++ projectID)
  let owners := db.listDedupTableOwners id.projectID [id.tableName]
  ensure (owners.length ≤ 1)
    (caller ++ "table " ++ id.tableName ++ " owned by more than one party " ++ toString owners)
  match owners.head? with
  | none => db.addTable table
  | some owner => do
    ensure (owner = table.table.owner)
      (caller ++ "existing table owner " ++ owner ++ " not equal to " ++ table.table.owner)
    (db.dropTable id).addTable table

/-- Whether the table was there, and the database after it was dropped. -/
def dropTableWithCheck (db : Database) (projectID : String) (party : PartyCode)
    (tableId : TableIdentifier) : Except String (Bool × Database) := do
  let caller := "DropTableWithCheck: "
  ensure (tableId.projectID = projectID)
    (caller ++ "table " ++ tableId.tableName ++ " is not in project " ++ projectID)
  if (db.tables.find? tableId).isNone then .ok (false, db) else do
    ensure (db.listDedupTableOwners projectID [tableId.tableName] = [party])
      (caller ++ "table " ++ tableId.tableName ++ " is not owned by " ++ party)
    return (true, db.dropTable tableId)

inductive ChangeEntry
  | ArchiveProject
  | AddProjectMember (member : PartyCode)
  | CreateTable (tableMeta : TableMeta)
  | DropTable (tableId : TableIdentifier)
  | GrantCCL (privs : List ColumnPriv)
  | RevokeCCL (privIDs : List ColumnPrivIdentifier)
  deriving DecidableEq

/-- Fails also where the source answers that the project is archived: nothing is written. -/
def checkProjectArchived (db : Database) (projectID opName : String) : Except String Project := do
  let project ← (db.getProject projectID).mapError
    (fun e => opName ++ ": get project " ++ projectID ++ " err: " ++ e)
  ensure (project.archived = false)
    (opName ++ ": project " ++ projectID ++ " is already archived")
  return project

def syncInfo (db : Database) (client : PartyCode) (projectID : String) (entry : ChangeEntry) :
    Except String Database := do
  ensure (projectID ≠ "") "SyncInfo illegal request"
  let proj ← checkProjectArchived db projectID "SyncInfo"
  match entry with
  | .ArchiveProject => archiveProjectWithCheck db proj client
  | .AddProjectMember member => do
    ensure (client = proj.creator)
      ("SyncInfo AddProjectMember: project " ++ proj.id ++ " not owned by client " ++ client)
    db.addProjectMembers [⟨projectID, member⟩]
  | .CreateTable tableMeta => addTableWithCheck toLower db projectID client tableMeta
  | .DropTable tableId => do
    let (_, db) ← dropTableWithCheck db projectID client tableId
    return db
  | .GrantCCL privs =>
    grantColumnConstraintsWithCheck toLower db projectID privs {owner := client}
  | .RevokeCCL privIDs => revokeColumnConstraintsWithCheck toLower db projectID client privIDs

end Scql.Broker.MetaStorage
