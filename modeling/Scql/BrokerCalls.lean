import Scql.CheckedStorage
import Scql.Checksums

/-! # Calls that write a broker's database

Refreshes from what other brokers tell, status updates, and the calls of the broker's own users.
A call is one transaction, except for the processing of an invitation, which is followed by
others. -/
namespace Scql.Broker.MetaStorage

open MapRange Fallible

variable (toLower : String → String)

inductive ResourceKind
  | Table | CCL | All
  deriving DecidableEq

structure ResourceSpec where
  kind : ResourceKind
  projectID : String
  tableNames : List String
  destParties : List PartyCode := []
  deriving DecidableEq

inductive InfoData
  | tables (metas : List TableMeta)
  | ccls (ccls : List ColumnPriv)
  | all (tables : List TableMeta) (ccls : List ColumnPriv)

structure InfoUpdate where
  tables : List TableMeta := []
  ccls : List ColumnPriv := []

def updateTableMeta (sourceParty : PartyCode) (metas : List TableMeta) (upd : InfoUpdate) :
    Except String InfoUpdate :=
  metas.foldlM (fun upd m => do
    ensure (m.table.tableName ∉ upd.tables.map (·.table.tableName))
      ("duplicated table name " ++ m.table.tableName)
    ensure (m.table.owner = sourceParty)
      ("table " ++ m.table.tableName ++ " not owned by " ++ sourceParty)
    return {upd with tables := upd.tables ++ [m]}) upd

/-- The answer to one resource. The privileges of a separate answer replace those received
before, those that come with the tables are added. -/
def updateMetaFrom (sourceParty : PartyCode) (upd : InfoUpdate)
    (answer : ResourceSpec × InfoData) : Except String InfoUpdate :=
  match answer.1.kind, answer.2 with
  | .Table, .tables metas => updateTableMeta sourceParty metas upd
  | .CCL, .ccls ccls => .ok {upd with ccls}
  | .All, .all metas ccls => do
    let upd ← updateTableMeta sourceParty metas upd
    ccls.forM (fun c => ensure
      (∃ m ∈ upd.tables, m.table.tableName = c.tableName ∧ m.table.owner = sourceParty)
      ("ccl for table " ++ c.tableName ++ " is not owned by " ++ sourceParty))
    return {upd with ccls := upd.ccls ++ ccls}
  | _, _ => .error "unmarshal"

def updateMetaFromData (resources : List ResourceSpec) (upd : InfoUpdate)
    (answer : PartyCode × List InfoData) : Except String InfoUpdate := do
  ensure (resources.length ≤ answer.2.length) "index out of range"
  (resources.zip answer.2).foldlM (updateMetaFrom answer.1) upd

/-- The tables named in the resource are dropped and what was received of them is added. -/
def updateTableMetaInStorage (upd : InfoUpdate) (resource : ResourceSpec) (db : Database) :
    Except String Database :=
  let db := resource.tableNames.foldl (fun db name => db.dropTable ⟨resource.projectID, name⟩) db
  (upd.tables.filter (·.table.tableName ∈ resource.tableNames)).foldlM (fun db m =>
    addTableWithCheck toLower db resource.projectID m.table.owner m) db

def updateStorage (sourceParties : List PartyCode) (resources : List ResourceSpec)
    (upd : InfoUpdate) (db : Database) : Except String Database :=
  resources.foldlM (fun db resource =>
    match resource.kind with
    | .Table => updateTableMetaInStorage toLower upd resource db
    | .CCL => grantColumnConstraintsWithCheck toLower db resource.projectID upd.ccls
        {owner := sourceParties.headD ""}
    | .All => do
      let db ← updateTableMetaInStorage toLower upd resource db
      grantColumnConstraintsWithCheck toLower db resource.projectID upd.ccls
        {skipOwnerCheck := true}) db

/-- `answers` are those of the source parties that answered, in the order they came in. The
privileges alone can be asked of one party only. -/
def askInfoAndUpdateStorage (sourceParties : List PartyCode) (resources : List ResourceSpec)
    (answers : List (PartyCode × List InfoData)) (db : Database) : Except String Database := do
  ensure (sourceParties ≠ []) "askInfoAndUpdateStorage: no source party"
  let answers := if (∃ r ∈ resources, r.kind = .CCL) ∧ sourceParties.length ≠ 1 then [] else answers
  let upd ← answers.foldlM (updateMetaFromData resources) {}
  updateStorage toLower sourceParties resources upd db

variable (digest : String → String)

/-- What is to be done about the tables: those to replace, privileges to grant, and the names of
local tables the remote party no longer has. Comparing sorts the columns of the table. -/
structure StatusDiff where
  tsToUpdate : List TableMeta := []
  psToUpdate : List ColumnPriv := []
  localTable : AList (fun _ : String => TableMeta)

def statusDiff (loc rem : Database.ProjectMeta) : StatusDiff :=
  rem.tables.foldl (fun d rt =>
    match d.localTable.lookup rt.table.tableName with
    | some lt =>
      let lc := loc.ccls.filter (·.tableName = rt.table.tableName)
      let rc := rem.ccls.filter (·.tableName = rt.table.tableName)
      let localTable := d.localTable.erase rt.table.tableName
      if getTableChecksum digest lt ≠ getTableChecksum digest rt then
        {d with tsToUpdate := d.tsToUpdate ++ [sortColumns rt], localTable}
      else if getCCLsChecksum digest lc ≠ getCCLsChecksum digest rc then
        {d with psToUpdate := d.psToUpdate ++ rc, localTable}
      else {d with localTable}
    | none => {d with tsToUpdate := d.tsToUpdate ++ [rt]})
    {localTable := loc.tables.foldl (fun m t => m.insert t.table.tableName t) ∅}

/-- The creator of the project decides about its members and whether it is archived. An update
by struct does not write `false`. -/
def updateFromCreator (loc rem : Database.ProjectMeta) (remoteParty : PartyCode) (db : Database) :
    Except String Database :=
  if loc.proj.creator = remoteParty then do
    let db ← (if loc.proj.archived ≠ rem.proj.archived then
      db.updateProject {loc.proj with archived := rem.proj.archived} else .ok db)
    db.addProjectMembers ((rem.members.filter (· ∉ loc.members)).map (⟨loc.proj.id, ·⟩))
  else .ok db

def dropOldTable (projectID : String) (remoteParty : PartyCode) (db : Database)
    (tableName : String) : Except String Database := do
  let dropped ← dropTableWithCheck db projectID remoteParty ⟨projectID, tableName⟩
  return dropped.2

def grantRemote (projectID : String) (ccls : List ColumnPriv) (db : Database) :
    Except String Database :=
  if ccls = [] then .ok db
  else grantColumnConstraintsWithCheck toLower db projectID ccls {skipOwnerCheck := true}

def replaceTable (projectID : String) (remoteParty : PartyCode) (rem : Database.ProjectMeta)
    (localTable : AList (fun _ : String => TableMeta)) (db : Database) (t : TableMeta) :
    Except String Database := do
  let db ← (if t.table.tableName ∈ localTable then
    dropOldTable projectID remoteParty db t.table.tableName else .ok db)
  let db ← addTableWithCheck toLower db projectID remoteParty t
  grantRemote toLower projectID (rem.ccls.filter (·.tableName = t.table.tableName)) db

def updateStatus (o : RangeOrder) (loc rem : Database.ProjectMeta) (remoteParty : PartyCode)
    (db : Database) : Except String Database := do
  let db ← updateFromCreator loc rem remoteParty db
  let d := statusDiff digest loc rem
  let db ← (o.range 14 0 d.localTable.entries).foldlM (fun db t =>
    dropOldTable loc.proj.id remoteParty db t.2.table.tableName) db
  let db ← d.tsToUpdate.foldlM (replaceTable toLower loc.proj.id remoteParty rem d.localTable) db
  grantRemote toLower loc.proj.id d.psToUpdate db

def Invitation.setStatus (status : InvitationStatus) (row : Invitation) : Invitation :=
  {row with status}

lemma Invitation.setStatus_id (status : InvitationStatus) (row : Invitation) :
  (row.setStatus status).id = row.id := rfl

def modifyInvitations (db : Database) (p : Invitation → Bool) (status : InvitationStatus) :
    Database :=
  { db with
    invitations := db.invitations.updateWhere p (Invitation.setStatus status)
      (Invitation.setStatus_id status)}

def setUnhandledInvitationsInvalid (db : Database) (projectID : String)
    (inviter invitee : PartyCode) : Database :=
  modifyInvitations db (fun i => selects projectID i.projectID ∧ selects inviter i.inviter ∧
    selects invitee i.invitee ∧ i.status = .UNDECIDED) .INVALID

def modifyInvitationStatus (db : Database) (invitationID : ℕ) (status : InvitationStatus) :
    Database :=
  modifyInvitations db (·.id = invitationID) status

def addInvitation (db : Database) (invitation : Invitation) : Except String Database := do
  let next := (db.invitations.rows.map (·.id)).foldl max 0+1
  let invitations ← create db.invitations [{invitation with id := next}]
  return {db with invitations}

def getUnhandledInvitation (db : Database) (projectID : String) (inviter invitee : PartyCode) :
    Except String Invitation :=
  (db.invitations.rows.find? (fun i => selects projectID i.projectID ∧ selects inviter i.inviter ∧
    selects invitee i.invitee ∧ i.status = .UNDECIDED)).elim (.error "record not found") .ok

/-- `replied` tells whether the invitee's broker took the invitation. -/
def inviteMember (self : PartyCode) (projectID : String) (invitee : PartyCode) (replied : Bool)
    (db : Database) : Except String Database := do
  ensure (projectID ≠ "" ∧ invitee ≠ "")
    "InviteMember: request illegal, empty project id or invitee in request"
  let proj ← checkProjectArchived db projectID "InviteMember"
  ensure (proj.creator = self)
    ("InviteMember: project creator " ++ proj.creator ++ " not equal to selfParty " ++ self)
  let members := db.getProjectMembers projectID
  ensure (invitee ∉ members) ("InviteMember: project already contains invitee " ++ invitee)
  let db := setUnhandledInvitationsInvalid db projectID proj.creator invitee
  let db ← addInvitation db {
    id := 0, projectID := proj.id, name := proj.name, description := proj.description
    creator := proj.creator, member := members, projectConf := proj.projectConf
    inviter := proj.creator, invitee}
  ensure replied ("InviteMember: failed to invite party " ++ invitee)
  return db

def inviteToProject (self client inviter : PartyCode) (project : Project)
    (members : List PartyCode) (db : Database) : Except String Database := do
  ensure (inviter ≠ "" ∧ inviter = client)
    ("InviteToProject: Inviter=" ++ inviter ++ " must be equal to ClientId.Code:" ++ client)
  ensure ((db.findProject project.id).isNone)
    ("InviteToProject: project " ++ project.id ++ " already exists")
  let db := setUnhandledInvitationsInvalid db project.id inviter self
  addInvitation db {
    id := 0, projectID := project.id, name := project.name, description := project.description
    creator := project.creator, member := members, projectConf := project.projectConf
    inviter, invitee := self}

inductive ReplyCode
  | OK | DATA_INCONSISTENCY | NOT_SUPPORTED
  deriving DecidableEq

/-- `projectInfo` holds the newest members. -/
structure ReplyInvitationResponse where
  code : ReplyCode
  projectInfo : Option (List PartyCode) := none
  deriving DecidableEq

def invitationMembers (invitation : Invitation) : List Member :=
  ((invitation.member ++ [invitation.invitee]).filter
    (fun m => m ≠ "" ∧ m ≠ invitation.creator)).map
    (⟨invitation.projectID, ·⟩)

def acceptInvitation (db : Database) (invitation : Invitation) : Except String Database := do
  let db ← db.createProject {
    id := invitation.projectID, name := invitation.name
    description := invitation.description, creator := invitation.creator
    projectConf := invitation.projectConf}
  db.addProjectMembers (invitationMembers invitation)

/-- The transaction of `processInvitation`: the database and the members yet to be added. The
flag of an error tells whether the invitation turned out to be invalid. -/
def processInvitationTxn (self : PartyCode) (invitation : Invitation) (accept : Bool)
    (reply : Option ReplyInvitationResponse) (db : Database) :
    Except (String × Bool) (Database × List Member) := do
  ensure (invitation.invitee = self) ("ProcessInvitation: invitee " ++ invitation.invitee ++
    " != selfParty " ++ self, true)
  ensure ((db.findProject invitation.projectID).isNone)
    ("ProcessInvitation: existing project conflicts with invitation", false)
  let db ← (if accept then (acceptInvitation db invitation).mapError
    (fun e => ("ProcessInvitation: " ++ e, false)) else .ok db)
  let db := modifyInvitationStatus db invitation.id (if accept then .ACCEPTED else .DECLINED)
  match reply with
  | none => .error ("ReplyInvitation", false)
  | some ⟨.DATA_INCONSISTENCY, _⟩ => .error ("ProcessInvitation: failed to reply invitation due " ++
      "to invitation is not same with project", true)
  | some ⟨.NOT_SUPPORTED, _⟩ => .error ("ProcessInvitation not success", false)
  | some ⟨.OK, info⟩ => .ok (db, ((info.getD []).filter (fun m =>
      m ≠ invitation.creator ∧ m ≠ invitation.invitee ∧
        m ∉ (invitationMembers invitation).map (·.member))).map (⟨invitation.projectID, ·⟩))

/-- What is added after the transaction of `processInvitation`, in one of its own. -/
def addNewMembers (projectID : String) (members : List Member) (db : Database) :
    Except String Database := do
  let _ ← db.getProject projectID
  db.addProjectMembers members

/-- `compatible` compares project configurations. -/
def replyInvitation (compatible : String → String → Bool) (self client : PartyCode)
    (projectID : String) (accept : Bool) (db : Database) :
    Except String (Database × ReplyInvitationResponse) := do
  ensure (client ≠ "") "ReplyInvitation: missing client id in request"
  let proj ← db.getProject projectID
  if proj.archived then .ok (db, ⟨.NOT_SUPPORTED, none⟩) else do
    ensure (proj.creator = self)
      ("ReplyInvitation: project " ++ proj.id ++ " not owned by self party " ++ self)
    if client ∈ db.getProjectMembers projectID then do
      ensure accept "ReplyInvitation: already in project"
      return (db, ⟨.OK, none⟩)
    else do
      let invitation ← getUnhandledInvitation db projectID self client
      if !accept then
        let db := modifyInvitationStatus db invitation.id .DECLINED
        return (db, ⟨.OK, some (db.getProjectMembers projectID)⟩)
      else if compatible proj.projectConf invitation.projectConf ∧
          proj.creator = invitation.creator then do
        let db ← (modifyInvitationStatus db invitation.id .ACCEPTED).addProjectMembers
          [⟨projectID, client⟩]
        return (db, ⟨.OK, some (db.getProjectMembers projectID)⟩)
      else
        return (modifyInvitationStatus db invitation.id .INVALID, ⟨.DATA_INCONSISTENCY, none⟩)

/-- What a broker takes from elsewhere: the order of map loops, the hash function, the check of
table metas against the SQL grammar, and the comparison of configurations. -/
structure Env where
  toLower : String → String
  digest : String → String
  order : RangeOrder
  verifyTableMeta : TableMeta → Bool
  verifyProjectID : String → Bool
  compatible : String → String → Bool

def createProject (env : Env) (self : PartyCode) (project : Project) (db : Database) :
    Except String Database := do
  ensure (project.id ≠ "" ∧ env.verifyProjectID project.id)
    "CreateProject: failed to verify project ID"
  ensure ((db.findProject project.id).isNone)
    ("CreateProject: project " ++ project.id ++ " already exists")
  db.createProject {project with creator := self, archived := false}

/-- `synced` tells whether the creator took the request. -/
def archiveProject (self : PartyCode) (projectID : String) (synced : Bool) (db : Database) :
    Except String Database := do
  ensure (projectID ≠ "") "ArchiveProject: project_id cannot be empty"
  let project ← db.getProject projectID
  if project.archived then .ok db else do
    ensure (self = project.creator ∨ synced) "ArchiveProject: failed to sync"
    db.updateProject {project with archived := true}

def deleteProject (projectID : String) (db : Database) : Except String Database := do
  ensure (projectID ≠ "") "DeleteProject: project_id cannot be empty"
  db.deleteProject projectID

/-- `synced` tells whether all other members took the table. -/
def createTable (env : Env) (self : PartyCode) (projectID tableName refTable dbType : String)
    (columns : List ColumnMeta) (synced : Bool) (db : Database) : Except String Database := do
  ensure (projectID ≠ "" ∧ tableName ≠ "" ∧ refTable ≠ "") "CreateTable: illegal request"
  let _ ← checkProjectArchived db projectID "CreateTable"
  ensure (∀ t ∈ db.getAllTables projectID, t.tableName ≠ tableName ∧
      ¬(t.owner = self ∧ t.refTable = refTable ∧ t.dbType ≠ dbType))
    ("CreateTable: table " ++ tableName ++ " already exists or ref table " ++ refTable ++
      " conflicts")
  let tableMeta : TableMeta := ⟨{projectID, tableName, dbType, refTable, owner := self}, columns⟩
  ensure (env.verifyTableMeta tableMeta) "CreateTable: Table schema err"
  let db ← addTableWithCheck env.toLower db projectID self tableMeta
  ensure synced "CreateTable: failed to sync"
  return db

def createView (env : Env) (self : PartyCode) (projectID viewName query : String)
    (columns : List ColumnMeta) (synced : Bool) (db : Database) : Except String Database := do
  ensure (viewName ≠ "" ∧ query ≠ "" ∧ projectID ≠ "") "CreateView: invalid request"
  let _ ← checkProjectArchived db projectID "CreateView"
  ensure (∀ t ∈ db.getAllTables projectID, t.tableName ≠ viewName)
    ("CreateView: entity " ++ viewName ++ " already exists")
  let db ← addTableWithCheck env.toLower db projectID self
    ⟨{projectID, tableName := viewName, owner := self, isView := true, selectString := query},
      columns⟩
  ensure synced "CreateView: failed to sync"
  return db

def dropTable (self : PartyCode) (projectID tableName : String) (db : Database) :
    Except String Database := do
  ensure (projectID ≠ "" ∧ tableName ≠ "") "DropTable: illegal request"
  let _ ← checkProjectArchived db projectID "DropTable"
  let (exist, db) ← dropTableWithCheck db projectID self ⟨projectID, tableName⟩
  ensure exist ("DropTable: table " ++ tableName ++ " not found")
  return db

def grantCCL (env : Env) (self : PartyCode) (projectID : String) (privs : List ColumnPriv)
    (db : Database) : Except String Database := do
  ensure (projectID ≠ "") "GrantCCL: illegal request"
  let _ ← checkProjectArchived db projectID "GrantCCL"
  let members := db.getProjectMembers projectID
  ensure (members ≠ [])
    ("GrantCCL: project " ++ projectID ++ " has no members or project doesn't exist")
  privs.forM (fun p => ensure (p.destParty ∈ members)
    ("GrantCCL: member " ++ p.destParty ++ " not in project members " ++ toString members))
  grantColumnConstraintsWithCheck env.toLower db projectID privs {owner := self}

def revokeCCL (env : Env) (self : PartyCode) (projectID : String)
    (privIDs : List ColumnPrivIdentifier) (db : Database) : Except String Database := do
  ensure (projectID ≠ "" ∧ privIDs ≠ []) "RevokeCCL: illegal request"
  let _ ← checkProjectArchived db projectID "RevokeCCL"
  revokeColumnConstraintsWithCheck env.toLower db projectID self privIDs

/-- The calls that write, from users of the broker and from other brokers. -/
inductive Call
  | createProject (project : Project)
  | archiveProject (projectID : String) (synced : Bool)
  | deleteProject (projectID : String)
  | inviteMember (projectID : String) (invitee : PartyCode) (replied : Bool)
  | inviteToProject (client inviter : PartyCode) (project : Project) (members : List PartyCode)
  | processInvitation (invitationID : ℕ) (accept : Bool) (reply : Option ReplyInvitationResponse)
  | addNewMembers (projectID : String) (members : List PartyCode)
  | replyInvitation (client : PartyCode) (projectID : String) (accept : Bool)
  | createTable (projectID tableName refTable dbType : String) (columns : List ColumnMeta)
    (synced : Bool)
  | createView (projectID viewName query : String) (columns : List ColumnMeta) (synced : Bool)
  | dropTable (projectID tableName : String)
  | grantCCL (projectID : String) (privs : List ColumnPriv)
  | revokeCCL (projectID : String) (privIDs : List ColumnPrivIdentifier)
  | syncInfo (client : PartyCode) (projectID : String) (entry : ChangeEntry)
  | askInfo (sourceParties : List PartyCode) (resources : List ResourceSpec)
      (answers : List (PartyCode × List InfoData))
  | updateStatus (loc rem : Database.ProjectMeta) (remoteParty : PartyCode)

/-- The number zero, which no invitation has, is no condition. -/
def findUnhandledWithID (db : Database) (invitationID : ℕ) : Option Invitation :=
  db.invitations.rows.find? (fun i =>
    (invitationID = 0 ∨ i.id = invitationID) ∧ i.status = .UNDECIDED)

/-- An invitation that turns out to be invalid is marked so although the call fails. -/
def processInvitation (self : PartyCode) (invitationID : ℕ) (accept : Bool)
    (reply : Option ReplyInvitationResponse) (db : Database) : Except String Database := do
  let invitation ← (findUnhandledWithID db invitationID).elim
    (.error "ProcessInvitation: GetUnhandledInvitationWithID: record not found") .ok
  match processInvitationTxn self invitation accept reply db with
  | .ok (db, _) => .ok db
  | .error (_, true) => .ok (modifyInvitationStatus db invitation.id .INVALID)
  | .error (e, false) => .error e

def handle (env : Env) (self : PartyCode) : Call → Database → Except String Database
  | .createProject project => createProject env self project
  | .archiveProject projectID synced => archiveProject self projectID synced
  | .deleteProject projectID => deleteProject projectID
  | .inviteMember projectID invitee replied => inviteMember self projectID invitee replied
  | .inviteToProject client inviter project members =>
    inviteToProject self client inviter project members
  | .processInvitation invitationID accept reply => processInvitation self invitationID accept reply
  | .addNewMembers projectID members => addNewMembers projectID (members.map (⟨projectID, ·⟩))
  | .replyInvitation client projectID accept => fun db =>
    (replyInvitation env.compatible self client projectID accept db).map (·.1)
  | .createTable projectID tableName refTable dbType columns synced =>
    createTable env self projectID tableName refTable dbType columns synced
  | .createView projectID viewName query columns synced =>
    createView env self projectID viewName query columns synced
  | .dropTable projectID tableName => dropTable self projectID tableName
  | .grantCCL projectID privs => grantCCL env self projectID privs
  | .revokeCCL projectID privIDs => revokeCCL env self projectID privIDs
  | .syncInfo client projectID entry => fun db => syncInfo env.toLower db client projectID entry
  | .askInfo sourceParties resources answers =>
    askInfoAndUpdateStorage env.toLower sourceParties resources answers
  | .updateStatus loc rem remoteParty =>
    updateStatus env.toLower env.digest env.order loc rem remoteParty

/-- A call that fails leaves the database as it was. -/
def step (env : Env) (self : PartyCode) (call : Call) (db : Database) : Database :=
  match handle env self call db with
  | .ok db' => db'
  | .error _ => db

end Scql.Broker.MetaStorage
