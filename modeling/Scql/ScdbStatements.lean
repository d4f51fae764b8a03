import Mathlib.Data.List.Dedup
import Scql.ScdbCatalog

/-! # Statements of SCDB

A statement is planned, which collects the privileges its issuer needs, and then executed in a
transaction. An error at any point rolls the transaction back. -/
namespace Scql.Scdb

open Fallible

variable {cl : Collation}

structure Session where
  user : UserIdentity
  currentDB : String := ""

structure TableName where
  schema : String := ""
  name : String
  deriving DecidableEq

/-- A privilege, on some columns or on all of the object. -/
structure PrivElem where
  priv : PrivilegeType
  cols : List String := []
  deriving DecidableEq

inductive GrantLevel
  | global | db | table
  deriving DecidableEq

structure PrivStmt where
  privs : List PrivElem
  level : GrantLevel
  dbName : String := ""
  tableName : String := ""
  users : List UserIdentity

structure GrantStmt extends PrivStmt where
  withGrant : Bool := false

structure CreateTableStmt where
  table : TableName
  ifNotExists : Bool := false
  referTable : Option TableName := none
  partition : Bool := false
  cols : List (String × String)
  ref : TableName := ⟨"", ""⟩
  dbType : String

structure DropTableStmt where
  tables : List TableName
  ifExists : Bool := false
  isTemporary : Bool := false

/-- The query of a view: its text, and what planning it against the schema of a database gives,
which are the names of its columns with their types. -/
structure SelectStmt (cl : Collation) where
  text : String
  plan : Catalog cl → String → Except String (List (String × Except String String))

structure CreateViewStmt (cl : Collation) where
  orReplace : Bool := false
  viewName : TableName
  cols : Option (List String) := none
  select : SelectStmt cl
  definer : Option UserIdentity := none

/-- The password check and the authentication of the party are an input. -/
structure UserSpec where
  user : UserIdentity
  partyCode : String := ""
  authentication : Except String Unit := .ok ()

inductive Statement (cl : Collation)
  | createDatabase (name : String) (ifNotExists : Bool)
  | dropDatabase (name : String) (ifExists : Bool)
  | createTable (s : CreateTableStmt)
  | dropTable (s : DropTableStmt)
  | createView (s : CreateViewStmt cl)
  | grant (s : GrantStmt)
  | revoke (s : PrivStmt)
  | createUser (specs : List UserSpec) (ifNotExists : Bool)
  | dropUser (userList : List UserIdentity) (ifExists : Bool)
  | alterUser (specs : List UserSpec) (ifExists : Bool)

/-- The database that a statement means when it names none. -/
def orCurrent (s : Session) (dbName : String) : String :=
  if dbName = "" then s.currentDB else dbName

def selectDatabase (s : Session) (dbName msg : String) : Except String String := do
  ensure (orCurrent s dbName ≠ "") msg
  return orCurrent s dbName

def handleTableName (s : Session) (tn : TableName) : Except String TableName := do
  ensure (orCurrent s tn.schema ≠ "") "No database selected"
  return {tn with schema := orCurrent s tn.schema}

def preprocess (s : Session) : Statement cl → Except String (Statement cl)
  | .createTable st => do
    let table ← handleTableName s st.table
    let referTable ← st.referTable.mapM (handleTableName s)
    return .createTable {st with table, referTable}
  | .dropTable st => do
    let tables ← st.tables.mapM (handleTableName s)
    return .dropTable {st with tables}
  | .createView st => do
    let viewName ← handleTableName s st.viewName
    return .createView {st with viewName}
  | st => return st

structure VisitInfo where
  privilege : PrivilegeType
  db : String := ""
  table : String := ""
  err : String := "privilege check fail"

def superPriv : PrivilegeType := .other "Super_priv"

def selectPriv : PrivilegeType := .other "Select_priv"

def allPrivs : GrantLevel → List PrivilegeType
  | .global => [.create, .createUser, .drop, .grant]
  | .db | .table => [.create, .drop, .grant]

/-- The privileges that a statement grants or revokes and its issuer has to hold. The visibility
privileges are left to the executor, and nothing is looked at after ALL. -/
def ownedPrivs (level : GrantLevel) : List PrivElem → List PrivilegeType
  | [] => []
  | ⟨.visibility _, _⟩::privs => ownedPrivs level privs
  | ⟨.all, _⟩::_ => allPrivs level
  | ⟨priv, _⟩::privs => priv::ownedPrivs level privs

def collectVisitInfo (s : Session) (st : PrivStmt) : List VisitInfo :=
  (.grant::ownedPrivs st.level st.privs).map
    (fun priv => {privilege := priv, db := orCurrent s st.dbName, table := st.tableName})

def tableAccessDenied (s : Session) (command table : String) : String :=
  s!"{command} command denied to user {s.user.username}@{s.user.hostname} for table {table}"

def dbAccessDenied (s : Session) (db : String) : String :=
  s!"Access denied for user {s.user.username}@{s.user.hostname} to database {db}"

def specificAccessDenied (privilege : String) : String :=
  s!"Access denied; you need (at least one of) the {privilege} privilege(s) for this operation"

def buildDDL (c : Catalog cl) (s : Session) (st : CreateViewStmt cl) :
    Except String (List VisitInfo) := do
  let outputs ← st.select.plan c s.currentDB
  ensure (∀ cols ∈ st.cols, cols.length = outputs.length)
    "create view must include all columns in the select clause"
  let view := cl.lower st.viewName.name
  let access : VisitInfo :=
    { privilege := .createView, db := cl.lower st.viewName.schema, table := view,
      err := tableAccessDenied s "CREATE VIEW" view}
  return access::(if st.definer.getD s.user = s.user then []
    else [{privilege := superPriv, err := specificAccessDenied "SUPER"}])

def visitInfo (c : Catalog cl) (s : Session) : Statement cl → Except String (List VisitInfo)
  | .createDatabase name _ =>
    return [{privilege := .create, db := name, err := dbAccessDenied s name}]
  | .dropDatabase name _ =>
    return [{privilege := .drop, db := name, err := dbAccessDenied s name}]
  | .createTable st =>
    let needs := fun priv (tn : TableName) =>
      ({ privilege := priv, db := cl.lower tn.schema, table := cl.lower tn.name,
         err := tableAccessDenied s "CREATE" (cl.lower tn.name)} : VisitInfo)
    return needs .create st.table::(st.referTable.map (needs selectPriv)).toList
  | .dropTable st =>
    return st.tables.map (fun tn =>
      { privilege := .drop, db := cl.lower tn.schema, table := cl.lower tn.name,
        err := tableAccessDenied s "DROP" (cl.lower tn.name)})
  | .createView st => buildDDL c s st
  | .grant st => do
    ensure (st.level = .table → orCurrent s st.dbName ≠ "") "No database selected"
    return collectVisitInfo s st.toPrivStmt
  | .revoke st => return collectVisitInfo s st
  | .createUser _ _ | .dropUser _ _ =>
    return [{privilege := .createUser, err := specificAccessDenied "CREATE USER"}]
  | .alterUser _ _ => return []

def priv2UserCol : PrivilegeType → String
  | .create => "Create_priv"
  | .createUser => "Create_user_priv"
  | .drop => "Drop_priv"
  | .grant => "Grant_priv"
  | .describe => "Describe_priv"
  | .show => "Show_priv"
  | .createView => "Create_view_priv"
  | .all => ""
  | .visibility .plaintext => "Plaintext_priv"
  | .visibility .plaintextAfterJoin => "Plaintext_after_join_priv"
  | .visibility .plaintextAsJoinPayload => "Plaintext_as_join_payload"
  | .visibility .plaintextAfterGroupBy => "Plaintext_after_group_by_priv"
  | .visibility .plaintextAfterAggregate => "PLAINTEXT_AFTER_AGGREGATE_priv"
  | .visibility .plaintextAfterCompare => "PLAINTEXT_AFTER_COMPARE_priv"
  | .visibility .encryptedOnly => "Encrypted_only_priv"
  | .visibility .revealRank => "Reveal_rank_priv"
  | .other name => name

/-- A privilege held on everything, on the database or on the table will do. -/
def requestVerification (c : Catalog cl) (user : UserIdentity) (v : VisitInfo) :
    Except String Bool :=
  let held := fun privs : Option (List PrivilegeType) => v.privilege ∈ privs.getD []
  if user = ⟨"", ""⟩ ∨ held ((c.users.rows.find?
      (User.matches cl user.username user.hostname)).map (·.privs)) then .ok true
  else if v.db = "" then .ok false
  else if held ((c.databasePrivs.rows.find?
      (DatabasePriv.matches cl user.hostname user.username v.db)).map (·.privs)) then .ok true
  else if v.table = "" then .ok false
  else if held ((c.tablePrivs.rows.find?
      (TablePriv.matches cl user.hostname user.username v.db v.table)).map (·.privs)) then .ok true
  else .error
    s!"user {user.username} need privilege {priv2UserCol v.privilege} to do this operation"

def checkPrivilege (c : Catalog cl) (s : Session) (vs : List VisitInfo) : Except String Unit :=
  vs.forM (fun v => do
    let ok ← requestVerification c s.user v
    ensure ok v.err)

def executeCreateDatabase (c : Catalog cl) (s : Session) (name : String) (ifNotExists : Bool) :
    Except String (Catalog cl) := do
  let dbName := cl.lower name
  if c.checkDatabaseExist dbName then
    ensure ifNotExists s!"database {dbName} already exists"
    return c
  else
    ensure (dbName.utf8ByteSize ≤ 64) s!"database dbName \"{dbName}\" is too long"
    let user ← c.findUser s.user.username s.user.hostname
    ensure (.create ∈ user.privs) s!"access denied for user {s.user.username} to database {dbName}"
    let databases ← create c.databases [dbName]
    return {c with databases}

def supportTypes : List String :=
  ["string", "str", "int32", "int64", "integer", "int", "float32", "float", "double", "float64",
    "datetime", "timestamp"]

def parseDBType (cl : Collation) (tp : String) : Except String DBType :=
  match cl.lower tp with
  | "mysql" => .ok .mysql
  | "sqlite" => .ok .sqlite
  | "postgresql" => .ok .postgresql
  | "csvdb" => .ok .csvdb
  | "odps" => .ok .odps
  | _ => .error s!"unknown db type: {tp}"

def executeCreateTable (c : Catalog cl) (s : Session) (st : CreateTableStmt) :
    Except String (Catalog cl) := do
  ensure (st.referTable = none) "unsupported CREATE TABLE ... LIKE ... statement"
  ensure (st.partition = false) "unsupported PARTITION options"
  ensure (st.cols ≠ []) "unsupported creating TABLE without columns"
  let dbName ← selectDatabase s st.table.schema "no database selected"
  ensure (c.checkDatabaseExist dbName) s!"database {dbName} doesn't exists"
  let tblName := st.table.name
  if c.checkTableExist dbName tblName then
    ensure st.ifNotExists s!"table {dbName}.{tblName} already exists"
    return c
  else
    ensure (∀ col ∈ st.cols, cl.lower col.2 ∈ supportTypes) "unknown type in schema"
    let dbType ← parseDBType cl st.dbType
    let tables ← create c.tables
      [{ db := dbName, table := tblName, owner := s.user.username, host := s.user.hostname,
         refDb := st.ref.schema, refTable := st.ref.name, dbType := some dbType}]
    ensure (st.cols.map (fun col => cl.lower col.1)).Nodup
      s!"duplicate column names in table {tblName}"
    let columns ← create c.columns (st.cols.map (fun col =>
      {db := dbName, tableName := tblName, columnName := cl.lower col.1, type := col.2}))
    return {c with tables, columns}

/-- The schema that the query is planned against is read before the old view is dropped. -/
def executeCreateView (c : Catalog cl) (s : Session) (st : CreateViewStmt cl) :
    Except String (Catalog cl) := do
  let dbName ← selectDatabase s (cl.lower st.viewName.schema) "no database selected"
  ensure (c.checkDatabaseExist dbName) s!"database {dbName} doesn't exists"
  let viewName := st.viewName.name
  let c₁ ← (if c.checkTableExist dbName viewName then do
      ensure st.orReplace s!"view {dbName}.{viewName} already exists"
      c.dropTableByName dbName viewName
    else pure c)
  let tables ← create c₁.tables
    [{ db := dbName, table := viewName, owner := s.user.username, host := s.user.hostname,
       isView := true, selectString := st.select.text}]
  let outputs ← st.select.plan c dbName
  let rows ← outputs.zipIdx.mapM (fun field => do
    ensure (field.1.1 ≠ "") "ddl.executeCreateView must set column name explicitly"
    let type ← field.1.2
    return { db := dbName, tableName := viewName, columnName := cl.lower field.1.1, type,
             ordinalPosition := field.2})
  let columns ← create c₁.columns rows
  return {c₁ with tables, columns}

def executeDropDatabase (c : Catalog cl) (name : String) (ifExists : Bool) :
    Except String (Catalog cl) := do
  let dbName := cl.lower name
  if c.checkDatabaseExist dbName then c.dropSchemaByName dbName
  else
    ensure ifExists s!"database {dbName} not exists"
    return c

def executeDropTableOrView (c : Catalog cl) (s : Session) (st : DropTableStmt) :
    Except String (Catalog cl) := do
  ensure (st.isTemporary = false) "drop table statement dose not support drop temporary table yet"
  match st.tables with
  | [tn] =>
    let dbName ← selectDatabase s (cl.lower tn.schema) "no specified database"
    let tblName := tn.name
    if c.checkDatabaseExist dbName = false then
      ensure st.ifExists s!"database {dbName} doesn't exists"
      return c
    else if c.checkTableExist dbName tblName = false then
      ensure st.ifExists s!"table {dbName}.{tblName} not exists"
      return c
    else
      c.checkTableOwner dbName tblName s.user.username s.user.hostname
      c.dropTableByName dbName tblName
  | _ => throw "drop table statement only support drop one table at once"

def executeCreateUser (c : Catalog cl) (specs : List UserSpec) (ifNotExists : Bool) :
    Except String (Catalog cl) :=
  match specs with
  | [spec] => do
    ensure (spec.partyCode ≠ "") s!"user {spec.user.username} has no party code"
    match c.users.rows.find? (fun r => cl.field spec.partyCode r.partyCode) with
    | some userExist =>
      ensure (userExist.user = spec.user.username ∧ userExist.host = spec.user.hostname)
        s!"only one user is allowed to exist in a party, user {userExist.user} is already exist"
      ensure ifNotExists s!"user {spec.user.username} host {spec.user.hostname} already exists"
      return c
    | none =>
      spec.authentication
      let users ← create c.users
        [{ host := spec.user.hostname, user := cl.lower spec.user.username,
           partyCode := spec.partyCode}]
      return {c with users}
  | _ => throw "create user statement only supports creating one user at a time"

def executeDropUser (c : Catalog cl) (userList : List UserIdentity) (ifExists : Bool) :
    Except String (Catalog cl) :=
  match userList with
  | [user] => do
    if c.checkUserExist user.username user.hostname then
      whereRequired [user.username, user.hostname]
      return { c with
        databasePrivs := c.databasePrivs.deleteWhere
          (DatabasePriv.matches cl user.hostname user.username "")
        tablePrivs := c.tablePrivs.deleteWhere
          (TablePriv.matches cl user.hostname user.username "" "")
        columnPrivs := c.columnPrivs.deleteWhere
          (ColumnPriv.matches cl user.hostname user.username "" "")
        users := c.users.deleteWhere (User.matches cl user.username user.hostname)}
    else
      ensure ifExists s!"drop an non-exist user {user.username}"
      return c
  | _ => throw "drop user statement only supports dropping one user at one time"

/-- Only the password and the endpoints change, which the catalog leaves out. -/
def executeAlterUser (c : Catalog cl) (s : Session) (specs : List UserSpec) (ifExists : Bool) :
    Except String (Catalog cl) :=
  match specs with
  | [spec] => do
    ensure (s.user = spec.user) "only support user themselves to execute alter user"
    if c.checkUserExist spec.user.username spec.user.hostname then
      spec.authentication
      return c
    else
      ensure ifExists s!"user {spec.user.username} host {spec.user.hostname} not exists"
      return c
  | _ => throw "alter user statement only supports alter one user at one time"

/-- A user who gives or takes other privileges than visibility does so within the own party. -/
def checkUserGrantPriv (c : Catalog cl) (issuerUser curUser : UserIdentity)
    (privs : List PrivElem) : Except String Unit := do
  ensure (curUser ≠ ⟨"root", "%"⟩) "you can't grant or revoke priv for root"
  let curPartyCode ← c.queryUserPartyCode curUser.username curUser.hostname
  if issuerUser = ⟨"root", "%"⟩ then return ()
  else
    let issuerPartyCode ← c.queryUserPartyCode issuerUser.username issuerUser.hostname
    ensure (issuerPartyCode = curPartyCode ∨ ∀ p ∈ privs, p.priv.isVisibility)
      s!"you can't grant or revoke priv for user {curUser.username} in another party"

/-- The privilege columns of the tables of users, of database and of table privileges. -/
def privColumns : GrantLevel → List PrivilegeType
  | .global => [.create, .createUser, .drop, .grant, .describe, .show, .createView]
  | .db => [.create, .drop, .grant, .describe, .show, .createView]
  | .table => [.create, .drop, .grant]

/-- The columns to set at the global or at the database level; nothing is looked at after ALL. -/
def composePrivUpdate (level : GrantLevel) : List PrivElem → List PrivilegeType
  | [] => []
  | p::privs =>
    if p.cols ≠ [] then composePrivUpdate level privs
    else if p.priv = .all then allPrivs level
    else p.priv::composePrivUpdate level privs

def grantGlobalLevelPriv (c : Catalog cl) (st : PrivStmt) (user : UserIdentity) :
    Except String (Catalog cl) := do
  let attrs := composePrivUpdate st.level st.privs
  if attrs = [] then return c
  else
    ensure (∀ p ∈ attrs, p ∈ privColumns .global) "unknown column"
    whereRequired [user.hostname, user.username]
    return { c with
      users := c.users.updateWhere (User.matches cl user.username user.hostname)
        (fun r => {r with privs := r.privs ∪ attrs}) (fun _ => rfl)}

def grantDBLevelPriv (c : Catalog cl) (st : PrivStmt) (user : UserIdentity) :
    Except String (Catalog cl) := do
  let attrs := composePrivUpdate st.level st.privs
  if attrs = [] then return c
  else
    ensure (∀ p ∈ attrs, p ∈ privColumns .db) "unknown column"
    whereRequired [user.hostname, user.username, st.dbName]
    let cond := DatabasePriv.matches cl user.hostname user.username st.dbName
    if c.databasePrivs.rows.any cond then
      return { c with
        databasePrivs := c.databasePrivs.updateWhere cond
          (fun r => {r with privs := r.privs ∪ attrs}) (fun _ => rfl)}
    else
      let databasePrivs ← create c.databasePrivs
        [{host := user.hostname, user := user.username, db := st.dbName, privs := attrs}]
      return {c with databasePrivs}

/-- The columns of a table privilege that a statement sets. -/
structure TableAttrs where
  visibility : Option Visibility := none
  flags : List PrivilegeType := []
  deriving DecidableEq

def composeTablePriv (attrs : TableAttrs) (p : PrivElem) : Except String TableAttrs :=
  if p.cols ≠ [] then pure attrs
  else match p.priv with
    | .all => pure {attrs with flags := attrs.flags ++ allPrivs .table}
    | .visibility v => pure {attrs with visibility := some v}
    | priv => do
      ensure (priv ∈ privColumns .table) "Unknown table priv"
      return {attrs with flags := attrs.flags ++ [priv]}

/-- Of several visibility privileges the last one counts. -/
def composeTablePrivUpdate (privs : List PrivElem) : Except String TableAttrs :=
  privs.foldlM composeTablePriv {}

def grantTableLevelPriv (c : Catalog cl) (st : PrivStmt) (user : UserIdentity) :
    Except String (Catalog cl) := do
  let attrs ← composeTablePrivUpdate st.privs
  if attrs = {} then return c
  else
    whereRequired [user.hostname, user.username, st.dbName, st.tableName]
    let cond := TablePriv.matches cl user.hostname user.username st.dbName st.tableName
    if c.tablePrivs.rows.any cond then
      return { c with
        tablePrivs := c.tablePrivs.updateWhere cond
          (fun r => { r with
            privs := r.privs ∪ attrs.flags
            visibilityPriv := attrs.visibility.or r.visibilityPriv})
          (fun _ => rfl)}
    else
      let tablePrivs ← create c.tablePrivs
        [{ host := user.hostname, user := user.username, db := st.dbName,
           tableName := st.tableName, privs := attrs.flags, visibilityPriv := attrs.visibility}]
      return {c with tablePrivs}

/-- Insert a row for each column that has none yet. The rows that are there are looked up by their
name in lower case. -/
def initColumnPriv (c : Catalog cl) (st : PrivStmt) (user : UserIdentity)
    (colNames : List String) : Except String (Catalog cl) := do
  let exist := ((c.columnPrivs.rows.filter
    (ColumnPriv.matches cl user.hostname user.username st.dbName st.tableName)).filter
    (fun r => cl.isIn r.columnName colNames)).map (fun r => cl.lower r.columnName)
  let columnPrivs ← create c.columnPrivs ((colNames.filter (· ∉ exist)).map (fun colName =>
    { host := user.hostname, db := st.dbName, user := user.username, tableName := st.tableName,
      columnName := colName}))
  return {c with columnPrivs}

def grantColumnPriv (c : Catalog cl) (st : PrivStmt) (user : UserIdentity) (priv : PrivilegeType)
    (colNames : List String) : Except String (Catalog cl) := do
  let c ← initColumnPriv c st user colNames
  match priv with
  | .visibility v =>
    return { c with
      columnPrivs := c.columnPrivs.updateWhere
        (fun r => ColumnPriv.matches cl user.hostname user.username st.dbName st.tableName r &&
          cl.isIn r.columnName colNames)
        (fun r => {r with visibilityPriv := some v}) (fun _ => rfl)}
  | _ => throw "unknown visibility priv"

def grantColumnElem (st : PrivStmt) (user : UserIdentity) (c : Catalog cl) (p : PrivElem) :
    Except String (Catalog cl) :=
  if p.cols = [] then pure c
  else do
    let colNames := p.cols.map cl.lower
    c.checkColumnsExist st.dbName st.tableName colNames
    grantColumnPriv c st user p.priv
      (c.getColumnOriginNameByLowerName st.dbName st.tableName colNames)

def grantColumnLevelPriv (c : Catalog cl) (st : PrivStmt) (user : UserIdentity) :
    Except String (Catalog cl) :=
  st.privs.foldlM (grantColumnElem st user) c

def executeGrant (c : Catalog cl) (s : Session) (st : GrantStmt) : Except String (Catalog cl) := do
  ensure (st.withGrant = false) "WITH GRANT OPTION is not supported"
  match st.users with
  | [user] =>
    checkUserGrantPriv c s.user user st.privs
    let st := {st.toPrivStmt with dbName := orCurrent s st.dbName}
    match st.level with
    | .global => grantGlobalLevelPriv c st user
    | .db =>
      ensure (c.checkDatabaseExist st.dbName) s!"database {st.dbName} not exists"
      grantDBLevelPriv c st user
    | .table =>
      c.checkTableOwner st.dbName st.tableName s.user.username s.user.hostname
      let c ← grantTableLevelPriv c st user
      grantColumnLevelPriv c st user
  | _ => throw "grant statement only supports grant privileges to one user at one time"

/-- The privileges that a REVOKE element clears; the levels differ in the privileges they know. -/
def revokedPrivs (level : GrantLevel) (priv : PrivilegeType) :
    Except String (List PrivilegeType) := do
  if priv = .all then return allPrivs level
  else
    ensure (priv ∈ allPrivs level) "unknown priv"
    return [priv]

def revokeGlobalPriv (c : Catalog cl) (user : UserIdentity) (p : PrivElem) :
    Except String (Catalog cl) := do
  let attrs ← revokedPrivs .global p.priv
  whereRequired [user.hostname, user.username]
  return { c with
    users := c.users.updateWhere (User.matches cl user.username user.hostname)
      (fun r => {r with privs := r.privs.filter (· ∉ attrs)}) (fun _ => rfl)}

def revokeDBPriv (c : Catalog cl) (st : PrivStmt) (user : UserIdentity) (p : PrivElem) :
    Except String (Catalog cl) := do
  let attrs ← revokedPrivs .db p.priv
  whereRequired [st.dbName, user.hostname, user.username]
  let cond := DatabasePriv.matches cl user.hostname user.username st.dbName
  ensure (c.databasePrivs.rows.any cond)
    s!"there is no such grant defined for user: {user.username}"
  return { c with
    databasePrivs := c.databasePrivs.updateWhere cond
      (fun r => {r with privs := r.privs.filter (· ∉ attrs)}) (fun _ => rfl)}

/-- A visibility privilege is taken only from the rows that have it. -/
def revokeTablePriv (c : Catalog cl) (st : PrivStmt) (user : UserIdentity) (p : PrivElem) :
    Except String (Catalog cl) := do
  let cond := TablePriv.matches cl user.hostname user.username st.dbName st.tableName
  match p.priv with
  | .visibility v =>
    return { c with
      tablePrivs := c.tablePrivs.updateWhere (fun r => cond r && r.visibilityPriv = some v)
        (fun r => {r with visibilityPriv := none}) (fun _ => rfl)}
  | priv => do
    let attrs ← revokedPrivs .table priv
    whereRequired [user.hostname, user.username, st.dbName, st.tableName]
    return { c with
      tablePrivs := c.tablePrivs.updateWhere cond
        (fun r => {r with privs := r.privs.filter (· ∉ attrs)}) (fun _ => rfl)}

/-- The rows are selected by their name in lower case and then looked up by the name they have. -/
def revokeColumnPriv (c : Catalog cl) (st : PrivStmt) (user : UserIdentity) (p : PrivElem) :
    Except String (Catalog cl) := do
  let colNames := p.cols.map cl.lower
  c.checkColumnsExist st.dbName st.tableName colNames
  match p.priv with
  | .visibility v =>
    let cond := fun r : ColumnPriv =>
      ColumnPriv.matches cl user.hostname user.username st.dbName st.tableName r &&
        r.visibilityPriv = some v && cl.isIn (cl.lower r.columnName) colNames
    let exist := (c.columnPrivs.rows.filter cond).map (·.columnName)
    colNames.forM (fun colName => ensure (colName ∈ exist)
      s!"there is no such privilege defined for user {user.username} on host {user.hostname} on table column {st.tableName}.{colName}")
    return {c with columnPrivs := c.columnPrivs.deleteWhere cond}
  | _ => throw "revokeColumnPriv: doesn't support privType"

def revokeElem (st : PrivStmt) (user : UserIdentity) (c : Catalog cl) (p : PrivElem) :
    Except String (Catalog cl) :=
  if p.cols = [] then revokeTablePriv c st user p else revokeColumnPriv c st user p

def revokeTableLevelPriv (c : Catalog cl) (s : Session) (st : PrivStmt) (user : UserIdentity) :
    Except String (Catalog cl) := do
  c.checkTableOwner st.dbName st.tableName s.user.username s.user.hostname
  st.privs.foldlM (revokeElem st user) c

def executeRevoke (c : Catalog cl) (s : Session) (st : PrivStmt) : Except String (Catalog cl) :=
  match st.users with
  | [user] => do
    checkUserGrantPriv c s.user user st.privs
    let st := {st with dbName := orCurrent s st.dbName}
    match st.level with
    | .global => st.privs.foldlM (fun c p => revokeGlobalPriv c user p) c
    | .db => st.privs.foldlM (fun c p => revokeDBPriv c st user p) c
    | .table => revokeTableLevelPriv c s st user
  | _ => throw "revoke statement only supports revoke privileges from one user at one time"

def execute (c : Catalog cl) (s : Session) : Statement cl → Except String (Catalog cl)
  | .createDatabase name ifNotExists => executeCreateDatabase c s name ifNotExists
  | .dropDatabase name ifExists => executeDropDatabase c name ifExists
  | .createTable st => executeCreateTable c s st
  | .dropTable st => executeDropTableOrView c s st
  | .createView st => executeCreateView c s st
  | .grant st => executeGrant c s st
  | .revoke st => executeRevoke c s st
  | .createUser specs ifNotExists => executeCreateUser c specs ifNotExists
  | .dropUser userList ifExists => executeDropUser c userList ifExists
  | .alterUser specs ifExists => executeAlterUser c s specs ifExists

def run (c : Catalog cl) (s : Session) (st : Statement cl) : Except String (Catalog cl) := do
  let st ← preprocess s st
  let vs ← visitInfo c s st
  checkPrivilege c s vs
  execute c s st

/-- The catalog after a statement, which an error leaves as it was. -/
def next (c : Catalog cl) (s : Session) (st : Statement cl) : Catalog cl :=
  (run c s st).toOption.getD c

end Scql.Scdb
