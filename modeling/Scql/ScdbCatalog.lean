import Mathlib.Data.String.Basic
import Scql.FallibleRules
import Scql.KeyedTable

/-! # The catalog of SCDB

Users, databases, tables, columns and privileges are rows of a relational database with unique
indexes. Rows are selected by an example row: a field of the example that has its zero value is no
condition, so an empty table name selects the rows of every table. -/
namespace Scql.Scdb

open Fallible

/-- How names are compared. The database takes two strings for equal when their `fold` is; `lower`
is the lower-casing of the code, which is also the one of SQL. -/
structure Collation where
  fold : String → String
  lower : String → String

namespace Collation

def same (cl : Collation) (a b : String) : Prop := cl.fold a = cl.fold b

instance (cl : Collation) (a b : String) : Decidable (cl.same a b) :=
  inferInstanceAs (Decidable (cl.fold a = cl.fold b))

/-- The condition that one field of an example row puts on a stored field. -/
def field (cl : Collation) (want stored : String) : Bool := want = "" ∨ cl.same want stored

def isIn (cl : Collation) (stored : String) (list : List String) : Bool :=
  list.any (cl.same · stored)

def asciiLower (s : String) : String := String.ofList (s.toList.map Char.toLower)

/-- A database that does not tell upper from lower case. -/
def ascii : Collation := ⟨asciiLower, asciiLower⟩

end Collation

inductive Visibility
  | plaintext | plaintextAfterJoin | plaintextAsJoinPayload | plaintextAfterGroupBy
  | plaintextAfterAggregate | plaintextAfterCompare | encryptedOnly | revealRank
  deriving DecidableEq

/-- The privileges of a statement. Those that no row of the catalog can hold are told apart by
their name only. -/
inductive PrivilegeType
  | create | createUser | drop | grant | describe | show | createView | all
  | visibility (v : Visibility)
  | other (name : String)
  deriving DecidableEq

def PrivilegeType.isVisibility : PrivilegeType → Bool
  | .visibility _ => true
  | _ => false

structure UserIdentity where
  username : String
  hostname : String := "%"
  deriving DecidableEq

/-- A user is its account and the privilege columns that are set. -/
structure User where
  host : String
  user : String
  partyCode : String := ""
  privs : List PrivilegeType := []
  deriving DecidableEq

structure DatabasePriv where
  host : String
  db : String
  user : String
  privs : List PrivilegeType := []
  deriving DecidableEq

inductive DBType
  | mysql | sqlite | postgresql | csvdb | odps
  deriving DecidableEq

structure Table where
  db : String
  table : String
  owner : String
  host : String
  refDb : String := ""
  refTable : String := ""
  isView : Bool := false
  selectString : String := ""
  dbType : Option DBType := none
  deriving DecidableEq

structure Column where
  db : String
  tableName : String
  columnName : String
  ordinalPosition : ℕ := 0
  type : String
  deriving DecidableEq

structure TablePriv where
  host : String
  db : String
  user : String
  tableName : String
  privs : List PrivilegeType := []
  visibilityPriv : Option Visibility := none
  deriving DecidableEq

structure ColumnPriv where
  host : String
  db : String
  user : String
  tableName : String
  columnName : String
  visibilityPriv : Option Visibility := none
  deriving DecidableEq

variable (cl : Collation)

def User.key (r : User) : String × String := (cl.fold r.host, cl.fold r.user)

def DatabasePriv.key (r : DatabasePriv) : String × String × String :=
  (cl.fold r.host, cl.fold r.db, cl.fold r.user)

def Table.key (r : Table) : String × String := (cl.fold r.db, cl.fold r.table)

def Column.key (r : Column) : String × String × String :=
  (cl.fold r.db, cl.fold r.tableName, cl.fold r.columnName)

def TablePriv.key (r : TablePriv) : String × String × String × String :=
  (cl.fold r.host, cl.fold r.db, cl.fold r.user, cl.fold r.tableName)

def ColumnPriv.key (r : ColumnPriv) : String × String × String × String × String :=
  (cl.fold r.host, cl.fold r.db, cl.fold r.user, cl.fold r.tableName, cl.fold r.columnName)

/-- The tables of the catalog, each with its unique index. -/
structure Catalog (cl : Collation) where
  users : KeyedTable (User.key cl) := .empty
  databases : KeyedTable cl.fold := .empty
  tables : KeyedTable (Table.key cl) := .empty
  columns : KeyedTable (Column.key cl) := .empty
  databasePrivs : KeyedTable (DatabasePriv.key cl) := .empty
  tablePrivs : KeyedTable (TablePriv.key cl) := .empty
  columnPrivs : KeyedTable (ColumnPriv.key cl) := .empty

def User.matches (user host : String) (r : User) : Bool :=
  cl.field user r.user && cl.field host r.host

def DatabasePriv.matches (host user db : String) (r : DatabasePriv) : Bool :=
  cl.field host r.host && cl.field user r.user && cl.field db r.db

def Table.matches (db table : String) (r : Table) : Bool :=
  cl.field db r.db && cl.field table r.table

def Column.matches (db tableName : String) (r : Column) : Bool :=
  cl.field db r.db && cl.field tableName r.tableName

def TablePriv.matches (host user db tableName : String) (r : TablePriv) : Bool :=
  cl.field host r.host && cl.field user r.user && cl.field db r.db && cl.field tableName r.tableName

def ColumnPriv.matches (host user db tableName : String) (r : ColumnPriv) : Bool :=
  cl.field host r.host && cl.field user r.user && cl.field db r.db && cl.field tableName r.tableName

/-- An update or a deletion without any condition is refused. -/
def whereRequired (fields : List String) : Except String Unit :=
  ensure (∃ f ∈ fields, f ≠ "") "WHERE conditions required"

/-- Insert rows, which the unique index of the table may refuse. -/
def create {α κ : Type} [DecidableEq κ] {key : α → κ} (t : KeyedTable key) (rows : List α) :
    Except String (KeyedTable key) :=
  (t.insertAll rows).elim (.error "duplicate entry") .ok

variable {α κ : Type} [DecidableEq κ] {key : α → κ} {t t' : KeyedTable key} {rows : List α}

lemma create_eq_ok : create t rows = .ok t' ↔ t.insertAll rows = some t' :=
  elim_eq_ok

lemma mem_create (h : create t rows = .ok t') {b : α} : b ∈ t' ↔ b ∈ rows ∨ b ∈ t :=
  KeyedTable.mem_insertAll (create_eq_ok.mp h)

variable {cl : Collation}

namespace Catalog

/-- A query into a single row reads the first row that meets the condition. -/
def findUser (c : Catalog cl) (userName hostName : String) : Except String User :=
  (c.users.rows.find? (User.matches cl userName hostName)).elim
    (.error s!"user {userName} doesn't exists") .ok

def checkUserExist (c : Catalog cl) (name host : String) : Bool :=
  c.users.rows.any (User.matches cl name host)

def queryUserPartyCode (c : Catalog cl) (userName host : String) : Except String String := do
  let user ← (c.users.rows.find? (User.matches cl userName host)).elim
    (.error s!"user {userName}@{host} not found") .ok
  ensure (user.partyCode ≠ "") s!"there is no party code for user {userName}@{host}"
  return user.partyCode

def findUserByParty (c : Catalog cl) (partyCode : String) : Except String User :=
  (c.users.rows.find? (fun r => cl.field partyCode r.partyCode)).elim
    (.error s!"expect only one user for party: {partyCode}, but got 0") .ok

def checkDatabaseExist (c : Catalog cl) (dbName : String) : Bool :=
  c.databases.rows.any (cl.field dbName)

def checkTableExist (c : Catalog cl) (dbName tblName : String) : Bool :=
  c.tables.rows.any (Table.matches cl dbName tblName)

def checkTableOwner (c : Catalog cl) (dbName tblName userName hostName : String) :
    Except String Unit := do
  let table ← (c.tables.rows.find? (Table.matches cl dbName tblName)).elim
    (.error s!"table {dbName}.{tblName} doesn't exists") .ok
  ensure (table.owner = userName ∧ table.host = hostName)
    s!"user {userName}.{hostName} is not the owner of table {dbName}.{tblName}"

def checkColumnsExist (c : Catalog cl) (dbName tblName : String) (colNames : List String) :
    Except String Unit :=
  let exist := ((c.columns.rows.filter (Column.matches cl dbName tblName)).filter
    (fun r => cl.isIn r.columnName colNames)).map (fun r => cl.lower r.columnName)
  colNames.forM (fun colName => ensure (colName ∈ exist) s!"couldn't find column: {colName}")

def getColumnOriginNameByLowerName (c : Catalog cl) (dbName tblName : String)
    (colNames : List String) : List String :=
  ((c.columns.rows.filter (Column.matches cl dbName tblName)).filter
    (fun r => cl.isIn (cl.lower r.columnName) colNames)).map (·.columnName)

/-- Remove a table, its columns and the privileges on it; or those of all tables of the database,
if the name is empty. -/
def dropTableByName (c : Catalog cl) (dbName tableName : String) : Except String (Catalog cl) := do
  ensure (dbName ≠ "") "ddlHandler.dropTablesInDatabase: db name cannot be empty"
  return { c with
    tables := c.tables.deleteWhere (Table.matches cl dbName tableName)
    tablePrivs := c.tablePrivs.deleteWhere (TablePriv.matches cl "" "" dbName tableName)
    columns := c.columns.deleteWhere (Column.matches cl dbName tableName)
    columnPrivs := c.columnPrivs.deleteWhere (ColumnPriv.matches cl "" "" dbName tableName)}

def dropSchemaByName (c : Catalog cl) (schemaName : String) : Except String (Catalog cl) := do
  let c ← c.dropTableByName schemaName ""
  return { c with
    databases := c.databases.deleteWhere (fun db => cl.same schemaName db)
    databasePrivs := c.databasePrivs.deleteWhere (fun r => cl.same schemaName r.db)}

end Catalog

end Scql.Scdb
