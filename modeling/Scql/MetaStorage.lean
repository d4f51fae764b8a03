import Mathlib.Data.List.MinMax
import Mathlib.Data.String.Basic
import Scql.FallibleRules
import Scql.KeyedTable
import Scql.MapRange

/-! # Meta transactions of a broker

The tables of a broker's database and what a transaction does to them. The database has primary
keys and no foreign keys. An error rolls the transaction back, so a transaction is a function that
may fail. Rows are mostly selected by an example row, in which an empty field is no condition: a
query by an empty project id reads the rows of all projects. Most calls refuse an empty id, but an
invitation may have one. -/
namespace Scql.Broker

abbrev PartyCode := String

namespace MetaStorage

open MapRange Fallible

structure Project where
  id : String
  name : String := ""
  description : String := ""
  creator : PartyCode
  archived : Bool := false
  projectConf : String := ""
  deriving DecidableEq

structure Member where
  projectID : String
  member : PartyCode
  deriving DecidableEq

@[ext] structure TableIdentifier where
  projectID : String
  tableName : String
  deriving DecidableEq

structure Table extends TableIdentifier where
  refTable : String := ""
  dbType : String := ""
  owner : PartyCode
  isView : Bool := false
  selectString : String := ""
  deriving DecidableEq

structure ColumnIdentifier extends TableIdentifier where
  columnName : String
  deriving DecidableEq

structure Column extends ColumnIdentifier where
  dType : String
  position : ℕ
  deriving DecidableEq

structure ColumnPrivIdentifier extends ColumnIdentifier where
  destParty : PartyCode
  deriving DecidableEq

structure ColumnPriv extends ColumnPrivIdentifier where
  priv : String
  deriving DecidableEq

inductive InvitationStatus
  | UNDECIDED | ACCEPTED | DECLINED | INVALID
  deriving DecidableEq

/-- The members are stored as one string, joined by semicolons. -/
structure Invitation where
  id : ℕ
  projectID : String
  name : String := ""
  description : String := ""
  creator : PartyCode
  member : List PartyCode
  projectConf : String := ""
  inviter : PartyCode
  invitee : PartyCode
  status : InvitationStatus := .UNDECIDED
  deriving DecidableEq

@[ext] structure ColumnMeta where
  columnName : String
  dType : String
  deriving DecidableEq

/-- A table or a view, with its columns in their original order. -/
structure TableMeta where
  table : Table
  columns : List ColumnMeta
  deriving DecidableEq

structure Database where
  projects : KeyedTable Project.id := .empty
  members : KeyedTable (id : Member → Member) := .empty
  tables : KeyedTable Table.toTableIdentifier := .empty
  columns : KeyedTable Column.toColumnIdentifier := .empty
  columnPrivs : KeyedTable ColumnPriv.toColumnPrivIdentifier := .empty
  invitations : KeyedTable Invitation.id := .empty

variable {α κ : Type} {key : α → κ} [DecidableEq κ]

def createInBatches (t : KeyedTable key) (rows : List α) : Except String (KeyedTable key) :=
  (t.insertAll rows).elim (.error "UNIQUE constraint failed") .ok

/-- A single statement for several rows, which may not be empty. -/
def create (t : KeyedTable key) (rows : List α) : Except String (KeyedTable key) :=
  if rows = [] then .error "empty slice found" else createInBatches t rows

/-- The condition that a field of an example row puts on a stored field. -/
def selects (want stored : String) : Bool := want = "" ∨ stored = want

lemma selects_eq_true {want stored : String} (h : want ≠ "") :
  selects want stored = true ↔ stored = want := by
  simp [selects, h]

namespace Database

/-- `First` reads the row with the least primary key. -/
def findProject (db : Database) (projectID : String) : Option Project :=
  if projectID = "" then db.projects.rows.argmin (·.id) else db.projects.find? projectID

def getProject (db : Database) (projectID : String) : Except String Project :=
  (db.findProject projectID).elim (.error "record not found") .ok

def getProjectMembers (db : Database) (projectID : String) : List PartyCode :=
  (db.members.rows.filter (selects projectID ·.projectID)).map (·.member)

def addProjectMembers (db : Database) (members : List Member) : Except String Database := do
  let members ← createInBatches db.members members
  return {db with members}

def createProject (db : Database) (project : Project) : Except String Database := do
  let projects ← create db.projects [project]
  addProjectMembers {db with projects} [⟨project.id, project.creator⟩]

/-- The columns of a row that an update by struct sets: those that are not zero. -/
def Project.updates (proj row : Project) : Project where
  id := row.id
  name := if proj.name = "" then row.name else proj.name
  description := if proj.description = "" then row.description else proj.description
  creator := if proj.creator = "" then row.creator else proj.creator
  archived := proj.archived || row.archived
  projectConf := if proj.projectConf = "" then row.projectConf else proj.projectConf

lemma Project.updates_id (proj row : Project) : (Project.updates proj row).id = row.id := rfl

def updateProject (db : Database) (proj : Project) : Except String Database :=
  if (db.projects.find? proj.id).isSome then
    .ok { db with
      projects := db.projects.updateWhere (·.id = proj.id) (Project.updates proj)
        (Project.updates_id proj)}
  else .error ("failed to update project " ++ proj.id ++ ", with affected rows num 0")

def addTable (db : Database) (table : TableMeta) : Except String Database := do
  let tables ← create db.tables [table.table]
  let columns ← create db.columns (table.columns.zipIdx.map (fun c =>
    ⟨⟨table.table.toTableIdentifier, c.1.columnName⟩, c.1.dType, 1+c.2⟩))
  return {db with tables, columns}

def dropTableColumns (db : Database) (table : TableIdentifier) : Database :=
  { db with
    columnPrivs := db.columnPrivs.deleteWhere (·.toTableIdentifier = table)
    columns := db.columns.deleteWhere (·.toTableIdentifier = table)}

def dropTable (db : Database) (table : TableIdentifier) : Database :=
  let db := dropTableColumns db table
  {db with tables := db.tables.deleteWhere (·.toTableIdentifier = table)}

def getAllTables (db : Database) (projectID : String) : List Table :=
  db.tables.rows.filter (·.projectID = projectID)

def listDedupTableOwners (db : Database) (projectID : String) (tableNames : List String) :
    List PartyCode :=
  sliceDeDup (((getAllTables db projectID).filter (·.tableName ∈ tableNames)).map (·.owner))

def columnsOf (db : Database) (table : TableIdentifier) : List ColumnMeta :=
  ((db.columns.rows.filter (·.toTableIdentifier = table)).insertionSort
    (fun c d => c.position ≤ d.position)).map (fun c => ⟨c.columnName, c.dType⟩)

/-- The tables with the given names, all tables if no name is given, and the names without a
table. A table without columns is not found. -/
def getTableMetasByTableNames (db : Database) (projectID : String) (tableNames : List String) :
    List TableMeta × List String :=
  let metas := ((getAllTables db projectID).filter (fun t =>
    tableNames = [] ∨ t.tableName ∈ tableNames)).map (fun t =>
      (⟨t, columnsOf db t.toTableIdentifier⟩ : TableMeta))
  let found := metas.filter (·.columns ≠ [])
  (found.insertionSort (fun s t => s.table.tableName ≤ t.table.tableName),
    tableNames.filter (fun n => ∀ t ∈ found, t.table.tableName ≠ n))

def deleteProject (db : Database) (projectID : String) : Except String Database := do
  let project ← getProject db projectID
  ensure project.archived ("project " ++ projectID ++ " must be archived before deletion")
  let db := (getAllTables db projectID).foldl (fun db table =>
    dropTable db ⟨projectID, table.tableName⟩) db
  return { db with
    members := db.members.deleteWhere (·.projectID = projectID)
    invitations := db.invitations.deleteWhere (·.projectID = projectID)
    projects := db.projects.deleteWhere (·.id = projectID)}

def grantColumnConstraints (db : Database) (privs : List ColumnPriv) : Database :=
  {db with columnPrivs := db.columnPrivs.upsertAll privs}

def ColumnPriv.revoke (row : ColumnPriv) : ColumnPriv := {row with priv := "UNKNOWN"}

lemma ColumnPriv.revoke_key (row : ColumnPriv) :
  (ColumnPriv.revoke row).toColumnPrivIdentifier = row.toColumnPrivIdentifier := rfl

/-- The rows an identifier selects. A condition by struct skips empty fields. -/
def ColumnPrivIdentifier.selects (k : ColumnPrivIdentifier) (row : ColumnPriv) : Bool :=
  MetaStorage.selects k.projectID row.projectID ∧ MetaStorage.selects k.tableName row.tableName ∧
    row.columnName = k.columnName ∧ MetaStorage.selects k.destParty row.destParty

def revokeColumnConstraints (db : Database) (privIdentifiers : List ColumnPrivIdentifier) :
    Database :=
  { db with
    columnPrivs := db.columnPrivs.updateWhere
      (fun row => privIdentifiers.any (ColumnPrivIdentifier.selects · row))
      ColumnPriv.revoke ColumnPriv.revoke_key}

/-- An empty list of names or parties does not restrict the rows. -/
def listColumnConstraints (db : Database) (projectID : String) (tableNames : List String)
    (destParties : List PartyCode) : List ColumnPriv :=
  db.columnPrivs.rows.filter (fun p => selects projectID p.projectID ∧
    (tableNames = [] ∨ p.tableName ∈ tableNames) ∧ (destParties = [] ∨ p.destParty ∈ destParties))

structure ProjectMeta where
  proj : Project
  members : List PartyCode
  tables : List TableMeta
  ccls : List ColumnPriv
  deriving DecidableEq

/-- What a party tells of a project: the tables it owns among those asked for, and the column
privileges of these. If all tables are asked for and it owns none, the list of names for the
privileges is empty and does not restrict them. -/
def getProjectMeta (db : Database) (projectID : String) (tableNames : List String)
    (cclDestParties : List PartyCode) (owner : PartyCode) : Except String ProjectMeta := do
  let proj ← db.getProject projectID
  let tables := (db.getTableMetasByTableNames projectID tableNames).1.filter
    (·.table.owner = owner)
  return {
    proj
    members := db.getProjectMembers projectID
    tables
    ccls := if tableNames ≠ [] ∧ tables = [] then [] else
      db.listColumnConstraints projectID (tables.map (·.table.tableName)) cclDestParties}

end Database

lemma mem_getTableMetas {db : Database} {projectID : String} {names : List String} {m : TableMeta}
  (hm : m ∈ (db.getTableMetasByTableNames projectID names).1) :
  m.table ∈ db.tables ∧ m.table.projectID = projectID ∧
    m.columns = db.columnsOf m.table.toTableIdentifier := by
  rw [Database.getTableMetasByTableNames, List.mem_insertionSort, List.mem_filter] at hm
  obtain ⟨t, ht, rfl⟩ := List.mem_map.mp hm.1
  obtain ⟨ht, hproject⟩ := List.mem_filter.mp (List.mem_filter.mp ht).1
  exact ⟨ht, by simpa using hproject, rfl⟩

end MetaStorage

end Scql.Broker
