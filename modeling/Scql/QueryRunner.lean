import Scql.Checksums
import Scql.ViewTables

/-! # Preparing a job

What a broker reads from its storage for a job, the checksums it makes of it for each party
that owns a table, and how it compares them with those the parties report. -/
namespace Scql.Broker

open MetaStorage MapRange Fallible

structure CompileRequest where
  query : String
  dbName : String
  issuer : PartyCode
  columnControls : List ColumnControl
  catalog : List TableMeta

inductive ProtocolKind
  | SEMI2K | CHEETAH | ABY3 | other
  deriving DecidableEq

structure CompiledPlan where
  parties : List PartyCode
  /-- The parties with a subgraph. -/
  subGraphs : List PartyCode

/-- What the broker relies on: the parser, the hash, the type table, the compiler and the party
manager. -/
structure Deps where
  order : RangeOrder
  getSourceTables : String → Except String (List String)
  collectIntoParties : String → Except String (List PartyCode)
  sha256 : String → Bytes
  /-- The description of a column type; an error for types that are not supported. -/
  typeDesc : String → Except String String
  /-- The protocol that a project's configuration names, if it has a runtime configuration. -/
  spuProtocol : String → Except String (Option ProtocolKind)
  checkRefTable : TableMeta → Except String Unit
  compile : CompileRequest → Except String CompiledPlan
  checkParty : PartyCode → Except String Unit
  authorizedWritableParties : PartyCode → List PartyCode
  endpoint : PartyCode → String
  exchangeJobInfoRetryTimes : PartyCode → ℕ

structure JobDesc where
  projectID : String
  query : String
  issuer : PartyCode
  deriving DecidableEq

structure QueryRunner where
  tables : List TableMeta
  ccls : List ColumnControl
  prepareAgain : Bool := false
  deriving DecidableEq

namespace QueryRunner

def dbTableString (dbName tableName : String) : String :=
  if dbName = "" then tableName else dbName ++ "." ++ tableName

def tableString (t : TableMeta) : String := dbTableString t.table.projectID t.table.tableName

def getTablesByParty (r : QueryRunner) (p : PartyCode) : List TableMeta :=
  r.tables.filter (·.table.owner = p)

/-- The columns with the descriptions of their types. -/
def columnInfos (deps : Deps) (t : TableMeta) : Except String (List ColumnMeta) :=
  t.columns.mapM (fun c => do
    let desc ← deps.typeDesc c.dType
    return ⟨c.columnName, desc⟩)

def cclsOf (r : QueryRunner) (t : TableMeta) : List ColumnControl :=
  r.ccls.filter (fun c => c.tableName = t.table.tableName ∧ c.databaseName = t.table.projectID)

/-- The checksum of the tables a party owns and of the controls on them. -/
def partyChecksum (deps : Deps) (r : QueryRunner) (p : PartyCode) : Except String Checksum := do
  let tables := (r.getTablesByParty p).insertionSort (fun s t => tableString s ≤ tableString t)
  let hasher ← tables.foldlM (fun (hasher : ChecksumHasher) t => do
    let infos ← columnInfos deps t
    return (hasher.infeedTable (tableString t) infos).infeedCCLs (r.cclsOf t)) {}
  return hasher.finalize deps.sha256

def createChecksum (deps : Deps) (r : QueryRunner) (dataParties : List PartyCode) :
    Except String (List (PartyCode × Checksum)) :=
  dataParties.mapM (fun p => do
    let c ← r.partyChecksum deps p
    return (p, c))

def checkWritePrivilege (deps : Deps) (self : PartyCode) (job : JobDesc)
    (intoParties : List PartyCode) : Except String Unit :=
  if self ∉ intoParties ∨ job.issuer = self ∨ job.issuer ∈ deps.authorizedWritableParties self then
    .ok ()
  else .error ("issuer '" ++ job.issuer ++ "' does not have privilege to write file to '" ++
    self ++ "'")

structure Prepared where
  runner : QueryRunner
  dataParties : List PartyCode
  workParties : List PartyCode
  deriving DecidableEq

/-- The tables of the job. Tables that are missing are asked from the other members unless this
is a second preparation: `refreshed` is the storage after that. -/
def readTables (job : JobDesc) (prepareAgain : Bool) (usedTableNames : List String)
    (st refreshed : Database) : Except String (List TableMeta × Database) :=
  let (tables, notFound) := st.getTableMetasByTableNames job.projectID usedTableNames
  if notFound ≠ [] ∧ prepareAgain = false then
    let (tables, notFound) := refreshed.getTableMetasByTableNames job.projectID usedTableNames
    if notFound ≠ [] then .error ("prepareData: table " ++ toString notFound ++ " not found")
    else .ok (tables, refreshed)
  else .ok (tables, st)

/-- Read the tables, the tables behind views and the column controls of the job. -/
def prepareData (deps : Deps) (job : JobDesc) (prepareAgain : Bool) (usedTableNames : List String)
    (intoParties : List PartyCode) (st refreshed : Database) : Except String Prepared := do
  let (tables, st) ← readTables job prepareAgain usedTableNames st refreshed
  let tables ← (expandTablesInView deps.getSourceTables deps.order st tables).mapError
    ("prepareData: expand tables in view err: " ++ ·)
  tables.forM deps.checkRefTable
  let dataParties := sliceDeDup (tables.map (·.table.owner))
  let workParties := sliceDeDup (dataParties ++ [job.issuer] ++ intoParties)
  workParties.forM deps.checkParty
  let columnPrivs :=
    st.listColumnConstraints job.projectID (tables.map (·.table.tableName)) workParties
  return ⟨⟨tables, columnPrivs2ColumnControls columnPrivs, prepareAgain⟩, dataParties, workParties⟩

/-- Prepare the runner of a job. The types of all columns have to be known for the schema. -/
def prepare (deps : Deps) (self : PartyCode) (job : JobDesc) (prepareAgain : Bool)
    (usedTables : List String) (st refreshed : Database) : Except String Prepared := do
  let intoParties ← (deps.collectIntoParties job.query).mapError
    ("collect select into parties err: " ++ ·)
  (checkWritePrivilege deps self job intoParties).mapError
    ("Prepare: check write privilege err: " ++ ·)
  let prepared ← prepareData deps job prepareAgain usedTables intoParties st refreshed
  prepared.runner.tables.forM (fun t => t.columns.forM (fun c => do
    let _ ← deps.typeDesc c.dType
    return ()))
  return prepared

def buildCompileQueryRequest (r : QueryRunner) (job : JobDesc) : CompileRequest :=
  ⟨job.query, job.projectID, job.issuer, r.ccls, r.tables⟩

/-- The data parties are the owners of the tables that were read, and they work in the job. -/
lemma prepare_ok {deps : Deps} {self : PartyCode} {job : JobDesc}
  {prepareAgain : Bool} {usedTables : List String} {st refreshed : Database} {res : Prepared}
  (h : prepare deps self job prepareAgain usedTables st refreshed = .ok res) :
  (∀ p, p ∈ res.dataParties ↔ ∃ t ∈ res.runner.tables, t.table.owner = p) ∧
    res.dataParties ⊆ res.workParties ∧ res.runner.prepareAgain = prepareAgain := by
  obtain ⟨into, -, h⟩ := bind_eq_ok.mp h
  obtain ⟨_, -, h⟩ := bind_eq_ok.mp h
  obtain ⟨res', hdata, h⟩ := bind_eq_ok.mp h
  obtain ⟨_, -, h⟩ := bind_eq_ok.mp h
  cases h
  obtain ⟨⟨read, st'⟩, -, hdata⟩ := bind_eq_ok.mp hdata
  obtain ⟨tables, -, hdata⟩ := bind_eq_ok.mp hdata
  iterate 2 obtain ⟨_, -, hdata⟩ := bind_eq_ok.mp hdata
  cases hdata
  refine ⟨fun p => by rw [mem_sliceDeDup, List.mem_map], fun p hp => ?_, rfl⟩
  rw [mem_sliceDeDup, List.mem_append, List.mem_append]
  exact .inl (.inl hp)

end QueryRunner

end Scql.Broker
