import Scql.ScdbOwnership

/-! # Visibility of columns in SCDB

The owner of a table tells by GRANT and REVOKE what others may see of it, for single columns or for
the whole table. What the compiler reads from the privilege tables should be a map that these
statements update. Names of columns are compared in lower case at some places and as they are at
others; this agrees because columns are stored in lower case. -/
namespace Scql.Scdb

open Fallible

variable {cl : Collation}

inductive CCLVisibility
  | UNKNOWN | PLAINTEXT | ENCRYPTED_ONLY | PLAINTEXT_AFTER_JOIN | PLAINTEXT_AFTER_GROUP_BY
  | PLAINTEXT_AFTER_COMPARE | PLAINTEXT_AFTER_AGGREGATE | PLAINTEXT_AS_JOIN_PAYLOAD | REVEAL_RANK
  deriving DecidableEq

def mysqlPrivilegeType2CCLVisibility : Option Visibility → CCLVisibility
  | some .plaintext => .PLAINTEXT
  | some .plaintextAfterCompare => .PLAINTEXT_AFTER_COMPARE
  | some .plaintextAfterAggregate => .PLAINTEXT_AFTER_AGGREGATE
  | some .encryptedOnly => .ENCRYPTED_ONLY
  | some .plaintextAfterJoin => .PLAINTEXT_AFTER_JOIN
  | some .plaintextAsJoinPayload => .PLAINTEXT_AS_JOIN_PAYLOAD
  | some .plaintextAfterGroupBy => .PLAINTEXT_AFTER_GROUP_BY
  | some .revealRank => .REVEAL_RANK
  | none => .UNKNOWN

structure TableEntry where
  dbName : String
  tableName : String
  columns : List String
  deriving DecidableEq

structure ColumnControl where
  partyCode : String
  databaseName : String
  tableName : String
  columnName : String
  visibility : CCLVisibility
  deriving DecidableEq

def findColPriv (cl : Collation) (colPrivs : List ColumnPriv) (colName : String) :
    Option ColumnPriv :=
  colPrivs.find? (fun p => cl.lower p.columnName = cl.lower colName)

namespace Catalog

def tableVisibilityForUser (c : Catalog cl) (user host dbName tableName : String) :
    Option Visibility :=
  (c.tablePrivs.rows.find? (TablePriv.matches cl host user dbName tableName)).bind
    (·.visibilityPriv)

def columnVisibilityForUser (c : Catalog cl) (user host dbName tableName : String) :
    List ColumnPriv :=
  c.columnPrivs.rows.filter (ColumnPriv.matches cl host user dbName tableName)

/-- A column without a privilege of its own has that of the table. -/
def columnVisibility (c : Catalog cl) (owner : User) (dbName tableName col : String) :
    Option Visibility :=
  match findColPriv cl (c.columnVisibilityForUser owner.user owner.host dbName tableName) col with
  | some colPriv => colPriv.visibilityPriv
  | none => c.tableVisibilityForUser owner.user owner.host dbName tableName

def collectCCLForParty (c : Catalog cl) (party : String) (tables : List TableEntry) :
    Except String (List ColumnControl) := do
  let partyOwner ← c.findUserByParty party
  return tables.flatMap (fun tbl => tbl.columns.map (fun col =>
    { partyCode := party, databaseName := tbl.dbName, tableName := tbl.tableName,
      columnName := col,
      visibility := mysqlPrivilegeType2CCLVisibility
        (c.columnVisibility partyOwner tbl.dbName tbl.tableName col)}))

end Catalog

/-- What the users, told by their host and name, may see of a table: of the whole of it, and of
its columns, told by their names in lower case. -/
@[ext] structure Policy where
  table : String × String → Option Visibility
  column : String × String → String → Option Visibility

namespace Policy

def empty : Policy := ⟨fun _ => none, fun _ _ => none⟩

/-- The privilege on the column, else the one on the table. -/
def visibility (P : Policy) (g : String × String) (col : String) : Option Visibility :=
  (P.column g col).or (P.table g)

/-- A grant on some columns, or on the table if there are none. -/
def grant (lower : String → String) (g : String × String) (P : Policy)
    (p : Visibility × List String) : Policy :=
  if p.2 = [] then {P with table := Function.update P.table g (some p.1)}
  else { P with column := fun g' col =>
    if g' = g ∧ col ∈ p.2.map lower then some p.1 else P.column g' col}

/-- A privilege on columns can be taken only if it is held on all of them. -/
def revoke (lower : String → String) (g : String × String) (P : Policy)
    (p : Visibility × List String) : Option Policy :=
  if p.2 = [] then
    some {P with table := if P.table g = some p.1 then Function.update P.table g none else P.table}
  else if ∀ col ∈ p.2.map lower, P.column g col = some p.1 then
    some { P with column := fun g' col =>
      if g' = g ∧ col ∈ p.2.map lower then none else P.column g' col}
  else none

end Policy

structure Order where
  revokes : Bool
  dbName : String
  tableName : String
  user : UserIdentity
  privs : List (Visibility × List String)

namespace Order

def stmt (o : Order) : PrivStmt where
  privs := o.privs.map (fun p => ⟨.visibility p.1, p.2⟩)
  level := .table
  dbName := o.dbName
  tableName := o.tableName
  users := [o.user]

def execute {cl : Collation} (o : Order) (c : Catalog cl) (s : Session) :
    Except String (Catalog cl) :=
  if o.revokes then executeRevoke c s o.stmt else executeGrant c s {o.stmt with}

end Order

def grantee (cl : Collation) (u : UserIdentity) : String × String :=
  (cl.fold u.hostname, cl.fold u.username)

/-- A database that does not tell upper from lower case. -/
def Collation.insensitive (lower : String → String) : Collation := ⟨lower, lower⟩

def tableKey (cl : Collation) (t : Table) (g : String × String) :
    String × String × String × String :=
  (g.1, cl.fold t.db, g.2, cl.fold t.table)

def columnKey (cl : Collation) (t : Table) (g : String × String) (col : String) :
    String × String × String × String × String :=
  (g.1, cl.fold t.db, g.2, cl.fold t.table, col)

def policyOf (c : Catalog cl) (t : Table) : Policy where
  table g := (c.tablePrivs.find? (tableKey cl t g)).bind (·.visibilityPriv)
  column g col := (c.columnPrivs.find? (columnKey cl t g col)).bind (·.visibilityPriv)

/-- The user named in a statement can be given visibility privileges by the issuer. -/
structure Grantable (c : Catalog cl) (s : Session) (u : UserIdentity) : Prop where
  username : u.username ≠ ""
  hostname : u.hostname ≠ ""
  notRoot : u ≠ ⟨"root", "%"⟩
  party : ∃ party, c.queryUserPartyCode u.username u.hostname = .ok party
  issuer : s.user = ⟨"root", "%"⟩ ∨
    ∃ party, c.queryUserPartyCode s.user.username s.user.hostname = .ok party

/-- The statement is on the table, and the columns it names exist, whatever their letter case. -/
structure Order.Valid (c : Catalog cl) (s : Session) (t : Table) (o : Order) : Prop where
  db : orCurrent s o.dbName ≠ ""
  table : o.tableName ≠ ""
  names : Names cl (orCurrent s o.dbName) o.tableName t
  user : Grantable c s o.user
  cols : ∀ p ∈ o.privs, ∀ col ∈ p.2, ∃ r ∈ c.columns, Names cl r.db r.tableName t ∧
    cl.same col r.columnName

/-- What the compiler gets for the columns of a table is what the policy says. -/
def Agrees (c : Catalog cl) (t : Table) (P : Policy) : Prop :=
  ∀ party tables owner, c.findUserByParty party = .ok owner → owner.user ≠ "" → owner.host ≠ "" →
    ∃ ccl, c.collectCCLForParty party tables = .ok ccl ∧
      ∀ cc ∈ ccl, cc.databaseName ≠ "" → cc.tableName ≠ "" →
        Names cl cc.databaseName cc.tableName t →
        cc.visibility = mysqlPrivilegeType2CCLVisibility
          (P.visibility (grantee cl ⟨owner.user, owner.host⟩) (cl.lower cc.columnName))

variable {t : Table} {u : UserIdentity} {d n : String}

structure Addressed (cl : Collation) (t : Table) (u : UserIdentity) (d n : String) : Prop where
  db : d ≠ ""
  table : n ≠ ""
  names : Names cl d n t
  username : u.username ≠ ""
  hostname : u.hostname ≠ ""

lemma Addressed.columnPriv_matches (h : Addressed cl t u d n) (r : ColumnPriv) :
  ColumnPriv.matches cl u.hostname u.username d n r = true ↔
    r.key cl = columnKey cl t (grantee cl u) (cl.fold r.columnName) := by
  have hd : cl.fold d = cl.fold t.db := h.names.1
  have hn : cl.fold n = cl.fold t.table := h.names.2
  simp only [ColumnPriv.matches, ColumnPriv.key, columnKey, grantee, Bool.and_eq_true,
    Collation.field_eq_true, h.hostname, h.username, h.db, h.table, false_or, Collation.same, hd,
    hn, Prod.mk.injEq, and_true]
  constructor
  · rintro ⟨⟨⟨h₁, h₂⟩, h₃⟩, h₄⟩
    exact ⟨h₁.symm, h₃.symm, h₂.symm, h₄.symm⟩
  · rintro ⟨h₁, h₃, h₂, h₄⟩
    exact ⟨⟨⟨h₁.symm, h₂.symm⟩, h₃.symm⟩, h₄.symm⟩

lemma Addressed.columnPriv_key (h : Addressed cl t u d n) (r : ColumnPriv) (col : String) :
  r.key cl = columnKey cl t (grantee cl u) col ↔
    ColumnPriv.matches cl u.hostname u.username d n r = true ∧ cl.fold r.columnName = col := by
  constructor
  · intro hkey
    obtain rfl : cl.fold r.columnName = col := congrArg (fun k => k.2.2.2.2) hkey
    exact ⟨(h.columnPriv_matches r).mpr hkey, rfl⟩
  · rintro ⟨hmatch, rfl⟩
    exact (h.columnPriv_matches r).mp hmatch

lemma names_of_columnKey {r : ColumnPriv} {g : String × String} {col : String}
  (h : r.key cl = columnKey cl t g col) : Names cl r.db r.tableName t := by
  have hdb : cl.fold r.db = cl.fold t.db := congrArg (fun k => k.2.1) h
  have htable : cl.fold r.tableName = cl.fold t.table := congrArg (fun k => k.2.2.2.1) h
  exact ⟨hdb, htable⟩

lemma Addressed.tablePriv_matches (h : Addressed cl t u d n) (r : TablePriv) :
  TablePriv.matches cl u.hostname u.username d n r = true ↔
    r.key cl = tableKey cl t (grantee cl u) := by
  have hd : cl.fold d = cl.fold t.db := h.names.1
  have hn : cl.fold n = cl.fold t.table := h.names.2
  simp only [TablePriv.matches, TablePriv.key, tableKey, grantee, Bool.and_eq_true,
    Collation.field_eq_true, h.hostname, h.username, h.db, h.table, false_or, Collation.same, hd,
    hn, Prod.mk.injEq]
  constructor
  · rintro ⟨⟨⟨h₁, h₂⟩, h₃⟩, h₄⟩
    exact ⟨h₁.symm, h₃.symm, h₂.symm, h₄.symm⟩
  · rintro ⟨h₁, h₃, h₂, h₄⟩
    exact ⟨⟨⟨h₁.symm, h₂.symm⟩, h₃.symm⟩, h₄.symm⟩

lemma Addressed.column_matches (h : Addressed cl t u d n) (r : Column) :
  Column.matches cl d n r = true ↔ Names cl r.db r.tableName t := by
  have hd : cl.fold d = cl.fold t.db := h.names.1
  have hn : cl.fold n = cl.fold t.table := h.names.2
  simp only [Column.matches, Names, Bool.and_eq_true, Collation.field_eq_true, h.db, h.table,
    false_or, Collation.same, hd, hn]
  exact and_congr eq_comm eq_comm

variable {lower : String → String} {c : Catalog (.insensitive lower)}

def PrivsSet (c : Catalog (.insensitive lower)) (t : Table) : Prop :=
  ∀ r ∈ c.columnPrivs, Names (.insensitive lower) r.db r.tableName t → r.visibilityPriv ≠ none

lemma columnVisibility_eq {owner : User} {d n : String}
  (h : Addressed (.insensitive lower) t ⟨owner.user, owner.host⟩ d n) (hset : PrivsSet c t)
  (col : String) : c.columnVisibility owner d n col =
    (policyOf c t).visibility (grantee (.insensitive lower) ⟨owner.user, owner.host⟩)
      (lower col) := by
  obtain ⟨g, hg⟩ : ∃ g, g = grantee (.insensitive lower) ⟨owner.user, owner.host⟩ := ⟨_, rfl⟩
  have htable : c.tableVisibilityForUser owner.user owner.host d n = (policyOf c t).table g := by
    have hcond : TablePriv.matches (.insensitive lower) owner.host owner.user d n =
        fun r => decide (r.key (.insensitive lower) = tableKey (.insensitive lower) t g) := by
      funext r
      rw [Bool.eq_iff_iff, decide_eq_true_iff, hg]
      exact h.tablePriv_matches r
    rw [Catalog.tableVisibilityForUser, hcond]
    rfl
  have hcolumn : findColPriv (.insensitive lower)
      (c.columnVisibilityForUser owner.user owner.host d n) col =
        c.columnPrivs.find? (columnKey (.insensitive lower) t g (lower col)) := by
    rw [findColPriv, Catalog.columnVisibilityForUser, List.find?_filter, KeyedTable.find?]
    congr 1
    funext r
    rw [Bool.eq_iff_iff, decide_eq_true_iff, decide_eq_true_iff, decide_eq_true_iff, hg]
    exact (h.columnPriv_key r (lower col)).symm
  rw [Catalog.columnVisibility, hcolumn, htable, ← hg]
  cases hrow : c.columnPrivs.find? (columnKey (.insensitive lower) t g (lower col)) with
  | none => simp [Policy.visibility, policyOf, hrow]
  | some r =>
    have hnames := names_of_columnKey (KeyedTable.key_of_find? hrow)
    obtain ⟨v, hv⟩ := Option.ne_none_iff_exists'.mp (hset r (KeyedTable.mem_of_find? hrow) hnames)
    simp [Policy.visibility, policyOf, hrow, hv]

lemma agrees_policyOf (hset : PrivsSet c t) : Agrees c t (policyOf c t) := by
  intro party tables owner howner huser hhost
  refine ⟨_, by rw [Catalog.collectCCLForParty, howner]; rfl, ?_⟩
  intro cc hcc hdb htable hnames
  obtain ⟨tbl, -, hcc⟩ := List.mem_flatMap.mp hcc
  obtain ⟨col, -, rfl⟩ := List.mem_map.mp hcc
  exact congrArg mysqlPrivilegeType2CCLVisibility
    (columnVisibility_eq ⟨hdb, htable, hnames, huser, hhost⟩ hset col)

end Scql.Scdb
