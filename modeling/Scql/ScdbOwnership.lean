import Scql.EventRuns
import Scql.ScdbStatements

/-! # What owners of tables can rely on

A table, its columns and the privileges on it should go away only by a statement of its owner on
that table, or with its whole database. Two things break this. The drop helper is reached without
an owner check when a view is replaced, and an example row with an empty name selects the rows of
other tables; besides, dropping a user removes the privileges which the owners gave to that user. -/
namespace Scql.Scdb

open Fallible List
open KeyedTable (eq_of_key_eq mem_deleteWhere mem_updateWhere)

variable {cl : Collation}

namespace Collation

variable {want stored : String}

lemma field_eq_true : cl.field want stored = true ↔ want = "" ∨ cl.same want stored :=
  decide_eq_true_iff

lemma field_congr {a b : String} (h : cl.same a b) (want : String) :
    cl.field want a = cl.field want b := by
  have hfold : cl.fold a = cl.fold b := h
  rw [Bool.eq_iff_iff, field_eq_true, field_eq_true, same, same, hfold]

lemma same_of_field (hfield : cl.field want stored = true) (h : want ≠ "") : cl.same want stored :=
  (field_eq_true.mp hfield).resolve_left h

@[simp] lemma field_empty (stored : String) : cl.field "" stored = true := by simp [field]

end Collation

def Names (cl : Collation) (db table : String) (t : Table) : Prop :=
  cl.same db t.db ∧ cl.same table t.table

instance (db table : String) (t : Table) : Decidable (Names cl db table t) :=
  inferInstanceAs (Decidable (_ ∧ _))

/-- Nothing of the table is lost: its row and its columns are as they were, and every privilege on
it still has its row. -/
structure Kept (t : Table) (c c' : Catalog cl) : Prop where
  table : t ∈ c'.tables
  columns : ∀ r ∈ c.columns, Names cl r.db r.tableName t → r ∈ c'.columns
  tablePrivs : ∀ r ∈ c.tablePrivs, Names cl r.db r.tableName t →
    ∃ r' ∈ c'.tablePrivs, r'.key cl = r.key cl
  columnPrivs : ∀ r ∈ c.columnPrivs, Names cl r.db r.tableName t →
    ∃ r' ∈ c'.columnPrivs, r'.key cl = r.key cl

/-- The columns of the second catalog are columns of the first or have a name in lower case. -/
def ColumnsLowered (c c' : Catalog cl) : Prop :=
  ∀ r ∈ c'.columns, r ∈ c.columns ∨ ∃ x, r.columnName = cl.lower x

/-- No row of any table, and no row of a privilege, is lost, and new columns are in lower case. -/
structure Grows (c c' : Catalog cl) : Prop where
  tables : ∀ r ∈ c.tables, r ∈ c'.tables
  columns : ∀ r ∈ c.columns, r ∈ c'.columns
  tablePrivs : ∀ r ∈ c.tablePrivs, ∃ r' ∈ c'.tablePrivs, r'.key cl = r.key cl
  columnPrivs : ∀ r ∈ c.columnPrivs, ∃ r' ∈ c'.columnPrivs, r'.key cl = r.key cl
  newColumns : ColumnsLowered c c'

variable {t : Table} {c c₁ c' : Catalog cl}

lemma ColumnsLowered.of_subset (h : ∀ r ∈ c'.columns, r ∈ c.columns) : ColumnsLowered c c' :=
  fun r hr => .inl (h r hr)

lemma ColumnsLowered.trans (h₁ : ColumnsLowered c c₁) (h₂ : ColumnsLowered c₁ c') :
  ColumnsLowered c c' := by
  intro r hr
  rcases h₂ r hr with hr | hlower
  · exact h₁ r hr
  · exact .inr hlower

lemma Grows.refl (c : Catalog cl) : Grows c c :=
  ⟨fun _ h => h, fun _ h => h, fun r h => ⟨r, h, rfl⟩, fun r h => ⟨r, h, rfl⟩, .of_subset fun _ h =>
    h⟩

lemma Grows.of_eq (htables : c'.tables = c.tables) (hcolumns : c'.columns = c.columns)
  (htablePrivs : c'.tablePrivs = c.tablePrivs) (hcolumnPrivs : c'.columnPrivs = c.columnPrivs) :
  Grows c c' where
  tables _ hr := htables ▸ hr
  columns _ hr := hcolumns ▸ hr
  tablePrivs r hr := ⟨r, htablePrivs ▸ hr, rfl⟩
  columnPrivs r hr := ⟨r, hcolumnPrivs ▸ hr, rfl⟩
  newColumns := .of_subset fun _ hr => hcolumns ▸ hr

lemma Grows.trans (h₁ : Grows c c₁) (h₂ : Grows c₁ c') : Grows c c' where
  newColumns := h₁.newColumns.trans h₂.newColumns
  tables r hr := h₂.tables r (h₁.tables r hr)
  columns r hr := h₂.columns r (h₁.columns r hr)
  tablePrivs r hr := by
    obtain ⟨r₁, hr₁, hkey₁⟩ := h₁.tablePrivs r hr
    obtain ⟨r₂, hr₂, hkey₂⟩ := h₂.tablePrivs r₁ hr₁
    exact ⟨r₂, hr₂, hkey₂.trans hkey₁⟩
  columnPrivs r hr := by
    obtain ⟨r₁, hr₁, hkey₁⟩ := h₁.columnPrivs r hr
    obtain ⟨r₂, hr₂, hkey₂⟩ := h₂.columnPrivs r₁ hr₁
    exact ⟨r₂, hr₂, hkey₂.trans hkey₁⟩

lemma Kept.of_grows (ht : t ∈ c.tables) (h : Grows c c') : Kept t c c' where
  table := h.tables t ht
  columns r hr _ := h.columns r hr
  tablePrivs r hr _ := h.tablePrivs r hr
  columnPrivs r hr _ := h.columnPrivs r hr

lemma Kept.refl (ht : t ∈ c.tables) : Kept t c c := .of_grows ht (.refl c)

lemma Kept.trans (h₁ : Kept t c c₁) (h₂ : Kept t c₁ c') : Kept t c c' where
  table := h₂.table
  columns r hr hn := h₂.columns r (h₁.columns r hr hn) hn
  tablePrivs r hr hn := by
    obtain ⟨r₁, hr₁, hkey₁⟩ := h₁.tablePrivs r hr hn
    simp only [TablePriv.key, Prod.mk.injEq] at hkey₁
    obtain ⟨r₂, hr₂, hkey₂⟩ := h₂.tablePrivs r₁ hr₁ ⟨hkey₁.2.1.trans hn.1, hkey₁.2.2.2.trans hn.2⟩
    exact ⟨r₂, hr₂, by simpa [TablePriv.key, hkey₁] using hkey₂⟩
  columnPrivs r hr hn := by
    obtain ⟨r₁, hr₁, hkey₁⟩ := h₁.columnPrivs r hr hn
    simp only [ColumnPriv.key, Prod.mk.injEq] at hkey₁
    obtain ⟨r₂, hr₂, hkey₂⟩ :=
      h₂.columnPrivs r₁ hr₁ ⟨hkey₁.2.1.trans hn.1, hkey₁.2.2.2.1.trans hn.2⟩
    exact ⟨r₂, hr₂, by simpa [ColumnPriv.key, hkey₁] using hkey₂⟩

lemma Kept.grows (h₁ : Kept t c c₁) (h₂ : Grows c₁ c') : Kept t c c' :=
  h₁.trans (.of_grows h₁.table h₂)

variable {α κ : Type} {r : α}

lemma updateWhere_keeps {key : α → κ} {rows : KeyedTable key} {p : α → Bool}
  {f : α → α} (hf : ∀ a, key (f a) = key a) (hr : r ∈ rows) :
    ∃ r' ∈ rows.updateWhere p f hf, key r' = key r := by
  refine ⟨if p r then f r else r, mem_updateWhere.mpr ⟨r, hr, rfl⟩, ?_⟩
  split
  · exact hf r
  · rfl

lemma create_keeps [DecidableEq κ] {key : α → κ} {rows rows' : KeyedTable key}
  {new : List α} (h : create rows new = .ok rows') (hr : r ∈ rows) : ∃ r' ∈ rows', key r' = key r :=
  ⟨r, (mem_create h).mpr (.inr hr), rfl⟩

variable {st : PrivStmt} {user : UserIdentity}

lemma grows_grantGlobalLevelPriv (h : grantGlobalLevelPriv c st user = .ok c') : Grows c c' := by
  unfold grantGlobalLevelPriv at h
  dsimp only at h
  split at h
  · cases h
    exact .refl c
  · simp only [bind_eq_ok, pure_eq_ok] at h
    obtain ⟨_, -, _, -, rfl⟩ := h
    exact .of_eq rfl rfl rfl rfl

lemma grows_grantDBLevelPriv (h : grantDBLevelPriv c st user = .ok c') : Grows c c' := by
  unfold grantDBLevelPriv at h
  dsimp only at h
  split at h
  · cases h
    exact .refl c
  · obtain ⟨_, -, h⟩ := bind_eq_ok.mp h
    obtain ⟨_, -, h⟩ := bind_eq_ok.mp h
    split at h
    · cases h
      exact .of_eq rfl rfl rfl rfl
    · obtain ⟨_, -, h⟩ := bind_eq_ok.mp h
      cases h
      exact .of_eq rfl rfl rfl rfl

lemma grows_grantTableLevelPriv (h : grantTableLevelPriv c st user = .ok c') : Grows c c' := by
  unfold grantTableLevelPriv at h
  obtain ⟨attrs, -, h⟩ := bind_eq_ok.mp h
  split at h
  · cases h
    exact .refl c
  · obtain ⟨_, -, h⟩ := bind_eq_ok.mp h
    dsimp only at h
    split at h
    · cases h
      refine {Grows.refl c with tablePrivs := fun r hr => updateWhere_keeps ?_ hr}
      exact fun _ => rfl
    · obtain ⟨tablePrivs, hcreate, h⟩ := bind_eq_ok.mp h
      cases h
      exact {Grows.refl c with tablePrivs := fun r hr => create_keeps hcreate hr}

variable {colNames : List String} {specs : List UserSpec}

lemma grows_initColumnPriv (h : initColumnPriv c st user colNames = .ok c') : Grows c c' := by
  obtain ⟨columnPrivs, hcreate, h⟩ := bind_eq_ok.mp h
  cases h
  exact {Grows.refl c with columnPrivs := fun r hr => create_keeps hcreate hr}

lemma grows_grantColumnPriv {priv : PrivilegeType}
  (h : grantColumnPriv c st user priv colNames = .ok c') : Grows c c' := by
  obtain ⟨c₁, hinit, h⟩ := bind_eq_ok.mp h
  refine (grows_initColumnPriv hinit).trans ?_
  split at h
  · cases h
    refine {Grows.refl c₁ with columnPrivs := fun r hr => updateWhere_keeps ?_ hr}
    exact fun _ => rfl
  · cases h

lemma grows_grantColumnLevelPriv (h : grantColumnLevelPriv c st user = .ok c') : Grows c c' := by
  refine foldlM_invariant (P := fun c₁ => Grows c c₁) ?_ (Grows.refl c) h
  intro p _ c₁ c₂ hc₁ h
  unfold grantColumnElem at h
  split at h
  · cases h
    exact hc₁
  · obtain ⟨_, -, h⟩ := bind_eq_ok.mp h
    exact hc₁.trans (grows_grantColumnPriv h)

variable {s : Session}

lemma grows_executeGrant {st : GrantStmt} (h : executeGrant c s st = .ok c') : Grows c c' := by
  obtain ⟨_, -, h⟩ := bind_eq_ok.mp h
  split at h
  · obtain ⟨_, -, h⟩ := bind_eq_ok.mp h
    dsimp only at h
    split at h
    · exact grows_grantGlobalLevelPriv h
    · obtain ⟨_, -, h⟩ := bind_eq_ok.mp h
      exact grows_grantDBLevelPriv h
    · obtain ⟨_, -, h⟩ := bind_eq_ok.mp h
      obtain ⟨c₁, htable, h⟩ := bind_eq_ok.mp h
      exact (grows_grantTableLevelPriv htable).trans (grows_grantColumnLevelPriv h)
  · cases h

variable {dbName tableName : String}

lemma kept_dropTableByName (ht : t ∈ c.tables) (hsel : Table.matches cl dbName tableName t = false)
  (h : c.dropTableByName dbName tableName = .ok c') : Kept t c c' := by
  obtain ⟨_, -, h⟩ := bind_eq_ok.mp h
  cases h
  refine ⟨mem_deleteWhere.mpr ⟨ht, hsel⟩, ?_, ?_, ?_⟩
  · rintro r hr ⟨hdb, htable⟩
    refine mem_deleteWhere.mpr ⟨hr, ?_⟩
    rw [Column.matches, Collation.field_congr hdb, Collation.field_congr htable]
    exact hsel
  · rintro r hr ⟨hdb, htable⟩
    refine ⟨r, mem_deleteWhere.mpr ⟨hr, ?_⟩, rfl⟩
    simp only [TablePriv.matches, Collation.field_empty, Bool.true_and]
    rw [Collation.field_congr hdb, Collation.field_congr htable]
    exact hsel
  · rintro r hr ⟨hdb, htable⟩
    refine ⟨r, mem_deleteWhere.mpr ⟨hr, ?_⟩, rfl⟩
    simp only [ColumnPriv.matches, Collation.field_empty, Bool.true_and]
    rw [Collation.field_congr hdb, Collation.field_congr htable]
    exact hsel

def Table.OwnedBy (t : Table) (u : UserIdentity) : Prop :=
    t.owner = u.username ∧ t.host = u.hostname

instance (t : Table) (u : UserIdentity) : Decidable (t.OwnedBy u) :=
  inferInstanceAs (Decidable (_ ∧ _))

/-- Full names select the table that they mean, so the owner check is about that table. -/
lemma ownedBy_of_checkTableOwner {u : UserIdentity} (ht : t ∈ c.tables)
  (hsel : Table.matches cl dbName tableName t = true) (hdb : dbName ≠ "") (hname : tableName ≠ "")
  (h : c.checkTableOwner dbName tableName u.username u.hostname = .ok ()) :
  Names cl dbName tableName t ∧ t.OwnedBy u := by
  have hnames : ∀ r : Table, Table.matches cl dbName tableName r = true →
    Names cl dbName tableName r := by
    intro r hr
    obtain ⟨hr₁, hr₂⟩ := Bool.and_eq_true_iff.mp hr
    exact ⟨Collation.same_of_field hr₁ hdb, Collation.same_of_field hr₂ hname⟩
  refine ⟨hnames t hsel, ?_⟩
  obtain ⟨r, hfind, h⟩ := bind_eq_ok.mp h
  cases hrow : c.tables.rows.find? (Table.matches cl dbName tableName) with
  | none => simp [hrow] at hfind
  | some r₁ =>
    obtain rfl : r₁ = r := by simpa [hrow] using hfind
    have hr₁ := hnames r₁ (find?_some hrow)
    have hkey : r₁.key cl = t.key cl :=
      Prod.ext (hr₁.1.symm.trans (hnames t hsel).1) (hr₁.2.symm.trans (hnames t hsel).2)
    obtain rfl : r₁ = t := eq_of_key_eq (mem_of_find?_eq_some hrow) ht hkey
    exact ensure_eq_ok.mp h

variable {p : PrivElem}

lemma grows_revokeTablePriv (h : revokeTablePriv c st user p = .ok c') : Grows c c' := by
  unfold revokeTablePriv at h
  dsimp only at h
  split at h
  · cases h
    refine {Grows.refl c with tablePrivs := fun r hr => updateWhere_keeps ?_ hr}
    exact fun _ => rfl
  · simp only [bind_eq_ok, pure_eq_ok] at h
    obtain ⟨_, -, _, -, rfl⟩ := h
    refine {Grows.refl c with tablePrivs := fun r hr => updateWhere_keeps ?_ hr}
    exact fun _ => rfl

lemma kept_revokeColumnPriv (ht : t ∈ c.tables)
    (hsel : Table.matches cl st.dbName st.tableName t = false)
  (h : revokeColumnPriv c st user p = .ok c') : Kept t c c' := by
  obtain ⟨_, -, h⟩ := bind_eq_ok.mp h
  dsimp only at h
  split at h
  · obtain ⟨_, -, h⟩ := bind_eq_ok.mp h
    cases h
    refine {Kept.refl ht with columnPrivs := ?_}
    rintro r hr ⟨hdb, htable⟩
    refine ⟨r, mem_deleteWhere.mpr ⟨hr, ?_⟩, rfl⟩
    have hmatch : (cl.field st.dbName r.db && cl.field st.tableName r.tableName) = false := by
      rw [Collation.field_congr hdb, Collation.field_congr htable]
      exact hsel
    simp only [ColumnPriv.matches, Bool.and_assoc]
    rw [← Bool.and_assoc (cl.field st.dbName r.db), hmatch]
    simp
  · cases h

lemma kept_revokeTableLevelPriv (ht : t ∈ c.tables)
  (hsel : Table.matches cl st.dbName st.tableName t = false)
  (h : revokeTableLevelPriv c s st user = .ok c') : Kept t c c' := by
  obtain ⟨_, -, h⟩ := bind_eq_ok.mp h
  refine foldlM_invariant (P := fun c₁ => Kept t c c₁) ?_ (Kept.refl ht) h
  intro p _ c₁ c₂ hc₁ h
  unfold revokeElem at h
  split at h
  · exact hc₁.grows (grows_revokeTablePriv h)
  · exact hc₁.trans (kept_revokeColumnPriv hc₁.table hsel h)

lemma grows_revokeGlobalPriv (h : revokeGlobalPriv c user p = .ok c') : Grows c c' := by
  iterate 2 obtain ⟨_, -, h⟩ := bind_eq_ok.mp h
  cases h
  exact .of_eq rfl rfl rfl rfl

lemma grows_revokeDBPriv (h : revokeDBPriv c st user p = .ok c') : Grows c c' := by
  iterate 3 obtain ⟨_, -, h⟩ := bind_eq_ok.mp h
  cases h
  exact .of_eq rfl rfl rfl rfl

variable {s : Session} {b : Bool} {name : String}

lemma grows_executeCreateDatabase (h : executeCreateDatabase c s name b = .ok c') : Grows c c' := by
  unfold executeCreateDatabase at h
  dsimp only at h
  split at h
  · obtain ⟨_, -, h⟩ := bind_eq_ok.mp h
    cases h
    exact .refl c
  · simp only [bind_eq_ok, pure_eq_ok] at h
    obtain ⟨_, -, _, -, _, -, _, -, rfl⟩ := h
    exact .of_eq rfl rfl rfl rfl

lemma grows_executeCreateTable {st : CreateTableStmt}
  (h : executeCreateTable c s st = .ok c') : Grows c c' := by
  unfold executeCreateTable at h
  iterate 3 obtain ⟨_, -, h⟩ := bind_eq_ok.mp h
  obtain ⟨dbName, -, h⟩ := bind_eq_ok.mp h
  obtain ⟨_, -, h⟩ := bind_eq_ok.mp h
  dsimp only at h
  split at h
  · obtain ⟨_, -, h⟩ := bind_eq_ok.mp h
    cases h
    exact .refl c
  · simp only [bind_eq_ok, pure_eq_ok] at h
    obtain ⟨_, -, _, -, tables, htables, _, -, columns, hcolumns, rfl⟩ := h
    refine { Grows.refl c with
      tables := fun r hr => (mem_create htables).mpr (.inr hr)
      columns := fun r hr => (mem_create hcolumns).mpr (.inr hr)
      newColumns := fun r hr => ?_}
    rcases (mem_create hcolumns).mp hr with hr | hr
    · obtain ⟨col, -, rfl⟩ := mem_map.mp hr
      exact .inr ⟨col.1, rfl⟩
    · exact .inl hr

lemma grows_executeCreateUser (h : executeCreateUser c specs b = .ok c') : Grows c c' := by
  unfold executeCreateUser at h
  split at h
  · obtain ⟨_, -, h⟩ := bind_eq_ok.mp h
    split at h
    · simp only [bind_eq_ok, pure_eq_ok] at h
      obtain ⟨_, -, _, -, rfl⟩ := h
      exact .refl c
    · simp only [bind_eq_ok, pure_eq_ok] at h
      obtain ⟨_, -, _, -, rfl⟩ := h
      exact .of_eq rfl rfl rfl rfl
  · cases h

lemma executeAlterUser_eq (h : executeAlterUser c s specs b = .ok c') : c' = c := by
  unfold executeAlterUser at h
  split at h
  · obtain ⟨_, -, h⟩ := bind_eq_ok.mp h
    split at h
    · obtain ⟨_, -, h⟩ := bind_eq_ok.mp h
      exact (pure_eq_ok.mp h).symm
    · obtain ⟨_, -, h⟩ := bind_eq_ok.mp h
      exact (pure_eq_ok.mp h).symm
  · cases h

lemma selectDatabase_eq_ok {dbName msg db : String} :
  selectDatabase s dbName msg = .ok db ↔ db ≠ "" ∧ db = orCurrent s dbName := by
  unfold selectDatabase
  rw [bind_eq_ok]
  constructor
  · rintro ⟨_, hne, h⟩
    cases h
    exact ⟨ensure_eq_ok.mp hne, rfl⟩
  · rintro ⟨hne, rfl⟩
    exact ⟨(), ensure_eq_ok.mpr hne, rfl⟩

section
variable (ht : t ∈ c.tables)
include ht

lemma kept_executeCreateView {st : CreateViewStmt cl}
  (hsel : st.orReplace = true →
    Table.matches cl (orCurrent s (cl.lower st.viewName.schema)) st.viewName.name t = false)
  (h : executeCreateView c s st = .ok c') : Kept t c c' := by
  obtain ⟨dbName, hdb, h⟩ := bind_eq_ok.mp h
  obtain ⟨-, rfl⟩ := selectDatabase_eq_ok.mp hdb
  obtain ⟨_, -, h⟩ := bind_eq_ok.mp h
  dsimp only at h
  simp only [bind_eq_ok, pure_eq_ok] at h
  obtain ⟨c₁, hold, tables, htables, outputs, -, rows, -, columns, hcolumns, rfl⟩ := h
  have hkept : Kept t c c₁ := by
    split at hold
    · obtain ⟨_, hreplace, hold⟩ := bind_eq_ok.mp hold
      exact kept_dropTableByName ht (hsel (ensure_eq_ok.mp hreplace)) hold
    · cases hold
      exact .refl ht
  exact { hkept with
    table := (mem_create htables).mpr (.inr hkept.table)
    columns := fun r hr hn => (mem_create hcolumns).mpr (.inr (hkept.columns r hr hn))}

lemma kept_executeDropDatabase (hdb : ¬cl.same (cl.lower name) t.db)
  (h : executeDropDatabase c name b = .ok c') : Kept t c c' := by
  unfold executeDropDatabase at h
  dsimp only at h
  split at h
  · obtain ⟨c₁, hdrop, h⟩ := bind_eq_ok.mp h
    cases h
    have hname : cl.lower name ≠ "" := by
      obtain ⟨_, hne, -⟩ := bind_eq_ok.mp hdrop
      exact ensure_eq_ok.mp hne
    have hsel : Table.matches cl (cl.lower name) "" t = false := by
      rw [Bool.eq_false_iff]
      intro hsel
      exact hdb (Collation.same_of_field (Bool.and_eq_true_iff.mp hsel).1 hname)
    exact (kept_dropTableByName ht hsel hdrop).grows (.of_eq rfl rfl rfl rfl)
  · obtain ⟨_, -, h⟩ := bind_eq_ok.mp h
    cases h
    exact .refl ht

lemma kept_executeDropTableOrView {st : DropTableStmt}
  (hguard : ∀ tn ∈ st.tables, Table.matches cl (orCurrent s (cl.lower tn.schema)) tn.name t = true →
    tn.name ≠ "")
  (hother : ∀ tn ∈ st.tables,
    ¬(t.OwnedBy s.user ∧ Names cl (orCurrent s (cl.lower tn.schema)) tn.name t))
  (h : executeDropTableOrView c s st = .ok c') : Kept t c c' := by
  obtain ⟨_, -, h⟩ := bind_eq_ok.mp h
  split at h
  · next tn htables =>
    rw [htables] at hguard hother
    obtain ⟨dbName, hdb, h⟩ := bind_eq_ok.mp h
    obtain ⟨hne, rfl⟩ := selectDatabase_eq_ok.mp hdb
    dsimp only at h
    split at h
    · obtain ⟨_, -, h⟩ := bind_eq_ok.mp h
      cases h
      exact .refl ht
    · split at h
      · obtain ⟨_, -, h⟩ := bind_eq_ok.mp h
        cases h
        exact .refl ht
      · obtain ⟨_, howner, h⟩ := bind_eq_ok.mp h
        refine kept_dropTableByName ht ?_ h
        rw [Bool.eq_false_iff]
        intro hsel
        have hname := hguard tn mem_cons_self hsel
        obtain ⟨hnames, howned⟩ := ownedBy_of_checkTableOwner ht hsel hne hname howner
        exact hother tn mem_cons_self ⟨howned, hnames⟩
  · cases h

lemma kept_executeDropUser {userList : List UserIdentity}
  (htable : ∀ u ∈ userList, ∀ r ∈ c.tablePrivs, Names cl r.db r.tableName t →
    TablePriv.matches cl u.hostname u.username "" "" r = false)
  (hcolumn : ∀ u ∈ userList, ∀ r ∈ c.columnPrivs, Names cl r.db r.tableName t →
    ColumnPriv.matches cl u.hostname u.username "" "" r = false)
  (h : executeDropUser c userList b = .ok c') : Kept t c c' := by
  unfold executeDropUser at h
  split at h
  · next user =>
    split at h
    · obtain ⟨_, -, h⟩ := bind_eq_ok.mp h
      cases h
      exact { Kept.refl ht with
        tablePrivs := fun r hr hn =>
          ⟨r, mem_deleteWhere.mpr ⟨hr, htable user mem_cons_self r hr hn⟩, rfl⟩
        columnPrivs := fun r hr hn =>
          ⟨r, mem_deleteWhere.mpr ⟨hr, hcolumn user mem_cons_self r hr hn⟩, rfl⟩}
    · obtain ⟨_, -, h⟩ := bind_eq_ok.mp h
      cases h
      exact .refl ht
  · cases h

lemma kept_executeRevoke {st : PrivStmt}
  (hguard : st.level = .table → Table.matches cl (orCurrent s st.dbName) st.tableName t = true →
    orCurrent s st.dbName ≠ "" ∧ st.tableName ≠ "")
  (hother : st.level = .table →
    ¬(t.OwnedBy s.user ∧ Names cl (orCurrent s st.dbName) st.tableName t))
  (h : executeRevoke c s st = .ok c') : Kept t c c' := by
  unfold executeRevoke at h
  split at h
  · obtain ⟨_, -, h⟩ := bind_eq_ok.mp h
    dsimp only at h
    split at h
    · refine .of_grows ht (foldlM_invariant (P := fun c₁ => Grows c c₁) ?_ (.refl c) h)
      exact fun p _ c₁ c₂ hc₁ h => hc₁.trans (grows_revokeGlobalPriv h)
    · refine .of_grows ht (foldlM_invariant (P := fun c₁ => Grows c c₁) ?_ (.refl c) h)
      exact fun p _ c₁ c₂ hc₁ h => hc₁.trans (grows_revokeDBPriv h)
    · next hlevel =>
      refine kept_revokeTableLevelPriv ht ?_ h
      rw [Bool.eq_false_iff]
      intro hsel
      obtain ⟨hdb, hname⟩ := hguard hlevel hsel
      obtain ⟨_, howner, -⟩ := bind_eq_ok.mp h
      obtain ⟨hnames, howned⟩ := ownedBy_of_checkTableOwner ht hsel hdb hname howner
      exact hother hlevel ⟨howned, hnames⟩
  · cases h

end

/-- The table that a DDL statement means, as the executor finds it after the preprocessing. -/
def ddlTarget (cl : Collation) (s : Session) (tn : TableName) : String × String :=
  (orCurrent s (cl.lower (orCurrent s tn.schema)), tn.name)

def targets (s : Session) : Statement cl → List (String × String)
  | .dropTable st => st.tables.map (ddlTarget cl s)
  | .createView st => [ddlTarget cl s st.viewName]
  | .grant st => if st.level = .table then [(orCurrent s st.dbName, st.tableName)] else []
  | .revoke st => if st.level = .table then [(orCurrent s st.dbName, st.tableName)] else []
  | _ => []

def droppedDatabase : Statement cl → Option String
  | .dropDatabase name _ => some (cl.lower name)
  | _ => none

/-- A statement of the owner on the table, or one that drops its whole database. -/
def Entitled (t : Table) (s : Session) (st : Statement cl) : Prop :=
  (t.OwnedBy s.user ∧ ∃ n ∈ targets s st, Names cl n.1 n.2 t) ∨
    ∃ db ∈ droppedDatabase st, cl.same db t.db

/-- The statement replaces no view of another user, does not select the table by an empty name,
and drops no user who holds privileges on it. -/
def Guarded (c : Catalog cl) (s : Session) (t : Table) : Statement cl → Prop
  | .dropTable st => ∀ tn ∈ st.tables,
      Table.matches cl (ddlTarget cl s tn).1 tn.name t = true → tn.name ≠ ""
  | .createView st => st.orReplace = true →
      Table.matches cl (ddlTarget cl s st.viewName).1 st.viewName.name t = true →
      t.OwnedBy s.user ∧ Names cl (ddlTarget cl s st.viewName).1 st.viewName.name t
  | .revoke st => st.level = .table →
      Table.matches cl (orCurrent s st.dbName) st.tableName t = true →
      orCurrent s st.dbName ≠ "" ∧ st.tableName ≠ ""
  | .dropUser userList _ => ∀ u ∈ userList,
      (∀ r ∈ c.tablePrivs, Names cl r.db r.tableName t →
        TablePriv.matches cl u.hostname u.username "" "" r = false) ∧
      ∀ r ∈ c.columnPrivs, Names cl r.db r.tableName t →
        ColumnPriv.matches cl u.hostname u.username "" "" r = false
  | _ => True

variable {st : Statement cl}

lemma handleTableName_eq_ok {tn tn' : TableName} (h : handleTableName s tn = .ok tn') :
  tn' = {tn with schema := orCurrent s tn.schema} := by
  obtain ⟨_, -, h⟩ := bind_eq_ok.mp h
  exact (pure_eq_ok.mp h).symm

lemma kept_of_run (ht : t ∈ c.tables) (hguard : Guarded c s t st) (hother : ¬Entitled t s st)
  (h : run c s st = .ok c') : Kept t c c' := by
  obtain ⟨st', hpre, h⟩ := bind_eq_ok.mp h
  obtain ⟨vs, -, h⟩ := bind_eq_ok.mp h
  obtain ⟨_, -, h⟩ := bind_eq_ok.mp h
  cases st with
  | createDatabase name b =>
    cases hpre
    exact .of_grows ht (grows_executeCreateDatabase h)
  | dropDatabase name b =>
    cases hpre
    exact kept_executeDropDatabase ht (fun hdb => hother (.inr ⟨_, rfl, hdb⟩)) h
  | createTable st =>
    obtain ⟨table, -, hpre⟩ := bind_eq_ok.mp hpre
    obtain ⟨referTable, -, hpre⟩ := bind_eq_ok.mp hpre
    cases hpre
    exact .of_grows ht (grows_executeCreateTable h)
  | dropTable st =>
    obtain ⟨tables, htables, hpre⟩ := bind_eq_ok.mp hpre
    cases hpre
    refine kept_executeDropTableOrView ht ?_ ?_ h
    · intro tn' htn'
      obtain ⟨tn, htn, hname⟩ := mem_of_mapM_ok htables htn'
      obtain rfl := handleTableName_eq_ok hname
      exact hguard tn htn
    · rintro tn' htn' ⟨howned, hnames⟩
      obtain ⟨tn, htn, hname⟩ := mem_of_mapM_ok htables htn'
      obtain rfl := handleTableName_eq_ok hname
      exact hother (.inl ⟨howned, ddlTarget cl s tn, mem_map_of_mem htn, hnames⟩)
  | createView st =>
    obtain ⟨viewName, hname, hpre⟩ := bind_eq_ok.mp hpre
    cases hpre
    obtain rfl := handleTableName_eq_ok hname
    refine kept_executeCreateView ht ?_ h
    intro hreplace
    rw [Bool.eq_false_iff]
    intro hsel
    obtain ⟨howned, hnames⟩ := hguard hreplace hsel
    exact hother (.inl ⟨howned, ddlTarget cl s st.viewName, mem_cons_self, hnames⟩)
  | grant st =>
    cases hpre
    exact .of_grows ht (grows_executeGrant h)
  | revoke st =>
    cases hpre
    refine kept_executeRevoke ht hguard ?_ h
    rintro hlevel ⟨howned, hnames⟩
    exact hother
      (.inl ⟨howned, (orCurrent s st.dbName, st.tableName), by simp [targets, hlevel], hnames⟩)
  | createUser specs b =>
    cases hpre
    exact .of_grows ht (grows_executeCreateUser h)
  | dropUser userList b =>
    cases hpre
    exact kept_executeDropUser ht (fun u hu => (hguard u hu).1) (fun u hu => (hguard u hu).2) h
  | alterUser specs b =>
    cases hpre
    obtain rfl := executeAlterUser_eq h
    exact .refl ht

lemma kept_next (ht : t ∈ c.tables) (hguard : Guarded c s t st) (hother : ¬Entitled t s st) :
  Kept t c (next c s st) := by
  unfold next
  cases h : run c s st with
  | error e => exact .refl ht
  | ok c' => exact kept_of_run ht hguard hother h

def step (e : Session × Statement cl) (c : Catalog cl) : Option (Catalog cl) :=
  some (next c e.1 e.2)

/-- In a run of guarded statements each of them leaves alone whatever its issuer is not entitled
to take away. -/
theorem owned_rows_kept (es : List (Session × Statement cl)) (c : Catalog cl)
  (h : EventRuns.Along step (fun e c => ∀ t ∈ c.tables, Guarded c e.1 t e.2) es c) :
  EventRuns.Along step (fun e c => ∀ t ∈ c.tables, ¬Entitled t e.1 e.2 → Kept t c (next c e.1 e.2))
    es c := by
  induction es generalizing c with
  | nil => trivial
  | cons e es ih =>
    exact ⟨fun t ht hother => kept_next ht (h.1 t ht) hother, fun c' hc' => ih c' (h.2 c' hc')⟩

def alicesTable : Table := {db := "da", table := "t", owner := "alice", host := "%"}

/-- A table of one user, in a database where another one may create and drop views. -/
def sharedDatabase : Catalog .ascii where
  users := ⟨[{host := "%", user := "alice", partyCode := "a"},
    {host := "%", user := "bob", partyCode := "b"}], by decide⟩
  databases := ⟨["da"], by decide⟩
  tables := ⟨[alicesTable], by decide⟩
  columns := ⟨[{db := "da", tableName := "t", columnName := "id", type := "int"}], by decide⟩
  databasePrivs := ⟨[{host := "%", db := "da", user := "bob", privs := [.createView, .drop]}],
    by decide⟩
  tablePrivs := ⟨[{host := "%", db := "da", user := "bob", tableName := "t"}], by decide⟩

def bobsSession : Session := ⟨⟨"bob", "%"⟩, "da"⟩

/-- The query `SELECT id FROM da.t`. It is planned only if the schema has the column. -/
def selectId : SelectStmt .ascii where
  text := "select id from da.t"
  plan c _ := match c.columns.rows.find? (fun r => r.db = "da" ∧ r.tableName = "t" ∧
      r.columnName = "id") with
    | some r => .ok [("id", .ok r.type)]
    | none => .error "unknown column id"

/-- `CREATE OR REPLACE VIEW da.name AS SELECT id FROM da.t`. -/
def bobsView (name : String) : Statement .ascii :=
  .createView {orReplace := true, viewName := ⟨"da", name⟩, select := selectId}

lemma not_entitled_bobsView (name : String) :
  ¬Entitled alicesTable bobsSession (bobsView name) := by
  rintro (⟨h, -⟩ | ⟨db, h, -⟩)
  · exact absurd h (by decide)
  · cases h

/-- Replacing a view takes the table of another user away, with the privileges on it. -/
theorem view_replaces_table_of_other : alicesTable ∈ sharedDatabase.tables ∧
    ¬Entitled alicesTable bobsSession (bobsView "t") ∧
    ((run sharedDatabase bobsSession (bobsView "t")).toOption.map
      (fun c => (c.tables.rows.map (·.owner), c.tablePrivs.rows.length))) = some (["bob"], 0) ∧
    ¬Kept alicesTable sharedDatabase (next sharedDatabase bobsSession (bobsView "t")) := by
  refine ⟨by decide, not_entitled_bobsView "t", by decide, ?_⟩
  intro h
  exact absurd h.table (by decide)

/-- A view is created, replaced by its owner and dropped. -/
def viewComesAndGoes : List (Session × Statement .ascii) :=
  [(bobsSession, bobsView "v"), (bobsSession, bobsView "v"),
    (bobsSession, .dropTable {tables := [⟨"da", "v"⟩]})]

lemma not_entitled_viewComesAndGoes {e : Session × Statement .ascii} (he : e ∈ viewComesAndGoes) :
  ¬Entitled alicesTable e.1 e.2 := by
  simp only [viewComesAndGoes, mem_cons, not_mem_nil, or_false] at he
  rcases he with rfl | rfl | rfl
  · exact not_entitled_bobsView "v"
  · exact not_entitled_bobsView "v"
  · rintro (⟨h, -⟩ | ⟨db, h, -⟩)
    · exact absurd h (by decide)
    · cases h

/-- Under another name the view is created, and the table stays. -/
theorem owned_rows_kept_view :
  ((run sharedDatabase bobsSession (bobsView "v")).toOption.map
      (fun c => c.tables.rows.map (·.owner))) = some ["alice", "bob"] ∧
    Kept alicesTable sharedDatabase (next sharedDatabase bobsSession (bobsView "v")) := by
  have hguard : ∀ t ∈ sharedDatabase.tables,
      Guarded sharedDatabase bobsSession t (bobsView "v") := by
    intro t ht _ hsel
    obtain rfl : t = alicesTable := mem_singleton.mp ht
    exact absurd hsel (by decide)
  refine ⟨by decide, ?_⟩
  exact (owned_rows_kept [(bobsSession, bobsView "v")] sharedDatabase
    ⟨hguard, fun _ _ => trivial⟩).1 alicesTable (by decide) (not_entitled_bobsView "v")

end Scql.Scdb
