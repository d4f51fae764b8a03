import Scql.StatusCheck
import Scql.StorageIntegrity

/-! # What is stored of one table

The row of a table, the rows of its columns and those of its column privileges. The checked writes
change what is stored of one table at a time, and leave nothing behind of a table that is gone. -/
namespace Scql.Broker.MetaStorage

open Fallible List

@[ext] structure TableView where
  table : Option Table
  columns : List Column
  privs : List ColumnPriv

namespace TableView

def empty : TableView := ⟨none, [], []⟩

def columnMetas (v : TableView) : List ColumnMeta :=
  (v.columns.insertionSort (fun c d => c.position ≤ d.position)).map
    (fun c => ⟨c.columnName, c.dType⟩)

end TableView

def Database.view (db : Database) (id : TableIdentifier) : TableView where
  table := db.tables.find? id
  columns := db.columns.rows.filter (·.toTableIdentifier = id)
  privs := db.columnPrivs.rows.filter (·.toTableIdentifier = id)

def TableMeta.columnRows (m : TableMeta) : List Column :=
  m.columns.zipIdx.map (fun c =>
    ⟨⟨m.table.toTableIdentifier, c.1.columnName⟩, c.1.dType, 1+c.2⟩)

def TableMeta.view (m : TableMeta) : TableView := ⟨some m.table, m.columnRows, []⟩

variable {toLower : String → String} {db db' : Database} {id : TableIdentifier}

lemma columnMetas_view (db : Database) (id : TableIdentifier) :
  (db.view id).columnMetas = db.columnsOf id := rfl

lemma columnMetas_columnRows (m : TableMeta) : m.view.columnMetas = m.columns := by
  have hsorted : m.columnRows.Pairwise (fun c d => c.position ≤ d.position) := by
    rw [TableMeta.columnRows, pairwise_map]
    refine pairwise_iff_getElem.mpr fun i j hi hj hij => ?_
    simp only [getElem_zipIdx]
    omega
  rw [TableView.columnMetas, TableMeta.view, hsorted.insertionSort_eq, TableMeta.columnRows,
    map_map]
  exact zipIdx_map_fst 0 m.columns

lemma view_dropTable (db : Database) (id id' : TableIdentifier) :
  (db.dropTable id).view id' = if id' = id then .empty else db.view id' := by
  split
  · next h =>
    subst h
    refine TableView.ext ?_ ?_ ?_
    · refine KeyedTable.find?_eq_none.mpr fun t ht => ?_
      exact ((mem_dropTable db id').1 t).mp ht |>.2
    · refine filter_eq_nil_iff.mpr fun c hc => ?_
      simpa using (((mem_dropTable db id').2.1 c).mp hc).2
    · refine filter_eq_nil_iff.mpr fun p hp => ?_
      simpa using (((mem_dropTable db id').2.2.1 p).mp hp).2
  · next h =>
    refine TableView.ext ?_ ?_ ?_
    · refine KeyedTable.find?_deleteWhere.trans ?_
      refine Option.ext fun t => ?_
      rw [Option.filter_eq_some_iff]
      refine and_iff_left_of_imp fun ht => ?_
      have hid : t.toTableIdentifier = id' := KeyedTable.key_of_find? ht
      simpa [hid] using h
    · refine filter_filter.trans (filter_congr fun c _ => ?_)
      by_cases hc : c.toTableIdentifier = id' <;> simp [hc, h]
    · refine filter_filter.trans (filter_congr fun p _ => ?_)
      by_cases hp : p.toTableIdentifier = id' <;> simp [hp, h]

variable {m : TableMeta}

lemma view_addTable (h : db.addTable m = .ok db')
  (hfree : db.view m.table.toTableIdentifier = .empty) (id : TableIdentifier) :
  db'.view id = if id = m.table.toTableIdentifier then m.view else db.view id := by
  obtain ⟨tables, columns, rfl, htables, hcolumns⟩ := addTable_ok h
  obtain ⟨t₁, h₁, h₂⟩ := Option.bind_eq_some_iff.mp htables
  obtain rfl : t₁ = tables := Option.some.inj h₂
  have hrows : columns.rows = db.columns.rows ++ m.columnRows := KeyedTable.rows_insertAll hcolumns
  have hnew : ∀ c ∈ m.columnRows, c.toTableIdentifier = m.table.toTableIdentifier := by
    intro c hc
    obtain ⟨x, -, rfl⟩ := mem_map.mp hc
    rfl
  split
  · next hid =>
    subst hid
    refine TableView.ext ?_ ?_ ?_
    · exact (KeyedTable.find?_insert h₁).trans (if_pos rfl)
    · have hold := congrArg TableView.columns hfree
      refine (congrArg _ hrows).trans ?_
      rw [filter_append]
      refine (congrArg (· ++ _) hold).trans ?_
      exact filter_eq_self.mpr fun c hc => by simpa using hnew c hc
    · have hold := congrArg TableView.privs hfree
      exact hold
  · next hid =>
    refine TableView.ext ?_ ?_ rfl
    · exact (KeyedTable.find?_insert h₁).trans (if_neg (Ne.symm hid))
    · refine (congrArg _ hrows).trans ?_
      rw [filter_append]
      refine (congrArg (_ ++ ·) (filter_eq_nil_iff.mpr fun c hc => ?_)).trans (append_nil _)
      rw [hnew c hc]
      simpa using Ne.symm hid

lemma Intact.view_eq_empty (hdb : Intact toLower db) (h : db.tables.find? id = none) :
  db.view id = .empty := by
  have hnone := KeyedTable.find?_eq_none.mp h
  refine TableView.ext h ?_ ?_
  · refine filter_eq_nil_iff.mpr fun c hc => ?_
    obtain ⟨t, ht, htc⟩ := hdb.column c hc
    simpa [← htc] using hnone t ht
  · refine filter_eq_nil_iff.mpr fun p hp => ?_
    obtain ⟨⟨t, ht, htp, -⟩, -⟩ := hdb.priv p hp
    simpa [← htp] using hnone t ht

variable {projectID : String} {privs : List ColumnPriv} {checker : OwnerChecker} {party : PartyCode}

lemma view_addTableWithCheck (hdb : Intact toLower db)
  (h : addTableWithCheck toLower db projectID party m = .ok db') (id : TableIdentifier) :
  db'.view id = if id = m.table.toTableIdentifier then m.view else db.view id := by
  obtain ⟨-, -, -, -, ⟨hnone, hadd⟩ | ⟨-, hadd⟩⟩ := addTableWithCheck_ok h
  · exact view_addTable hadd (hdb.view_eq_empty hnone) id
  · rw [view_addTable hadd (by rw [view_dropTable, if_pos rfl]) id, view_dropTable]
    split <;> rfl

lemma view_dropTableWithCheck (hdb : Intact toLower db) {id : TableIdentifier}
  {exist : Bool} (h : dropTableWithCheck db projectID party id = .ok (exist, db'))
  (id' : TableIdentifier) : db'.view id' = if id' = id then .empty else db.view id' := by
  obtain ⟨-, ⟨hnone, -, rfl⟩ | ⟨-, -, rfl⟩⟩ := dropTableWithCheck_ok h
  · split
    · next hid => exact hid ▸ hdb.view_eq_empty hnone
    · rfl
  · exact view_dropTable db id id'

variable {p : ColumnPriv}

lemma Intact.exists_columnMeta (hdb : Intact toLower db) (hp : p ∈ db.columnPrivs)
  : ∃ d ∈ (db.view p.toTableIdentifier).columnMetas, d.columnName = p.columnName := by
  obtain ⟨-, ⟨col, hcol, hcolid⟩, -⟩ := hdb.priv p hp
  refine ⟨⟨p.columnName, col.dType⟩, ?_, rfl⟩
  rw [columnMetas_view, mem_columnsOf]
  exact ⟨col, hcol, hcolid, rfl⟩

lemma exists_column_of_columnMeta {d : ColumnMeta}
  (hd : d ∈ (db.view p.toTableIdentifier).columnMetas) (hname : d.columnName = p.columnName) :
  ∃ c ∈ db.columns, c.toColumnIdentifier = p.toColumnIdentifier := by
  rw [columnMetas_view, mem_columnsOf] at hd
  obtain ⟨col, hcol, hcolid, -⟩ := hd
  exact ⟨col, hcol, by rw [hcolid, hname]⟩

lemma mem_cons_name_iff {name : String} {names : List String} (hid : id ≠ ⟨projectID, name⟩) :
  (id.projectID = projectID ∧ id.tableName ∈ name::names) ↔
    id.projectID = projectID ∧ id.tableName ∈ names := by
  refine and_congr_right fun hproject => ?_
  rw [mem_cons]
  exact or_iff_right fun hname => hid (TableIdentifier.ext hproject hname)

lemma view_grant (db : Database) (privs : List ColumnPriv) (id : TableIdentifier) :
  ((db.grantColumnConstraints privs).view id).table = (db.view id).table ∧
    ((db.grantColumnConstraints privs).view id).columns = (db.view id).columns :=
  ⟨rfl, rfl⟩

lemma view_grant_of_forall_ne (h : ∀ p ∈ privs, p.toTableIdentifier ≠ id) :
  (db.grantColumnConstraints privs).view id = db.view id := by
  refine TableView.ext rfl rfl (KeyedTable.filter_rows_upsertAll ?_ fun p hp => ?_)
  · intro a b hab
    have hcolumn := congrArg ColumnPrivIdentifier.toColumnIdentifier hab
    rw [show a.toTableIdentifier = b.toTableIdentifier from
      congrArg ColumnIdentifier.toTableIdentifier hcolumn]
  · simpa using h p hp

lemma mem_privs_view : p ∈ (db.view id).privs ↔ p ∈ db.columnPrivs ∧ p.toTableIdentifier = id := by
  simp [Database.view, KeyedTable.mem_iff]

/-- What a checked grant has written: rows whose columns have exactly the names given are written
as they are. -/
lemma grantWithCheck_exact (hdb : Intact toLower db)
  (h : grantColumnConstraintsWithCheck toLower db projectID privs checker = .ok db') :
  ∃ newPrivs, db' = db.grantColumnConstraints newPrivs ∧
    Forall₂ (fun p q => q.toTableIdentifier = p.toTableIdentifier ∧
      ((∃ c ∈ db.columns, c.toColumnIdentifier = p.toColumnIdentifier) → q = p))
        privs newPrivs := by
  obtain ⟨newPrivs, rfl, hnew⟩ := grantColumnConstraintsWithCheck_ok h
  refine ⟨newPrivs, rfl, hnew.imp ?_⟩
  rintro p q ⟨hq, hlower, -, -, ⟨d, hd, hdq⟩, -⟩
  have htable : q.toTableIdentifier = p.toTableIdentifier := by rw [hq]
  refine ⟨htable, ?_⟩
  rintro ⟨c, hc, hcp⟩
  have hcTable := congrArg ColumnIdentifier.toTableIdentifier hcp
  have hdTable := congrArg ColumnIdentifier.toTableIdentifier hdq
  have hcName := congrArg ColumnIdentifier.columnName hcp
  have hdName := congrArg ColumnIdentifier.columnName hdq
  have hcd : c = d := hdb.lower c hc d hd (hcTable.trans (htable.symm.trans hdTable.symm))
    (by rw [hcName, hdName, hlower])
  rw [hq, ← hdName, ← hcd, hcName]

lemma mem_view_grantWithCheck (hdb : Intact toLower db)
  (h : grantColumnConstraintsWithCheck toLower db projectID privs checker = .ok db')
  (hexact : ∀ p ∈ privs, p.toTableIdentifier = id → ∃ c ∈ db.columns, c.toColumnIdentifier =
    p.toColumnIdentifier)
  (hkeys : ∀ p ∈ privs, ∀ q ∈ privs, p.toColumnPrivIdentifier = q.toColumnPrivIdentifier → p = q)
  (c : ColumnPriv) : c ∈ (db'.view id).privs ↔ (c ∈ privs ∧ c.toTableIdentifier = id) ∨
    c ∈ (db.view id).privs ∧ ∀ d ∈ privs, d.toColumnPrivIdentifier ≠ c.toColumnPrivIdentifier := by
  obtain ⟨newPrivs, rfl, hnew⟩ := grantWithCheck_exact hdb h
  rw [mem_privs_view, mem_privs_view]
  by_cases hc : c.toTableIdentifier = id
  swap
  · simp [hc]
  -- under the identifiers of this table the rows written are those given
  have hrows : ∀ q, q.toTableIdentifier = id → (q ∈ newPrivs ↔ q ∈ privs) := by
    intro q hq
    constructor
    · intro hmem
      obtain ⟨p, hp, hpq⟩ := exists_of_forall₂ hnew.flip hmem
      rw [hpq.2 (hexact p hp (hpq.1.symm.trans hq))]
      exact hp
    · intro hmem
      obtain ⟨p, hp, hpq⟩ := exists_of_forall₂ hnew hmem
      rw [← hpq.2 (hexact q hmem hq)]
      exact hp
  have htable : ∀ q : ColumnPriv, q.toColumnPrivIdentifier = c.toColumnPrivIdentifier →
      q.toTableIdentifier = id := by
    intro q hq
    have hcolumn := congrArg ColumnPrivIdentifier.toColumnIdentifier hq
    exact (congrArg ColumnIdentifier.toTableIdentifier hcolumn).trans hc
  have hmem : c ∈ (db.grantColumnConstraints newPrivs).columnPrivs ↔ c ∈ newPrivs ∨
      c ∈ db.columnPrivs ∧ ∀ d ∈ newPrivs, d.toColumnPrivIdentifier ≠ c.toColumnPrivIdentifier := by
    refine KeyedTable.mem_upsertAll fun a ha b hb hac hbc => ?_
    exact hkeys a ((hrows a (htable a hac)).mp ha) b ((hrows b (htable b hbc)).mp hb)
      (hac.trans hbc.symm)
  have hfree : (∀ d ∈ newPrivs, d.toColumnPrivIdentifier ≠ c.toColumnPrivIdentifier) ↔
      ∀ d ∈ privs, d.toColumnPrivIdentifier ≠ c.toColumnPrivIdentifier :=
    ⟨fun hall d hd heq => hall d ((hrows d (htable d heq)).mpr hd) heq,
      fun hall d hd heq => hall d ((hrows d (htable d heq)).mp hd) heq⟩
  rw [hmem, hrows c hc, hfree]
  simp [hc]

lemma view_grantWithCheck_of_forall_ne (hdb : Intact toLower db)
  (h : grantColumnConstraintsWithCheck toLower db projectID privs checker = .ok db')
  (hne : ∀ p ∈ privs, p.toTableIdentifier ≠ id) : db'.view id = db.view id := by
  obtain ⟨newPrivs, rfl, hnew⟩ := grantWithCheck_exact hdb h
  refine view_grant_of_forall_ne fun q hq => ?_
  obtain ⟨p, hp, hpq⟩ := exists_of_forall₂ hnew.flip hq
  exact hpq.1 ▸ hne p hp

/-- An intact database in which every table has columns and every project has an id. -/
structure Sound (toLower : String → String) (db : Database) : Prop extends Intact toLower db where
  columns : ∀ t ∈ db.tables, ∃ c ∈ db.columns, c.toTableIdentifier = t.toTableIdentifier
  named : db.projects.find? "" = none

lemma Write.named (h : Write toLower projectID db db') (hne : projectID ≠ "")
  (hdb : db.projects.find? "" = none) : db'.projects.find? "" = none := by
  cases h with
  | projects projects h =>
    rw [← hdb]
    exact h "" hne.symm
  | addTable table _ _ _ h =>
    obtain ⟨tables, columns, rfl, -⟩ := addTable_ok h
    exact hdb
  | invitations | member | dropTable | grant | revoke | deleteMembers => exact hdb

lemma Write.sound (h : Write toLower projectID db db') (hne : projectID ≠ "")
  (hdb : Sound toLower db) : Sound toLower db' := by
  refine ⟨h.intact hne hdb.toIntact, ?_, h.named hne hdb.named⟩
  cases h with
  | projects projects _ | invitations invitations | member m members h | grant priv _ _ _ _
  | revoke privIDs _ _ | deleteMembers _ => exact hdb.columns
  | dropTable name =>
    obtain ⟨htables, hcolumns, -, -⟩ := mem_dropTable db ⟨projectID, name⟩
    intro t ht
    obtain ⟨ht, hne⟩ := (htables t).mp ht
    obtain ⟨c, hc, hct⟩ := hdb.columns t ht
    exact ⟨c, (hcolumns c).mpr ⟨hc, hct ▸ hne⟩, hct⟩
  | addTable table hproject howner hlower h =>
    -- the statement that inserts the columns refuses an empty list
    have hnonempty : table.columns ≠ [] := by
      rintro hnil
      rw [Database.addTable] at h
      obtain ⟨tables, -, h⟩ := bind_eq_ok.mp h
      obtain ⟨columns, hcolumns, -⟩ := bind_eq_ok.mp h
      rw [hnil] at hcolumns
      cases hcolumns
    obtain ⟨tables, columns, rfl, htables, hcolumns⟩ := addTable_ok h
    intro t ht
    rcases (KeyedTable.mem_insertAll htables).mp ht with ht | ht
    · obtain rfl := mem_singleton.mp ht
      obtain ⟨c, cs, hcs⟩ := exists_cons_of_ne_nil hnonempty
      refine ⟨⟨⟨table.table.toTableIdentifier, c.columnName⟩, c.dType, 1+0⟩, ?_, rfl⟩
      refine (KeyedTable.mem_insertAll hcolumns).mpr (.inl (mem_map.mpr ⟨(c, 0), ?_, rfl⟩))
      rw [hcs, zipIdx_cons]
      exact mem_cons_self
    · obtain ⟨c, hc, hct⟩ := hdb.columns t ht
      exact ⟨c, (KeyedTable.mem_insertAll hcolumns).mpr (.inr hc), hct⟩

lemma Writes.sound {S : Set String} (h : Writes toLower S db db') (hS : "" ∉ S)
  (hdb : Sound toLower db) : Sound toLower db' := by
  induction h with
  | refl => exact hdb
  | tail _ h ih =>
    obtain ⟨p, hp, hwrite⟩ := h
    exact hwrite.sound (fun hnil => hS (hnil ▸ hp)) ih

lemma sound_run (env : Env) (self : PartyCode) (calls : List Call) (h : Named env self calls {}) :
  Sound env.toLower (calls.foldl (fun db call => step env self call db) {}) := by
  have hempty : Sound env.toLower {} := ⟨intact_empty, fun t ht => absurd ht (by simp), rfl⟩
  generalize ({} : Database) = db at h hempty
  induction calls generalizing db with
  | nil => exact hempty
  | cons call calls ih => exact ih _ h.2 ((writes_step call db).sound h.1 hempty)

end Scql.Broker.MetaStorage
