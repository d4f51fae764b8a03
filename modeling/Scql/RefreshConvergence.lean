import Scql.ArchivedProjects
import Scql.MetadataConvergence

/-! # When a refresh converges

After two brokers compared checksums, one asks the other for the tables of a query, or for their
privileges only. Tables are dropped first and so end up as they were told. Privileges alone are
added to those that are there. -/
namespace Scql.Broker.MetaStorage

open MapRange Fallible List

/-- The tables asked for, if tables were asked for, and their privileges are those told. -/
structure Refreshed (compRes : ChecksumCompareResult) (tables : List String) (projectID : String)
    (workParties : List PartyCode) (db rdb : Database) : Prop where
  table : compRes ≠ .CCL_NOT_EQUAL → ∀ m, m ∈ (db.getTableMetasByTableNames projectID tables).1 ↔
    m ∈ (rdb.getTableMetasByTableNames projectID tables).1
  ccls : ∀ c, c ∈ db.listColumnConstraints projectID tables workParties ↔
    c ∈ rdb.listColumnConstraints projectID tables workParties

/-- When a refresh of privileges alone makes them equal to the remote ones: they are for columns
that have the same names locally, and every local one is among them. -/
def RefreshMergeable (compRes : ChecksumCompareResult) (tables : List String) (projectID : String)
    (workParties : List PartyCode) (db rdb : Database) : Prop :=
  compRes = .CCL_NOT_EQUAL → (∀ c ∈ rdb.listColumnConstraints projectID tables workParties,
      ∃ col ∈ db.columns, col.toColumnIdentifier = c.toColumnIdentifier) ∧
    ∀ c ∈ db.listColumnConstraints projectID tables workParties,
      ∃ d ∈ rdb.listColumnConstraints projectID tables workParties,
        d.toColumnPrivIdentifier = c.toColumnPrivIdentifier

variable {toLower : String → String} {projectID : String} {party : PartyCode}
  {tables : List String} {workParties : List PartyCode} {db rdb db' : Database}

lemma mem_listColumnConstraints (hne : projectID ≠ "") {c : ColumnPriv} :
  c ∈ db.listColumnConstraints projectID tables workParties ↔
    c ∈ (db.view c.toTableIdentifier).privs ∧ c.projectID = projectID ∧
      (tables = [] ∨ c.tableName ∈ tables) ∧ (workParties = [] ∨ c.destParty ∈ workParties) := by
  rw [Database.listColumnConstraints, mem_filter, decide_eq_true_eq, mem_privs_view,
    selects_eq_true hne]
  exact and_congr_left fun _ => (and_iff_left rfl).symm

lemma updateTableMeta_ok {metas : List TableMeta} {upd upd' : InfoUpdate}
  (h : updateTableMeta party metas upd = .ok upd') :
    upd' = {upd with tables := upd.tables ++ metas} := by
  rw [updateTableMeta] at h
  induction metas generalizing upd with
  | nil =>
    cases h
    simp
  | cons m metas ih =>
    rw [foldlM_cons] at h
    obtain ⟨upd₁, h₁, h⟩ := bind_eq_ok.mp h
    simp only [bind_eq_ok, pure_eq_ok] at h₁
    obtain ⟨_, _, _, _, rfl⟩ := h₁
    rw [ih h]
    simp

/-- The answer of a broker to a request for privileges. -/
def cclResource (projectID : String) (tables : List String) (workParties : List PartyCode) :
    ResourceSpec := ⟨.CCL, projectID, tables, workParties⟩

lemma askInfoResource_ccl {data : InfoData}
  (h : askInfoResource party rdb (cclResource projectID tables workParties) = .ok data) :
  tables ≠ [] ∧ data = .ccls (rdb.listColumnConstraints projectID tables workParties) := by
  obtain ⟨_, hensure, h⟩ := bind_eq_ok.mp h
  exact ⟨(ensure_eq_ok.mp hensure).2, (pure_eq_ok.mp h).symm⟩

lemma askInfoResource_table {data : InfoData}
  (h : askInfoResource party rdb ⟨.Table, projectID, tables, []⟩ = .ok data) :
  data = .tables (rdb.getTableMetasByTableNames projectID tables).1 := by
  iterate 2 obtain ⟨_, _, h⟩ := bind_eq_ok.mp h
  exact (pure_eq_ok.mp h).symm

variable {datas : List InfoData} {compRes : ChecksumCompareResult}

lemma askInfo_ok {resources : List ResourceSpec} (h : askInfo party rdb resources = .ok datas) :
  Forall₂ (fun r d => askInfoResource party rdb r = .ok d) resources datas := by
  rw [askInfo] at h
  obtain ⟨_, _, h⟩ := bind_eq_ok.mp h
  exact forall₂_of_mapM_ok h fun _ _ _ hr => hr

lemma view_foldl_dropTable {names : List String} (id : TableIdentifier) :
  (names.foldl (fun db name => db.dropTable ⟨projectID, name⟩) db).view id =
    if id.projectID = projectID ∧ id.tableName ∈ names then .empty else db.view id := by
  induction names generalizing db with
  | nil => simp
  | cons name names ih =>
    rw [foldl_cons, ih, view_dropTable]
    by_cases hid : id = ⟨projectID, name⟩
    · subst hid
      simp
    · simp only [mem_cons_name_iff hid, if_neg hid]

/-- What is stored under a name that was asked for, once the tables told were stored. -/
lemma view_updateTableMetaInStorage (hne : projectID ≠ "") (hdb : Intact toLower db)
    (hrdb : Sound toLower rdb)
  (htables : tables ≠ []) {ccls : List ColumnPriv} (h : updateTableMetaInStorage toLower
    {tables := (rdb.getTableMetasByTableNames projectID tables).1, ccls}
    ⟨.Table, projectID, tables, []⟩ db = .ok db') :
  (∀ m ∈ (rdb.getTableMetasByTableNames projectID tables).1,
    db'.view ⟨projectID, m.table.tableName⟩ = m.view) ∧
  ∀ n ∈ tables, (∀ m ∈ (rdb.getTableMetasByTableNames projectID tables).1,
    m.table.tableName ≠ n) → db'.view ⟨projectID, n⟩ = .empty := by
  rw [updateTableMetaInStorage] at h
  have hall : (rdb.getTableMetasByTableNames projectID tables).1.filter
      (fun m => m.table.tableName ∈ tables) =
        (rdb.getTableMetasByTableNames projectID tables).1 := by
    refine filter_eq_self.mpr fun m hm => ?_
    simpa [htables] using ((mem_getTableMetas_iff hrdb).mp hm).2.1
  rw [hall] at h
  have hid : ∀ m ∈ (rdb.getTableMetasByTableNames projectID tables).1,
      m.table.toTableIdentifier = ⟨projectID, m.table.tableName⟩ :=
    fun m hm => TableIdentifier.ext (mem_getTableMetas hm).2.1 rfl
  have hself := Set.mem_singleton projectID
  have hdropped : Intact toLower
      (tables.foldl (fun db name => db.dropTable ⟨projectID, name⟩) db) :=
    (Writes.foldl fun name _ _ => writes_dropTable _ hself).intact (notMem_singleton hne) hdb
  obtain ⟨hnew, hother⟩ := view_foldlM (Q := fun m v => v = m.view) (fun m _ _ _ hdb h =>
    ⟨(writes_addTableWithCheck hself h).intact (notMem_singleton hne) hdb,
      (view_addTableWithCheck hdb h _).trans (if_pos rfl),
      fun id hid => (view_addTableWithCheck hdb h id).trans (if_neg hid)⟩)
    hdropped (nodup_getTableMetas rdb projectID tables) h
  refine ⟨fun m hm => hid m hm ▸ hnew m hm, fun n hn hnone => ?_⟩
  rw [hother _ fun m hm heq => hnone m hm (by rw [heq]), view_foldl_dropTable, if_pos ⟨rfl, hn⟩]

lemma keys_listColumnConstraints {c d : ColumnPriv}
  (hc : c ∈ rdb.listColumnConstraints projectID tables workParties)
  (hd : d ∈ rdb.listColumnConstraints projectID tables workParties)
  (h : c.toColumnPrivIdentifier = d.toColumnPrivIdentifier) : c = d :=
  KeyedTable.eq_of_key_eq (mem_filter.mp hc).1 (mem_filter.mp hd).1 h

section

variable
  (hanswer : askInfo party rdb (createResourcesFrom compRes tables projectID workParties) =
    .ok datas)
  (h : askInfoByChecksumResult toLower compRes tables projectID workParties party (.ok rdb) db =
    .ok (true, db'))
include hanswer h

lemma refresh_ok :
    ∃ upd, updateMetaFromData (createResourcesFrom compRes tables projectID workParties) {}
      (party, datas) = .ok upd ∧
    updateStorage toLower [party] (createResourcesFrom compRes tables projectID workParties) upd
      db = .ok db' := by
  rw [askInfoByChecksumResult] at h
  split at h
  · cases h
  · obtain ⟨db₁, hask, h⟩ := bind_eq_ok.mp h
    cases h
    have hbind : (do
        let rdb ← (.ok rdb : Except String Database)
        askInfo party rdb (createResourcesFrom compRes tables projectID workParties)) =
      .ok datas := hanswer
    simp only [hbind, askInfoAndUpdateStorage, bind_eq_ok] at hask
    obtain ⟨_, _, upd, hupd, hask⟩ := hask
    rw [if_neg (by simp)] at hupd
    obtain ⟨upd', hupd', hret⟩ := bind_eq_ok.mp hupd
    obtain rfl := pure_eq_ok.mp hret
    exact ⟨upd', hupd', hask⟩

lemma refresh_ccl (hres : compRes = .CCL_NOT_EQUAL) :
    tables ≠ [] ∧ grantColumnConstraintsWithCheck toLower db projectID
      (rdb.listColumnConstraints projectID tables workParties) {owner := party} = .ok db' := by
  subst hres
  obtain ⟨upd, hupd, hstore⟩ := refresh_ok hanswer h
  obtain ⟨data, rest, hdata, hnil, rfl⟩ := forall₂_cons_left_iff.mp (askInfo_ok hanswer)
  cases forall₂_nil_left_iff.mp hnil
  obtain ⟨hne, rfl⟩ := askInfoResource_ccl hdata
  obtain ⟨_, _, hupd⟩ := bind_eq_ok.mp hupd
  cases hupd
  obtain ⟨db₁, hgrant, hret⟩ := bind_eq_ok.mp hstore
  cases hret
  exact ⟨hne, hgrant⟩

lemma refresh_table (hres : compRes ≠ .CCL_NOT_EQUAL) :
    tables ≠ [] ∧ ∃ db₁, updateTableMetaInStorage toLower
      { tables := (rdb.getTableMetasByTableNames projectID tables).1
        ccls := rdb.listColumnConstraints projectID tables workParties}
      ⟨.Table, projectID, tables, []⟩ db = .ok db₁ ∧
    grantColumnConstraintsWithCheck toLower db₁ projectID
      (rdb.listColumnConstraints projectID tables workParties) {owner := party} = .ok db' := by
  have hresources : compRes = .EQUAL ∨ createResourcesFrom compRes tables projectID workParties =
        [⟨.Table, projectID, tables, []⟩, cclResource projectID tables workParties] := by
    cases compRes with
    | EQUAL => exact .inl rfl
    | TABLE_SCHEMA_NOT_EQUAL | TABLE_CCL_NOT_EQUAL => exact .inr rfl
    | CCL_NOT_EQUAL => exact absurd rfl hres
  rcases hresources with rfl | hresources
  · cases h
  obtain ⟨upd, hupd, hstore⟩ := refresh_ok hanswer h
  rw [hresources] at hanswer hupd hstore
  obtain ⟨data, rest, hdata, hrest, rfl⟩ := forall₂_cons_left_iff.mp (askInfo_ok hanswer)
  obtain ⟨data', rest', hdata', hnil, rfl⟩ := forall₂_cons_left_iff.mp hrest
  cases forall₂_nil_left_iff.mp hnil
  obtain rfl := askInfoResource_table hdata
  obtain ⟨hne, rfl⟩ := askInfoResource_ccl hdata'
  obtain ⟨_, _, hupd⟩ := bind_eq_ok.mp hupd
  obtain ⟨upd₁, hupd₁, hupd⟩ := bind_eq_ok.mp hupd
  obtain rfl := updateTableMeta_ok hupd₁
  cases hupd
  obtain ⟨db₁, htable, hstore⟩ := bind_eq_ok.mp hstore
  obtain ⟨db₂, hgrant, hret⟩ := bind_eq_ok.mp hstore
  cases hret
  exact ⟨hne, db₁, htable, hgrant⟩

variable (hne : projectID ≠ "") (hdb : Sound toLower db)
include hne hdb

lemma refreshed_of_table (hrdb : Sound toLower rdb) (hres : compRes ≠ .CCL_NOT_EQUAL) :
  Refreshed compRes tables projectID workParties db' rdb := by
  obtain ⟨htables, db₁, hstore, hgrant⟩ := refresh_table hanswer h hres
  have hself := Set.mem_singleton projectID
  have hnot := notMem_singleton hne
  have hdb₁ : Sound toLower db₁ := (writes_updateTableMetaInStorage hself hstore).sound hnot hdb
  have hdb' : Sound toLower db' :=
    (writes_grantColumnConstraintsWithCheck hself hgrant).sound hnot hdb₁
  obtain ⟨hnew, hgone⟩ := view_updateTableMetaInStorage hne hdb.toIntact hrdb htables hstore
  have hview : ∀ id, (db'.view id).table = (db₁.view id).table ∧
      (db'.view id).columns = (db₁.view id).columns := by
    intro id
    obtain ⟨newPrivs, rfl, -⟩ := grantColumnConstraintsWithCheck_ok hgrant
    exact view_grant db₁ newPrivs id
  refine ⟨fun _ m => ?_, fun c => ?_⟩
  · rw [mem_getTableMetas_iff hdb']
    obtain ⟨htable, hcolumns⟩ := hview ⟨projectID, m.table.tableName⟩
    rw [htable, show (db'.view ⟨projectID, m.table.tableName⟩).columnMetas =
      (db₁.view ⟨projectID, m.table.tableName⟩).columnMetas by
        rw [TableView.columnMetas, TableView.columnMetas, hcolumns]]
    constructor
    · rintro ⟨htable, hname, hcolumns⟩
      have hname := hname.resolve_left htables
      by_cases hm : ∃ m' ∈ (rdb.getTableMetasByTableNames projectID tables).1,
          m'.table.tableName = m.table.tableName
      · obtain ⟨m', hm', hn⟩ := hm
        rw [← hn, hnew m' hm'] at htable hcolumns
        rw [columnMetas_columnRows] at hcolumns
        obtain rfl : m' = m := by
          cases m
          cases m'
          cases htable
          cases hcolumns
          rfl
        exact hm'
      · rw [hgone _ hname fun m' hm' heq => hm ⟨m', hm', heq⟩] at htable
        cases htable
    · intro hm
      rw [hnew m hm, columnMetas_columnRows]
      exact ⟨rfl, ((mem_getTableMetas_iff hrdb).mp hm).2.1, rfl⟩
  · -- no privileges are left from before, and those told have their columns
    have hempty : ∀ n ∈ tables, (db₁.view ⟨projectID, n⟩).privs = [] := by
      intro n hn
      by_cases hm : ∃ m ∈ (rdb.getTableMetasByTableNames projectID tables).1, m.table.tableName = n
      · obtain ⟨m, hm, rfl⟩ := hm
        rw [hnew m hm]
        rfl
      · rw [hgone n hn fun m hm' heq => hm ⟨m, hm', heq⟩]
        rfl
    have hexact : ∀ p ∈ rdb.listColumnConstraints projectID tables workParties,
        p.toTableIdentifier = c.toTableIdentifier →
        ∃ col ∈ db₁.columns, col.toColumnIdentifier = p.toColumnIdentifier := by
      intro p hp _
      obtain ⟨hp, hproject, hname, -⟩ := (mem_listColumnConstraints hne).mp hp
      obtain ⟨⟨t, ht, htid, -⟩, -⟩ := hrdb.priv p (mem_privs_view.mp hp).1
      have hpid : p.toTableIdentifier = ⟨projectID, t.tableName⟩ :=
        TableIdentifier.ext hproject (by rw [htid])
      have hm : (⟨t, (rdb.view ⟨projectID, t.tableName⟩).columnMetas⟩ : TableMeta) ∈
          (rdb.getTableMetasByTableNames projectID tables).1 := by
        rw [mem_getTableMetas_iff hrdb]
        refine ⟨KeyedTable.find?_eq_some.mpr ⟨ht, htid.trans hpid⟩, ?_, rfl⟩
        rw [show t.tableName = p.tableName by rw [htid]]
        exact hname
      obtain ⟨d, hd, hdname⟩ := hrdb.exists_columnMeta (mem_privs_view.mp hp).1
      have hmeta : (db₁.view p.toTableIdentifier).columnMetas =
          (rdb.view p.toTableIdentifier).columnMetas := by
        rw [hpid, hnew _ hm, columnMetas_columnRows]
      exact exists_column_of_columnMeta (hmeta ▸ hd) hdname
    rw [mem_listColumnConstraints hne, mem_view_grantWithCheck hdb₁.toIntact hgrant hexact
      (fun p hp q hq => keys_listColumnConstraints hp hq) c]
    constructor
    · rintro ⟨⟨hc, -⟩ | ⟨hc, -⟩, hproject, hname, -⟩
      · exact hc
      · rw [show c.toTableIdentifier = ⟨projectID, c.tableName⟩ from
          TableIdentifier.ext hproject rfl, hempty _ (hname.resolve_left htables)] at hc
        cases hc
    · intro hc
      exact ⟨.inl ⟨hc, rfl⟩, ((mem_listColumnConstraints hne).mp hc).2⟩

lemma refreshed_ccl_iff (hres : compRes = .CCL_NOT_EQUAL) :
  Refreshed compRes tables projectID workParties db' rdb ↔
    RefreshMergeable compRes tables projectID workParties db rdb := by
  obtain ⟨-, hgrant⟩ := refresh_ccl hanswer h hres
  have hdb' : Sound toLower db' :=
    (writes_grantColumnConstraintsWithCheck (Set.mem_singleton projectID) hgrant).sound
      (notMem_singleton hne) hdb
  have hcolumns : db'.columns = db.columns := by
    obtain ⟨newPrivs, rfl, -⟩ := grantColumnConstraintsWithCheck_ok hgrant
    rfl
  have hmem : (∀ c ∈ rdb.listColumnConstraints projectID tables workParties,
      ∃ col ∈ db.columns, col.toColumnIdentifier = c.toColumnIdentifier) → ∀ c,
      c ∈ db'.listColumnConstraints projectID tables workParties ↔
        c ∈ rdb.listColumnConstraints projectID tables workParties ∨
          c ∈ db.listColumnConstraints projectID tables workParties ∧
            ∀ d ∈ rdb.listColumnConstraints projectID tables workParties,
              d.toColumnPrivIdentifier ≠ c.toColumnPrivIdentifier := by
    intro hexact c
    rw [mem_listColumnConstraints hne, mem_view_grantWithCheck hdb.toIntact hgrant
      (fun p hp _ => hexact p hp) (fun p hp q hq => keys_listColumnConstraints hp hq) c]
    constructor
    · rintro ⟨⟨hc, -⟩ | ⟨hc, hkey⟩, hrest⟩
      · exact .inl hc
      · exact .inr ⟨(mem_listColumnConstraints hne).mpr ⟨hc, hrest⟩, hkey⟩
    · rintro (hc | ⟨hc, hkey⟩)
      · exact ⟨.inl ⟨hc, rfl⟩, ((mem_listColumnConstraints hne).mp hc).2⟩
      · have hc := (mem_listColumnConstraints hne).mp hc
        exact ⟨.inr ⟨hc.1, hkey⟩, hc.2⟩
  constructor
  · intro href _
    have hexact : ∀ c ∈ rdb.listColumnConstraints projectID tables workParties,
        ∃ col ∈ db.columns, col.toColumnIdentifier = c.toColumnIdentifier := by
      intro c hc
      have hc' := (mem_listColumnConstraints hne).mp ((href.ccls c).mpr hc)
      rw [← hcolumns]
      exact (hdb'.priv c (mem_privs_view.mp hc'.1).1).2.1
    refine ⟨hexact, fun c hc => ?_⟩
    by_contra hnone
    have hkey : ∀ d ∈ rdb.listColumnConstraints projectID tables workParties,
        d.toColumnPrivIdentifier ≠ c.toColumnPrivIdentifier :=
      fun d hd hdc => hnone ⟨d, hd, hdc⟩
    exact hkey c ((href.ccls c).mp ((hmem hexact c).mpr (.inr ⟨hc, hkey⟩))) rfl
  · intro hmerge
    obtain ⟨hexact, hlocal⟩ := hmerge hres
    refine ⟨absurd hres, fun c => (hmem hexact c).trans (or_iff_left ?_)⟩
    rintro ⟨hc, hkey⟩
    obtain ⟨d, hd, hdc⟩ := hlocal c hc
    exact hkey d hd hdc

/-- A refresh converges exactly if it asked for tables or the privileges are mergeable. -/
lemma refreshed_iff (hrdb : Sound toLower rdb) :
  Refreshed compRes tables projectID workParties db' rdb ↔
    RefreshMergeable compRes tables projectID workParties db rdb := by
  by_cases hres : compRes = .CCL_NOT_EQUAL
  · exact refreshed_ccl_iff hanswer h hne hdb hres
  · exact iff_of_true (refreshed_of_table hanswer h hne hdb hrdb hres) fun heq => absurd heq hres

end

/-- After a status check without a conflict, what is stored for each party that was asked is what
it told of exactly if every table both sides had is mergeable. After a refresh that was answered,
what is stored of the tables asked for is what was told exactly if the refresh asked for tables or
the privileges are mergeable. -/
theorem metadata_converged_iff (env : Env) (equalConf : String → String → Except String Bool)
  {db : Database} (hdb : Sound env.toLower db) :
  (∀ (remotes : Remotes) (self : PartyCode) (projectIDs : List String) (db' : Database)
    (projects : List (Project × List PartyCode)) (proj : Project × List PartyCode)
    (party : PartyCode), (∀ party rdb, remotes party = .ok rdb → Sound env.toLower rdb) →
    db.listProjects projectIDs = .ok projects →
    checkAndUpdateStatus env equalConf remotes self projectIDs db = .ok (db', false) →
    proj ∈ projects → party ∈ askedParties remotes self proj →
    ∃ rdb rem, remotes party = .ok rdb ∧ getRemoteStatus remotes proj.1.id party = .ok rem ∧
      (Converged db' proj.1.id party rem ↔
        StatusMergeable env.digest proj.1.id party db rdb)) ∧
  (∀ (compRes : ChecksumCompareResult) (tables : List String) (projectID : String)
    (workParties : List PartyCode) (party : PartyCode) (rdb db' : Database)
    (datas : List InfoData), projectID ≠ "" → Sound env.toLower rdb →
    askInfo party rdb (createResourcesFrom compRes tables projectID workParties) = .ok datas →
    askInfoByChecksumResult env.toLower compRes tables projectID workParties party (.ok rdb) db =
      .ok (true, db') →
    (Refreshed compRes tables projectID workParties db' rdb ↔
      RefreshMergeable compRes tables projectID workParties db rdb)) := by
  refine ⟨?_, ?_⟩
  · intro remotes self projectIDs db' projects proj party hremotes hprojects h hproj hparty
    exact checkAndUpdateStatus_converged_iff hdb hremotes hprojects h hproj hparty
  · intro compRes tables projectID workParties party rdb db' datas hne hrdb hanswer h
    exact refreshed_iff hanswer h hne hdb hrdb

def bobPriv : ColumnPriv :=
  { projectID := "p", tableName := "t", columnName := "c", destParty := "alice"
    priv := "PLAINTEXT"}

/-- What Alice's broker stores once Bob created a table. -/
def aliceTables : Database :=
  step plainEnv "alice" (.syncInfo "bob" "p" (.CreateTable bobTable)) jointProject

/-- What Bob's broker stores once Bob created the table. -/
def bobTables : Database :=
  [.inviteToProject "alice" "alice" {id := "p", creator := "alice"} ["alice"],
    .processInvitation 1 true (some ⟨.OK, some ["alice", "bob"]⟩),
    .createTable "p" "t" "db.t" "MYSQL" [⟨"c", "int"⟩] true].foldl
      (fun db call => step plainEnv "bob" call db) {}

def bobGranted : Database := step plainEnv "bob" (.grantCCL "p" [bobPriv]) bobTables

def aliceGranted : Database :=
  step plainEnv "alice" (.syncInfo "bob" "p" (.GrantCCL [bobPriv])) aliceTables

/-- Bob drops the table and creates it again. The grant reaches Alice last. -/
def bobRecreated : Database :=
  [.dropTable "p" "t", .createTable "p" "t" "db.t" "MYSQL" [⟨"c", "int"⟩] true].foldl
    (fun db call => step plainEnv "bob" call db) bobGranted

def onlyBob (db : Database) : Remotes := fun party =>
  if party = "bob" then .ok db else .error "unreachable"

def equalText (s t : String) : Except String Bool := .ok (s = t)

lemma sound_aliceTables : Sound plainEnv.toLower aliceTables :=
  sound_run plainEnv "alice" [.createProject {id := "p", creator := "alice"},
    .inviteMember "p" "bob" true, .replyInvitation "bob" "p" true,
    .syncInfo "bob" "p" (.CreateTable bobTable)] (by decide)

lemma sound_bobGranted : Sound plainEnv.toLower bobGranted :=
  sound_run plainEnv "bob" [.inviteToProject "alice" "alice" {id := "p", creator := "alice"}
      ["alice"], .processInvitation 1 true (some ⟨.OK, some ["alice", "bob"]⟩),
    .createTable "p" "t" "db.t" "MYSQL" [⟨"c", "int"⟩] true, .grantCCL "p" [bobPriv]] (by decide)

/-- A grant that did not reach Alice is made good by a status check and by a refresh. -/
theorem metadata_converged_bobGranted :
  (∃ db' rem, checkAndUpdateStatus plainEnv equalText (onlyBob bobGranted) "alice" [] aliceTables =
      .ok (db', false) ∧ getRemoteStatus (onlyBob bobGranted) "p" "bob" = .ok rem ∧
    Converged db' "p" "bob" rem) ∧
  ∃ db', askInfoByChecksumResult plainEnv.toLower .CCL_NOT_EQUAL ["t"] "p" ["alice", "bob"] "bob"
      (.ok bobGranted) aliceTables = .ok (true, db') ∧
    Refreshed .CCL_NOT_EQUAL ["t"] "p" ["alice", "bob"] db' bobGranted := by
  have hremotes : ∀ party rdb, onlyBob bobGranted party = .ok rdb → Sound plainEnv.toLower rdb := by
    intro party rdb h
    rw [onlyBob] at h
    split at h
    · cases h
      exact sound_bobGranted
    · cases h
  constructor
  · obtain ⟨db', hcheck⟩ : ∃ db', checkAndUpdateStatus plainEnv equalText (onlyBob bobGranted)
        "alice" [] aliceTables = .ok (db', false) := ⟨_, rfl⟩
    obtain ⟨rdb, rem, hrdb, hrem, hiff⟩ :=
      (metadata_converged_iff plainEnv equalText sound_aliceTables).1 (onlyBob bobGranted)
        "alice" [] db' [({id := "p", creator := "alice"}, ["alice", "bob"])]
        ({id := "p", creator := "alice"}, ["alice", "bob"]) "bob" hremotes rfl hcheck
        mem_cons_self (by decide)
    cases hrdb
    exact ⟨db', rem, hcheck, hrem, hiff.mpr (by decide)⟩
  · obtain ⟨db', hask⟩ : ∃ db', askInfoByChecksumResult plainEnv.toLower .CCL_NOT_EQUAL ["t"] "p"
        ["alice", "bob"] "bob" (.ok bobGranted) aliceTables = .ok (true, db') := ⟨_, rfl⟩
    refine ⟨db', hask,
      ((metadata_converged_iff plainEnv equalText sound_aliceTables).2 .CCL_NOT_EQUAL
      ["t"] "p" ["alice", "bob"] "bob" bobGranted db' [.ccls [bobPriv]]
        (by decide) sound_bobGranted rfl
        hask).mpr
      fun _ => ?_⟩
    decide

/-- A status check leaves the privilege that Bob no longer grants. -/
theorem stale_privilege_kept : ∃ db' rem,
  checkAndUpdateStatus plainEnv equalText (onlyBob bobRecreated) "alice" [] aliceGranted =
      .ok (db', false) ∧
    getRemoteStatus (onlyBob bobRecreated) "p" "bob" = .ok rem ∧
    bobPriv ∈ heldPrivs db' "p" "bob" ∧ bobPriv ∉ rem.ccls ∧ ¬Converged db' "p" "bob" rem := by
  refine ⟨_, _, rfl, rfl, by decide, by decide, fun h => ?_⟩
  exact absurd ((h.ccls bobPriv).mp (by decide)) (by decide)

end Scql.Broker.MetaStorage
