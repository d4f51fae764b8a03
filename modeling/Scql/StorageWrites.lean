import Scql.BrokerCalls

/-! # What a call writes

Whatever a call does to the database is a sequence of writes of a few kinds, each made under the
conditions that its checks establish and each about one project. -/
namespace Scql.Broker.MetaStorage

open MapRange Fallible List AList

variable {toLower : String → String}

/-- No two columns have names that differ in letter case only. -/
def LowerDistinct (toLower : String → String) (columns : List ColumnMeta) : Prop :=
  (columns.map (fun c => toLower c.columnName)).Nodup

/-- One write about a project, with what has been checked before it. Under an empty id the members
of all projects pass as members. -/
inductive Write (toLower : String → String) (projectID : String) : Database → Database → Prop
  | projects {db : Database} (projects : KeyedTable Project.id)
      (h : ∀ q, q ≠ projectID → projects.find? q = db.projects.find? q) :
      Write toLower projectID db {db with projects}
  | invitations {db : Database} (invitations : KeyedTable Invitation.id) :
      Write toLower projectID db {db with invitations}
  | member {db : Database} (m : PartyCode) (members : KeyedTable (id : Member → Member))
      (h : db.members.insert ⟨projectID, m⟩ = some members) :
      Write toLower projectID db {db with members}
  | dropTable {db : Database} (name : String) :
      Write toLower projectID db (db.dropTable ⟨projectID, name⟩)
  | addTable {db db' : Database} (table : TableMeta) (hproject : table.table.projectID = projectID)
      (howner : projectID ≠ "" → (⟨projectID, table.table.owner⟩ : Member) ∈ db.members)
      (hlower : LowerDistinct toLower table.columns) (h : db.addTable table = .ok db') :
      Write toLower projectID db db'
  | grant {db : Database} (priv : ColumnPriv) (hproject : priv.projectID = projectID)
      (htable : ∃ t ∈ db.tables, t.toTableIdentifier = priv.toTableIdentifier ∧ t.isView = false)
      (hcolumn : ∃ c ∈ db.columns, c.toColumnIdentifier = priv.toColumnIdentifier)
      (hdest : projectID ≠ "" → (⟨projectID, priv.destParty⟩ : Member) ∈ db.members) :
      Write toLower projectID db {db with columnPrivs := db.columnPrivs.upsert priv}
  | revoke {db : Database} (privIDs : List ColumnPrivIdentifier) (hne : projectID ≠ "")
      (h : ∀ k ∈ privIDs, k.projectID = projectID) :
      Write toLower projectID db (db.revokeColumnConstraints privIDs)
  | deleteMembers {db : Database} (h : ∀ t ∈ db.tables, t.projectID ≠ projectID) :
    Write toLower projectID db
        {db with members := db.members.deleteWhere (·.projectID = projectID)}

def Writes (toLower : String → String) (S : Set String) : Database → Database → Prop :=
  Relation.ReflTransGen (fun db db' => ∃ p ∈ S, Write toLower p db db')

variable {α : Type} {table : TableMeta} {privIDs : List ColumnPrivIdentifier}

lemma createInBatches_ok {κ : Type} {key : α → κ} [DecidableEq κ] {t t' : KeyedTable key}
  {rows : List α} (h : createInBatches t rows = .ok t') : t.insertAll rows = some t' :=
  elim_eq_ok.mp h

lemma create_ok {κ : Type} {key : α → κ} [DecidableEq κ] {t t' : KeyedTable key} {rows : List α}
  (h : create t rows = .ok t') : t.insertAll rows = some t' := by
  rw [create] at h
  split at h
  · cases h
  · exact createInBatches_ok h

lemma addTable_ok {db db' : Database} (h : db.addTable table = .ok db') :
  ∃ tables columns, db' = {db with tables, columns} ∧ db.tables.insertAll [table.table] =
    some tables ∧
    db.columns.insertAll (table.columns.zipIdx.map (fun c =>
      ⟨⟨table.table.toTableIdentifier, c.1.columnName⟩, c.1.dType, 1+c.2⟩)) = some columns := by
  simp only [Database.addTable, bind_eq_ok, pure_eq_ok] at h
  obtain ⟨tables, htables, columns, hcolumns, rfl⟩ := h
  exact ⟨tables, columns, rfl, create_ok htables, create_ok hcolumns⟩

lemma mem_dropTable (db : Database) (id : TableIdentifier) :
  (∀ t, t ∈ (db.dropTable id).tables ↔ t ∈ db.tables ∧ t.toTableIdentifier ≠ id) ∧
    (∀ c, c ∈ (db.dropTable id).columns ↔ c ∈ db.columns ∧ c.toTableIdentifier ≠ id) ∧
    (∀ p, p ∈ (db.dropTable id).columnPrivs ↔ p ∈ db.columnPrivs ∧ p.toTableIdentifier ≠ id) ∧
    (db.dropTable id).members = db.members := by
  refine ⟨fun t => ?_, fun c => ?_, fun p => ?_, rfl⟩ <;>
    simp [Database.dropTable, Database.dropTableColumns]

lemma mem_revoke {db : Database} {p : ColumnPriv}
  (hp : p ∈ (db.revokeColumnConstraints privIDs).columnPrivs) :
  ∃ q ∈ db.columnPrivs, q.toColumnPrivIdentifier = p.toColumnPrivIdentifier := by
  obtain ⟨q, hq, rfl⟩ := mem_map.mp hp
  refine ⟨q, hq, ?_⟩
  split
  · rfl
  · rfl

variable {projectID : String} {db db' : Database} {S : Set String}

lemma Write.writes (hp : projectID ∈ S) (h : Write toLower projectID db db') :
    Writes toLower S db db' :=
  .single ⟨projectID, hp, h⟩

variable {l : List α}

lemma Writes.foldlM {f : Database → α → Except String Database}
  (hf : ∀ a ∈ l, ∀ db db', f db a = .ok db' → Writes toLower S db db')
  (h : l.foldlM f db = .ok db') :
  Writes toLower S db db' :=
  foldlM_invariant (P := Writes toLower S db)
    (fun a ha s s' hs hstep => hs.trans (hf a ha s s' hstep)) .refl h

lemma Writes.foldl {f : Database → α → Database}
  (hf : ∀ a ∈ l, ∀ db, Writes toLower S db (f db a)) : Writes toLower S db (l.foldl f db) := by
  induction l generalizing db with
  | nil => exact .refl
  | cons a l ih =>
    exact (hf a mem_cons_self db).trans (ih fun b hb => hf b (mem_cons_of_mem a hb))

lemma mem_getProjectMembers {m : PartyCode} (h : projectID ≠ "") :
  m ∈ db.getProjectMembers projectID ↔ (⟨projectID, m⟩ : Member) ∈ db.members := by
  rw [Database.getProjectMembers, mem_map]
  constructor
  · rintro ⟨⟨q, m⟩, hm, rfl⟩
    obtain ⟨hmem, hq⟩ := mem_filter.mp hm
    obtain rfl : q = projectID := (selects_eq_true h).mp hq
    exact hmem
  · intro hm
    exact ⟨_, mem_filter.mpr ⟨hm, (selects_eq_true h).mpr rfl⟩, rfl⟩

lemma findProject_of_ne (h : projectID ≠ "") :
  db.findProject projectID = db.projects.find? projectID :=
  if_neg h

lemma getProject_ok {proj : Project} (hne : projectID ≠ "")
  (h : db.getProject projectID = .ok proj) : db.projects.find? projectID = some proj := by
  rw [← findProject_of_ne hne]
  exact elim_eq_ok.mp h

lemma writes_insertMembers (hp : projectID ∈ S) {members : List PartyCode}
  {ms : KeyedTable (id : Member → Member)}
  (h : db.members.insertAll (members.map (⟨projectID, ·⟩)) = some ms) :
  Writes toLower S db {db with members := ms} := by
  induction members generalizing db with
  | nil =>
    obtain rfl : db.members = ms := Option.some.inj h
    exact .refl
  | cons m members ih =>
    rw [map_cons, KeyedTable.insertAll, foldlM_cons] at h
    obtain ⟨ms₁, h₁, h⟩ := Option.bind_eq_some_iff.mp h
    exact (Write.writes hp (.member m ms₁ h₁)).trans (ih h)

lemma addProjectMembers_ok {members : List Member} (h : db.addProjectMembers members = .ok db') :
  ∃ ms, db.members.insertAll members = some ms ∧ db' = {db with members := ms} := by
  rw [Database.addProjectMembers] at h
  obtain ⟨ms, hms, h⟩ := bind_eq_ok.mp h
  exact ⟨ms, createInBatches_ok hms, (pure_eq_ok.mp h).symm⟩

lemma writes_addProjectMembers (hp : projectID ∈ S) (members : List PartyCode)
  (h : db.addProjectMembers (members.map (⟨projectID, ·⟩)) = .ok db') :
    Writes toLower S db db' := by
  obtain ⟨ms, hms, rfl⟩ := addProjectMembers_ok h
  exact writes_insertMembers hp hms

lemma writes_createProject {project : Project} (hp : project.id ∈ S)
  (h : db.createProject project = .ok db') : Writes toLower S db db' := by
  rw [Database.createProject] at h
  obtain ⟨projects, hprojects, h⟩ := bind_eq_ok.mp h
  obtain ⟨ps, hps, hnil⟩ := Option.bind_eq_some_iff.mp (create_ok hprojects)
  obtain rfl := Option.some.inj hnil
  refine (Write.writes hp (.projects ps fun q hq => ?_)).trans
    (writes_addProjectMembers hp [project.creator] h)
  rw [KeyedTable.find?_insert hps, if_neg (Ne.symm hq)]

lemma writes_updateProject (proj : Project) (hp : proj.id ∈ S)
  (h : db.updateProject proj = .ok db') : Writes toLower S db db' := by
  rw [Database.updateProject] at h
  split at h
  · cases h
    refine Write.writes hp (.projects _ fun q hq => ?_)
    rw [KeyedTable.find?_updateWhere]
    cases hrow : db.projects.find? q with
    | none => rfl
    | some row =>
      obtain rfl := KeyedTable.key_of_find? hrow
      simp [hq]
  · cases h

lemma writes_dropTable (id : TableIdentifier) (hp : id.projectID ∈ S) :
  Writes toLower S db (db.dropTable id) :=
  Write.writes hp (.dropTable id.tableName)

lemma nodup_of_length {l : List String} (h : l.length = (sliceDeDup l).length) : l.Nodup := by
  have hsub : (sliceDeDup l).Sublist (l.insertionSort (· ≤ ·)) := destutter_sublist _ _
  have heq : sliceDeDup l = l.insertionSort (· ≤ ·) :=
    hsub.eq_of_length (by rw [← h, length_insertionSort])
  exact (perm_insertionSort (· ≤ ·) l).nodup_iff.mp (heq ▸ nodup_sliceDeDup l)

variable {name : String} {privs : List ColumnPriv} {checker : OwnerChecker}
    {loc : Database.ProjectMeta}

lemma mem_listDedupTableOwners {o : PartyCode} : o ∈ db.listDedupTableOwners projectID [name] ↔
    ∃ t ∈ db.tables, t.toTableIdentifier = ⟨projectID, name⟩ ∧ t.owner = o := by
  simp only [Database.listDedupTableOwners, Database.getAllTables, mem_sliceDeDup, mem_map,
    mem_filter, decide_eq_true_eq, mem_singleton, and_assoc, KeyedTable.mem_iff]
  refine exists_congr fun t => and_congr_right fun _ => ?_
  constructor
  · rintro ⟨rfl, rfl, rfl⟩
    exact ⟨rfl, rfl⟩
  · rintro ⟨h, rfl⟩
    exact ⟨congrArg TableIdentifier.projectID h, congrArg TableIdentifier.tableName h, rfl⟩

variable {party remoteParty : PartyCode} {id : TableIdentifier} {rem : Database.ProjectMeta}
  {invitation : Invitation}

lemma addTableWithCheck_ok (h : addTableWithCheck toLower db projectID party table = .ok db') :
  table.table.owner = party ∧ table.table.projectID = projectID ∧
    LowerDistinct toLower table.columns ∧
    (projectID ≠ "" → (⟨projectID, party⟩ : Member) ∈ db.members) ∧
    ((db.tables.find? table.table.toTableIdentifier = none ∧ db.addTable table = .ok db') ∨
      (∃ t, db.tables.find? table.table.toTableIdentifier = some t ∧ t.owner = party) ∧
        (db.dropTable table.table.toTableIdentifier).addTable table = .ok db') := by
  simp only [addTableWithCheck, bind_eq_ok] at h
  obtain ⟨_, howner, _, hproject, _, hlower, _, hmember, _, _, h⟩ := h
  have howner := ensure_eq_ok.mp howner
  refine ⟨howner, ensure_eq_ok.mp hproject, nodup_of_length (ensure_eq_ok.mp hlower),
    fun hne => (mem_getProjectMembers hne).mp (ensure_eq_ok.mp hmember), ?_⟩
  split at h
  · next hnone =>
    refine .inl ⟨KeyedTable.find?_eq_none.mpr fun t ht hid => ?_, h⟩
    exact not_mem_nil (head?_eq_none_iff.mp hnone ▸ mem_listDedupTableOwners.mpr ⟨t, ht, hid, rfl⟩)
  · next o ho =>
    obtain ⟨_, hsame, hadd⟩ := bind_eq_ok.mp h
    obtain ⟨t, ht, hid, rfl⟩ := mem_listDedupTableOwners.mp (mem_of_head? ho)
    exact .inr ⟨⟨t, KeyedTable.find?_eq_some.mpr ⟨ht, hid⟩, (ensure_eq_ok.mp hsame).trans howner⟩,
      hadd⟩

lemma writes_addTableWithCheck (hp : projectID ∈ S)
  (h : addTableWithCheck toLower db projectID party table = .ok db') : Writes toLower S db db' := by
  obtain ⟨howner, hproject, hlower, hmember, hadd⟩ := addTableWithCheck_ok h
  rw [← howner] at hmember
  rcases hadd with ⟨-, hadd⟩ | ⟨-, hadd⟩
  · exact Write.writes hp (.addTable table hproject hmember hlower hadd)
  · exact (writes_dropTable _ (hproject ▸ hp)).trans
      (Write.writes hp (.addTable table hproject hmember hlower hadd))

variable {exist : Bool}

lemma dropTableWithCheck_ok (h : dropTableWithCheck db projectID party id = .ok (exist, db')) :
  id.projectID = projectID ∧ ((db.tables.find? id = none ∧ exist = false ∧ db' = db) ∨
    (∃ t, db.tables.find? id = some t ∧ t.owner = party) ∧ exist = true ∧ db' =
      db.dropTable id) := by
  rw [dropTableWithCheck] at h
  obtain ⟨_, hproject, h⟩ := bind_eq_ok.mp h
  have hproject := ensure_eq_ok.mp hproject
  refine ⟨hproject, ?_⟩
  split at h
  · next hnone =>
    cases h
    exact .inl ⟨Option.isNone_iff_eq_none.mp hnone, rfl, rfl⟩
  · next hsome =>
    obtain ⟨_, howners, h⟩ := bind_eq_ok.mp h
    cases h
    obtain ⟨t, ht, hid, hparty⟩ := mem_listDedupTableOwners.mp
      (ensure_eq_ok.mp howners ▸ mem_singleton_self party)
    refine .inr ⟨⟨t, KeyedTable.find?_eq_some.mpr ⟨ht, ?_⟩, hparty⟩, rfl, rfl⟩
    rw [hid, ← hproject]

lemma writes_dropTableWithCheck (hp : projectID ∈ S)
  (h : dropTableWithCheck db projectID party id = .ok (exist, db')) : Writes toLower S db db' := by
  obtain ⟨hproject, ⟨-, -, rfl⟩ | ⟨-, -, rfl⟩⟩ := dropTableWithCheck_ok h
  · exact .refl
  · exact writes_dropTable id (hproject ▸ hp)

variable {names : List String}

lemma mem_columnsOf {c : ColumnMeta} :
  c ∈ db.columnsOf id ↔ ∃ col ∈ db.columns, col.toColumnIdentifier = ⟨id, c.columnName⟩ ∧
    col.dType = c.dType := by
  simp only [Database.columnsOf, mem_map, mem_insertionSort, mem_filter,
    decide_eq_true_eq, and_assoc, KeyedTable.mem_iff]
  refine exists_congr fun col => and_congr_right fun _ => ?_
  constructor
  · rintro ⟨rfl, rfl⟩
    exact ⟨rfl, rfl⟩
  · rintro ⟨hid, hd⟩
    refine ⟨congrArg ColumnIdentifier.toTableIdentifier hid, ?_⟩
    rw [hd, congrArg ColumnIdentifier.columnName hid]

lemma lookup_lowerNames {columns : List ColumnMeta} {cols : AList (fun _ : String => String)}
  {k v : String} (h : (columns.foldl
    (fun cols c => cols.insert (toLower c.columnName) c.columnName) cols).lookup k = some v) :
  (∃ c ∈ columns, toLower c.columnName = k ∧ c.columnName = v) ∨ cols.lookup k = some v := by
  induction columns generalizing cols with
  | nil => exact .inr h
  | cons c columns ih =>
    rcases ih h with ⟨d, hd, hk, hv⟩ | h
    · exact .inl ⟨d, mem_cons_of_mem c hd, hk, hv⟩
    · by_cases hk : k = toLower c.columnName
      · subst hk
        rw [lookup_insert] at h
        exact .inl ⟨c, mem_cons_self, rfl, Option.some.inj h⟩
      · rw [lookup_insert_ne hk] at h
        exact .inr h

lemma originColName_ok {caller : String} {metas : List TableMeta} {tableName c : String}
  (h : originColName toLower caller (createMapLowerToOriginColName toLower metas) tableName name =
    .ok c)
  : ∃ m ∈ metas, m.table.tableName = tableName ∧ ∃ d ∈ m.columns, d.columnName = c ∧
    toLower c = toLower name := by
  suffices hmap : ∀ metas cols v, (createMapLowerToOriginColName toLower metas).lookup tableName =
      some cols → cols.lookup (toLower name) = some v →
      ∃ m ∈ metas, m.table.tableName = tableName ∧ ∃ d ∈ m.columns, d.columnName = v ∧
        toLower v = toLower name by
    rw [originColName] at h
    cases hcols : (createMapLowerToOriginColName toLower metas).lookup tableName with
    | none => simp [hcols] at h
    | some cols =>
      cases hv : cols.lookup (toLower name) with
      | none => simp [hcols, hv] at h
      | some v =>
        obtain rfl : v = c := by simpa [hcols, hv] using h
        exact hmap metas cols v hcols hv
  intro metas
  induction metas using reverseRecOn with
  | nil =>
    intro cols v hcols
    cases hcols
  | append_singleton metas m ih =>
    intro cols v hcols hv
    rw [createMapLowerToOriginColName, foldl_append, foldl_cons, foldl_nil,
      ← createMapLowerToOriginColName] at hcols
    by_cases hm : tableName = m.table.tableName
    · subst hm
      rw [lookup_insert] at hcols
      cases hcols
      rcases lookup_lowerNames hv with ⟨d, hd, hk, rfl⟩ | hv
      · exact ⟨m, by simp, rfl, d, hd, rfl, hk⟩
      · cases hold : (createMapLowerToOriginColName toLower metas).lookup m.table.tableName with
        | none =>
          rw [hold] at hv
          cases hv
        | some cols =>
          rw [hold] at hv
          obtain ⟨m', hm', h⟩ := ih cols v hold hv
          exact ⟨m', by simp [hm'], h⟩
    · rw [lookup_insert_ne hm] at hcols
      obtain ⟨m', hm', h⟩ := ih cols v hcols hv
      exact ⟨m', by simp [hm'], h⟩

/-- What a checked grant has checked and done: each privilege is for a column of a table that is
no view, under the column's own name, and for a member. -/
lemma grantColumnConstraintsWithCheck_ok
  (h : grantColumnConstraintsWithCheck toLower db projectID privs checker = .ok db') :
  ∃ newPrivs, db' = db.grantColumnConstraints newPrivs ∧
    Forall₂ (fun p q => q = {p with columnName := q.columnName} ∧
      toLower q.columnName = toLower p.columnName ∧ q.projectID = projectID ∧
      (∃ t ∈ db.tables, t.toTableIdentifier = q.toTableIdentifier ∧ t.isView = false) ∧
      (∃ c ∈ db.columns, c.toColumnIdentifier = q.toColumnIdentifier) ∧
      (projectID ≠ "" → (⟨projectID, q.destParty⟩ : Member) ∈ db.members)) privs newPrivs := by
  simp only [grantColumnConstraintsWithCheck, bind_eq_ok] at h
  obtain ⟨_, hproject, _, hmembers, _, _, _, htables, newPrivs, hnew, h⟩ := h
  refine ⟨newPrivs, (pure_eq_ok.mp h).symm, ?_⟩
  refine forall₂_of_mapM_ok hnew fun p hp q hq => ?_
  obtain ⟨c, hc, hq⟩ := bind_eq_ok.mp hq
  cases hq
  obtain ⟨m, hm, hname, d, hd, rfl, hlower⟩ := originColName_ok hc
  have hproject : p.projectID = projectID := ensure_eq_ok.mp (forM_ok_mem hproject hp)
  have hdest : p.destParty ∈ db.getProjectMembers projectID :=
    ensure_eq_ok.mp hmembers _ (mem_sliceDeDup.mpr (mem_map_of_mem hp))
  obtain ⟨_, _, hview⟩ := bind_eq_ok.mp (forM_ok_mem htables hm)
  obtain ⟨htable, hmproject, hcolumns⟩ := mem_getTableMetas hm
  have hid : m.table.toTableIdentifier = p.toTableIdentifier :=
    TableIdentifier.ext (hmproject.trans hproject.symm) hname
  refine ⟨rfl, hlower, hproject, ⟨m.table, htable, hid, ensure_eq_ok.mp hview⟩, ?_,
    fun hne => (mem_getProjectMembers hne).mp hdest⟩
  rw [hcolumns, mem_columnsOf] at hd
  obtain ⟨col, hcol, hcid, -⟩ := hd
  exact ⟨col, hcol, by rw [hcid, hid]⟩

lemma writes_grantColumnConstraintsWithCheck (hp : projectID ∈ S)
  (h : grantColumnConstraintsWithCheck toLower db projectID privs checker = .ok db') :
  Writes toLower S db db' := by
  obtain ⟨newPrivs, rfl, hnew⟩ := grantColumnConstraintsWithCheck_ok h
  have hrow : ∀ q ∈ newPrivs, q.projectID = projectID ∧
      (∃ t ∈ db.tables, t.toTableIdentifier = q.toTableIdentifier ∧ t.isView = false) ∧
      (∃ c ∈ db.columns, c.toColumnIdentifier = q.toColumnIdentifier) ∧
      (projectID ≠ "" → (⟨projectID, q.destParty⟩ : Member) ∈ db.members) := by
    intro q hq
    obtain ⟨p, -, hpq⟩ := exists_of_forall₂ hnew.flip hq
    exact hpq.2.2
  -- the tables and members stay the same while the rows are written
  clear hnew h
  induction newPrivs generalizing db with
  | nil => exact .refl
  | cons q newPrivs ih =>
    obtain ⟨hproject, htable, hcolumn, hdest⟩ := hrow q mem_cons_self
    refine (Write.writes hp (.grant q hproject htable hcolumn hdest)).trans ?_
    exact ih fun q' hq' => hrow q' (mem_cons_of_mem q hq')

lemma writes_revokeColumnConstraintsWithCheck (hp : projectID ∈ S) (hne : projectID ≠ "")
  (h : revokeColumnConstraintsWithCheck toLower db projectID party privIDs = .ok db') :
  Writes toLower S db db' := by
  simp only [revokeColumnConstraintsWithCheck, bind_eq_ok, pure_eq_ok] at h
  obtain ⟨_, hproject, _, _, _, _, newPrivIDs, hnew, rfl⟩ := h
  refine Write.writes hp (.revoke newPrivIDs hne fun k hk => ?_)
  obtain ⟨p, hpmem, hk⟩ := mem_of_mapM_ok hnew hk
  obtain ⟨c, _, hk⟩ := bind_eq_ok.mp hk
  cases hk
  have hp' : p.projectID = projectID := ensure_eq_ok.mp (forM_ok_mem hproject hpmem)
  exact hp'

lemma checkProjectArchived_ok {opName : String} {proj : Project} (hne : projectID ≠ "")
  (h : checkProjectArchived db projectID opName = .ok proj) :
  db.projects.find? projectID = some proj ∧ proj.archived = false := by
  simp only [checkProjectArchived, bind_eq_ok, pure_eq_ok] at h
  obtain ⟨project, hproject, _, harchived, rfl⟩ := h
  refine ⟨?_, ensure_eq_ok.mp harchived⟩
  cases hget : db.getProject projectID with
  | error e =>
    rw [hget] at hproject
    cases hproject
  | ok row =>
    rw [hget] at hproject
    cases hproject
    exact getProject_ok hne hget

lemma writes_syncInfo {client : PartyCode} {entry : ChangeEntry} (hp : projectID ∈ S)
  (h : syncInfo toLower db client projectID entry = .ok db') : Writes toLower S db db' := by
  simp only [syncInfo, bind_eq_ok] at h
  obtain ⟨_, hne, proj, hproj, h⟩ := h
  have hne := ensure_eq_ok.mp hne
  have hid : proj.id = projectID := KeyedTable.key_of_find? (checkProjectArchived_ok hne hproj).1
  cases entry with
  | ArchiveProject =>
    rw [archiveProjectWithCheck] at h
    obtain ⟨_, _, h⟩ := bind_eq_ok.mp h
    exact writes_updateProject _ (hid ▸ hp) h
  | AddProjectMember member =>
    obtain ⟨_, _, h⟩ := bind_eq_ok.mp h
    exact writes_addProjectMembers hp [member] h
  | CreateTable tableMeta => exact writes_addTableWithCheck hp h
  | DropTable tableId =>
    obtain ⟨⟨exist, db₁⟩, hdrop, h⟩ := bind_eq_ok.mp h
    cases h
    exact writes_dropTableWithCheck hp hdrop
  | GrantCCL privs => exact writes_grantColumnConstraintsWithCheck hp h
  | RevokeCCL privIDs => exact writes_revokeColumnConstraintsWithCheck hp hne h

variable {upd : InfoUpdate}

lemma writes_updateTableMetaInStorage {resource : ResourceSpec} (hp : resource.projectID ∈ S)
  (h : updateTableMetaInStorage toLower upd resource db = .ok db') : Writes toLower S db db' := by
  rw [updateTableMetaInStorage] at h
  refine (Writes.foldl fun name _ db => ?_).trans (Writes.foldlM (fun m _ db db' hm => ?_) h)
  · exact writes_dropTable _ hp
  · exact writes_addTableWithCheck hp hm

lemma writes_updateStorage {sources : List PartyCode} {resources : List ResourceSpec}
  (hp : ∀ r ∈ resources, r.projectID ∈ S)
  (h : updateStorage toLower sources resources upd db = .ok db') : Writes toLower S db db' := by
  refine Writes.foldlM (fun r hr db db' hstep => ?_) h
  have hr := hp r hr
  split at hstep
  · exact writes_updateTableMetaInStorage hr hstep
  · exact writes_grantColumnConstraintsWithCheck hr hstep
  · obtain ⟨db₁, htables, hgrant⟩ := bind_eq_ok.mp hstep
    exact (writes_updateTableMetaInStorage hr htables).trans
      (writes_grantColumnConstraintsWithCheck hr hgrant)

lemma writes_updateFromCreator (hp : loc.proj.id ∈ S)
  (h : updateFromCreator loc rem remoteParty db = .ok db') : Writes toLower S db db' := by
  rw [updateFromCreator] at h
  split at h
  · obtain ⟨db₁, hproject, h⟩ := bind_eq_ok.mp h
    refine .trans ?_ (writes_addProjectMembers hp _ h)
    split at hproject
    · exact writes_updateProject {loc.proj with archived := rem.proj.archived} hp hproject
    · cases hproject
      exact .refl
  · cases h
    exact .refl

lemma writes_dropOldTable (hp : projectID ∈ S)
  (h : dropOldTable projectID remoteParty db name = .ok db') : Writes toLower S db db' := by
  obtain ⟨⟨exist, db₁⟩, hdrop, h⟩ := bind_eq_ok.mp h
  cases h
  exact writes_dropTableWithCheck hp hdrop

lemma writes_grantRemote {ccls : List ColumnPriv} (hp : projectID ∈ S)
  (h : grantRemote toLower projectID ccls db = .ok db') : Writes toLower S db db' := by
  rw [grantRemote] at h
  split at h
  · cases h
    exact .refl
  · exact writes_grantColumnConstraintsWithCheck hp h

lemma writes_replaceTable {localTable : AList (fun _ : String => TableMeta)} {t : TableMeta}
  (hp : projectID ∈ S)
  (h : replaceTable toLower projectID remoteParty rem localTable db t = .ok db') :
  Writes toLower S db db' := by
  obtain ⟨db₁, hold, h⟩ := bind_eq_ok.mp h
  obtain ⟨db₂, hadd, h⟩ := bind_eq_ok.mp h
  refine .trans ?_ ((writes_addTableWithCheck hp hadd).trans (writes_grantRemote hp h))
  split at hold
  · exact writes_dropOldTable hp hold
  · cases hold
    exact .refl

lemma writes_updateStatus {digest : String → String} {o : RangeOrder} (hp : loc.proj.id ∈ S)
  (h : updateStatus toLower digest o loc rem remoteParty db = .ok db') :
    Writes toLower S db db' := by
  simp only [updateStatus, bind_eq_ok] at h
  obtain ⟨db₁, hcreator, db₂, hdrop, db₃, hupdate, h⟩ := h
  exact (writes_updateFromCreator hp hcreator).trans
    ((Writes.foldlM (fun _ _ _ _ => writes_dropOldTable hp) hdrop).trans
      ((Writes.foldlM (fun _ _ _ _ => writes_replaceTable hp) hupdate).trans
        (writes_grantRemote hp h)))

lemma mem_foldl_dropTable {t : Table} :
  t ∈ (names.foldl (fun db name => db.dropTable ⟨projectID, name⟩) db).tables ↔
    t ∈ db.tables ∧ ∀ name ∈ names, t.toTableIdentifier ≠ ⟨projectID, name⟩ := by
  induction names generalizing db with
  | nil => simp
  | cons name names ih =>
    rw [foldl_cons, ih, (mem_dropTable db ⟨projectID, name⟩).1 t]
    simp [and_assoc]

lemma writes_deleteProject (hp : projectID ∈ S) (h : db.deleteProject projectID = .ok db') :
  Writes toLower S db db' := by
  simp only [Database.deleteProject, bind_eq_ok, pure_eq_ok] at h
  obtain ⟨project, _, _, _, rfl⟩ := h
  have hfold : (db.getAllTables projectID).foldl (fun db table =>
      db.dropTable ⟨projectID, table.tableName⟩) db =
        ((db.getAllTables projectID).map (·.tableName)).foldl (fun db name =>
          db.dropTable ⟨projectID, name⟩) db := by rw [foldl_map]
  have hdrops : Writes toLower S db (((db.getAllTables projectID).map (·.tableName)).foldl
      (fun db name => db.dropTable ⟨projectID, name⟩) db) :=
    Writes.foldl fun name _ db => writes_dropTable ⟨projectID, name⟩ hp
  rw [hfold]
  refine hdrops.trans ?_
  refine (Write.writes hp (.deleteMembers fun t ht hproject => ?_)).trans
    ((Write.writes hp (.invitations _)).trans (Write.writes hp (.projects _ fun q hq => ?_)))
  · obtain ⟨ht, hnot⟩ := mem_foldl_dropTable.mp ht
    refine hnot t.tableName (mem_map_of_mem ?_) (TableIdentifier.ext hproject rfl)
    exact mem_filter.mpr ⟨ht, by simpa using hproject⟩
  · rw [KeyedTable.find?_deleteWhere]
    refine Option.ext fun row => ?_
    rw [Option.filter_eq_some_iff]
    exact ⟨And.left, fun h => ⟨h, by simpa [KeyedTable.key_of_find? h] using hq⟩⟩

lemma writes_modifyInvitations {p : Invitation → Bool} {status : InvitationStatus}
  (hp : projectID ∈ S) : Writes toLower S db (modifyInvitations db p status) :=
  Write.writes hp (.invitations _)

lemma writes_addInvitation (hp : projectID ∈ S) (h : addInvitation db invitation = .ok db') :
  Writes toLower S db db' := by
  rw [addInvitation] at h
  obtain ⟨invitations, _, h⟩ := bind_eq_ok.mp h
  cases h
  exact Write.writes hp (.invitations _)

lemma writes_acceptInvitation (hp : invitation.projectID ∈ S)
  (h : acceptInvitation db invitation = .ok db') : Writes toLower S db db' := by
  rw [acceptInvitation] at h
  obtain ⟨db₁, hcreate, h⟩ := bind_eq_ok.mp h
  exact (writes_createProject hp hcreate).trans (writes_addProjectMembers hp _ h)

variable {accept : Bool}

lemma writes_processInvitationTxn {self : PartyCode}
  {reply : Option ReplyInvitationResponse} {newMembers : List Member}
  (hp : invitation.projectID ∈ S)
  (h : processInvitationTxn self invitation accept reply db = .ok (db', newMembers)) :
  Writes toLower S db db' := by
  simp only [processInvitationTxn, bind_eq_ok] at h
  obtain ⟨_, _, _, _, db₁, haccept, h⟩ := h
  have hfirst : Writes toLower S db db₁ := by
    split at haccept
    · cases hacc : acceptInvitation db invitation with
      | error e =>
        rw [hacc] at haccept
        cases haccept
      | ok db₂ =>
        rw [hacc] at haccept
        cases haccept
        exact writes_acceptInvitation hp hacc
    · cases haccept
      exact .refl
  refine hfirst.trans ?_
  rcases reply with _ | ⟨code, info⟩
  · cases h
  · cases code with
    | OK =>
      cases h
      exact writes_modifyInvitations hp
    | DATA_INCONSISTENCY | NOT_SUPPORTED => cases h

lemma writes_replyInvitation {compatible : String → String → Bool} {self client : PartyCode}
  {resp : ReplyInvitationResponse} (hp : projectID ∈ S)
  (h : replyInvitation compatible self client projectID accept db = .ok (db', resp)) :
  Writes toLower S db db' := by
  simp only [replyInvitation, bind_eq_ok] at h
  obtain ⟨_, _, proj, _, h⟩ := h
  split at h
  · cases h
    exact .refl
  · obtain ⟨_, _, h⟩ := bind_eq_ok.mp h
    split at h
    · obtain ⟨_, _, h⟩ := bind_eq_ok.mp h
      cases h
      exact .refl
    · obtain ⟨invitation, _, h⟩ := bind_eq_ok.mp h
      split at h
      · cases h
        exact writes_modifyInvitations hp
      · split at h
        · obtain ⟨db₁, hadd, h⟩ := bind_eq_ok.mp h
          cases h
          exact (writes_modifyInvitations hp).trans (writes_addProjectMembers hp [client] hadd)
        · cases h
          exact writes_modifyInvitations hp

def Call.projects (db : Database) : Call → List String
  | .createProject project => [project.id]
  | .archiveProject projectID _ => [projectID]
  | .deleteProject projectID => [projectID]
  | .inviteMember projectID _ _ => [projectID]
  | .inviteToProject _ _ project _ => [project.id]
  | .processInvitation invitationID _ _ =>
    ((findUnhandledWithID db invitationID).map (·.projectID)).toList
  | .addNewMembers projectID _ => [projectID]
  | .replyInvitation _ projectID _ => [projectID]
  | .createTable projectID _ _ _ _ _ => [projectID]
  | .createView projectID _ _ _ _ => [projectID]
  | .dropTable projectID _ => [projectID]
  | .grantCCL projectID _ => [projectID]
  | .revokeCCL projectID _ => [projectID]
  | .syncInfo _ projectID _ => [projectID]
  | .askInfo _ resources _ => resources.map (·.projectID)
  | .updateStatus loc _ _ => [loc.proj.id]

variable {env : Env} {self : PartyCode}

lemma writes_handle {call : Call} (h : handle env self call db = .ok db') :
  Writes env.toLower {p | p ∈ call.projects db} db db' := by
  cases call with
  | createProject project =>
    iterate 2 obtain ⟨_, _, h⟩ := bind_eq_ok.mp h
    refine writes_createProject ?_ h
    exact mem_singleton_self project.id
  | archiveProject projectID synced =>
    obtain ⟨_, hne, h⟩ := bind_eq_ok.mp h
    obtain ⟨project, hproject, h⟩ := bind_eq_ok.mp h
    split at h
    · cases h
      exact .refl
    · obtain ⟨_, _, h⟩ := bind_eq_ok.mp h
      have hid : project.id = projectID :=
        KeyedTable.key_of_find? (getProject_ok (ensure_eq_ok.mp hne) hproject)
      exact writes_updateProject _ (hid ▸ mem_singleton_self project.id) h
  | deleteProject projectID =>
    obtain ⟨_, _, h⟩ := bind_eq_ok.mp h
    exact writes_deleteProject (mem_singleton_self projectID) h
  | inviteMember projectID invitee replied =>
    have hp := mem_singleton_self projectID
    obtain ⟨_, _, h⟩ := bind_eq_ok.mp h
    obtain ⟨proj, _, h⟩ := bind_eq_ok.mp h
    iterate 2 obtain ⟨_, _, h⟩ := bind_eq_ok.mp h
    obtain ⟨db₁, hadd, h⟩ := bind_eq_ok.mp h
    obtain ⟨_, _, h⟩ := bind_eq_ok.mp h
    cases h
    exact (writes_modifyInvitations hp).trans (writes_addInvitation hp hadd)
  | inviteToProject client inviter project members =>
    have hp := mem_singleton_self project.id
    iterate 2 obtain ⟨_, _, h⟩ := bind_eq_ok.mp h
    exact (writes_modifyInvitations hp).trans (writes_addInvitation hp h)
  | processInvitation invitationID accept reply =>
    obtain ⟨invitation, hinvitation, h⟩ := bind_eq_ok.mp h
    have hp : invitation.projectID ∈
        {p | p ∈ (Call.processInvitation invitationID accept reply).projects db} := by
      simp [Call.projects, elim_eq_ok.mp hinvitation]
    split at h
    · next htxn =>
      cases h
      exact writes_processInvitationTxn hp htxn
    · cases h
      exact writes_modifyInvitations hp
    · cases h
  | addNewMembers projectID members =>
    obtain ⟨_, _, h⟩ := bind_eq_ok.mp h
    exact writes_addProjectMembers (mem_singleton_self projectID) members h
  | replyInvitation client projectID accept =>
    have h : (replyInvitation env.compatible self client projectID accept db).map (·.1) = .ok db' :=
      h
    cases hreply : replyInvitation env.compatible self client projectID accept db with
    | error e =>
      rw [hreply] at h
      cases h
    | ok res =>
      rw [hreply] at h
      cases h
      exact writes_replyInvitation (mem_singleton_self projectID) hreply
  | createTable projectID tableName refTable dbType columns synced =>
    iterate 4 obtain ⟨_, _, h⟩ := bind_eq_ok.mp h
    obtain ⟨db₁, hadd, h⟩ := bind_eq_ok.mp h
    obtain ⟨_, _, h⟩ := bind_eq_ok.mp h
    cases h
    exact writes_addTableWithCheck (mem_singleton_self projectID) hadd
  | createView projectID viewName query columns synced =>
    iterate 3 obtain ⟨_, _, h⟩ := bind_eq_ok.mp h
    obtain ⟨db₁, hadd, h⟩ := bind_eq_ok.mp h
    obtain ⟨_, _, h⟩ := bind_eq_ok.mp h
    cases h
    exact writes_addTableWithCheck (mem_singleton_self projectID) hadd
  | dropTable projectID tableName =>
    iterate 2 obtain ⟨_, _, h⟩ := bind_eq_ok.mp h
    obtain ⟨⟨exist, db₁⟩, hdrop, h⟩ := bind_eq_ok.mp h
    obtain ⟨_, _, h⟩ := bind_eq_ok.mp h
    cases h
    exact writes_dropTableWithCheck (mem_singleton_self projectID) hdrop
  | grantCCL projectID privs =>
    iterate 4 obtain ⟨_, _, h⟩ := bind_eq_ok.mp h
    exact writes_grantColumnConstraintsWithCheck (mem_singleton_self projectID) h
  | revokeCCL projectID privIDs =>
    obtain ⟨_, hne, h⟩ := bind_eq_ok.mp h
    obtain ⟨_, _, h⟩ := bind_eq_ok.mp h
    exact writes_revokeColumnConstraintsWithCheck (mem_singleton_self projectID)
      (ensure_eq_ok.mp hne).1 h
  | syncInfo client projectID entry => exact writes_syncInfo (mem_singleton_self projectID) h
  | askInfo sourceParties resources answers =>
    obtain ⟨_, _, h⟩ := bind_eq_ok.mp h
    obtain ⟨upd, _, h⟩ := bind_eq_ok.mp h
    exact writes_updateStorage (fun r hr => mem_map_of_mem hr) h
  | updateStatus loc rem remoteParty =>
    exact writes_updateStatus (mem_singleton_self loc.proj.id) h

lemma writes_step (call : Call) (db : Database) :
  Writes env.toLower {p | p ∈ call.projects db} db (step env self call db) := by
  rw [step]
  split
  · next h => exact writes_handle h
  · exact .refl

end Scql.Broker.MetaStorage
