import Scql.TableViews

/-! # What a status update brings in line

An update of the status from one party adds and drops that party's tables as the party tells. Of a
table that both sides have it replaces the columns or adds privileges, depending on checksums. -/
namespace Scql.Broker.MetaStorage

open MapRange Fallible List AList

def heldTables (db : Database) (projectID : String) (party : PartyCode) : List TableMeta :=
  (db.getTableMetasByTableNames projectID []).1.filter (·.table.owner = party)

def heldPrivs (db : Database) (projectID : String) (party : PartyCode) : List ColumnPriv :=
  db.columnPrivs.rows.filter (fun c => c.projectID = projectID ∧
    c.tableName ∈ (heldTables db projectID party).map (·.table.tableName))

variable {toLower : String → String} {projectID : String} {party : PartyCode}
  {db db' : Database} {m m' : TableMeta} {n : String}

lemma mem_getTableMetas_iff (hdb : Sound toLower db) {names : List String} :
  m ∈ (db.getTableMetasByTableNames projectID names).1 ↔
    (db.view ⟨projectID, m.table.tableName⟩).table = some m.table ∧
      (names = [] ∨ m.table.tableName ∈ names) ∧
      m.columns = (db.view ⟨projectID, m.table.tableName⟩).columnMetas := by
  rw [Database.getTableMetasByTableNames, mem_insertionSort, mem_filter, mem_map]
  constructor
  · rintro ⟨⟨t, ht, rfl⟩, -⟩
    obtain ⟨ht, hnames⟩ := mem_filter.mp ht
    obtain ⟨ht, hproject⟩ := mem_filter.mp ht
    have hid : t.toTableIdentifier = ⟨projectID, t.tableName⟩ :=
      TableIdentifier.ext (by simpa using hproject) rfl
    refine ⟨KeyedTable.find?_eq_some.mpr ⟨ht, hid⟩, by simpa using hnames, ?_⟩
    rw [columnMetas_view, ← hid]
  · rintro ⟨htable, hnames, hcolumns⟩
    obtain ⟨hmem, hid⟩ := KeyedTable.find?_eq_some.mp htable
    refine ⟨⟨m.table, ?_, ?_⟩, ?_⟩
    · refine mem_filter.mpr ⟨mem_filter.mpr ⟨hmem, ?_⟩, by simpa using hnames⟩
      simpa using congrArg TableIdentifier.projectID hid
    · rw [hid, ← columnMetas_view, ← hcolumns]
    · obtain ⟨c, hc, hct⟩ := hdb.columns m.table hmem
      have hcol : (⟨c.columnName, c.dType⟩ : ColumnMeta) ∈ m.columns := by
        rw [hcolumns, columnMetas_view]
        exact mem_columnsOf.mpr ⟨c, hc, by rw [← hid, ← hct], rfl⟩
      simpa using ne_nil_of_mem hcol

lemma mem_heldTables (hdb : Sound toLower db) : m ∈ heldTables db projectID party ↔
    (db.view ⟨projectID, m.table.tableName⟩).table = some m.table ∧ m.table.owner = party ∧
      m.columns = (db.view ⟨projectID, m.table.tableName⟩).columnMetas := by
  rw [heldTables, mem_filter, decide_eq_true_eq, mem_getTableMetas_iff hdb]
  simp [and_comm, and_left_comm]

lemma eq_of_mem_heldTables (hdb : Sound toLower db) (hm : m ∈ heldTables db projectID party)
  (hm' : m' ∈ heldTables db projectID party) (h : m.table.tableName = m'.table.tableName) :
    m = m' := by
  obtain ⟨htable, -, hcolumns⟩ := (mem_heldTables hdb).mp hm
  obtain ⟨htable', -, hcolumns'⟩ := (mem_heldTables hdb).mp hm'
  rw [h] at htable hcolumns
  have htables := Option.some.inj (htable.symm.trans htable')
  cases m
  cases m'
  cases htables
  cases hcolumns.trans hcolumns'.symm
  rfl

lemma projectID_of_mem_heldTables (hm : m ∈ heldTables db projectID party) :
  m.table.toTableIdentifier = ⟨projectID, m.table.tableName⟩ :=
  TableIdentifier.ext (mem_getTableMetas (mem_filter.mp hm).1).2.1 rfl

lemma nodup_getTableMetas (db : Database) (projectID : String) (names : List String) :
  ((db.getTableMetasByTableNames projectID names).1.map (·.table.toTableIdentifier)).Nodup := by
  rw [Database.getTableMetasByTableNames]
  refine ((perm_insertionSort _ _).map _).nodup_iff.mpr ?_
  refine Nodup.sublist (filter_sublist.map _) ?_
  rw [map_map]
  refine Nodup.sublist (filter_sublist.map _) ?_
  exact Nodup.sublist (filter_sublist.map _) db.tables.nodup

lemma nodup_heldTables (db : Database) (projectID : String) (party : PartyCode) :
  ((heldTables db projectID party).map (·.table.toTableIdentifier)).Nodup :=
  (nodup_getTableMetas db projectID []).sublist (filter_sublist.map _)

variable {c : ColumnPriv}

lemma mem_heldPrivs : c ∈ heldPrivs db projectID party ↔
    (∃ m ∈ heldTables db projectID party, m.table.toTableIdentifier = c.toTableIdentifier) ∧
      c ∈ (db.view c.toTableIdentifier).privs := by
  rw [heldPrivs, mem_filter, decide_eq_true_eq, mem_privs_view, mem_map]
  constructor
  · rintro ⟨hc, hproject, m, hm, hname⟩
    refine ⟨⟨m, hm, ?_⟩, hc, rfl⟩
    rw [projectID_of_mem_heldTables hm]
    exact TableIdentifier.ext hproject.symm hname
  · rintro ⟨⟨m, hm, hid⟩, hc, -⟩
    have hproject := (projectID_of_mem_heldTables hm).symm.trans hid
    exact ⟨hc, (congrArg TableIdentifier.projectID hproject).symm, m, hm,
      congrArg TableIdentifier.tableName hid⟩

lemma filter_listColumnConstraints (hne : projectID ≠ "") (hm : m ∈ heldTables db projectID party) :
  (db.listColumnConstraints projectID
    ((heldTables db projectID party).map (·.table.tableName)) []).filter
      (·.tableName = m.table.tableName) = (db.view m.table.toTableIdentifier).privs := by
  rw [Database.listColumnConstraints, filter_filter, Database.view]
  refine filter_congr fun c _ => ?_
  rw [projectID_of_mem_heldTables hm, ← Bool.decide_and, decide_eq_decide]
  constructor
  · rintro ⟨hname, hproject, -⟩
    exact TableIdentifier.ext ((selects_eq_true hne).mp hproject) hname
  · intro hid
    have hname : c.tableName = m.table.tableName := by rw [hid]
    refine ⟨hname, (selects_eq_true hne).mpr (congrArg TableIdentifier.projectID hid), .inr ?_,
      .inl rfl⟩
    exact hname ▸ mem_map_of_mem hm

variable {digest : String → String} {loc rem : Database.ProjectMeta}

/-- The table to store in place of a local one, if any. -/
def toReplace (digest : String → String) (lt : Option TableMeta) (rt : TableMeta) :
    Option TableMeta :=
  match lt with
  | some lt =>
    if getTableChecksum digest lt ≠ getTableChecksum digest rt then some (sortColumns rt) else none
  | none => some rt

/-- The privileges to grant on a table that both sides have. -/
def toGrant (digest : String → String) (loc rem : Database.ProjectMeta) (lt : Option TableMeta)
    (rt : TableMeta) : List ColumnPriv :=
  match lt with
  | some lt =>
    let lc := loc.ccls.filter (·.tableName = rt.table.tableName)
    let rc := rem.ccls.filter (·.tableName = rt.table.tableName)
    if getTableChecksum digest lt = getTableChecksum digest rt ∧
      getCCLsChecksum digest lc ≠ getCCLsChecksum digest rc then rc else []
  | none => []

def diffStep (digest : String → String) (loc rem : Database.ProjectMeta) (d : StatusDiff)
    (rt : TableMeta) : StatusDiff :=
  let lt := d.localTable.lookup rt.table.tableName
  { tsToUpdate := d.tsToUpdate ++ (toReplace digest lt rt).toList
    psToUpdate := d.psToUpdate ++ toGrant digest loc rem lt rt
    localTable := d.localTable.erase rt.table.tableName}

def localTables (loc : Database.ProjectMeta) : AList (fun _ : String => TableMeta) :=
  loc.tables.foldl (fun m t => m.insert t.table.tableName t) ∅

variable {n : String}

lemma lookup_localTables (h : (loc.tables.map (·.table.tableName)).Nodup)
  {m : TableMeta} :
    (localTables loc).lookup n = some m ↔ m ∈ loc.tables ∧ m.table.tableName = n := by
  suffices hfold : ∀ (ts : List TableMeta) (acc : AList (fun _ : String => TableMeta)),
      (ts.map (·.table.tableName)).Nodup →
      ((ts.foldl (fun m t => m.insert t.table.tableName t) acc).lookup n = some m ↔
        (m ∈ ts ∧ m.table.tableName = n) ∨ n ∉ ts.map (·.table.tableName) ∧
          acc.lookup n = some m) by
    have := hfold loc.tables ∅ h
    simpa [localTables] using this
  intro ts
  induction ts with
  | nil => simp
  | cons t ts ih =>
    intro acc hnodup
    rw [map_cons, nodup_cons] at hnodup
    rw [foldl_cons, ih _ hnodup.2]
    by_cases hn : n = t.table.tableName
    · subst hn
      rw [lookup_insert]
      constructor
      · rintro (⟨hm, hname⟩ | ⟨-, hm⟩)
        · exact absurd (mem_map.mpr ⟨m, hm, hname⟩) hnodup.1
        · cases hm
          exact .inl ⟨mem_cons_self, rfl⟩
      · rintro (⟨hm, hname⟩ | ⟨hnot, -⟩)
        · rcases mem_cons.mp hm with rfl | hm
          · exact .inr ⟨hnodup.1, rfl⟩
          · exact .inl ⟨hm, hname⟩
        · exact absurd mem_cons_self hnot
    · rw [lookup_insert_ne hn, map_cons, mem_cons, mem_cons]
      constructor
      · rintro (⟨hm, hname⟩ | ⟨hnot, hm⟩)
        · exact .inl ⟨.inr hm, hname⟩
        · exact .inr ⟨not_or.mpr ⟨hn, hnot⟩, hm⟩
      · rintro (⟨rfl | hm, hname⟩ | ⟨hnot, hm⟩)
        · exact absurd hname.symm hn
        · exact .inl ⟨hm, hname⟩
        · exact .inr ⟨(not_or.mp hnot).2, hm⟩

lemma statusDiff_eq : statusDiff digest loc rem =
  rem.tables.foldl (diffStep digest loc rem) {localTable := localTables loc} := by
  rw [statusDiff, localTables]
  refine foldl_ext _ _ _ (fun d rt _ => ?_)
  cases hlt : d.localTable.lookup rt.table.tableName with
  | none =>
    have herase : d.localTable.erase rt.table.tableName = d.localTable :=
      ext (kerase_of_notMem_keys (lookup_eq_none.mp hlt))
    simp [diffStep, hlt, toReplace, toGrant, herase]
  | some lt =>
    by_cases hts : getTableChecksum digest lt = getTableChecksum digest rt
    · by_cases hps : getCCLsChecksum digest (loc.ccls.filter (·.tableName = rt.table.tableName)) =
          getCCLsChecksum digest (rem.ccls.filter (·.tableName = rt.table.tableName))
      · simp [diffStep, hlt, toReplace, toGrant, hts, hps]
      · simp [diffStep, hlt, toReplace, toGrant, hts, hps]
    · simp [diffStep, hlt, toReplace, toGrant, hts]

variable {ts : List TableMeta}

lemma foldl_diffStep (h : (ts.map (·.table.tableName)).Nodup) (d : StatusDiff) :
  (ts.foldl (diffStep digest loc rem) d).tsToUpdate = d.tsToUpdate ++ ts.filterMap (fun rt =>
      toReplace digest (d.localTable.lookup rt.table.tableName) rt) ∧
    (ts.foldl (diffStep digest loc rem) d).psToUpdate = d.psToUpdate ++ ts.flatMap (fun rt =>
      toGrant digest loc rem (d.localTable.lookup rt.table.tableName) rt) ∧
    ∀ n, (ts.foldl (diffStep digest loc rem) d).localTable.lookup n =
      if n ∈ ts.map (·.table.tableName) then none else d.localTable.lookup n := by
  induction ts generalizing d with
  | nil => simp
  | cons t ts ih =>
    rw [map_cons, nodup_cons] at h
    obtain ⟨htsTail, hpsTail, hlookup⟩ := ih h.2 (diffStep digest loc rem d t)
    -- taking out this table does not change what is found for the others
    have hother : ∀ rt ∈ ts, (diffStep digest loc rem d t).localTable.lookup rt.table.tableName =
        d.localTable.lookup rt.table.tableName := by
      intro rt hrt
      refine lookup_erase_ne fun heq => h.1 ?_
      exact heq ▸ mem_map_of_mem hrt
    refine ⟨?_, ?_, fun n => ?_⟩
    · rw [foldl_cons, htsTail, filterMap_congr fun rt hrt => by rw [hother rt hrt]]
      cases hrep : toReplace digest (d.localTable.lookup t.table.tableName) t with
      | none => simp [diffStep, hrep]
      | some m => simp [diffStep, hrep]
    · rw [foldl_cons, hpsTail, flatMap_cons, ← append_assoc]
      refine congrArg (_ ++ ·) (flatMap_congr fun rt hrt => ?_)
      rw [hother rt hrt]
    · rw [foldl_cons, hlookup, map_cons]
      by_cases hn : n = t.table.tableName
      · subst hn
        rw [if_neg h.1, if_pos mem_cons_self]
        exact lookup_erase _ _
      · by_cases hts : n ∈ ts.map (·.table.tableName)
        · rw [if_pos hts, if_pos (mem_cons_of_mem _ hts)]
        · rw [if_neg hts, if_neg (not_mem_cons_of_ne_of_not_mem hn hts)]
          exact lookup_erase_ne hn

lemma statusDiff_ok (digest : String → String) (loc : Database.ProjectMeta)
  (h : (rem.tables.map (·.table.tableName)).Nodup) :
  (statusDiff digest loc rem).tsToUpdate = rem.tables.filterMap (fun rt =>
      toReplace digest ((localTables loc).lookup rt.table.tableName) rt) ∧
    (statusDiff digest loc rem).psToUpdate = rem.tables.flatMap (fun rt =>
      toGrant digest loc rem ((localTables loc).lookup rt.table.tableName) rt) ∧
    ∀ n, (statusDiff digest loc rem).localTable.lookup n =
      if n ∈ rem.tables.map (·.table.tableName) then none else (localTables loc).lookup n := by
  rw [statusDiff_eq]
  exact foldl_diffStep h {localTable := localTables loc}

variable {id : TableIdentifier}

lemma view_updateFromCreator (h : updateFromCreator loc rem party db = .ok db')
  (id : TableIdentifier) : db'.view id = db.view id := by
  rw [updateFromCreator] at h
  split at h
  · obtain ⟨db₁, h₁, h⟩ := bind_eq_ok.mp h
    have hfirst : db₁.view id = db.view id := by
      split at h₁
      · rw [Database.updateProject] at h₁
        split at h₁
        · cases h₁
          rfl
        · cases h₁
      · cases h₁
        rfl
    obtain ⟨members, -, rfl⟩ := addProjectMembers_ok h
    exact hfirst
  · cases h
    rfl

lemma view_dropOldTables (hne : projectID ≠ "") (hdb : Intact toLower db) {α : Type}
    {name : α → String} {l : List α}
  (h : l.foldlM (fun db a => dropOldTable projectID party db (name a)) db = .ok db')
  (id : TableIdentifier) :
  db'.view id = if id.projectID = projectID ∧
    id.tableName ∈ l.map name then .empty else db.view id := by
  induction l generalizing db with
  | nil =>
    cases h
    simp
  | cons a l ih =>
    rw [foldlM_cons] at h
    obtain ⟨db₁, h₁, h⟩ := bind_eq_ok.mp h
    have hdb₁ : Intact toLower db₁ :=
      (writes_dropOldTable (Set.mem_singleton projectID) h₁).intact (notMem_singleton hne) hdb
    have hview : db₁.view id = if id = ⟨projectID, name a⟩ then .empty else db.view id := by
      rw [dropOldTable] at h₁
      obtain ⟨⟨exist, db₂⟩, hdrop, hret⟩ := bind_eq_ok.mp h₁
      cases hret
      exact view_dropTableWithCheck hdb hdrop id
    rw [ih hdb₁ h, hview]
    by_cases hid : id = ⟨projectID, name a⟩
    · subst hid
      simp
    · simp only [map_cons, mem_cons_name_iff hid, if_neg hid]

/-- What is stored of a table that was replaced by `t`, with privileges from `ccls`. -/
structure Replaced (ccls : List ColumnPriv) (t : TableMeta) (v : TableView) : Prop where
  table : v.table = some t.table
  columns : v.columns = t.columnRows
  privs : ∀ c, c ∈ v.privs ↔ c ∈ ccls ∧ c.toTableIdentifier = t.table.toTableIdentifier

/-- The privileges told are for columns of the tables told, each once. -/
structure Fits (projectID : String) (ccls : List ColumnPriv) (t : TableMeta) : Prop where
  project : ∀ c ∈ ccls, c.projectID = projectID
  keys : ∀ c ∈ ccls, ∀ d ∈ ccls, c.toColumnPrivIdentifier = d.toColumnPrivIdentifier → c = d
  column : ∀ c ∈ ccls, c.tableName = t.table.tableName →
    ∃ d ∈ t.columns, d.columnName = c.columnName

variable {t rt : TableMeta}

lemma replaceTable_ok (hne : projectID ≠ "") (hdb : Intact toLower db)
    {localTable : AList (fun _ : String => TableMeta)}
  (hnew : t.table.tableName ∉ localTable) (hfits : Fits projectID rem.ccls t)
  (h : replaceTable toLower projectID party rem localTable db t = .ok db') :
  Replaced rem.ccls t (db'.view t.table.toTableIdentifier) ∧
    ∀ id, id ≠ t.table.toTableIdentifier → db'.view id = db.view id := by
  rw [replaceTable, if_neg hnew] at h
  obtain ⟨db₀, h₀, h⟩ := bind_eq_ok.mp h
  cases h₀
  obtain ⟨db₁, hadd, h⟩ := bind_eq_ok.mp h
  have hdb₁ : Intact toLower db₁ :=
    (writes_addTableWithCheck (Set.mem_singleton projectID) hadd).intact (notMem_singleton hne) hdb
  have hview := view_addTableWithCheck hdb hadd
  have hproject := (addTableWithCheck_ok hadd).2.1
  have hself := (hview t.table.toTableIdentifier).trans (if_pos rfl)
  have hid : ∀ c ∈ rem.ccls, (c.tableName = t.table.tableName ↔
      c.toTableIdentifier = t.table.toTableIdentifier) := by
    intro c hc
    refine ⟨fun hname => TableIdentifier.ext ?_ hname, fun h => by rw [h]⟩
    rw [hfits.project c hc, hproject]
  rw [grantRemote] at h
  split at h
  · next hnil =>
    cases h
    refine ⟨⟨by rw [hself]; rfl, by rw [hself]; rfl, fun c => ?_⟩,
      fun id hne => (hview id).trans (if_neg hne)⟩
    rw [hself]
    constructor
    · intro hc
      cases hc
    · rintro ⟨hc, hcid⟩
      have hmem : c ∈ rem.ccls.filter (·.tableName = t.table.tableName) :=
        mem_filter.mpr ⟨hc, by simpa using (hid c hc).mpr hcid⟩
      rw [hnil] at hmem
      cases hmem
  · have hmem : ∀ c, c ∈ rem.ccls.filter (·.tableName = t.table.tableName) ↔
        c ∈ rem.ccls ∧ c.toTableIdentifier = t.table.toTableIdentifier := by
      intro c
      rw [mem_filter, decide_eq_true_eq]
      exact and_congr_right (hid c)
    have hcols : ∀ c ∈ rem.ccls.filter (·.tableName = t.table.tableName),
        c.toTableIdentifier = t.table.toTableIdentifier →
        ∃ d ∈ db₁.columns, d.toColumnIdentifier = c.toColumnIdentifier := by
      intro c hc hcid
      obtain ⟨d, hd, hname⟩ := hfits.column c ((hmem c).mp hc).1 (by rw [hcid])
      rw [← columnMetas_columnRows t, ← hself, ← hcid] at hd
      exact exists_column_of_columnMeta hd hname
    obtain ⟨newPrivs, hgrant, -⟩ := grantWithCheck_exact hdb₁ h
    have hprivs := mem_view_grantWithCheck hdb₁ h hcols fun p hp q hq =>
      hfits.keys p ((hmem p).mp hp).1 q ((hmem q).mp hq).1
    refine ⟨⟨?_, ?_, fun c => ?_⟩, fun id hne => ?_⟩
    · rw [hgrant, (view_grant db₁ newPrivs _).1, hself]
      rfl
    · rw [hgrant, (view_grant db₁ newPrivs _).2, hself]
      rfl
    · rw [hprivs c, hmem c, hself]
      constructor
      · rintro (⟨hc, -⟩ | ⟨hc, -⟩)
        · exact hc
        · cases hc
      · intro hc
        exact .inl ⟨hc, hc.2⟩
    · rw [view_grantWithCheck_of_forall_ne hdb₁ h fun c hc heq =>
        hne (heq.symm.trans ((hmem c).mp hc).2)]
      exact (hview id).trans (if_neg hne)

/-- A loop over tables of different names, each round of which writes one of them. -/
lemma view_foldlM {f : Database → TableMeta → Except String Database}
    {Q : TableMeta → TableView → Prop}
  (hf : ∀ t ∈ ts, ∀ db db', Intact toLower db → f db t = .ok db' → Intact toLower db' ∧
    Q t (db'.view t.table.toTableIdentifier) ∧
      ∀ id, id ≠ t.table.toTableIdentifier → db'.view id = db.view id)
  (hdb : Intact toLower db) (hnodup : (ts.map (·.table.toTableIdentifier)).Nodup)
  (h : ts.foldlM f db = .ok db') : (∀ t ∈ ts, Q t (db'.view t.table.toTableIdentifier)) ∧
    ∀ id, (∀ t ∈ ts, t.table.toTableIdentifier ≠ id) → db'.view id = db.view id := by
  apply And.right
  refine foldlM_prefix (P := fun done s => Intact toLower s ∧
    (∀ t ∈ done, Q t (s.view t.table.toTableIdentifier)) ∧
      ∀ id, (∀ t ∈ done, t.table.toTableIdentifier ≠ id) → s.view id = db.view id) ts ?_
    ⟨hdb, forall_mem_nil _, fun _ _ => rfl⟩ h
  rintro done t rest rfl db₁ db₂ ⟨hdb₁, hdone, hkept⟩ hstep
  obtain ⟨hdb₂, hself, hother⟩ := hf t (by simp) db₁ db₂ hdb₁ hstep
  refine ⟨hdb₂, fun u hu => ?_, fun id hid => ?_⟩
  · rcases mem_append.mp hu with hu | hu
    · rw [hother]
      · exact hdone u hu
      · rw [map_append, nodup_append] at hnodup
        exact hnodup.2.2 _ (mem_map_of_mem hu) _ (mem_map_of_mem mem_cons_self)
    · cases mem_singleton.mp hu
      exact hself
  · rw [hother id (hid t (by simp)).symm]
    exact hkept id fun u hu => hid u (mem_append_left _ hu)

variable {lt : Option TableMeta}

lemma table_of_toReplace (h : toReplace digest lt rt = some t) :
  t.table = rt.table ∧ (t = rt ∨ t = sortColumns rt) := by
  rcases lt with _ | lt
  · cases h
    exact ⟨rfl, .inl rfl⟩
  · rw [toReplace] at h
    split at h
    · cases h
      exact ⟨rfl, .inr rfl⟩
    · cases h

lemma mem_toGrant : c ∈ toGrant digest loc rem lt rt ↔ ∃ l, lt = some l ∧
    getTableChecksum digest l = getTableChecksum digest rt ∧
    getCCLsChecksum digest (loc.ccls.filter (·.tableName = rt.table.tableName)) ≠
      getCCLsChecksum digest (rem.ccls.filter (·.tableName = rt.table.tableName)) ∧
    c ∈ rem.ccls ∧ c.tableName = rt.table.tableName := by
  rcases lt with _ | l
  · simp [toGrant]
  · simp only [toGrant, Option.some.injEq, exists_eq_left', mem_ite_nil_right, mem_filter,
      decide_eq_true_eq, and_assoc]

/-- What a party tells of a project, read from its database. -/
structure Told (db : Database) (projectID : String) (party : PartyCode)
    (m : Database.ProjectMeta) : Prop where
  named : projectID ≠ ""
  project : m.proj.id = projectID
  tables : m.tables = heldTables db projectID party
  ccls : m.ccls = db.listColumnConstraints projectID (m.tables.map (·.table.tableName)) []

lemma told_getProjectMeta {m : Database.ProjectMeta} (hne : projectID ≠ "")
  (h : db.getProjectMeta projectID [] [] party = .ok m) : Told db projectID party m := by
  rw [Database.getProjectMeta] at h
  obtain ⟨proj, hproj, h⟩ := bind_eq_ok.mp h
  cases h
  exact ⟨hne, KeyedTable.key_of_find? (getProject_ok hne hproj), rfl, by simp⟩

variable {rdb : Database} {rt : TableMeta}

section
variable (h : Told rdb projectID party rem)
include h

lemma Told.mem_ccls (hc : c ∈ rem.ccls) : c ∈ rdb.columnPrivs ∧ c.projectID = projectID := by
  rw [h.ccls, Database.listColumnConstraints, mem_filter, decide_eq_true_eq] at hc
  exact ⟨hc.1, (selects_eq_true h.named).mp hc.2.1⟩

lemma Told.privs (hrt : rt ∈ rem.tables) :
  rem.ccls.filter (·.tableName = rt.table.tableName) =
    (rdb.view rt.table.toTableIdentifier).privs := by
  rw [h.tables] at hrt
  rw [h.ccls, h.tables]
  exact filter_listColumnConstraints h.named hrt

lemma Told.fits (hrdb : Sound toLower rdb) (hrt : rt ∈ rem.tables) (ht : t.table = rt.table)
  (hcolumns : ∀ c, c ∈ rt.columns → c ∈ t.columns) : Fits projectID rem.ccls t := by
  refine ⟨fun c hc => (h.mem_ccls hc).2, fun c hc d hd hcd => ?_, fun c hc hname => ?_⟩
  · exact KeyedTable.eq_of_key_eq (h.mem_ccls hc).1 (h.mem_ccls hd).1 hcd
  · rw [h.tables] at hrt
    obtain ⟨-, -, hcols⟩ := (mem_heldTables hrdb).mp hrt
    obtain ⟨hc, hproject⟩ := h.mem_ccls hc
    obtain ⟨d, hd, hdname⟩ := hrdb.exists_columnMeta hc
    refine ⟨d, hcolumns d ?_, hdname⟩
    rw [hcols, ← ht, ← hname, ← hproject]
    exact hd

lemma Told.identifier (hrt : rt ∈ rem.tables) (hn : rt.table.tableName = n) :
  rt.table.toTableIdentifier = ⟨projectID, n⟩ := by
  subst hn
  rw [h.tables] at hrt
  exact projectID_of_mem_heldTables hrt

lemma Told.eq_of_name (hrdb : Sound toLower rdb)
  {rt' : TableMeta} (hrt : rt ∈ rem.tables) (hn : rt.table.tableName = n)
  (hrt' : rt' ∈ rem.tables) (hn' : rt'.table.tableName = n) : rt = rt' := by
  rw [h.tables] at hrt hrt'
  exact eq_of_mem_heldTables hrdb hrt hrt' (hn.trans hn'.symm)

end

/-- What an update makes of the table with one name: `l` and `x` are the tables that the two sides
hold for the party, `v` and `rv` what they store under the name, and `v'` what is stored locally
after the update. -/
inductive Outcome (digest : String → String) (l x : List TableMeta) (n : String)
    (v rv v' : TableView) : Prop
  | keep (hl : ∀ m ∈ l, m.table.tableName ≠ n) (hx : ∀ m ∈ x, m.table.tableName ≠ n) (h : v' = v)
  | drop (lt : TableMeta) (hl : lt ∈ l) (hln : lt.table.tableName = n)
      (hx : ∀ m ∈ x, m.table.tableName ≠ n) (h : v' = .empty)
  | add (rt : TableMeta) (hl : ∀ m ∈ l, m.table.tableName ≠ n) (hx : rt ∈ x)
      (hxn : rt.table.tableName = n) (h : Replaced rv.privs rt v')
  | replace (lt rt : TableMeta) (hl : lt ∈ l) (hln : lt.table.tableName = n) (hx : rt ∈ x)
      (hxn : rt.table.tableName = n)
        (hsum : getTableChecksum digest lt ≠ getTableChecksum digest rt)
      (h : Replaced rv.privs (sortColumns rt) v')
  | grant (lt rt : TableMeta) (hl : lt ∈ l) (hln : lt.table.tableName = n) (hx : rt ∈ x)
      (hxn : rt.table.tableName = n)
        (hsum : getTableChecksum digest lt = getTableChecksum digest rt)
      (hccl : getCCLsChecksum digest v.privs ≠ getCCLsChecksum digest rv.privs)
      (htable : v'.table = v.table) (hcolumns : v'.columns = v.columns)
      (h : lt = rt → ∀ c, c ∈ v'.privs ↔ c ∈ rv.privs ∨ c ∈ v.privs ∧
        ∀ d ∈ rv.privs, d.toColumnPrivIdentifier ≠ c.toColumnPrivIdentifier)
  | same (lt rt : TableMeta) (hl : lt ∈ l) (hln : lt.table.tableName = n) (hx : rt ∈ x)
      (hxn : rt.table.tableName = n)
        (hsum : getTableChecksum digest lt = getTableChecksum digest rt)
      (hccl : getCCLsChecksum digest v.privs = getCCLsChecksum digest rv.privs) (h : v' = v)

variable {o : RangeOrder}

lemma nodup_names (h : Told db projectID party loc) :
  (loc.tables.map (·.table.tableName)).Nodup := by
  have hnodup := nodup_heldTables db projectID party
  rw [← h.tables] at hnodup
  rw [Nodup, pairwise_map] at hnodup ⊢
  refine hnodup.imp_of_mem fun {a b} ha hb hne hname => hne ?_
  rw [h.tables] at ha hb
  rw [projectID_of_mem_heldTables ha, projectID_of_mem_heldTables hb, hname]

/-- The stages of an update: tables are dropped, then replaced, then privileges are granted. -/
structure Stages (toLower digest : String → String) (projectID : String)
    (loc rem : Database.ProjectMeta) (db db₁ db₂ db' : Database) : Prop where
  intact : Intact toLower db₂
  dropped : ∀ id, db₁.view id = if id.projectID = projectID ∧
    (∃ lt ∈ loc.tables, lt.table.tableName = id.tableName) ∧
      id.tableName ∉ rem.tables.map (·.table.tableName) then .empty else db.view id
  replaced : ∀ t ∈ (statusDiff digest loc rem).tsToUpdate,
    Replaced rem.ccls t (db₂.view t.table.toTableIdentifier)
  kept : ∀ id, (∀ t ∈ (statusDiff digest loc rem).tsToUpdate, t.table.toTableIdentifier ≠ id) →
    db₂.view id = db₁.view id
  granted : grantRemote toLower projectID (statusDiff digest loc rem).psToUpdate db₂ = .ok db'

variable {ccls : List ColumnPriv} {id : TableIdentifier}

lemma view_grantRemote_of_forall_ne (hdb : Intact toLower db)
  (h : grantRemote toLower projectID ccls db = .ok db')
  (hne : ∀ c ∈ ccls, c.toTableIdentifier ≠ id) :
  db'.view id = db.view id := by
  rw [grantRemote] at h
  split at h
  · cases h
    rfl
  · exact view_grantWithCheck_of_forall_ne hdb h hne

lemma view_grantRemote (h : grantRemote toLower projectID ccls db = .ok db')
    (id : TableIdentifier) :
  (db'.view id).table = (db.view id).table ∧ (db'.view id).columns = (db.view id).columns := by
  rw [grantRemote] at h
  split at h
  · cases h
    exact ⟨rfl, rfl⟩
  · obtain ⟨newPrivs, rfl, -⟩ := grantColumnConstraintsWithCheck_ok h
    exact view_grant db newPrivs id

variable {db₁ db₂ : Database}

section
variable (hdb : Sound toLower db) (hrdb : Sound toLower rdb)
  (hloc : Told db projectID party loc) (hrem : Told rdb projectID party rem)
include hrem

lemma nodup_tsToUpdate (digest : String → String) (loc : Database.ProjectMeta) :
  ((statusDiff digest loc rem).tsToUpdate.map (·.table.toTableIdentifier)).Nodup := by
  have hnodup := nodup_heldTables rdb projectID party
  rw [← hrem.tables, Nodup, pairwise_map] at hnodup
  rw [(statusDiff_ok digest loc (nodup_names hrem)).1, Nodup, pairwise_map, pairwise_filterMap]
  refine hnodup.imp fun {a b} hne t ht u hu => ?_
  rw [(table_of_toReplace ht).1, (table_of_toReplace hu).1]
  exact hne

variable {t : TableMeta}

lemma mem_tsToUpdate (ht : t ∈ (statusDiff digest loc rem).tsToUpdate) : ∃ rt ∈ rem.tables,
    toReplace digest ((localTables loc).lookup rt.table.tableName) rt = some t ∧
      t.table = rt.table ∧ (t = rt ∨ t = sortColumns rt) := by
  rw [(statusDiff_ok digest loc (nodup_names hrem)).1, mem_filterMap] at ht
  obtain ⟨rt, hrt, ht⟩ := ht
  exact ⟨rt, hrt, ht, table_of_toReplace ht⟩

include hloc

lemma mem_dropped : n ∈ (o.range 14 0 (statusDiff digest loc rem).localTable.entries).map
      (fun t => t.2.table.tableName) ↔
    (∃ lt ∈ loc.tables, lt.table.tableName = n) ∧ n ∉ rem.tables.map (·.table.tableName) := by
  obtain ⟨-, -, hlookup⟩ := statusDiff_ok digest loc (nodup_names hrem)
  have hentry : ∀ k m, (⟨k, m⟩ : Sigma fun _ : String => TableMeta) ∈
      (statusDiff digest loc rem).localTable.entries ↔
      k ∉ rem.tables.map (·.table.tableName) ∧ m ∈ loc.tables ∧ m.table.tableName = k := by
    intro k m
    rw [← mem_lookup_iff, Option.mem_def, hlookup k]
    split
    · next hk => simp [hk]
    · next hk => simp [hk, lookup_localTables (nodup_names hloc)]
  rw [mem_map]
  constructor
  · rintro ⟨⟨k, m⟩, hm, rfl⟩
    obtain ⟨hk, hloc, rfl⟩ := (hentry k m).mp ((RangeOrder.mem_range o 14 0).mp hm)
    exact ⟨⟨m, hloc, rfl⟩, hk⟩
  · rintro ⟨⟨lt, hlt, rfl⟩, hn⟩
    exact ⟨⟨_, lt⟩, (RangeOrder.mem_range o 14 0).mpr ((hentry _ lt).mpr ⟨hn, hlt, rfl⟩), rfl⟩

lemma mem_psToUpdate : c ∈ (statusDiff digest loc rem).psToUpdate ↔
    ∃ rt ∈ rem.tables, ∃ lt ∈ loc.tables, lt.table.tableName = rt.table.tableName ∧
      getTableChecksum digest lt = getTableChecksum digest rt ∧
      getCCLsChecksum digest (db.view lt.table.toTableIdentifier).privs ≠
        getCCLsChecksum digest (rdb.view rt.table.toTableIdentifier).privs ∧
      c ∈ (rdb.view rt.table.toTableIdentifier).privs := by
  rw [(statusDiff_ok digest loc (nodup_names hrem)).2.1, mem_flatMap]
  refine exists_congr fun rt => and_congr_right fun hrt => ?_
  rw [mem_toGrant]
  refine exists_congr fun lt => ?_
  rw [lookup_localTables (nodup_names hloc), and_assoc]
  refine and_congr_right fun hlt => and_congr_right fun hname => and_congr_right fun _ => ?_
  rw [← hrem.privs hrt, ← hloc.privs hlt, hname, mem_filter, decide_eq_true_eq]

include hdb hrdb

lemma stages_of_updateStatus (h : updateStatus toLower digest o loc rem party db = .ok db') :
  ∃ db₁ db₂, Stages toLower digest projectID loc rem db db₁ db₂ db' := by
  simp only [updateStatus, hloc.project, bind_eq_ok] at h
  obtain ⟨db₀, hcreator, db₁, hdrop, db₂, hreplace, hgrant⟩ := h
  have hself := Set.mem_singleton projectID
  have hnot := notMem_singleton hloc.named
  have hdb₀ : Intact toLower db₀ :=
    (writes_updateFromCreator (hloc.project ▸ hself) hcreator).intact hnot hdb.toIntact
  have hdb₁ : Intact toLower db₁ :=
    (Writes.foldlM (fun _ _ _ _ h => writes_dropOldTable hself h) hdrop).intact hnot hdb₀
  have hdb₂ : Intact toLower db₂ :=
    (Writes.foldlM (fun _ _ _ _ h => writes_replaceTable hself h) hreplace).intact hnot hdb₁
  have hnew : ∀ t ∈ (statusDiff digest loc rem).tsToUpdate,
      t.table.tableName ∉ (statusDiff digest loc rem).localTable := by
    intro t ht
    obtain ⟨rt, hrt, -, htable, -⟩ := mem_tsToUpdate hrem ht
    rw [htable, ← lookup_eq_none, (statusDiff_ok digest loc (nodup_names hrem)).2.2,
      if_pos (mem_map_of_mem hrt)]
  have hfits : ∀ t ∈ (statusDiff digest loc rem).tsToUpdate, Fits projectID rem.ccls t := by
    intro t ht
    obtain ⟨rt, hrt, -, htable, ht⟩ := mem_tsToUpdate hrem ht
    refine hrem.fits hrdb hrt htable fun c hc => ?_
    rcases ht with rfl | rfl
    · exact hc
    · exact (mem_insertionSort _).mpr hc
  obtain ⟨hreplaced, hkept⟩ := view_foldlM (fun t ht _ _ hdb h =>
    ⟨(writes_replaceTable hself h).intact hnot hdb,
      replaceTable_ok hloc.named hdb (hnew t ht) (hfits t ht) h⟩)
    hdb₁ (nodup_tsToUpdate hrem digest loc) hreplace
  refine ⟨db₁, db₂, hdb₂, fun id => ?_, hreplaced, hkept, hgrant⟩
  rw [view_dropOldTables hloc.named hdb₀ hdrop id, view_updateFromCreator hcreator]
  simp only [mem_dropped hloc hrem]

section
variable (h : Stages toLower digest projectID loc rem db db₁ db₂ db')
include h

omit hdb hrdb in
/-- The last stage leaves a name alone, unless both sides have a table of this name with the same
columns and different privileges. -/
lemma Stages.view_eq (hn : ∀ lt ∈ loc.tables, lt.table.tableName = n →
    ∀ rt ∈ rem.tables, rt.table.tableName = n →
      getTableChecksum digest lt = getTableChecksum digest rt →
        getCCLsChecksum digest (db.view ⟨projectID, n⟩).privs =
          getCCLsChecksum digest (rdb.view ⟨projectID, n⟩).privs) :
  db'.view ⟨projectID, n⟩ = db₂.view ⟨projectID, n⟩ := by
  refine view_grantRemote_of_forall_ne h.intact h.granted fun c hc hcid => ?_
  obtain ⟨rt, hrt, lt, hlt, hname, hsum, hccl, hmem⟩ := (mem_psToUpdate hloc hrem).mp hc
  have hrtn : rt.table.tableName = n := by rw [← (mem_privs_view.mp hmem).2, hcid]
  rw [hrem.identifier hrt hrtn, hloc.identifier hlt (hname.trans hrtn)] at hccl
  exact hccl (hn lt hlt (hname.trans hrtn) rt hrt hrtn hsum)

omit hdb hrdb hloc in
lemma Stages.replaced_of_mem (hrt : rt ∈ rem.tables) (hrtn : rt.table.tableName = n)
    (htable : t.table = rt.table)
  (ht : t ∈ (statusDiff digest loc rem).tsToUpdate) :
  Replaced (rdb.view ⟨projectID, n⟩).privs t (db₂.view ⟨projectID, n⟩) := by
  have hrep := h.replaced t ht
  have hid := hrem.identifier hrt hrtn
  rw [htable, hid] at hrep
  refine ⟨hrep.table, hrep.columns, fun c => (hrep.privs c).trans ?_⟩
  rw [htable, hid]
  refine and_congr_left fun hcid => ?_
  rw [← hid, ← hrem.privs hrt, mem_filter, decide_eq_true_eq]
  exact (and_iff_left (by rw [hcid, hrtn])).symm

omit hdb hrdb hloc in
lemma Stages.kept_of_not_told (hn : ∀ m ∈ rem.tables, m.table.tableName ≠ n) :
  db₂.view ⟨projectID, n⟩ = db₁.view ⟨projectID, n⟩ := by
  refine h.kept _ fun t ht heq => ?_
  obtain ⟨rt, hrt, -, htable, -⟩ := mem_tsToUpdate hrem ht
  exact hn rt hrt (by rw [← htable, heq])

omit hdb in
lemma Stages.kept_of_checksum {lt : TableMeta} (hlt : lt ∈ loc.tables)
  (hltn : lt.table.tableName = n) (hrt : rt ∈ rem.tables) (hrtn : rt.table.tableName = n)
  (hsum : getTableChecksum digest lt = getTableChecksum digest rt) :
  db₂.view ⟨projectID, n⟩ = db.view ⟨projectID, n⟩ := by
  rw [h.kept _ fun t ht heq => ?_, h.dropped, if_neg]
  · rintro ⟨-, -, hnot⟩
    exact hnot (hrtn ▸ mem_map_of_mem hrt)
  · obtain ⟨rt', hrt', ht, htable, -⟩ := mem_tsToUpdate hrem ht
    obtain rfl := hrem.eq_of_name hrdb hrt hrtn hrt' (by rw [← htable, heq])
    rw [(lookup_localTables (nodup_names hloc)).mpr ⟨hlt, hltn.trans hrtn.symm⟩] at ht
    simp [toReplace, hsum] at ht

/-- The privileges granted in the last stage, if the tables of the two sides are the same. -/
lemma Stages.mem_privs {lt : TableMeta} (hlt : lt ∈ loc.tables) (hltn : lt.table.tableName = n)
    (hrt : lt ∈ rem.tables)
  (hccl : getCCLsChecksum digest (db.view ⟨projectID, n⟩).privs ≠ getCCLsChecksum digest
    (rdb.view ⟨projectID, n⟩).privs)
  (c : ColumnPriv) : c ∈ (db'.view ⟨projectID, n⟩).privs ↔ c ∈ (rdb.view ⟨projectID, n⟩).privs ∨
    c ∈ (db.view ⟨projectID, n⟩).privs ∧ ∀ d ∈ (rdb.view ⟨projectID, n⟩).privs,
      d.toColumnPrivIdentifier ≠ c.toColumnPrivIdentifier := by
  have hkept := h.kept_of_checksum hrdb hloc hrem hlt hltn hrt hltn rfl
  have hid := hrem.identifier hrt hltn
  -- the rows of this table among those granted
  have hmem : ∀ d, (d ∈ (statusDiff digest loc rem).psToUpdate ∧
      d.toTableIdentifier = ⟨projectID, n⟩) ↔ d ∈ (rdb.view ⟨projectID, n⟩).privs := by
    intro d
    rw [mem_psToUpdate hloc hrem]
    constructor
    · rintro ⟨⟨rt, hrt', lt', hlt', -, -, -, hd⟩, hdid⟩
      rw [← (mem_privs_view.mp hd).2, hdid] at hd
      exact hd
    · intro hd
      refine ⟨⟨lt, hrt, lt, hlt, rfl, rfl, ?_, ?_⟩, (mem_privs_view.mp hd).2⟩
      · rw [hid]
        exact hccl
      · rw [hid]
        exact hd
  have hgranted := h.granted
  rw [grantRemote] at hgranted
  split at hgranted
  · next hnil =>
    cases hgranted
    have hnone : ∀ d, d ∉ (rdb.view ⟨projectID, n⟩).privs := by
      intro d hd
      have hps := ((hmem d).mpr hd).1
      rw [hnil] at hps
      cases hps
    rw [hkept]
    exact ⟨fun hc => .inr ⟨hc, fun d hd => absurd hd (hnone d)⟩,
      fun hc => hc.elim (fun hd => absurd hd (hnone c)) And.left⟩
  · have hcols : ∀ p ∈ (statusDiff digest loc rem).psToUpdate, p.toTableIdentifier =
      ⟨projectID, n⟩ →
        ∃ d ∈ db₂.columns, d.toColumnIdentifier = p.toColumnIdentifier := by
      intro p hp hpid
      have hpr := (hmem p).mp ⟨hp, hpid⟩
      obtain ⟨d, hd, hname⟩ := hrdb.exists_columnMeta (mem_privs_view.mp hpr).1
      rw [hrem.tables, mem_heldTables hrdb] at hrt
      rw [hloc.tables, mem_heldTables hdb] at hlt
      rw [hpid, ← hltn, ← hrt.2.2, hlt.2.2, hltn, ← hkept, ← hpid] at hd
      exact exists_column_of_columnMeta hd hname
    have hkeys :
      ∀ p ∈ (statusDiff digest loc rem).psToUpdate, ∀ q ∈ (statusDiff digest loc rem).psToUpdate,
        p.toColumnPrivIdentifier = q.toColumnPrivIdentifier → p = q := by
      have hrow : ∀ p ∈ (statusDiff digest loc rem).psToUpdate, p ∈ rdb.columnPrivs := by
        intro p hp
        obtain ⟨_, _, _, _, _, _, _, hrow⟩ := (mem_psToUpdate hloc hrem).mp hp
        exact (mem_privs_view.mp hrow).1
      exact fun p hp q hq => KeyedTable.eq_of_key_eq (hrow p hp) (hrow q hq)
    rw [mem_view_grantWithCheck h.intact hgranted hcols hkeys c, hmem c, hkept]
    refine or_congr_right (and_congr_right fun hc => ?_)
    refine ⟨fun hall d hd => hall d ((hmem d).mpr hd).1, fun hall d hd heq => hall d ?_ heq⟩
    refine (hmem d).mp ⟨hd, ?_⟩
    have hcolumn := congrArg ColumnPrivIdentifier.toColumnIdentifier heq
    exact (congrArg ColumnIdentifier.toTableIdentifier hcolumn).trans (mem_privs_view.mp hc).2

end

lemma updateStatus_outcome (h : updateStatus toLower digest o loc rem party db = .ok db')
    (n : String) :
  Outcome digest loc.tables rem.tables n (db.view ⟨projectID, n⟩) (rdb.view ⟨projectID, n⟩)
    (db'.view ⟨projectID, n⟩) := by
  obtain ⟨db₁, db₂, h⟩ := stages_of_updateStatus hdb hrdb hloc hrem h
  have hdrop := h.dropped ⟨projectID, n⟩
  have hts := (statusDiff_ok digest loc (nodup_names hrem)).1
  by_cases hl : ∃ lt ∈ loc.tables, lt.table.tableName = n
  · obtain ⟨lt, hlt, hltn⟩ := hl
    by_cases hx : ∃ rt ∈ rem.tables, rt.table.tableName = n
    · obtain ⟨rt, hrt, hrtn⟩ := hx
      by_cases hsum : getTableChecksum digest lt = getTableChecksum digest rt
      · have hkept := h.kept_of_checksum hrdb hloc hrem hlt hltn hrt hrtn hsum
        by_cases hccl : getCCLsChecksum digest (db.view ⟨projectID, n⟩).privs =
            getCCLsChecksum digest (rdb.view ⟨projectID, n⟩).privs
        · refine .same lt rt hlt hltn hrt hrtn hsum hccl ?_
          rw [h.view_eq hloc hrem fun _ _ _ _ _ _ _ => hccl, hkept]
        · obtain ⟨htable, hcolumns⟩ :
            (db'.view ⟨projectID, n⟩).table = (db₂.view ⟨projectID, n⟩).table ∧
              (db'.view ⟨projectID, n⟩).columns = (db₂.view ⟨projectID, n⟩).columns :=
            view_grantRemote h.granted _
          refine .grant lt rt hlt hltn hrt hrtn hsum hccl (by rw [htable, hkept])
            (by rw [hcolumns, hkept]) ?_
          rintro rfl c
          exact h.mem_privs hdb hrdb hloc hrem hlt hltn hrt hccl c
      · have hlookup : (localTables loc).lookup rt.table.tableName = some lt :=
          (lookup_localTables (nodup_names hloc)).mpr ⟨hlt, hltn.trans hrtn.symm⟩
        have hmem : sortColumns rt ∈ (statusDiff digest loc rem).tsToUpdate := by
          rw [hts, mem_filterMap]
          exact ⟨rt, hrt, by simp [hlookup, toReplace, hsum]⟩
        refine .replace lt rt hlt hltn hrt hrtn hsum ?_
        rw [h.view_eq hloc hrem fun lt' hlt' hln' rt' hrt' hn' hsum' => ?_]
        · exact h.replaced_of_mem hrem hrt hrtn rfl hmem
        · obtain rfl := hrem.eq_of_name hrdb hrt hrtn hrt' hn'
          obtain rfl := hloc.eq_of_name hdb hlt hltn hlt' hln'
          exact absurd hsum' hsum
    · have hnone : ∀ m ∈ rem.tables, m.table.tableName ≠ n := fun m hm hmn => hx ⟨m, hm, hmn⟩
      refine .drop lt hlt hltn hnone ?_
      have hnot : n ∉ rem.tables.map (·.table.tableName) := by
        intro hmem
        obtain ⟨m, hm, hmn⟩ := mem_map.mp hmem
        exact hnone m hm hmn
      rw [h.view_eq hloc hrem fun _ _ _ rt hrt hrtn => absurd hrtn (hnone rt hrt),
        h.kept_of_not_told hrem hnone, hdrop, if_pos ⟨rfl, ⟨lt, hlt, hltn⟩, hnot⟩]
  · have hnoneL : ∀ m ∈ loc.tables, m.table.tableName ≠ n := fun m hm hmn => hl ⟨m, hm, hmn⟩
    have hview : db'.view ⟨projectID, n⟩ = db₂.view ⟨projectID, n⟩ :=
      h.view_eq hloc hrem fun lt hlt hltn => absurd hltn (hnoneL lt hlt)
    by_cases hx : ∃ rt ∈ rem.tables, rt.table.tableName = n
    · obtain ⟨rt, hrt, hrtn⟩ := hx
      have hlookup : (localTables loc).lookup rt.table.tableName = none := by
        refine Option.eq_none_iff_forall_ne_some.mpr fun m hm => ?_
        obtain ⟨hm, hmn⟩ := (lookup_localTables (nodup_names hloc)).mp hm
        exact hnoneL m hm (hmn.trans hrtn)
      have hmem : rt ∈ (statusDiff digest loc rem).tsToUpdate := by
        rw [hts, mem_filterMap]
        exact ⟨rt, hrt, by simp [hlookup, toReplace]⟩
      exact .add rt hnoneL hrt hrtn (hview ▸ h.replaced_of_mem hrem hrt hrtn rfl hmem)
    · have hnone : ∀ m ∈ rem.tables, m.table.tableName ≠ n := fun m hm hmn => hx ⟨m, hm, hmn⟩
      refine .keep hnoneL hnone ?_
      rw [hview, h.kept_of_not_told hrem hnone, hdrop, if_neg fun h => hl h.2.1]

lemma updateStatus_view_other (h : updateStatus toLower digest o loc rem party db = .ok db')
  (hid : id.projectID ≠ projectID) : db'.view id = db.view id := by
  obtain ⟨db₁, db₂, h⟩ := stages_of_updateStatus hdb hrdb hloc hrem h
  rw [view_grantRemote_of_forall_ne h.intact h.granted, h.kept, h.dropped, if_neg fun h => hid h.1]
  · rintro t ht rfl
    obtain ⟨rt, hrt, -, htable, -⟩ := mem_tsToUpdate hrem ht
    exact hid (by rw [htable, hrem.identifier hrt rfl])
  · rintro c hc rfl
    obtain ⟨rt, hrt, -, -, -, -, -, hmem⟩ := (mem_psToUpdate hloc hrem).mp hc
    exact hid (by rw [(mem_privs_view.mp hmem).2, hrem.identifier hrt rfl])

end

end Scql.Broker.MetaStorage
