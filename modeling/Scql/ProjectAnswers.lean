import Scql.MetaStorage

/-! # What a party tells of a project

The answer names the tables the party owns and the privileges on them, unless it owns none and is
asked for all: then the privileges on everybody's tables are told. -/
namespace Scql.Broker.MetaStorage

open Fallible List

variable {db : Database} {projectID : String} {tableNames : List String}
  {dests : List PartyCode} {owner : PartyCode} {m : Database.ProjectMeta}

abbrev Asked (tableNames : List String) (name : String) : Prop :=
    tableNames = [] ∨ name ∈ tableNames

/-- The privileges of a project for the parties asked for, all parties if none is named. -/
def PrivFor (db : Database) (projectID : String) (dests : List PartyCode) (c : ColumnPriv) : Prop :=
  c ∈ db.columnPrivs.rows ∧ c.projectID = projectID ∧ (dests = [] ∨ c.destParty ∈ dests)

/-- The privileges that a query by the project id selects: of all projects, if it is empty. -/
def Selected (db : Database) (projectID : String) (dests : List PartyCode) (c : ColumnPriv) :
    Prop :=
  c ∈ db.columnPrivs.rows ∧ selects projectID c.projectID ∧ (dests = [] ∨ c.destParty ∈ dests)

/-- The name of a table of the project that was asked for and that the party owns. -/
def Owns (db : Database) (projectID : String) (tableNames : List String) (owner : PartyCode)
    (name : String) : Prop :=
  ∃ t ∈ db.getAllTables projectID, t.owner = owner ∧ Asked tableNames t.tableName ∧
    t.tableName = name

/-- The answer tells of the owner's tables among those asked for and of the privileges on them. -/
structure Exact (db : Database) (projectID : String) (tableNames : List String)
    (dests : List PartyCode) (owner : PartyCode) (m : Database.ProjectMeta) : Prop where
  tables : ∀ t, t ∈ m.tables.map (·.table) ↔
    t ∈ db.getAllTables projectID ∧ t.owner = owner ∧ Asked tableNames t.tableName
  ccls : ∀ c, c ∈ m.ccls ↔
    PrivFor db projectID dests c ∧ c.tableName ∈ m.tables.map (·.table.tableName)
  owned : ∀ c ∈ m.ccls, ∀ t ∈ db.getAllTables projectID, t.tableName = c.tableName → t.owner = owner

section
variable (h : db.getProjectMeta projectID tableNames dests owner = .ok m)
include h

lemma getProjectMeta_ok :
  m.tables = (db.getTableMetasByTableNames projectID tableNames).1.filter (·.table.owner = owner) ∧
    m.ccls = if tableNames ≠ [] ∧ m.tables = [] then [] else
      db.listColumnConstraints projectID (m.tables.map (·.table.tableName)) dests := by
  obtain ⟨proj, -, h⟩ := bind_eq_ok.mp h
  cases h
  exact ⟨rfl, rfl⟩

lemma mem_tables_answer {t : Table} :
  t ∈ m.tables.map (·.table) ↔ (t ∈ db.getAllTables projectID ∧ t.owner = owner ∧
    Asked tableNames t.tableName) ∧ db.columnsOf t.toTableIdentifier ≠ [] := by
  rw [(getProjectMeta_ok h).1, Database.getTableMetasByTableNames]
  simp only [mem_map, mem_filter, mem_insertionSort, decide_eq_true_eq, Asked]
  constructor
  · rintro ⟨_, ⟨⟨⟨u, ⟨hu, hasked⟩, rfl⟩, hcolumns⟩, howner⟩, rfl⟩
    exact ⟨⟨hu, howner, hasked⟩, hcolumns⟩
  · rintro ⟨⟨ht, howner, hasked⟩, hcolumns⟩
    exact ⟨⟨t, _⟩, ⟨⟨⟨t, ⟨ht, hasked⟩, rfl⟩, hcolumns⟩, howner⟩, rfl⟩

lemma mem_ccls_answer {c : ColumnPriv} : c ∈ m.ccls ↔ Selected db projectID dests c ∧
    (c.tableName ∈ m.tables.map (·.table.tableName) ∨ tableNames = [] ∧ m.tables = []) := by
  rw [(getProjectMeta_ok h).2]
  split
  · next hnone => simp [hnone]
  · next hnone =>
    have hnames : m.tables = [] → tableNames = [] := fun hnil => by_contra fun h => hnone ⟨h, hnil⟩
    rw [Database.listColumnConstraints, mem_filter, decide_eq_true_eq, map_eq_nil_iff, Selected]
    tauto

lemma mem_names_answer (hcolumns : ∀ t ∈ db.getAllTables projectID, t.owner = owner →
    Asked tableNames t.tableName → db.columnsOf t.toTableIdentifier ≠ []) {name : String} :
  name ∈ m.tables.map (·.table.tableName) ↔ Owns db projectID tableNames owner name := by
  constructor
  · intro hname
    obtain ⟨u, hu, rfl⟩ := mem_map.mp hname
    obtain ⟨⟨ht, howner, hasked⟩, -⟩ :=
      (mem_tables_answer h).mp (mem_map_of_mem (f := (·.table)) hu)
    exact ⟨u.table, ht, howner, hasked, rfl⟩
  · rintro ⟨t, ht, howner, hasked, rfl⟩
    obtain ⟨u, hu, hut⟩ := mem_map.mp
      ((mem_tables_answer h).mpr ⟨⟨ht, howner, hasked⟩, hcolumns t ht howner hasked⟩)
    exact mem_map.mpr ⟨u, hu, congrArg (·.tableName) hut⟩

lemma owner_of_answer {t : Table} (hname : t.tableName ∈ m.tables.map (·.table.tableName))
  (ht : t ∈ db.getAllTables projectID) : t.owner = owner := by
  obtain ⟨u, hu, hname⟩ := mem_map.mp hname
  obtain ⟨⟨hall, howner, -⟩, -⟩ := (mem_tables_answer h).mp (mem_map_of_mem (f := (·.table)) hu)
  obtain ⟨hall, hid⟩ := mem_filter.mp hall
  obtain ⟨ht, hid'⟩ := mem_filter.mp ht
  -- the table told of has the same key
  have hkey : t.toTableIdentifier = u.table.toTableIdentifier :=
    TableIdentifier.ext ((of_decide_eq_true hid').trans (of_decide_eq_true hid).symm) hname.symm
  rw [KeyedTable.eq_of_key_eq ht hall hkey, howner]

end

lemma PrivFor.selected {c : ColumnPriv} (h : PrivFor db projectID dests c) :
  Selected db projectID dests c :=
  ⟨h.1, by simp [selects, h.2.1], h.2.2⟩

/-- The answer is exact if and only if each of the owner's tables asked for has a column; some table
was named, the owner owns one of those asked for, or there is no privilege to tell of; and the
privileges that are selected on the owner's tables are of this project, which only an empty project
id leaves open. -/
theorem exact_getProjectMeta_iff (db : Database) (projectID : String) (tableNames : List String)
  (dests : List PartyCode) (owner : PartyCode) (m : Database.ProjectMeta)
  (h : db.getProjectMeta projectID tableNames dests owner = .ok m) :
  Exact db projectID tableNames dests owner m ↔
    (∀ t ∈ db.getAllTables projectID, t.owner = owner → Asked tableNames t.tableName →
      db.columnsOf t.toTableIdentifier ≠ []) ∧
    (tableNames ≠ [] ∨ (∃ name, Owns db projectID tableNames owner name) ∨
      ∀ c, ¬Selected db projectID dests c) ∧
    ∀ c, Selected db projectID dests c → Owns db projectID tableNames owner c.tableName →
      c.projectID = projectID := by
  constructor
  · intro hexact
    have hcolumns : ∀ t ∈ db.getAllTables projectID, t.owner = owner →
        Asked tableNames t.tableName → db.columnsOf t.toTableIdentifier ≠ [] := by
      intro t ht howner hasked
      exact ((mem_tables_answer h).mp ((hexact.tables t).mpr ⟨ht, howner, hasked⟩)).2
    refine ⟨hcolumns, ?_, fun c hc howns => ?_⟩
    · by_contra! hnot
      obtain ⟨hnames, hnone, c, hc⟩ := hnot
      have hnil : m.tables = [] := by
        rw [eq_nil_iff_forall_not_mem]
        intro u hu
        exact hnone u.table.tableName
          ((mem_names_answer h hcolumns).mp (mem_map_of_mem (f := (·.table.tableName)) hu))
      have hmem := (hexact.ccls c).mp ((mem_ccls_answer h).mpr ⟨hc, .inr ⟨hnames, hnil⟩⟩)
      simp [hnil] at hmem
    · have hname := (mem_names_answer h hcolumns).mpr howns
      exact ((hexact.ccls c).mp ((mem_ccls_answer h).mpr ⟨hc, .inl hname⟩)).1.2.1
  · rintro ⟨hcolumns, htold, hproject⟩
    have hccls : ∀ c, c ∈ m.ccls ↔
        PrivFor db projectID dests c ∧ c.tableName ∈ m.tables.map (·.table.tableName) := by
      intro c
      rw [mem_ccls_answer h]
      constructor
      · rintro ⟨hc, hname⟩
        have hname : c.tableName ∈ m.tables.map (·.table.tableName) := by
          refine hname.resolve_right ?_
          rintro ⟨hnames, hnil⟩
          rcases htold with hne | ⟨name, howns⟩ | hnone
          · exact hne hnames
          · simpa [hnil] using (mem_names_answer h hcolumns).mpr howns
          · exact hnone c hc
        have howns := (mem_names_answer h hcolumns).mp hname
        exact ⟨⟨hc.1, hproject c hc howns, hc.2.2⟩, hname⟩
      · rintro ⟨hc, hname⟩
        exact ⟨hc.selected, .inl hname⟩
    refine ⟨fun t => ?_, hccls, fun c hc t ht hname => ?_⟩
    · rw [mem_tables_answer h]
      exact and_iff_left_of_imp fun ht => hcolumns t ht.1 ht.2.1 ht.2.2
    · exact owner_of_answer h (hname ▸ ((hccls c).mp hc).2) ht

/-- A project of Alice and Bob, with a table of Bob that Alice may read. -/
def bobsProject : Database where
  projects := ⟨[{id := "p", creator := "alice"}], by decide⟩
  tables := ⟨[{projectID := "p", tableName := "t", owner := "bob"}], by decide⟩
  columns := ⟨[⟨⟨⟨"p", "t"⟩, "id"⟩, "int", 1⟩], by decide⟩
  columnPrivs := ⟨[⟨⟨⟨⟨"p", "t"⟩, "id"⟩, "alice"⟩, "PLAINTEXT"⟩], by decide⟩

theorem exact_bobsProject : ∃ m, bobsProject.getProjectMeta "p" [] [] "bob" = .ok m ∧
  Exact bobsProject "p" [] [] "bob" m := by
  refine ⟨_, rfl, ?_⟩
  refine (exact_getProjectMeta_iff bobsProject "p" [] [] "bob" _ rfl).mpr
    ⟨by decide, .inr (.inl ⟨"t", _, mem_cons_self, rfl, .inl rfl, rfl⟩), fun c hc _ => ?_⟩
  exact (selects_eq_true (by decide)).mp hc.2.1

/-- Alice owns no table, and tells of the privilege on Bob's. -/
theorem not_exact_bobsProject : ∃ m, bobsProject.getProjectMeta "p" [] [] "alice" = .ok m ∧
  m.tables = [] ∧ ¬Exact bobsProject "p" [] [] "alice" m := by
  refine ⟨_, rfl, rfl, fun h => ?_⟩
  have howner :=
    h.owned ⟨⟨⟨⟨"p", "t"⟩, "id"⟩, "alice"⟩, "PLAINTEXT"⟩ mem_cons_self _ mem_cons_self rfl
  exact absurd howner (by decide)

end Scql.Broker.MetaStorage
