import Scql.ArchivedProjects

/-! # Integrity of a broker's database

The database has no foreign keys. What holds between its tables is kept by every write that a call
makes about a project with a name, and so by every sequence of such calls. -/
namespace Scql.Broker.MetaStorage

open Fallible List

variable {toLower : String → String} {projectID : String} {db db' : Database}

structure Intact (toLower : String → String) (db : Database) : Prop where
  column : ∀ c ∈ db.columns, ∃ t ∈ db.tables, t.toTableIdentifier = c.toTableIdentifier
  priv : ∀ p ∈ db.columnPrivs,
    (∃ t ∈ db.tables, t.toTableIdentifier = p.toTableIdentifier ∧ t.isView = false) ∧
      (∃ c ∈ db.columns, c.toColumnIdentifier = p.toColumnIdentifier) ∧
      (⟨p.projectID, p.destParty⟩ : Member) ∈ db.members
  owner : ∀ t ∈ db.tables, (⟨t.projectID, t.owner⟩ : Member) ∈ db.members
  lower : ∀ c ∈ db.columns, ∀ d ∈ db.columns, c.toTableIdentifier = d.toTableIdentifier →
    toLower c.columnName = toLower d.columnName → c = d

lemma intact_empty : Intact toLower {} := by
  constructor <;> simp

lemma Intact.dropTable (h : Intact toLower db) (id : TableIdentifier) :
  Intact toLower (db.dropTable id) := by
  obtain ⟨htables, hcolumns, hprivs, hmembers⟩ := mem_dropTable db id
  refine ⟨?_, ?_, ?_, ?_⟩
  · intro c hc
    obtain ⟨hc, hne⟩ := (hcolumns c).mp hc
    obtain ⟨t, ht, htc⟩ := h.column c hc
    exact ⟨t, (htables t).mpr ⟨ht, htc ▸ hne⟩, htc⟩
  · intro p hp
    obtain ⟨hp, hne⟩ := (hprivs p).mp hp
    obtain ⟨⟨t, ht, htp, hview⟩, ⟨c, hc, hcp⟩, hdest⟩ := h.priv p hp
    refine ⟨⟨t, (htables t).mpr ⟨ht, htp ▸ hne⟩, htp, hview⟩, ⟨c, (hcolumns c).mpr ⟨hc, ?_⟩, hcp⟩,
      hmembers ▸ hdest⟩
    rw [show c.toTableIdentifier = p.toTableIdentifier from
      congrArg ColumnIdentifier.toTableIdentifier hcp]
    exact hne
  · intro t ht
    exact hmembers ▸ h.owner t ((htables t).mp ht).1
  · intro c hc d hd
    exact h.lower c ((hcolumns c).mp hc).1 d ((hcolumns d).mp hd).1

lemma Intact.addTable (h : Intact toLower db) {table : TableMeta}
  (howner : (⟨table.table.projectID, table.table.owner⟩ : Member) ∈ db.members)
  (hlower : LowerDistinct toLower table.columns) (hadd : db.addTable table = .ok db') :
  Intact toLower db' := by
  obtain ⟨tables, columns, rfl, htables, hcolumns⟩ := addTable_ok hadd
  have hnew : ∀ t ∈ db.tables, t.toTableIdentifier ≠ table.table.toTableIdentifier := by
    obtain ⟨t₁, h₁, -⟩ := Option.bind_eq_some_iff.mp htables
    exact KeyedTable.find?_eq_none.mp (KeyedTable.find?_of_insert h₁)
  have hmemT : ∀ t, t ∈ tables ↔ t = table.table ∨ t ∈ db.tables := by
    intro t
    simpa using KeyedTable.mem_insertAll htables
  have hmemC := fun c => KeyedTable.mem_insertAll (b := c) hcolumns
  refine ⟨?_, ?_, ?_, ?_⟩
  · intro c hc
    rcases (hmemC c).mp hc with hc | hc
    · obtain ⟨x, -, rfl⟩ := mem_map.mp hc
      exact ⟨table.table, (hmemT _).mpr (.inl rfl), rfl⟩
    · obtain ⟨t, ht, htc⟩ := h.column c hc
      exact ⟨t, (hmemT t).mpr (.inr ht), htc⟩
  · intro p hp
    obtain ⟨⟨t, ht, htp⟩, ⟨c, hc, hcp⟩, hdest⟩ := h.priv p hp
    exact ⟨⟨t, (hmemT t).mpr (.inr ht), htp⟩, ⟨c, (hmemC c).mpr (.inr hc), hcp⟩, hdest⟩
  · intro t ht
    rcases (hmemT t).mp ht with rfl | ht
    · exact howner
    · exact h.owner t ht
  · intro c hc d hd htable hname
    -- a column of the new table is none of the old ones
    have hold : ∀ c ∈ db.columns, c.toTableIdentifier ≠ table.table.toTableIdentifier := by
      intro c hc heq
      obtain ⟨t, ht, htc⟩ := h.column c hc
      exact hnew t ht (htc.trans heq)
    rcases (hmemC c).mp hc with hc | hc <;> rcases (hmemC d).mp hd with hd | hd
    · obtain ⟨⟨c, i⟩, hi, rfl⟩ := mem_map.mp hc
      obtain ⟨⟨d, j⟩, hj, rfl⟩ := mem_map.mp hd
      have hi := mem_zipIdx_iff_getElem?.mp hi
      have hj := mem_zipIdx_iff_getElem?.mp hj
      have hij : i = j := by
        refine (getElem?_inj ?_ hlower).mp ?_
        · simpa using (List.getElem?_eq_some_iff.mp hi).1
        · rw [getElem?_map, getElem?_map, hi, hj]
          exact congrArg some hname
      subst hij
      obtain rfl : c = d := Option.some.inj (hi.symm.trans hj)
      rfl
    · obtain ⟨x, -, rfl⟩ := mem_map.mp hc
      exact absurd htable.symm (hold d hd)
    · obtain ⟨x, -, rfl⟩ := mem_map.mp hd
      exact absurd htable (hold c hc)
    · exact h.lower c hc d hd htable hname

lemma Write.intact (h : Write toLower projectID db db') (hne : projectID ≠ "")
  (hdb : Intact toLower db) : Intact toLower db' := by
  cases h with
  | projects projects _ | invitations invitations =>
    exact ⟨hdb.column, hdb.priv, hdb.owner, hdb.lower⟩
  | member m members h =>
    have hmem : ∀ m' ∈ db.members, m' ∈ members := fun m' hm' =>
      (KeyedTable.mem_insert h).mpr (.inr hm')
    refine ⟨hdb.column, fun p hp => ?_, fun t ht => hmem _ (hdb.owner t ht), hdb.lower⟩
    obtain ⟨ht, hc, hdest⟩ := hdb.priv p hp
    exact ⟨ht, hc, hmem _ hdest⟩
  | dropTable name => exact hdb.dropTable _
  | addTable table hproject howner hlower h => exact hdb.addTable (hproject ▸ howner hne) hlower h
  | grant priv hproject htable hcolumn hdest =>
    refine ⟨hdb.column, fun p hp => ?_, hdb.owner, hdb.lower⟩
    rcases KeyedTable.mem_upsert.mp hp with rfl | ⟨hp, -⟩
    · exact ⟨htable, hcolumn, hproject ▸ hdest hne⟩
    · exact hdb.priv p hp
  | revoke privIDs _ _ =>
    refine ⟨hdb.column, fun p hp => ?_, hdb.owner, hdb.lower⟩
    obtain ⟨q, hq, hqp⟩ := mem_revoke hp
    have hcolumn := congrArg ColumnPrivIdentifier.toColumnIdentifier hqp
    have htable := congrArg ColumnIdentifier.toTableIdentifier hcolumn
    have hdest := congrArg ColumnPrivIdentifier.destParty hqp
    obtain ⟨ht, hc, hd⟩ := hdb.priv q hq
    refine ⟨htable ▸ ht, hcolumn ▸ hc, ?_⟩
    rw [← congrArg TableIdentifier.projectID htable, ← hdest]
    exact hd
  | deleteMembers h =>
    have hmem : ∀ {q : String} {m : PartyCode}, q ≠ projectID → (⟨q, m⟩ : Member) ∈ db.members →
        (⟨q, m⟩ : Member) ∈ db.members.deleteWhere (·.projectID = projectID) := by
      intro q m hq hm
      exact KeyedTable.mem_deleteWhere.mpr ⟨hm, by simpa using hq⟩
    refine ⟨hdb.column, fun p hp => ?_, fun t ht => hmem (h t ht) (hdb.owner t ht), hdb.lower⟩
    obtain ⟨⟨t, ht, htp, hview⟩, hc, hdest⟩ := hdb.priv p hp
    refine ⟨⟨t, ht, htp, hview⟩, hc, hmem ?_ hdest⟩
    rw [← congrArg TableIdentifier.projectID htp]
    exact h t ht

lemma Writes.intact {S : Set String} (h : Writes toLower S db db') (hS : "" ∉ S)
  (hdb : Intact toLower db) : Intact toLower db' := by
  induction h with
  | refl => exact hdb
  | tail _ h ih =>
    obtain ⟨p, hp, hwrite⟩ := h
    exact hwrite.intact (fun hnil => hS (hnil ▸ hp)) ih

lemma notMem_singleton (hne : projectID ≠ "") : "" ∉ ({projectID} : Set String) :=
  fun h => hne (Set.mem_singleton_iff.mp h).symm

/-- No call of a run is about the empty project id. -/
def Named (env : Env) (self : PartyCode) : List Call → Database → Prop
  | [], _ => True
  | call::calls, db => "" ∉ call.projects db ∧ Named env self calls (step env self call db)

instance decidableNamed (env : Env) (self : PartyCode) :
    ∀ (calls : List Call) (db : Database), Decidable (Named env self calls db)
  | [], _ => .isTrue trivial
  | call::calls, db =>
    have := decidableNamed env self calls (step env self call db)
    inferInstanceAs (Decidable (_ ∧ _))

/-- After every sequence of calls on an empty database that are not about an empty project id, every
privilege is for a column of a table that is no view and for a member, every table is owned by a
member, and the column names of a table differ also ignoring letter case. -/
theorem storage_intact (env : Env) (self : PartyCode) (calls : List Call)
  (h : Named env self calls {}) :
  Intact env.toLower (calls.foldl (fun db call => step env self call db) {}) := by
  suffices hrun : ∀ db, Named env self calls db → Intact env.toLower db →
      Intact env.toLower (calls.foldl (fun db call => step env self call db) db) from
    hrun {} h intact_empty
  clear h
  intro db h hdb
  induction calls generalizing db with
  | nil => exact hdb
  | cons call calls ih => exact ih _ h.2 ((writes_step call db).intact h.1 hdb)

/-- A project is shared, and a privilege on a table of the other member is taken over. -/
def sharedTable : List Call :=
  [.createProject {id := "p", creator := "alice"}, .inviteMember "p" "bob" true,
    .replyInvitation "bob" "p" true, .syncInfo "bob" "p" (.CreateTable bobTable),
    .syncInfo "bob" "p" (.GrantCCL [⟨⟨⟨⟨"p", "t"⟩, "C"⟩, "alice"⟩, "PLAINTEXT"⟩])]

theorem storage_intact_sharedTable :
  Intact String.toLower (sharedTable.foldl
    (fun db call => step {plainEnv with toLower := String.toLower} "alice" call db) {}) :=
  storage_intact {plainEnv with toLower := String.toLower} "alice" sharedTable (by decide)

/-- Bob invites Alice to a project with an empty id, which she accepts while she has no other. -/
def emptyInvitation : List Call :=
  [.inviteToProject "bob" "bob" {id := "", creator := "bob"} ["bob"],
    .processInvitation 1 true (some ⟨.OK, none⟩), .createProject {id := "q", creator := "alice"},
    .inviteMember "q" "carol" true, .replyInvitation "carol" "q" true]

def emptyStatus : Database.ProjectMeta :=
  ⟨{id := "", creator := "bob"}, ["bob", "alice", "alice", "carol"], [], []⟩

/-- Bob's broker tells of a table of the project and of a privilege for Carol. -/
def carolsStatus : Database.ProjectMeta :=
  ⟨{id := "", creator := "bob"}, ["bob", "alice"],
    [⟨{projectID := "", tableName := "t", owner := "bob"}, [⟨"c", "int"⟩]⟩],
    [⟨⟨⟨⟨"", "t"⟩, "c"⟩, "carol"⟩, "PLAINTEXT"⟩]⟩

/-- The status update stores a privilege for Carol, who is a member of another project only. -/
theorem not_intact_emptyInvitation :
  (emptyInvitation.foldl (fun db call => step plainEnv "alice" call db) {}).getProjectMeta
    "" [] [] "bob" = .ok emptyStatus ∧
  ¬Intact id ((emptyInvitation ++ [Call.updateStatus emptyStatus carolsStatus "bob"]).foldl
    (fun db call => step plainEnv "alice" call db) {}) := by
  refine ⟨by decide +kernel, fun h => ?_⟩
  have hmember := (h.priv ⟨⟨⟨⟨"", "t"⟩, "c"⟩, "carol"⟩, "PLAINTEXT"⟩ (by decide +kernel)).2.2
  exact absurd hmember (by decide +kernel)

end Scql.Broker.MetaStorage
