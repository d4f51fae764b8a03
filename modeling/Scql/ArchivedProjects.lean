import Scql.StorageWrites

/-! # Archived projects

A write about one project leaves the others alone. Calls about an archived project are refused,
with three exceptions: refreshes from what other brokers tell, status updates, and the members
that are added after an invitation was processed. -/
namespace Scql.Broker.MetaStorage

open MapRange Fallible List

/-- The rows of a project are the same in two databases. -/
structure SameProject (q : String) (db db' : Database) : Prop where
  project : db'.projects.find? q = db.projects.find? q
  member : ∀ m : Member, m.projectID = q → (m ∈ db'.members ↔ m ∈ db.members)
  table : ∀ t : Table, t.projectID = q → (t ∈ db'.tables ↔ t ∈ db.tables)
  column : ∀ c : Column, c.projectID = q → (c ∈ db'.columns ↔ c ∈ db.columns)
  priv : ∀ p : ColumnPriv, p.projectID = q → (p ∈ db'.columnPrivs ↔ p ∈ db.columnPrivs)

variable {toLower : String → String} {q projectID : String} {db db' db'' : Database}

lemma SameProject.refl (q : String) (db : Database) : SameProject q db db :=
  ⟨rfl, fun _ _ => Iff.rfl, fun _ _ => Iff.rfl, fun _ _ => Iff.rfl, fun _ _ => Iff.rfl⟩

lemma SameProject.trans (h : SameProject q db db') (h' : SameProject q db' db'') :
  SameProject q db db'' :=
  ⟨h'.project.trans h.project, fun m hm => (h'.member m hm).trans (h.member m hm),
    fun t ht => (h'.table t ht).trans (h.table t ht),
      fun c hc => (h'.column c hc).trans (h.column c hc),
    fun p hp => (h'.priv p hp).trans (h.priv p hp)⟩

lemma sameProject_dropTable (hq : q ≠ projectID) (name : String) :
  SameProject q db (db.dropTable ⟨projectID, name⟩) := by
  obtain ⟨htables, hcolumns, hprivs, hmembers⟩ := mem_dropTable db ⟨projectID, name⟩
  have hne : ∀ {id : TableIdentifier}, id.projectID = q → id ≠ ⟨projectID, name⟩ := by
    rintro id hid rfl
    exact hq hid.symm
  refine ⟨rfl, fun m _ => by rw [hmembers], fun t ht => ?_, fun c hc => ?_, fun p hp => ?_⟩
  · rw [htables t]
    exact and_iff_left (hne ht)
  · rw [hcolumns c]
    exact and_iff_left (hne hc)
  · rw [hprivs p]
    exact and_iff_left (hne hp)

lemma sameProject_addTable {table : TableMeta} (hq : q ≠ table.table.projectID)
  (h : db.addTable table = .ok db') : SameProject q db db' := by
  obtain ⟨tables, columns, rfl, htables, hcolumns⟩ := addTable_ok h
  refine ⟨rfl, fun _ _ => Iff.rfl, fun t ht => ?_, fun c hc => ?_, fun _ _ => Iff.rfl⟩
  · refine (KeyedTable.mem_insertAll htables).trans (or_iff_right ?_)
    rintro h
    obtain rfl := mem_singleton.mp h
    exact hq ht.symm
  · refine (KeyedTable.mem_insertAll hcolumns).trans (or_iff_right ?_)
    rintro h
    obtain ⟨x, -, rfl⟩ := mem_map.mp h
    exact hq hc.symm

lemma sameProject_revoke {privIDs : List ColumnPrivIdentifier}
  (hne : projectID ≠ "") (h : ∀ k ∈ privIDs, k.projectID = projectID) (hq : q ≠ projectID) :
  SameProject q db (db.revokeColumnConstraints privIDs) := by
  refine ⟨rfl, fun _ _ => Iff.rfl, fun _ _ => Iff.rfl, fun _ _ => Iff.rfl, fun p hp => ?_⟩
  -- no identifier selects a row of another project
  have hnot : ∀ row : ColumnPriv, row.projectID = q →
      privIDs.any (Database.ColumnPrivIdentifier.selects · row) = false := by
    intro row hrow
    rw [any_eq_false]
    intro k hk hsel
    have hsel := (of_decide_eq_true hsel).1
    rw [h k hk, selects_eq_true hne] at hsel
    exact hq (hrow.symm.trans hsel)
  constructor
  · intro hmem
    obtain ⟨row, hrow, heq⟩ := mem_map.mp hmem
    have hproject : row.projectID = q := by
      rw [← hp, ← heq]
      split <;> rfl
    rw [if_neg (Bool.eq_false_iff.mp (hnot row hproject))] at heq
    exact heq ▸ hrow
  · intro hmem
    refine mem_map.mpr ⟨p, hmem, ?_⟩
    rw [if_neg (Bool.eq_false_iff.mp (hnot p hp))]

lemma Write.sameProject (h : Write toLower projectID db db') (hq : q ≠ projectID) :
  SameProject q db db' := by
  cases h with
  | projects projects h =>
    exact ⟨h q hq, fun _ _ => Iff.rfl, fun _ _ => Iff.rfl, fun _ _ => Iff.rfl, fun _ _ => Iff.rfl⟩
  | invitations invitations =>
    exact ⟨rfl, fun _ _ => Iff.rfl, fun _ _ => Iff.rfl, fun _ _ => Iff.rfl, fun _ _ => Iff.rfl⟩
  | member m members h =>
    refine ⟨rfl, fun m' hm' => ?_, fun _ _ => Iff.rfl, fun _ _ => Iff.rfl, fun _ _ => Iff.rfl⟩
    refine (KeyedTable.mem_insert h).trans (or_iff_right ?_)
    rintro rfl
    exact hq hm'.symm
  | dropTable name => exact sameProject_dropTable hq name
  | addTable table hproject _ _ h => exact sameProject_addTable (hproject ▸ hq) h
  | grant priv hproject _ _ _ =>
    refine ⟨rfl, fun _ _ => Iff.rfl, fun _ _ => Iff.rfl, fun _ _ => Iff.rfl, fun p hp => ?_⟩
    have hne : p.projectID ≠ priv.projectID := fun h => hq (hp.symm.trans (h.trans hproject))
    rw [KeyedTable.mem_upsert]
    constructor
    · rintro (rfl | h)
      · exact absurd rfl hne
      · exact h.1
    · intro h
      exact .inr ⟨h, fun heq => hne (congrArg (·.projectID) heq)⟩
  | revoke privIDs hne h => exact sameProject_revoke hne h hq
  | deleteMembers _ =>
    refine ⟨rfl, fun m hm => ?_, fun _ _ => Iff.rfl, fun _ _ => Iff.rfl, fun _ _ => Iff.rfl⟩
    rw [KeyedTable.mem_deleteWhere]
    exact and_iff_left (by simpa [hm] using hq)

lemma Writes.sameProject {S : Set String} (h : Writes toLower S db db') (hq : q ∉ S) :
  SameProject q db db' := by
  induction h with
  | refl => exact .refl q db
  | tail _ h ih =>
    obtain ⟨p, hp, hwrite⟩ := h
    exact ih.trans (hwrite.sameProject fun heq => hq (heq ▸ hp))

def Archived (q : String) (db : Database) : Prop :=
  q ≠ "" ∧ ∃ proj, db.projects.find? q = some proj ∧ proj.archived = true

/-- The calls that write a project without asking whether it is archived. -/
def Call.SkipsArchived (q : String) : Call → Prop
  | .addNewMembers projectID _ => projectID = q
  | .askInfo _ resources _ => ∃ r ∈ resources, r.projectID = q
  | .updateStatus loc _ _ => loc.proj.id = q
  | _ => False

variable {env : Env} {self : PartyCode}

section
variable (h : Archived q db)
include h

lemma Archived.sameProject (hsame : SameProject q db db') : Archived q db' := by
  obtain ⟨hne, proj, hfind, harchived⟩ := h
  exact ⟨hne, proj, hsame.project.trans hfind, harchived⟩

lemma Archived.refused {p : Prop} [Decidable p] {e opName : String}
    {f : Project → Except String Database}
  (hok : (ensure p e >>= fun _ => checkProjectArchived db q opName >>= f) = .ok db') : False := by
  obtain ⟨hne, row, hfind, harchived⟩ := h
  obtain ⟨_, _, hok⟩ := bind_eq_ok.mp hok
  obtain ⟨proj, hcheck, _⟩ := bind_eq_ok.mp hok
  obtain ⟨hfind', hnot⟩ := checkProjectArchived_ok hne hcheck
  obtain rfl := Option.some.inj (hfind.symm.trans hfind')
  exact Bool.false_ne_true (hnot.symm.trans harchived)

lemma Archived.getProject {proj : Project} (hget : db.getProject q = .ok proj) :
    proj.archived = true := by
  obtain ⟨hne, row, hfind, harchived⟩ := h
  obtain rfl := Option.some.inj (hfind.symm.trans (getProject_ok hne hget))
  exact harchived

/-- A project that is stored cannot be created, nor can an invitation to it be accepted. -/
lemma Archived.not_isNone {ε : Type} {e : ε} (hnone : ensure (db.findProject q).isNone e = .ok ())
  : False := by
  obtain ⟨hne, row, hfind, _⟩ := h
  have hnone : (db.findProject q).isNone = true := ensure_eq_ok.mp hnone
  rw [findProject_of_ne hne, hfind] at hnone
  exact Bool.false_ne_true hnone

end

lemma sameProject_modifyInvitations (p : Invitation → Bool) (status : InvitationStatus) :
  SameProject q db (modifyInvitations db p status) :=
  ⟨rfl, fun _ _ => Iff.rfl, fun _ _ => Iff.rfl, fun _ _ => Iff.rfl, fun _ _ => Iff.rfl⟩

section
variable (h : Archived q db)
include h

lemma Archived.processInvitation {invitationID : ℕ} {accept : Bool}
  {reply : Option ReplyInvitationResponse}
  (hq : q ∈ (Call.processInvitation invitationID accept reply).projects db)
  (hok : processInvitation self invitationID accept reply db = .ok db') : SameProject q db db' := by
  rw [MetaStorage.processInvitation] at hok
  obtain ⟨invitation, hinvitation, hok⟩ := bind_eq_ok.mp hok
  have hproject : invitation.projectID = q := by
    simpa [Call.projects, elim_eq_ok.mp hinvitation, eq_comm] using hq
  split at hok
  · next htxn =>
    simp only [processInvitationTxn, bind_eq_ok] at htxn
    obtain ⟨_, _, _, hnone, _⟩ := htxn
    exact (h.not_isNone (hproject ▸ hnone)).elim
  · cases hok
    exact sameProject_modifyInvitations _ _
  · cases hok

lemma Archived.handle {call : Call} (hdelete : call ≠ .deleteProject q)
  (hskip : ¬call.SkipsArchived q) (hok : handle env self call db = .ok db') :
    SameProject q db db' := by
  by_cases hq : q ∉ call.projects db
  · exact (writes_handle hok).sameProject hq
  rw [not_not] at hq
  cases call with
  | createProject project | inviteToProject client inviter project members =>
    obtain rfl := mem_singleton.mp hq
    obtain ⟨_, _, hok⟩ := bind_eq_ok.mp hok
    obtain ⟨_, hnone, _⟩ := bind_eq_ok.mp hok
    exact (h.not_isNone hnone).elim
  | archiveProject projectID synced =>
    obtain rfl := mem_singleton.mp hq
    obtain ⟨_, _, hok⟩ := bind_eq_ok.mp hok
    obtain ⟨project, hproject, hok⟩ := bind_eq_ok.mp hok
    rw [if_pos (h.getProject hproject)] at hok
    cases hok
    exact .refl q db
  | deleteProject projectID =>
    obtain rfl := mem_singleton.mp hq
    exact absurd rfl hdelete
  | processInvitation invitationID accept reply => exact h.processInvitation hq hok
  | addNewMembers projectID members | updateStatus loc rem remoteParty =>
    exact absurd (mem_singleton.mp hq).symm hskip
  | replyInvitation client projectID accept =>
    obtain rfl := mem_singleton.mp hq
    have hok : (replyInvitation env.compatible self client q accept db).map (·.1) = .ok db' := hok
    cases hreply : replyInvitation env.compatible self client q accept db with
    | error e =>
      rw [hreply] at hok
      cases hok
    | ok res =>
      rw [hreply] at hok
      cases hok
      simp only [replyInvitation, bind_eq_ok] at hreply
      obtain ⟨_, _, proj, hproj, hreply⟩ := hreply
      rw [if_pos (h.getProject hproj)] at hreply
      cases hreply
      exact .refl q db
  | askInfo sourceParties resources answers =>
    obtain ⟨r, hr, hrq⟩ := mem_map.mp hq
    exact absurd ⟨r, hr, hrq⟩ hskip
  | inviteMember projectID invitee replied
  | createTable projectID tableName refTable dbType columns synced
  | createView projectID viewName query columns synced | dropTable projectID tableName
  | grantCCL projectID privs | revokeCCL projectID privIDs | syncInfo client projectID entry =>
    obtain rfl := mem_singleton.mp hq
    exact (h.refused hok).elim

lemma Archived.step {call : Call} (hdelete : call ≠ .deleteProject q)
  (hskip : ¬call.SkipsArchived q) : SameProject q db (step env self call db) := by
  rw [MetaStorage.step]
  split
  · next hok => exact h.handle hdelete hskip hok
  · exact .refl q db

lemma Archived.run {calls : List Call} (hdelete : ∀ call ∈ calls, call ≠ .deleteProject q)
  (hskip : ∀ call ∈ calls, ¬call.SkipsArchived q) :
  SameProject q db (calls.foldl (fun db call => MetaStorage.step env self call db) db) := by
  induction calls generalizing db with
  | nil => exact .refl q db
  | cons call calls ih =>
    have hstep : SameProject q db (MetaStorage.step env self call db) :=
      h.step (hdelete call mem_cons_self) (hskip call mem_cons_self)
    exact hstep.trans (ih (h.sameProject hstep) (fun c hc => hdelete c (mem_cons_of_mem call hc))
      fun c hc => hskip c (mem_cons_of_mem call hc))

end

lemma archived_of_archiveProject {synced : Bool}
  (hok : archiveProject self q synced db = .ok db') : Archived q db' := by
  simp only [archiveProject, bind_eq_ok] at hok
  obtain ⟨_, hne, project, hproject, hok⟩ := hok
  have hne : q ≠ "" := ensure_eq_ok.mp hne
  have hfind : db.projects.find? q = some project := getProject_ok hne hproject
  split at hok
  · next harchived =>
    cases hok
    exact ⟨hne, project, hfind, harchived⟩
  · obtain ⟨_, _, hok⟩ := bind_eq_ok.mp hok
    have hid : project.id = q := KeyedTable.key_of_find? hfind
    rw [Database.updateProject] at hok
    split at hok
    · cases hok
      refine ⟨hne, _, by rw [KeyedTable.find?_updateWhere, hfind]; rfl, ?_⟩
      simp [Database.Project.updates]
    · cases hok

/-- Once the project is archived, its rows stay as they are in every sequence of calls that does
not delete it and in which the refreshes, the status updates and the members added late are about
other projects. -/
theorem archived_frozen {synced : Bool} (calls : List Call)
  (harchive : handle env self (.archiveProject q synced) db = .ok db')
  (hdelete : ∀ call ∈ calls, call ≠ .deleteProject q)
  (hskip : ∀ call ∈ calls, ¬call.SkipsArchived q) :
  SameProject q db' (calls.foldl (fun db call => step env self call db) db') :=
  (archived_of_archiveProject harchive).run hdelete hskip

/-- Hashes are the texts themselves, and every table meta and configuration passes. -/
def plainEnv : Env where
  toLower := id
  digest := id
  order := .inserted
  verifyTableMeta _ := true
  verifyProjectID _ := true
  compatible _ _ := true

def jointProject : Database :=
  [.createProject {id := "p", creator := "alice"}, .inviteMember "p" "bob" true,
    .replyInvitation "bob" "p" true].foldl (fun db call => step plainEnv "alice" call db) {}

def bobTable : TableMeta :=
  ⟨{projectID := "p", tableName := "t", refTable := "db.t", dbType := "MYSQL", owner := "bob"},
    [⟨"c", "int"⟩]⟩

/-- What Alice's broker stores after Alice archived the project. -/
def archivedProject : Database :=
  step plainEnv "alice" (.archiveProject "p" true) jointProject

/-- Synchronisation with the archived project and calls of its own members are refused, while
another project is created and changed. -/
def laterCalls : List Call :=
  [.syncInfo "bob" "p" (.CreateTable bobTable), .createProject {id := "q", creator := "alice"},
    .inviteMember "p" "carol" true, .createTable "q" "t" "db.t" "MYSQL" [⟨"c", "int"⟩] true]

theorem archived_frozen_laterCalls :
  handle plainEnv "alice" (.archiveProject "p" true) jointProject = .ok archivedProject ∧
    SameProject "p" archivedProject
      (laterCalls.foldl (fun db call => step plainEnv "alice" call db) archivedProject) := by
  refine ⟨rfl, ?_⟩
  refine archived_frozen laterCalls
    (rfl : handle plainEnv "alice" (.archiveProject "p" true) jointProject = _) ?_ ?_
  · simp [laterCalls]
  · simp [laterCalls, Call.SkipsArchived]

def aliceStatus : Database.ProjectMeta :=
  ⟨{id := "p", creator := "alice", archived := true}, ["alice", "bob"], [], []⟩

/-- Bob's broker tells of a table that Alice's broker does not store. -/
def bobStatus : Database.ProjectMeta :=
  ⟨{id := "p", creator := "alice"}, ["alice", "bob"], [bobTable], []⟩

/-- The status update adds the table to the archived project. -/
theorem archived_project_changed :
  handle plainEnv "alice" (.archiveProject "p" true) jointProject = .ok archivedProject ∧
    archivedProject.getProjectMeta "p" [] [] "bob" = .ok aliceStatus ∧
    ¬SameProject "p" archivedProject
      (step plainEnv "alice" (.updateStatus aliceStatus bobStatus "bob") archivedProject) := by
  refine ⟨rfl, rfl, fun h => ?_⟩
  have hnew : bobTable.table ∈
      (step plainEnv "alice" (.updateStatus aliceStatus bobStatus "bob")
        archivedProject).tables := by
    decide
  have hold : bobTable.table ∉ archivedProject.tables := by decide
  exact hold ((h.table bobTable.table rfl).mp hnew)

end Scql.Broker.MetaStorage
