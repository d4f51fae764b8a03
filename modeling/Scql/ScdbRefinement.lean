import Mathlib
import Scql.ScdbGrants

/-! # GRANT and REVOKE implement a policy

Every statement stores the names of columns in lower case. Along every run of statements of the
owner the privilege tables therefore hold the policy that the statements describe, and the compiler
is given that policy. -/
namespace Scql.Scdb

open Fallible List Function

variable {lower : String → String}

/-- The policy after a statement, if the privileges that it takes are held. -/
def Order.apply (lower : String → String) (g : String × String) (o : Order) (P : Policy) :
    Option Policy :=
  if o.revokes then o.privs.foldlM (Policy.revoke lower g) P
  else some (o.privs.foldl (Policy.grant lower g) P)

def columnLevel (lower : String → String) (col : String) (privs : List (Visibility × List String))
    (old : Option Visibility) : Option Visibility :=
  privs.foldl (fun acc p => if col ∈ p.2.map lower then some p.1 else acc) old

lemma table_foldl_grant (g : String × String) (privs : List (Visibility × List String))
  (P : Policy) : (privs.foldl (Policy.grant lower g) P).table =
    update P.table g (tableLevel privs (P.table g)) := by
  induction privs generalizing P with
  | nil => exact (update_eq_self g P.table).symm
  | cons p privs ih =>
    rw [foldl_cons, ih]
    by_cases hp : p.2 = []
    · simp [Policy.grant, hp, tableLevel]
    · simp [Policy.grant, hp, tableLevel]

lemma column_foldl_grant (g : String × String) (privs : List (Visibility × List String))
  (P : Policy) (g' : String × String) (col : String) :
  (privs.foldl (Policy.grant lower g) P).column g' col =
    if g' = g then columnLevel lower col privs (P.column g' col) else P.column g' col := by
  induction privs generalizing P with
  | nil => simp [columnLevel]
  | cons p privs ih =>
    rw [foldl_cons, ih, column_grant]
    by_cases hg : g' = g
    · by_cases hp : p.2 = []
      · simp [hg, hp, columnLevel]
      · simp [hg, hp, columnLevel]
    · by_cases hp : p.2 = []
      · simp [hg, hp]
      · simp [hg, hp]

variable {o : Order}

lemma apply_grant_twice {g : String × String} (ho : o.revokes = false) {P P' : Policy}
  (h : o.apply lower g P = some P') : o.apply lower g P' = some P' := by
  have happly : ∀ Q :
    Policy, o.apply lower g Q = some (o.privs.foldl (Policy.grant lower g) Q) := by
    intro Q
    rw [Order.apply, ho]
    rfl
  obtain rfl := Option.some.inj ((happly P).symm.trans h)
  rw [happly]
  refine congrArg some (Policy.ext ?_ ?_)
  · rw [table_foldl_grant, table_foldl_grant, update_self, update_idem]
    exact congrArg _ (foldl_last_twice (fun p : Visibility × List String => p.2 = []) Prod.fst
      o.privs (P.table g))
  · funext g' col
    rw [column_foldl_grant, column_foldl_grant]
    split
    · exact foldl_last_twice (fun p : Visibility × List String => col ∈ p.2.map lower) Prod.fst
        o.privs (P.column g' col)
    · rfl

variable {c : Catalog (.insensitive lower)} {t : Table} {s : Session} {o : Order}

variable {cl : Collation} {u : UserIdentity}

lemma checkUserGrantPriv_eq_ok {c : Catalog cl}
  (h : Grantable c s u) (privs : List (Visibility × List String)) :
  checkUserGrantPriv c s.user u (privs.map visibilityElem) = .ok () := by
  obtain ⟨party, hparty⟩ := h.party
  refine bind_eq_ok.mpr ⟨(), ensure_eq_ok.mpr h.notRoot, bind_eq_ok.mpr ⟨party, hparty, ?_⟩⟩
  split
  · rfl
  · next hroot =>
    obtain ⟨issuer, hissuer⟩ := h.issuer.resolve_left hroot
    refine bind_eq_ok.mpr ⟨issuer, hissuer, ensure_eq_ok.mpr (.inr ?_)⟩
    intro p hp
    obtain ⟨q, -, rfl⟩ := mem_map.mp hp
    rfl

lemma checkTableOwner_eq_ok {c : Catalog cl} {d n : String}
  (ht : t ∈ c.tables) (howner : t.OwnedBy s.user) (h : Addressed cl t u d n) :
  c.checkTableOwner d n s.user.username s.user.hostname = .ok () := by
  have hcond : Table.matches cl d n = fun r => decide (r.key cl = t.key cl) := by
    funext r
    rw [Bool.eq_iff_iff, decide_eq_true_iff, Table.matches, Bool.and_eq_true]
    have hd : cl.fold d = cl.fold t.db := h.names.1
    have hn : cl.fold n = cl.fold t.table := h.names.2
    simp only [Collation.field_eq_true, h.db, h.table, false_or, Collation.same, hd, hn, Table.key,
      Prod.mk.injEq]
    exact and_congr eq_comm eq_comm
  have hfind : c.tables.rows.find? (Table.matches cl d n) = some t := by
    rw [hcond]
    exact KeyedTable.find?_key ht
  refine bind_eq_ok.mpr ⟨t, by rw [hfind]; rfl, ensure_eq_ok.mpr howner⟩

def Order.resolved (o : Order) (s : Session) : PrivStmt :=
  {o.stmt with dbName := orCurrent s o.dbName}

lemma Order.Valid.addressed {c : Catalog cl} (h : o.Valid c s t) :
  Addressed cl t o.user (o.resolved s).dbName (o.resolved s).tableName :=
  ⟨h.db, h.table, h.names, h.user.username, h.user.hostname⟩

variable {cl : Collation}

/-- After a GRANT the same statement succeeds again and changes nothing. -/
def Repeats (s : Session) (t : Table) (o : Order) (c : Catalog cl) : Prop :=
  ∃ c', o.execute c s = .ok c' ∧ policyOf c' t = policyOf c t

/-- Along the statements the compiler is given the policy: every GRANT succeeds, and so does every
REVOKE of what is held. -/
def Refines (s : Session) (t : Table) : List Order → Catalog cl → Policy → Prop
  | [], c, P => Agrees c t P
  | o::os, c, P => Agrees c t P ∧ match o.apply cl.lower (grantee cl o.user) P with
    | some P' =>
      ∃ c', o.execute c s = .ok c' ∧ (o.revokes = false → Repeats s t o c') ∧ Refines s t os c' P'
    | none => (∃ e, o.execute c s = .error e) ∧ Refines s t os c P

lemma Order.Valid.with_privs (h : o.Valid c s t)
  (tablePrivs : KeyedTable (TablePriv.key (.insensitive lower)))
  (columnPrivs : KeyedTable (ColumnPriv.key (.insensitive lower))) :
  o.Valid {c with tablePrivs, columnPrivs} s t where
  db := h.db
  table := h.table
  names := h.names
  user := ⟨h.user.username, h.user.hostname, h.user.notRoot, h.user.party, h.user.issuer⟩
  cols := h.cols

section

variable (hlower : ∀ x, lower (lower x) = lower x) (ht : t ∈ c.tables) (howner : t.OwnedBy s.user)
  (hcolumns : ColumnsLower c t) (hready : PrivsReady c t)
include ht howner

lemma execute_revoke_eq (hvalid : o.Valid c s t) (ho : o.revokes = true) :
  o.execute c s = (o.privs.map visibilityElem).foldlM (revokeElem (o.resolved s) o.user) c := by
  rw [Order.execute, ho]
  change (checkUserGrantPriv c s.user o.user (o.privs.map visibilityElem) >>= fun _ =>
    c.checkTableOwner (o.resolved s).dbName (o.resolved s).tableName s.user.username
      s.user.hostname >>= fun _ => _) = _
  rw [checkUserGrantPriv_eq_ok hvalid.user, checkTableOwner_eq_ok ht howner hvalid.addressed]
  rfl

include hlower hcolumns hready

lemma execute_grant_spec (hvalid : o.Valid c s t) (ho : o.revokes = false) :
  ∃ tablePrivs columnPrivs, o.execute c s = .ok {c with tablePrivs, columnPrivs} ∧
    PrivsReady {c with tablePrivs, columnPrivs} t ∧ policyOf {c with tablePrivs, columnPrivs} t =
      o.privs.foldl (Policy.grant lower (grantee (.insensitive lower) o.user)) (policyOf c t) := by
  obtain ⟨tablePrivs, htable, htablePolicy⟩ :=
    grantTableLevelPriv_spec (c := c) hvalid.addressed rfl
  obtain ⟨columnPrivs, hcolumn, hready', hcolumnPolicy⟩ :=
    grantColumnElems_spec (c := {c with tablePrivs}) (P := policyOf c t) hvalid.addressed hlower
      hcolumns hready hvalid.cols rfl
  refine ⟨tablePrivs, columnPrivs, ?_, hready', Policy.ext ?_ hcolumnPolicy⟩
  · rw [Order.execute, ho]
    refine bind_eq_ok.mpr ⟨(), ensure_eq_ok.mpr rfl, ?_⟩
    refine bind_eq_ok.mpr ⟨(), checkUserGrantPriv_eq_ok hvalid.user o.privs, ?_⟩
    refine bind_eq_ok.mpr ⟨(), checkTableOwner_eq_ok ht howner hvalid.addressed, ?_⟩
    exact bind_eq_ok.mpr ⟨_, htable, hcolumn⟩
  · exact htablePolicy.trans (table_foldl_grant _ o.privs (policyOf c t)).symm

/-- A statement of the owner succeeds where the policy has a successor, and leads to it. -/
lemma execute_spec (hvalid : o.Valid c s t) :
  (∀ P', o.apply lower (grantee (.insensitive lower) o.user) (policyOf c t) = some P' →
    ∃ tablePrivs columnPrivs, o.execute c s = .ok {c with tablePrivs, columnPrivs} ∧
      PrivsReady {c with tablePrivs, columnPrivs} t ∧
      policyOf {c with tablePrivs, columnPrivs} t = P') ∧
  (o.apply lower (grantee (.insensitive lower) o.user) (policyOf c t) = none →
    ∃ e, o.execute c s = .error e) := by
  cases ho : o.revokes with
  | false =>
    obtain ⟨tablePrivs, columnPrivs, hrun, hready', hpolicy⟩ :=
      execute_grant_spec hlower ht howner hcolumns hready hvalid ho
    rw [Order.apply, ho]
    constructor
    · intro P' hP'
      exact ⟨tablePrivs, columnPrivs, hrun, hready', hpolicy.trans (Option.some.inj hP')⟩
    · intro hP'
      cases hP'
  | true =>
    rw [Order.apply, ho, execute_revoke_eq ht howner hvalid ho]
    exact revokeElems_spec hvalid.addressed hlower hready hvalid.cols

lemma refines_policyOf {os : List Order} (hvalid : ∀ o ∈ os, o.Valid c s t) :
    Refines s t os c (policyOf c t) := by
  induction os generalizing c with
  | nil => exact agrees_policyOf fun r hr hn => (hready r hr hn).2
  | cons o os ih =>
    have ho := hvalid o mem_cons_self
    have hos : ∀ o' ∈ os, o'.Valid c s t := fun o' ho' => hvalid o' (mem_cons_of_mem o ho')
    obtain ⟨hsome, hnone⟩ := execute_spec hlower ht howner hcolumns hready ho
    refine ⟨agrees_policyOf fun r hr hn => (hready r hr hn).2, ?_⟩
    cases happly : o.apply (Collation.insensitive lower).lower (grantee (.insensitive lower) o.user)
        (policyOf c t) with
    | none => exact ⟨hnone happly, ih ht hcolumns hready hos⟩
    | some P' =>
      obtain ⟨tablePrivs, columnPrivs, hrun, hready', hpolicy⟩ := hsome P' happly
      have ho' := ho.with_privs tablePrivs columnPrivs
      refine ⟨_, hrun, fun hgrant => ?_, ?_⟩
      · have htwice := apply_grant_twice hgrant happly
        rw [← hpolicy] at htwice
        obtain ⟨_, _, hrun', -, hpolicy'⟩ :=
          (execute_spec (c := {c with tablePrivs, columnPrivs}) hlower ht howner hcolumns hready'
            ho').1 _ htwice
        exact ⟨_, hrun', hpolicy'⟩
      · rw [← hpolicy]
        exact ih ht hcolumns hready' fun o' ho'' => (hos o' ho'').with_privs tablePrivs columnPrivs

end

structure Fresh (c : Catalog cl) (t : Table) : Prop where
  tablePrivs : ∀ r ∈ c.tablePrivs, ¬Names cl r.db r.tableName t
  columnPrivs : ∀ r ∈ c.columnPrivs, ¬Names cl r.db r.tableName t

lemma policyOf_fresh {c : Catalog cl} (h : Fresh c t) : policyOf c t = Policy.empty := by
  refine Policy.ext ?_ ?_
  · funext g
    have hnone : c.tablePrivs.find? (tableKey cl t g) = none := by
      refine KeyedTable.find?_eq_none.mpr fun r hr hkey => h.tablePrivs r hr ⟨?_, ?_⟩
      · exact congrArg (fun k : String × String × String × String => k.2.1) hkey
      · exact congrArg (fun k : String × String × String × String => k.2.2.2) hkey
    simp [policyOf, hnone, Policy.empty]
  · funext g col
    have hnone : c.columnPrivs.find? (columnKey cl t g col) = none :=
      KeyedTable.find?_eq_none.mpr fun r hr hkey => h.columnPrivs r hr (names_of_columnKey hkey)
    simp [policyOf, hnone, Policy.empty]

section

variable {c c' : Catalog cl} {st : Statement cl} {b : Bool}

lemma columnsLowered_dropTableByName {dbName tableName : String}
  (h : c.dropTableByName dbName tableName = .ok c') : ColumnsLowered c c' := by
  obtain ⟨_, -, h⟩ := bind_eq_ok.mp h
  cases h
  exact .of_subset fun r hr => (KeyedTable.mem_deleteWhere.mp hr).1

lemma columnsLowered_executeCreateView {st : CreateViewStmt cl}
  (h : executeCreateView c s st = .ok c') : ColumnsLowered c c' := by
  obtain ⟨dbName, -, h⟩ := bind_eq_ok.mp h
  obtain ⟨_, -, h⟩ := bind_eq_ok.mp h
  simp only [bind_eq_ok, pure_eq_ok] at h
  obtain ⟨c₁, hold, tables, -, outputs, -, rows, hrows, columns, hcolumns, rfl⟩ := h
  have hdropped : ColumnsLowered c c₁ := by
    split at hold
    · obtain ⟨_, -, hold⟩ := bind_eq_ok.mp hold
      exact columnsLowered_dropTableByName hold
    · cases hold
      exact .of_subset fun _ hr => hr
  intro r hr
  rcases (mem_create hcolumns).mp hr with hr | hr
  · obtain ⟨field, -, hfield⟩ := mem_of_mapM_ok hrows hr
    simp only [bind_eq_ok, pure_eq_ok] at hfield
    obtain ⟨_, -, type, -, rfl⟩ := hfield
    exact .inr ⟨field.1.1, rfl⟩
  · exact hdropped r hr

lemma columnsLowered_executeDropDatabase {name : String}
  (h : executeDropDatabase c name b = .ok c') : ColumnsLowered c c' := by
  unfold executeDropDatabase at h
  dsimp only at h
  split at h
  · obtain ⟨c₁, hdrop, h⟩ := bind_eq_ok.mp h
    cases h
    exact fun r hr => columnsLowered_dropTableByName hdrop r hr
  · obtain ⟨_, -, h⟩ := bind_eq_ok.mp h
    cases h
    exact .of_subset fun _ hr => hr

lemma columnsLowered_executeDropTableOrView {st : DropTableStmt}
  (h : executeDropTableOrView c s st = .ok c') : ColumnsLowered c c' := by
  obtain ⟨_, -, h⟩ := bind_eq_ok.mp h
  split at h
  · obtain ⟨dbName, -, h⟩ := bind_eq_ok.mp h
    dsimp only at h
    split at h
    · obtain ⟨_, -, h⟩ := bind_eq_ok.mp h
      cases h
      exact .of_subset fun _ hr => hr
    · split at h
      · obtain ⟨_, -, h⟩ := bind_eq_ok.mp h
        cases h
        exact .of_subset fun _ hr => hr
      · obtain ⟨_, -, h⟩ := bind_eq_ok.mp h
        exact columnsLowered_dropTableByName h
  · cases h

lemma columns_executeDropUser {userList : List UserIdentity}
  (h : executeDropUser c userList b = .ok c') : c'.columns = c.columns := by
  unfold executeDropUser at h
  split at h
  · split at h
    · obtain ⟨_, -, h⟩ := bind_eq_ok.mp h
      cases h
      rfl
    · obtain ⟨_, -, h⟩ := bind_eq_ok.mp h
      cases h
      rfl
  · cases h

lemma columns_revokeColumnPriv {st : PrivStmt} {p : PrivElem}
  (h : revokeColumnPriv c st u p = .ok c') : c'.columns = c.columns := by
  obtain ⟨_, -, h⟩ := bind_eq_ok.mp h
  dsimp only at h
  split at h
  · obtain ⟨_, -, h⟩ := bind_eq_ok.mp h
    cases h
    rfl
  · cases h

lemma columnsLowered_executeRevoke {st : PrivStmt} (h : executeRevoke c s st = .ok c') :
  ColumnsLowered c c' := by
  unfold executeRevoke at h
  split at h
  · obtain ⟨_, -, h⟩ := bind_eq_ok.mp h
    dsimp only at h
    have hrefl : ColumnsLowered c c := .of_subset fun _ hr => hr
    split at h
    · refine foldlM_invariant (P := ColumnsLowered c) ?_ hrefl h
      exact fun p _ c₁ c₂ hc₁ h => hc₁.trans (grows_revokeGlobalPriv h).newColumns
    · refine foldlM_invariant (P := ColumnsLowered c) ?_ hrefl h
      exact fun p _ c₁ c₂ hc₁ h => hc₁.trans (grows_revokeDBPriv h).newColumns
    · obtain ⟨_, -, h⟩ := bind_eq_ok.mp h
      refine foldlM_invariant (P := ColumnsLowered c) ?_ hrefl h
      intro p _ c₁ c₂ hc₁ h
      unfold revokeElem at h
      split at h
      · exact hc₁.trans (grows_revokeTablePriv h).newColumns
      · exact hc₁.trans (.of_subset fun r hr => columns_revokeColumnPriv h ▸ hr)
  · cases h

lemma columnsLowered_run (h : run c s st = .ok c') : ColumnsLowered c c' := by
  obtain ⟨st', -, h⟩ := bind_eq_ok.mp h
  obtain ⟨vs, -, h⟩ := bind_eq_ok.mp h
  obtain ⟨_, -, h⟩ := bind_eq_ok.mp h
  cases st' with
  | createDatabase name b => exact (grows_executeCreateDatabase h).newColumns
  | dropDatabase name b => exact columnsLowered_executeDropDatabase h
  | createTable st => exact (grows_executeCreateTable h).newColumns
  | dropTable st => exact columnsLowered_executeDropTableOrView h
  | createView st => exact columnsLowered_executeCreateView h
  | grant st => exact (grows_executeGrant h).newColumns
  | revoke st => exact columnsLowered_executeRevoke h
  | createUser specs b => exact (grows_executeCreateUser h).newColumns
  | dropUser userList b => exact .of_subset fun r hr => columns_executeDropUser h ▸ hr
  | alterUser specs b =>
    obtain rfl := executeAlterUser_eq h
    exact .of_subset fun _ hr => hr

/-- After any statements on a catalog without columns, every column is in lower case. -/
lemma columns_lower_of_run {es : List (Session × Statement cl)}
  (hlower : ∀ x, cl.lower (cl.lower x) = cl.lower x) (hstart : ∀ r, r ∉ c.columns)
  (hrun : EventRuns.run step es c = some c') :
    ∀ r ∈ c'.columns, cl.lower r.columnName = r.columnName := by
  refine EventRuns.run_invariant (C := fun _ _ => True)
    (P := fun c : Catalog cl => ∀ r ∈ c.columns, cl.lower r.columnName = r.columnName) ?_
    (EventRuns.along_of_forall (fun _ _ => trivial) es c) (fun r hr => absurd hr (hstart r)) hrun
  intro e c₁ c₂ _ hcolumns hstep r hr
  cases hstep
  unfold next at hr
  cases h : run c₁ e.1 e.2 with
  | error msg =>
    rw [h] at hr
    exact hcolumns r hr
  | ok c₂ =>
    rw [h] at hr
    rcases columnsLowered_run h r hr with hr | ⟨x, hx⟩
    · exact hcolumns r hr
    · rw [hx, hlower]

end

open Collation (asciiLower)

lemma asciiLower_asciiLower (x : String) : asciiLower (asciiLower x) = asciiLower x := by
  simp only [asciiLower, String.toList_ofList, map_map]
  exact congrArg String.ofList (map_congr_left fun ch _ => ch.toLower_toLower_eq_toLower)

/-- A database in which one user may create tables, and another user to grant to. -/
def emptyDatabase : Catalog (.insensitive asciiLower) where
  users := ⟨[{host := "%", user := "alice", partyCode := "a", privs := [.create]},
    {host := "%", user := "bob", partyCode := "b"}], by decide⟩
  databases := ⟨["da"], by decide⟩

def alicesSession : Session := ⟨⟨"alice", "%"⟩, "da"⟩

/-- `CREATE TABLE da.t (ID int, Name string)`. -/
def createT : Statement (.insensitive asciiLower) :=
  .createTable
    {table := ⟨"da", "t"⟩, cols := [("ID", "int"), ("Name", "string")], dbType := "mysql"}

def createdT : Table := {alicesTable with dbType := some .mysql}

def toBob (revokes : Bool) (cols : List String) : Order :=
  ⟨revokes, "da", "t", ⟨"bob", "%"⟩, [(.plaintext, cols)]⟩

lemma grantable_bob :
  Grantable (next emptyDatabase alicesSession createT) alicesSession ⟨"bob", "%"⟩ where
  username := by decide
  hostname := by decide
  notRoot := by decide
  party := ⟨"b", by decide⟩
  issuer := .inr ⟨"a", by decide⟩

lemma valid_toBob (revokes : Bool) {cols : List String}
  (h : ∀ col ∈ cols, asciiLower col = "id" ∨ asciiLower col = "name") :
  (toBob revokes cols).Valid (next emptyDatabase alicesSession createT) alicesSession createdT where
  db := show "da" ≠ "" by decide
  table := show "t" ≠ "" by decide
  names := ⟨rfl, rfl⟩
  user := grantable_bob
  cols := by
    intro p hp col hcol
    obtain rfl := mem_singleton.mp hp
    rcases h col hcol with hcol | hcol
    · exact ⟨{db := "da", tableName := "t", columnName := "id", type := "int"}, by decide,
        ⟨rfl, rfl⟩, hcol⟩
    · exact ⟨{db := "da", tableName := "t", columnName := "name", type := "string"}, by decide,
        ⟨rfl, rfl⟩, hcol⟩

end Scql.Scdb
