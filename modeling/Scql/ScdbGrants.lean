import Scql.ScdbVisibility

/-! # What one GRANT or REVOKE does to the visibility of a table

Each executor changes the rows of one user on one table, told by the key of the row. On columns in
lower case the two spellings of a name agree, and each element of a statement is one update of the
policy. -/
namespace Scql.Scdb

open Fallible List Function
open KeyedTable (eq_of_key_eq exists_insertAll find?_deleteWhere find?_eq_some find?_insertAll
  find?_updateWhere find?_updateWhere_keys key_of_find? mem_deleteWhere mem_insertAll
    mem_updateWhere)

variable {cl : Collation} {c : Catalog cl} {t : Table} {u : UserIdentity} {st : PrivStmt}
    {β γ : Type}

lemma foldl_last_eq_or (q : β → Prop) [DecidablePred q] (f : β → γ) (l : List β)
  (old : Option γ) : l.foldl (fun acc b => if q b then some (f b) else acc) old =
    (l.foldl (fun acc b => if q b then some (f b) else acc) none).or old := by
  induction l generalizing old with
  | nil => rfl
  | cons b l ih =>
    simp only [foldl_cons]
    split
    · rw [ih]
      cases l.foldl (fun acc b => if q b then some (f b) else acc) none <;> rfl
    · exact ih old

lemma foldl_last_twice (q : β → Prop) [DecidablePred q] (f : β → γ) (l : List β)
  (old : Option γ) : l.foldl (fun acc b => if q b then some (f b) else acc)
      (l.foldl (fun acc b => if q b then some (f b) else acc) old) =
    l.foldl (fun acc b => if q b then some (f b) else acc) old := by
  rw [foldl_last_eq_or, foldl_last_eq_or q f l old]
  cases l.foldl (fun acc b => if q b then some (f b) else acc) none <;> rfl

def visibilityElem (p : Visibility × List String) : PrivElem := ⟨.visibility p.1, p.2⟩

def tableLevel (privs : List (Visibility × List String)) (old : Option Visibility) :
    Option Visibility :=
  privs.foldl (fun acc p => if p.2 = [] then some p.1 else acc) old

lemma tableLevel_eq_or (privs : List (Visibility × List String)) (old : Option Visibility) :
  tableLevel privs old = (tableLevel privs none).or old :=
  foldl_last_eq_or (fun p : Visibility × List String => p.2 = []) Prod.fst privs old

lemma composeTablePriv_visibility (attrs : TableAttrs) (p : Visibility × List String) :
  composeTablePriv attrs (visibilityElem p) =
    .ok {attrs with visibility := if p.2 = [] then some p.1 else attrs.visibility} := by
  by_cases hp : p.2 = []
  · rw [if_pos hp]
    exact if_neg (not_not_intro hp)
  · rw [if_neg hp]
    exact if_pos hp

lemma composeTablePrivUpdate_visibility (privs : List (Visibility × List String)) :
  composeTablePrivUpdate (privs.map visibilityElem) =
    .ok {visibility := tableLevel privs none} := by
  have hloop : ∀ attrs : TableAttrs, (privs.map visibilityElem).foldlM composeTablePriv attrs =
      .ok {attrs with visibility := tableLevel privs attrs.visibility} := by
    induction privs with
    | nil => exact fun _ => rfl
    | cons p privs ih =>
      intro attrs
      rw [map_cons, foldlM_cons, composeTablePriv_visibility]
      exact ih _
  exact hloop {}

variable {g g' : String × String}

lemma tableKey_inj : tableKey cl t g = tableKey cl t g' ↔ g = g' := by
  constructor
  · intro h
    exact Prod.ext (congrArg (fun k => k.1) h) (congrArg (fun k => k.2.2.1) h)
  · rintro rfl
    rfl

variable {col col' : String}

lemma columnKey_inj : columnKey cl t g col = columnKey cl t g' col' ↔ g = g' ∧ col = col' := by
  constructor
  · intro h
    exact ⟨Prod.ext (congrArg (fun k => k.1) h) (congrArg (fun k => k.2.2.1) h),
      congrArg (fun k => k.2.2.2.2) h⟩
  · rintro ⟨rfl, rfl⟩
    rfl

variable {privs : List (Visibility × List String)}

/-- The privileges on the table are those of the policy; the columns are not touched. -/
lemma grantTableLevelPriv_spec (h : Addressed cl t u st.dbName st.tableName)
  (hprivs : st.privs = privs.map visibilityElem) :
  ∃ tablePrivs, grantTableLevelPriv c st u = .ok {c with tablePrivs} ∧
    (policyOf {c with tablePrivs} t).table = update (policyOf c t).table (grantee cl u)
        (tableLevel privs ((policyOf c t).table (grantee cl u))) := by
  have hcond : ∀ r : TablePriv,
      TablePriv.matches cl u.hostname u.username st.dbName st.tableName r = true ↔
        r.key cl = tableKey cl t (grantee cl u) := h.tablePriv_matches
  by_cases hnone : tableLevel privs none = none
  · refine ⟨c.tablePrivs, ?_, ?_⟩
    · rw [grantTableLevelPriv, hprivs, composeTablePrivUpdate_visibility, hnone]
      rfl
    · rw [tableLevel_eq_or, hnone, Option.none_or, update_eq_self]
  have hattrs : ({visibility := tableLevel privs none} : TableAttrs) ≠ {} := by simpa using hnone
  have hwhere : whereRequired [u.hostname, u.username, st.dbName, st.tableName] = .ok () :=
    ensure_eq_ok.mpr ⟨u.hostname, mem_cons_self, h.hostname⟩
  by_cases hany : c.tablePrivs.rows.any
      (TablePriv.matches cl u.hostname u.username st.dbName st.tableName) = true
  · have hf : ∀ r : TablePriv, TablePriv.key cl { r with
        privs := r.privs ∪ []
        visibilityPriv := (tableLevel privs none).or r.visibilityPriv} = r.key cl := fun _ => rfl
    refine ⟨c.tablePrivs.updateWhere
      (TablePriv.matches cl u.hostname u.username st.dbName st.tableName) _ hf, ?_, ?_⟩
    · rw [grantTableLevelPriv, hprivs, composeTablePrivUpdate_visibility]
      simp only [bind, Except.bind, if_neg hattrs, hwhere, if_pos hany]
      rfl
    · obtain ⟨r, hr, hmatch⟩ := any_eq_true.mp hany
      have hfind : c.tablePrivs.find? (tableKey cl t (grantee cl u)) = some r :=
        find?_eq_some.mpr ⟨hr, (hcond r).mp hmatch⟩
      funext g
      simp only [policyOf]
      rw [find?_updateWhere_keys (q := (· = tableKey cl t (grantee cl u))) hcond]
      by_cases hg : g = grantee cl u
      · rw [hg, if_pos rfl, update_self, hfind]
        exact (tableLevel_eq_or privs r.visibilityPriv).symm
      · rw [if_neg (mt tableKey_inj.mp hg), update_of_ne hg]
  · obtain ⟨row, hrow⟩ : ∃ row : TablePriv, row =
        { host := u.hostname, user := u.username, db := st.dbName, tableName := st.tableName,
          visibilityPriv := tableLevel privs none} := ⟨_, rfl⟩
    have hkey : row.key cl = tableKey cl t (grantee cl u) := by
      refine (hcond row).mp ?_
      simp [hrow, TablePriv.matches, Collation.field, Collation.same]
    have hnew : ∀ r ∈ c.tablePrivs, r.key cl ≠ tableKey cl t (grantee cl u) := by
      intro r hr hkey
      exact hany (any_eq_true.mpr ⟨r, hr, (hcond r).mpr hkey⟩)
    have hnodup : ((c.tablePrivs.rows ++ [row]).map (TablePriv.key cl)).Nodup := by
      rw [map_append, nodup_append]
      refine ⟨c.tablePrivs.nodup, nodup_singleton _, ?_⟩
      rintro k hk k' hk' rfl
      obtain ⟨r, hr, hrk⟩ := mem_map.mp hk
      exact hnew r hr (hrk.trans ((mem_singleton.mp hk').trans hkey))
    obtain ⟨tablePrivs, hinsert⟩ := exists_insertAll hnodup
    refine ⟨tablePrivs, ?_, ?_⟩
    · rw [grantTableLevelPriv, hprivs, composeTablePrivUpdate_visibility]
      simp only [bind, Except.bind, if_neg hattrs, hwhere, if_neg hany, ← hrow,
        create_eq_ok.mpr hinsert]
      rfl
    · funext g
      simp only [policyOf]
      rw [find?_insertAll hinsert]
      by_cases hg : g = grantee cl u
      · have hnone' : c.tablePrivs.find? (tableKey cl t (grantee cl u)) = none :=
          KeyedTable.find?_eq_none.mpr hnew
        have hself : [row].find? (fun r => r.key cl = tableKey cl t (grantee cl u)) = some row :=
          find?_cons_of_pos (decide_eq_true hkey)
        rw [hg, update_self, hnone', Option.none_or, hself, Option.bind_none, hrow]
        rfl
      · have hother : [row].find? (fun r => r.key cl = tableKey cl t g) = none := by
          refine find?_cons_of_neg ?_
          rw [hkey, decide_eq_true_iff]
          exact fun h => hg (tableKey_inj.mp h).symm
        rw [update_of_ne hg, hother, Option.or_none]

variable {lower : String → String} {c : Catalog (.insensitive lower)} {names cols : List String}

/-- The key of the row about a column in the rows of a user. -/
def userKey (lower : String → String) (t : Table) (u : UserIdentity) (col : String) :
    String × String × String × String × String :=
  columnKey (.insensitive lower) t (grantee (.insensitive lower) u) col

lemma userKey_inj : userKey lower t u col = userKey lower t u col' ↔ col = col' := by
  simp [userKey, columnKey_inj]

/-- The rows about the columns of a table are in lower case and say something. -/
def PrivsReady (c : Catalog (.insensitive lower)) (t : Table) : Prop :=
  ∀ r ∈ c.columnPrivs, Names (.insensitive lower) r.db r.tableName t →
    lower r.columnName = r.columnName ∧ r.visibilityPriv ≠ none

def ColsExist (c : Catalog (.insensitive lower)) (t : Table) (cols : List String) : Prop :=
  ∀ col ∈ cols, ∃ r ∈ c.columns, Names (.insensitive lower) r.db r.tableName t ∧
    lower col = lower r.columnName

def ColumnsLower (c : Catalog (.insensitive lower)) (t : Table) : Prop :=
  ∀ r ∈ c.columns, Names (.insensitive lower) r.db r.tableName t → lower r.columnName = r.columnName

variable {v : Visibility}

/-- The rows that a REVOKE of a privilege on columns selects. -/
def revoked (lower : String → String) (st : PrivStmt) (u : UserIdentity) (v : Visibility)
    (cols : List String) (r : ColumnPriv) : Bool :=
  ColumnPriv.matches (.insensitive lower) u.hostname u.username st.dbName st.tableName r &&
    r.visibilityPriv = some v && (Collation.insensitive lower).isIn (lower r.columnName)
      (cols.map lower)

lemma column_grant (g : String × String) (P : Policy) (p : Visibility × List String) :
  (P.grant lower g p).column = if p.2 = [] then P.column else fun g' col =>
    if g' = g ∧ col ∈ p.2.map lower then some p.1 else P.column g' col := by
  unfold Policy.grant
  split <;> rfl

section
variable (h : Addressed (.insensitive lower) t u st.dbName st.tableName)
include h

lemma initColumnPriv_spec (hlower : ∀ x ∈ names, lower x = x) (hnodup : names.Nodup) :
  ∃ columnPrivs, initColumnPriv c st u names = .ok {c with columnPrivs} ∧
    (∀ r ∈ columnPrivs, r ∈ c.columnPrivs ∨
      r.columnName ∈ names ∧ r.key (.insensitive lower) = userKey lower t u r.columnName) ∧
    (∀ x ∈ names, ∃ r, columnPrivs.find? (userKey lower t u x) = some r) ∧
    ∀ k, (∀ x ∈ names, k ≠ userKey lower t u x) → columnPrivs.find? k = c.columnPrivs.find? k := by
  obtain ⟨exist, hexist⟩ : ∃ exist : List String, exist = ((c.columnPrivs.rows.filter
    (ColumnPriv.matches (.insensitive lower) u.hostname u.username st.dbName st.tableName)).filter
    (fun r => (Collation.insensitive lower).isIn r.columnName names)).map
      (fun r => lower r.columnName) := ⟨_, rfl⟩
  obtain ⟨mk, hmk⟩ : ∃ mk : String → ColumnPriv, mk = fun colName =>
    { host := u.hostname, db := st.dbName, user := u.username, tableName := st.tableName,
      columnName := colName} := ⟨_, rfl⟩
  have hmkKey : ∀ x ∈ names, (mk x).key (.insensitive lower) = userKey lower t u x := by
    intro x hx
    refine (h.columnPriv_key (mk x) x).mpr ⟨?_, ?_⟩
    · simp [hmk, ColumnPriv.matches, Collation.field, Collation.same]
    · rw [hmk]
      exact hlower x hx
  -- the rows that are there are found by their names in lower case
  have hmem : ∀ x ∈ names, x ∈ exist ↔ ∃ r, c.columnPrivs.find? (userKey lower t u x) = some r := by
    intro x hx
    rw [hexist, mem_map]
    constructor
    · rintro ⟨r, hr, rfl⟩
      obtain ⟨hr, -⟩ := mem_filter.mp hr
      obtain ⟨hr, hmatch⟩ := mem_filter.mp hr
      exact ⟨r, find?_eq_some.mpr ⟨hr, (h.columnPriv_key r _).mpr ⟨hmatch, rfl⟩⟩⟩
    · rintro ⟨r, hr⟩
      obtain ⟨hr, hkey⟩ := find?_eq_some.mp hr
      obtain ⟨hmatch, hname⟩ := (h.columnPriv_key r x).mp hkey
      refine ⟨r, mem_filter.mpr ⟨mem_filter.mpr ⟨hr, hmatch⟩, ?_⟩, hname⟩
      refine any_eq_true.mpr ⟨x, hx, decide_eq_true ?_⟩
      exact (hlower x hx).trans hname.symm
  have hfresh : ((c.columnPrivs.rows ++ (names.filter (· ∉ exist)).map mk).map
      (ColumnPriv.key (.insensitive lower))).Nodup := by
    rw [map_append, nodup_append]
    refine ⟨c.columnPrivs.nodup, ?_, ?_⟩
    · rw [map_map]
      refine (hnodup.filter _).map_on ?_
      intro x hx y hy hxy
      have hx := hmkKey x (mem_filter.mp hx).1
      have hy := hmkKey y (mem_filter.mp hy).1
      exact userKey_inj.mp (hx.symm.trans (hxy.trans hy))
    · rintro k hk k' hk' rfl
      obtain ⟨r, hr, rfl⟩ := mem_map.mp hk
      obtain ⟨r', hr', hkey⟩ := mem_map.mp hk'
      obtain ⟨x, hx, rfl⟩ := mem_map.mp hr'
      obtain ⟨hx, hnot⟩ := mem_filter.mp hx
      refine of_decide_eq_true hnot ((hmem x hx).mpr ⟨r, ?_⟩)
      exact find?_eq_some.mpr ⟨hr, hkey.symm.trans (hmkKey x hx)⟩
  obtain ⟨columnPrivs, hinsert⟩ := exists_insertAll hfresh
  refine ⟨columnPrivs, ?_, ?_, ?_, ?_⟩
  · refine bind_eq_ok.mpr ⟨columnPrivs, ?_, rfl⟩
    subst hexist hmk
    exact create_eq_ok.mpr hinsert
  · intro r hr
    rcases (mem_insertAll hinsert).mp hr with hr | hr
    · obtain ⟨x, hx, rfl⟩ := mem_map.mp hr
      have hx := (mem_filter.mp hx).1
      have hname : (mk x).columnName = x := by rw [hmk]
      rw [hname]
      exact .inr ⟨hx, hmkKey x hx⟩
    · exact .inl hr
  · intro x hx
    rw [find?_insertAll hinsert]
    by_cases hin : x ∈ exist
    · obtain ⟨r, hr⟩ := (hmem x hx).mp hin
      exact ⟨r, by rw [hr]; rfl⟩
    · rw [← Option.isSome_iff_exists, Option.isSome_or, Bool.or_eq_true]
      refine .inr (find?_isSome.mpr ⟨mk x, ?_, decide_eq_true (hmkKey x hx)⟩)
      exact mem_map_of_mem (mem_filter.mpr ⟨hx, decide_eq_true hin⟩)
  · intro k hk
    rw [find?_insertAll hinsert, find?_eq_none.mpr, Option.or_none]
    intro r hr
    obtain ⟨x, hx, rfl⟩ := mem_map.mp hr
    have hx := (mem_filter.mp hx).1
    rw [decide_eq_true_iff, hmkKey x hx]
    exact fun hkey => hk x hx hkey.symm

lemma grantColumnPriv_spec (hlower : ∀ x ∈ names, lower x = x) (hnodup : names.Nodup)
  (hready : PrivsReady c t) (v : Visibility) :
  ∃ columnPrivs, grantColumnPriv c st u (.visibility v) names = .ok {c with columnPrivs} ∧
    PrivsReady {c with columnPrivs} t ∧ (policyOf {c with columnPrivs} t).column = fun g col =>
      if g = grantee (.insensitive lower) u ∧ col ∈ names then some v
      else (policyOf c t).column g col := by
  obtain ⟨columnPrivs, hinit, hrows, hfound, hother⟩ :=
    initColumnPriv_spec (c := c) h hlower hnodup
  have hcond : ∀ r : ColumnPriv, (ColumnPriv.matches (.insensitive lower) u.hostname u.username
      st.dbName st.tableName r && (Collation.insensitive lower).isIn r.columnName names) = true ↔
        ∃ x ∈ names, r.key (.insensitive lower) = userKey lower t u x := by
    intro r
    rw [Bool.and_eq_true, Collation.isIn, any_eq_true]
    constructor
    · rintro ⟨hmatch, x, hx, hsame⟩
      refine ⟨x, hx, (h.columnPriv_key r x).mpr ⟨hmatch, ?_⟩⟩
      exact (of_decide_eq_true hsame : lower x = lower r.columnName).symm.trans (hlower x hx)
    · rintro ⟨x, hx, hkey⟩
      obtain ⟨hmatch, hname⟩ := (h.columnPriv_key r x).mp hkey
      exact ⟨hmatch, x, hx, decide_eq_true ((hlower x hx).trans hname.symm)⟩
  have hf : ∀ r : ColumnPriv, ColumnPriv.key (.insensitive lower)
      {r with visibilityPriv := some v} = r.key (.insensitive lower) := fun _ => rfl
  obtain ⟨updated, hupdated⟩ : ∃ updated, updated = columnPrivs.updateWhere
    (fun r => ColumnPriv.matches (.insensitive lower) u.hostname u.username st.dbName st.tableName r
      && (Collation.insensitive lower).isIn r.columnName names)
    (fun r => {r with visibilityPriv := some v}) hf := ⟨_, rfl⟩
  refine ⟨updated, bind_eq_ok.mpr ⟨_, hinit, by rw [hupdated]; rfl⟩, ?_, ?_⟩
  · intro r hr hnames
    change r ∈ updated at hr
    rw [hupdated, mem_updateWhere] at hr
    obtain ⟨r₀, hr₀, rfl⟩ := hr
    have hnames₀ : Names (.insensitive lower) r₀.db r₀.tableName t := by
      split at hnames <;> exact hnames
    have hlow : lower r₀.columnName = r₀.columnName := by
      rcases hrows r₀ hr₀ with hold | ⟨hname, -⟩
      · exact (hready r₀ hold hnames₀).1
      · exact hlower _ hname
    split
    · exact ⟨hlow, Option.some_ne_none v⟩
    · next hp =>
      rcases hrows r₀ hr₀ with hold | ⟨hname, hkey⟩
      · exact hready r₀ hold hnames₀
      · exact absurd ((hcond r₀).mpr ⟨_, hname, hkey⟩) hp
  · funext g col
    simp only [policyOf]
    rw [hupdated, find?_updateWhere_keys (q := fun k => ∃ x ∈ names, k = userKey lower t u x) hcond]
    have hq : (∃ x ∈ names, columnKey (.insensitive lower) t g col = userKey lower t u x) ↔
        g = grantee (.insensitive lower) u ∧ col ∈ names := by
      constructor
      · rintro ⟨x, hx, hkey⟩
        obtain ⟨hg, rfl⟩ := columnKey_inj.mp hkey
        exact ⟨hg, hx⟩
      · rintro ⟨rfl, hcol⟩
        exact ⟨col, hcol, rfl⟩
    by_cases hgc : g = grantee (.insensitive lower) u ∧ col ∈ names
    · rw [if_pos (hq.mpr hgc), if_pos hgc]
      obtain ⟨r, hr⟩ := hfound col hgc.2
      rw [hgc.1]
      rw [userKey] at hr
      rw [hr]
      rfl
    · rw [if_neg (mt hq.mp hgc), if_neg hgc, hother]
      intro x hx hkey
      exact hgc (hq.mp ⟨x, hx, hkey⟩)

lemma nodup_originNames : (c.getColumnOriginNameByLowerName st.dbName st.tableName cols).Nodup := by
  refine Nodup.map_on ?_ ((c.columns.nodup.of_map.filter _).filter _)
  intro r hr r' hr' hname
  obtain ⟨hr, hmatch⟩ := mem_filter.mp (mem_filter.mp hr).1
  obtain ⟨hr', hmatch'⟩ := mem_filter.mp (mem_filter.mp hr').1
  obtain ⟨hdb, htable⟩ := (h.column_matches r).mp hmatch
  obtain ⟨hdb', htable'⟩ := (h.column_matches r').mp hmatch'
  refine eq_of_key_eq hr hr' ?_
  exact Prod.ext (hdb.trans hdb'.symm) (Prod.ext (htable.trans htable'.symm) (congrArg lower hname))

lemma revokeTablePriv_spec (v : Visibility) :
  ∃ tablePrivs, revokeTablePriv c st u ⟨.visibility v, []⟩ = .ok {c with tablePrivs} ∧
    (policyOf {c with tablePrivs} t).table =
      if (policyOf c t).table (grantee (.insensitive lower) u) = some v then
        update (policyOf c t).table (grantee (.insensitive lower) u) none
      else (policyOf c t).table := by
  have hf : ∀ r : TablePriv, TablePriv.key (.insensitive lower)
      {r with visibilityPriv := none} = r.key (.insensitive lower) := fun _ => rfl
  obtain ⟨updated, hupdated⟩ : ∃ updated, updated = c.tablePrivs.updateWhere
    (fun r => TablePriv.matches (.insensitive lower) u.hostname u.username st.dbName st.tableName r
      && r.visibilityPriv = some v)
    (fun r => {r with visibilityPriv := none}) hf := ⟨_, rfl⟩
  refine ⟨updated, by rw [hupdated]; rfl, ?_⟩
  have hfind : ∀ g, (policyOf {c with tablePrivs := updated} t).table g =
      if g = grantee (.insensitive lower) u ∧ (policyOf c t).table g = some v then none
      else (policyOf c t).table g := by
    intro g
    have hold : (policyOf c t).table g =
        (c.tablePrivs.find? (tableKey (.insensitive lower) t g)).bind (·.visibilityPriv) := rfl
    have hnew : (policyOf {c with tablePrivs := updated} t).table g =
        (updated.find? (tableKey (.insensitive lower) t g)).bind (·.visibilityPriv) := rfl
    have hupdate := hupdated ▸ find?_updateWhere (t := c.tablePrivs)
      (k := tableKey (.insensitive lower) t g)
    rw [hupdate] at hnew
    cases hrow : c.tablePrivs.find? (tableKey (.insensitive lower) t g) with
    | none =>
      rw [hrow] at hold hnew
      simp [hold, hnew]
    | some r =>
      have hmatch : TablePriv.matches (.insensitive lower) u.hostname u.username st.dbName
          st.tableName r = true ↔ g = grantee (.insensitive lower) u := by
        rw [h.tablePriv_matches, key_of_find? hrow, tableKey_inj]
      rw [hrow] at hold hnew
      simp only [Option.map_some, Option.bind_some, Bool.and_eq_true, hmatch,
        decide_eq_true_iff] at hold hnew
      rw [hnew, hold]
      split <;> rfl
  funext g
  rw [hfind]
  by_cases hg : g = grantee (.insensitive lower) u
  · subst hg
    by_cases hheld : (policyOf c t).table (grantee (.insensitive lower) u) = some v
    · rw [if_pos ⟨rfl, hheld⟩, if_pos hheld, update_self]
    · rw [if_neg (fun hcon => hheld hcon.2), if_neg hheld]
  · rw [if_neg (fun hcon => hg hcon.1)]
    split
    · rw [update_of_ne hg]
    · rfl

variable (hlower : ∀ s, lower (lower s) = lower s)
include hlower

lemma checkColumnsExist_eq_ok (hcols : ColsExist c t cols) :
  c.checkColumnsExist st.dbName st.tableName (cols.map lower) = .ok () := by
  refine forM_ok_of_forall fun colName hname => ensure_eq_ok.mpr ?_
  obtain ⟨col, hcol, rfl⟩ := mem_map.mp hname
  obtain ⟨r, hr, hnames, hsame⟩ := hcols col hcol
  refine mem_map.mpr ⟨r, mem_filter.mpr ⟨mem_filter.mpr ⟨hr, ?_⟩, ?_⟩, hsame.symm⟩
  · exact (h.column_matches r).mpr hnames
  · exact any_eq_true.mpr ⟨_, hname, decide_eq_true ((hlower col).trans hsame)⟩

lemma mem_originNames {x : String} :
  x ∈ c.getColumnOriginNameByLowerName st.dbName st.tableName (cols.map lower) ↔
    ∃ r ∈ c.columns, Names (.insensitive lower) r.db r.tableName t ∧
      lower r.columnName ∈ cols.map lower ∧ r.columnName = x := by
  rw [Catalog.getColumnOriginNameByLowerName, mem_map]
  refine exists_congr fun r => ?_
  rw [mem_filter, mem_filter, h.column_matches, Collation.isIn, any_eq_true, and_assoc, and_assoc]
  refine and_congr_right fun _ => and_congr_right fun _ => and_congr_left fun _ => ?_
  constructor
  · rintro ⟨colName, hname, hsame⟩
    obtain ⟨col, hcol, rfl⟩ := mem_map.mp hname
    have hsame : lower (lower col) = lower (lower r.columnName) := of_decide_eq_true hsame
    rw [hlower, hlower] at hsame
    exact hsame ▸ hname
  · intro hname
    exact ⟨_, hname, decide_eq_true rfl⟩

lemma grantColumns_spec (hcolumns : ColumnsLower c t)
  (hready : PrivsReady c t) (hcols : ColsExist c t cols) (v : Visibility) :
  ∃ columnPrivs, grantColumnPriv c st u (.visibility v)
      (c.getColumnOriginNameByLowerName st.dbName st.tableName (cols.map lower)) =
        .ok {c with columnPrivs} ∧ PrivsReady {c with columnPrivs} t ∧
    (policyOf {c with columnPrivs} t).column = fun g col =>
      if g = grantee (.insensitive lower) u ∧ col ∈ cols.map lower then some v
      else (policyOf c t).column g col := by
  have hmem : ∀ x, x ∈ c.getColumnOriginNameByLowerName st.dbName st.tableName (cols.map lower) ↔
      x ∈ cols.map lower := by
    intro x
    rw [mem_originNames h hlower]
    constructor
    · rintro ⟨r, hr, hnames, hname, rfl⟩
      exact hcolumns r hr hnames ▸ hname
    · intro hx
      obtain ⟨col, hcol, rfl⟩ := mem_map.mp hx
      obtain ⟨r, hr, hnames, hsame⟩ := hcols col hcol
      exact ⟨r, hr, hnames, hsame ▸ hx, (hcolumns r hr hnames).symm.trans hsame.symm⟩
  have hlow : ∀ x ∈ c.getColumnOriginNameByLowerName st.dbName st.tableName (cols.map lower),
      lower x = x := by
    intro x hx
    obtain ⟨col, -, rfl⟩ := mem_map.mp ((hmem x).mp hx)
    exact hlower col
  obtain ⟨columnPrivs, hgrant, hready', hpolicy⟩ :=
    grantColumnPriv_spec h hlow (nodup_originNames h) hready v
  refine ⟨columnPrivs, hgrant, hready', hpolicy.trans ?_⟩
  funext g col
  simp only [hmem]

lemma grantColumnElems_spec (hcolumns : ColumnsLower c t)
  (hready : PrivsReady c t) (hcols : ∀ p ∈ privs, ColsExist c t p.2) {P : Policy}
  (hP : P.column = (policyOf c t).column) :
  ∃ columnPrivs, (privs.map visibilityElem).foldlM (grantColumnElem st u) c =
      .ok {c with columnPrivs} ∧ PrivsReady {c with columnPrivs} t ∧
    (policyOf {c with columnPrivs} t).column =
      (privs.foldl (Policy.grant lower (grantee (.insensitive lower) u)) P).column := by
  induction privs generalizing c P with
  | nil => exact ⟨c.columnPrivs, rfl, hready, hP.symm⟩
  | cons p privs ih =>
    rw [map_cons, foldlM_cons, foldl_cons]
    have hrest : ∀ p' ∈ privs, ColsExist c t p'.2 :=
      fun p' hp' => hcols p' (mem_cons_of_mem p hp')
    by_cases hp : p.2 = []
    · have hstep : grantColumnElem st u c (visibilityElem p) = .ok c := by
        rw [grantColumnElem, if_pos (show (visibilityElem p).cols = [] from hp)]
        rfl
      have hP' :
        (P.grant lower (grantee (.insensitive lower) u) p).column = (policyOf c t).column := by
        rw [column_grant, if_pos hp, hP]
      rw [hstep]
      exact ih hcolumns hready hrest hP'
    · obtain ⟨columnPrivs, hgrant, hready', hpolicy⟩ :=
        grantColumns_spec h hlower hcolumns hready (hcols p mem_cons_self) p.1
      have hstep : grantColumnElem st u c (visibilityElem p) = .ok {c with columnPrivs} := by
        rw [grantColumnElem, if_neg (show (visibilityElem p).cols ≠ [] from hp)]
        exact bind_eq_ok.mpr ⟨(), checkColumnsExist_eq_ok h hlower (hcols p mem_cons_self), hgrant⟩
      have hP' : (P.grant lower (grantee (.insensitive lower) u) p).column =
          (policyOf {c with columnPrivs} t).column := by
        rw [column_grant, if_neg hp, hP, hpolicy]
      rw [hstep]
      exact ih (c := {c with columnPrivs}) hcolumns hready' hrest hP'

lemma revoked_iff (r : ColumnPriv) : revoked lower st u v cols r = true ↔
    r.key (.insensitive lower) = userKey lower t u (lower r.columnName) ∧
      r.visibilityPriv = some v ∧ lower r.columnName ∈ cols.map lower := by
  have hin : (Collation.insensitive lower).isIn (lower r.columnName) (cols.map lower) = true ↔
      lower r.columnName ∈ cols.map lower := by
    rw [Collation.isIn, any_eq_true]
    constructor
    · rintro ⟨colName, hname, hsame⟩
      obtain ⟨col, -, rfl⟩ := mem_map.mp hname
      have hsame : lower (lower col) = lower (lower r.columnName) := of_decide_eq_true hsame
      rw [hlower, hlower] at hsame
      exact hsame ▸ hname
    · exact fun hname => ⟨_, hname, decide_eq_true rfl⟩
  rw [revoked, Bool.and_eq_true, Bool.and_eq_true, hin, h.columnPriv_matches, decide_eq_true_iff,
    and_assoc]
  rfl

section
variable (hready : PrivsReady c t)
include hready

lemma mem_exist_iff {colName : String} (hname : colName ∈ cols.map lower) :
  colName ∈ (c.columnPrivs.rows.filter (revoked lower st u v cols)).map (·.columnName) ↔
    (policyOf c t).column (grantee (.insensitive lower) u) colName = some v := by
  have hlow : lower colName = colName := by
    obtain ⟨col, -, rfl⟩ := mem_map.mp hname
    exact hlower col
  rw [mem_map]
  constructor
  · rintro ⟨r, hr, rfl⟩
    obtain ⟨hr, hcond⟩ := mem_filter.mp hr
    obtain ⟨hkey, hv, -⟩ := (revoked_iff h hlower r).mp hcond
    rw [hlow] at hkey
    have hfind := find?_eq_some.mpr ⟨hr, hkey⟩
    rw [userKey] at hfind
    simp [policyOf, hfind, hv]
  · intro hheld
    obtain ⟨r, hfind, hv⟩ := Option.bind_eq_some_iff.mp hheld
    obtain ⟨hr, hkey⟩ := find?_eq_some.mp hfind
    have hcol : lower r.columnName = colName := congrArg (fun k => k.2.2.2.2) hkey
    have hstored : lower r.columnName = r.columnName :=
      (hready r hr (names_of_columnKey hkey)).1
    refine ⟨r, mem_filter.mpr ⟨hr, (revoked_iff h hlower r).mpr ⟨?_, hv, ?_⟩⟩, ?_⟩
    · rw [hcol]
      exact hkey
    · rw [hcol]
      exact hname
    · exact hstored.symm.trans hcol

lemma revokeColumnPriv_of_held (hcols : ColsExist c t cols)
  (hheld : ∀ col ∈ cols.map lower, (policyOf c t).column (grantee (.insensitive lower) u) col =
    some v) :
  ∃ columnPrivs, revokeColumnPriv c st u ⟨.visibility v, cols⟩ = .ok {c with columnPrivs} ∧
    PrivsReady {c with columnPrivs} t ∧ (policyOf {c with columnPrivs} t).column = fun g col =>
      if g = grantee (.insensitive lower) u ∧ col ∈ cols.map lower then none
      else (policyOf c t).column g col := by
  refine ⟨c.columnPrivs.deleteWhere (revoked lower st u v cols), ?_, ?_, ?_⟩
  · refine bind_eq_ok.mpr ⟨(), checkColumnsExist_eq_ok h hlower hcols, ?_⟩
    refine bind_eq_ok.mpr ⟨(), forM_ok_of_forall fun colName hname => ensure_eq_ok.mpr ?_, rfl⟩
    exact (mem_exist_iff h hlower hready hname).mpr (hheld colName hname)
  · intro r hr
    exact hready r (mem_deleteWhere.mp hr).1
  · funext g col
    simp only [policyOf, find?_deleteWhere]
    by_cases hgc : g = grantee (.insensitive lower) u ∧ col ∈ cols.map lower
    · rw [if_pos hgc]
      obtain ⟨r, hfind, hv⟩ := Option.bind_eq_some_iff.mp (hheld col hgc.2)
      have hkey := key_of_find? hfind
      have hcol : lower r.columnName = col := congrArg (fun k => k.2.2.2.2) hkey
      have hrevoked : revoked lower st u v cols r = true := by
        rw [revoked_iff h hlower, hcol]
        exact ⟨hkey, hv, hgc.2⟩
      rw [hgc.1, hfind]
      simp [hrevoked]
    · rw [if_neg hgc]
      cases hfind : c.columnPrivs.find? (columnKey (.insensitive lower) t g col) with
      | none => rfl
      | some r =>
        have hrevoked : revoked lower st u v cols r = false := by
          rw [Bool.eq_false_iff]
          intro hrevoked
          obtain ⟨hkey, -, hname⟩ := (revoked_iff h hlower r).mp hrevoked
          obtain ⟨hg, rfl⟩ := columnKey_inj.mp ((key_of_find? hfind).symm.trans hkey)
          exact hgc ⟨hg, hname⟩
        rw [Option.filter_some_pos (by rw [hrevoked]; rfl)]

lemma revokeColumnPriv_of_not_held
  (hheld : ¬∀ col ∈ cols.map lower, (policyOf c t).column (grantee (.insensitive lower) u) col =
    some v) :
  ∃ e, revokeColumnPriv c st u ⟨.visibility v, cols⟩ = .error e := by
  cases hrun : revokeColumnPriv c st u ⟨.visibility v, cols⟩ with
  | error e => exact ⟨e, rfl⟩
  | ok c' =>
    obtain ⟨_, -, hrun⟩ := bind_eq_ok.mp hrun
    obtain ⟨_, hloop, -⟩ := bind_eq_ok.mp hrun
    refine absurd (fun col hcol => ?_) hheld
    exact (mem_exist_iff h hlower hready hcol).mp (ensure_eq_ok.mp (forM_ok_mem hloop hcol))

lemma revokeElem_spec {p : Visibility × List String} (hcols : ColsExist c t p.2) :
  (∀ P', (policyOf c t).revoke lower (grantee (.insensitive lower) u) p = some P' →
    ∃ tablePrivs columnPrivs,
      revokeElem st u c (visibilityElem p) = .ok {c with tablePrivs, columnPrivs} ∧
      PrivsReady {c with tablePrivs, columnPrivs} t ∧
      policyOf {c with tablePrivs, columnPrivs} t = P') ∧
  ((policyOf c t).revoke lower (grantee (.insensitive lower) u) p = none →
    ∃ e, revokeElem st u c (visibilityElem p) = .error e) := by
  obtain ⟨v, cols⟩ := p
  by_cases hp : cols = []
  · subst hp
    obtain ⟨tablePrivs, hrun, hpolicy⟩ := revokeTablePriv_spec (c := c) h v
    constructor
    · intro P' hP'
      rw [Policy.revoke, if_pos rfl] at hP'
      cases hP'
      exact ⟨tablePrivs, c.columnPrivs, hrun, hready, Policy.ext hpolicy rfl⟩
    · intro hP'
      rw [Policy.revoke, if_pos rfl] at hP'
      cases hP'
  · have helem : revokeElem st u c (visibilityElem (v, cols)) =
        revokeColumnPriv c st u ⟨.visibility v, cols⟩ := if_neg hp
    by_cases hheld : ∀ col ∈ cols.map lower,
        (policyOf c t).column (grantee (.insensitive lower) u) col = some v
    · constructor
      · intro P' hP'
        rw [Policy.revoke, if_neg hp, if_pos hheld] at hP'
        cases hP'
        obtain ⟨columnPrivs, hrun, hready', hpolicy⟩ :=
          revokeColumnPriv_of_held h hlower hready hcols hheld
        exact ⟨c.tablePrivs, columnPrivs, helem.trans hrun, hready', Policy.ext rfl hpolicy⟩
      · intro hP'
        rw [Policy.revoke, if_neg hp, if_pos hheld] at hP'
        cases hP'
    · constructor
      · intro P' hP'
        rw [Policy.revoke, if_neg hp, if_neg hheld] at hP'
        cases hP'
      · intro _
        rw [helem]
        exact revokeColumnPriv_of_not_held h hlower hready hheld

lemma revokeElems_spec (hcols : ∀ p ∈ privs, ColsExist c t p.2) :
  (∀ P', privs.foldlM (Policy.revoke lower (grantee (.insensitive lower) u)) (policyOf c t) =
      some P' → ∃ tablePrivs columnPrivs, (privs.map visibilityElem).foldlM (revokeElem st u) c =
        .ok {c with tablePrivs, columnPrivs} ∧ PrivsReady {c with tablePrivs, columnPrivs} t ∧
      policyOf {c with tablePrivs, columnPrivs} t = P') ∧
  (privs.foldlM (Policy.revoke lower (grantee (.insensitive lower) u)) (policyOf c t) = none →
    ∃ e, (privs.map visibilityElem).foldlM (revokeElem st u) c = .error e) := by
  induction privs generalizing c with
  | nil =>
    constructor
    · intro P' hP'
      exact ⟨c.tablePrivs, c.columnPrivs, rfl, hready, Option.some.inj hP'⟩
    · intro hP'
      cases hP'
  | cons p privs ih =>
    obtain ⟨hsome, hnone⟩ := revokeElem_spec h hlower hready (hcols p mem_cons_self)
    have hrest : ∀ p' ∈ privs, ColsExist c t p'.2 :=
      fun p' hp' => hcols p' (mem_cons_of_mem p hp')
    rw [map_cons, foldlM_cons, foldlM_cons]
    cases hstep : (policyOf c t).revoke lower (grantee (.insensitive lower) u) p with
    | none =>
      obtain ⟨e, he⟩ := hnone hstep
      constructor
      · intro P' hP'
        cases hP'
      · intro _
        exact ⟨e, by rw [he]; rfl⟩
    | some P₁ =>
      obtain ⟨tablePrivs, columnPrivs, hrun, hready₁, rfl⟩ := hsome P₁ hstep
      rw [hrun]
      exact ih (c := {c with tablePrivs, columnPrivs}) hready₁ hrest

end

end

end Scql.Scdb
