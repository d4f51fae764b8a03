import Scql.StatusConvergence

/-! # When metadata converges

After a status check the tables and privileges stored for a party are those it told of exactly if
nothing that differs is hidden from the checksums and nothing is granted locally that the party
does not tell of. -/
namespace Scql.Broker.MetaStorage

open MapRange Fallible List

/-- The tables and privileges stored for a party are those it told of. -/
structure Converged (db : Database) (projectID : String) (party : PartyCode)
    (rem : Database.ProjectMeta) : Prop where
  tables : ∀ m, m ∈ heldTables db projectID party ↔ m ∈ rem.tables
  ccls : ∀ c, c ∈ heldPrivs db projectID party ↔ c ∈ rem.ccls

/-- When an update makes a local table and its privileges equal to the remote ones: the checksums
tell the tables apart if they differ, the columns of a table that is replaced are in the order of
their names, which is how they are stored, and every privilege is among the remote ones, unless
the checksums hide a difference. -/
def Mergeable (digest : String → String) (lt rt : TableMeta) (lc rc : List ColumnPriv) : Prop :=
  if getTableChecksum digest lt = getTableChecksum digest rt then
    lt = rt ∧ if getCCLsChecksum digest lc = getCCLsChecksum digest rc then lc ⊆ rc ∧ rc ⊆ lc
      else ∀ c ∈ lc, ∃ d ∈ rc, d.toColumnPrivIdentifier = c.toColumnPrivIdentifier
  else sortColumns rt = rt

instance (digest : String → String) (lt rt : TableMeta) (lc rc : List ColumnPriv) :
    Decidable (Mergeable digest lt rt lc rc) := by
  unfold Mergeable
  infer_instance

def StatusMergeable (digest : String → String) (projectID : String) (party : PartyCode)
    (db rdb : Database) : Prop :=
  ∀ lt ∈ heldTables db projectID party, ∀ rt ∈ heldTables rdb projectID party,
    lt.table.tableName = rt.table.tableName → Mergeable digest lt rt
      (db.view lt.table.toTableIdentifier).privs (rdb.view rt.table.toTableIdentifier).privs

instance (digest : String → String) (projectID : String) (party : PartyCode) (db rdb : Database) :
    Decidable (StatusMergeable digest projectID party db rdb) := by
  unfold StatusMergeable
  infer_instance

variable {toLower digest : String → String} {o : RangeOrder} {projectID : String}
  {party : PartyCode} {loc rem : Database.ProjectMeta} {db rdb db' : Database} {n : String}
  {m rt : TableMeta}

structure SameAt (projectID : String) (party : PartyCode) (db rdb : Database) (n : String) :
    Prop where
  table : ∀ m : TableMeta, m.table.tableName = n →
    (m ∈ heldTables db projectID party ↔ m ∈ heldTables rdb projectID party)
  priv : ∀ c : ColumnPriv, c.toTableIdentifier = ⟨projectID, n⟩ →
    (c ∈ heldPrivs db projectID party ↔ c ∈ heldPrivs rdb projectID party)

lemma sameAt_of_none (hdb : ∀ m ∈ heldTables db projectID party, m.table.tableName ≠ n)
  (hrdb : ∀ m ∈ heldTables rdb projectID party, m.table.tableName ≠ n) :
    SameAt projectID party db rdb n := by
  refine ⟨fun m hm => ⟨fun h => absurd hm (hdb m h), fun h => absurd hm (hrdb m h)⟩, fun c hc => ?_⟩
  rw [mem_heldPrivs, mem_heldPrivs, hc]
  constructor
  · rintro ⟨⟨m, hm, hid⟩, -⟩
    exact absurd (congrArg TableIdentifier.tableName hid) (hdb m hm)
  · rintro ⟨⟨m, hm, hid⟩, -⟩
    exact absurd (congrArg TableIdentifier.tableName hid) (hrdb m hm)

section
variable (hdb : Sound toLower db)
include hdb

lemma sameAt_iff (hrdb : Sound toLower rdb) (hm : m ∈ heldTables db projectID party)
  (hmn : m.table.tableName = n) (hrt : rt ∈ heldTables rdb projectID party)
  (hrtn : rt.table.tableName = n) :
  SameAt projectID party db rdb n ↔ m = rt ∧
    ∀ c, c ∈ (db.view ⟨projectID, n⟩).privs ↔ c ∈ (rdb.view ⟨projectID, n⟩).privs := by
  have hmid : m.table.toTableIdentifier = ⟨projectID, n⟩ :=
    hmn ▸ projectID_of_mem_heldTables hm
  have hrtid : rt.table.toTableIdentifier = ⟨projectID, n⟩ :=
    hrtn ▸ projectID_of_mem_heldTables hrt
  have hpriv : ∀ c : ColumnPriv, c.toTableIdentifier = ⟨projectID, n⟩ →
      (c ∈ heldPrivs db projectID party ↔ c ∈ (db.view ⟨projectID, n⟩).privs) := by
    intro c hc
    rw [mem_heldPrivs, hc]
    exact and_iff_right ⟨m, hm, hmid⟩
  have hrpriv : ∀ c : ColumnPriv, c.toTableIdentifier = ⟨projectID, n⟩ →
      (c ∈ heldPrivs rdb projectID party ↔ c ∈ (rdb.view ⟨projectID, n⟩).privs) := by
    intro c hc
    rw [mem_heldPrivs, hc]
    exact and_iff_right ⟨rt, hrt, hrtid⟩
  constructor
  · intro h
    refine ⟨eq_of_mem_heldTables hrdb ((h.table m hmn).mp hm) hrt (hmn.trans hrtn.symm),
      fun c => ⟨fun hc => ?_, fun hc => ?_⟩⟩
    · have hid := (mem_privs_view.mp hc).2
      exact (hrpriv c hid).mp ((h.priv c hid).mp ((hpriv c hid).mpr hc))
    · have hid := (mem_privs_view.mp hc).2
      exact (hpriv c hid).mp ((h.priv c hid).mpr ((hrpriv c hid).mpr hc))
  · rintro ⟨rfl, hprivs⟩
    refine ⟨fun x hx => ⟨fun h => ?_, fun h => ?_⟩, fun c hc => ?_⟩
    · rw [eq_of_mem_heldTables hdb h hm (hx.trans hmn.symm)]
      exact hrt
    · rw [eq_of_mem_heldTables hrdb h hrt (hx.trans hrtn.symm)]
      exact hm
    · rw [hpriv c hc, hrpriv c hc]
      exact hprivs c

lemma Replaced.mem_heldTables {ccls : List ColumnPriv} {t : TableMeta}
  (h : Replaced ccls t (db.view ⟨projectID, n⟩)) (howner : t.table.owner = party)
  (hn : t.table.tableName = n) : t ∈ heldTables db projectID party := by
  subst hn
  refine (MetaStorage.mem_heldTables hdb).mpr ⟨h.table, howner, ?_⟩
  rw [← columnMetas_columnRows t, TableView.columnMetas, TableView.columnMetas, h.columns]
  rfl

lemma mem_heldTables_of_view (hdb' : Sound toLower db') (hm : m ∈ heldTables db projectID party)
  (hmn : m.table.tableName = n)
  (htable : (db'.view ⟨projectID, n⟩).table = (db.view ⟨projectID, n⟩).table)
  (hcolumns : (db'.view ⟨projectID, n⟩).columns = (db.view ⟨projectID, n⟩).columns) :
  m ∈ heldTables db' projectID party := by
  subst hmn
  obtain ⟨hmt, howner, hmc⟩ := (mem_heldTables hdb).mp hm
  refine (mem_heldTables hdb').mpr ⟨htable.trans hmt, howner, ?_⟩
  rw [hmc, TableView.columnMetas, TableView.columnMetas, hcolumns]

lemma forall_mergeable (hrdb : Sound toLower rdb) {lt : TableMeta}
  (hlt : lt ∈ heldTables db projectID party) (hltn : lt.table.tableName = n)
  (hrt : rt ∈ heldTables rdb projectID party) (hrtn : rt.table.tableName = n)
  {lc rc : List ColumnPriv} : (∀ lt ∈ heldTables db projectID party, lt.table.tableName = n →
    ∀ rt ∈ heldTables rdb projectID party, rt.table.tableName = n → Mergeable digest lt rt lc rc) ↔
      Mergeable digest lt rt lc rc := by
  refine ⟨fun h => h lt hlt hltn rt hrt hrtn, fun h lt' hlt' hln' rt' hrt' hn' => ?_⟩
  rw [eq_of_mem_heldTables hdb hlt' hlt (hln'.trans hltn.symm),
    eq_of_mem_heldTables hrdb hrt' hrt (hn'.trans hrtn.symm)]
  exact h

end

lemma Replaced.privs_iff {t : TableMeta} {v : TableView}
    (h : Replaced (rdb.view ⟨projectID, n⟩).privs t v)
  (hid : t.table.toTableIdentifier = ⟨projectID, n⟩) (c : ColumnPriv) :
  c ∈ v.privs ↔ c ∈ (rdb.view ⟨projectID, n⟩).privs := by
  rw [h.privs, hid]
  exact and_iff_left_of_imp fun hc => (mem_privs_view.mp hc).2

/-- What was stored under a name is equal to what was told exactly if it was mergeable. -/
lemma Outcome.sameAt_iff (hdb : Sound toLower db) (hrdb : Sound toLower rdb)
    (hdb' : Sound toLower db')
  (h : Outcome digest (heldTables db projectID party) (heldTables rdb projectID party) n
    (db.view ⟨projectID, n⟩) (rdb.view ⟨projectID, n⟩) (db'.view ⟨projectID, n⟩)) :
  SameAt projectID party db' rdb n ↔ ∀ lt ∈ heldTables db projectID party,
    lt.table.tableName = n → ∀ rt ∈ heldTables rdb projectID party, rt.table.tableName = n →
      Mergeable digest lt rt (db.view ⟨projectID, n⟩).privs (rdb.view ⟨projectID, n⟩).privs := by
  cases h with
  | keep hl hx h =>
    refine iff_of_true (sameAt_of_none (fun m hm hmn => ?_) hx)
      fun lt hlt hltn => absurd hltn (hl lt hlt)
    exact hl m (mem_heldTables_of_view hdb' hdb hm hmn (by rw [h]) (by rw [h])) hmn
  | drop lt hl hln hx h =>
    refine iff_of_true (sameAt_of_none (fun m hm hmn => ?_) hx)
      fun _ _ _ rt hrt hrtn => absurd hrtn (hx rt hrt)
    have htable := ((mem_heldTables hdb').mp hm).1
    rw [hmn, h] at htable
    cases htable
  | add rt hl hx hxn h =>
    have hid : rt.table.toTableIdentifier = ⟨projectID, n⟩ := hxn ▸ projectID_of_mem_heldTables hx
    have hm : rt ∈ heldTables db' projectID party :=
      h.mem_heldTables hdb' ((mem_heldTables hrdb).mp hx).2.1 hxn
    refine iff_of_true ((MetaStorage.sameAt_iff hdb' hrdb hm hxn hx hxn).mpr ⟨rfl, ?_⟩)
      fun lt hlt hltn => absurd hltn (hl lt hlt)
    exact h.privs_iff hid
  | replace lt rt hl hln hx hxn hsum h =>
    have hid : rt.table.toTableIdentifier = ⟨projectID, n⟩ := hxn ▸ projectID_of_mem_heldTables hx
    have hm : sortColumns rt ∈ heldTables db' projectID party :=
      h.mem_heldTables hdb' ((mem_heldTables hrdb).mp hx).2.1 hxn
    rw [MetaStorage.sameAt_iff hdb' hrdb hm hxn hx hxn, forall_mergeable hdb hrdb hl hln hx hxn,
      Mergeable, if_neg hsum]
    exact and_iff_left (h.privs_iff hid)
  | grant lt rt hl hln hx hxn hsum hccl htable hcolumns h =>
    have hm := mem_heldTables_of_view hdb hdb' hl hln htable hcolumns
    rw [MetaStorage.sameAt_iff hdb' hrdb hm hln hx hxn, forall_mergeable hdb hrdb hl hln hx hxn,
      Mergeable, if_pos hsum, if_neg hccl]
    refine and_congr_right fun heq => ⟨fun hall c hc => ?_, fun hall c => ?_⟩
    · by_contra hnone
      have hkey : ∀ d ∈ (rdb.view ⟨projectID, n⟩).privs,
          d.toColumnPrivIdentifier ≠ c.toColumnPrivIdentifier :=
        fun d hd hdc => hnone ⟨d, hd, hdc⟩
      exact hkey c ((hall c).mp ((h heq c).mpr (.inr ⟨hc, hkey⟩))) rfl
    · rw [h heq c]
      refine or_iff_left ?_
      rintro ⟨hc, hkey⟩
      obtain ⟨d, hd, hdc⟩ := hall c hc
      exact hkey d hd hdc
  | same lt rt hl hln hx hxn hsum hccl h =>
    have hm := mem_heldTables_of_view hdb hdb' hl hln (by rw [h]) (by rw [h])
    rw [MetaStorage.sameAt_iff hdb' hrdb hm hln hx hxn, forall_mergeable hdb hrdb hl hln hx hxn,
      Mergeable, if_pos hsum, if_pos hccl, h]
    exact and_congr_right fun _ =>
      ⟨fun hall => ⟨fun c hc => (hall c).mp hc, fun c hc => (hall c).mpr hc⟩,
      fun hall c => ⟨fun hc => hall.1 hc, fun hc => hall.2 hc⟩⟩

lemma Told.mem_ccls_iff (h : Told rdb projectID party rem)
  (howned : ∀ c ∈ rem.ccls, c.tableName ∈ rem.tables.map (·.table.tableName)) (c : ColumnPriv) :
  c ∈ rem.ccls ↔ c ∈ heldPrivs rdb projectID party := by
  rw [heldPrivs, mem_filter, decide_eq_true_eq, ← h.tables]
  constructor
  · intro hc
    exact ⟨(h.mem_ccls hc).1, (h.mem_ccls hc).2, howned c hc⟩
  · rintro ⟨hc, hproject, hname⟩
    rw [h.ccls, Database.listColumnConstraints, mem_filter]
    exact ⟨hc, by simpa [selects_eq_true h.named] using ⟨hproject, .inr (mem_map.mp hname)⟩⟩

lemma converged_iff (hrem : Told rdb projectID party rem)
  (howned : ∀ c ∈ rem.ccls, c.tableName ∈ rem.tables.map (·.table.tableName)) :
  Converged db projectID party rem ↔ ∀ n, SameAt projectID party db rdb n := by
  constructor
  · intro h n
    refine ⟨fun m _ => by rw [h.tables m, hrem.tables], fun c _ => ?_⟩
    rw [h.ccls c, hrem.mem_ccls_iff howned]
  · intro h
    refine ⟨fun m => by rw [(h _).table m rfl, hrem.tables], fun c => ?_⟩
    rw [hrem.mem_ccls_iff howned]
    by_cases hproject : c.projectID = projectID
    · exact (h c.tableName).priv c (TableIdentifier.ext hproject rfl)
    · rw [heldPrivs, heldPrivs, mem_filter, mem_filter]
      simp [hproject]

lemma sound_updateStatus (hdb : Sound toLower db) (hloc : Told db projectID party loc)
  (h : updateStatus toLower digest o loc rem party db = .ok db') : Sound toLower db' :=
  (writes_updateStatus (hloc.project ▸ Set.mem_singleton projectID) h).sound
    (notMem_singleton hloc.named) hdb

/-- Sides that converged have equal checksums, as long as no two privileges have the same sort
key. -/
lemma Converged.checksums_eq (h : Converged db projectID party rem)
  (hkeys : ((columnPrivs2ColumnControls (heldPrivs db projectID party)).map
    ColumnControl.key).Nodup)
  (hkeys' : ((columnPrivs2ColumnControls rem.ccls).map ColumnControl.key).Nodup) :
  (∀ lt ∈ heldTables db projectID party, ∀ rt ∈ rem.tables,
    lt.table.tableName = rt.table.tableName →
      getTableChecksum digest lt = getTableChecksum digest rt) ∧
  getCCLsChecksum digest (heldPrivs db projectID party) = getCCLsChecksum digest rem.ccls := by
  constructor
  · intro lt hlt rt hrt hname
    have hrt := (h.tables rt).mpr hrt
    have hid : lt.table.toTableIdentifier = rt.table.toTableIdentifier := by
      rw [projectID_of_mem_heldTables hlt, projectID_of_mem_heldTables hrt, hname]
    rw [inj_on_of_nodup_map (nodup_heldTables db projectID party) hlt hrt hid]
  · have hmem : ∀ c, c ∈ columnPrivs2ColumnControls (heldPrivs db projectID party) ↔
        c ∈ columnPrivs2ColumnControls rem.ccls := by
      intro c
      rw [columnPrivs2ColumnControls, columnPrivs2ColumnControls, mem_map, mem_map]
      exact exists_congr fun p => and_congr_left fun _ => h.ccls p
    rw [getCCLsChecksum, getCCLsChecksum, ChecksumHasher.infeedCCLs, ChecksumHasher.infeedCCLs,
      insertionSort_congr hkeys hkeys' hmem]

lemma updateStatus_converged_iff (hdb : Sound toLower db) (hrdb : Sound toLower rdb)
  (hloc : Told db projectID party loc) (hrem : Told rdb projectID party rem)
  (howned : ∀ c ∈ rem.ccls, c.tableName ∈ rem.tables.map (·.table.tableName))
  (h : updateStatus toLower digest o loc rem party db = .ok db') :
  Converged db' projectID party rem ↔ StatusMergeable digest projectID party db rdb := by
  have hdb' := sound_updateStatus hdb hloc h
  have hname := fun n => by
    have hout := updateStatus_outcome hdb hrdb hloc hrem h n
    rw [hloc.tables, hrem.tables] at hout
    exact hout.sameAt_iff hdb hrdb hdb'
  rw [converged_iff hrem howned, forall_congr' hname]
  constructor
  · intro h lt hlt rt hrt hnames
    rw [projectID_of_mem_heldTables hlt, projectID_of_mem_heldTables hrt, ← hnames]
    exact h _ lt hlt rfl rt hrt hnames.symm
  · intro h n lt hlt hltn rt hrt hrtn
    have hmerge := h lt hlt rt hrt (hltn.trans hrtn.symm)
    rw [projectID_of_mem_heldTables hlt, projectID_of_mem_heldTables hrt, hltn, hrtn] at hmerge
    exact hmerge

structure SameHeld (projectID : String) (party : PartyCode) (db db' : Database) : Prop where
  tables : ∀ m, m ∈ heldTables db' projectID party ↔ m ∈ heldTables db projectID party
  privs : ∀ m ∈ heldTables db projectID party,
    (db'.view m.table.toTableIdentifier).privs = (db.view m.table.toTableIdentifier).privs

variable {q : String} {p : PartyCode} {db'' : Database}

lemma SameHeld.refl (projectID : String) (party : PartyCode) (db : Database) :
  SameHeld projectID party db db :=
  ⟨fun _ => Iff.rfl, fun _ _ => rfl⟩

section
variable (h : SameHeld projectID party db db')
include h

lemma SameHeld.trans (h' : SameHeld projectID party db' db'') : SameHeld projectID party db db'' :=
  ⟨fun m => (h'.tables m).trans (h.tables m),
    fun m hm => (h'.privs m ((h.tables m).mpr hm)).trans (h.privs m hm)⟩

lemma SameHeld.converged_iff :
  Converged db' projectID party rem ↔ Converged db projectID party rem := by
  have hprivs : ∀ c, c ∈ heldPrivs db' projectID party ↔ c ∈ heldPrivs db projectID party := by
    intro c
    rw [mem_heldPrivs, mem_heldPrivs]
    constructor
    · rintro ⟨⟨m, hm, hid⟩, hc⟩
      have hm := (h.tables m).mp hm
      rw [← hid, h.privs m hm] at hc
      exact ⟨⟨m, hm, hid⟩, hid ▸ hc⟩
    · rintro ⟨⟨m, hm, hid⟩, hc⟩
      rw [← hid, ← h.privs m hm] at hc
      exact ⟨⟨m, (h.tables m).mpr hm, hid⟩, hid ▸ hc⟩
  exact ⟨fun hc => ⟨fun m => (h.tables m).symm.trans (hc.tables m),
      fun c => (hprivs c).symm.trans (hc.ccls c)⟩,
    fun hc => ⟨fun m => (h.tables m).trans (hc.tables m), fun c => (hprivs c).trans (hc.ccls c)⟩⟩

lemma SameHeld.statusMergeable_iff :
  StatusMergeable digest projectID party db' rdb ↔
    StatusMergeable digest projectID party db rdb := by
  constructor
  · intro hmerge lt hlt
    rw [← h.privs lt hlt]
    exact hmerge lt ((h.tables lt).mpr hlt)
  · intro hmerge lt hlt
    have hlt := (h.tables lt).mp hlt
    rw [h.privs lt hlt]
    exact hmerge lt hlt

end

lemma sameHeld_of_view (hdb : Sound toLower db) (hdb' : Sound toLower db')
  (h : ∀ n, db'.view ⟨projectID, n⟩ = db.view ⟨projectID, n⟩ ∨
    (∀ t, (db.view ⟨projectID, n⟩).table = some t → t.owner ≠ party) ∧
      ∀ t, (db'.view ⟨projectID, n⟩).table = some t → t.owner ≠ party) : SameHeld projectID party db
        db' := by
  constructor
  · intro m
    rw [mem_heldTables hdb, mem_heldTables hdb']
    rcases h m.table.tableName with h | ⟨hno, hno'⟩
    · rw [h]
    · exact iff_of_false (fun hm => hno' _ hm.1 hm.2.1) fun hm => hno _ hm.1 hm.2.1
  · intro m hm
    rw [projectID_of_mem_heldTables hm]
    have hm := (mem_heldTables hdb).mp hm
    rcases h m.table.tableName with h | ⟨hno, -⟩
    · rw [h]
    · exact absurd hm.2.1 (hno _ hm.1)

/-- An update from one party changes nothing that is held for another, if no table told is held
for another. -/
lemma sameHeld_updateStatus (hdb : Sound toLower db) (hrdb : Sound toLower rdb)
  (hloc : Told db projectID party loc) (hrem : Told rdb projectID party rem)
  (hfree : ∀ rt ∈ rem.tables, ∀ t, (db.view ⟨projectID, rt.table.tableName⟩).table = some t →
    t.owner = party)
  (h : updateStatus toLower digest o loc rem party db = .ok db')
  (hne : (q, p) ≠ (projectID, party)) : SameHeld q p db db' := by
  have hdb' := sound_updateStatus hdb hloc h
  by_cases hq : q = projectID
  swap
  · exact sameHeld_of_view hdb hdb' fun n => .inl (updateStatus_view_other hdb hrdb hloc hrem h hq)
  subst hq
  have hp : party ≠ p := fun heq => hne (heq ▸ rfl)
  have hlocOwner : ∀ lt ∈ loc.tables, ∀ t, (db.view ⟨q, lt.table.tableName⟩).table = some t →
    t.owner = party := by
    intro lt hlt t ht
    rw [hloc.tables, mem_heldTables hdb] at hlt
    obtain rfl := Option.some.inj (hlt.1.symm.trans ht)
    exact hlt.2.1
  have hremOwner : ∀ rt ∈ rem.tables, rt.table.owner = party := by
    intro rt hrt
    rw [hrem.tables, mem_heldTables hrdb] at hrt
    exact hrt.2.1
  have hnot : ∀ {t : Table}, t.owner = party → t.owner ≠ p := fun ht heq => hp (ht.symm.trans heq)
  refine sameHeld_of_view hdb hdb' fun n => ?_
  cases updateStatus_outcome hdb hrdb hloc hrem h n with
  | keep _ _ h | same _ _ _ _ _ _ _ _ h => exact .inl h
  | drop lt hl hln _ h =>
    subst hln
    refine .inr ⟨fun t ht => hnot (hlocOwner lt hl t ht), fun t ht => ?_⟩
    rw [h] at ht
    cases ht
  | add rt _ hx hxn h =>
    subst hxn
    refine .inr ⟨fun t ht => hnot (hfree rt hx t ht), fun t ht => ?_⟩
    obtain rfl := Option.some.inj (h.table.symm.trans ht)
    exact hnot (hremOwner rt hx)
  | replace lt rt hl hln hx _ _ h =>
    subst hln
    refine .inr ⟨fun t ht => hnot (hlocOwner lt hl t ht), fun t ht => ?_⟩
    obtain rfl := Option.some.inj (h.table.symm.trans ht)
    exact hnot (hremOwner rt hx)
  | grant lt _ hl hln _ _ _ _ htable _ _ =>
    subst hln
    refine .inr ⟨fun t ht => hnot (hlocOwner lt hl t ht), fun t ht => ?_⟩
    rw [htable] at ht
    exact hnot (hlocOwner lt hl t ht)

variable {env : Env} {equalConf : String → String → Except String Bool} {remotes : Remotes}
    {self : PartyCode}

lemma getRemoteStatus_ok {rem : Database.ProjectMeta}
  (h : getRemoteStatus remotes projectID party = .ok rem) :
  ∃ rdb, remotes party = .ok rdb ∧ (projectID ≠ "" → Told rdb projectID party rem) ∧
    rem.members = rdb.getProjectMembers projectID ∧
    ∀ c ∈ rem.ccls, c.tableName ∈ rem.tables.map (·.table.tableName) := by
  simp only [getRemoteStatus, bind_eq_ok, pure_eq_ok] at h
  obtain ⟨rdb, hrdb, m, hm, _, howned, rfl⟩ := h
  rw [askInfoAll] at hm
  obtain ⟨_, _, hm⟩ := bind_eq_ok.mp hm
  refine ⟨rdb, hrdb, fun hne => told_getProjectMeta hne hm, ?_, fun c hc => ?_⟩
  · rw [Database.getProjectMeta] at hm
    obtain ⟨proj, _, hm⟩ := bind_eq_ok.mp hm
    cases hm
    rfl
  · rw [checkStatusOwnedBy] at howned
    obtain ⟨_, _, howned⟩ := bind_eq_ok.mp howned
    exact ensure_eq_ok.mp (forM_ok_mem howned hc)

lemma checkConflict_ok (hdb : Sound env.toLower db) {loc rem : Database.ProjectMeta}
  (hloc : Told db projectID party loc)
  (h : checkConflict equalConf loc rem party db = .ok false) : ∀ rt ∈ rem.tables, ∀ t,
    (db.view ⟨projectID, rt.table.tableName⟩).table = some t → t.owner = party := by
  rw [checkConflict] at h
  obtain ⟨conflict, _, h⟩ := bind_eq_ok.mp h
  cases conflict with
  | true => cases h
  | false =>
    intro rt hrt t ht
    have hany := pure_eq_ok.mp h
    rw [hloc.project, any_eq_false] at hany
    have hid := KeyedTable.key_of_find? ht
    have hname : t.tableName = rt.table.tableName := by rw [hid]
    have hmem : (⟨t, (db.view ⟨projectID, t.tableName⟩).columnMetas⟩ : TableMeta) ∈
        (db.getTableMetasByTableNames projectID (rem.tables.map (·.table.tableName))).1 := by
      rw [mem_getTableMetas_iff hdb]
      exact ⟨hname ▸ ht, .inr (hname ▸ mem_map_of_mem hrt), rfl⟩
    simpa using hany _ hmem

variable {members : List PartyCode} {conflict : Bool} {visits : List (String × PartyCode)}
  {proj : Project × List PartyCode} {projects : List (Project × List PartyCode)}

lemma members_of_checkAndUpdateStatusFor
  (h : checkAndUpdateStatusFor env equalConf remotes projectID party db =
    .ok (members, conflict, db'))
  : ∃ rdb, remotes party = .ok rdb ∧ members = rdb.getProjectMembers projectID := by
  simp only [checkAndUpdateStatusFor, bind_eq_ok] at h
  obtain ⟨loc, _, rem, hrem, found, _, h⟩ := h
  obtain ⟨rdb, hrdb, -, hmembers, -⟩ := getRemoteStatus_ok hrem
  cases found with
  | true =>
    cases h
    exact ⟨rdb, hrdb, hmembers⟩
  | false =>
    obtain ⟨db₁, _, h⟩ := bind_eq_ok.mp h
    cases h
    exact ⟨rdb, hrdb, hmembers⟩

lemma checkAndUpdateStatusFor_ok (hne : projectID ≠ "") (hdb : Sound env.toLower db)
  (hremotes : ∀ party rdb, remotes party = .ok rdb → Sound env.toLower rdb)
  (h : checkAndUpdateStatusFor env equalConf remotes projectID party db = .ok (members, false, db'))
  : ∃ rdb rem, remotes party = .ok rdb ∧ getRemoteStatus remotes projectID party = .ok rem ∧
    Sound env.toLower db' ∧
    (Converged db' projectID party rem ↔ StatusMergeable env.digest projectID party db rdb) ∧
    ∀ q p, (q, p) ≠ (projectID, party) → SameHeld q p db db' := by
  simp only [checkAndUpdateStatusFor, bind_eq_ok] at h
  obtain ⟨loc, hloc, rem, hrem, conflict, hconflict, h⟩ := h
  have hloc := told_getProjectMeta hne hloc
  obtain ⟨rdb, hrdb, htold, -, howned⟩ := getRemoteStatus_ok hrem
  have htold := htold hne
  have hsound := hremotes party rdb hrdb
  cases conflict with
  | true => cases h
  | false =>
    obtain ⟨db₁, hupdate, h⟩ := bind_eq_ok.mp h
    cases h
    have hfree := checkConflict_ok hdb hloc hconflict
    exact ⟨rdb, rem, hrdb, hrem, sound_updateStatus hdb hloc hupdate,
      updateStatus_converged_iff hdb hsound hloc htold howned hupdate,
      fun q p hne => sameHeld_updateStatus hdb hsound hloc htold hfree hupdate hne⟩

/-- Checks with several parties, one after the other, without a conflict. -/
inductive Visited (env : Env) (equalConf : String → String → Except String Bool)
    (remotes : Remotes) : List (String × PartyCode) → Database → Database → Prop
  | nil (db : Database) : Visited env equalConf remotes [] db db
  | cons {projectID : String} {party : PartyCode} {members : List PartyCode}
      {visits : List (String × PartyCode)} {db db₁ db' : Database}
      (h : checkAndUpdateStatusFor env equalConf remotes projectID party db =
        .ok (members, false, db₁)) (htail : Visited env equalConf remotes visits db₁ db') :
      Visited env equalConf remotes ((projectID, party)::visits) db db'

lemma Visited.append {visits' : List (String × PartyCode)} {db'' : Database}
  (h : Visited env equalConf remotes visits db db')
  (h' : Visited env equalConf remotes visits' db' db'') :
  Visited env equalConf remotes (visits ++ visits') db db'' := by
  induction h with
  | nil => exact h'
  | cons hstep _ ih => exact .cons hstep (ih h')

section
variable (hremotes : ∀ party rdb, remotes party = .ok rdb → Sound env.toLower rdb)
include hremotes

lemma Visited.sameHeld (h : Visited env equalConf remotes visits db db')
  (hnamed : ∀ v ∈ visits, v.1 ≠ "") (hdb : Sound env.toLower db) {q : String} {p : PartyCode}
  (hnot : (q, p) ∉ visits) : SameHeld q p db db' := by
  induction h with
  | nil db => exact .refl q p db
  | cons hstep _ ih =>
    obtain ⟨hne, hnamed⟩ := forall_mem_cons.mp hnamed
    obtain ⟨-, -, -, -, hdb₁, -, hother⟩ := checkAndUpdateStatusFor_ok hne hdb hremotes hstep
    exact (hother q p (ne_of_not_mem_cons hnot)).trans
      (ih hnamed hdb₁ (not_mem_of_not_mem_cons hnot))

lemma Visited.converged_iff (h : Visited env equalConf remotes visits db db')
  (hnamed : ∀ v ∈ visits, v.1 ≠ "") (hdb : Sound env.toLower db) (hnodup : visits.Nodup)
  (hmem : (projectID, party) ∈ visits) :
  ∃ rdb rem, remotes party = .ok rdb ∧ getRemoteStatus remotes projectID party = .ok rem ∧
    (Converged db' projectID party rem ↔ StatusMergeable env.digest projectID party db rdb) := by
  induction h with
  | nil => cases hmem
  | cons hstep htail ih =>
    obtain ⟨hnot, hnodup⟩ := nodup_cons.mp hnodup
    obtain ⟨hne, hrest⟩ := forall_mem_cons.mp hnamed
    obtain ⟨rdb, rem, hrdb, hrem, hdb₁, hconv, hother⟩ :=
      checkAndUpdateStatusFor_ok hne hdb hremotes hstep
    rcases mem_cons.mp hmem with heq | hmem
    · cases heq
      exact ⟨rdb, rem, hrdb, hrem,
        (htail.sameHeld hremotes hrest hdb₁ hnot).converged_iff.trans hconv⟩
    · obtain ⟨rdb', rem', hrdb', hrem', hconv'⟩ := ih hrest hdb₁ hnodup hmem
      have hsame := hother projectID party fun heq => hnot (heq ▸ hmem)
      exact ⟨rdb', rem', hrdb', hrem', hconv'.trans hsame.statusMergeable_iff⟩

end

def askedParties (remotes : Remotes) (self : PartyCode) (proj : Project × List PartyCode) :
    List PartyCode :=
  if proj.1.creator ≠ self then
    match remotes proj.1.creator with
    | .ok rdb => proj.1.creator::(rdb.getProjectMembers proj.1.id).filter
        (fun m => ¬(m = proj.1.creator ∨ m = self))
    | .error _ => []
  else proj.2.filter (fun m => ¬(m = proj.1.creator ∨ m = self))

lemma visited_of_checkMembers {proj : Project}
  (h : members.foldlM (checkMember env equalConf remotes self proj) (db, conflict) =
    .ok (db', false))
  : conflict = false ∧ Visited env equalConf remotes
    ((members.filter (fun m => ¬(m = proj.creator ∨ m = self))).map (proj.id, ·)) db db' := by
  induction members generalizing db conflict with
  | nil =>
    cases h
    exact ⟨rfl, .nil _⟩
  | cons m members ih =>
    rw [foldlM_cons] at h
    obtain ⟨⟨db₁, c₁⟩, h₁, h⟩ := bind_eq_ok.mp h
    obtain ⟨rfl, htail⟩ := ih h
    rw [checkMember] at h₁
    split at h₁
    · next hskip =>
      cases h₁
      rw [filter_cons_of_neg (by simpa using or_iff_not_imp_left.mp hskip)]
      exact ⟨rfl, htail⟩
    · next hask =>
      obtain ⟨⟨ms, c, db₂⟩, hfor, h₁⟩ := bind_eq_ok.mp h₁
      obtain ⟨rfl, hflag⟩ := Prod.mk.inj (pure_eq_ok.mp h₁)
      obtain ⟨rfl, rfl⟩ := Bool.or_eq_false_iff.mp hflag
      rw [filter_cons_of_pos (by simpa using hask)]
      exact ⟨rfl, .cons hfor htail⟩

lemma visited_of_checkProject
  (h : checkProject env equalConf remotes self (db, conflict) proj = .ok (db', false)) :
  conflict = false ∧ Visited env equalConf remotes
    ((askedParties remotes self proj).map (proj.1.id, ·)) db db' := by
  rw [checkProject] at h
  obtain ⟨⟨members, db₁, c₁⟩, h₁, h⟩ := bind_eq_ok.mp h
  obtain ⟨rfl, htail⟩ := visited_of_checkMembers h
  split at h₁
  · next hcreator =>
    obtain ⟨⟨ms, c, db₂⟩, hfor, h₁⟩ := bind_eq_ok.mp h₁
    obtain ⟨rfl, hst⟩ := Prod.mk.inj (pure_eq_ok.mp h₁)
    obtain ⟨rfl, hflag⟩ := Prod.mk.inj hst
    obtain ⟨rfl, rfl⟩ := Bool.or_eq_false_iff.mp hflag
    obtain ⟨rdb, hrdb, rfl⟩ := members_of_checkAndUpdateStatusFor hfor
    refine ⟨rfl, ?_⟩
    rw [askedParties, if_pos hcreator, hrdb]
    exact .cons hfor htail
  · next hcreator =>
    cases h₁
    refine ⟨rfl, ?_⟩
    rw [askedParties, if_neg hcreator]
    exact htail

lemma visited_of_checkProjects
  (h : projects.foldlM (checkProject env equalConf remotes self) (db, conflict) = .ok (db', false))
  : conflict = false ∧ Visited env equalConf remotes
    (projects.flatMap (fun proj => (askedParties remotes self proj).map
      (proj.1.id, ·))) db db' := by
  induction projects generalizing db conflict with
  | nil =>
    cases h
    exact ⟨rfl, .nil _⟩
  | cons proj projects ih =>
    rw [foldlM_cons] at h
    obtain ⟨⟨db₁, c₁⟩, h₁, h⟩ := bind_eq_ok.mp h
    obtain ⟨rfl, htail⟩ := ih h
    obtain ⟨rfl, hvisited⟩ := visited_of_checkProject h₁
    exact ⟨rfl, hvisited.append htail⟩

lemma nodup_getProjectMembers (db : Database) (hne : projectID ≠ "") :
  (db.getProjectMembers projectID).Nodup := by
  have hnodup : db.members.rows.Nodup := by simpa using db.members.nodup
  rw [Database.getProjectMembers, Nodup, pairwise_map]
  refine (hnodup.filter _).imp_of_mem fun {a b} ha hb hab heq => hab ?_
  have hpa : a.projectID = projectID := by simpa [selects_eq_true hne] using (mem_filter.mp ha).2
  have hpb : b.projectID = projectID := by simpa [selects_eq_true hne] using (mem_filter.mp hb).2
  cases a
  cases b
  cases heq
  cases hpa.trans hpb.symm
  rfl

lemma nodup_askedParties (remotes : Remotes) (self : PartyCode) (hne : proj.1.id ≠ "")
  (h : proj.2.Nodup) :
  (askedParties remotes self proj).Nodup := by
  rw [askedParties]
  split
  · split
    · refine nodup_cons.mpr ⟨?_, (nodup_getProjectMembers _ hne).filter _⟩
      simp
    · exact nodup_nil
  · exact h.filter _

lemma Sound.ne_of_listProjects (hdb : Sound toLower db) {projectIDs : List String}
  (h : db.listProjects projectIDs = .ok projects) (hproj : proj ∈ projects) : proj.1.id ≠ "" := by
  rw [Database.listProjects] at h
  obtain ⟨_, _, h⟩ := bind_eq_ok.mp h
  cases h
  obtain ⟨row, hrow, rfl⟩ := mem_map.mp hproj
  exact KeyedTable.find?_eq_none.mp hdb.named row (mem_filter.mp hrow).1

lemma nodup_visits (hdb : Sound toLower db) {projectIDs : List String}
  (h : db.listProjects projectIDs = .ok projects) :
  (projects.flatMap (fun proj => (askedParties remotes self proj).map (proj.1.id, ·))).Nodup := by
  have hnamed := fun proj (hproj : proj ∈ projects) => hdb.ne_of_listProjects h hproj
  rw [Database.listProjects] at h
  obtain ⟨_, _, h⟩ := bind_eq_ok.mp h
  cases h
  rw [nodup_flatMap]
  constructor
  · intro proj hproj
    have hne := hnamed proj hproj
    obtain ⟨row, -, rfl⟩ := mem_map.mp hproj
    exact (nodup_askedParties remotes self hne (nodup_getProjectMembers db hne)).map
      fun _ _ heq => (Prod.mk.inj heq).2
  · rw [pairwise_map]
    have hids := db.projects.nodup
    rw [Nodup, pairwise_map] at hids
    refine (hids.filter _).imp fun {a b} hne => ?_
    refine disjoint_left.mpr fun v hv hv' => hne ?_
    obtain ⟨_, -, rfl⟩ := mem_map.mp hv
    obtain ⟨_, -, heq⟩ := mem_map.mp hv'
    exact (Prod.mk.inj heq).1.symm

/-- After a status check without a conflict, what is stored for each party that was asked is what
it told of exactly if every table both sides had was mergeable. -/
lemma checkAndUpdateStatus_converged_iff (hdb : Sound env.toLower db)
  (hremotes : ∀ party rdb, remotes party = .ok rdb → Sound env.toLower rdb)
  {projectIDs : List String} (hprojects : db.listProjects projectIDs = .ok projects)
  (h : checkAndUpdateStatus env equalConf remotes self projectIDs db = .ok (db', false))
  (hproj : proj ∈ projects) (hparty : party ∈ askedParties remotes self proj) :
  ∃ rdb rem, remotes party = .ok rdb ∧ getRemoteStatus remotes proj.1.id party = .ok rem ∧
    (Converged db' proj.1.id party rem ↔ StatusMergeable env.digest proj.1.id party db rdb) := by
  rw [checkAndUpdateStatus, hprojects] at h
  obtain ⟨-, hvisited⟩ := visited_of_checkProjects h
  refine hvisited.converged_iff hremotes (fun v hv => ?_) hdb (nodup_visits hdb hprojects)
    (mem_flatMap.mpr ⟨proj, hproj, mem_map_of_mem hparty⟩)
  obtain ⟨asked, hasked, hv⟩ := mem_flatMap.mp hv
  obtain ⟨_, -, rfl⟩ := mem_map.mp hv
  exact hdb.ne_of_listProjects hprojects hasked

end Scql.Broker.MetaStorage
