import Mathlib.InformationTheory.Coding.UniquelyDecodable
import Scql.QueryRunner

/-! # What equal checksums say

Two brokers compare checksums instead of rows. The rows are sorted and their fields written one
after the other without separators. The party a privilege is for and the query of a view are not
written, so the checksums tell apart exactly what differs in something else, as long as names do
not run together. -/
namespace Scql.Broker

open MetaStorage InformationTheory Fallible List Function

section Code

variable {α : Type} {S : Set (List α)}

/-- Words of which none begins with another can be read off a text. -/
lemma uniquelyDecodable_of_prefixes (hnil : [] ∉ S) (h : ∀ a ∈ S, ∀ b ∈ S, a <+: b → a = b) :
  UniquelyDecodable S := by
  intro xs
  induction xs with
  | nil =>
    intro ys _ hys heq
    cases ys with
    | nil => rfl
    | cons y ys =>
      have hy : y = [] := (append_eq_nil_iff.mp heq.symm).1
      exact absurd (hy ▸ hys y mem_cons_self) hnil
  | cons x xs ih =>
    intro ys hxs hys heq
    obtain ⟨hx, hxs⟩ := forall_mem_cons.mp hxs
    cases ys with
    | nil => exact absurd ((append_eq_nil_iff.mp heq).1 ▸ hx) hnil
    | cons y ys =>
      obtain ⟨hy, htail⟩ := forall_mem_cons.mp hys
      rw [flatten_cons, flatten_cons] at heq
      have hxy : x = y := by
        rcases prefix_or_prefix_of_prefix (prefix_append x xs.flatten)
          (heq ▸ prefix_append y ys.flatten) with hpre | hpre
        · exact h x hx y hy hpre
        · exact (h y hy x hx hpre).symm
      subst hxy
      rw [ih ys hxs htail (append_cancel_left heq)]

end Code

namespace ChecksumHasher

lemma write_append (written : String) (xs ys : List String) :
  write written (xs ++ ys) = write (write written xs) ys := foldl_append ..

lemma toList_write (written : String) (texts : List String) :
  (write written texts).toList = written.toList ++ (texts.map String.toList).flatten := by
  induction texts generalizing written with
  | nil => simp [write]
  | cons text texts ih =>
    rw [write, foldl_cons, ← write, ih, String.toList_append, map_cons, flatten_cons, append_assoc]

/-- What was written is seen from the text if the words used can be read off it. -/
lemma write_inj {words : List String} (hwords : UniquelyDecodable {w | w ∈ words.map String.toList})
  {xs ys : List String} (hxs : ∀ x ∈ xs, x ∈ words) (hys : ∀ y ∈ ys, y ∈ words) :
  write "" xs = write "" ys ↔ xs = ys := by
  refine ⟨fun h => ?_, congrArg _⟩
  have hflat := congrArg String.toList h
  rw [toList_write, toList_write] at hflat
  refine map_injective_iff.mpr (fun _ _ => String.toList_inj.mp)
    (hwords _ _ ?_ ?_ (by simpa using hflat))
  · exact forall_mem_map.mpr fun x hx => mem_map_of_mem (hxs x hx)
  · exact forall_mem_map.mpr fun y hy => mem_map_of_mem (hys y hy)

end ChecksumHasher

/-- What a checksum is made of, for one table: `view` is the query if the table is a view. -/
structure FedTable where
  name : String
  columns : List ColumnMeta
  view : Option String
  ccls : List ColumnControl
  deriving DecidableEq

namespace FedTable

def sortedColumns (t : FedTable) : List ColumnMeta :=
  t.columns.insertionSort (fun c d => c.columnName ≤ d.columnName)

def columnFields (columns : List ColumnMeta) : List String :=
  columns.flatMap (fun c => [c.columnName, c.dType])

/-- The name of a table as it is written, and its columns. -/
def fields (b : String × List ColumnMeta) : List String := b.1::columnFields b.2

/-- `qualify` is how the name of a table is written. -/
def block (qualify : String → String) (t : FedTable) : String × List ColumnMeta :=
  (qualify t.name, t.sortedColumns)

/-- What is written of the controls on the table, in the order of their keys. -/
def shownCCLs (t : FedTable) : List (String × String × String) :=
  (t.ccls.insertionSort (fun c d => c.key ≤ d.key)).map
    (fun c => (c.tableName, c.columnName, c.visibility))

def cclFields (c : String × String × String) : List String := [c.1, c.2.1, c.2.2]

lemma flatMap_shownCCLs (t : FedTable) : t.shownCCLs.flatMap cclFields =
  (t.ccls.insertionSort (fun c d => c.key ≤ d.key)).flatMap
    (fun c => [c.tableName, c.columnName, c.visibility]) := flatMap_map ..

end FedTable

open FedTable

variable {qualify : String → String} {ts ts' : List FedTable}

def schemaText (qualify : String → String) (ts : List FedTable) : String :=
  ChecksumHasher.write "" ((ts.map (block qualify)).flatMap fields)

def cclText (ts : List FedTable) : String :=
  ChecksumHasher.write "" ((ts.flatMap shownCCLs).flatMap cclFields)

/-- The two sides have the same tables, with the same columns and types. -/
structure SameSchema (ts ts' : List FedTable) : Prop where
  names : ∀ n, n ∈ ts.map FedTable.name ↔ n ∈ ts'.map FedTable.name
  columns : ∀ t ∈ ts, ∀ t' ∈ ts', t.name = t'.name → ∀ c, c ∈ t.columns ↔ c ∈ t'.columns

def SameViews (ts ts' : List FedTable) : Prop :=
  ∀ t ∈ ts, ∀ t' ∈ ts', t.name = t'.name → t.view = t'.view

def SamePrivs (ts ts' : List FedTable) : Prop :=
  ∀ c, c ∈ ts.flatMap FedTable.ccls ↔ c ∈ ts'.flatMap FedTable.ccls

structure SameFacts (ts ts' : List FedTable) : Prop where
  schema : SameSchema ts ts'
  views : SameViews ts ts'
  privs : SamePrivs ts ts'

/-- Two sides that agree in everything that is written agree in the queries of the views and in
the parties of the privileges. -/
def Comparable (ts ts' : List FedTable) : Prop :=
  SameSchema ts ts' → ts.flatMap shownCCLs = ts'.flatMap shownCCLs →
    SameViews ts ts' ∧ SamePrivs ts ts'

/-- Names that do not run together, wherever they are written one after the other, and no column
with the name of a table. -/
structure Vocabulary (qualify : String → String) where
  tables : List String
  columns : List String
  types : List String
  visibilities : List String
  schema : UniquelyDecodable {w | w ∈ (tables.map qualify ++ columns ++ types).map String.toList}
  ccl : UniquelyDecodable {w | w ∈ (tables ++ columns ++ visibilities).map String.toList}
  apart : ∀ t ∈ tables, qualify t ∉ columns

/-- The names of one side are those of the vocabulary, and rows have keys. -/
structure Vocabulary.Spells (V : Vocabulary qualify) (ts : List FedTable) : Prop where
  names : (ts.map (qualify ·.name)).Nodup
  tables : ∀ t ∈ ts, t.name ∈ V.tables
  columns : ∀ t ∈ ts, ∀ c ∈ t.columns, c.columnName ∈ V.columns ∧ c.dType ∈ V.types
  columnNames : ∀ t ∈ ts, (t.columns.map (·.columnName)).Nodup
  ccls : ∀ t ∈ ts, ∀ c ∈ t.ccls,
    c.tableName = t.name ∧ c.columnName ∈ V.columns ∧ c.visibility ∈ V.visibilities
  keys : ∀ t ∈ ts, (t.ccls.map ColumnControl.key).Nodup

section Fields

lemma columnFields_append_inj {names : List String} {cols cols' : List ColumnMeta}
  {rest rest' : List String} (hcols : ∀ c ∈ cols, c.columnName ∈ names)
  (hcols' : ∀ c ∈ cols', c.columnName ∈ names) (hrest : ∀ x ∈ rest.head?, x ∉ names)
  (hrest' : ∀ x ∈ rest'.head?, x ∉ names)
  (h : columnFields cols ++ rest = columnFields cols' ++ rest') : cols = cols' ∧ rest = rest' := by
  induction cols generalizing cols' with
  | nil =>
    cases cols' with
    | nil => exact ⟨rfl, h⟩
    | cons c cols' =>
      have hhead : c.columnName ∈ rest.head? := by
        rw [show rest = columnFields (c::cols') ++ rest' from h]
        rfl
      exact absurd (hcols' c mem_cons_self) (hrest _ hhead)
  | cons c cols ih =>
    cases cols' with
    | nil =>
      have hhead : c.columnName ∈ rest'.head? := by
        rw [show rest' = columnFields (c::cols) ++ rest from h.symm]
        rfl
      exact absurd (hcols c mem_cons_self) (hrest' _ hhead)
    | cons c' cols' =>
      obtain ⟨hname, h⟩ := cons_eq_cons.mp h
      obtain ⟨htype, h⟩ := cons_eq_cons.mp h
      obtain ⟨hcols, hrest⟩ := ih (fun c hc => hcols c (mem_cons_of_mem _ hc))
        (fun c hc => hcols' c (mem_cons_of_mem _ hc)) h
      exact ⟨by rw [hcols, show c = c' from ColumnMeta.ext hname htype], hrest⟩

/-- A written name that is no column's, and columns. -/
def Marked (names : List String) (b : String × List ColumnMeta) : Prop :=
  b.1 ∉ names ∧ ∀ c ∈ b.2, c.columnName ∈ names

lemma notMem_of_mem_head? {names : List String} {bs : List (String × List ColumnMeta)}
  (hbs : ∀ b ∈ bs, Marked names b) : ∀ x ∈ (bs.flatMap fields).head?, x ∉ names := by
  intro x hx
  cases bs with
  | nil => cases hx
  | cons b bs =>
    cases hx
    exact (hbs b mem_cons_self).1

/-- The names of tables show where the columns of one table end. -/
lemma fields_inj {names : List String} {bs bs' : List (String × List ColumnMeta)}
  (hbs : ∀ b ∈ bs, Marked names b) (hbs' : ∀ b ∈ bs', Marked names b)
  (h : bs.flatMap fields = bs'.flatMap fields) : bs = bs' := by
  induction bs generalizing bs' with
  | nil =>
    cases bs' with
    | nil => rfl
    | cons b bs' => cases h
  | cons b bs ih =>
    cases bs' with
    | nil => cases h
    | cons b' bs' =>
      obtain ⟨hb, hbs⟩ := forall_mem_cons.mp hbs
      obtain ⟨hb', htail⟩ := forall_mem_cons.mp hbs'
      rw [flatMap_cons, flatMap_cons, fields, fields, cons_append, cons_append] at h
      obtain ⟨hname, h⟩ := cons_eq_cons.mp h
      obtain ⟨hcols, hrest⟩ := columnFields_append_inj hb.2 hb'.2 (notMem_of_mem_head? hbs)
        (notMem_of_mem_head? htail) h
      rw [ih hbs htail hrest, show b = b' from Prod.ext hname hcols]

lemma cclFields_inj {xs ys : List (String × String × String)}
  (h : xs.flatMap cclFields = ys.flatMap cclFields) : xs = ys := by
  induction xs generalizing ys with
  | nil =>
    cases ys with
    | nil => rfl
    | cons y ys => cases h
  | cons x xs ih =>
    cases ys with
    | nil => cases h
    | cons y ys =>
      obtain ⟨htable, h⟩ := cons_eq_cons.mp h
      obtain ⟨hcolumn, h⟩ := cons_eq_cons.mp h
      obtain ⟨hvis, h⟩ := cons_eq_cons.mp h
      rw [ih h, show x = y from Prod.ext htable (Prod.ext hcolumn hvis)]

end Fields

namespace Vocabulary

variable {V : Vocabulary qualify}

/-- Sides in the order of the written names. -/
def Ordered (qualify : String → String) (ts : List FedTable) : Prop :=
  ts.Pairwise (fun t u => qualify t.name ≤ qualify u.name)

lemma Spells.eq_of_name (h : V.Spells ts) {t u : FedTable} (ht : t ∈ ts) (hu : u ∈ ts)
  (hname : qualify t.name = qualify u.name) : t = u :=
  inj_on_of_nodup_map h.names ht hu hname

section

variable (h : V.Spells ts) (h' : V.Spells ts') (hts : Ordered qualify ts)
  (hts' : Ordered qualify ts')
include h h'

lemma cclText_eq_iff :
  cclText ts = cclText ts' ↔ ts.flatMap shownCCLs = ts'.flatMap shownCCLs := by
  have hwords : ∀ {ts}, V.Spells ts → ∀ x ∈ (ts.flatMap shownCCLs).flatMap cclFields,
      x ∈ V.tables ++ V.columns ++ V.visibilities := by
    intro ts h x hx
    obtain ⟨y, hy, hx⟩ := mem_flatMap.mp hx
    obtain ⟨t, ht, hy⟩ := mem_flatMap.mp hy
    obtain ⟨c, hc, rfl⟩ := mem_map.mp hy
    obtain ⟨htable, hcolumn, hvis⟩ := h.ccls t ht c ((mem_insertionSort _).mp hc)
    rcases mem_cons.mp hx with rfl | hx
    · exact mem_append_left _ (mem_append_left _ (htable ▸ h.tables t ht))
    rcases mem_cons.mp hx with rfl | hx
    · exact mem_append_left _ (mem_append_right _ hcolumn)
    · exact mem_append_right _ (mem_singleton.mp hx ▸ hvis)
  rw [cclText, cclText, ChecksumHasher.write_inj V.ccl (hwords h) (hwords h')]
  exact ⟨cclFields_inj, congrArg _⟩

include hts hts'

/-- Two sides with the same tables list the same of them, in the same order. -/
lemma map_eq_of_names {β : Type} {f : FedTable → β}
  (hnames : ∀ n, n ∈ ts.map FedTable.name ↔ n ∈ ts'.map FedTable.name)
  (hf : ∀ t ∈ ts, ∀ t' ∈ ts', t.name = t'.name → f t = f t') :
  ts.map (fun t => (qualify t.name, f t)) = ts'.map (fun t => (qualify t.name, f t)) := by
  have hkeys : ∀ {ts}, V.Spells ts →
      ((ts.map (fun t => (qualify t.name, f t))).map Prod.fst).Nodup := by
    intro ts h
    rw [map_map]
    exact h.names
  have hmem : ∀ b, b ∈ ts.map (fun t => (qualify t.name, f t)) ↔
      b ∈ ts'.map (fun t => (qualify t.name, f t)) := by
    intro b
    constructor
    · intro hb
      obtain ⟨t, ht, rfl⟩ := mem_map.mp hb
      obtain ⟨t', ht', hname⟩ := mem_map.mp ((hnames t.name).mp (mem_map_of_mem ht))
      exact mem_map.mpr ⟨t', ht', by rw [hname, hf t ht t' ht' hname.symm]⟩
    · intro hb
      obtain ⟨t', ht', rfl⟩ := mem_map.mp hb
      obtain ⟨t, ht, hname⟩ := mem_map.mp ((hnames t'.name).mpr (mem_map_of_mem ht'))
      exact mem_map.mpr ⟨t, ht, by rw [hname, hf t ht t' ht' hname]⟩
  have hordered : ∀ {ts}, Ordered qualify ts →
      (ts.map (fun t => (qualify t.name, f t))).Pairwise (fun a b => a.1 ≤ b.1) :=
    fun h => pairwise_map.mpr h
  refine Perm.eq_of_pairwise (fun a b ha hb hab hba => ?_) (hordered hts) (hordered hts')
    ((perm_ext_iff_of_nodup (hkeys h).of_map (hkeys h').of_map).mpr hmem)
  exact inj_on_of_nodup_map (hkeys h) ha ((hmem b).mpr hb) (le_antisymm hab hba)

lemma schemaText_eq_iff (hq : Injective qualify) :
  schemaText qualify ts = schemaText qualify ts' ↔ SameSchema ts ts' := by
  have hwords : ∀ {ts}, V.Spells ts →
      ∀ x ∈ (ts.map (block qualify)).flatMap fields,
        x ∈ V.tables.map qualify ++ V.columns ++ V.types := by
    intro ts h x hx
    obtain ⟨b, hb, hx⟩ := mem_flatMap.mp hx
    obtain ⟨t, ht, rfl⟩ := mem_map.mp hb
    rcases mem_cons.mp hx with rfl | hx
    · exact mem_append_left _ (mem_append_left _ (mem_map_of_mem (h.tables t ht)))
    obtain ⟨c, hc, hx⟩ := mem_flatMap.mp hx
    obtain ⟨hname, htype⟩ := h.columns t ht c ((mem_insertionSort _).mp hc)
    rcases mem_cons.mp hx with rfl | hx
    · exact mem_append_left _ (mem_append_right _ hname)
    · exact mem_append_right _ (mem_singleton.mp hx ▸ htype)
  have hmarked : ∀ {ts}, V.Spells ts →
      ∀ b ∈ ts.map (block qualify), Marked V.columns b := by
    intro ts h b hb
    obtain ⟨t, ht, rfl⟩ := mem_map.mp hb
    exact ⟨V.apart _ (h.tables t ht),
      fun c hc => (h.columns t ht c ((mem_insertionSort _).mp hc)).1⟩
  rw [schemaText, schemaText, ChecksumHasher.write_inj V.schema (hwords h) (hwords h')]
  constructor
  · intro heq
    have hsame := fields_inj (hmarked h) (hmarked h') heq
    constructor
    · intro n
      have hnames : ts.map (qualify ·.name) = ts'.map (qualify ·.name) := by
        simpa [block, comp_def] using congrArg (map Prod.fst) hsame
      rw [← mem_map_of_injective hq, ← mem_map_of_injective hq (l := ts'.map _), map_map, map_map]
      exact iff_of_eq (congrArg (qualify n ∈ ·) hnames)
    · intro t ht t' ht' hname c
      have hb : t.block qualify ∈ ts'.map (block qualify) := hsame ▸ mem_map_of_mem ht
      obtain ⟨u, hu, heq⟩ := mem_map.mp hb
      obtain ⟨hun, hcols⟩ := Prod.mk.inj heq
      obtain rfl := h'.eq_of_name hu ht' (hun.trans (congrArg qualify hname))
      rw [← mem_insertionSort (fun c d : ColumnMeta => c.columnName ≤ d.columnName),
        ← mem_insertionSort (fun c d : ColumnMeta => c.columnName ≤ d.columnName) (l := u.columns)]
      exact iff_of_eq (congrArg (c ∈ ·) hcols.symm)
  · intro hsame
    refine congrArg (flatMap fields) ?_
    exact map_eq_of_names h h' hts hts' hsame.names fun t ht t' ht' hname =>
      insertionSort_congr (h.columnNames t ht) (h'.columnNames t' ht')
        (hsame.columns t ht t' ht' hname)

/-- Equal facts are written alike. -/
lemma shownCCLs_congr (hschema : SameSchema ts ts') (hprivs : SamePrivs ts ts') :
  ts.flatMap shownCCLs = ts'.flatMap shownCCLs := by
  have hone : ∀ {ts ts'}, V.Spells ts → V.Spells ts' → SamePrivs ts ts' → ∀ t ∈ ts, ∀ t' ∈ ts',
      t.name = t'.name → ∀ c ∈ t.ccls, c ∈ t'.ccls := by
    intro ts ts' h h' hprivs t ht t' ht' hname c hc
    obtain ⟨u, hu, hcu⟩ := mem_flatMap.mp ((hprivs c).mp (mem_flatMap.mpr ⟨t, ht, hc⟩))
    have hun : u.name = t'.name := by
      rw [← (h'.ccls u hu c hcu).1, (h.ccls t ht c hc).1, hname]
    exact h'.eq_of_name hu ht' (congrArg qualify hun) ▸ hcu
  have hlists := map_eq_of_names h h' hts hts' hschema.names (f := shownCCLs)
    fun t ht t' ht' hname => congrArg (map _) (insertionSort_congr (h.keys t ht)
      (h'.keys t' ht') fun c => ⟨hone h h' hprivs t ht t' ht' hname c,
        hone h' h (fun c => (hprivs c).symm) t' ht' t ht hname.symm c⟩)
  simpa [flatMap_map] using congrArg (flatMap Prod.snd) hlists

/-- What is written is equal exactly for equal facts, if and only if the sides do not differ in
what is not written alone. -/
lemma texts_faithful_iff (hq : Injective qualify) :
  ((schemaText qualify ts = schemaText qualify ts' ∧ cclText ts = cclText ts') ↔
    SameFacts ts ts') ↔ Comparable ts ts' := by
  rw [schemaText_eq_iff h h' hts hts' hq, cclText_eq_iff h h']
  constructor
  · intro hiff hschema hshown
    have hsame := hiff.mp ⟨hschema, hshown⟩
    exact ⟨hsame.views, hsame.privs⟩
  · intro hcomp
    constructor
    · rintro ⟨hschema, hshown⟩
      obtain ⟨hviews, hprivs⟩ := hcomp hschema hshown
      exact ⟨hschema, hviews, hprivs⟩
    · intro hsame
      exact ⟨hsame.schema, shownCCLs_congr h h' hts hts' hsame.schema hsame.privs⟩

end

end Vocabulary

def viewQuery (m : TableMeta) : Option String :=
  if m.table.isView then some m.table.selectString else none

namespace QueryRunner

variable {deps : Deps} {r : QueryRunner} {p : PartyCode} {projectID : String}

def fedTable (deps : Deps) (r : QueryRunner) (m : TableMeta) : Except String FedTable := do
  let infos ← columnInfos deps m
  return ⟨m.table.tableName, infos, viewQuery m, r.cclsOf m⟩

/-- What the checksum of a party is made of. -/
def fedTables (deps : Deps) (r : QueryRunner) (p : PartyCode) : Except String (List FedTable) :=
  ((r.getTablesByParty p).insertionSort (fun s t => tableString s ≤ tableString t)).mapM
    (r.fedTable deps)

lemma fedTable_name {m : TableMeta} {t : FedTable} (h : r.fedTable deps m = .ok t) :
  t.name = m.table.tableName := by
  obtain ⟨infos, -, h⟩ := bind_eq_ok.mp h
  cases h
  rfl

lemma foldlM_infeed {l : List TableMeta} (hl : ∀ m ∈ l, m.table.projectID = projectID)
  (h : l.mapM (r.fedTable deps) = .ok ts) (hasher : ChecksumHasher) :
  l.foldlM (fun (hasher : ChecksumHasher) m => do
      let infos ← columnInfos deps m
      return (hasher.infeedTable (tableString m) infos).infeedCCLs (r.cclsOf m)) hasher =
    (.ok
      { tableSchemaCrypt := ChecksumHasher.write hasher.tableSchemaCrypt
          ((ts.map (block (dbTableString projectID))).flatMap fields)
        cclCrypt := ChecksumHasher.write hasher.cclCrypt
          ((ts.flatMap shownCCLs).flatMap cclFields)} : Except String ChecksumHasher) := by
  induction l generalizing ts hasher with
  | nil =>
    cases h
    rfl
  | cons m l ih =>
    obtain ⟨t, ts, ht, hts, rfl⟩ := mapM_cons_eq_ok.mp h
    obtain ⟨infos, hinfos, ht⟩ := bind_eq_ok.mp ht
    cases ht
    obtain ⟨hm, hl⟩ := forall_mem_cons.mp hl
    rw [foldlM_cons, hinfos]
    refine (ih hl hts _).trans ?_
    rw [map_cons, flatMap_cons, flatMap_cons, flatMap_append, ChecksumHasher.write_append,
      ChecksumHasher.write_append, flatMap_shownCCLs, ← hm]
    rfl

lemma partyChecksum_eq (hproject : ∀ m ∈ r.tables, m.table.projectID = projectID)
  (h : r.fedTables deps p = .ok ts) : r.partyChecksum deps p =
    .ok ⟨deps.sha256 (schemaText (dbTableString projectID) ts), deps.sha256 (cclText ts)⟩ := by
  have hl : ∀ m ∈ (r.getTablesByParty p).insertionSort (fun s t => tableString s ≤ tableString t),
      m.table.projectID = projectID :=
    fun m hm => hproject m (mem_filter.mp ((mem_insertionSort _).mp hm)).1
  rw [partyChecksum, foldlM_infeed hl h]
  rfl

lemma ordered_fedTables (hproject : ∀ m ∈ r.tables, m.table.projectID = projectID)
  (h : r.fedTables deps p = .ok ts) : Vocabulary.Ordered (dbTableString projectID) ts := by
  have hnames : ts.map (dbTableString projectID ·.name) = ((r.getTablesByParty p).insertionSort
      (fun s t => tableString s ≤ tableString t)).map tableString := by
    refine map_of_mapM_ok h fun m hm t ht => ?_
    rw [fedTable_name ht, tableString,
      hproject m (mem_filter.mp ((mem_insertionSort _).mp hm)).1]
  have htotal : Std.Total (fun s t : TableMeta => tableString s ≤ tableString t) :=
    ⟨fun s t => le_total (tableString s) (tableString t)⟩
  have htrans : IsTrans TableMeta (fun s t => tableString s ≤ tableString t) :=
    ⟨fun _ _ _ => le_trans⟩
  have hsorted := pairwise_map.mpr (pairwise_insertionSort
    (fun s t : TableMeta => tableString s ≤ tableString t) (r.getTablesByParty p))
  rw [← hnames] at hsorted
  exact pairwise_map.mp hsorted

lemma dbTableString_injective (projectID : String) : Injective (dbTableString projectID) := by
  intro s t h
  rw [dbTableString, dbTableString] at h
  split at h
  · exact h
  · rw [← String.toList_inj, String.toList_append, String.toList_append (t := t)] at h
    exact String.toList_inj.mp (append_cancel_left h)

end QueryRunner

open QueryRunner

def fedMeta (m : TableMeta) (ccls : List ColumnPriv) : FedTable :=
  ⟨m.table.tableName, m.columns, viewQuery m, columnPrivs2ColumnControls ccls⟩

/-- The hash keeps the bytes of its input. -/
def utf8Deps : Deps where
  order := .inserted
  getSourceTables _ := .ok []
  collectIntoParties _ := .ok []
  sha256 s := s.toByteArray.data.toList
  typeDesc := .ok
  spuProtocol _ := .ok none
  checkRefTable _ := .ok ()
  compile _ := .error "not compiled"
  checkParty _ := .ok ()
  authorizedWritableParties _ := []
  endpoint p := p
  exchangeJobInfoRetryTimes _ := 1

lemma sha256_utf8Deps_injective : Injective utf8Deps.sha256 := fun _ _ h =>
  String.toByteArray_inj.mp (ByteArray.ext (Array.toList_inj.mp h))

/-- No word begins with another. -/
def PrefixFree (words : List String) : Prop :=
  "" ∉ words ∧ ∀ a ∈ words, ∀ b ∈ words, a.toList <+: b.toList → a = b

instance (words : List String) : Decidable (PrefixFree words) := inferInstanceAs (Decidable (_ ∧ _))

lemma PrefixFree.uniquelyDecodable {words : List String} (h : PrefixFree words) :
  UniquelyDecodable {w | w ∈ words.map String.toList} := by
  refine uniquelyDecodable_of_prefixes (fun hnil => ?_) fun a ha b hb hab => ?_
  · obtain ⟨w, hw, hnil⟩ := mem_map.mp hnil
    exact h.1 (String.toList_eq_nil_iff.mp hnil ▸ hw)
  · obtain ⟨s, hs, rfl⟩ := mem_map.mp ha
    obtain ⟨t, ht, rfl⟩ := mem_map.mp hb
    rw [h.2 s hs t ht hab]

/-- The names used in a table of ages and one of ids. -/
def ageWords (qualify : String → String)
  (h : PrefixFree (["t", "u"].map qualify ++ ["age", "id"] ++ ["int", "string"]))
  (hapart : ∀ t ∈ ["t", "u"], qualify t ∉ ["age", "id"]) : Vocabulary qualify where
  tables := ["t", "u"]
  columns := ["age", "id"]
  types := ["int", "string"]
  visibilities := ["PLAINTEXT", "ENCRYPTED_ONLY"]
  schema := h.uniquelyDecodable
  ccl := PrefixFree.uniquelyDecodable (by decide)
  apart := hapart

def ageTable (columns : List ColumnMeta) : TableMeta :=
  ⟨{projectID := "p", tableName := "t", owner := "alice"}, columns⟩

def idTable : TableMeta := ⟨{projectID := "p", tableName := "u", owner := "alice"}, [⟨"id", "int"⟩]⟩

def agesFor (party : PartyCode) : ColumnControl := ⟨party, "PLAINTEXT", "p", "t", "age"⟩

def idsFor (tableName : String) (party : PartyCode) : ColumnControl :=
  ⟨party, "ENCRYPTED_ONLY", "p", tableName, "id"⟩

def aliceRows : QueryRunner where
  tables := [ageTable [⟨"age", "int"⟩, ⟨"id", "string"⟩], idTable]
  ccls := [agesFor "bob", idsFor "t" "carol", idsFor "u" "bob"]

/-- The same rows, read in another order. -/
def aliceReread : QueryRunner where
  tables := [idTable, ageTable [⟨"id", "string"⟩, ⟨"age", "int"⟩]]
  ccls := [idsFor "u" "bob", idsFor "t" "carol", agesFor "bob"]

def aliceGrants : QueryRunner := {aliceReread with ccls := idsFor "u" "carol"::aliceReread.ccls}

def fedAges (columns : List ColumnMeta) (ccls : List ColumnControl) : FedTable :=
  ⟨"t", columns, none, ccls⟩

def fedIds (ccls : List ColumnControl) : FedTable := ⟨"u", [⟨"id", "int"⟩], none, ccls⟩

def agePriv (dest : PartyCode) : ColumnPriv :=
  {projectID := "p", tableName := "t", columnName := "age", destParty := dest, priv := "plaintext"}

def ageView (query : String) : TableMeta :=
  ⟨{projectID := "p", tableName := "v", owner := "alice", isView := true, selectString := query},
    [⟨"age", "int"⟩]⟩

end Scql.Broker
