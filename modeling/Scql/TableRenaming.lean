import Mathlib.Data.List.AList
import Mathlib.Data.String.Basic
import Scql.FallibleRules
import Scql.MapRange

/-! # Physical names for logical tables

Before a query is sent to a party's database, the tables and the qualifiers of columns are renamed
through a map. A visitor walks over the statement and changes the names in place; for each name it
goes through the whole map, in an order that is not specified, and compares the keys with the name
as it is by then. Some names the visitor does not come to. -/
namespace Scql.TableRenaming

open List Fallible Function AList MapRange

inductive DBType
  | Unknown | MySQL | SQLite | Postgres | CSVDB | ODPS
  deriving DecidableEq

def DBType.string : DBType → String
  | Unknown => "unknown"
  | MySQL => "mysql"
  | SQLite => "sqlite"
  | Postgres => "postgresql"
  | CSVDB => "csvdb"
  | ODPS => "odps"

structure TableRef where
  dbName : String
  tableName : String
  deriving DecidableEq

structure DbTable extends TableRef where
  dbType : DBType
  deriving DecidableEq

abbrev NameMap := AList (fun _ : TableRef => DbTable)

abbrev Entry := Sigma (fun _ : TableRef => DbTable)

def TableRef.string (t : TableRef) : String :=
  if t.dbName = "" then t.tableName else t.dbName ++ "." ++ t.tableName

def newDbTableFromString (s : String) : Except String TableRef :=
  match s.toList.splitOn '.' with
  | [t] => .ok ⟨"", .ofList t⟩
  | [db, t] => .ok ⟨.ofList db, .ofList t⟩
  | _ => .error ("NewDbTableFromString: invalid dbTableName " ++ s)

/-- One turn of the loop over the references. -/
def rewriteTableRef (m : NameMap) (acc : List String × DBType) (s : String) :
    Except String (List String × DBType) := do
  let t ← newDbTableFromString s
  match m.lookup t with
  | none => .error ("table " ++ t.string ++ " not found")
  | some dest =>
    let refs := acc.1 ++ [dest.string]
    if dest.dbType = .Unknown then .ok (refs, acc.2)
    else if acc.2 ≠ .Unknown ∧ dest.dbType ≠ acc.2 then
      .error ("table " ++ t.string ++ " has wrong db type " ++ dest.dbType.string)
    else .ok (refs, dest.dbType)

def rewriteTableRefsAndGetDBType (m : NameMap) (tableRefs : List String) :
    Except String (List String × DBType) := do
  let (refs, ty) ← tableRefs.foldlM (rewriteTableRef m) ([], .Unknown)
  return (refs, if ty = .Unknown then .MySQL else ty)

/-- Where a statement holds the name of a table. -/
inductive Place
  | tableSource
  | columnNameExpr
  | columnName
  /-- A table outside of a table source, as in the list of tables of a `DELETE`. -/
  | tableName
  /-- `t.*` in the select list. -/
  | wildCardField
  /-- A column of `USING`, which `Join.Accept` does not pass on to. -/
  | usingColumn
  | hintTable
  deriving DecidableEq

/-- How often the visitor rewrites the name: the name of a column expression is a node of its own,
left before the expression. -/
def Place.leaves : Place → ℕ
  | .tableSource => 1
  | .columnNameExpr => 2
  | .columnName => 1
  | .tableName | .wildCardField | .usingColumn | .hintTable => 0

/-- A statement as far as names go. Names are cells, since parts of a statement may be shared. -/
inductive Node
  | name (place : Place) (cell : ℕ)
  | other (children : List Node)

mutual
def Node.places : Node → List (Place × ℕ)
  | .name place cell => [(place, cell)]
  | .other children => Node.placesAll children

def Node.placesAll : List Node → List (Place × ℕ)
  | [] => []
  | n :: ns => n.places ++ Node.placesAll ns
end

def Node.names (stmt : Node) : List ℕ := stmt.places.map Prod.snd

/-- The names in the order in which they are rewritten. -/
def Node.visits (stmt : Node) : List ℕ :=
  stmt.places.flatMap fun p => replicate p.1.leaves p.2

/-- The tables that are read, as `GetSourceTables` finds them. -/
def Node.sourceTables (stmt : Node) (names : ℕ → TableRef) : List TableRef :=
  (stmt.places.filter (·.1 = .tableSource)).map (names ·.2)

/-- `tableRefs` of a statement made from a logical plan: `DataSource.SqlStmt` adds a table source
and its reference. -/
def Node.tableRefs (stmt : Node) (names : ℕ → TableRef) : List String :=
  sliceDeDup ((stmt.sourceTables names).map fun t => t.dbName ++ "." ++ t.tableName)

/-- The loop over the map, in one order of its entries. -/
def rewriteDbTableName (order : List Entry) (t : TableRef) : TableRef :=
  order.foldl (fun t e => if e.1 = t then e.2.toTableRef else t) t

/-- The names after the visits, each with the order its loop went through the map. -/
def rewrite (passes : List (ℕ × List Entry)) (names : ℕ → TableRef) : ℕ → TableRef :=
  passes.foldl (fun names p => update names p.1 (rewriteDbTableName p.2 (names p.1))) names

structure Run (m : NameMap) (stmt : Node) (passes : List (ℕ × List Entry)) : Prop where
  visits : passes.map Prod.fst = stmt.visits
  orders : ∀ p ∈ passes, p.2.Perm m.entries

def image (m : NameMap) (t : TableRef) : TableRef := ((m.lookup t).map (·.toTableRef)).getD t

variable {m : NameMap} {t : TableRef} {order : List Entry}

lemma image_of_mem {e : Entry} (he : e ∈ m.entries) : image m e.1 = e.2.toTableRef := by
  have hlookup : m.lookup e.1 = some e.2 := mem_lookup_iff.mpr he
  simp [image, hlookup]

lemma image_of_notMem (h : t ∉ m) : image m t = t := by
  simp [image, lookup_eq_none.mpr h]

lemma mem_names_of_visits {stmt : Node} {c : ℕ} (h : c ∈ stmt.visits) : c ∈ stmt.names := by
  obtain ⟨p, hp, hc⟩ := mem_flatMap.mp h
  exact eq_of_mem_replicate hc ▸ mem_map_of_mem hp

lemma rewriteDbTableName_cons (e : Entry) : rewriteDbTableName (e::order) t =
  rewriteDbTableName order (if e.1 = t then e.2.toTableRef else t) := rfl

lemma rewriteDbTableName_of_notMem (h : t ∉ order.keys) : rewriteDbTableName order t = t := by
  induction order with
  | nil => rfl
  | cons e order ih =>
    rw [keys_cons, mem_cons, not_or] at h
    rw [rewriteDbTableName_cons, if_neg (Ne.symm h.1), ih h.2]

/-- A name whose image is final gets its image once its entry was passed. -/
lemma rewriteDbTableName_of_final (horder : ∀ e ∈ order, e ∈ m.entries)
    (h : image m (image m t) = image m t) :
  rewriteDbTableName order t = if t ∈ order.keys then image m t else t := by
  induction order generalizing t with
  | nil => rfl
  | cons e order ih =>
    have hrest : ∀ e ∈ order, e ∈ m.entries := fun e he => horder e (mem_cons_of_mem _ he)
    rw [rewriteDbTableName_cons]
    by_cases ht : e.1 = t
    · subst ht
      rw [if_pos rfl, ← image_of_mem (horder e mem_cons_self), ih hrest (by rw [h, h]), h, ite_self,
        if_pos (by simp)]
    · rw [if_neg ht, ih hrest h]
      simp [Ne.symm ht]

lemma rewriteDbTableName_eq_image (horder : order.Perm m.entries)
  (h : image m (image m t) = image m t) : rewriteDbTableName order t = image m t := by
  rw [rewriteDbTableName_of_final (fun e he => horder.mem_iff.mp he) h]
  split
  · rfl
  · next ht =>
    have hm : t ∉ m := fun hm => ht ((horder.map Sigma.fst).mem_iff.mpr hm)
    exact (image_of_notMem hm).symm

lemma exists_entry (h : t ∈ m) : ∃ d : DbTable, (⟨t, d⟩ : Entry) ∈ m.entries := by
  obtain ⟨d, hd⟩ := Option.isSome_iff_exists.mp (lookup_isSome.mpr h)
  exact ⟨d, mem_lookup_iff.mp hd⟩

/-- A loop may pass some entries last, which alone decide what becomes of their keys. -/
lemma exists_order_ending {s : List Entry} (hs : s.Nodup) (hsub : ∀ e ∈ s, e ∈ m.entries) :
  ∃ order : List Entry, order.Perm m.entries ∧
    ∀ e ∈ s, rewriteDbTableName order e.1 = rewriteDbTableName s e.1 := by
  obtain ⟨s', hs', hsub'⟩ := subperm_of_subset hs hsub
  obtain ⟨rest, hperm⟩ := hsub'.exists_perm_append
  replace hperm := hperm.trans (hs'.append_right rest)
  refine ⟨rest ++ s, perm_append_comm.trans hperm.symm, fun e he => ?_⟩
  have hkeys : (s.keys ++ rest.keys).Nodup :=
    map_append ▸ (hperm.map Sigma.fst).nodup_iff.mp m.nodupKeys
  rw [rewriteDbTableName, foldl_append]
  exact congrArg (rewriteDbTableName s) (rewriteDbTableName_of_notMem
    fun hrest => disjoint_of_nodup_append hkeys (mem_map_of_mem he) hrest)

/-- If an image is renamed again, some order gives another name, whatever the name is by then. -/
lemma exists_order_ne (h : image m t ≠ t) (x : TableRef) :
  ∃ order : List Entry, order.Perm m.entries ∧ rewriteDbTableName order x ≠ t := by
  by_cases hx : x ∈ m
  · obtain ⟨b, hb⟩ := exists_entry hx
    by_cases hxt : b.toTableRef = t
    · obtain ⟨d, hd⟩ := exists_entry (by_contra fun ht => h (image_of_notMem ht))
      have hne : x ≠ t := by
        rintro rfl
        exact h ((image_of_mem hb).trans hxt)
      -- the entry of the image comes right after the one of the name
      obtain ⟨order, hperm, horder⟩ := exists_order_ending (m := m) (s := [⟨x, b⟩, ⟨t, d⟩])
        (by simp [hne]) (by simp [hb, hd])
      refine ⟨order, hperm, ?_⟩
      rw [horder _ mem_cons_self, rewriteDbTableName_cons, if_pos rfl, hxt, rewriteDbTableName_cons,
        if_pos rfl]
      exact image_of_mem hd ▸ h
    · obtain ⟨order, hperm, horder⟩ :=
        exists_order_ending (m := m) (s := [⟨x, b⟩]) (by simp) (by simp [hb])
      refine ⟨order, hperm, ?_⟩
      rw [horder _ mem_cons_self, rewriteDbTableName_cons, if_pos rfl]
      exact hxt
  · refine ⟨m.entries, .refl _, ?_⟩
    rw [rewriteDbTableName_of_notMem hx]
    rintro rfl
    exact h (image_of_notMem hx)

variable {stmt : Node} {names : ℕ → TableRef} {passes : List (ℕ × List Entry)}

lemma rewrite_eq (horders : ∀ p ∈ passes, p.2.Perm m.entries)
  (h : ∀ p ∈ passes, image m (image m (names p.1)) = image m (names p.1)) (c : ℕ) :
  rewrite passes names c = if c ∈ passes.map Prod.fst then image m (names c) else names c := by
  induction passes generalizing names with
  | nil => rfl
  | cons p passes ih =>
    have hp := rewriteDbTableName_eq_image (horders p mem_cons_self) (h p mem_cons_self)
    have hfinal : ∀ q ∈ passes, image m (image m (update names p.1 (image m (names p.1)) q.1)) =
        image m (update names p.1 (image m (names p.1)) q.1) := by
      intro q hq
      by_cases hqp : q.1 = p.1
      · rw [hqp, update_self, h p mem_cons_self, h p mem_cons_self]
      · rw [update_of_ne hqp, h q (mem_cons_of_mem _ hq)]
    rw [rewrite, foldl_cons, hp, ← rewrite,
      ih (fun q hq => horders q (mem_cons_of_mem _ hq)) hfinal]
    simp only [map_cons, mem_cons]
    by_cases hc : c = p.1
    · subst hc
      simp [h p mem_cons_self]
    · simp only [hc, false_or, update_of_ne, ne_eq, not_false_eq_true]

lemma rewrite_append (before after : List (ℕ × List Entry)) :
  rewrite (before ++ after) names = rewrite after (rewrite before names) := foldl_append ..

lemma rewrite_of_notMem {c : ℕ} (h : c ∉ passes.map Prod.fst) :
  rewrite passes names c = names c := by
  induction passes generalizing names with
  | nil => rfl
  | cons p passes ih =>
    rw [map_cons, mem_cons, not_or] at h
    rw [rewrite, foldl_cons, ← rewrite, ih h.2, update_of_ne h.1]

/-- `new` is the physical name of the table that `s` stands for. -/
def RefImage (m : NameMap) (s new : String) : Prop :=
  ∃ t, newDbTableFromString s = .ok t ∧ new = (image m t).string

/-- Every name of the statement is replaced by its image, in every order, and the references
returned are the images of the tables read. -/
def Substitutes (m : NameMap) (stmt : Node) (names : ℕ → TableRef) : Prop :=
  (∀ passes, Run m stmt passes → ∀ c,
    rewrite passes names c = if c ∈ stmt.names then image m (names c) else names c) ∧
  ∀ out ty, rewriteTableRefsAndGetDBType m (stmt.tableRefs names) = .ok (out, ty) →
    ∀ s, s ∈ out ↔ ∃ t ∈ stmt.sourceTables names, s = (image m t).string

lemma newDbTableFromString_ref {t t' : TableRef}
    (h : newDbTableFromString (t.dbName ++ "." ++ t.tableName) = .ok t') : t' = t := by
  have hparts : (t.dbName ++ "." ++ t.tableName).toList.splitOn '.' =
      t.dbName.toList.splitOn '.' ++ t.tableName.toList.splitOn '.' := by
    simp [String.toList_append, splitOn_append_cons_self]
  have hdb : ['.'].intercalate (t.dbName.toList.splitOn '.') = _ := intercalate_splitOn '.'
  have htable : ['.'].intercalate (t.tableName.toList.splitOn '.') = _ := intercalate_splitOn '.'
  have hdbne := splitOn_ne_nil '.' t.dbName.toList
  have htablene := splitOn_ne_nil '.' t.tableName.toList
  rw [newDbTableFromString, hparts] at h
  revert h
  generalize t.dbName.toList.splitOn '.' = xs at hdb hdbne
  generalize t.tableName.toList.splitOn '.' = ys at htable htablene
  intro h
  -- only two parts are accepted, one for the database and one for the table
  match xs, ys, h with
  | [x], [y], h =>
    cases h
    simp only [intercalate_singleton] at hdb htable
    subst hdb htable
    simp
  | [], _, _ => exact absurd rfl hdbne
  | _, [], _ => exact absurd rfl htablene
  | [_], _ :: _ :: _, h => cases h
  | _ :: _ :: _, _ :: _, h => simp at h

lemma refImage_of_step {acc acc' : List String × DBType} {s : String}
  (h : rewriteTableRef m acc s = .ok acc') : ∃ new, acc'.1 = acc.1 ++ [new] ∧ RefImage m s new := by
  obtain ⟨t, ht, h⟩ := bind_eq_ok.mp h
  split at h
  · cases h
  · next d hd =>
    have himage : image m t = d.toTableRef := by simp [image, hd]
    refine ⟨d.string, ?_, t, ht, by rw [himage]⟩
    dsimp only at h
    split at h
    · cases h
      rfl
    · split at h
      · cases h
      · cases h
        rfl

lemma refImages_of_foldlM {refs : List String} {acc r : List String × DBType}
  (h : refs.foldlM (rewriteTableRef m) acc = .ok r) :
  ∃ outs, r.1 = acc.1 ++ outs ∧ Forall₂ (RefImage m) refs outs := by
  induction refs generalizing acc with
  | nil =>
    cases h
    exact ⟨[], (append_nil _).symm, .nil⟩
  | cons s refs ih =>
    obtain ⟨acc', hs, h⟩ := foldlM_cons_eq_ok.mp h
    obtain ⟨new, hnew, himage⟩ := refImage_of_step hs
    obtain ⟨outs, houts, hall⟩ := ih h
    exact ⟨new::outs, by simp [houts, hnew], .cons himage hall⟩

lemma refImages {refs out : List String} {ty : DBType}
  (h : rewriteTableRefsAndGetDBType m refs = .ok (out, ty)) : Forall₂ (RefImage m) refs out := by
  obtain ⟨⟨refs', ty'⟩, hfold, h⟩ := bind_eq_ok.mp h
  obtain ⟨outs, houts, hall⟩ := refImages_of_foldlM hfold
  cases h
  obtain rfl : out = outs := houts
  exact hall

lemma Substitutes.image_final (h : Substitutes m stmt names) {c : ℕ} (hc : c ∈ stmt.visits) :
  image m (image m (names c)) = image m (names c) := by
  by_contra hne
  -- at the last visit of the name the loop takes an order that misses the image
  obtain ⟨after, before, hsplit, hlast⟩ := eq_append_cons_of_mem (mem_reverse.mpr hc)
  rw [reverse_eq_iff, reverse_append, reverse_cons, append_assoc, singleton_append] at hsplit
  rw [← mem_reverse] at hlast
  generalize before.reverse = before at hsplit
  generalize after.reverse = after at hsplit hlast
  obtain ⟨order, hperm, horder⟩ := exists_order_ne hne
    (rewrite (before.map fun c => (c, m.entries)) names c)
  refine horder ?_
  have hrun : Run m stmt
      ((before.map fun c => (c, m.entries)) ++
        (c, order)::(after.map fun c => (c, m.entries))) := by
    refine ⟨by simp [hsplit, comp_def], fun p hp => ?_⟩
    simp only [mem_append, mem_map, mem_cons] at hp
    rcases hp with ⟨_, _, rfl⟩ | rfl | ⟨_, _, rfl⟩
    · exact .refl _
    · exact hperm
    · exact .refl _
  have hresult := h.1 _ hrun c
  rw [if_pos (mem_names_of_visits hc), rewrite_append, rewrite, foldl_cons, ← rewrite,
    rewrite_of_notMem (by simpa [comp_def] using hlast), update_self] at hresult
  exact hresult

lemma mem_out_iff {out : List String} {ty : DBType}
    (h : rewriteTableRefsAndGetDBType m (stmt.tableRefs names) = .ok (out, ty)) (s : String) :
    s ∈ out ↔ ∃ t ∈ stmt.sourceTables names, s = (image m t).string := by
  have hrefs := refImages h
  constructor
  · intro hs
    obtain ⟨r, hr, t', ht', rfl⟩ := exists_of_forall₂ hrefs.flip hs
    obtain ⟨t, ht, rfl⟩ := mem_map.mp (mem_sliceDeDup.mp hr)
    exact ⟨t, ht, by rw [newDbTableFromString_ref ht']⟩
  · rintro ⟨t, ht, rfl⟩
    obtain ⟨new, hnew, t', ht', rfl⟩ :=
      exists_of_forall₂ hrefs (mem_sliceDeDup.mpr (mem_map_of_mem ht))
    rwa [newDbTableFromString_ref ht'] at hnew

lemma Run.mem_iff (h : Run m stmt passes) {c : ℕ} : c ∈ passes.map Prod.fst ↔ c ∈ stmt.visits := by
  rw [h.visits]

/-- Two tables that swap their names. -/
def swapped : NameMap :=
  (singleton ⟨"", "a"⟩ ⟨⟨"", "b"⟩, .Unknown⟩).insert ⟨"", "b"⟩ ⟨⟨"", "a"⟩, .Unknown⟩

end Scql.TableRenaming
