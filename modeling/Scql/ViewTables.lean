import Mathlib.Data.List.AList
import Scql.MetaStorage

/-! # The tables behind views

A view is stored with its query. The tables a job reads are those of its own query and, for the
views among them, those of their queries. -/
namespace Scql.Broker

open MetaStorage Fallible MapRange List

variable (getSourceTables : String → Except String (List String)) (o : RangeOrder) (db : Database)

/-- The tables a view body uses, and those behind its views. `views` is the chain of views that
led here. Each nested call extends the chain by a table of the storage, which bounds its
depth. -/
def getViewRelatedTable (projectID : String) :
    ℕ → String → List String → Except String (List TableMeta)
  | 0, _, _ => .error "GetViewRelatedTable: circular reference"
  | depth+1, viewBody, views => do
    let tableNames ← (getSourceTables viewBody).mapError
      ("GetViewRelatedTable: get source tables error: " ++ ·)
    let (tableMetas, notFound) := db.getTableMetasByTableNames projectID tableNames
    if notFound ≠ [] then
      throw ("GetViewRelatedTable: table not found: " ++ toString notFound)
    let tablesMap ← tableMetas.foldlM (fun (m : AList (fun _ : String => TableMeta)) tbl => do
      if tbl.table.isView then
        if tbl.table.tableName ∈ views then
          throw ("GetViewRelatedTable: circular reference: " ++ tbl.table.tableName)
        let expanded ← (getViewRelatedTable projectID depth tbl.table.selectString
          (tbl.table.tableName::views)).mapError
            ("GetViewRelatedTable: get view related table error: " ++ ·)
        let m := expanded.foldl (fun m t => m.insert t.table.tableName t) m
        return m.insert tbl.table.tableName tbl
      else
        return m.insert tbl.table.tableName tbl) ∅
    return (o.range 7 views.length tablesMap.entries).map (·.2)

/-- Add the tables behind the views among the entries, each name once. -/
def expandTablesInView (tableEntries : List TableMeta) : Except String (List TableMeta) := do
  let additionalTables ← tableEntries.foldlM (fun acc tbl => do
    if tbl.table.isView then
      let related ← getViewRelatedTable getSourceTables o db tbl.table.projectID
        (db.tables.rows.length+1)
        tbl.table.selectString [tbl.table.tableName]
      return acc ++ related
    else
      return acc) []
  return additionalTables.foldl (fun entries tbl =>
    if tbl.table.tableName ∈ entries.map (·.table.tableName) then entries
    else entries ++ [tbl]) tableEntries

variable {getSourceTables o db} {projectID : String}

/-- The chain of views has no name twice, so that there is always depth left. -/
lemma getViewRelatedTable_succ {viewBody name : String} {views : List String} {d : ℕ}
    (hn : views.Nodup)
  (hsub : views ⊆ name::db.tables.rows.map (·.tableName))
  (hd : db.tables.rows.length+1 < d+views.length) :
  getViewRelatedTable getSourceTables o db projectID (d+1) viewBody views =
    getViewRelatedTable getSourceTables o db projectID d viewBody views := by
  induction d generalizing viewBody views with
  | zero =>
    have hle := (subperm_of_subset hn hsub).length_le
    simp only [length_cons, length_map] at hle
    omega
  | succ d ih =>
    rw [getViewRelatedTable, getViewRelatedTable]
    refine bind_congr fun names => ?_
    dsimp only
    split
    · rfl
    · refine congrArg (· >>= _) (foldlM_congr (fun t ht m => ?_) ∅)
      have ht := (mem_getTableMetas ht).1
      split
      · split
        · rfl
        · rename_i hfresh
          rw [ih (nodup_cons.mpr ⟨hfresh, hn⟩)
            (cons_subset.mpr ⟨mem_cons_of_mem _ (mem_map_of_mem ht), hsub⟩) (by simp; omega)]
      · rfl

/-- The expansion of a view ends on every storage: calls nest no deeper than there are tables,
whatever the definitions refer to. -/
theorem getViewRelatedTable_depth (viewBody name : String) (extra : ℕ) :
  getViewRelatedTable getSourceTables o db projectID (db.tables.rows.length+1+extra) viewBody
      [name] =
    getViewRelatedTable getSourceTables o db projectID (db.tables.rows.length+1)
      viewBody [name] := by
  induction extra with
  | zero => rfl
  | succ extra ih =>
    rw [← ih]
    exact getViewRelatedTable_succ (nodup_singleton name) (by simp : [name] ⊆ name::_)
      (Nat.lt_succ_of_le (Nat.le_add_right ..))

end Scql.Broker
