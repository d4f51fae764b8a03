import Scql.FallibleRules

/-! # The datasource of a table

The rules of a configuration go to three stores: for tables, for databases, and for all tables.
A rule for a table of any database goes nowhere, and a rule replaces those for the same tables
before it. -/
namespace Scql.Datasource

open Fallible Function List

structure DataSource where
  id : String
  connectionStr : String

structure RouteRule where
  db : String
  table : String
  datasourceId : String

structure EmbedRouterConf where
  datasources : List DataSource
  rules : List RouteRule

structure EmbedRouter where
  datasourceMap : String → Option DataSource := fun _ => none
  tableRouteMap : String → Option String := fun _ => none
  dbRouteMap : String → Option String := fun _ => none
  defaultRouteDatasource : Option String := none

namespace EmbedRouter

def insertDatasource (router : EmbedRouter) (ds : DataSource) : Except String EmbedRouter := do
  ensure (router.datasourceMap ds.id).isNone ("Fail to insert datasource: duplicate id=" ++ ds.id)
  return {router with datasourceMap := update router.datasourceMap ds.id (some ds)}

/-- For a table of any database the text of the message stands where `YACL_ENFORCE` takes its
condition, so that nothing is thrown. -/
def addRule (router : EmbedRouter) (rule : RouteRule) : Except String EmbedRouter := do
  ensure (router.datasourceMap rule.datasourceId).isSome
    ("Fail to find associated datasource for rule=" ++ rule.db ++ "." ++ rule.table)
  if rule.table = "*" then
    if rule.db = "*" then do
      ensure router.defaultRouteDatasource.isNone "Fail to set default route rule: exists already."
      return {router with defaultRouteDatasource := some rule.datasourceId}
    else
      return {router with dbRouteMap := update router.dbRouteMap rule.db (some rule.datasourceId)}
  else if rule.db = "*" then return router
  else return {router with
    tableRouteMap :=
      update router.tableRouteMap (rule.db ++ "." ++ rule.table) (some rule.datasourceId)}

def fromProto (conf : EmbedRouterConf) : Except String EmbedRouter := do
  let router ← conf.datasources.foldlM insertDatasource {}
  conf.rules.foldlM addRule router

def routeId (router : EmbedRouter) (tableRef : String) : Except String String :=
  match router.tableRouteMap tableRef with
  | some id => .ok id
  | none =>
    match tableRef.splitOn "." with
    | [db, _] =>
      match router.dbRouteMap db, router.defaultRouteDatasource with
      | some id, _ | none, some id => .ok id
      | none, none => .error ("Fail to find datasource for table=" ++ tableRef)
    | _ => .error ("Fail to split '$db.$table' format from: " ++ tableRef)

def route (router : EmbedRouter) (tableRefs : List String) : Except String (List DataSource) := do
  let ids ← tableRefs.mapM router.routeId
  ids.mapM fun id =>
    (router.datasourceMap id).elim (.error ("Fail to find datasource id=" ++ id)) .ok

end EmbedRouter

open EmbedRouter

/-- What a rule is about. -/
inductive Key
  | table (tableRef : String) | db (name : String) | all | unsupported

def RouteRule.key (rule : RouteRule) : Key :=
  if rule.table = "*" then if rule.db = "*" then .all else .db rule.db
  else if rule.db = "*" then .unsupported else .table (rule.db ++ "." ++ rule.table)

def EmbedRouter.get (router : EmbedRouter) : Key → Option String
  | .table tableRef => router.tableRouteMap tableRef
  | .db name => router.dbRouteMap name
  | .all => router.defaultRouteDatasource
  | .unsupported => none

/-- The keys that match a reference, the most specific first. -/
def keys (tableRef : String) : List Key :=
  .table tableRef::match tableRef.splitOn "." with
    | [db, _] => [.db db, .all]
    | _ => []

/-- A rule that matches, and no rule is more specific. -/
def Chosen (conf : EmbedRouterConf) (tableRef : String) (rule : RouteRule) : Prop :=
  rule ∈ conf.rules ∧ ∃ before after, keys tableRef = before ++ rule.key::after ∧
    ∀ rule' ∈ conf.rules, rule'.key ∉ before

structure Routes (conf : EmbedRouterConf) (router : EmbedRouter) : Prop where
  chosen : ∀ tableRefs dss, router.route tableRefs = .ok dss → Forall₂ (fun tableRef ds =>
    ∃ rule, Chosen conf tableRef rule ∧ ds ∈ conf.datasources ∧ ds.id = rule.datasourceId) tableRefs
      dss
  heeded : ∀ rule ∈ conf.rules, router.get rule.key = some rule.datasourceId

variable {conf : EmbedRouterConf} {router router' : EmbedRouter} {rule : RouteRule}

lemma addRule_ok (h : addRule router rule = .ok router') :
    router'.datasourceMap = router.datasourceMap ∧
    (∀ k ≠ rule.key, router'.get k = router.get k) ∧
    (rule.key ≠ .unsupported → router'.get rule.key = some rule.datasourceId) := by
  obtain ⟨_, -, h⟩ := bind_eq_ok.mp h
  rw [RouteRule.key]
  split_ifs at h ⊢ with htable hdb hdb
  · obtain ⟨_, -, h⟩ := bind_eq_ok.mp h
    cases h
    exact ⟨rfl, fun k hk => by cases k <;> first | rfl | exact absurd rfl hk, fun _ => rfl⟩
  · cases h
    refine ⟨rfl, fun k hk => ?_, fun _ => update_self _ _ _⟩
    cases k with
    | db name => exact update_of_ne (fun h => hk (congrArg Key.db h)) _ _
    | _ => rfl
  · cases h
    exact ⟨rfl, fun _ _ => rfl, fun h => absurd rfl h⟩
  · cases h
    refine ⟨rfl, fun k hk => ?_, fun _ => update_self _ _ _⟩
    cases k with
    | table name => exact update_of_ne (fun h => hk (congrArg Key.table h)) _ _
    | _ => rfl

/-- The router holds a rule for every key of a supported rule, and nothing else. -/
structure Holds (rules : List RouteRule) (router : EmbedRouter) : Prop where
  of_get : ∀ k id, router.get k = some id → ∃ rule ∈ rules, rule.key = k ∧ rule.datasourceId = id
  isSome : ∀ rule ∈ rules, rule.key ≠ .unsupported → (router.get rule.key).isSome

lemma holds_foldlM {rules : List RouteRule} (h : rules.foldlM addRule router = .ok router')
  (hnone : ∀ k, router.get k = none) :
  router'.datasourceMap = router.datasourceMap ∧ Holds rules router' := by
  refine foldlM_prefix (P := fun rules r => r.datasourceMap = router.datasourceMap ∧ Holds rules r)
    rules ?_ ⟨rfl, ⟨fun k id hk => by simp [hnone] at hk, by simp⟩⟩ h
  rintro done rule rest - r r' ⟨hmap, hholds⟩ hr
  obtain ⟨hmap', hother, hown⟩ := addRule_ok hr
  refine ⟨hmap'.trans hmap, ⟨fun k id hk => ?_, fun rule' hrule' hkey => ?_⟩⟩
  · by_cases hk' : k = rule.key
    · subst hk'
      refine ⟨rule, by simp, rfl, ?_⟩
      rw [hown fun h => by rw [h] at hk; cases hk] at hk
      exact Option.some.inj hk
    · rw [hother k hk'] at hk
      obtain ⟨rule', hmem, hrule'⟩ := hholds.of_get k id hk
      exact ⟨rule', mem_append_left _ hmem, hrule'⟩
  · by_cases hk' : rule'.key = rule.key
    · rw [hk'] at hkey ⊢
      rw [hown hkey]
      rfl
    · rw [hother _ hk']
      refine hholds.isSome rule' ((mem_append.mp hrule').resolve_right fun h => ?_) hkey
      exact hk' (congrArg _ (mem_singleton.mp h))

lemma datasource_of_mem (h : conf.datasources.foldlM insertDatasource {} = .ok router) :
  (∀ k, router.get k = none) ∧ ∀ id ds, router.datasourceMap id = some ds →
    ds ∈ conf.datasources ∧ ds.id = id := by
  refine foldlM_invariant
    (P := fun r => (∀ k, r.get k = none) ∧ ∀ id ds, r.datasourceMap id = some ds →
    ds ∈ conf.datasources ∧ ds.id = id) ?_ ⟨fun k => by cases k <;> rfl, fun _ _ h => by cases h⟩ h
  intro ds hds r r' ⟨hnone, hold⟩ hr
  obtain ⟨_, -, hr⟩ := bind_eq_ok.mp hr
  cases hr
  refine ⟨fun k => (by cases k <;> rfl : _ = r.get k).trans (hnone k), fun id ds' h => ?_⟩
  have h : update r.datasourceMap ds.id (some ds) id = some ds' := h
  by_cases hid : id = ds.id
  · rw [hid, update_self] at h
    cases h
    exact ⟨hds, hid.symm⟩
  · exact hold id ds' ((update_of_ne hid _ _).symm.trans h)

lemma routeId_ok {tableRef id : String} (h : router.routeId tableRef = .ok id) : ∃ before k after,
  keys tableRef = before ++ k::after ∧ router.get k = some id ∧
    ∀ k' ∈ before, router.get k' = none := by
  rw [routeId] at h
  rw [keys]
  split at h
  · next htable =>
    cases h
    exact ⟨[], _, _, rfl, htable, by simp⟩
  · next htable =>
    split at h
    · next db _ _ =>
      split at h
      · next hdb =>
        cases h
        exact ⟨[.table tableRef], .db db, [.all], rfl, hdb, forall_mem_singleton.mpr htable⟩
      · next hdb hall =>
        cases h
        exact ⟨[.table tableRef, .db db], .all, [], rfl, hall,
          forall_mem_cons.mpr ⟨htable, forall_mem_singleton.mpr hdb⟩⟩
      · cases h
    · cases h

lemma holds_fromProto (h : fromProto conf = .ok router) : Holds conf.rules router ∧
  ∀ id ds, router.datasourceMap id = some ds → ds ∈ conf.datasources ∧ ds.id = id := by
  obtain ⟨r, hr, h⟩ := bind_eq_ok.mp h
  obtain ⟨hnone, hmap⟩ := datasource_of_mem hr
  obtain ⟨hmap', hholds⟩ := holds_foldlM h hnone
  exact ⟨hholds, hmap' ▸ hmap⟩

/-- Every reference is routed by its most specific rule; all rules are heeded exactly if none is
for a table of any database and rules about the same tables agree. -/
theorem routes_iff (h : fromProto conf = .ok router) : Routes conf router ↔
  ∀ rule ∈ conf.rules, rule.key ≠ .unsupported ∧ ∀ rule' ∈ conf.rules, rule'.key = rule.key →
    rule'.datasourceId = rule.datasourceId := by
  obtain ⟨hholds, hmap⟩ := holds_fromProto h
  constructor
  · intro hroutes rule hrule
    have hget := hroutes.heeded rule hrule
    refine ⟨fun hkey => by simp [hkey, EmbedRouter.get] at hget, fun rule' hrule' hkey => ?_⟩
    have hget' := hroutes.heeded rule' hrule'
    rw [hkey, hget] at hget'
    exact (Option.some.inj hget').symm
  · intro hrules
    constructor
    · intro tableRefs dss hroute
      obtain ⟨ids, hids, hdss⟩ := bind_eq_ok.mp hroute
      clear hroute
      induction tableRefs generalizing ids dss with
      | nil =>
        cases hids
        cases hdss
        exact .nil
      | cons tableRef tableRefs ih =>
        obtain ⟨id, ids, hid, hids', rfl⟩ := mapM_cons_eq_ok.mp hids
        obtain ⟨ds, dss, hds, hdss', rfl⟩ := mapM_cons_eq_ok.mp hdss
        refine .cons ?_ (ih dss ids hids' hdss')
        obtain ⟨before, k, after, hkeys, hget, hbefore⟩ := routeId_ok hid
        obtain ⟨rule, hrule, rfl, rfl⟩ := hholds.of_get k id hget
        refine ⟨rule, ⟨hrule, before, after, hkeys, fun rule' hrule' hmem => ?_⟩, ?_⟩
        · have hsome := hholds.isSome rule' hrule' (hrules rule' hrule').1
          rw [hbefore _ hmem] at hsome
          cases hsome
        · cases hlookup : router.datasourceMap rule.datasourceId with
          | none => simp [hlookup] at hds
          | some ds' =>
            rw [hlookup] at hds
            cases hds
            exact hmap _ _ hlookup
    · intro rule hrule
      obtain ⟨hkey, hagree⟩ := hrules rule hrule
      obtain ⟨id, hid⟩ := Option.isSome_iff_exists.mp (hholds.isSome rule hrule hkey)
      obtain ⟨rule', hrule', hkey', rfl⟩ := hholds.of_get _ _ hid
      rw [hid, hagree rule' hrule' hkey']

/-- A rule for the tables `t` of any database. -/
def anyDatabase : EmbedRouterConf := ⟨[⟨"ds001", "a"⟩, ⟨"ds002", "b"⟩],
  [⟨"*", "t", "ds001"⟩, ⟨"*", "*", "ds002"⟩]⟩

theorem not_routes_anyDatabase : ∃ router, fromProto anyDatabase = .ok router ∧
  ¬Routes anyDatabase router :=
  ⟨_, rfl, fun h => by simpa [RouteRule.key,
    EmbedRouter.get] using h.heeded ⟨"*", "t", "ds001"⟩ mem_cons_self⟩

/-- Rules for a table and for its database. -/
def oneDatabase : EmbedRouterConf := ⟨[⟨"ds001", "a"⟩, ⟨"ds002", "b"⟩],
  [⟨"db1", "*", "ds001"⟩, ⟨"db1", "t", "ds002"⟩]⟩

theorem routes_oneDatabase : ∃ router, fromProto oneDatabase = .ok router ∧
  Routes oneDatabase router :=
  ⟨_, rfl, (routes_iff rfl).mpr (by simp [oneDatabase, RouteRule.key])⟩

end Scql.Datasource
