import Mathlib.Data.List.GetD
import Mathlib.Data.List.Zip
import Scql.EngineLoops
import Scql.OprfTransfer

/-! # The OPRF join

The client matches the server's items against its own, in the order received, and tells the
server the sequence numbers of the matches; the server turns them into rows. An outer join adds
the rows without a match on one side and as many nulls on the other; the server looks for its own
such rows in a loop whose counter is an `int`. -/
namespace Scql.OprfJoin

open EngineLoops EquiJoin Fallible PsiTables OprfTransfer Function
open List hiding tails

variable {K C : Type} [DecidableEq C]

inductive JoinRole
  | innerJoinParty | fullParty | nullParty
  deriving DecidableEq

def getJoinRole (joinType : JoinKind) (isLeft : Bool) : JoinRole :=
  match joinType, isLeft with
  | .left, true | .right, false => .fullParty
  | .left, false | .right, true => .nullParty
  | .inner, _ => .innerJoinParty

/-- The matches in the order of the server's items: place at the client, sequence number. -/
def matchedPairs (server client : CipherStore C) : List (ℕ × ℕ) :=
  server.lines.zipIdx.flatMap (fun it =>
    ((client.searchIndices it.1).getD []).map (fun indice => (indice, it.2)))

structure ClientResult where
  indices : List (Option ℕ)
  matchedSeqs : List ℕ
  serverUnmatchedCount : ℕ
  clientUnmatchedCount : ℕ

/-- `FinalizeAndComputeOprfJoinResult`; the flags say which of the two counts is asked for,
at most one of them. -/
def finalizeAndComputeOprfJoinResult (server client : CipherStore C)
    (countServer countClient : Bool) : Option ClientResult :=
  if countServer && countClient then none
  else
    let found := matchedPairs server client
    let serverUnmatched := if countServer then
      (server.lines.filter (fun c => (client.searchIndices c).isNone)).length else 0
    let clientUnmatched := if countClient then
      (range client.itemCount).filter (fun i => i ∉ found.map (·.1)) else []
    some {
      indices := found.map (fun m => some m.1) ++ clientUnmatched.map some ++
        replicate serverUnmatched none
      matchedSeqs := found.map (·.2)
      serverUnmatchedCount := serverUnmatched
      clientUnmatchedCount := clientUnmatched.length}

/-- The client: which count it asks for depends on its role. -/
def oprfPsiClient (role : JoinRole) (server client : CipherStore C) : Option ClientResult :=
  match role with
  | .fullParty => finalizeAndComputeOprfJoinResult server client false true
  | .nullParty => finalizeAndComputeOprfJoinResult server client true false
  | .innerJoinParty => finalizeAndComputeOprfJoinResult server client false false

/-- `BuildServerResult` from the sequence numbers and the null count the client sent. -/
def buildServerResult (matchedSeqs : List ℕ) (cache : JoinCache) (clientUnmatchedCount : ℕ)
    (role : JoinRole) (totalLength : ℕ) : Option (List (Option ℕ)) := do
  let matchedIndices ← matchedSeqs.mapM cache.getIndice
  match role with
  | .nullParty => return matchedIndices.map some ++ replicate clientUnmatchedCount none
  | .fullParty =>
    -- for (int indice = 0; indice < batch_provider->TotalLength(); ++indice)
    let indices ← (intLoop totalLength).toOption
    return matchedIndices.map some ++ (indices.filter (fun i => i ∉ matchedIndices)).map some
  | .innerJoinParty => return matchedIndices.map some

/-- One slice at both parties: the client's indices and the server's. The server reads its
keys in shuffled batches, the client reads its own in order. -/
def oprfPsiSlice (prf : K → C) (joinType : JoinKind) (serverIsLeft : Bool)
    (serverBatches : List (List K × List ℕ)) (clientBatches : List (List K)) :
    Option (List (Option ℕ) × List (Option ℕ)) := do
  let total := (totalKeys serverBatches).length
  let cache ← JoinCache.saveAll total (sentRows serverBatches)
  let serverStore := CipherStore.saveAll false (sentItems prf serverBatches)
  let clientStore := CipherStore.saved true (clientBatches.flatten.map prf)
  let client ← oprfPsiClient (getJoinRole joinType (!serverIsLeft)) serverStore clientStore
  let server ← buildServerResult client.matchedSeqs cache client.clientUnmatchedCount
    (getJoinRole joinType serverIsLeft) total
  return (client.indices, server)

/-- `OprfPsiJoin`, slice after slice; the client's indices and the server's of every slice. -/
def oprfPsiJoin (prf : K → C) (joinType : JoinKind) (serverIsLeft : Bool)
    (servers : List (List (List K × List ℕ))) (clients : List (List (List K))) :
    Option (List (List (Option ℕ) × List (Option ℕ))) :=
  (range servers.length).mapM (fun i =>
    oprfPsiSlice prf joinType serverIsLeft (servers.getD i []) (clients.getD i []))

/-- Left and right of what belongs to the client and to the server. -/
def sides {α : Type} (serverIsLeft : Bool) (client server : α) : α × α :=
  if serverIsLeft then (server, client) else (client, server)

lemma zip_eq_zipIdx_map {α : Type} (S : List α) (rowOf : List ℕ) (h : S.length = rowOf.length) :
  S.zip rowOf = S.zipIdx.map (fun it => (it.1, rowOf.getD it.2 0)) := by
  refine ext_getElem (by simp [h]) (fun i h₁ h₂ => ?_)
  have hi : i < rowOf.length := by
    simp at h₁
    omega
  simp [hi]

variable {S cs : List C} {rowOf : List ℕ} {server : CipherStore C}

lemma matchedPairs_eq (hS : server.lines = S) : matchedPairs server (.saved true cs) =
  S.zipIdx.flatMap (fun it => (idsOf (keyed cs) it.1).map (fun i => (i, it.2))) := by
  rw [matchedPairs, hS]
  refine flatMap_congr (fun it _ => ?_)
  rw [CipherStore.searchIndices_saved]
  split_ifs with h
  · rw [h]
    rfl
  · rfl

/-- With its rows in place of sequence numbers, the client probes with the server's items. -/
lemma matchedPairs_rows (hS : server.lines = S) (hlen : S.length = rowOf.length) :
  (matchedPairs server (.saved true cs)).map (fun m => (m.1, rowOf.getD m.2 0)) =
    (probe (S.zip rowOf) (keyed cs)).map Prod.swap := by
  rw [matchedPairs_eq hS, zip_eq_zipIdx_map S rowOf hlen, probe, map_flatMap, map_flatMap,
    flatMap_map]
  refine flatMap_congr (fun it _ => ?_)
  simp

lemma seq_lt (hS : server.lines = S) {m : ℕ × ℕ}
  (hm : m ∈ matchedPairs server (.saved true cs)) : m.2 < S.length := by
  rw [matchedPairs_eq hS, mem_flatMap] at hm
  obtain ⟨it, hit, hm⟩ := hm
  obtain ⟨i, -, rfl⟩ := mem_map.mp hm
  exact (List.getElem?_eq_some_iff.mp (mem_keyed.mp hit)).1

lemma mapM_getIndice (cs : List C) (rowOf : List ℕ) (hS : server.lines = S) {total : ℕ}
    (htotal : S.length = total) :
  ((matchedPairs server (.saved true cs)).map (·.2)).mapM (JoinCache.getIndice ⟨total, rowOf⟩) =
    some ((matchedPairs server (.saved true cs)).map (fun m => rowOf.getD m.2 0)) := by
  rw [mapM_eq_some (g := fun seq => rowOf.getD seq 0), map_map]
  · rfl
  · intro seq hseq
    obtain ⟨m, hm, rfl⟩ := mem_map.mp hseq
    exact if_pos (htotal ▸ seq_lt hS hm)

variable {ss : List C}

lemma isMatching_rows (cs : List C) (hS : server.lines = S) (hlen : S.length = rowOf.length)
  (hperm : (S.zip rowOf).Perm (keyed ss)) : IsMatching (keyed cs) (keyed ss)
    ((matchedPairs server (.saved true cs)).map (fun m => (m.1, rowOf.getD m.2 0))) := by
  rw [matchedPairs_rows hS hlen]
  have hnodup : ((S.zip rowOf).map (·.2)).Nodup :=
    (hperm.map _).nodup_iff.mpr (keyed_nodup ss)
  exact ((isMatching_probe hnodup (keyed_nodup cs)).of_mem_iff (fun x => hperm.mem_iff)
    (fun x => Iff.rfl)).swap

/-- The client counts as many server items without a match as the server has such rows. -/
lemma unmatched_count (hlen : S.length = rowOf.length) (hperm : (S.zip rowOf).Perm (keyed ss))
  {ms : List (ℕ × ℕ)} (hm : IsMatching (keyed ss) (keyed cs) ms) :
  (S.filter (fun c => ((CipherStore.saved true cs).searchIndices c).isNone)).length =
    ((range ss.length).filter (fun i => i ∉ ms.map (·.1))).length := by
  have hfst : S = (S.zip rowOf).map (·.1) := by
    rw [map_fst_zip]
    omega
  have hnone : ∀ c, ((CipherStore.saved true cs).searchIndices c).isNone =
      decide (idsOf (keyed cs) c = []) := fun c => by
    rw [CipherStore.searchIndices_saved]
    split_ifs with h <;> simp [h]
  have hrows : (((keyed ss).filter (fun r => idsOf (keyed cs) r.1 = [])).map (·.2)).Perm
      ((range ss.length).filter (fun i => i ∉ ms.map (·.1))) := by
    refine (perm_ext_iff_of_nodup ((keyed_nodup ss).sublist (filter_sublist.map _))
      (nodup_range.filter _)).mpr (fun i => ?_)
    rw [mem_unmatched hm i]
    simp only [Unmatched, ← mem_idsOf, eq_nil_iff_forall_not_mem, mem_map, mem_filter,
      decide_eq_true_eq, Prod.exists, exists_eq_right]
  rw [← hrows.length_eq, length_map, ← (hperm.filter _).length_eq]
  conv_lhs => rw [hfst]
  simp only [hnone]
  rw [filter_map, length_map]
  rfl

/-- The roles of client and server when the client is taken as the left side. -/
def rolesOf : JoinKind → JoinRole × JoinRole
  | .inner => (.innerJoinParty, .innerJoinParty)
  | .left => (.fullParty, .nullParty)
  | .right => (.nullParty, .fullParty)

def clientKind (joinType : JoinKind) (serverIsLeft : Bool) : JoinKind :=
  if serverIsLeft then joinType.swap else joinType

lemma getJoinRole_client (joinType : JoinKind) (serverIsLeft : Bool) :
  getJoinRole joinType (!serverIsLeft) = (rolesOf (clientKind joinType serverIsLeft)).1 := by
  cases joinType <;> cases serverIsLeft <;> rfl

lemma getJoinRole_server (joinType : JoinKind) (serverIsLeft : Bool) :
  getJoinRole joinType serverIsLeft = (rolesOf (clientKind joinType serverIsLeft)).2 := by
  cases joinType <;> cases serverIsLeft <;> rfl

/-- The server has to count its own rows only where it keeps those without a match. -/
def Countable (role : JoinRole) (total : ℕ) : Prop := role = .fullParty → total < intBound

/-- What the server makes of the client's answer, with the rows of the matches in front. -/
lemma buildServerResult_eq {server client : CipherStore C} {rowOf : List ℕ} {total : ℕ}
  (hback : ((matchedPairs server client).map (·.2)).mapM (JoinCache.getIndice ⟨total, rowOf⟩) =
    some ((matchedPairs server client).map (fun m => rowOf.getD m.2 0))) (count : ℕ)
  {role : JoinRole} (hcount : Countable role total) :
  buildServerResult ((matchedPairs server client).map (·.2)) ⟨total, rowOf⟩ count role total =
    some (((matchedPairs server client).map (fun m => rowOf.getD m.2 0)).map some ++ match role with
      | .nullParty => replicate count none
      | .fullParty => ((range total).filter (fun i =>
          i ∉ (matchedPairs server client).map (fun m => rowOf.getD m.2 0))).map some
      | .innerJoinParty => []) := by
  rw [buildServerResult, hback]
  cases role with
  | nullParty => rfl
  | fullParty =>
    rw [intLoop_eq_ok.mpr ⟨hcount rfl, rfl⟩]
    rfl
  | innerJoinParty => simp

lemma countable_of_buildServerResult {matchedSeqs : List ℕ} {cache : JoinCache}
  {count total : ℕ} {role : JoinRole} {result : List (Option ℕ)}
  (h : buildServerResult matchedSeqs cache count role total = some result) :
  Countable role total := by
  rintro rfl
  simp only [buildServerResult, Option.bind_eq_bind, Option.bind_eq_some_iff] at h
  obtain ⟨_, -, indices, hloop, -⟩ := h
  exact (intLoop_eq_ok.mp (toOption_eq_some.mp hloop)).1

lemma results_joined (server : CipherStore C) {ss : List C} (cs : List C) {rowOf : List ℕ}
  (hlen : server.lines.length = rowOf.length) (hperm : (server.lines.zip rowOf).Perm (keyed ss))
  (kind : JoinKind) (hcountable : Countable (rolesOf kind).2 ss.length) :
  ∃ client result, oprfPsiClient (rolesOf kind).1 server (.saved true cs) = some client ∧
    buildServerResult client.matchedSeqs ⟨ss.length, rowOf⟩ client.clientUnmatchedCount
      (rolesOf kind).2 ss.length = some result ∧ client.indices.length = result.length ∧
    IsJoin kind (keyed cs) (keyed ss) (client.indices.zip result) := by
  have htotal : server.lines.length = ss.length := by
    have hl := hperm.length_eq
    simp only [length_zip, keyed, length_zipIdx] at hl
    omega
  have hm := isMatching_rows cs rfl hlen hperm
  have hresult := fun count =>
    buildServerResult_eq (mapM_getIndice cs rowOf rfl htotal) count hcountable
  have hunmatched := unmatched_count hlen hperm hm.swap
  have hclient := mem_unmatched hm
  have hserver := mem_unmatched hm.swap
  simp only [map_map, comp_def, Prod.fst_swap] at hclient hserver hunmatched
  have hcount : (CipherStore.saved true cs).itemCount = cs.length := by
    rw [CipherStore.itemCount, CipherStore.lines_saved]
  have hj := isJoin_tails (l := (matchedPairs server (.saved true cs)).map (·.1))
    (r := (matchedPairs server (.saved true cs)).map (fun m => rowOf.getD m.2 0)) (by simp)
    (by rwa [zip_map']) ⟨nodup_range.filter _, hclient⟩
    ⟨nodup_range.filter _, hserver⟩ kind
  rw [map_map] at hj
  cases kind <;> refine ⟨_, _, rfl, hresult _, ?_⟩ <;>
    simpa only [rolesOf, tails, if_true, Bool.false_eq_true, if_false, map_nil, append_nil,
      replicate_zero, append_nil, hcount, hunmatched, comp_def] using hj

lemma oprfPsiSlice_joined {prf : K → C} (hprf : Injective prf) (joinType : JoinKind)
  (serverIsLeft : Bool) {serverBatches : List (List K × List ℕ)}
  (hsh : ∀ b ∈ serverBatches, IsShuffle b) (clientBatches : List (List K))
  (hcountable : Countable (getJoinRole joinType serverIsLeft) (totalKeys serverBatches).length) :
  ∃ client server,
    oprfPsiSlice prf joinType serverIsLeft serverBatches clientBatches = some (client, server) ∧
    client.length = server.length ∧
    IsJoin (clientKind joinType serverIsLeft) (keyed clientBatches.flatten)
      (keyed (totalKeys serverBatches)) (client.zip server) := by
  obtain ⟨hlen, hperm⟩ := sent_perm hsh prf
  have htotal : (sentRows serverBatches).length = (totalKeys serverBatches).length := by
    have hl := hperm.length_eq
    simp only [length_zip, keyed, length_zipIdx, length_map] at hl
    omega
  have hstore := lines_sent hsh prf
  obtain ⟨client, server, hc, hs, hl, hj⟩ := results_joined
    (.saveAll false (sentItems prf serverBatches)) (clientBatches.flatten.map prf)
    (hstore ▸ hlen) (hstore ▸ hperm) (clientKind joinType serverIsLeft)
    (by rwa [length_map, ← getJoinRole_server])
  rw [← getJoinRole_client] at hc
  rw [length_map, ← getJoinRole_server] at hs
  refine ⟨client.indices, server, ?_, hl, ?_⟩
  · simp only [oprfPsiSlice, JoinCache.saveAll_eq (Nat.le_of_eq htotal), Option.bind_eq_bind,
      Option.bind_some, hc, hs]
    rfl
  · rw [keyed_map, keyed_map] at hj
    exact hj.of_rekey hprf

lemma sides_joined {joinType : JoinKind} {serverIsLeft : Bool} {cs ss : List K}
  {client server : List (Option ℕ)} (hlen : client.length = server.length)
  (h : IsJoin (clientKind joinType serverIsLeft) (keyed cs) (keyed ss) (client.zip server)) :
  let tables := sides serverIsLeft cs ss
  let result := sides serverIsLeft client server
  result.1.length = result.2.length ∧
    IsJoin joinType (keyed tables.1) (keyed tables.2) (result.1.zip result.2) := by
  cases serverIsLeft with
  | false => exact ⟨hlen, h⟩
  | true =>
    refine ⟨hlen.symm, ?_⟩
    have hs := h.swap
    rw [clientKind, if_pos rfl, JoinKind.swap_swap, zip_swap] at hs
    exact hs

lemma countable_of_oprfPsiSlice {prf : K → C} {joinType : JoinKind} {serverIsLeft : Bool}
  {serverBatches : List (List K × List ℕ)} {clientBatches : List (List K)}
  {result : List (Option ℕ) × List (Option ℕ)}
  (h : oprfPsiSlice prf joinType serverIsLeft serverBatches clientBatches = some result) :
  Countable (getJoinRole joinType serverIsLeft) (totalKeys serverBatches).length := by
  simp only [oprfPsiSlice, Option.bind_eq_bind, Option.bind_eq_some_iff] at h
  obtain ⟨_, -, _, -, _, hserver, -⟩ := h
  exact countable_of_buildServerResult hserver

lemma oprfPsiJoin_eq_none {prf : K → C} {joinType : JoinKind} {serverIsLeft : Bool}
  {servers : List (List (List K × List ℕ))} (clients : List (List (List K)))
  {bs : List (List K × List ℕ)} (hbs : bs ∈ servers)
  (hlong : ¬Countable (getJoinRole joinType serverIsLeft) (totalKeys bs).length) :
  oprfPsiJoin prf joinType serverIsLeft servers clients = none := by
  obtain ⟨i, hi, rfl⟩ := getElem_of_mem hbs
  refine mapM_eq_none (mem_range.mpr hi) (Option.eq_none_iff_forall_ne_some.mpr (fun r hr => ?_))
  rw [getD_eq_getElem _ _ hi] at hr
  exact hlong (countable_of_oprfPsiSlice hr)

/-- In whatever batches and order the server's items are processed, the two parties' index
lists are those of the join, exactly if an `int` counts the rows of every slice of the server or
the server does not keep its rows without a match. -/
theorem oprfPsiJoin_joined_iff {prf : K → C} (hprf : Injective prf) (joinType : JoinKind)
  (serverIsLeft : Bool) {servers : List (List (List K × List ℕ))}
  {clients : List (List (List K))} (hlen : servers.length = clients.length)
  (hsh : ∀ bs ∈ servers, ∀ b ∈ bs, IsShuffle b) {L R : List (List K)}
  (htables : (L, R) = sides serverIsLeft (clients.map flatten) (servers.map totalKeys))
  (hal : Aligned L R) :
  (∃ results, oprfPsiJoin prf joinType serverIsLeft servers clients = some results ∧
    JoinedRows joinType L R (results.map (fun r => (sides serverIsLeft r.1 r.2).1))
      (results.map (fun r => (sides serverIsLeft r.1 r.2).2)))
    ↔ ∀ bs ∈ servers, Countable (getJoinRole joinType serverIsLeft) (totalKeys bs).length := by
  constructor
  · rintro ⟨results, hresults, -⟩ bs hbs
    by_contra hlong
    rw [oprfPsiJoin_eq_none clients hbs hlong] at hresults
    cases hresults
  intro hcountable
  have hshuffle : ∀ i, ∀ b ∈ servers.getD i [], IsShuffle b := by
    intro i b hb
    by_cases hi : i < servers.length
    · exact hsh _ (getElem_mem hi) b (by simpa [hi] using hb)
    · simp [hi] at hb
  have hcount : ∀ i, Countable (getJoinRole joinType serverIsLeft)
      (totalKeys (servers.getD i [])).length := by
    intro i
    by_cases hi : i < servers.length
    · rw [getD_eq_getElem _ _ hi]
      exact hcountable _ (getElem_mem hi)
    · rw [getD_eq_default _ _ (not_lt.mp hi)]
      exact fun _ => show (0 : ℕ) < intBound by decide
  choose client server hslice hl hj using fun i =>
    oprfPsiSlice_joined hprf joinType serverIsLeft (hshuffle i) (clients.getD i []) (hcount i)
  refine ⟨_, mapM_eq_some (fun i _ => hslice i), ?_⟩
  have htable : L.length = servers.length ∧ R.length = servers.length := by
    cases serverIsLeft <;> obtain ⟨rfl, rfl⟩ := Prod.mk.inj htables <;> simp [hlen]
  have hparts : ∀ i, (L.getD i [], R.getD i []) =
      sides serverIsLeft (clients.getD i []).flatten (totalKeys (servers.getD i [])) := by
    intro i
    have hc : (clients.map flatten).getD i [] = (clients.getD i []).flatten :=
      List.getD_map clients [] flatten
    have hs : (servers.map totalKeys).getD i [] = totalKeys (servers.getD i []) :=
      List.getD_map servers [] totalKeys
    cases serverIsLeft <;> obtain ⟨rfl, rfl⟩ := Prod.mk.inj htables <;>
      simp only [sides, hc, hs] <;> rfl
  rw [map_map, map_map, ← htable.1]
  refine joinedRows_of_slices (htable.1.trans htable.2.symm) hal (fun i _ => ?_)
  obtain ⟨hl', hj'⟩ := sides_joined (hl i) (hj i)
  rw [← hparts i] at hj'
  exact ⟨hl', hj'⟩

theorem oprfPsiJoin_joined_left :
  ∃ results, oprfPsiJoin (id : ℕ → ℕ) .left true [[([1, 1, 2], [2, 0, 1])]] [[[1], [3, 1]]] =
      some results ∧
    JoinedRows .left [[1, 1, 2]] [[1, 3, 1]] (results.map (fun r => (sides true r.1 r.2).1))
      (results.map (fun r => (sides true r.1 r.2).2)) :=
  (oprfPsiJoin_joined_iff (L := [[1, 1, 2]]) (R := [[1, 3, 1]]) injective_id .left true rfl
    (by simp only [forall_mem_singleton, IsShuffle]; decide) rfl (aligned_single _ _)).mpr
    (by simp only [forall_mem_singleton, Countable]; decide)

/-- A left join whose left table is that of the server and has `2^31` rows. -/
theorem oprfPsiJoin_long_undefined :
  ¬∃ results, oprfPsiJoin (id : ℕ → ℕ) .left true
      [[(replicate intBound 7, range intBound)]] [[[]]] = some results ∧
    JoinedRows .left [replicate intBound 7] [[]] (results.map (fun r => (sides true r.1 r.2).1))
      (results.map (fun r => (sides true r.1 r.2).2)) := by
  rintro ⟨results, hresults, -⟩
  rw [oprfPsiJoin_eq_none _ mem_cons_self] at hresults
  · cases hresults
  · intro hcount
    have hlt := hcount rfl
    rw [totalKeys, flatMap_singleton, length_replicate] at hlt
    exact lt_irrefl _ hlt

end Scql.OprfJoin
