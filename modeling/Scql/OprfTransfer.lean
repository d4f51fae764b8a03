import Scql.PsiTables

/-! # Items exchanged by the OPRF protocol

The server reads its keys in batches, each in a shuffled order, and sends the evaluated items;
it remembers which row every item came from. The client stores the server's items and its own
and finds the places of a ciphertext among its own. -/
namespace Scql.OprfTransfer

open EquiJoin PsiTables List

variable {K C : Type}

structure ShuffledBatch (K : Type) where
  keys : List K
  batchIndices : List ℕ
  shuffleIndices : List ℕ
  dupCnts : List ℕ

/-- `ReadNextShuffledBatch` at row `idx`, with the order the shuffle came up with. -/
def readNextShuffledBatch (idx : ℕ) (keys : List K) (shuffle : List ℕ) : ShuffledBatch K where
  keys := shuffle.filterMap (fun i => keys[i]?)
  batchIndices := (range keys.length).map (· + idx)
  shuffleIndices := shuffle.map (· + idx)
  dupCnts := replicate keys.length 0

def readShuffled : ℕ → List (List K × List ℕ) → List (ShuffledBatch K)
  | _, [] => []
  | idx, (keys, shuffle)::rest =>
    readNextShuffledBatch idx keys shuffle::readShuffled (idx+keys.length) rest

def IsShuffle (batch : List K × List ℕ) : Prop := batch.2.Perm (range batch.1.length)

def totalKeys (batches : List (List K × List ℕ)) : List K := batches.flatMap (·.1)

variable {shuffle : List ℕ}

lemma zip_filterMap (keys : List K) (f : K → C) (idx : ℕ) (h : ∀ i ∈ shuffle, i < keys.length) :
  ((shuffle.filterMap (fun i => keys[i]?)).map f).zip (shuffle.map (· + idx)) =
    shuffle.filterMap (fun i => keys[i]?.map (fun k => (f k, i+idx))) := by
  induction shuffle with
  | nil => rfl
  | cons i shuffle ih =>
    have hlt := h i (by simp)
    have hi : keys[i]? = some keys[i] := getElem?_eq_getElem hlt
    simp [hi, ih (fun j hj => h j (by simp [hj]))]

lemma filterMap_range (keys : List K) (f : K → C) (idx : ℕ) :
  (range keys.length).filterMap (fun i => keys[i]?.map (fun k => (f k, i+idx))) =
    (keys.map f).zipIdx idx := by
  induction keys generalizing idx with
  | nil => rfl
  | cons k keys ih =>
    rw [length_cons, range_succ_eq_map, filterMap_cons, map_cons,
      zipIdx_cons, ← ih (idx+1), filterMap_map]
    simp [Nat.add_assoc, Nat.add_comm 1]

variable {batch : List K × List ℕ}

/-- One batch, as its items with the rows they came from, is a rearrangement of its rows. -/
lemma batch_perm (idx : ℕ) (h : IsShuffle batch) (f : K → C) :
  let b := readNextShuffledBatch idx batch.1 batch.2
  ((b.keys.map f).zip b.shuffleIndices).Perm ((batch.1.map f).zipIdx idx) := by
  intro b
  have hlt : ∀ i ∈ batch.2, i < batch.1.length := fun i hi => mem_range.mp (h.mem_iff.mp hi)
  rw [show (b.keys.map f).zip b.shuffleIndices = _ from zip_filterMap batch.1 f idx hlt,
    ← filterMap_range]
  exact h.filterMap _

lemma length_filterMap_getElem? (keys : List K) (h : ∀ i ∈ shuffle, i < keys.length) :
  (shuffle.filterMap (fun i => keys[i]?)).length = shuffle.length := by
  induction shuffle with
  | nil => rfl
  | cons i shuffle ih =>
    have hlt := h i (by simp)
    simp [getElem?_eq_getElem hlt, ih (fun j hj => h j (by simp [hj]))]

lemma batch_length (idx : ℕ) (h : IsShuffle batch) :
  let b := readNextShuffledBatch idx batch.1 batch.2
  b.keys.length = batch.1.length ∧ b.shuffleIndices.length = batch.1.length := by
  have hlen : batch.2.length = batch.1.length := by simpa using h.length_eq
  have hlt : ∀ i ∈ batch.2, i < batch.1.length := fun i hi => mem_range.mp (h.mem_iff.mp hi)
  exact ⟨(length_filterMap_getElem? _ hlt).trans hlen, by simp [readNextShuffledBatch, hlen]⟩

/-- The items of all batches with the rows they came from are a rearrangement of all rows. -/
lemma readShuffled_perm {batches : List (List K × List ℕ)} (h : ∀ b ∈ batches, IsShuffle b)
  (f : K → C) (idx : ℕ) :
  ((readShuffled idx batches).flatMap (fun b => (b.keys.map f).zip b.shuffleIndices)).Perm
    (((totalKeys batches).map f).zipIdx idx) := by
  induction batches generalizing idx with
  | nil => exact .refl _
  | cons batch batches ih =>
    have hrest := ih (fun b hb => h b (by simp [hb])) (idx+batch.1.length)
    have hbatch := batch_perm idx (h batch (by simp)) f
    simp only [readShuffled, flatMap_cons, totalKeys, map_append, zipIdx_append, length_map]
    exact hbatch.append hrest

section Stores

variable [DecidableEq C]

/-- `UbPsiJoinCache`: the row every sent item came from, by sequence number. -/
structure JoinCache where
  size : ℕ
  seqToIndice : List ℕ

def JoinCache.saveData (cache : JoinCache) (shuffleIndex : ℕ) : Option JoinCache :=
  if cache.seqToIndice.length ≥ cache.size then none
  else some {cache with seqToIndice := cache.seqToIndice ++ [shuffleIndex]}

def JoinCache.getIndice (cache : JoinCache) (seq : ℕ) : Option ℕ :=
  if seq < cache.size then some (cache.seqToIndice.getD seq 0) else none

/-- `UbPsiCipherStore`: the lines written and, with the cache enabled, the places of every
ciphertext. -/
structure CipherStore (C : Type) where
  lines : List C
  dataIndices : AList (fun _ : C => List ℕ)

def CipherStore.empty : CipherStore C := ⟨[], ∅⟩

def CipherStore.itemCount (st : CipherStore C) : ℕ := st.lines.length

def CipherStore.saveOne (enableCache : Bool) (st : CipherStore C) (c : C) : CipherStore C where
  lines := st.lines ++ [c]
  dataIndices := if enableCache then
    st.dataIndices.insert c ((st.dataIndices.lookup c).getD [] ++ [st.itemCount])
      else st.dataIndices

/-- `Save`: a ciphertext is written once more than it has duplicates. -/
def CipherStore.save (enableCache : Bool) (st : CipherStore C) (c : C) (duplicateCnt : ℕ) :
    CipherStore C :=
  (range (duplicateCnt+1)).foldl (fun st _ => st.saveOne enableCache c) st

def CipherStore.saveAll (enableCache : Bool) (items : List (C × ℕ)) : CipherStore C :=
  items.foldl (fun st it => st.save enableCache it.1 it.2) .empty

def CipherStore.searchIndices (st : CipherStore C) (c : C) : Option (List ℕ) :=
  st.dataIndices.lookup c

def CipherStore.saved (enableCache : Bool) (cs : List C) : CipherStore C :=
  saveAll enableCache (cs.map (fun c => (c, 0)))

lemma CipherStore.saved_concat (enableCache : Bool) (cs : List C) (c : C) :
  saved enableCache (cs ++ [c]) = (saved enableCache cs).saveOne enableCache c := by
  rw [saved, saveAll, map_append, foldl_append]
  rfl

@[simp] lemma CipherStore.lines_saved (enableCache : Bool) (cs : List C) :
  (saved enableCache cs).lines = cs := by
  induction cs using reverseRecOn with
  | nil => rfl
  | append_singleton cs c ih => rw [saved_concat, saveOne, ih]

lemma CipherStore.dataIndices_saved (cs : List C) :
  (saved true cs).dataIndices = groupIndex (keyed cs) := by
  induction cs using reverseRecOn with
  | nil => rfl
  | append_singleton cs c ih =>
    have hgroup : groupIndex (keyed (cs ++ [c])) = (groupIndex (keyed cs)).insert c
        (((groupIndex (keyed cs)).lookup c).getD [] ++ [cs.length]) := by
      simp [keyed, zipIdx_append, groupIndex, foldl_append]
    rw [saved_concat, saveOne, if_pos rfl, ih, itemCount, lines_saved, hgroup]

lemma CipherStore.searchIndices_saved (cs : List C) (c : C) : (saved true cs).searchIndices c =
    if idsOf (keyed cs) c = [] then none else some (idsOf (keyed cs) c) := by
  rw [searchIndices, dataIndices_saved, lookup_groupIndex]

/-- The server's cache after sending items that came from the given rows. -/
def JoinCache.saveAll (size : ℕ) (indices : List ℕ) : Option JoinCache :=
  indices.foldlM saveData ⟨size, []⟩

lemma JoinCache.saveAll_eq {size : ℕ} {indices : List ℕ} (h : indices.length ≤ size) :
  saveAll size indices = some ⟨size, indices⟩ := by
  suffices hgen : ∀ done rest : List ℕ, (done ++ rest).length ≤ size →
      rest.foldlM saveData ⟨size, done⟩ = some ⟨size, done ++ rest⟩ from hgen [] indices h
  intro done rest
  induction rest generalizing done with
  | nil => simp
  | cons i rest ih =>
    intro hlen
    have hlt : ¬done.length ≥ size := by
      simp at hlen
      omega
    rw [foldlM_cons, saveData, if_neg hlt]
    simpa using ih (done ++ [i]) (by simpa using hlen)

end Stores

/-- The items the server sends, with their duplicate counts. -/
def sentItems (prf : K → C) (batches : List (List K × List ℕ)) : List (C × ℕ) :=
  (readShuffled 0 batches).flatMap (fun b => (b.keys.map prf).zip b.dupCnts)

def sentStream (prf : K → C) (batches : List (List K × List ℕ)) : List C :=
  (readShuffled 0 batches).flatMap (fun b => b.keys.map prf)

def sentRows (batches : List (List K × List ℕ)) : List ℕ :=
  (readShuffled 0 batches).flatMap (·.shuffleIndices)

variable {batches : List (List K × List ℕ)} (h : ∀ b ∈ batches, IsShuffle b) (prf : K → C)
include h

lemma mem_readShuffled {idx : ℕ} {b : ShuffledBatch K} (hb : b ∈ readShuffled idx batches) :
  b.keys.length = b.shuffleIndices.length ∧ b.dupCnts = replicate b.keys.length 0 := by
  induction batches generalizing idx with
  | nil => simp [readShuffled] at hb
  | cons batch batches ih =>
    rcases mem_cons.mp hb with rfl | hb
    · obtain ⟨hk, hs⟩ := batch_length idx (h batch (by simp))
      exact ⟨hk.trans hs.symm, by rw [hk]; rfl⟩
    · exact ih (fun b hb => h b (by simp [hb])) hb

lemma sentItems_eq : sentItems prf batches = (sentStream prf batches).map (fun c => (c, 0)) := by
  rw [sentStream, map_flatMap]
  refine flatMap_congr (fun b hb => ?_)
  obtain ⟨-, hdup⟩ := mem_readShuffled h hb
  rw [hdup, ← length_map (f := prf), ← map_const', zip_map_right]
  simp [zip_eq_zipWith]

lemma sent_perm : (sentStream prf batches).length = (sentRows batches).length ∧
  ((sentStream prf batches).zip (sentRows batches)).Perm (keyed ((totalKeys batches).map prf)) := by
  have hlen : ∀ b ∈ readShuffled 0 batches, (b.keys.map prf).length = b.shuffleIndices.length :=
    fun b hb => by
    simpa using (mem_readShuffled h hb).1
  obtain ⟨hl, hzip⟩ := zip_flatMap _ _ _ hlen
  refine ⟨hl, ?_⟩
  rw [sentStream, sentRows, hzip]
  exact readShuffled_perm h prf 0

lemma lines_sent [DecidableEq C] :
  (CipherStore.saveAll false (sentItems prf batches)).lines = sentStream prf batches := by
  rw [sentItems_eq h prf]
  exact CipherStore.lines_saved false _

lemma mem_sentStream (c : C) : c ∈ sentStream prf batches ↔ c ∈ (totalKeys batches).map prf := by
  obtain ⟨hlen, hperm⟩ := sent_perm h prf
  have hfst := hperm.map (·.1)
  rw [map_fst_zip (by omega), keyed, zipIdx_map_fst] at hfst
  exact hfst.mem_iff

end Scql.OprfTransfer
