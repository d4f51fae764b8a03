import Scql.EcdhJoin
import Scql.KeyEncoding
import Scql.OprfJoin
import Scql.Rr22Join

/-! # Membership by private set intersection

`In` marks the left rows whose value occurs in the right column. The PSI algorithms work on the
texts of the values; the mask is revealed to the left party, which is the client or the server
of the OPRF protocol. Both columns come as they are or cut into buckets, which RR22 then takes one
by one. -/
namespace Scql.PsiMembership

open EquiJoin PsiTables KeyEncoding EcdhJoin OprfTransfer Rr22Join List Function

def setAll (masks : List Bool) (entries : List (ℕ × Bool)) : List Bool :=
  entries.foldl (fun masks e => masks.set e.1 e.2) masks

variable {f : ℕ → Bool} {entries : List (ℕ × Bool)}

lemma getElem?_setAll
  (hval : ∀ e ∈ entries, e.2 = f e.1) (masks : List Bool) (i : ℕ) : (setAll masks entries)[i]? =
    masks[i]?.map (fun b => if i ∈ entries.map (·.1) then f i else b) := by
  induction entries generalizing masks with
  | nil => simp [setAll]
  | cons e entries ih =>
    have hstep : setAll masks (e::entries) = setAll (masks.set e.1 e.2) entries := rfl
    rw [hstep, ih (fun x hx => hval x (by simp [hx])), getElem?_set, hval e (by simp)]
    by_cases hi : e.1 = i
    · subst hi
      by_cases hlt : e.1 < masks.length <;> simp [hlt]
    · simp [hi, Ne.symm hi]

/-- Entries that agree with a predicate and hold all its rows set the mask of the predicate. -/
lemma setAll_replicate {n : ℕ} (hval : ∀ e ∈ entries, e.2 = f e.1)
    (hall : ∀ i < n, f i = true → i ∈ entries.map (·.1)) :
  setAll (replicate n false) entries = (range n).map f := by
  refine ext_getElem? (fun i => ?_)
  rw [getElem?_setAll hval]
  by_cases hi : i < n
  · by_cases hset : i ∈ entries.map (·.1)
    · simp [hi, hset]
    · have hf : f i = false := Bool.eq_false_iff.mpr (fun h => hset (hall i hi h))
      simp [hi, hset, hf]
  · simp [hi]

variable {K : Type} [DecidableEq K]

lemma map_range_eq {L R : List K} {p : ℕ → Bool}
    (hp : ∀ k i, (k, i) ∈ keyed L → (p i = true ↔ k ∈ R)) :
  (range L.length).map p = L.map (fun k => decide (k ∈ R)) := by
  refine ext_getElem (by simp) (fun i h _ => ?_)
  have hi : i < L.length := by simpa using h
  have hpi := hp L[i] i (mem_keyed.mpr (by simp [hi]))
  simp only [getElem_map, getElem_range]
  rw [Bool.eq_iff_iff, hpi, decide_eq_true_eq]

lemma mask_map {C : Type} [DecidableEq C] {f : K → C} (hf : Injective f) (L R : List K) :
  (L.map f).map (fun c => decide (c ∈ R.map f)) = L.map (fun k => decide (k ∈ R)) := by
  rw [map_map]
  refine map_congr_left (fun k _ => ?_)
  simp [mem_map, hf.eq_iff]

variable {K C : Type}

def computeInResult [DecidableEq C] (hash : C → ℕ) (left right : EcPointStore C) : List Bool :=
  setAll (replicate left.itemCount false) ((range left.numBins).flatMap (fun bin =>
      (left.loadBucketItems hash bin).map (fun it =>
        (it.2, decide (it.1 ∈ (right.loadBucketItems hash bin).map (·.1))))))

def ecdhPsiIn [DecidableEq C] (cipher : Cipher K C) (hash : C → ℕ) (numBins : ℕ) (L R : List K) :
    List Bool :=
  computeInResult hash (.saved numBins (leftItems cipher L)) (.saved numBins (rightItems cipher R))

/-- `FeedBucketData`: the rows of the reported items of one bucket are set. -/
def feedBucketData [DecidableEq K] (bucketItems : List (BucketItem K)) (dupIdx : DupIdx K)
    (report : Report) : List (ℕ × Bool) :=
  ((range bucketItems.length).filter (fun i => i ∈ report.map (·.1))).flatMap (fun i =>
    (dupIdxAt bucketItems dupIdx i).map (fun row => (row, true)))

/-- The two columns: plain tensors, or tensors made by bucketing with their buckets side by side. -/
inductive Columns (α : Type)
  | plain (left right : List α)
  | bucketed (buckets : List (List α × List α))

namespace Columns

variable {α β : Type}

def left : Columns α → List α
  | plain left _ => left
  | bucketed buckets => buckets.flatMap (·.1)

def right : Columns α → List α
  | plain _ right => right
  | bucketed buckets => buckets.flatMap (·.2)

def isBucketed : Columns α → Bool
  | plain _ _ => false
  | bucketed _ => true

def map (f : α → β) : Columns α → Columns β
  | plain left right => plain (left.map f) (right.map f)
  | bucketed buckets => bucketed (buckets.map (Prod.map (List.map f) (List.map f)))

lemma left_map (f : α → β) (columns : Columns α) : (columns.map f).left = columns.left.map f := by
  cases columns with
  | plain left right => rfl
  | bucketed buckets => simp [map, left, map_flatMap, flatMap_map]

lemma right_map (f : α → β) (columns : Columns α) :
  (columns.map f).right = columns.right.map f := by
  cases columns with
  | plain left right => rfl
  | bucketed buckets => simp [map, right, map_flatMap, flatMap_map]

end Columns

/-- `InitBucket` and `GetBucketIdx` at both parties. The rows of a plain tensor keep their numbers
in the column, those of a bucket tensor are numbered bucket by bucket. -/
def bucketRows [DecidableEq K] (hash : K → ℕ) (num : ℕ) :
    Columns K → List (List (K × ℕ) × List (K × ℕ))
  | .plain left right => (range num).map (fun bucket =>
      (plainBucket hash num left bucket, plainBucket hash num right bucket))
  | .bucketed buckets => buckets.map (fun bucket => (keyed bucket.1, keyed bucket.2))

def rr22PsiIn [DecidableEq K] (runner : Runner K) (hash : K → ℕ) (num : ℕ) (columns : Columns K) :
    List Bool :=
  setAll (replicate columns.left.length false)
    ((bucketRows hash num columns).zipIdx.flatMap (fun ((left, right), bucket) =>
      let (leftItems, leftDup) := getDeDupItemsInBucket left
      let (rightItems, _) := getDeDupItemsInBucket right
      feedBucketData leftItems leftDup (runner.run bucket leftItems rightItems).1))

def finalizeAndComputeOprfInResult [DecidableEq C] (client server : CipherStore C) : List Bool :=
  let clientIndices := server.lines.flatMap (fun item => (client.searchIndices item).getD [])
  (range client.itemCount).map (fun i => decide (i ∈ clientIndices))

def oprfPsiInClient [DecidableEq C] (prf : K → C) (L : List K)
    (serverBatches : List (List K × List ℕ)) : List Bool :=
  finalizeAndComputeOprfInResult (.saved true (L.map prf))
    (.saveAll false (sentItems prf serverBatches))

/-- `FinalizeAndComputeIntersection`: the server items the client has, repetitions included. -/
def finalizeAndComputeIntersection [DecidableEq C] (client server : CipherStore C) : List C :=
  server.lines.filter (fun item => (client.searchIndices item).isSome)

def oprfServerHandleResult (matchedIndices : List ℕ) (selfItemCount : ℕ) : List Bool :=
  (range selfItemCount).map (fun i => decide (i ∈ matchedIndices))

/-- The left party is the server. The client's items come back in an order of the server's
choice; the server finds the items the client reports among those it cached on sending. -/
def oprfPsiInServer [DecidableEq C] (prf : K → C) (serverBatches : List (List K × List ℕ))
    (clientItems : List C) : List Bool :=
  let matched := finalizeAndComputeIntersection (.saved true clientItems)
    (.saveAll false (sentItems prf serverBatches))
  let cached := (sentStream prf serverBatches).zip (sentRows serverBatches)
  oprfServerHandleResult ((cached.filter (fun it => it.1 ∈ matched)).map (·.2)) cached.length

/-- How a server cuts its keys into batches and shuffles each. -/
structure Batching (K : Type) where
  cut : List K → List (List K × List ℕ)
  total : ∀ keys, totalKeys (cut keys) = keys
  shuffled : ∀ keys, ∀ b ∈ cut keys, IsShuffle b

/-- The algorithms with what they depend on besides the columns. -/
inductive Algo (K C : Type)
  | ecdh (cipher : Cipher K C) (hash : C → ℕ) (numBins : ℕ) (pos : 0 < numBins)
  | rr22 (runner : Runner K) (hash : K → ℕ) (num : ℕ) (pos : 0 < num)
  | oprfClient (prf : K → C) (injective : Injective prf) (batching : Batching K)
  | oprfServer (prf : K → C) (injective : Injective prf) (batching : Batching K)
      (order : List C → List C) (perm : ∀ cs, (order cs).Perm cs)

def Algo.mask [DecidableEq K] [DecidableEq C] (columns : Columns K) : Algo K C → List Bool
  | ecdh cipher hash numBins _ => ecdhPsiIn cipher hash numBins columns.left columns.right
  | rr22 runner hash num _ => rr22PsiIn runner hash num columns
  | oprfClient prf _ batching => oprfPsiInClient prf columns.left (batching.cut columns.right)
  | oprfServer prf _ batching order _ =>
    oprfPsiInServer prf (batching.cut columns.left) (order (columns.right.map prf))

def Algo.isRr22 : Algo K C → Bool
  | rr22 _ _ _ _ => true
  | ecdh _ _ _ _ | oprfClient _ _ _ | oprfServer _ _ _ _ _ => false

/-- The masks of the columns; a column with a null is refused. -/
def psiIn [DecidableEq C] (algo : Algo Text C) (columns : Columns (Option Value)) :
    Option (List Bool) :=
  if none ∈ columns.left ∨ none ∈ columns.right then none
  else some (algo.mask (columns.map stringify))

/-- `LocalIn`: the values are compared, a null equals a null. -/
def localIn (left right : List (Option Value)) : List Bool :=
  left.map (fun v => decide (v ∈ right))

variable {K C : Type} [DecidableEq C]

/-- Whether the ciphertext at a place occurs on the other side. -/
def occurs (ls rs : List C) (i : ℕ) : Bool := (ls[i]?.map (fun c => decide (c ∈ rs))).getD false

variable {c : C} {i : ℕ}

lemma occurs_eq_true {ls rs : List C} :
  occurs ls rs i = true ↔ ∃ c, (c, i) ∈ keyed ls ∧ c ∈ rs := by
  rw [occurs]
  simp only [mem_keyed]
  cases ls[i]? <;> simp

lemma occurs_keyed {ls rs : List C} (h : (c, i) ∈ keyed ls) : occurs ls rs i = decide (c ∈ rs) := by
  rw [occurs, mem_keyed.mp h]
  rfl

lemma occurs_iff {ls rs : List C} (h : ls[i]? = some c) : occurs ls rs i = true ↔ c ∈ rs := by
  rw [occurs_keyed (mem_keyed.mpr h), decide_eq_true_eq]

lemma map_range_occurs (ls rs : List C) :
  (range ls.length).map (occurs ls rs) = ls.map (fun c => decide (c ∈ rs)) :=
  map_range_eq (fun k i h => by rw [occurs_keyed h, decide_eq_true_eq])

variable {numBins : ℕ}

lemma computeInResult_eq (hash : C → ℕ) (hpos : 0 < numBins) (ls rs : List C) :
  computeInResult hash (.saved numBins ls) (.saved numBins rs) =
    ls.map (fun c => decide (c ∈ rs)) := by
  have hcount : (EcPointStore.saved numBins ls).itemCount = ls.length := by
    simp [EcPointStore.saved, EcPointStore.itemCount, keyed]
  have hbin : ∀ (cs : List C) (b : ℕ) (c : C) (i : ℕ),
      (c, i) ∈ (EcPointStore.saved numBins cs).loadBucketItems hash b ↔
        (c, i) ∈ keyed cs ∧ hash c%numBins = b := by
    intro cs b c i
    rw [EcPointStore.loadBucketItems, mem_filter, decide_eq_true_eq]
    rfl
  rw [computeInResult, hcount, ← map_range_occurs]
  refine setAll_replicate ?_ ?_
  · intro e he
    obtain ⟨b, -, he⟩ := mem_flatMap.mp he
    obtain ⟨⟨c, i⟩, hc, rfl⟩ := mem_map.mp he
    obtain ⟨hrow, hb⟩ := (hbin ls b c i).mp hc
    rw [occurs_keyed hrow, Bool.eq_iff_iff, decide_eq_true_eq, decide_eq_true_eq, mem_map]
    constructor
    · rintro ⟨⟨c', j⟩, hc', rfl⟩
      exact mem_of_getElem? (mem_keyed.mp ((hbin rs b _ j).mp hc').1)
    · intro hmem
      obtain ⟨j, hj⟩ := mem_iff_getElem?.mp hmem
      exact ⟨(c, j), (hbin rs b c j).mpr ⟨mem_keyed.mpr hj, hb⟩, rfl⟩
  · intro i hi _
    have hrow : (ls[i], i) ∈ keyed ls := mem_keyed.mpr (by simp [hi])
    refine mem_map.mpr ⟨(i, _), mem_flatMap.mpr ⟨hash ls[i]%numBins,
      mem_range.mpr (Nat.mod_lt _ hpos), mem_map.mpr ⟨(ls[i], i), ?_, rfl⟩⟩, rfl⟩
    exact (hbin ls _ _ _).mpr ⟨hrow, rfl⟩

lemma ecdhPsiIn_eq [DecidableEq K] (cipher : Cipher K C) (hash : C → ℕ) (hpos : 0 < numBins)
    (L R : List K) :
  ecdhPsiIn cipher hash numBins L R = L.map (fun k => decide (k ∈ R)) := by
  have hright : rightItems cipher R = leftItems cipher R := by
    simp [rightItems, leftItems, cipher.comm]
  rw [ecdhPsiIn, computeInResult_eq hash hpos, hright]
  exact mask_map cipher.injective L R

lemma mem_feedBucketData [DecidableEq K] {L R : List (K × ℕ)} {report : Report}
  (hrep : ∀ a ∈ (getDeDupItemsInBucket L).1, a.index ∈ report.map (·.1) ↔ ∃ j, (a.data, j) ∈ R)
  (e : ℕ × Bool) :
  e ∈ feedBucketData (getDeDupItemsInBucket L).1 (getDeDupItemsInBucket L).2 report ↔
    e.2 = true ∧ ∃ k, (k, e.1) ∈ L ∧ ∃ j, (k, j) ∈ R := by
  simp only [feedBucketData, mem_flatMap, mem_filter, mem_range, decide_eq_true_eq,
    mem_map (l := dupIdxAt _ _ _)]
  constructor
  · rintro ⟨n, ⟨hn, hin⟩, row, hrow, rfl⟩
    rw [dupIdxAt_getElem hn, mem_idsOf] at hrow
    rw [← index_getElem hn] at hin
    exact ⟨rfl, _, hrow, (hrep _ (getElem_mem hn)).mp hin⟩
  · rintro ⟨htrue, k, hk, hpeer⟩
    obtain ⟨a, ha, rfl⟩ := mem_map.mp (mem_data.mpr ⟨_, hk⟩)
    obtain ⟨hn, -⟩ := List.getElem?_eq_some_iff.mp (getElem?_index ha)
    refine ⟨a.index, ⟨hn, (hrep a ha).mpr hpeer⟩, e.1, ?_, Prod.ext rfl htrue.symm⟩
    rw [dupIdxAt_index ha]
    exact mem_idsOf.mpr hk

/-- A row of a bucket is set if its key is on the other side of the bucket. -/
def partnered (buckets : List (List (K × ℕ) × List (K × ℕ))) (i : ℕ) : Prop :=
  ∃ bucket ∈ buckets, ∃ k, (k, i) ∈ bucket.1 ∧ ∃ j, (k, j) ∈ bucket.2

lemma rr22PsiIn_eq_map [DecidableEq K] (runner : Runner K) (hash : K → ℕ) (num : ℕ)
  (columns : Columns K) {p : ℕ → Bool}
  (hp : ∀ i, p i = true ↔ partnered (bucketRows hash num columns) i) :
  rr22PsiIn runner hash num columns = (range columns.left.length).map p := by
  have hfeed := fun (bucket : List (K × ℕ) × List (K × ℕ)) (n : ℕ) =>
    mem_feedBucketData (mem_report_left (runner.common n _ _ (data_nodup bucket.1)
      (data_nodup bucket.2)))
  rw [rr22PsiIn]
  refine setAll_replicate ?_ ?_
  · intro e he
    obtain ⟨⟨bucket, n⟩, hbucket, he⟩ := mem_flatMap.mp he
    obtain ⟨htrue, hrow⟩ := (hfeed bucket n e).mp he
    rw [htrue, eq_comm, hp]
    exact ⟨bucket, mem_of_getElem? (mem_keyed.mp hbucket), hrow⟩
  · intro i _ hi
    obtain ⟨bucket, hbucket, hrow⟩ := (hp i).mp hi
    obtain ⟨n, hn⟩ := mem_iff_getElem?.mp hbucket
    refine mem_map.mpr ⟨(i, true), mem_flatMap.mpr ⟨(bucket, n), mem_keyed.mpr hn, ?_⟩, rfl⟩
    exact (hfeed bucket n (i, true)).mpr ⟨rfl, hrow⟩

lemma rr22PsiIn_plain [DecidableEq K] (runner : Runner K) (hash : K → ℕ) {num : ℕ}
  (hpos : 0 < num) (L R : List K) :
  rr22PsiIn runner hash num (.plain L R) = L.map (fun k => decide (k ∈ R)) := by
  rw [← map_range_occurs]
  refine rr22PsiIn_eq_map runner hash num _ (fun i => ?_)
  have hbin : ∀ (keys : List K) (b : ℕ) (k : K) (i : ℕ),
      (k, i) ∈ plainBucket hash num keys b ↔ (k, i) ∈ keyed keys ∧ hash k % num = b := by
    simp [plainBucket]
  rw [occurs_eq_true]
  constructor
  · rintro ⟨k, hk, hmem⟩
    obtain ⟨j, hj⟩ := mem_iff_getElem?.mp hmem
    refine ⟨_, mem_map_of_mem (mem_range.mpr (Nat.mod_lt (hash k) hpos)), k, ?_, j, ?_⟩
    · exact (hbin L _ k i).mpr ⟨hk, rfl⟩
    · exact (hbin R _ k j).mpr ⟨mem_keyed.mpr hj, rfl⟩
  · rintro ⟨bucket, hbucket, k, hk, j, hj⟩
    obtain ⟨b, -, rfl⟩ := mem_map.mp hbucket
    exact ⟨k, ((hbin L b k i).mp hk).1, mem_of_getElem? (mem_keyed.mp ((hbin R b k j).mp hj).1)⟩

/-- Over bucket tensors the mask has at a place what the rows of all buckets at that place have. -/
lemma rr22PsiIn_bucketed [DecidableEq K] (runner : Runner K) (hash : K → ℕ) (num : ℕ)
  (buckets : List (List K × List K)) :
  rr22PsiIn runner hash num (.bucketed buckets)
    = (range (Columns.bucketed buckets).left.length).map
      (fun i => buckets.any (fun bucket => occurs bucket.1 bucket.2 i)) := by
  refine rr22PsiIn_eq_map runner hash num _ (fun i => ?_)
  have hkeyed : ∀ (k : K) (keys : List K), (∃ j, (k, j) ∈ keyed keys) ↔ k ∈ keys := by
    intro k keys
    simp only [mem_keyed]
    exact mem_iff_getElem?.symm
  simp only [any_eq_true, occurs_eq_true, partnered, bucketRows, mem_map,
    exists_exists_and_eq_and, hkeyed]

variable {cs : List C}

lemma mem_searchIndices :
  i ∈ ((CipherStore.saved true cs).searchIndices c).getD [] ↔ (c, i) ∈ keyed cs := by
  rw [CipherStore.searchIndices_saved, ← mem_idsOf]
  split_ifs with h <;> simp [h]

lemma isSome_searchIndices :
    ((CipherStore.saved true cs).searchIndices c).isSome = decide (c ∈ cs) := by
  have hids : idsOf (keyed cs) c = [] ↔ c ∉ cs := by
    simp only [eq_nil_iff_forall_not_mem, mem_idsOf, mem_keyed]
    rw [mem_iff_getElem?, not_exists]
  rw [CipherStore.searchIndices_saved]
  by_cases h : c ∈ cs
  · rw [if_neg (fun hn => hids.mp hn h)]
    simp [h]
  · rw [if_pos (hids.mpr h)]
    simp [h]

variable {batches : List (List K × List ℕ)} {prf : K → C}

lemma oprfPsiInClient_eq [DecidableEq K] (hprf : Injective prf) (L : List K)
  (h : ∀ b ∈ batches, IsShuffle b) :
  oprfPsiInClient prf L batches = L.map (fun k => decide (k ∈ totalKeys batches)) := by
  have hcount : (CipherStore.saved true (L.map prf)).itemCount = (L.map prf).length := by
    rw [CipherStore.itemCount, CipherStore.lines_saved]
  rw [← mask_map hprf, oprfPsiInClient, finalizeAndComputeOprfInResult, hcount]
  refine map_range_eq (fun c i hc => ?_)
  rw [decide_eq_true_eq, mem_flatMap, lines_sent h prf]
  constructor
  · rintro ⟨c', hc', hi⟩
    rw [key_unique (keyed_nodup _) hc (mem_searchIndices.mp hi)]
    exact (mem_sentStream h prf c').mp hc'
  · intro hmem
    exact ⟨c, (mem_sentStream h prf c).mpr hmem, mem_searchIndices.mpr hc⟩

lemma oprfPsiInServer_eq [DecidableEq K] (hprf : Injective prf) (R : List K)
  (h : ∀ b ∈ batches, IsShuffle b) {clientItems : List C} (hperm : clientItems.Perm (R.map prf)) :
  oprfPsiInServer prf batches clientItems = (totalKeys batches).map (fun k => decide (k ∈ R)) := by
  obtain ⟨hlen, hsent⟩ := sent_perm h prf
  have hcount : ((sentStream prf batches).zip (sentRows batches)).length =
      ((totalKeys batches).map prf).length := by
    rw [hsent.length_eq, keyed, length_zipIdx]
  rw [← mask_map hprf, oprfPsiInServer, oprfServerHandleResult, hcount]
  refine map_range_eq (fun c i hc => ?_)
  have hmatched : ∀ c, c ∈ finalizeAndComputeIntersection (.saved true clientItems)
      (.saveAll false (sentItems prf batches)) ↔ c ∈ sentStream prf batches ∧ c ∈ R.map prf := by
    intro c
    rw [finalizeAndComputeIntersection, mem_filter, lines_sent h prf, isSome_searchIndices,
      decide_eq_true_eq, hperm.mem_iff]
  rw [decide_eq_true_eq, mem_map]
  constructor
  · rintro ⟨⟨c', i'⟩, hit, rfl⟩
    obtain ⟨hit, hin⟩ := mem_filter.mp hit
    rw [key_unique (keyed_nodup _) hc (hsent.mem_iff.mp hit)]
    exact ((hmatched c').mp (decide_eq_true_eq.mp hin)).2
  · intro hmem
    have hit := hsent.mem_iff.mpr hc
    refine ⟨(c, i), mem_filter.mpr ⟨hit, decide_eq_true_eq.mpr ((hmatched c).mpr ⟨?_, hmem⟩)⟩, rfl⟩
    exact (mem_sentStream h prf c).mpr (mem_of_getElem? (mem_keyed.mp hc))

lemma mask_eq [DecidableEq K] (algo : Algo K C) {columns : Columns K}
  (h : (algo.isRr22 && columns.isBucketed) = false) :
  algo.mask columns = columns.left.map (fun k => decide (k ∈ columns.right)) := by
  cases algo with
  | ecdh cipher hash numBins pos => exact ecdhPsiIn_eq cipher hash pos _ _
  | rr22 runner hash num pos =>
    cases columns with
    | plain L R => exact rr22PsiIn_plain runner hash pos L R
    | bucketed buckets => cases h
  | oprfClient prf injective batching =>
    have hmask := oprfPsiInClient_eq injective columns.left (batching.shuffled columns.right)
    rwa [batching.total] at hmask
  | oprfServer prf injective batching order perm =>
    have hmask := oprfPsiInServer_eq injective columns.right (batching.shuffled columns.left)
      (perm (columns.right.map prf))
    rwa [batching.total] at hmask

lemma mask_rr22_bucketed [DecidableEq K] {algo : Algo K C} (h : algo.isRr22)
  (buckets : List (List K × List K)) : algo.mask (.bucketed buckets)
    = (range (Columns.bucketed buckets).left.length).map
      (fun i => buckets.any (fun bucket => occurs bucket.1 bucket.2 i)) := by
  cases algo with
  | rr22 runner hash num pos => exact rr22PsiIn_bucketed runner hash num buckets
  | ecdh _ _ _ _ | oprfClient _ _ _ | oprfServer _ _ _ _ _ => cases h

variable {C : Type} [DecidableEq C]

lemma psiIn_eq_some_iff {algo : Algo Text C} {columns : Columns (Option Value)}
  {masks : List Bool} : psiIn algo columns = some masks ↔
    none ∉ columns.left ∧ none ∉ columns.right ∧ algo.mask (columns.map stringify) = masks := by
  rw [psiIn]
  split_ifs with h
  · simp only [false_iff]
    rintro ⟨hl, hr, -⟩
    exact h.elim hl hr
  · rw [not_or] at h
    simp [h.1, h.2]

variable [DecidableEq K]

/-- All keys in one batch, in their own order. -/
def Batching.whole (K : Type) : Batching K where
  cut keys := [(keys, range keys.length)]
  total keys := by simp [totalKeys]
  shuffled keys b hb := by
    rw [mem_singleton.mp hb]
    exact Perm.refl _

end Scql.PsiMembership
