import Mathlib.Algebra.Order.Ring.Nat
import Scql.PsiTables

/-! # The RR22 join

Each party spreads its keys over buckets and hands the distinct keys of a bucket, with the
number of their repetitions, to the RR22 runner. The runner reports the common keys, in one
order at both parties; each party then enumerates the rows of its own side, with the repetitions
of the other side in mind. Repetitions are counted in 32 bits. -/
namespace Scql.Rr22Join

open EquiJoin PsiTables List

variable {D : Type} [DecidableEq D]

structure BucketItem (D : Type) where
  index : ℕ
  /-- A `uint32_t`. -/
  extraDupCnt : ℕ
  data : D

abbrev DupIdx (D : Type) := AList (fun _ : D => List ℕ)

/-- The distinct keys of a bucket, by first occurrence, and the rows of each. -/
def deDupStep (st : List D × DupIdx D) (item : D × ℕ) : List D × DupIdx D :=
  match st.2.lookup item.1 with
  | some ids => (st.1, st.2.insert item.1 (ids ++ [item.2]))
  | none => (st.1 ++ [item.1], st.2.insert item.1 [item.2])

def deDup (items : List (D × ℕ)) : List D × DupIdx D := items.foldl deDupStep ([], ∅)

/-- `GetDeDupItemsInBucket`: the distinct items and the map kept for `CalIntersection`. -/
def getDeDupItemsInBucket (items : List (D × ℕ)) : List (BucketItem D) × DupIdx D :=
  let (keys, dupIdx) := deDup items
  (keys.zipIdx.map (fun it =>
    ⟨it.2, (((dupIdx.lookup it.1).getD []).length - 1) % 2^32, it.1⟩), dupIdx)

variable (items : List (D × ℕ))

lemma deDup_concat (item : D × ℕ) : deDup (items ++ [item]) = deDupStep (deDup items) item := by
  simp [deDup, foldl_append]

lemma deDup_snd : (deDup items).2 = groupIndex items := by
  induction items using reverseRecOn with
  | nil => rfl
  | append_singleton items item ih =>
    have hgroup : groupIndex (items ++ [item]) = (groupIndex items).insert item.1
        (((groupIndex items).lookup item.1).getD [] ++ [item.2]) := by
      simp [groupIndex, foldl_append]
    rw [deDup_concat, deDupStep, hgroup, ← ih]
    cases (deDup items).2.lookup item.1 <;> rfl

lemma deDup_fst : (deDup items).1.Nodup ∧ ∀ d, d ∈ (deDup items).1 ↔ ∃ i, (d, i) ∈ items := by
  induction items using reverseRecOn with
  | nil => simp [deDup]
  | append_singleton items item ih =>
    obtain ⟨hnodup, hmem⟩ := ih
    have hseen : ∀ ids, (deDup items).2.lookup item.1 = some ids ↔
        idsOf items item.1 ≠ [] ∧ idsOf items item.1 = ids := by
      intro ids
      rw [deDup_snd, lookup_groupIndex]
      split_ifs with h <;> simp [h]
    have hids : idsOf items item.1 ≠ [] ↔ item.1 ∈ (deDup items).1 := by
      rw [hmem, Ne, eq_nil_iff_forall_not_mem]
      simp [mem_idsOf]
    rw [deDup_concat, deDupStep]
    split
    · next ids hl =>
      have hin : item.1 ∈ (deDup items).1 := hids.mp ((hseen ids).mp hl).1
      refine ⟨hnodup, fun d => (hmem d).trans ⟨?_, ?_⟩⟩
      · rintro ⟨i, hi⟩
        exact ⟨i, mem_append_left _ hi⟩
      · rintro ⟨i, hi⟩
        rcases mem_append.mp hi with hi | hi
        · exact ⟨i, hi⟩
        · obtain rfl := mem_singleton.mp hi
          exact (hmem _).mp hin
    · next hl =>
      have hout : item.1 ∉ (deDup items).1 := fun hin => by
        have := (hseen _).mpr ⟨hids.mpr hin, rfl⟩
        rw [hl] at this
        cases this
      refine ⟨?_, fun d => ?_⟩
      · exact nodup_append.mpr ⟨hnodup, nodup_singleton _, fun a ha b hb => by
          rw [mem_singleton.mp hb]
          rintro rfl
          exact hout ha⟩
      · rw [mem_append, hmem]
        obtain ⟨k, j⟩ := item
        simp only [mem_append, mem_singleton, Prod.mk.injEq]
        constructor
        · rintro (⟨i, hi⟩ | rfl)
          · exact ⟨i, .inl hi⟩
          · exact ⟨j, .inr ⟨rfl, rfl⟩⟩
        · rintro ⟨i, hi | ⟨rfl, rfl⟩⟩
          · exact .inl ⟨i, hi⟩
          · exact .inr rfl

lemma lookup_dupIdx (d : D) :
  ((getDeDupItemsInBucket items).2.lookup d).getD [] = idsOf items d := by
  rw [getDeDupItemsInBucket, deDup_snd, getD_lookup_groupIndex]

/-- What the runner reports to a party for one bucket: places in its list of items, and the
extra repetitions of each at the peer. -/
abbrev Report := List (ℕ × ℕ)

/-- The reports name the common items, each once and in one order at both parties. -/
def ReportsCommon (left right : List (BucketItem D)) (out : Report × Report) : Prop :=
  ∃ common : List (BucketItem D × BucketItem D),
    (common.map (·.1.data)).Nodup ∧
    (∀ p ∈ common, p.1 ∈ left ∧ p.2 ∈ right ∧ p.1.data = p.2.data) ∧
    (∀ a ∈ left, ∀ b ∈ right, a.data = b.data → a.data ∈ common.map (·.1.data)) ∧
    out.1 = common.map (fun p => (p.1.index, p.2.extraDupCnt)) ∧
    out.2 = common.map (fun p => (p.2.index, p.1.extraDupCnt))

/-- The RR22 library, run on the distinct items of each bucket. -/
structure Runner (D : Type) where
  run : ℕ → List (BucketItem D) → List (BucketItem D) → Report × Report
  common : ∀ bucket left right, (left.map (·.data)).Nodup → (right.map (·.data)).Nodup →
    ReportsCommon left right (run bucket left right)

def dupIdxAt (bucketItems : List (BucketItem D)) (dupIdx : DupIdx D) (index : ℕ) : List ℕ :=
  match bucketItems[index]? with
  | some item => (dupIdx.lookup item.data).getD []
  | none => []

/-- The rows of the common items: the left party repeats the whole group, the right party
repeats each of its rows. The sum with the count of the peer is one of 32 bits. -/
def matchedRows (isLeft : Bool) (bucketItems : List (BucketItem D)) (dupIdx : DupIdx D)
    (report : Report) : List ℕ :=
  report.flatMap (fun (index, peerCnt) =>
    let rows := dupIdxAt bucketItems dupIdx index
    let times := (peerCnt + 1) % 2^32
    if isLeft then (range times).flatMap (fun _ => rows)
    else rows.flatMap (fun row => (range times).map (fun _ => row)))

def unmatchedRows (bucketItems : List (BucketItem D)) (dupIdx : DupIdx D) (report : Report) :
    List ℕ :=
  ((range bucketItems.length).filter (fun i => i ∉ report.map (·.1))).flatMap
    (dupIdxAt bucketItems dupIdx)

/-- `CalIntersection`; the outer side of an outer join sends the number of its rows without a
match, the other side appends the number of nulls it received. -/
def calIntersection (isLeft : Bool) (joinType : JoinKind) (bucketItems : List (BucketItem D))
    (dupIdx : DupIdx D) (report : Report) (nullCnt : ℕ) : List (Option ℕ) :=
  (matchedRows isLeft bucketItems dupIdx report).map some ++
    if (joinType = .left ∧ isLeft) ∨ (joinType = .right ∧ ¬isLeft) then
      (unmatchedRows bucketItems dupIdx report).map some
    else if joinType = .left ∨ joinType = .right then replicate nullCnt none
    else []

def bucketJoin (runner : Runner D) (joinType : JoinKind) (bucket : ℕ) (left right : List (D × ℕ)) :
    List (Option ℕ) × List (Option ℕ) :=
  let (leftItems, leftDup) := getDeDupItemsInBucket left
  let (rightItems, rightDup) := getDeDupItemsInBucket right
  let (ofLeft, ofRight) := runner.run bucket leftItems rightItems
  (calIntersection true joinType leftItems leftDup ofLeft
      (unmatchedRows rightItems rightDup ofRight).length,
    calIntersection false joinType rightItems rightDup ofRight
      (unmatchedRows leftItems leftDup ofLeft).length)

/-- `InitBucket` on a plain tensor: the rows of one bucket. -/
def plainBucket (hash : D → ℕ) (num : ℕ) (keys : List D) (idx : ℕ) : List (D × ℕ) :=
  (keyed keys).filter (fun it => hash it.1%num = idx)

/-- `Rr22PsiJoin` of two plain tensors: the buckets' indices one after the other. -/
def rr22PsiJoinPlain (runner : Runner D) (hash : D → ℕ) (num : ℕ) (joinType : JoinKind)
    (L R : List D) : List (Option ℕ) × List (Option ℕ) :=
  let bucket := fun idx =>
    bucketJoin runner joinType idx (plainBucket hash num L idx) (plainBucket hash num R idx)
  ((range num).flatMap (fun idx => (bucket idx).1), (range num).flatMap (fun idx => (bucket idx).2))

/-- `Rr22PsiJoin` of two tensors made by bucketing: slice by slice. -/
def rr22PsiJoinBuckets (runner : Runner D) (joinType : JoinKind) (L R : List (List D)) :
    List (List (Option ℕ)) × List (List (Option ℕ)) :=
  let bucket := fun idx =>
    bucketJoin runner joinType idx (keyed (L.getD idx [])) (keyed (R.getD idx []))
  ((range L.length).map (fun idx => (bucket idx).1),
    (range L.length).map (fun idx => (bucket idx).2))

variable {items : List (D × ℕ)} {a : BucketItem D}

lemma data_items (items : List (D × ℕ)) :
  (getDeDupItemsInBucket items).1.map (·.data) = (deDup items).1 := by
  simp only [getDeDupItemsInBucket, map_map, Function.comp_def]
  exact zipIdx_map_fst 0 _

lemma data_nodup (items : List (D × ℕ)) : ((getDeDupItemsInBucket items).1.map (·.data)).Nodup := by
  rw [data_items]
  exact (deDup_fst items).1

lemma mem_data {d : D} :
  d ∈ (getDeDupItemsInBucket items).1.map (·.data) ↔ ∃ i, (d, i) ∈ items := by
  rw [data_items]
  exact (deDup_fst items).2 d

lemma getElem?_index (h : a ∈ (getDeDupItemsInBucket items).1) :
  (getDeDupItemsInBucket items).1[a.index]? = some a := by
  obtain ⟨⟨d, n⟩, hd, rfl⟩ := mem_map.mp h
  have hn : (deDup items).1[n]? = some d := mem_zipIdx_iff_getElem?.mp hd
  simp only [getDeDupItemsInBucket, getElem?_map, getElem?_zipIdx, hn, Option.map_some,
    Nat.zero_add]
  rfl

lemma dupIdxAt_index (h : a ∈ (getDeDupItemsInBucket items).1) :
  dupIdxAt (getDeDupItemsInBucket items).1 (getDeDupItemsInBucket items).2 a.index =
    idsOf items a.data := by
  rw [dupIdxAt, getElem?_index h]
  exact lookup_dupIdx items a.data

lemma index_getElem {n : ℕ} (h : n < (getDeDupItemsInBucket items).1.length) :
  (getDeDupItemsInBucket items).1[n].index = n := by
  simp [getDeDupItemsInBucket]

lemma dupIdxAt_getElem {n : ℕ} (h : n < (getDeDupItemsInBucket items).1.length) :
  dupIdxAt (getDeDupItemsInBucket items).1 (getDeDupItemsInBucket items).2 n =
    idsOf items (getDeDupItemsInBucket items).1[n].data := by
  rw [← dupIdxAt_index (getElem_mem h), index_getElem h]

/-- With the one that is not extra, a party reports the number of its rows up to `2^32`. -/
lemma extraDupCnt_succ (h : a ∈ (getDeDupItemsInBucket items).1) :
  (a.extraDupCnt + 1) % 2^32 = (idsOf items a.data).length % 2^32 := by
  have hcnt : a.extraDupCnt = ((idsOf items a.data).length - 1) % 2^32 := by
    rw [← lookup_dupIdx]
    obtain ⟨⟨d, n⟩, -, rfl⟩ := mem_map.mp h
    rfl
  obtain ⟨i, hi⟩ := mem_data.mp (mem_map.mpr ⟨a, h, rfl⟩)
  have hpos := length_pos_of_mem (mem_idsOf.mpr hi)
  omega

lemma flatMap_range_const {α β : Type} (xs : List α) (ys : List β) :
  (range xs.length).flatMap (fun _ => ys) = xs.flatMap (fun _ => ys) := by
  have hconst : ∀ {γ : Type} (zs : List γ),
      zs.flatMap (fun _ => ys) = (replicate zs.length ys).flatten := fun zs => by
    rw [List.flatMap, map_const']
  rw [hconst, hconst, length_range]

/-- The rows of one common key: the left group once for every right row, each right row as
often as the left group is long. -/
lemma zip_group (ls rs : List ℕ) : let l := (range rs.length).flatMap (fun _ => ls)
    let r := rs.flatMap (fun j => (range ls.length).map (fun _ => j))
    l.length = r.length ∧ l.zip r = rs.flatMap (fun j => ls.map (fun i => (i, j))) := by
  intro l r
  obtain ⟨hlen, hzip⟩ := zip_flatMap rs (fun _ => ls)
    (fun j => (range ls.length).map (fun _ => j)) (fun j _ => by simp)
  rw [← flatMap_range_const rs ls] at hlen hzip
  refine ⟨hlen, hzip.trans (flatMap_congr (fun j _ => ?_))⟩
  rw [map_const', length_range, ← map_const', zip_map_right]
  simp [zip_eq_zipWith]

variable {L R : List (D × ℕ)}

lemma unmatchedRows_spec {report : Report} (hL : (L.map (·.2)).Nodup)
  (hrep : ∀ a ∈ (getDeDupItemsInBucket L).1, a.index ∈ report.map (·.1) ↔ ∃ j, (a.data, j) ∈ R) :
  let us := unmatchedRows (getDeDupItemsInBucket L).1 (getDeDupItemsInBucket L).2 report
  us.Nodup ∧ ∀ i, i ∈ us ↔ Unmatched L R i := by
  intro us
  constructor
  · refine nodup_flatMap.mpr ⟨fun n hn => ?_, ?_⟩
    · rw [dupIdxAt_getElem (mem_range.mp (mem_of_mem_filter hn))]
      exact idsOf_nodup hL _
    · refine (List.Pairwise.and_mem.mp (nodup_range.filter _)).imp ?_
      rintro n n' ⟨hn, hn', hne⟩ i hi hi'
      have hlt := mem_range.mp (mem_of_mem_filter hn)
      have hlt' := mem_range.mp (mem_of_mem_filter hn')
      rw [dupIdxAt_getElem hlt, mem_idsOf] at hi
      rw [dupIdxAt_getElem hlt', mem_idsOf] at hi'
      have hdata := key_unique hL hi hi'
      have hinj := inj_on_of_nodup_map (data_nodup L) (getElem_mem hlt) (getElem_mem hlt') hdata
      exact hne (by rw [← index_getElem hlt, ← index_getElem hlt', hinj])
  · intro i
    simp only [us, unmatchedRows, mem_flatMap, mem_filter, mem_range, decide_eq_true_eq, Unmatched]
    constructor
    · rintro ⟨n, ⟨hn, hout⟩, hi⟩
      rw [dupIdxAt_getElem hn, mem_idsOf] at hi
      refine ⟨_, hi, fun j hj => hout ?_⟩
      rw [← index_getElem hn]
      exact (hrep _ (getElem_mem hn)).mpr ⟨j, hj⟩
    · rintro ⟨k, hk, hno⟩
      obtain ⟨a, ha, rfl⟩ := mem_map.mp (mem_data.mpr ⟨i, hk⟩)
      obtain ⟨hn, -⟩ := List.getElem?_eq_some_iff.mp (getElem?_index ha)
      refine ⟨a.index, ⟨hn, fun hin => ?_⟩, ?_⟩
      · obtain ⟨j, hj⟩ := (hrep a ha).mp hin
        exact hno j hj
      · rw [dupIdxAt_index ha]
        exact mem_idsOf.mpr hk

variable {out : Report × Report}

/-- No key of both sides has more than so many rows on one of them. -/
def AtMost (m : ℕ) (L R : List (D × ℕ)) : Prop :=
  ∀ d, idsOf L d ≠ [] → idsOf R d ≠ [] → (idsOf L d).length ≤ m ∧ (idsOf R d).length ≤ m

/-- The rows the two parties enumerate for the common items. -/
lemma matchedRows_eq {common : List (BucketItem D × BucketItem D)}
  (hsound : ∀ p ∈ common, p.1 ∈ (getDeDupItemsInBucket L).1 ∧ p.2 ∈ (getDeDupItemsInBucket R).1 ∧
    p.1.data = p.2.data) :
  matchedRows true (getDeDupItemsInBucket L).1 (getDeDupItemsInBucket L).2
      (common.map (fun p => (p.1.index, p.2.extraDupCnt))) =
    common.flatMap (fun p => (range ((idsOf R p.1.data).length % 2^32)).flatMap
      (fun _ => idsOf L p.1.data)) ∧
  matchedRows false (getDeDupItemsInBucket R).1 (getDeDupItemsInBucket R).2
      (common.map (fun p => (p.2.index, p.1.extraDupCnt))) =
    common.flatMap (fun p => (idsOf R p.1.data).flatMap (fun j =>
      (range ((idsOf L p.1.data).length % 2^32)).map (fun _ => j))) := by
  constructor
  · simp only [matchedRows, flatMap_map, if_true]
    refine flatMap_congr (fun p hp => ?_)
    obtain ⟨ha, hb, hab⟩ := hsound p hp
    rw [dupIdxAt_index ha, extraDupCnt_succ hb, hab]
  · simp only [matchedRows, flatMap_map, Bool.false_eq_true, if_false]
    refine flatMap_congr (fun p hp => ?_)
    obtain ⟨ha, hb, hab⟩ := hsound p hp
    rw [dupIdxAt_index hb, extraDupCnt_succ ha, hab]

/-- The two enumerations of the common items, zipped: every pair of rows with equal keys. -/
lemma matchedRows_spec (hL : (L.map (·.2)).Nodup) (hR : (R.map (·.2)).Nodup)
  (hcount : AtMost (2^32 - 1) L R)
  (h : ReportsCommon (getDeDupItemsInBucket L).1 (getDeDupItemsInBucket R).1 out) :
  let l := matchedRows true (getDeDupItemsInBucket L).1 (getDeDupItemsInBucket L).2 out.1
  let r := matchedRows false (getDeDupItemsInBucket R).1 (getDeDupItemsInBucket R).2 out.2
  l.length = r.length ∧ IsMatching L R (l.zip r) := by
  intro l r
  obtain ⟨common, hnodup, hsound, hcomplete, hleft, hright⟩ := h
  obtain ⟨hl, hr⟩ := matchedRows_eq hsound
  have hmod : ∀ p ∈ common, (idsOf L p.1.data).length % 2^32 = (idsOf L p.1.data).length ∧
      (idsOf R p.1.data).length % 2^32 = (idsOf R p.1.data).length := by
    intro p hp
    obtain ⟨ha, hb, hab⟩ := hsound p hp
    obtain ⟨i, hi⟩ := mem_data.mp (mem_map_of_mem ha)
    obtain ⟨j, hj⟩ := mem_data.mp (mem_map_of_mem hb)
    obtain ⟨hcl, hcr⟩ := hcount p.1.data (ne_nil_of_mem (mem_idsOf.mpr hi))
      (ne_nil_of_mem (mem_idsOf.mpr (hab ▸ hj)))
    omega
  rw [← hleft, flatMap_congr (fun p hp => by rw [(hmod p hp).2])] at hl
  rw [← hright, flatMap_congr (fun p hp => by rw [(hmod p hp).1])] at hr
  obtain ⟨hlen, hzip⟩ := zip_flatMap common _ _ (fun p _ => (zip_group (idsOf L p.1.data)
    (idsOf R p.1.data)).1)
  rw [← hl, ← hr] at hlen hzip
  refine ⟨hlen, ?_⟩
  have hcross : l.zip r = crossProducts (common.map (·.1.data)) L R := by
    rw [crossProducts, flatMap_map]
    exact hzip.trans (flatMap_congr (fun p _ => (zip_group _ _).2))
  rw [hcross]
  refine isMatching_crossProducts hL hR hnodup (fun k i j hi hj => ?_)
  obtain ⟨a, ha, rfl⟩ := mem_map.mp (mem_data.mpr ⟨i, hi⟩)
  obtain ⟨b, hb, hab⟩ := mem_map.mp (mem_data.mpr ⟨j, hj⟩)
  exact hcomplete a ha b hb hab.symm

lemma mem_report_left
  (h : ReportsCommon (getDeDupItemsInBucket L).1 (getDeDupItemsInBucket R).1 out) :
  ∀ a ∈ (getDeDupItemsInBucket L).1, a.index ∈ out.1.map (·.1) ↔ ∃ j, (a.data, j) ∈ R := by
  obtain ⟨common, -, hsound, hcomplete, hleft, -⟩ := h
  intro a ha
  rw [hleft, map_map, ← mem_data]
  constructor
  · intro hin
    obtain ⟨p, hp, hidx⟩ := mem_map.mp hin
    obtain ⟨hpl, hpr, hpd⟩ := hsound p hp
    have hpa : p.1 = a := by
      have h₁ := getElem?_index hpl
      rw [show p.1.index = a.index from hidx, getElem?_index ha] at h₁
      exact (Option.some.inj h₁).symm
    exact mem_map.mpr ⟨p.2, hpr, by rw [← hpd, hpa]⟩
  · intro hin
    obtain ⟨b, hb, hab⟩ := mem_map.mp hin
    obtain ⟨p, hp, hpa⟩ := mem_map.mp (hcomplete a ha b hb hab.symm)
    have heq := inj_on_of_nodup_map (data_nodup L) (hsound p hp).1 ha hpa
    exact mem_map.mpr ⟨p, hp, congrArg BucketItem.index heq⟩

omit [DecidableEq D] in
lemma ReportsCommon.swap {left right : List (BucketItem D)} (h : ReportsCommon left right out) :
  ReportsCommon right left out.swap := by
  obtain ⟨common, hnodup, hsound, hcomplete, hleft, hright⟩ := h
  have hdata : (common.map Prod.swap).map (·.1.data) = common.map (·.1.data) := by
    rw [map_map]
    exact map_congr_left (fun p hp => (hsound p hp).2.2.symm)
  refine ⟨common.map Prod.swap, hdata ▸ hnodup, ?_, ?_, ?_, ?_⟩
  · intro p hp
    obtain ⟨q, hq, rfl⟩ := mem_map.mp hp
    obtain ⟨ha, hb, hab⟩ := hsound q hq
    exact ⟨hb, ha, hab.symm⟩
  · intro b hb a ha hab
    rw [hdata, hab]
    exact hcomplete a ha b hb hab.symm
  · rw [map_map]
    exact hright
  · rw [map_map]
    exact hleft

section Bucket

variable (runner : Runner D) (joinType : JoinKind) (bucket : ℕ)
  (hL : (L.map (·.2)).Nodup) (hR : (R.map (·.2)).Nodup)

include hL hR

lemma bucketJoin_joined (hcount : AtMost (2^32 - 1) L R) :
  let result := bucketJoin runner joinType bucket L R
  result.1.length = result.2.length ∧ IsJoin joinType L R (result.1.zip result.2) := by
  intro result
  have hcommon := runner.common bucket _ _ (data_nodup L) (data_nodup R)
  obtain ⟨hlen, hm⟩ := matchedRows_spec hL hR hcount hcommon
  have hj := isJoin_tails hlen hm (unmatchedRows_spec hL (mem_report_left hcommon))
    (unmatchedRows_spec hR (mem_report_left hcommon.swap)) joinType
  cases joinType <;> exact hj

/-- Of one key that the right side repeats `2^32` times the left party appends no row. -/
lemma bucketJoin_overflow {d : D} (hkeys : ∀ x ∈ L, x.1 = d) (hkeys' : ∀ x ∈ R, x.1 = d) {i j : ℕ}
  (hi : (d, i) ∈ L) (hj : (d, j) ∈ R) (htimes : (idsOf R d).length = 2^32) :
  (bucketJoin runner joinType bucket L R).1 = [] := by
  have hcommon := runner.common bucket _ _ (data_nodup L) (data_nodup R)
  have hleft := (unmatchedRows_spec hL (mem_report_left hcommon)).2
  have hright := (unmatchedRows_spec hR (mem_report_left hcommon.swap)).2
  have hnoLeft : unmatchedRows (getDeDupItemsInBucket L).1 (getDeDupItemsInBucket L).2
      (runner.run bucket (getDeDupItemsInBucket L).1 (getDeDupItemsInBucket R).1).1 = [] := by
    refine eq_nil_iff_forall_not_mem.mpr (fun n hn => ?_)
    obtain ⟨k, hk, hno⟩ := (hleft n).mp hn
    obtain rfl : k = d := hkeys _ hk
    exact hno j hj
  have hnoRight : unmatchedRows (getDeDupItemsInBucket R).1 (getDeDupItemsInBucket R).2
      (runner.run bucket (getDeDupItemsInBucket L).1 (getDeDupItemsInBucket R).1).2 = [] := by
    refine eq_nil_iff_forall_not_mem.mpr (fun n hn => ?_)
    obtain ⟨k, hk, hno⟩ := (hright n).mp hn
    obtain rfl : k = d := hkeys' _ hk
    exact hno i hi
  obtain ⟨common, -, hsound, -, hrows, -⟩ := hcommon
  have hmatched := (matchedRows_eq hsound).1
  have hnone : common.flatMap (fun p => (range ((idsOf R p.1.data).length % 2^32)).flatMap
      (fun _ => idsOf L p.1.data)) = [] := by
    refine flatMap_eq_nil_iff.mpr (fun p hp => ?_)
    obtain ⟨n, hn⟩ := mem_data.mp (mem_map_of_mem (hsound p hp).1)
    have hd : p.1.data = d := hkeys _ hn
    rw [hd, htimes, Nat.mod_self]
    rfl
  rw [← hrows, hnone] at hmatched
  simp only [bucketJoin, calIntersection, hmatched, hnoLeft, hnoRight, map_nil, length_nil,
    replicate_zero, ite_self, append_nil]

end Bucket

/-- No key of both tables occurs more often than so many times in one of them. -/
def Repeated (m : ℕ) (L R : List D) : Prop := ∀ d ∈ L, d ∈ R → L.count d ≤ m ∧ R.count d ≤ m

lemma length_idsOf_keyed (keys : List D) (d : D) :
  (idsOf (keyed keys) d).length = keys.count d := by
  have hcount : ((keyed keys).map (·.1)).count d = keys.count d := by
    rw [keyed, zipIdx_map_fst]
  rw [← hcount, idsOf, length_map, ← countP_eq_length_filter, count, countP_map]
  exact countP_congr (fun x _ => by simp)

lemma idsOf_sublist {L' : List (D × ℕ)} (h : L'.Sublist L) (d : D) :
  (idsOf L' d).Sublist (idsOf L d) :=
  (h.filter _).map _

lemma atMost_of_sublist {m : ℕ} {keysL keysR : List D} (hrep : Repeated m keysL keysR)
  (hL : L.Sublist (keyed keysL)) (hR : R.Sublist (keyed keysR)) : AtMost m L R := by
  intro d hl hr
  have hmem : ∀ {keys : List D}, idsOf (keyed keys) d ≠ [] → d ∈ keys := by
    intro keys hne
    obtain ⟨i, hi⟩ := exists_mem_of_ne_nil _ hne
    exact mem_of_getElem? (mem_keyed.mp (mem_idsOf.mp hi))
  have hne : ∀ {l l' : List ℕ}, l.Sublist l' → l ≠ [] → l' ≠ [] := by
    rintro l l' h hnil rfl
    exact hnil (sublist_nil.mp h)
  have hboth := hrep d (hmem (hne (idsOf_sublist hL d) hl)) (hmem (hne (idsOf_sublist hR d) hr))
  rw [← length_idsOf_keyed, ← length_idsOf_keyed] at hboth
  exact ⟨Nat.le_trans (idsOf_sublist hL d).length_le hboth.1,
    Nat.le_trans (idsOf_sublist hR d).length_le hboth.2⟩

lemma rr22PsiJoinPlain_joined (runner : Runner D) (joinType : JoinKind) (hash : D → ℕ) {num : ℕ}
  (hnum : 0 < num) {L R : List D} (hrep : Repeated (2^32 - 1) L R) :
  let result := rr22PsiJoinPlain runner hash num joinType L R
  result.1.length = result.2.length ∧
    IsJoin joinType (keyed L) (keyed R) (result.1.zip result.2) := by
  intro result
  have hbucket : ∀ (keys : List D) (idx : ℕ), ((plainBucket hash num keys idx).map (·.2)).Nodup :=
    fun keys idx => (keyed_nodup keys).sublist (filter_sublist.map _)
  have hall : ∀ k, hash k % num ∈ range num := fun k => mem_range.mpr (Nat.mod_lt _ hnum)
  have hslice := fun idx => bucketJoin_joined runner joinType idx (hbucket L idx) (hbucket R idx)
    (atMost_of_sublist hrep filter_sublist filter_sublist)
  obtain ⟨hlen, hzip⟩ := zip_flatMap (range num) _ _ (fun idx _ => (hslice idx).1)
  refine ⟨hlen, ?_⟩
  rw [show result.1.zip result.2 = _ from hzip]
  refine (IsJoin.parts (bins_nodup nodup_range (keyed_nodup L))
    (bins_nodup nodup_range (keyed_nodup R)) ?_ (fun idx _ => (hslice idx).2)).of_mem_iff
    (mem_bins hall) (mem_bins hall)
  intro b _ b' _ k i j hi hj
  exact (mem_bin.mp hi).2.symm.trans (mem_bin.mp hj).2

lemma rr22PsiJoinPlain_overflow (runner : Runner D) (joinType : JoinKind) (d : D) :
  ¬IsJoin joinType (keyed [d]) (keyed (replicate (2^32) d))
    ((rr22PsiJoinPlain runner (fun _ => 0) 1 joinType [d] (replicate (2^32) d)).1.zip
      (rr22PsiJoinPlain runner (fun _ => 0) 1 joinType [d] (replicate (2^32) d)).2) := by
  intro h
  have hbucket : ∀ keys : List D, plainBucket (fun _ => 0) 1 keys 0 = keyed keys := by
    intro keys
    exact filter_eq_self.mpr (fun _ _ => rfl)
  have hkeys : ∀ x ∈ keyed (replicate (2^32) d), x.1 = d := by
    intro x hx
    exact eq_of_mem_replicate (mem_of_getElem? (mem_keyed.mp hx))
  have hi : (d, 0) ∈ keyed [d] := mem_keyed.mpr rfl
  have hj : (d, 0) ∈ keyed (replicate (2^32) d) :=
    mem_keyed.mpr (by rw [getElem?_replicate, if_pos (by decide)])
  have hempty := bucketJoin_overflow runner joinType 0 (keyed_nodup [d])
    (keyed_nodup (replicate (2^32) d)) (by simp [keyed]) hkeys hi hj
    (by rw [length_idsOf_keyed, count_replicate_self])
  have hpair := (h.mem_iff _).mpr (.both hi hj)
  rw [rr22PsiJoinPlain] at hpair
  dsimp only at hpair
  rw [range_one, flatMap_singleton, hbucket, hbucket, hempty] at hpair
  cases hpair

/-- The common items found in the clear, in the order of the left list. -/
def commonItems (left right : List (BucketItem D)) : List (BucketItem D × BucketItem D) :=
  left.filterMap (fun a => (right.find? (fun b => b.data = a.data)).map (fun b => (a, b)))

lemma mem_commonItems {left right : List (BucketItem D)} {p : BucketItem D × BucketItem D}
  (h : p ∈ commonItems left right) : p.1 ∈ left ∧ p.2 ∈ right ∧ p.1.data = p.2.data := by
  obtain ⟨a, ha, hp⟩ := mem_filterMap.mp h
  obtain ⟨b, hb, rfl⟩ := Option.map_eq_some_iff.mp hp
  have hdata : b.data = a.data := by simpa using find?_some hb
  exact ⟨ha, mem_of_find?_eq_some hb, hdata.symm⟩

lemma commonItems_fst (left right : List (BucketItem D)) : (commonItems left right).map (·.1) =
    left.filter (fun a => (right.find? (fun b => b.data = a.data)).isSome) := by
  induction left with
  | nil => rfl
  | cons a left ih =>
    rw [commonItems] at ih ⊢
    cases h : right.find? (fun b => b.data = a.data) <;> simp [h, ih]

def clearRunner (D : Type) [DecidableEq D] : Runner D where
  run _ left right :=
    ((commonItems left right).map (fun p => (p.1.index, p.2.extraDupCnt)),
      (commonItems left right).map (fun p => (p.2.index, p.1.extraDupCnt)))
  common := by
    intro _ left right hleft _
    refine ⟨commonItems left right, ?_, fun p => mem_commonItems, ?_, rfl, rfl⟩
    · have hfst := congrArg (map BucketItem.data) (commonItems_fst left right)
      rw [map_map] at hfst
      exact hfst ▸ hleft.sublist (filter_sublist.map _)
    · intro a ha b hb hab
      obtain ⟨b', hb'⟩ := Option.isSome_iff_exists.mp (find?_isSome.mpr
        ⟨b, hb, by simpa using hab.symm⟩ : (right.find? (fun b => b.data = a.data)).isSome)
      exact mem_map.mpr ⟨(a, b'), mem_filterMap.mpr ⟨a, ha, by rw [hb']; rfl⟩, rfl⟩

end Scql.Rr22Join
