import Mathlib.Algebra.BigOperators.Group.List.Basic
import Scql.EquiJoin
import Scql.KeyGroups
import Scql.SecretJoinAlignment

/-! # Correctness of the secret join

Both tables fall into the rows of one key after another. The copies of the left rows and the
aligned copies of the right rows, key by key, pair every left row of the key with every right
row. -/
namespace Scql.SecretJoin

open List Function

variable {nk : ℕ} {X : Type}

abbrev ofKey (l : List (Key nk × X)) : Key nk → List (Key nk × X) := KeyGroups.withKey Prod.fst l

lemma countOf_eq (l : List (Key nk × X)) (k : Key nk) : countOf k l = ((ofKey l k).length : ℤ) :=
    rfl

lemma ranks_append (pre xs ys : List (Key nk × X)) :
  ranks pre (xs ++ ys) = ranks pre xs ++ ranks (pre ++ xs) ys := by
  induction xs generalizing pre with
  | nil => simp [ranks]
  | cons x xs ih => simp [ranks, ih]

lemma ranks_same {pre xs : List (Key nk × X)} {k : Key nk} (hxs : ∀ r ∈ xs, r.1 = k) :
  ranks pre xs = (range xs.length).map (fun s : ℕ => countOf k pre+s+1) := by
  induction xs generalizing pre with
  | nil => rfl
  | cons r xs ih =>
    have hr := hxs r (by simp)
    have hcount : countOf k (pre ++ [r]) = countOf k pre+1 := by
      rw [countOf_append]
      simp [countOf, hr]
    rw [ranks, ih (fun x hx => hxs x (by simp [hx])), hr, hcount, length_cons,
      range_succ_eq_map, map_cons, map_map, Nat.cast_zero, add_zero]
    congr 1
    refine map_congr_left (fun s _ => ?_)
    simp only [comp_apply, Nat.succ_eq_add_one, Nat.cast_add, Nat.cast_one]
    ring

lemma zip_ranks {ks : List (Key nk)} (hks : ks.Nodup) (rowsOf : Key nk → List (Key nk × X))
  (hrows : ∀ k, ∀ r ∈ rowsOf k, r.1 = k) {pre : List (Key nk × X)} (hpre : ∀ r ∈ pre, r.1 ∉ ks) :
  (ks.flatMap rowsOf).zip (ranks pre (ks.flatMap rowsOf)) =
    ks.flatMap (fun k => (rowsOf k).zipIdx.map (fun x => (x.1, (x.2 : ℤ)+1))) := by
  induction ks generalizing pre with
  | nil => rfl
  | cons k ks ih =>
    obtain ⟨hk, hks⟩ := nodup_cons.mp hks
    have hzero : countOf k pre = 0 := by
      rw [countOf, filter_eq_nil_iff.mpr (fun r hr => by
        have := hpre r hr
        simp only [mem_cons, not_or] at this
        simpa using this.1)]
      rfl
    have hpre' : ∀ r ∈ pre ++ rowsOf k, r.1 ∉ ks := by
      intro r hr hin
      rcases mem_append.mp hr with hr | hr
      · exact hpre r hr (by simp [hin])
      · exact hk (hrows k r hr ▸ hin)
    have hgroup : (rowsOf k).zip (ranks pre (rowsOf k)) =
        (rowsOf k).zipIdx.map (fun x => (x.1, (x.2 : ℤ)+1)) := by
      rw [ranks_same (hrows k), hzero]
      refine ext_getElem (by simp) (fun i _ _ => by simp)
    rw [flatMap_cons, flatMap_cons, ranks_append, zip_append, hgroup, ih hks hpre']
    rw [ranks_same (hrows k)]
    simp

lemma length_ranks (pre xs : List (Key nk × X)) : (ranks pre xs).length = xs.length := by
  induction xs generalizing pre with
  | nil => rfl
  | cons x xs ih => simp [ranks, ih]

variable {Q : Type}

lemma zip_alignedPlace (b : ℕ) {cc : List ℤ} {re : List (RightRow Q)} (hlen : cc.length = re.length)
  : let places := List.zipWith3 alignedPlace ((List.range' b re.length).map Int.ofNat) cc re
  places.length = re.length ∧ places.zip (re.map (·.1)) = ((cc.zip re).zipIdx b).map placed := by
  induction re generalizing b cc with
  | nil => cases cc <;> simp [List.zipWith3]
  | cons r re ih =>
    cases cc with
    | nil => simp at hlen
    | cons c cc =>
      have hlen' : cc.length = re.length := by simpa using hlen
      obtain ⟨hrl, hrest⟩ := ih (b+1) hlen'
      rw [length_cons, range'_succ, map_cons, List.zipWith3, map_cons]
      refine ⟨by rw [length_cons, hrl], ?_⟩
      rw [zip_cons_cons, hrest, zip_cons_cons, zipIdx_cons, map_cons]
      rfl

lemma zip_copies (cs : List ℕ) (vs : List (RightRow Q)) (hlen : cs.length = vs.length) :
  (cs.flatMap (upFrom 0)).length = (copies cs vs).length ∧
  (cs.flatMap (upFrom 0)).zip (copies cs vs) =
    (cs.zip vs).flatMap (fun x => (range x.1).map (fun t : ℕ => ((t : ℤ), x.2))) := by
  have hfst : cs = (cs.zip vs).map (·.1) := by
    rw [map_fst_zip (by omega)]
  have hcs : cs.flatMap (upFrom 0) = (cs.zip vs).flatMap (fun x => upFrom 0 x.1) := by
    conv_lhs => rw [hfst, flatMap_map]
  have hup : ∀ c, upFrom 0 c = (range c).map (fun t : ℕ => (t : ℤ)) := fun c => by
    simp [upFrom_eq]
  obtain ⟨hl, hzip⟩ := EquiJoin.zip_flatMap (cs.zip vs) (fun x => upFrom 0 x.1)
    (fun x => replicate x.1 x.2) (fun x _ => by simp [hup])
  rw [hcs, copies]
  refine ⟨hl, hzip.trans (flatMap_congr (fun x _ => ?_))⟩
  rw [hup]
  refine ext_getElem (by simp) (fun t _ _ => by simp)

variable {vs : List (RightRow Q)}

lemma sum_marks {cs : List ℕ} (h : Forall₂ Counts cs vs) :
  ((copies cs vs).map (fun e => e.2.1)).sum = (cs.sum : ℤ) := by
  induction h with
  | nil => rfl
  | @cons c v cs vs hv _ ih =>
    rw [copies] at ih ⊢
    rw [zip_cons_cons, flatMap_cons, map_append, sum_append, ih, map_replicate,
      sum_replicate, hv.2, sum_cons, Nat.cast_add]
    rcases Nat.eq_zero_or_pos c with rfl | hc
    · simp
    · simp [hc]

lemma sum_marks_rest (h : ∀ v ∈ vs, v.2.1 = 0) : (vs.map (fun e => e.2.1)).sum = 0 := by
  refine sum_eq_zero (fun z hz => ?_)
  obtain ⟨v, hv, rfl⟩ := mem_map.mp hz
  exact h v hv

lemma placed_rest (h : ∀ v ∈ vs, v.2.1 = 0) (b : ℕ) :
  (((replicate vs.length (0 : ℤ)).zip vs).zipIdx b).map placed =
    ((vs.map (·.1)).zipIdx b).map (fun x => (Int.ofNat x.2, x.1)) := by
  induction vs generalizing b with
  | nil => rfl
  | cons v vs ih =>
    have hrest := ih (fun x hx => h x (by simp [hx])) (b+1)
    rw [length_cons, replicate_succ, zip_cons_cons, zipIdx_cons, map_cons,
      hrest, map_cons, zipIdx_cons, map_cons]
    congr 1
    simp [placed, alignedPlace, h v (by simp)]

variable [AddCommGroup Q]

/-- The aligned right side: the groups of the copies, then what lies behind the blocks. -/
lemma invPermute_aligned {κ : Type} {cs : List ℕ} (hcounts : Forall₂ Counts cs vs)
  {rest : List (RightRow Q × ℤ)} (hrest : ∀ c ∈ rest, c.1 = 0 ∨ (0, c.1) ∈ cs.zip vs)
  (ks : List κ) (qs : κ → List Q) (l : κ → ℕ)
  (hgroups : (cs.zip vs).flatMap (fun x => (range x.1).map (fun t : ℕ => ((t : ℤ), x.2))) =
    ks.flatMap (fun k => groupCells (qs k) (l k)))
  : let re := copies cs vs ++ expand rest
  let copyCount := suffixSums (zipWith
    (fun (d : RightRow Q × ℤ) (e : RightRow Q) => d.1.2.2.2.1-e.2.1) (blocks cs vs ++ rest) re)
  invPermute (List.zipWith3 alignedPlace ((range re.length).map Int.ofNat) copyCount re)
      (re.map (·.1)) =
    some (ks.flatMap (fun k => (replicate (l k) (qs k)).flatten) ++ (expand rest).map (·.1)) := by
  intro re copyCount
  obtain ⟨hmarks, hcc⟩ := copyCount_eq hcounts hrest
  obtain ⟨hlen, hzip⟩ := zip_copies cs vs hcounts.length_eq
  have hcc' : copyCount = cs.flatMap (upFrom 0) ++ replicate (expand rest).length 0 := by
    rw [show copyCount = _ from hcc, length_expand]
  have hlen' : copyCount.length = re.length := by
    rw [hcc', length_append, hlen, length_replicate, length_append]
  have hcells : copyCount.zip re = ks.flatMap (fun k => groupCells (qs k) (l k)) ++
      (replicate (expand rest).length (0 : ℤ)).zip (expand rest) := by
    rw [hcc', zip_append hlen, hzip, hgroups]
  obtain ⟨hpl, hplaces⟩ := zip_alignedPlace 0 hlen'
  rw [← range_eq_range'] at hpl hplaces
  rw [hcells] at hplaces
  have hgl : (ks.flatMap (fun k => groupCells (qs k) (l k))).length =
      (ks.flatMap (fun k => (replicate (l k) (qs k)).flatten)).length := by
    rw [length_flatMap, length_flatMap]
    simp only [length_groupCells]
  refine invPermute_eq (by rw [hpl, length_map]) ?_
  rw [hplaces, zipIdx_append, map_append, placed_rest hmarks, zipIdx_append, map_append, hgl]
  exact (placed_groups ks qs l 0).append_right _

variable {nk : ℕ} {P Q : Type} {left : List (Key nk × P)} {right : List (Key nk × Q)}
  {rows : List (Counted P Q)} {L : List (Key nk × P)} {R : List (Key nk × Q)}

/-- The numbers of copies: a row is copied for every row of its key on the other side. -/
def copyNumbers {X Y : Type} (l : List (Key nk × X)) (other : List (Key nk × Y)) : List ℕ :=
  l.map (fun r => (ofKey other r.1).length)

lemma ofKey_pos {X : Type} {l : List (Key nk × X)} {r : Key nk × X} (hr : r ∈ l) :
    0 < (ofKey l r.1).length :=
  length_pos_of_mem (mem_filter.mpr ⟨hr, by simp⟩)

lemma mul_pos_mark {a b : ℕ} (ha : 0 < a) :
    (if (a : ℤ)*b > 0 then (1 : ℤ) else 0) = if 0 < b then 1 else 0 := by
  have hiff : (a : ℤ)*b > 0 ↔ 0 < b := by
    rw [← Nat.cast_mul, gt_iff_lt, Int.natCast_pos, Nat.mul_pos_iff_of_pos_left ha]
  simp only [hiff]

lemma Separated.left_columns (h : Separated left right rows L R) :
  (rows.take left.length).map (·.rightCount) = (copyNumbers L R).map Int.ofNat ∧
  (rows.take left.length).map (·.resultMark) = marksOf (copyNumbers L R) ∧
  (rows.take left.length).map (·.left) = L.map (·.2) := by
  have hcols := fun {β : Type} (g : P × ℤ × ℤ → β) => congrArg (map g) h.left_rows
  simp only [map_map] at hcols
  refine ⟨(hcols (fun v => v.2.2)).trans ?_, ?_, hcols (fun v => v.1)⟩
  · rw [copyNumbers, map_map]
    rfl
  · refine (hcols (fun v => if v.2.1*v.2.2 > 0 then 1 else 0)).trans ?_
    rw [marksOf, copyNumbers, map_map]
    refine map_congr_left (fun r hr => ?_)
    simp only [comp_apply, countOf_eq]
    exact mul_pos_mark (ofKey_pos hr)

def sentRow (L : List (Key nk × P)) (R : List (Key nk × Q)) (x : (Key nk × Q) × ℤ) : RightRow Q :=
  (x.1.2, if 0 < (ofKey L x.1.1).length then 1 else 0, x.2, (ofKey L x.1.1).length,
    (ofKey R x.1.1).length)

lemma copyNumbers_eq (L : List (Key nk × P)) (R : List (Key nk × Q)) :
  copyNumbers R L = (R.zip (ranks [] R)).map (fun x => (ofKey L x.1.1).length) := by
  have hfst : R = (R.zip (ranks [] R)).map (·.1) := by
    rw [map_fst_zip (by rw [length_ranks])]
  rw [copyNumbers]
  conv_lhs => rw [hfst, map_map]
  rfl

lemma Separated.right_columns (h : Separated left right rows L R) :
  (rows.drop left.length).map (·.leftCount) = (copyNumbers R L).map Int.ofNat ∧
  (rows.drop left.length).map (·.resultMark) = marksOf (copyNumbers R L) ∧
  (rows.drop left.length).map (·.rightRow) = (R.zip (ranks [] R)).map (sentRow L R) := by
  have hcols := fun {β : Type} (g : Q × ℤ × ℤ × ℤ → β) => congrArg (map g) h.right_rows
  simp only [map_map] at hcols
  have hmark :
    ∀ x ∈ R.zip (ranks [] R), (if countOf x.1.1 L*countOf x.1.1 R > 0 then (1 : ℤ) else 0) =
        if 0 < (ofKey L x.1.1).length then 1 else 0 := by
    intro x hx
    rw [countOf_eq, countOf_eq, mul_comm]
    exact mul_pos_mark (ofKey_pos (of_mem_zip hx).1)
  refine ⟨(hcols (fun v => v.2.2.1)).trans ?_, ?_, ?_⟩
  · rw [copyNumbers_eq, map_map]
    rfl
  · refine (hcols (fun v => if v.2.2.1*v.2.2.2 > 0 then 1 else 0)).trans ?_
    rw [marksOf, copyNumbers_eq, map_map]
    exact map_congr_left hmark
  · refine (hcols (fun v => (v.1, (if v.2.2.1*v.2.2.2 > 0 then (1 : ℤ) else 0), v.2.1, v.2.2.1,
      v.2.2.2))).trans ?_
    refine map_congr_left (fun x hx => ?_)
    simp only [comp_apply, sentRow, hmark x hx]
    rfl

lemma counts_sentRow (L : List (Key nk × P)) (R : List (Key nk × Q)) :
  Forall₂ Counts (copyNumbers R L) ((R.zip (ranks [] R)).map (sentRow L R)) := by
  rw [copyNumbers_eq, forall₂_map_left_iff, forall₂_map_right_iff, forall₂_same]
  exact fun x _ => ⟨rfl, rfl⟩

variable {nk : ℕ} {P Q : Type} {L : List (Key nk × P)} {R : List (Key nk × Q)} {ks : List (Key nk)}

lemma mem_ofKey {X : Type} {l : List (Key nk × X)} {k : Key nk} {r : Key nk × X}
  (h : r ∈ ofKey l k) : r.1 = k := of_decide_eq_true (mem_filter.mp h).2

lemma copies_left (hL : L = ks.flatMap (ofKey L)) :
  copies (copyNumbers L R) (L.map (·.2)) = ks.flatMap (fun k =>
    (ofKey L k).flatMap (fun r => replicate (ofKey R k).length r.2)) := by
  have hrow : copies (copyNumbers L R) (L.map (·.2)) =
      L.flatMap (fun r => replicate (ofKey R r.1).length r.2) := by
    rw [copies, copyNumbers, zip_map', flatMap_map]
  rw [hrow]
  conv_lhs => rw [hL, flatMap_assoc]
  refine flatMap_congr (fun k _ => flatMap_congr (fun r hr => ?_))
  rw [mem_ofKey hr]

lemma cells_right (hks : ks.Nodup) (hR : R = ks.flatMap (ofKey R)) :
  ((copyNumbers R L).zip ((R.zip (ranks [] R)).map (sentRow L R))).flatMap
      (fun x => (range x.1).map (fun t : ℕ => ((t : ℤ), x.2))) =
    ks.flatMap (fun k => groupCells ((ofKey R k).map (·.2)) (ofKey L k).length) := by
  have hranks := zip_ranks hks (ofKey R) (fun k r hr => mem_ofKey hr)
    (show ∀ r ∈ ([] : List (Key nk × Q)), r.1 ∉ ks by simp)
  rw [← hR] at hranks
  rw [copyNumbers_eq, zip_map', flatMap_map, hranks, flatMap_assoc]
  refine flatMap_congr (fun k _ => ?_)
  rw [groupCells, zipIdx_map, flatMap_map, flatMap_map]
  refine flatMap_congr (fun x hx => ?_)
  have hk : x.1.1 = k := mem_ofKey (fst_mem_of_mem_zipIdx hx)
  simp only [sentRow, hk]
  refine map_congr_left (fun t ht => ?_)
  have hpos : 0 < (ofKey L k).length := Nat.lt_of_le_of_lt (Nat.zero_le t) (mem_range.mp ht)
  simp [hpos]

lemma length_aligned (hks : ks.Nodup) (hR : R = ks.flatMap (ofKey R)) : (ks.flatMap (fun k =>
    (replicate (ofKey L k).length ((ofKey R k).map (·.2))).flatten)).length =
      (copyNumbers R L).sum := by
  have hcounts := counts_sentRow L R
  obtain ⟨hlen, hzip⟩ := zip_copies _ _ hcounts.length_eq
  have hcells := congrArg length (hzip.trans (cells_right hks hR))
  rw [length_zip, hlen, Nat.min_self, length_copies hcounts.length_eq] at hcells
  rw [hcells, length_flatMap, length_flatMap]
  simp only [length_groupCells]

lemma zip_groups (L : List (Key nk × P)) (R : List (Key nk × Q)) (ks : List (Key nk)) :
  let l := ks.flatMap (fun k =>
    (ofKey L k).flatMap (fun r => replicate (ofKey R k).length r.2))
  let r := ks.flatMap (fun k =>
    (replicate (ofKey L k).length ((ofKey R k).map (·.2))).flatten)
  l.length = r.length ∧ l.zip r = ks.flatMap (fun k =>
    (ofKey L k).flatMap (fun r => (ofKey R k).map (fun s => (r.2, s.2)))) := by
  intro l r
  have hgroup : ∀ k, (replicate (ofKey L k).length ((ofKey R k).map (·.2))).flatten =
      (ofKey L k).flatMap (fun _ => (ofKey R k).map (·.2)) := fun k => by
    rw [List.flatMap, map_const']
  have hr : r = ks.flatMap (fun k => (ofKey L k).flatMap (fun _ => (ofKey R k).map (·.2))) :=
    flatMap_congr (fun k _ => hgroup k)
  have hkey := fun k => EquiJoin.zip_flatMap (ofKey L k)
    (fun r => replicate (ofKey R k).length r.2) (fun _ => (ofKey R k).map (·.2))
    (fun _ _ => by simp)
  obtain ⟨hlen, hzip⟩ := EquiJoin.zip_flatMap ks _ _ (fun k _ => (hkey k).1)
  rw [hr]
  refine ⟨hlen, hzip.trans (flatMap_congr (fun k _ => (hkey k).2.trans ?_))⟩
  refine flatMap_congr (fun r _ => ?_)
  rw [← map_const', zip_map']

lemma pairs_perm {left : List (Key nk × P)} {right : List (Key nk × Q)} (hl : L.Perm left)
  (hr : R.Perm right) (hL : L = ks.flatMap (ofKey L)) :
  (ks.flatMap (fun k => (ofKey L k).flatMap (fun r => (ofKey R k).map (fun s => (r.2, s.2))))).Perm
    (innerJoin left right) := by
  have hrow : ks.flatMap (fun k => (ofKey L k).flatMap
      (fun r => (ofKey R k).map (fun s => (r.2, s.2)))) =
      L.flatMap (fun r => (ofKey R r.1).map (fun s => (r.2, s.2))) := by
    conv_rhs => rw [hL, flatMap_assoc]
    refine flatMap_congr (fun k _ => flatMap_congr (fun r hr => ?_))
    rw [mem_ofKey hr]
  rw [hrow, innerJoin]
  exact (hl.flatMap_right _).trans (List.Perm.flatMap_left _ (fun r _ => (hr.filter _).map _))

variable {left : List (Key nk × P)} {right : List (Key nk × Q)}

/-- The sum of the copies on either side is the size of the join. -/
lemma sum_copyNumbers_swap (hL : L = ks.flatMap (ofKey L)) (hR : R = ks.flatMap (ofKey R))
  (hks : ks.Nodup) (hl : L.Perm left) (hr : R.Perm right) :
  (copyNumbers R L).sum = (innerJoin left right).length := by
  obtain ⟨hlen, hzip⟩ := zip_groups L R ks
  have hpairs := pairs_perm hl hr hL
  rw [← hzip] at hpairs
  rw [← hpairs.length_eq, length_zip, hlen, min_self]
  exact (length_aligned (L := L) hks hR).symm

lemma flatMap_ofKey {ks : List (Key nk)} (hks : ks.Pairwise (· < ·)) {l : List (Key nk × X)}
  (hsorted : (l.map (·.1)).Pairwise (· ≤ ·)) (hmem : ∀ r ∈ l, r.1 ∈ ks) :
    l = ks.flatMap (ofKey l) :=
  KeyGroups.eq_flatMap_withKey (pairwise_map.mp hsorted) hks hmem

/-- The keys of both sides, in order. -/
lemma exists_keys (hl : (L.map (·.1)).Pairwise (· ≤ ·)) (hr : (R.map (·.1)).Pairwise (· ≤ ·)) :
  ∃ ks : List (Key nk), ks.Nodup ∧ L = ks.flatMap (ofKey L) ∧ R = ks.flatMap (ofKey R) := by
  have hks := KeyGroups.sortedKeys_strict id (L.map (·.1) ++ R.map (·.1))
  have hmem : ∀ k ∈ L.map (·.1) ++ R.map (·.1),
      k ∈ KeyGroups.sortedKeys id (L.map (·.1) ++ R.map (·.1)) :=
    fun k hk => KeyGroups.mem_sortedKeys.mpr ⟨k, hk, rfl⟩
  exact ⟨_, hks.nodup,
    flatMap_ofKey hks hl fun r hr => hmem _ (mem_append_left _ (mem_map_of_mem hr)),
    flatMap_ofKey hks hr fun r hr => hmem _ (mem_append_right _ (mem_map_of_mem hr))⟩

lemma length_innerJoin_replicate (r s : Key nk × P) (h : s.1 = r.1) (a b : ℕ) :
  (innerJoin (replicate a r) (replicate b s)).length = a*b := by
  simp [innerJoin, length_flatMap, h]

variable {T : Type} [DecidableEq T] [AddCommGroup P] [AddCommGroup Q]

lemma zip_fst_snd {V : Type} (d : List (V × ℤ)) : (d.map (·.1)).zip (d.map (·.2)) = d := by
  rw [zip_map']
  exact map_id _

section Bound

variable {X Y : Type} {l left : List (Key nk × X)} {r right : List (Key nk × Y)} (hl : l.Perm left)
  (hr : r.Perm right)
include hl hr

lemma sum_copyNumbers : (copyNumbers l r).sum = (innerJoin left right).length := by
  rw [innerJoin, length_flatMap, copyNumbers]
  refine ((hl.map _).sum_eq).trans (congrArg sum (map_congr_left fun x _ => ?_))
  rw [length_map]
  exact (hr.filter _).length_eq

lemma count_copyNumbers : (copyNumbers l r).count 0 = unmatched left right := by
  rw [copyNumbers, count, countP_map, unmatched, hl.countP_eq]
  refine countP_congr fun x _ => ?_
  simp [KeyGroups.withKey, hr.mem_iff]

end Bound

def sentRows (L : List (Key nk × P)) (R : List (Key nk × Q)) : List (RightRow Q) :=
  (R.zip (ranks [] R)).map (sentRow L R)

/-- The two sides before expansion: the rows of each at the ends of the blocks for their copies,
and dummies. -/
structure Distributed (left : List (Key nk × P)) (right : List (Key nk × Q)) (L : List (Key nk × P))
    (R : List (Key nk × Q)) (restL : List (P × ℤ)) (restR : List (RightRow Q × ℤ)) : Prop where
  left_perm : L.Perm left
  right_perm : R.Perm right
  left_sorted : (L.map (·.1)).Pairwise (· ≤ ·)
  right_sorted : (R.map (·.1)).Pairwise (· ≤ ·)
  left_length : (copyNumbers L R).sum+restL.length = upperBound left right
  right_length : (copyNumbers R L).sum+restR.length = upperBound left right
  left_marks : ∀ c ∈ blocks (copyNumbers L R) (L.map (·.2)) ++ restL, c.2 = 0 ∨ c.2 = 1
  right_marks : ∀ c ∈ blocks (copyNumbers R L) (sentRows L R) ++ restR, c.2 = 0 ∨ c.2 = 1
  rest : ∀ c ∈ restR, c.1 = 0 ∨ (0, c.1) ∈ (copyNumbers R L).zip (sentRows L R)

/-- What the join computes from the sides that were distributed. -/
lemma secretJoin_distributed (spu : Spu T) (hempty : ¬(left.length = 0 ∨ right.length = 0))
  (hle : left.length+right.length ≤ 2^30) : ∃ L R restL restR,
    Distributed left right L R restL restR ∧ secretJoin spu left right = (do
      let ld := blocks (copyNumbers L R) (L.map (·.2)) ++ restL
      let rd := blocks (copyNumbers R L) (sentRows L R) ++ restR
      let le ← expandGroupValueReversely (ld.map (·.1)) (ld.map (·.2))
      let re ← expandGroupValueReversely (rd.map (·.1)) (rd.map (·.2))
      align ((range (upperBound left right)).map Int.ofNat) rd le re) := by
  obtain ⟨rows, L, R, hrows, hsep⟩ := separated left right hle
  obtain ⟨ks, hks, hL, hR⟩ := exists_keys hsep.left_sorted hsep.right_sorted
  have hbound : upperBound left right = max ((copyNumbers L R).sum+(copyNumbers L R).count 0)
      ((copyNumbers R L).sum+(copyNumbers R L).count 0) := by
    rw [sum_copyNumbers_swap hL hR hks hsep.left_perm hsep.right_perm,
      sum_copyNumbers hsep.left_perm hsep.right_perm,
      count_copyNumbers hsep.left_perm hsep.right_perm,
      count_copyNumbers hsep.right_perm hsep.left_perm, upperBound, Nat.add_max_add_left]
  have hseq := spu.perm ((range (upperBound left right)).map Int.ofNat)
  obtain ⟨restL, hdl, hml, hmarkL, -⟩ := distribute_blocks spu hseq
    (show (copyNumbers L R).length = (L.map (·.2)).length by simp [copyNumbers]) (by omega)
  obtain ⟨restR, hdr, hmr, hmarkR, hrestR⟩ :=
    distribute_blocks spu hseq (counts_sentRow L R).length_eq (by omega)
  refine ⟨L, R, restL, restR,
    ⟨hsep.left_perm, hsep.right_perm, hsep.left_sorted, hsep.right_sorted, hml,
    hmr, hmarkL, hmarkR, hrestR⟩, ?_⟩
  obtain ⟨hlc, hlm, hlv⟩ := hsep.left_columns
  obtain ⟨hrc, hrm, hrv⟩ := hsep.right_columns
  have hm : (max (((copyNumbers L R).sum+(copyNumbers L R).count 0 : ℕ) : ℤ)
      (((copyNumbers R L).sum+(copyNumbers R L).count 0 : ℕ) : ℤ)).toNat =
      upperBound left right := by
    rw [hbound]
    omega
  simp only [secretJoin, if_neg hempty, hrows, Option.bind_eq_bind, Option.bind_some, hlc, hlm, hlv,
    hrc, hrm, hrv, countPosition_eq, hm, hdl, hdr]
  rfl

section Expansion

variable {V : Type} [AddCommGroup V] {cs : List ℕ} {ws : List V} {restV : List (V × ℤ)}
  (hlen : cs.length = ws.length)
include hlen

lemma length_blocks_append : (blocks cs ws ++ restV).length = cs.sum+restV.length := by
  rw [← length_expand, expand_blocks, length_append, length_copies hlen, length_expand]

lemma expand_blocks_eq_some_iff (hmarks : ∀ c ∈ blocks cs ws ++ restV, c.2 = 0 ∨ c.2 = 1)
  {out : List V} : expandGroupValueReversely ((blocks cs ws ++ restV).map (·.1))
      ((blocks cs ws ++ restV).map (·.2)) = some out ↔
    cs.sum+restV.length ≤ 2^30 ∧ copies cs ws ++ expand restV = out := by
  rw [expandGroupValueReversely_eq_some_iff (by simp) fun x hx => by
    obtain ⟨c, hc, rfl⟩ := mem_map.mp hx
    exact hmarks c hc]
  rw [length_map, length_blocks_append hlen, zip_fst_snd, expand_blocks]

end Expansion

lemma secretJoin_eq_none (spu : Spu T) (hempty : ¬(left.length = 0 ∨ right.length = 0))
  (hle : ¬(left.length+right.length ≤ 2^30 ∧ upperBound left right ≤ 2^30)) :
  secretJoin spu left right = none := by
  by_cases hrows : left.length+right.length ≤ 2^30
  · have hbound : ¬upperBound left right ≤ 2^30 := fun h => hle ⟨hrows, h⟩
    obtain ⟨L, R, restL, restR, hd, hjoin⟩ := secretJoin_distributed spu hempty hrows
    rw [hjoin]
    dsimp only
    rw [expandGroupValueReversely_eq_none]
    · rfl
    · rw [length_map, length_blocks_append (by simp [copyNumbers]), hd.left_length]
      omega
  · simp only [secretJoin, if_neg hempty, separate_eq_none (not_le.mp hrows)]
    rfl

lemma secretJoin_perm (spu : Spu T) (hempty : ¬(left.length = 0 ∨ right.length = 0))
  (hrows : left.length+right.length ≤ 2^30) (hbound : upperBound left right ≤ 2^30) :
  ∃ outLeft outRight, secretJoin spu left right = some (outLeft, outRight) ∧
    outLeft.length = outRight.length ∧ (outLeft.zip outRight).Perm (innerJoin left right) := by
  obtain ⟨L, R, restL, restR, hd, hjoin⟩ := secretJoin_distributed spu hempty hrows
  obtain ⟨ks, hks, hL, hR⟩ := exists_keys hd.left_sorted hd.right_sorted
  have hcounts : Forall₂ Counts (copyNumbers R L) (sentRows L R) := counts_sentRow L R
  have hle := (expand_blocks_eq_some_iff (by simp [copyNumbers]) hd.left_marks).mpr
    ⟨hd.left_length.trans_le hbound, rfl⟩
  have hre := (expand_blocks_eq_some_iff hcounts.length_eq hd.right_marks).mpr
    ⟨hd.right_length.trans_le hbound, rfl⟩
  have hlength : (copies (copyNumbers R L) (sentRows L R) ++ expand restR).length =
      upperBound left right := by
    rw [length_append, length_copies hcounts.length_eq, length_expand, hd.right_length]
  -- the aligned right side and the size of the result
  have hrf := invPermute_aligned hcounts hd.rest ks (fun k => (ofKey R k).map (·.2))
    (fun k => (ofKey L k).length) (cells_right hks hR)
  have hsize : ((copies (copyNumbers R L) (sentRows L R) ++ expand restR).map
      (fun e => e.2.1)).sum = ((copyNumbers R L).sum : ℤ) := by
    rw [map_append, sum_append, sum_marks hcounts,
      sum_marks_rest (copyCount_eq hcounts hd.rest).1, add_zero]
  obtain ⟨hlen, hzip⟩ := zip_groups L R ks
  have hright : _ = (copyNumbers R L).sum := length_aligned (L := L) hks hR
  refine ⟨_, _, ?_, hlen, hzip ▸ pairs_perm hd.left_perm hd.right_perm hL⟩
  rw [hjoin]
  dsimp only
  simp only [hle, hre, Option.bind_eq_bind, Option.bind_some, align, hsize]
  rw [← hlength, hrf]
  simp only [Option.bind_some, Int.toNat_natCast]
  rw [copies_left hL, take_left' (hlen.trans hright), take_left' hright]
  rfl

/-- The two outputs, paired place by place, are the rows of the inner join exactly if a table is
empty or neither the merged table nor the result before alignment is too long. -/
theorem secretJoin_perm_iff (spu : Spu T) (left : List (Key nk × P)) (right : List (Key nk × Q)) :
  (∃ outLeft outRight, secretJoin spu left right = some (outLeft, outRight) ∧
    outLeft.length = outRight.length ∧ (outLeft.zip outRight).Perm (innerJoin left right)) ↔
  left = [] ∨ right = [] ∨
    left.length+right.length ≤ 2^30 ∧ upperBound left right ≤ 2^30 := by
  rw [← or_assoc, ← length_eq_zero_iff, ← length_eq_zero_iff (l := right)]
  by_cases hempty : left.length = 0 ∨ right.length = 0
  · refine iff_of_true ⟨[], [], by rw [secretJoin, if_pos hempty], rfl, ?_⟩ (.inl hempty)
    rcases hempty with h | h <;> rw [length_eq_zero_iff] at h <;> simp [innerJoin, h]
  · rw [or_iff_right hempty]
    constructor
    · rintro ⟨_, _, hjoin, -⟩
      by_contra hle
      rw [secretJoin_eq_none spu hempty hle] at hjoin
      cases hjoin
    · rintro ⟨hrows, hbound⟩
      exact secretJoin_perm spu hempty hrows hbound

/-- A shuffle that reverses, and values told apart by themselves. -/
def reversingSpu : Spu ℤ := ⟨id, injective_id, reverse, fun xs => reverse_perm xs⟩

def keyed (k : ℤ) (payload : ℤ) : Key 1 × ℤ := (⟨[k], rfl⟩, payload)

/-- Two rows of one key on each side, and a row without a match on each. -/
theorem secretJoin_perm_keyed : ∃ outLeft outRight,
  secretJoin reversingSpu [keyed 7 1, keyed 3 2, keyed 7 4] [keyed 7 10, keyed 5 20, keyed 7 30] =
      some (outLeft, outRight) ∧ outLeft.length = outRight.length ∧
    (outLeft.zip outRight).Perm [(1, 10), (1, 30), (4, 10), (4, 30)] :=
  (secretJoin_perm_iff reversingSpu [keyed 7 1, keyed 3 2, keyed 7 4]
    [keyed 7 10, keyed 5 20, keyed 7 30]).mpr (.inr (.inr (by decide)))

/-- The join of 50000 rows with 50000 rows of the same key is undefined. -/
theorem secretJoin_undefined : ¬∃ outLeft outRight,
  secretJoin reversingSpu (replicate 50000 (keyed 7 1)) (replicate 50000 (keyed 7 2)) =
      some (outLeft, outRight) ∧ outLeft.length = outRight.length ∧
    (outLeft.zip outRight).Perm
      (innerJoin (replicate 50000 (keyed 7 1)) (replicate 50000 (keyed 7 2))) := by
  rintro ⟨_, _, hjoin, -⟩
  have hsize := length_innerJoin_replicate (keyed 7 1) (keyed 7 2) rfl 50000 50000
  have hbound : ¬upperBound (replicate 50000 (keyed 7 1)) (replicate 50000 (keyed 7 2)) ≤ 2^30 := by
    rw [upperBound, hsize]
    omega
  rw [secretJoin_eq_none reversingSpu (by rw [length_replicate, length_replicate]; decide)
    fun h => hbound h.2] at hjoin
  cases hjoin

end Scql.SecretJoin
