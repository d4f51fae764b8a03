import Mathlib.Data.Finset.Sort
import Scql.SecretJoinPlaces

/-! # Alignment of the right side

The copies of the right rows come row after row; the alignment puts the rows of a key next to
each other, once for every left row of the key. -/
namespace Scql.SecretJoin

open List Function

variable {Q : Type} [AddCommGroup Q]

def upFrom (x : ℤ) : ℕ → List ℤ
  | 0 => []
  | k+1 => x::upFrom (x+1) k

lemma upFrom_eq (x : ℤ) (k : ℕ) : upFrom x k = (range k).map (fun t : ℕ => x+t) := by
  induction k generalizing x with
  | zero => rfl
  | succ k ih =>
    rw [upFrom, ih, range_succ_eq_map, map_cons, map_map, Nat.cast_zero, add_zero]
    congr 1
    refine map_congr_left (fun t _ => ?_)
    simp only [comp_apply, Nat.succ_eq_add_one, Nat.cast_add, Nat.cast_one]
    ring

def diffs (c : ℕ) : List ℤ := if c = 0 then [] else replicate (c-1) (-1) ++ [(c : ℤ)-1]

lemma suffixSums_replicate (n k : ℕ) {rest : List ℤ} (hrest : (suffixSums rest).headD 0 = 0) :
  suffixSums (replicate k (-1) ++ (n : ℤ)::rest) = upFrom ((n : ℤ)-k) (k+1) ++ suffixSums rest := by
  induction k with
  | zero => rw [replicate_zero, nil_append, suffixSums, hrest]; simp [upFrom]
  | succ k ih =>
    rw [replicate_succ, cons_append, suffixSums, ih, upFrom, upFrom]
    simp only [cons_append, headD_cons]
    rw [show (n : ℤ)-(k+1 : ℕ)+1 = n-k by push_cast; ring, upFrom]
    congr 1
    push_cast
    ring

/-- Over the blocks the suffix sums count the copies before a place; behind them they vanish. -/
lemma suffixSums_diffs (cs : List ℕ) {zs : List ℤ} (hzs : ∀ z ∈ zs, z = 0) :
  suffixSums (cs.flatMap diffs ++ zs) = cs.flatMap (upFrom 0) ++ zs ∧
    (suffixSums (cs.flatMap diffs ++ zs)).headD 0 = 0 := by
  induction cs with
  | nil =>
    simp only [flatMap_nil, nil_append]
    induction zs with
    | nil => exact ⟨rfl, rfl⟩
    | cons z zs ih =>
      obtain ⟨hsum, hhead⟩ := ih (fun x hx => hzs x (by simp [hx]))
      obtain rfl := hzs z (by simp)
      rw [suffixSums, hhead, hsum]
      exact ⟨rfl, rfl⟩
  | cons c cs ih =>
    obtain ⟨hsum, hhead⟩ := ih
    rw [flatMap_cons, flatMap_cons, append_assoc, append_assoc]
    cases c with
    | zero => exact ⟨hsum, hhead⟩
    | succ n =>
      have hblock := suffixSums_replicate n n hhead
      rw [sub_self] at hblock
      have hdiffs : diffs (n+1) ++ (cs.flatMap diffs ++ zs) =
          replicate n (-1) ++ (n : ℤ)::(cs.flatMap diffs ++ zs) := by
        simp [diffs]
      rw [hdiffs, hblock, hsum]
      exact ⟨rfl, rfl⟩

/-- The right rows with their numbers of copies: the left count is that number, and the rows
that have copies are marked. -/
def Counts (c : ℕ) (v : RightRow Q) : Prop := v.2.2.2.1 = c ∧ v.2.1 = if 0 < c then 1 else 0

lemma zipWith_block {c : ℕ} {v : RightRow Q} (h : Counts c v) :
  zipWith (fun (d : RightRow Q × ℤ) (e : RightRow Q) => d.1.2.2.2.1-e.2.1) (block c v)
    (replicate c v) = diffs c := by
  obtain ⟨hcount, hmark⟩ := h
  cases c with
  | zero => rfl
  | succ n =>
    rw [if_pos (by omega)] at hmark
    rw [block, diffs, if_neg (by omega), if_neg (by omega), Nat.add_sub_cancel,
      replicate_succ', zipWith_append (by simp)]
    simp [hcount, hmark]

variable {cs : List ℕ} {vs : List (RightRow Q)}

lemma zipWith_blocks (h : Forall₂ Counts cs vs) :
  zipWith (fun (d : RightRow Q × ℤ) (e : RightRow Q) => d.1.2.2.2.1-e.2.1) (blocks cs vs)
    (copies cs vs) = cs.flatMap diffs ∧ (blocks cs vs).length = (copies cs vs).length := by
  induction h with
  | nil => exact ⟨rfl, rfl⟩
  | @cons c v cs vs hv _ ih =>
    have hlen : (block c v).length = (replicate c v).length := by
      cases c <;> simp [block]
    rw [blocks, copies] at ih ⊢
    rw [zip_cons_cons, flatMap_cons, flatMap_cons, flatMap_cons,
      zipWith_append hlen, zipWith_block hv, ih.1, length_append, length_append, hlen, ih.2]
    exact ⟨rfl, rfl⟩

lemma copyCount_eq {rest : List (RightRow Q × ℤ)}
  (h : Forall₂ Counts cs vs) (hrest : ∀ c ∈ rest, c.1 = 0 ∨ (0, c.1) ∈ cs.zip vs) :
    (∀ v ∈ expand rest, v.2.1 = 0) ∧
  suffixSums (zipWith (fun (d : RightRow Q × ℤ) (e : RightRow Q) => d.1.2.2.2.1-e.2.1)
    (blocks cs vs ++ rest) (copies cs vs ++ expand rest)) =
    cs.flatMap (upFrom 0) ++ replicate rest.length 0 := by
  have hzero : ∀ c ∈ rest, c.1.2.2.2.1 = 0 ∧ c.1.2.1 = 0 := by
    intro c hc
    rcases hrest c hc with h0 | hmem
    · rw [h0]
      exact ⟨rfl, rfl⟩
    · obtain ⟨i, hi⟩ := mem_iff_getElem?.mp hmem
      obtain ⟨hk, hv⟩ := getElem?_zip_eq_some.mp hi
      obtain ⟨hk', hk⟩ := List.getElem?_eq_some_iff.mp hk
      obtain ⟨hv', hv⟩ := List.getElem?_eq_some_iff.mp hv
      have hc := (forall₂_iff_get.mp h).2 i hk' hv'
      rw [get_eq_getElem, get_eq_getElem, hk, hv] at hc
      exact ⟨hc.1, hc.2⟩
  have hmarks : ∀ v ∈ expand rest, v.2.1 = 0 := by
    intro v hv
    obtain ⟨c, hc, rfl⟩ := mem_map.mp (mem_expand hv)
    exact (hzero c hc).2
  obtain ⟨hzip, hlen⟩ := zipWith_blocks h
  refine ⟨hmarks, ?_⟩
  rw [zipWith_append hlen, hzip]
  have hzeros : zipWith (fun (d : RightRow Q × ℤ) (e : RightRow Q) => d.1.2.2.2.1-e.2.1) rest
      (expand rest) = replicate rest.length 0 := by
    refine eq_replicate_iff.mpr ⟨by simp [length_expand], fun z hz => ?_⟩
    obtain ⟨i, hi, rfl⟩ := mem_iff_getElem.mp hz
    rw [getElem_zipWith, (hzero _ (getElem_mem _)).1, hmarks _ (getElem_mem _)]
    rfl
  rw [hzeros]
  exact (suffixSums_diffs cs (fun z hz => eq_of_mem_replicate hz)).1

variable {Q : Type}

lemma invPermute_eq [AddCommGroup Q] {perm : List ℤ} {values out : List Q}
    (hlen : perm.length = values.length)
  (h : (perm.zip values).Perm (out.zipIdx.map (fun x => (Int.ofNat x.2, x.1)))) :
  invPermute perm values = some out := by
  have hout : out.length = values.length := by
    have := h.length_eq
    simp only [length_zip, length_map, length_zipIdx] at this
    omega
  have hperm : perm.Perm ((range values.length).map Int.ofNat) := by
    have hfst := h.map (·.1)
    rw [map_fst_zip (by omega), map_map] at hfst
    have hplaces : out.zipIdx.map ((fun x => x.1) ∘ fun x => (Int.ofNat x.2, x.1)) =
        (out.zipIdx.map (·.2)).map Int.ofNat := by
      rw [map_map]
      rfl
    rw [hplaces, zipIdx_map_snd, ← range_eq_range', hout] at hfst
    exact hfst
  have hnodup : perm.Nodup := hperm.nodup_iff.mpr (nodup_range.map (fun _ _ h => Int.ofNat.inj h))
  rw [invPermute, if_pos hperm]
  refine congrArg some (ext_getElem (by simp [hout]) (fun x hx hx' => ?_))
  have hmem : (Int.ofNat x, out[x]) ∈ perm.zip values := by
    refine h.mem_iff.mpr (mem_map.mpr ⟨(out[x], x), ?_, rfl⟩)
    exact mem_zipIdx_iff_getElem?.mpr (by simp [hx'])
  obtain ⟨i, hi⟩ := mem_iff_getElem?.mp hmem
  obtain ⟨hp, hv⟩ := getElem?_zip_eq_some.mp hi
  obtain ⟨hi', hp⟩ := List.getElem?_eq_some_iff.mp hp
  have hidx : perm.idxOf (Int.ofNat x) = i := by
    rw [show Int.ofNat x = perm[i] from hp.symm]
    exact Nodup.idxOf_getElem hnodup i hi'
  rw [getElem_map, getElem_range, hidx, getD_eq_getElem?_getD, hv]
  rfl

/-- The rows of one key, each in every copy, at places that step over the whole group: a
rearrangement of the whole group repeated. -/
lemma group_perm (qs : List Q) (l b : ℕ) :
  (qs.zipIdx.flatMap (fun x => (range l).map (fun t => (b+x.2+t*qs.length, x.1)))).Perm
    (((replicate l qs).flatten.zipIdx b).map Prod.swap) := by
  induction l generalizing b with
  | zero => simp
  | succ l ih =>
    have hsplit : ∀ x : Q × ℕ, (range (l+1)).map (fun t => (b+x.2+t*qs.length, x.1)) =
        (b+x.2, x.1)::(range l).map (fun t => (b+qs.length+x.2+t*qs.length, x.1)) := by
      intro x
      rw [range_succ_eq_map, map_cons, map_map, Nat.zero_mul, Nat.add_zero]
      congr 1
      refine map_congr_left (fun t _ => ?_)
      simp only [comp_apply, Prod.mk.injEq, and_true, Nat.succ_eq_add_one]
      ring
    have hfirst : (qs.zipIdx b).map Prod.swap = qs.zipIdx.map (fun x => (b+x.2, x.1)) := by
      rw [zipIdx_eq_map_add (i := b), map_map]
      refine map_congr_left (fun x _ => ?_)
      simp
    simp only [hsplit]
    rw [replicate_succ, flatten_cons, zipIdx_append, map_append, hfirst]
    exact (map_append_flatMap_perm _ _ _).symm.trans ((ih (b+qs.length)).append_left _)

def groupCells (qs : List Q) (l : ℕ) : List (ℤ × RightRow Q) :=
  qs.zipIdx.flatMap (fun x => (range l).map (fun t : ℕ =>
    ((t : ℤ), (x.1, 1, (x.2 : ℤ)+1, (l : ℤ), (qs.length : ℤ)))))

lemma zipIdx_flatMap_range {α β : Type} (xs : List α) (l : ℕ) (f : α × ℕ → ℕ → β) (b s : ℕ) :
  ((xs.zipIdx s).flatMap (fun x => (range l).map (f x))).zipIdx (b+s*l) =
    (xs.zipIdx s).flatMap (fun x => (range l).map (fun t => (f x t, b+x.2*l+t))) := by
  induction xs generalizing s with
  | nil => rfl
  | cons x xs ih =>
    have hrow : ((range l).map (f (x, s))).zipIdx (b+s*l) =
        (range l).map (fun t => (f (x, s) t, b+s*l+t)) := by
      refine ext_getElem (by simp) (fun t _ _ => by simp)
    have hoff : b+s*l+((range l).map (f (x, s))).length = b+(s+1)*l := by
      rw [length_map, length_range]
      ring
    rw [zipIdx_cons, flatMap_cons, flatMap_cons, zipIdx_append, hrow, hoff, ih (s+1)]

/-- A place with its value, for a copy at position `i`. -/
def placed (c : (ℤ × RightRow Q) × ℕ) : ℤ × Q := (alignedPlace (Int.ofNat c.2) c.1.1 c.1.2, c.1.2.1)

lemma placed_group (qs : List Q) (l b : ℕ) : (((groupCells qs l).zipIdx b).map placed).Perm
    (((replicate l qs).flatten.zipIdx b).map (fun x => (Int.ofNat x.2, x.1))) := by
  have hcells := zipIdx_flatMap_range qs l (fun x (t : ℕ) =>
    ((t : ℤ), (x.1, (1 : ℤ), (x.2 : ℤ)+1, (l : ℤ), (qs.length : ℤ)))) b 0
  rw [Nat.zero_mul, Nat.add_zero] at hcells
  have hplaced :
    ((groupCells qs l).zipIdx b).map placed = (qs.zipIdx.flatMap (fun x => (range l).map
        (fun t => (b+x.2+t*qs.length, x.1)))).map (fun x => (Int.ofNat x.1, x.2)) := by
    rw [groupCells, hcells, map_flatMap, map_flatMap]
    refine flatMap_congr (fun x _ => ?_)
    rw [map_map, map_map]
    refine map_congr_left (fun t _ => ?_)
    simp only [comp_apply, placed, alignedPlace, Prod.mk.injEq, and_true, Int.ofNat_eq_natCast]
    push_cast
    ring
  rw [hplaced]
  have hperm := (group_perm qs l b).map (fun x => (Int.ofNat x.1, x.2))
  rw [map_map] at hperm
  exact hperm

lemma length_groupCells (qs : List Q) (l : ℕ) :
  (groupCells qs l).length = ((replicate l qs).flatten).length := by
  simp [groupCells, length_flatMap, Nat.mul_comm]

lemma placed_groups {κ : Type} (ks : List κ) (qs : κ → List Q) (l : κ → ℕ) (b : ℕ) :
  (((ks.flatMap (fun k => groupCells (qs k) (l k))).zipIdx b).map placed).Perm
    (((ks.flatMap (fun k => (replicate (l k) (qs k)).flatten)).zipIdx b).map
      (fun x => (Int.ofNat x.2, x.1))) := by
  induction ks generalizing b with
  | nil => exact .refl _
  | cons k ks ih =>
    rw [flatMap_cons, flatMap_cons, zipIdx_append, zipIdx_append,
      map_append, map_append, length_groupCells]
    exact (placed_group (qs k) (l k) b).append (ih _)

end Scql.SecretJoin
