import Mathlib.Data.List.GetD
import Mathlib.Data.List.Sort
import Scql.SecretJoin

/-! # Counting the rows of every key

What the oblivious steps up to the separation of the two tables compute: the scans are running
sums within the rows of one key and copies from the right, and the separated tables are the
inputs sorted by key, every row with the number of rows of its key on either side. -/
namespace Scql.SecretJoin

open PrefixScan List Function

variable {V : Type} [AddCommGroup V]

lemma addWithin_assoc : AssocOn addWithin (fun _ => True) where
  closed _ _ _ _ := trivial
  assoc x y z _ _ _ := by
    simp only [addWithin, Prod.mk.injEq]
    constructor <;> ring

lemma copyWithin_assoc : AssocOn (copyWithin : V × ℤ → _) (fun c => c.2 = 0 ∨ c.2 = 1) where
  closed x y hx hy := by
    rcases hx with hx | hx <;> rcases hy with hy | hy <;> simp [copyWithin, hx, hy]
  assoc x y z hx hy _ := by
    rcases hx with hx | hx <;> rcases hy with hy | hy <;> simp [copyWithin, hx, hy]

variable {values : List V} {mask : List ℤ}

/-- Every cell combined with those before it. -/
def prefixes (op : V × ℤ → V × ℤ → V × ℤ) (values : List V) (mask : List ℤ) : List V :=
  (range values.length).map (fun j => (upTo op (cells values mask) j).1)

lemma scan_eq_some_iff {op : V × ℤ → V × ℤ → V × ℤ} {good : V × ℤ → Prop} (h : AssocOn op good)
  (hc : ∀ j, good (cells values mask j)) {out : List V} :
  scan op values mask = some out ↔ values.length ≤ 2^30 ∧ prefixes op values mask = out := by
  have hvalues : (range values.length).map (fun j =>
      (scanParallel op values.length (cells values mask) j).1) = prefixes op values mask :=
    map_congr_left fun j hj => by rw [scanParallel_eq h hc (mem_range.mp hj)]
  rw [scan, hvalues, Option.ite_none_right_eq_some, Option.some_inj, Nat.lt_succ_iff, Nat.size_le]
  exact and_congr_left' (by omega)

lemma scan_eq_none {op : V × ℤ → V × ℤ → V × ℤ} (h : 2^30 < values.length) :
  scan op values mask = none := by
  rw [scan, if_neg]
  rw [Nat.lt_succ_iff, Nat.size_le]
  omega

lemma mask_getD (hm : ∀ m ∈ mask, m = 0 ∨ m = 1) (j : ℕ) :
  mask.getD j 0 = 0 ∨ mask.getD j 0 = 1 := by
  by_cases hj : j < mask.length
  · rw [getD_eq_getElem _ _ hj]
    exact hm _ (getElem_mem hj)
  · rw [getD_eq_default _ _ (by omega)]
    exact .inl rfl

variable {j : ℕ}

section
variable (hlen : values.length = mask.length)
include hlen

lemma cells_append (v : V) (m : ℤ) (hj : j < values.length) :
  cells (values ++ [v]) (mask ++ [m]) j = cells values mask j := by
  simp only [cells]
  rw [getD_append _ _ _ _ hj, getD_append _ _ _ _ (by omega)]

lemma cells_append_last (v : V) (m : ℤ) :
    cells (values ++ [v]) (mask ++ [m]) values.length = (v, m) := by
  simp only [cells]
  rw [getD_append_right _ _ _ _ le_rfl, getD_append_right _ _ _ _ (by omega), hlen]
  simp

lemma prefixes_copyWithin_concat (hm : ∀ m ∈ mask, m = 0 ∨ m = 1) (v : V) {m : ℤ}
    (hm' : m = 0 ∨ m = 1) :
  prefixes copyWithin (values ++ [v]) (mask ++ [m]) = prefixes copyWithin values mask ++
    [if m = 1 then (prefixes copyWithin values mask).getLast?.getD v else v] := by
  have hgood' : ∀ j, (cells (values ++ [v]) (mask ++ [m]) j).2 = 0 ∨
      (cells (values ++ [v]) (mask ++ [m]) j).2 = 1 := by
    refine mask_getD (fun x hx => ?_)
    rcases mem_append.mp hx with hx | hx
    · exact hm x hx
    · rwa [mem_singleton.mp hx]
  rw [prefixes, prefixes, length_append, length_singleton, range_succ, map_append]
  congr 1
  · refine map_congr_left (fun j hj => ?_)
    rw [upTo_congr (fun i hi => cells_append hlen v m (by
      have := mem_range.mp hj
      omega))]
  · rw [map_singleton]
    congr 1
    rcases Nat.eq_zero_or_pos values.length with hzero | hpos
    · rw [hzero, upTo_zero, ← hzero, cells_append_last hlen]
      simp [hzero]
    · obtain ⟨n, hn⟩ : ∃ n, values.length = n+1 := ⟨values.length-1, by omega⟩
      have hlast := cells_append_last hlen v m
      rw [hn] at hlast ⊢
      rw [upTo_succ copyWithin_assoc hgood', hlast,
        upTo_congr (fun i hi => cells_append hlen v m (by omega)), range_succ,
        map_append, map_singleton, getLast?_concat]
      rcases hm' with rfl | rfl <;> simp [copyWithin]

end

/-- Copying from the right: a marked cell takes the value of the next. -/
def expand : List (V × ℤ) → List V
  | [] => []
  | (v, m)::rest => (if m = 1 then (expand rest).head?.getD v else v)::expand rest

lemma reverse_prefixes_eq_expand {mark : List ℤ} (hlen : values.length = mark.length)
  (hm : ∀ m ∈ mark, m = 0 ∨ m = 1) :
  (prefixes copyWithin values.reverse mark.reverse).reverse = expand (values.zip mark) := by
  induction values generalizing mark with
  | nil => rfl
  | cons v values ih =>
    cases mark with
    | nil => simp at hlen
    | cons m mark =>
      have hlen' : values.length = mark.length := by simpa using hlen
      have hrest := ih hlen' (fun x hx => hm x (by simp [hx]))
      rw [reverse_cons, reverse_cons, prefixes_copyWithin_concat (by simpa using hlen')
          (fun x hx => hm x (by simp_all)) v (hm m (by simp)), reverse_append, zip_cons_cons,
        expand, ← hrest]
      simp [head?_reverse]

lemma expandGroupValueReversely_eq_some_iff {mark : List ℤ} (hlen : values.length = mark.length)
  (hm : ∀ m ∈ mark, m = 0 ∨ m = 1) {out : List V} :
  expandGroupValueReversely values mark = some out ↔
    values.length ≤ 2^30 ∧ expand (values.zip mark) = out := by
  have hgood := mask_getD fun x (hx : x ∈ mark.reverse) => hm x (mem_reverse.mp hx)
  rw [expandGroupValueReversely, Option.bind_eq_bind, Option.bind_eq_some_iff]
  simp only [scan_eq_some_iff copyWithin_assoc hgood, length_reverse,
    ← reverse_prefixes_eq_expand hlen hm]
  constructor
  · rintro ⟨_, ⟨hle, rfl⟩, hout⟩
    exact ⟨hle, Option.some.inj hout⟩
  · rintro ⟨hle, rfl⟩
    exact ⟨_, ⟨hle, rfl⟩, rfl⟩

lemma expandGroupValueReversely_eq_none {mark : List ℤ} (h : 2^30 < values.length) :
  expandGroupValueReversely values mark = none := by
  rw [expandGroupValueReversely, scan_eq_none (by simpa using h)]
  rfl

variable {nk : ℕ}

lemma keyEqual_iff {a b : Key nk} : keyEqual a b = true ↔ a = b := by
  rw [keyEqual, all_eq_true, Subtype.ext_iff]
  constructor
  · intro h
    refine ext_getElem (a.2.trans b.2.symm) (fun c h₁ h₂ => ?_)
    have hc := h c (mem_range.mpr (a.2 ▸ h₁))
    rw [getD_eq_getElem _ _ h₁, getD_eq_getElem _ _ h₂] at hc
    exact beq_iff_eq.mp hc
  · intro h c _
    rw [h, beq_self_eq_true]

def sumOf (k : Key nk) (l : List (Key nk × ℤ)) : ℤ := ((l.filter (fun r => r.1 = k)).map (·.2)).sum

lemma sumOf_append (k : Key nk) (l l' : List (Key nk × ℤ)) :
    sumOf k (l ++ l') = sumOf k l+sumOf k l' := by
  simp [sumOf]

lemma sumOf_singleton (k : Key nk) (r : Key nk × ℤ) : sumOf k [r] = if r.1 = k then r.2 else 0 := by
  by_cases h : r.1 = k <;> simp [sumOf, h]

lemma sumOf_eq_zero {k : Key nk} {l : List (Key nk × ℤ)} (h : ∀ r ∈ l, r.1 ≠ k) :
  sumOf k l = 0 := by
  rw [sumOf, filter_eq_nil_iff.mpr (fun r hr => by simpa using h r hr)]
  rfl

variable {l : List (Key nk × ℤ)}

lemma getD_keyEqualNext {keys : List (Key nk)} (hj : j+1 < keys.length) :
  (0::keyEqualNext keys).getD (j+1) 0 = if keys[j] = keys[j+1] then 1 else 0 := by
  have hlt : j < (keyEqualNext keys).length := by
    simp [keyEqualNext]
    omega
  rw [getD_cons_succ, getD_eq_getElem _ _ hlt]
  simp [keyEqualNext, keyEqual_iff]

lemma upTo_addWithin (hsorted : (l.map (·.1)).Pairwise (· ≤ ·)) (hj : j < l.length) :
  (upTo addWithin (cells (l.map (·.2)) (0::keyEqualNext (l.map (·.1)))) j).1 =
    sumOf l[j].1 (l.take (j+1)) := by
  induction j with
  | zero =>
    rw [upTo_zero, take_one, head?_eq_getElem?, getElem?_eq_getElem hj]
    simp [cells, sumOf_singleton, hj]
  | succ j ih =>
    have hj' : j < l.length := by omega
    have hcell : cells (l.map (·.2)) (0::keyEqualNext (l.map (·.1))) (j+1) =
        (l[j+1].2, if l[j].1 = l[j+1].1 then 1 else 0) := by
      rw [cells, getD_keyEqualNext (by simpa using hj)]
      simp [hj]
    rw [upTo_succ addWithin_assoc (fun _ => trivial), hcell, take_succ_eq_append_getElem hj,
      sumOf_append, sumOf_singleton, if_pos rfl, addWithin]
    simp only [ih hj']
    by_cases hk : l[j].1 = l[j+1].1
    · rw [if_pos hk, hk]
      ring
    · rw [if_neg hk, sumOf_eq_zero (k := l[j+1].1)]
      · ring
      · -- the keys are sorted, so no earlier row has the new key
        intro r hr heq
        obtain ⟨i, hi, rfl⟩ := mem_iff_getElem.mp hr
        rw [getElem_take] at heq
        rw [length_take] at hi
        have hij : l[i].1 ≤ l[j].1 := by
          rcases Nat.eq_or_lt_of_le (show i ≤ j by omega) with rfl | hlt
          · exact le_rfl
          · exact pairwise_iff_getElem.mp (pairwise_map.mp hsorted) i j (by omega) hj' hlt
        have hjj : l[j].1 ≤ l[j+1].1 :=
          pairwise_iff_getElem.mp (pairwise_map.mp hsorted) j (j+1) hj' hj (by omega)
        exact hk (le_antisymm hjj (heq ▸ hij))

/-- The running sums of a table whose first rows were seen before. -/
def runs (pre : List (Key nk × ℤ)) : List (Key nk × ℤ) → List ℤ
  | [] => []
  | r::suf => sumOf r.1 (pre ++ [r])::runs (pre ++ [r]) suf

@[simp] lemma length_runs (pre suf : List (Key nk × ℤ)) : (runs pre suf).length = suf.length := by
  induction suf generalizing pre with
  | nil => rfl
  | cons r suf ih => simp [runs, ih]

lemma getElem_runs (pre suf : List (Key nk × ℤ)) (hj : j < suf.length) :
  (runs pre suf)[j]? = some (sumOf suf[j].1 (pre ++ suf.take (j+1))) := by
  induction suf generalizing pre j with
  | nil => simp at hj
  | cons r suf ih =>
    cases j with
    | zero => simp [runs]
    | succ j => simpa [runs] using ih (pre ++ [r]) (by simpa using hj)

lemma scan_addWithin (hsorted : (l.map (·.1)).Pairwise (· ≤ ·)) (hlen : l.length ≤ 2^30) :
  scan addWithin (l.map (·.2)) (0::keyEqualNext (l.map (·.1))) = some (runs [] l) := by
  rw [scan_eq_some_iff addWithin_assoc (fun _ => trivial), prefixes, length_map]
  refine ⟨hlen, ?_⟩
  refine ext_getElem? (fun j => ?_)
  by_cases hj : j < l.length
  · rw [getElem_runs [] l hj, getElem?_map, getElem?_range hj, Option.map_some,
      upTo_addWithin hsorted hj, nil_append]
  · simp [hj]

/-- Copied back from the last row of a key, the running sums become the sums over all rows. -/
lemma expand_runs (pre suf : List (Key nk × ℤ)) (hsorted : (suf.map (·.1)).Pairwise (· ≤ ·)) :
  expand ((runs pre suf).zip (keyEqualNext (suf.map (·.1)) ++ [0])) =
    suf.map (fun r => sumOf r.1 (pre ++ suf)) := by
  induction suf generalizing pre with
  | nil => rfl
  | cons r suf ih =>
    cases suf with
    | nil => simp [runs, keyEqualNext, expand]
    | cons r' suf =>
      have hrest := ih (pre ++ [r]) (pairwise_cons.mp hsorted).2
      have hnext : keyEqualNext ((r::r'::suf).map (·.1)) =
          (if r.1 = r'.1 then 1 else 0)::keyEqualNext ((r'::suf).map (·.1)) := by
        simp [keyEqualNext, keyEqual_iff]
      have happend : pre ++ [r] ++ r'::suf = pre ++ r::r'::suf := by simp
      rw [happend] at hrest
      rw [hnext, runs, cons_append, zip_cons_cons, expand, hrest]
      simp only [map_cons, head?_cons, Option.getD_some]
      congr 1
      by_cases hk : r.1 = r'.1
      · simp [hk]
      · rw [if_neg hk, if_neg (by decide), ← happend, sumOf_append r.1 (pre ++ [r]),
          sumOf_eq_zero (l := r'::suf), add_zero]
        -- a later row of the first key would lie between the two
        intro x hx heq
        have hle : r.1 ≤ r'.1 := (pairwise_cons.mp hsorted).1 _ (by simp)
        have hge : r'.1 ≤ x.1 := by
          rcases mem_cons.mp hx with rfl | hx
          · exact le_rfl
          · exact (pairwise_cons.mp (pairwise_cons.mp hsorted).2).1 _ (mem_map.mpr ⟨x, hx, rfl⟩)
        exact hk (le_antisymm hle (heq ▸ hge))

lemma keyEqualNext_mask (keys : List (Key nk)) : ∀ m ∈ keyEqualNext keys ++ [0], m = 0 ∨ m = 1 := by
  intro m hm
  rcases mem_append.mp hm with hm | hm
  · obtain ⟨i, hi, rfl⟩ := mem_iff_getElem.mp hm
    simp only [keyEqualNext, getElem_zipWith]
    split_ifs <;> simp
  · exact .inl (mem_singleton.mp hm)

lemma expandGroupValueReversely_runs (hsorted : (l.map (·.1)).Pairwise (· ≤ ·))
  (hlen : l.length ≤ 2^30) :
  expandGroupValueReversely (runs [] l) (keyEqualNext (l.map (·.1)) ++ [0]) =
    some (l.map (fun r => sumOf r.1 l)) := by
  rcases l with - | ⟨r, l⟩
  · rfl
  · rw [expandGroupValueReversely_eq_some_iff _ (keyEqualNext_mask _)]
    · exact ⟨by simpa using hlen, expand_runs [] (r::l) hsorted⟩
    · simp [keyEqualNext]

variable {X : Type}

section Separation

variable {α : Type}

lemma eq_filter_append {f : α → ℤ} {s : List α}
  (hsorted : s.Pairwise (fun a b => f a ≤ f b)) (hmarks : ∀ x ∈ s, f x = 0 ∨ f x = 1) :
  s = s.filter (fun x => f x = 0) ++ s.filter (fun x => f x = 1) := by
  induction s with
  | nil => rfl
  | cons x s ih =>
    obtain ⟨hx, hs⟩ := pairwise_cons.mp hsorted
    have hrest := ih hs (fun y hy => hmarks y (by simp [hy]))
    rcases hmarks x (by simp) with hzero | hone
    · simp [hzero, ← hrest]
    · have hones : ∀ y ∈ s, f y = 1 := by
        intro y hy
        have hle := hx y hy
        have hy' := hmarks y (by simp [hy])
        omega
      have hnone : s.filter (fun x => f x = 0) = [] :=
        filter_eq_nil_iff.mpr (fun y hy => by simp [hones y hy])
      have hall : s.filter (fun x => f x = 1) = s :=
        filter_eq_self.mpr (fun y hy => by simp [hones y hy])
      simp [hone, hnone, hall]

/-- A stable sort by marks that are `0` or `1` puts the rows marked `0` in front and keeps the
order otherwise. -/
lemma mergeSort_mark (f : α → ℤ) (l : List α) (hf : ∀ x ∈ l, f x = 0 ∨ f x = 1) :
  l.mergeSort (fun a b => f a ≤ f b) =
    l.filter (fun x => f x = 0) ++ l.filter (fun x => f x = 1) := by
  have htrans : ∀ a b c : α, decide (f a ≤ f b) = true → decide (f b ≤ f c) = true →
    decide (f a ≤ f c) = true := by
    intro a b c hab hbc
    simp only [decide_eq_true_eq] at *
    omega
  have htotal : ∀ a b : α, (decide (f a ≤ f b) || decide (f b ≤ f a)) = true := by
    intro a b
    simp only [Bool.or_eq_true, decide_eq_true_eq]
    omega
  have hperm := mergeSort_perm l (fun a b => f a ≤ f b)
  have hsorted := pairwise_mergeSort htrans htotal l
  -- the rows of one mark are a sublist of the sorted list, hence all of them there
  have hkeep : ∀ c : ℤ, (l.mergeSort (fun a b => f a ≤ f b)).filter (fun x => f x = c) =
      l.filter (fun x => f x = c) := by
    intro c
    have hpair : (l.filter (fun x => f x = c)).Pairwise (fun a b => decide (f a ≤ f b) = true) := by
      refine List.Pairwise.imp_of_mem (R := fun _ _ => True) ?_ (pairwise_of_forall (by simp))
      intro a b ha hb _
      have hfa := (mem_filter.mp ha).2
      have hfb := (mem_filter.mp hb).2
      simp only [decide_eq_true_eq] at hfa hfb ⊢
      omega
    have hsub := (sublist_mergeSort htrans htotal hpair filter_sublist).filter (fun x => f x = c)
    simp only [filter_filter, Bool.and_self] at hsub
    exact (hsub.eq_of_length (hperm.filter _).length_eq.symm).symm
  rw [eq_filter_append (hsorted.imp (fun h => decide_eq_true_eq.mp h))
    (fun x hx => hf x (hperm.mem_iff.mp hx)), hkeep, hkeep]

variable {P Q : Type}

def countOf {X : Type} (k : Key nk) (l : List (Key nk × X)) : ℤ :=
  ((l.filter (fun r => r.1 = k)).length : ℤ)

/-- The left and the right rows of a merged table, with their keys. -/
def leftOf (rows : List (Row nk P Q)) : List (Key nk × P) :=
  (rows.filter (fun r => r.mark = 0)).map (fun r => (r.key, r.left))

def rightOf (rows : List (Row nk P Q)) : List (Key nk × Q) :=
  (rows.filter (fun r => r.mark = 1)).map (fun r => (r.key, r.right))

def ranks {X : Type} (pre : List (Key nk × X)) : List (Key nk × X) → List ℤ
  | [] => []
  | r::suf => countOf r.1 (pre ++ [r])::ranks (pre ++ [r]) suf

lemma countOf_append (k : Key nk) (l l' : List (Key nk × X)) :
  countOf k (l ++ l') = countOf k l+countOf k l' := by
  simp [countOf]

variable {rows : List (Row nk P Q)} (hmarks : ∀ r ∈ rows, r.mark = 0 ∨ r.mark = 1)
include hmarks

lemma sumOf_right (k : Key nk) :
  sumOf k (rows.map (fun r => (r.key, r.mark))) = countOf k (rightOf rows) := by
  induction rows with
  | nil => rfl
  | cons r rows ih =>
    have hrest := ih (fun x hx => hmarks x (by simp [hx]))
    have hcons := sumOf_append k [(r.key, r.mark)] (rows.map (fun r => (r.key, r.mark)))
    rw [singleton_append, sumOf_singleton, hrest] at hcons
    rw [map_cons, hcons]
    rcases hmarks r (by simp) with h | h <;> by_cases hk : r.key = k <;>
      simp [rightOf, countOf, h, hk, add_comm]

lemma sumOf_left (k : Key nk) :
  sumOf k (rows.map (fun r => (r.key, 1-r.mark))) = countOf k (leftOf rows) := by
  induction rows with
  | nil => rfl
  | cons r rows ih =>
    have hrest := ih (fun x hx => hmarks x (by simp [hx]))
    have hcons := sumOf_append k [(r.key, 1-r.mark)] (rows.map (fun r => (r.key, 1-r.mark)))
    rw [singleton_append, sumOf_singleton, hrest] at hcons
    rw [map_cons, hcons]
    rcases hmarks r (by simp) with h | h <;> by_cases hk : r.key = k <;>
      simp [leftOf, countOf, h, hk, add_comm]

lemma runs_right (pre : List (Row nk P Q)) (hpre : ∀ r ∈ pre, r.mark = 0 ∨ r.mark = 1) :
  ((rows.zip
    (runs (pre.map (fun r => (r.key, r.mark))) (rows.map (fun r => (r.key, r.mark))))).filter
    (fun x => x.1.mark = 1)).map (·.2) = ranks (rightOf pre) (rightOf rows) := by
  induction rows generalizing pre with
  | nil => rfl
  | cons r rows ih =>
    have hmark := hmarks r (by simp)
    have hpre' : ∀ x ∈ pre ++ [r], x.mark = 0 ∨ x.mark = 1 := by
      intro x hx
      rcases mem_append.mp hx with hx | hx
      · exact hpre x hx
      · rwa [mem_singleton.mp hx]
    have hrest := ih (fun x hx => hmarks x (by simp [hx])) (pre ++ [r]) hpre'
    rw [map_append, map_singleton] at hrest
    have hsum := sumOf_right hpre' r.key
    rw [map_append, map_singleton] at hsum
    rw [map_cons, runs, zip_cons_cons, hsum]
    rcases hmark with h | h
    · have hsame : rightOf (pre ++ [r]) = rightOf pre := by simp [rightOf, h]
      have hskip : rightOf (r::rows) = rightOf rows := by simp [rightOf, h]
      rw [filter_cons_of_neg (by simp [h]), hrest, hsame, hskip]
    · have hone : rightOf (pre ++ [r]) = rightOf pre ++ [(r.key, r.right)] := by simp [rightOf, h]
      have htake : rightOf (r::rows) = (r.key, r.right)::rightOf rows := by simp [rightOf, h]
      rw [filter_cons_of_pos (by simp [h]), map_cons, hrest, hone, htake, ranks]

end Separation

variable {P Q : Type}

lemma rowLE_trans (a b c : Row nk P Q) (hab : rowLE a b = true) (hbc : rowLE b c = true) :
    rowLE a c = true := by
  simp only [rowLE, decide_eq_true_eq] at *
  rcases hab with hab | ⟨hab, hm⟩ <;> rcases hbc with hbc | ⟨hbc, hm'⟩
  · exact .inl (hab.trans hbc)
  · exact .inl (hbc ▸ hab)
  · exact .inl (hab ▸ hbc)
  · exact .inr ⟨hab.trans hbc, hm.trans hm'⟩

lemma rowLE_total (a b : Row nk P Q) : (rowLE a b || rowLE b a) = true := by
  simp only [rowLE, Bool.or_eq_true, decide_eq_true_eq]
  rcases lt_trichotomy a.key b.key with h | h | h
  · exact .inl (.inl h)
  · rcases le_total a.mark b.mark with hm | hm
    · exact .inl (.inr ⟨h, hm⟩)
    · exact .inr (.inr ⟨h.symm, hm⟩)
  · exact .inr (.inl h)

lemma key_le_of_rowLE {a b : Row nk P Q} (h : rowLE a b = true) : a.key ≤ b.key := by
  simp only [rowLE, decide_eq_true_eq] at h
  rcases h with h | h
  · exact h.le
  · exact h.1.le

lemma zip_counts (rows : List X) (f g : X → ℤ) (ts : List ℤ) :
  rows.zip ((rows.map f).zip ((rows.map g).zip ts)) =
    (rows.zip ts).map (fun x => (x.1, f x.1, g x.1, x.2)) := by
  induction rows generalizing ts with
  | nil => rfl
  | cons r rows ih =>
    cases ts with
    | nil => simp
    | cons t ts => simp [ih]

lemma zip_filter_fst (p : X → Bool) {rows : List X} {ts : List ℤ} (hlen : rows.length = ts.length) :
  ((rows.zip ts).filter (fun x => p x.1)).map (·.1) = rows.filter p := by
  have hmap := filter_map (f := (Prod.fst : X × ℤ → X)) (p := p) (l := rows.zip ts)
  rw [map_fst_zip (by omega)] at hmap
  exact hmap.symm

lemma countKeyGroup_eq {rows : List (Row nk P Q)} (hmarks : ∀ r ∈ rows, r.mark = 0 ∨ r.mark = 1)
  (hsorted : (rows.map (·.key)).Pairwise (· ≤ ·)) (hlen : rows.length ≤ 2^30) :
  countKeyGroup (rows.map (·.key)) (rows.map (·.mark)) =
    some (rows.map (fun r => countOf r.key (leftOf rows)),
      rows.map (fun r => countOf r.key (rightOf rows)),
      runs [] (rows.map (fun r => (r.key, r.mark)))) := by
  have hside : ∀ w :
    Row nk P Q → ℤ, scan addWithin (rows.map w) (0::keyEqualNext (rows.map (·.key))) =
        some (runs [] (rows.map (fun r => (r.key, w r)))) ∧
      expandGroupValueReversely (runs [] (rows.map (fun r => (r.key, w r))))
        (keyEqualNext (rows.map (·.key)) ++ [0]) =
        some (rows.map (fun r => sumOf r.key (rows.map (fun r => (r.key, w r))))) := by
    intro w
    have hkeys : (rows.map (fun r => (r.key, w r))).map (·.1) = rows.map (·.key) := by simp
    have hweights : (rows.map (fun r => (r.key, w r))).map (·.2) = rows.map w := by simp
    have hlen : (rows.map (fun r => (r.key, w r))).length ≤ 2^30 := by simpa using hlen
    have hscan := scan_addWithin (l := rows.map (fun r => (r.key, w r))) (hkeys ▸ hsorted) hlen
    have hexp := expandGroupValueReversely_runs (l := rows.map (fun r => (r.key, w r)))
      (hkeys ▸ hsorted) hlen
    rw [hkeys] at hscan hexp
    rw [hweights] at hscan
    rw [map_map] at hexp
    exact ⟨hscan, hexp⟩
  obtain ⟨hscanR, hexpR⟩ := hside (·.mark)
  obtain ⟨hscanL, hexpL⟩ := hside (fun r => 1-r.mark)
  rw [countKeyGroup, map_map]
  simp only [comp_def, hscanR, hscanL, hexpR, hexpL, sumOf_right hmarks, sumOf_left hmarks,
    Option.bind_eq_bind, Option.bind_some]
  rfl

/-- What the separated tables are: both inputs sorted by key, with the numbers of rows of each
key on either side and, on the right, the number of each row among those of its key. -/
structure Separated (left : List (Key nk × P)) (right : List (Key nk × Q))
    (rows : List (Counted P Q))
    (L : List (Key nk × P)) (R : List (Key nk × Q)) : Prop where
  left_perm : L.Perm left
  right_perm : R.Perm right
  left_sorted : (L.map (·.1)).Pairwise (· ≤ ·)
  right_sorted : (R.map (·.1)).Pairwise (· ≤ ·)
  left_rows : (rows.take left.length).map (fun c => (c.left, c.leftCount, c.rightCount)) =
    L.map (fun r => (r.2, countOf r.1 L, countOf r.1 R))
  right_rows : (rows.drop left.length).map
      (fun c => (c.right, c.tmpRightCount, c.leftCount, c.rightCount)) =
    (R.zip (ranks [] R)).map (fun x => (x.1.2, x.2, countOf x.1.1 L, countOf x.1.1 R))

variable [AddCommGroup P] [AddCommGroup Q]

lemma separate_eq_none {left : List (Key nk × P)} {right : List (Key nk × Q)}
  (h : 2^30 < left.length+right.length) : separate left right = none := by
  have hrows : 2^30 < (((mergeInputs left right).mergeSort rowLE).map (·.mark)).length := by
    simpa [mergeInputs] using h
  rw [separate, countKeyGroup, scan_eq_none hrows]
  rfl

lemma separated (left : List (Key nk × P)) (right : List (Key nk × Q))
  (hle : left.length+right.length ≤ 2^30) :
  ∃ rows L R, separate left right = some rows ∧ Separated left right rows L R := by
  have hperm := mergeSort_perm (mergeInputs left right) rowLE
  have hsorted := pairwise_mergeSort rowLE_trans rowLE_total (mergeInputs left right)
  set rows := (mergeInputs left right).mergeSort rowLE with hrows
  have hmarks : ∀ r ∈ rows, r.mark = 0 ∨ r.mark = 1 := by
    intro r hr
    have hr' := hperm.mem_iff.mp hr
    simp only [mergeInputs, mem_append, mem_map] at hr'
    rcases hr' with ⟨x, -, rfl⟩ | ⟨x, -, rfl⟩
    · exact .inl rfl
    · exact .inr rfl
  have hkeys : (rows.map (·.key)).Pairwise (· ≤ ·) :=
    pairwise_map.mpr (hsorted.imp (fun h => key_le_of_rowLE h))
  have hleft : (leftOf rows).Perm left := by
    have hp := (hperm.filter (fun r => r.mark = 0)).map (fun r => (r.key, r.left))
    simpa [mergeInputs, leftOf, filter_append, filter_map, comp_def] using hp
  have hright : (rightOf rows).Perm right := by
    have hp := (hperm.filter (fun r => r.mark = 1)).map (fun r => (r.key, r.right))
    simpa [mergeInputs, rightOf, filter_append, filter_map, comp_def] using hp
  set ts := runs [] (rows.map (fun r => (r.key, r.mark))) with hts
  have hlen : rows.length = ts.length := by simp [hts]
  have hle : rows.length ≤ 2^30 := by simpa [hperm.length_eq, mergeInputs] using hle
  have hsep :
    separate left right =
      some (((rows.zip ts).filter (fun x => x.1.mark = 0)).map (fun x => (⟨x.1.mark,
        countOf x.1.key (leftOf rows), countOf x.1.key (rightOf rows), x.2, x.1.left, x.1.right⟩ :
          Counted P Q)) ++ ((rows.zip ts).filter (fun x => x.1.mark = 1)).map (fun x => (⟨x.1.mark,
        countOf x.1.key (leftOf rows), countOf x.1.key (rightOf rows), x.2, x.1.left, x.1.right⟩ :
          Counted P Q))) := by
    rw [separate, ← hrows, countKeyGroup_eq hmarks hkeys hle, Option.bind_eq_bind, Option.bind_some,
      attachCounts, zip_counts, map_map, mergeSort_mark (fun c : Counted P Q => c.mark), filter_map,
      filter_map]
    · rfl
    · intro c hc
      obtain ⟨x, hx, rfl⟩ := mem_map.mp hc
      exact hmarks _ (of_mem_zip hx).1
  have hfst := fun m : ℤ => zip_filter_fst (fun r : Row nk P Q => r.mark = m) hlen
  have hcount : ((rows.zip ts).filter (fun x => x.1.mark = 0)).length = left.length := by
    rw [← hleft.length_eq, leftOf, length_map, ← hfst 0, length_map]
  refine ⟨_, leftOf rows, rightOf rows, hsep, hleft, hright, ?_, ?_, ?_, ?_⟩
  · rw [leftOf, map_map]
    exact hkeys.sublist (filter_sublist.map _)
  · rw [rightOf, map_map]
    exact hkeys.sublist (filter_sublist.map _)
  · have hrowsL : leftOf rows = ((rows.zip ts).filter (fun x => x.1.mark = 0)).map
        (fun x => (x.1.key, x.1.left)) := by
      rw [leftOf, ← hfst 0, map_map]
      rfl
    rw [take_left' (by rw [length_map, hcount]), map_map]
    have hview := congrArg (map (fun r : Key nk × P =>
      (r.2, countOf r.1 (leftOf rows), countOf r.1 (rightOf rows)))) hrowsL
    rw [map_map] at hview
    exact hview.symm
  · have hranks : ((rows.zip ts).filter (fun x => x.1.mark = 1)).map (·.2) =
        ranks [] (rightOf rows) := runs_right hmarks [] (by simp)
    have hzip : (rightOf rows).zip (ranks [] (rightOf rows)) =
        ((rows.zip ts).filter (fun x => x.1.mark = 1)).map
          (fun x => ((x.1.key, x.1.right), x.2)) := by
      rw [← hranks, rightOf, ← hfst 1, map_map, zip_map']
      rfl
    rw [drop_left' (by rw [length_map, hcount]), map_map, hzip, map_map]
    rfl

end Scql.SecretJoin
