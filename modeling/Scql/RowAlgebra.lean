import Mathlib.Data.List.Dedup
import Mathlib.Data.List.Sort

/-! # Operators on lists of rows

Joins, grouping and windows over arbitrary rows. Each operator comes with the rule that moves a
filter through it and with its naturality: renaming the rows first gives the renamed result. -/
namespace RowAlgebra

open List

variable {α β γ α' β' γ' κ : Type*}

def innerJoin (m : α → β → Bool) (merge : α → β → γ) (L : List α) (R : List β) : List γ :=
  L.flatMap (fun l => (R.filter (m l)).map (merge l))

/-- As the inner join, but a left row without a match is kept, padded. -/
def leftJoin (m : α → β → Bool) (merge : α → β → γ) (pad : α → γ) (L : List α) (R : List β) :
    List γ :=
  L.flatMap (fun l => if R.any (m l) then (R.filter (m l)).map (merge l) else [pad l])

def semiJoin (m : α → β → Bool) (L : List α) (R : List β) : List α :=
  L.filter (fun l => R.any (m l))

/-- Three-valued disjunction; `none` is unknown. -/
def anyTri (vs : List (Option Bool)) : Option Bool :=
  if some true ∈ vs then some true else if none ∈ vs then none else some false

def allTri (vs : List (Option Bool)) : Option Bool :=
  if some false ∈ vs then some false else if none ∈ vs then none else some true

variable {p : α → Bool} {m m' : α → β → Bool} {merge : α → β → γ} {L : List α} {R : List β}
    {pad : α → γ}

variable {l : List α} {f : α → α'} {g : β → β'}

variable {q : α → Bool}

lemma any_congr_of_mem (h : ∀ a ∈ l, p a = q a) : l.any p = l.any q := by
  rw [Bool.eq_iff_iff, any_eq_true, any_eq_true]
  exact exists_congr fun a => and_congr_right fun ha => by rw [h a ha]

lemma all_congr_of_mem (h : ∀ a ∈ l, p a = q a) : l.all p = l.all q := by
  rw [Bool.eq_iff_iff, all_eq_true, all_eq_true]
  exact forall₂_congr fun a ha => by rw [h a ha]

variable {merge' : α' → β' → γ'} {t : γ → Bool} {q : β → Bool} {h : γ → γ'}

lemma innerJoin_map {m' : α' → β' → Bool} (hm : ∀ l ∈ L, ∀ r ∈ R, m' (f l) (g r) = m l r)
  (hmerge : ∀ l ∈ L, ∀ r ∈ R, merge' (f l) (g r) = h (merge l r)) :
  innerJoin m' merge' (L.map f) (R.map g) = (innerJoin m merge L R).map h := by
  rw [innerJoin, innerJoin, flatMap_map, map_flatMap]
  refine flatMap_congr fun l hl => ?_
  rw [filter_map, map_map, map_map]
  have hfilter : R.filter (m' (f l) ∘ g) = R.filter (m l) :=
    filter_congr fun r hr => hm l hl r hr
  rw [hfilter]
  exact map_congr_left fun r hr => hmerge l hl r (mem_of_mem_filter hr)

lemma leftJoin_map {m' : α' → β' → Bool} {pad' : α' → γ'}
  (hm : ∀ l ∈ L, ∀ r ∈ R, m' (f l) (g r) = m l r)
  (hmerge : ∀ l ∈ L, ∀ r ∈ R, merge' (f l) (g r) = h (merge l r))
  (hpad : ∀ l ∈ L, pad' (f l) = h (pad l)) :
  leftJoin m' merge' pad' (L.map f) (R.map g) = (leftJoin m merge pad L R).map h := by
  rw [leftJoin, leftJoin, flatMap_map, map_flatMap]
  refine flatMap_congr fun l hl => ?_
  have hany : (R.map g).any (m' (f l)) = R.any (m l) := by
    rw [any_map]
    exact any_congr_of_mem fun r hr => hm l hl r hr
  have hfilter : R.filter (m' (f l) ∘ g) = R.filter (m l) :=
    filter_congr fun r hr => hm l hl r hr
  rw [hany, filter_map, map_map, hfilter]
  split
  · rw [map_map]
    exact map_congr_left fun r hr => hmerge l hl r (mem_of_mem_filter hr)
  · rw [map_singleton, hpad l hl]

lemma innerJoin_congr (hm : ∀ l ∈ L, ∀ r ∈ R, m' l r = m l r) :
    innerJoin m' merge L R = innerJoin m merge L R :=
  flatMap_congr fun l hl => by rw [filter_congr fun r hr => hm l hl r hr]

lemma leftJoin_congr (hm : ∀ l ∈ L, ∀ r ∈ R, m' l r = m l r) :
  leftJoin m' merge pad L R = leftJoin m merge pad L R :=
  flatMap_congr fun l hl => by
    rw [filter_congr fun r hr => hm l hl r hr, any_congr_of_mem fun r hr => hm l hl r hr]

lemma flatMap_filter_left {f : α → List β} :
  (L.filter p).flatMap f = L.flatMap (fun l => if p l then f l else []) := by
  induction L with
  | nil => rfl
  | cons l L ih =>
    by_cases hp : p l <;> simp [hp, ih]

lemma filter_innerJoin :
  (innerJoin m merge L R).filter t = innerJoin (fun l r => m l r && t (merge l r)) merge L R := by
  rw [innerJoin, innerJoin, filter_flatMap]
  refine flatMap_congr fun l _ => ?_
  rw [filter_map, filter_filter]
  congr 1
  refine filter_congr fun r _ => ?_
  exact Bool.and_comm _ _

lemma innerJoin_filter : innerJoin m merge (L.filter p) (R.filter q) =
    innerJoin (fun l r => p l && q r && m l r) merge L R := by
  rw [innerJoin, innerJoin, flatMap_filter_left]
  refine flatMap_congr fun l _ => ?_
  by_cases hp : p l
  · rw [if_pos hp, filter_filter]
    congr 1
    refine filter_congr fun r _ => ?_
    simp [hp, Bool.and_comm]
  · rw [if_neg hp]
    simp [hp]

lemma leftJoin_filter_right :
  leftJoin m merge pad L (R.filter q) = leftJoin (fun l r => q r && m l r) merge pad L R := by
  refine flatMap_congr fun l _ => ?_
  rw [List.any_filter, filter_filter]
  congr 1
  congr 1
  refine filter_congr fun r _ => ?_
  exact Bool.and_comm _ _

lemma leftJoin_filter_left (hmerge : ∀ l ∈ L, ∀ r ∈ R, t (merge l r) = p l)
    (hpad : ∀ l ∈ L, t (pad l) = p l) :
  leftJoin m merge pad (L.filter p) R = (leftJoin m merge pad L R).filter t := by
  rw [leftJoin, leftJoin, flatMap_filter_left, filter_flatMap]
  refine flatMap_congr fun l hl => ?_
  have hall : (((R.filter (m l)).map (merge l)).filter t) =
      if p l then (R.filter (m l)).map (merge l) else [] := by
    have hside : (R.filter (m l)).filter (t ∘ merge l) = (R.filter (m l)).filter (fun _ => p l) :=
      filter_congr fun r hr => hmerge l hl r (mem_of_mem_filter hr)
    rw [filter_map, hside]
    by_cases hp : p l <;> simp [hp]
  by_cases hany : R.any (m l)
  · rw [if_pos hany, hall]
  · rw [if_neg hany]
    by_cases hp : p l <;> simp [hp, hpad l hl]

/-- A filter on the left row before the join, and one on the right side that is part of the match
for the rows that remain. -/
lemma leftJoin_filter (hm : ∀ l ∈ L, p l = true → ∀ r ∈ R, (q r && m' l r) = m l r)
  (hmerge : ∀ l ∈ L, ∀ r ∈ R, t (merge l r) = p l) (hpad : ∀ l ∈ L, t (pad l) = p l) :
  leftJoin m' merge pad (L.filter p) (R.filter q) = (leftJoin m merge pad L R).filter t := by
  have hmatch : leftJoin (fun l r => q r && m' l r) merge pad (L.filter p) R =
      leftJoin m merge pad (L.filter p) R := leftJoin_congr fun l hl r hr =>
    hm l (mem_filter.mp hl).1 (mem_filter.mp hl).2 r hr
  rw [leftJoin_filter_right, hmatch, leftJoin_filter_left hmerge hpad]

lemma semiJoin_map {m' : α' → β' → Bool} (hm : ∀ l ∈ L, ∀ r ∈ R, m' (f l) (g r) = m l r) :
  semiJoin m' (L.map f) (R.map g) = (semiJoin m L R).map f := by
  rw [semiJoin, semiJoin, filter_map]
  congr 1
  refine filter_congr fun l hl => ?_
  rw [Function.comp_apply, any_map]
  exact any_congr_of_mem fun r hr => hm l hl r hr

lemma semiJoin_congr {m' : α → β → Bool} (hm : ∀ l ∈ L, ∀ r ∈ R, m' l r = m l r) :
    semiJoin m' L R = semiJoin m L R :=
  filter_congr fun l hl => any_congr_of_mem fun r hr => hm l hl r hr

lemma filter_semiJoin {t : α → Bool} :
  (semiJoin m L R).filter t = semiJoin (fun l r => m l r && t l) L R := by
  rw [semiJoin, semiJoin, filter_filter]
  refine filter_congr fun l _ => ?_
  by_cases ht : t l <;> simp [ht]

variable {p : α → Bool}

lemma semiJoin_filter {q : β → Bool} :
  semiJoin m (L.filter p) (R.filter q) = semiJoin (fun l r => p l && q r && m l r) L R := by
  rw [semiJoin, semiJoin, filter_filter]
  refine filter_congr fun l _ => ?_
  rw [List.any_filter]
  by_cases hp : p l <;> simp [hp]

variable {vs ws : List (Option Bool)}

lemma allTri_congr (h : ∀ v, v ∈ vs ↔ v ∈ ws) : allTri vs = allTri ws := by
  simp only [allTri, h]

lemma allTri_eq_true : allTri vs = some true ↔ ∀ v ∈ vs, v = some true := by
  rw [allTri]
  split
  · rename_i hfalse
    simpa using ⟨_, hfalse, by simp⟩
  · rename_i hfalse
    split
    · rename_i hnone
      simpa using ⟨_, hnone, by simp⟩
    · rename_i hnone
      simp only [true_iff]
      rintro (- | - | -) hv
      · exact absurd hv hnone
      · exact absurd hv hfalse
      · rfl

lemma allTri_append_of_true (h : ∀ v ∈ vs, v = some true) : allTri (vs ++ ws) = allTri ws := by
  have hfalse : some false ∉ vs := fun hmem => by simpa using h _ hmem
  have hnone : none ∉ vs := fun hmem => by simpa using h _ hmem
  simp [allTri, hfalse, hnone]

lemma allTri_append_of_false (h : some false ∈ vs) : allTri (vs ++ ws) = some false := by
  simp [allTri, h]

lemma anyTri_filter {v : α → Option Bool} :
  anyTri ((l.filter p).map v) = anyTri (l.map (fun a => if p a then v a else some false)) := by
  have hmem : ∀ b : Option Bool, b ≠ some false →
      (b ∈ (l.filter p).map v ↔ b ∈ l.map (fun a => if p a then v a else some false)) := by
    intro b hb
    simp only [mem_map, mem_filter]
    refine exists_congr fun a => ?_
    by_cases hp : p a
    · simp [hp]
    · simp [hp, Ne.symm hb]
  simp only [anyTri, hmem _ (by simp : (some true) ≠ some false),
    hmem _ (by simp : (none : Option Bool) ≠ some false)]

variable {key' : α' → κ} {f : α → α'}

section Groups

variable [DecidableEq κ] {key : α → κ}

def group (key : α → κ) (L : List α) (k : κ) : List α := L.filter (fun a => key a = k)

def groups (key : α → κ) (L : List α) : List (κ × List α) :=
  ((L.map key).dedup).map (fun k => (k, group key L k))

lemma group_map (hkey : ∀ a ∈ L, key' (f a) = key a) (k : κ) :
  group key' (L.map f) k = (group key L k).map f := by
  rw [group, group, filter_map]
  congr 1
  refine filter_congr fun a ha => ?_
  simp [hkey a ha]

lemma groups_map (hkey : ∀ a ∈ L, key' (f a) = key a) :
  groups key' (L.map f) = (groups key L).map (fun g => (g.1, g.2.map f)) := by
  have hkeys : (L.map f).map key' = L.map key := by
    rw [map_map]
    exact map_congr_left hkey
  rw [groups, groups, hkeys, map_map]
  refine map_congr_left fun k _ => ?_
  simp [group_map hkey]

variable {q : κ → Bool}

lemma dedup_filter (l : List κ) : (l.filter q).dedup = l.dedup.filter q := by
  induction l with
  | nil => rfl
  | cons k l ih =>
    by_cases hq : q k
    · rw [filter_cons_of_pos hq]
      by_cases hk : k ∈ l
      · rw [dedup_cons_of_mem hk, dedup_cons_of_mem (mem_filter.mpr ⟨hk, hq⟩), ih]
      · rw [dedup_cons_of_notMem hk, filter_cons_of_pos hq,
          dedup_cons_of_notMem fun hmem => hk (mem_of_mem_filter hmem), ih]
    · rw [filter_cons_of_neg hq, ih]
      by_cases hk : k ∈ l
      · rw [dedup_cons_of_mem hk]
      · rw [dedup_cons_of_notMem hk, filter_cons_of_neg hq]

lemma group_filter {k : κ} (hk : q k = true) :
    group key (L.filter (fun a => q (key a))) k = group key L k := by
  rw [group, group, filter_filter]
  refine filter_congr fun a _ => ?_
  by_cases hkey : key a = k
  · simp [hkey, hk]
  · simp [hkey]

lemma groups_filter :
  groups key (L.filter (fun a => q (key a))) = (groups key L).filter (fun g => q g.1) := by
  have hkeys : (L.filter (fun a => q (key a))).map key = (L.map key).filter q := by
    rw [filter_map]
    rfl
  rw [groups, groups, hkeys, dedup_filter, filter_map]
  refine map_congr_left fun k hk => ?_
  rw [group_filter (mem_filter.mp hk).2]

lemma exists_key_filter (hp : ∀ a ∈ L, ∀ b ∈ L, key a = key b → p a = p b) : ∃ q :
    κ → Bool, ∀ a ∈ L, p a = q (key a) := by
  refine ⟨fun k => L.any (fun a => key a = k && p a), fun a ha => ?_⟩
  rw [Bool.eq_iff_iff, any_eq_true]
  constructor
  · exact fun h => ⟨a, ha, by simp [h]⟩
  · rintro ⟨b, hb, h⟩
    simp only [Bool.and_eq_true, decide_eq_true_eq] at h
    rw [hp a ha b hb h.1.symm, h.2]

lemma mem_groups {g : κ × List α} (hg : g ∈ groups key L) : g.2 ≠ [] ∧ ∀ a ∈ g.2, a ∈ L ∧
    key a = g.1 := by
  obtain ⟨k, hk, rfl⟩ := mem_map.mp hg
  obtain ⟨a, ha, rfl⟩ := mem_map.mp (mem_dedup.mp hk)
  refine ⟨ne_nil_of_mem (mem_filter.mpr ⟨ha, by simp⟩), fun b hb => ?_⟩
  simpa using mem_filter.mp hb

end Groups

variable [DecidableEq κ] {key : α → κ}

/-- Each row of a list that follows `pre`, with the rows of its partition and its position among
them. -/
def windowFrom (key : α → κ) : List α → List α → List (α × List α × ℕ)
  | _, [] => []
  | pre, a::rest =>
    (a, group key (pre ++ a::rest) (key a), (group key pre (key a)).length) ::
      windowFrom key (pre ++ [a]) rest

def windowRows (key : α → κ) (L : List α) : List (α × List α × ℕ) := windowFrom key [] L

lemma windowFrom_map (pre L : List α) (hpre : ∀ a ∈ pre, key' (f a) = key a)
    (hL : ∀ a ∈ L, key' (f a) = key a) :
  windowFrom key' (pre.map f) (L.map f) =
    (windowFrom key pre L).map (fun w => (f w.1, w.2.1.map f, w.2.2)) := by
  induction L generalizing pre with
  | nil => rfl
  | cons a L ih =>
    obtain ⟨ha, hL⟩ := forall_mem_cons.mp hL
    have hall : ∀ b ∈ pre ++ a::L, key' (f b) = key b :=
      forall_mem_append.mpr ⟨hpre, forall_mem_cons.mpr ⟨ha, hL⟩⟩
    have hnext := ih (pre ++ [a]) (forall_mem_append.mpr ⟨hpre, by simpa using ha⟩) hL
    rw [map_append, map_singleton] at hnext
    have hgroup := group_map hall (key a)
    rw [map_append, map_cons] at hgroup
    rw [map_cons, windowFrom, windowFrom, map_cons, hnext, ha, hgroup, group_map hpre, length_map]

lemma windowRows_map (hL : ∀ a ∈ L, key' (f a) = key a) :
  windowRows key' (L.map f) = (windowRows key L).map (fun w => (f w.1, w.2.1.map f, w.2.2)) :=
  windowFrom_map [] L (by simp) hL

lemma windowFrom_filter {q : κ → Bool} (pre L : List α) :
  windowFrom key (pre.filter (fun a => q (key a))) (L.filter (fun a => q (key a))) =
    (windowFrom key pre L).filter (fun w => q (key w.1)) := by
  induction L generalizing pre with
  | nil => rfl
  | cons a L ih =>
    have hnext := ih (pre ++ [a])
    rw [filter_append] at hnext
    by_cases hq : q (key a)
    · have hgroup : group key ((pre ++ a::L).filter (fun b => q (key b))) (key a) =
          group key (pre ++ a::L) (key a) := group_filter hq
      rw [filter_append, filter_cons_of_pos (by exact hq)] at hgroup
      rw [filter_cons_of_pos (by exact hq), filter_nil] at hnext
      rw [filter_cons_of_pos (by exact hq), windowFrom, windowFrom,
        filter_cons_of_pos (by exact hq), hnext, hgroup, group_filter hq]
    · rw [filter_cons_of_neg (by exact hq), filter_nil, append_nil] at hnext
      rw [filter_cons_of_neg (by exact hq), windowFrom, filter_cons_of_neg (by exact hq), hnext]

lemma windowRows_filter {q : κ → Bool} : windowRows key (L.filter (fun a => q (key a))) =
    (windowRows key L).filter (fun w => q (key w.1)) :=
  windowFrom_filter [] L

variable {w : α × List α × ℕ}

lemma mem_windowFrom {pre : List α} (hw : w ∈ windowFrom key pre L) : w.1 ∈ L := by
  induction L generalizing pre with
  | nil => simp [windowFrom] at hw
  | cons a L ih =>
    rcases mem_cons.mp hw with rfl | hw
    · exact mem_cons_self
    · exact mem_cons_of_mem _ (ih hw)

lemma mem_windowRows (hw : w ∈ windowRows key L) : w.1 ∈ L :=
  mem_windowFrom hw

variable {r : α → α → Prop} [DecidableRel r] [Std.Total r] [IsTrans α r] {a : α} {l : List α}

omit [Std.Total r] [IsTrans α r] in
lemma orderedInsert_of_forall (h : ∀ b ∈ l, r a b) : l.orderedInsert r a = a::l := by
  cases l with
  | nil => rfl
  | cons b l => exact orderedInsert_cons_of_le r l (h b mem_cons_self)

omit [Std.Total r] in
lemma filter_orderedInsert (hl : l.Pairwise r) :
  (l.orderedInsert r a).filter p = if p a then (l.filter p).orderedInsert r a else l.filter p := by
  induction l with
  | nil => by_cases hp : p a <;> simp [hp]
  | cons b l ih =>
    obtain ⟨hb, hl⟩ := pairwise_cons.mp hl
    by_cases hab : r a b
    · rw [orderedInsert_cons_of_le r l hab]
      split
      · rename_i hp
        rw [filter_cons_of_pos hp, orderedInsert_of_forall]
        intro c hc
        rcases mem_cons.mp (mem_of_mem_filter hc) with rfl | hc
        · exact hab
        · exact IsTrans.trans a b c hab (hb c hc)
      · rename_i hp
        rw [filter_cons_of_neg hp]
    · rw [orderedInsert_cons, if_neg hab]
      by_cases hp : p b
      · rw [filter_cons_of_pos hp, filter_cons_of_pos hp, ih hl]
        split
        · rw [orderedInsert_cons, if_neg hab]
        · rfl
      · rw [filter_cons_of_neg hp, filter_cons_of_neg hp, ih hl]

/-- The sort is stable, so it does not matter whether rows are dropped before or after it. -/
lemma filter_insertionSort (l : List α) :
  (l.insertionSort r).filter p = (l.filter p).insertionSort r := by
  induction l with
  | nil => rfl
  | cons a l ih =>
    rw [insertionSort_cons, filter_orderedInsert (pairwise_insertionSort r l), ih]
    by_cases hp : p a
    · rw [if_pos hp, filter_cons_of_pos hp, insertionSort_cons]
    · rw [if_neg hp, filter_cons_of_neg hp]

/-- Concatenate the results of several evaluations, if all of them have one. -/
def concatAll : List (Option (List α)) → Option (List α)
  | [] => some []
  | x::xs => x.bind (fun rows => (concatAll xs).map (rows ++ ·))

lemma mem_of_concatAll {xs : List (Option (List α))} {rows : List α}
  (h : concatAll xs = some rows) (ha : a ∈ rows) : ∃ l, some l ∈ xs ∧ a ∈ l := by
  induction xs generalizing rows with
  | nil =>
    cases h
    simp at ha
  | cons x xs ih =>
    obtain ⟨l, rfl, h⟩ := Option.bind_eq_some_iff.mp h
    obtain ⟨rest, hrest, rfl⟩ := Option.map_eq_some_iff.mp h
    rcases mem_append.mp ha with ha | ha
    · exact ⟨l, mem_cons_self, ha⟩
    · obtain ⟨l', hl', ha⟩ := ih hrest ha
      exact ⟨l', mem_cons_of_mem _ hl', ha⟩

lemma concatAll_map {f : List α → List β} (hnil : f [] = [])
    (happend : ∀ l l', f (l ++ l') = f l ++ f l')
  (xs : List (Option (List α))) : concatAll (xs.map (Option.map f)) = (concatAll xs).map f := by
  induction xs with
  | nil => simp [concatAll, hnil]
  | cons x xs ih =>
    cases x with
    | none => rfl
    | some l =>
      rw [map_cons, Option.map_some, concatAll, ih, concatAll]
      simp [happend, Function.comp_def]

end RowAlgebra
