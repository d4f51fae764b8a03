import Mathlib.Data.List.Perm.Lattice
import Mathlib.Data.List.Sort
import Scql.MarkedBlocks

/-! # Rows of a table that is given by columns

Columns of one length are read row by row. Rearranging all columns the same way, or keeping the
same marked cells of all columns, does so to the rows. -/
namespace ColumnRows

open MarkedBlocks hiding next
open List

variable {α β γ : Type}

/-- The rows of the columns; a table without columns has no rows. -/
def rowsOf : List (List α) → List (List α)
  | [] => []
  | [column] => column.map (fun a => [a])
  | column::next::columns => zipWith (· :: ·) column (rowsOf (next::columns))

def permute (order : List ℕ) (column : List α) : List α := order.filterMap (fun i => column[i]?)

variable {order : List ℕ} {column : List α} {n : ℕ}

lemma permute_map (order : List ℕ) (f : α → β) (column : List α) :
  permute order (column.map f) = (permute order column).map f := by
  rw [permute, permute, map_filterMap]
  refine filterMap_congr (fun i _ => ?_)
  rw [getElem?_map]

lemma permute_range (column : List α) : permute (range column.length) column = column := by
  induction column with
  | nil => rfl
  | cons a column ih =>
    rw [permute] at ih
    rw [permute, length_cons, range_succ_eq_map, filterMap_cons_some (by rfl), filterMap_map]
    exact congrArg _ ih

lemma permute_perm (h : order.Perm (range column.length)) : (permute order column).Perm column := by
  have hperm := h.filterMap (fun i => column[i]?)
  exact hperm.trans (Perm.of_eq (permute_range column))

variable {left : List α} {right : List β}

lemma zipWith_permute (f : α → β → γ) (hlen : left.length = right.length) :
  zipWith f (permute order left) (permute order right) = permute order (zipWith f left right) := by
  induction order with
  | nil => rfl
  | cons i order ih =>
    rw [permute, permute] at ih
    rw [permute, permute, permute]
    by_cases hi : i < left.length
    · have hi' : i < right.length := by omega
      rw [filterMap_cons_some (getElem?_eq_getElem hi),
        filterMap_cons_some (getElem?_eq_getElem hi'), zipWith_cons_cons, ih,
        filterMap_cons_some (b := f left[i] right[i]) (by simp [hi, hi'])]
      rfl
    · rw [filterMap_cons_none (getElem?_eq_none (by omega)),
        filterMap_cons_none (getElem?_eq_none (by omega)), ih,
        filterMap_cons_none (getElem?_eq_none (by simp; omega))]
      rfl

lemma permute_length (hlen : left.length = right.length) :
  (permute order left).length = (permute order right).length := by
  have hunit := congrArg length (permute_map order (fun _ => ()) left)
  have hunit' := congrArg length (permute_map order (fun _ => ()) right)
  rw [map_const', hlen, ← map_const', hunit', length_map, length_map] at hunit
  exact hunit.symm

variable (le : α → α → Prop) [DecidableRel le]

def sortedPlaces (column : List α) : List ℕ :=
  (column.zipIdx.insertionSort (fun a b => le a.1 b.1)).map (·.2)

lemma sortedPlaces_perm (column : List α) :
  (sortedPlaces le column).Perm (range column.length) := by
  refine ((perm_insertionSort _ column.zipIdx).map _).trans (Perm.of_eq ?_)
  rw [zipIdx_map_snd, range_eq_range']

lemma permute_sortedPlaces (column : List α) : permute (sortedPlaces le column) column
    = (column.zipIdx.insertionSort (fun a b => le a.1 b.1)).map (·.1) := by
  rw [permute, sortedPlaces, filterMap_map, ← filterMap_eq_map]
  refine filterMap_congr (fun p hp => ?_)
  have hmem : p ∈ column.zipIdx := (mem_insertionSort _).mp hp
  exact mem_zipIdx_iff_getElem?.mp hmem

lemma permute_sortedPlaces_pairwise (htotal : ∀ a b, le a b ∨ le b a)
  (htrans : ∀ a b c, le a b → le b c → le a c) (column : List α) :
  (permute (sortedPlaces le column) column).Pairwise le := by
  have : Std.Total (fun a b : α × ℕ => le a.1 b.1) := ⟨fun a b => htotal a.1 b.1⟩
  have : IsTrans (α × ℕ) (fun a b => le a.1 b.1) := ⟨fun a b c => htrans a.1 b.1 c.1⟩
  rw [permute_sortedPlaces]
  exact pairwise_map.mpr (pairwise_insertionSort _ _)

variable {columns : List (List α)} {marks : List Bool}

lemma length_rowsOf (hne : columns ≠ []) (hlen : ∀ c ∈ columns, c.length = n) :
    (rowsOf columns).length = n := by
  induction columns using rowsOf.induct with
  | case1 => exact absurd rfl hne
  | case2 column => simpa [rowsOf] using hlen
  | case3 column next columns ih =>
    have hrest := ih (by simp) (fun c hc => hlen c (mem_cons_of_mem _ hc))
    rw [rowsOf, length_zipWith, hrest, hlen column mem_cons_self, Nat.min_self]

lemma rowsOf_map (op : ∀ {δ : Type}, List δ → List δ)
  (hmap : ∀ {δ ε : Type} (f : δ → ε) (c : List δ), op (c.map f) = (op c).map f)
  (hzip : ∀ {δ ε ζ : Type} (f : δ → ε → ζ) (b : List δ) (c : List ε), b.length = n →
    c.length = n → zipWith f (op b) (op c) = op (zipWith f b c))
  (hne : columns ≠ []) (hlen : ∀ c ∈ columns, c.length = n) :
    rowsOf (columns.map op) = op (rowsOf columns) := by
  induction columns using rowsOf.induct with
  | case1 => exact absurd rfl hne
  | case2 column => rw [map_singleton, rowsOf, rowsOf, hmap]
  | case3 column next columns ih =>
    have hlen' : ∀ c ∈ next::columns, c.length = n := fun c hc => hlen c (mem_cons_of_mem _ hc)
    have hrest := ih (by simp) hlen'
    rw [map_cons, map_cons, rowsOf, ← map_cons, hrest, rowsOf,
      hzip _ _ _ (hlen column mem_cons_self) (length_rowsOf (by simp) hlen')]

lemma rowsOf_permute (hne : columns ≠ []) (hlen : ∀ c ∈ columns, c.length = n) :
  rowsOf (columns.map (permute order)) = permute order (rowsOf columns) :=
  rowsOf_map (permute order) (fun _ _ => permute_map _ _ _)
    (fun f _ _ hb hc => zipWith_permute f (hb.trans hc.symm)) hne hlen

lemma keepMarked_map (f : α → β) (column : List α) (marks : List Bool) :
  keepMarked (column.map f) marks = (keepMarked column marks).map f := by
  rw [keepMarked, keepMarked, zip_map_left, filter_map, map_map, map_map]
  rfl

lemma zipWith_keepMarked (f : α → β → γ) (hleft : left.length = marks.length)
  (hright : right.length = marks.length) :
    zipWith f (keepMarked left marks) (keepMarked right marks)
    = keepMarked (zipWith f left right) marks := by
  induction marks generalizing left right with
  | nil => simp [keepMarked]
  | cons m marks ih =>
    obtain ⟨a, left, rfl⟩ := exists_cons_of_length_eq_add_one hleft
    obtain ⟨b, right, rfl⟩ := exists_cons_of_length_eq_add_one hright
    have hrest := ih (by simpa using hleft) (by simpa using hright)
    cases m with
    | false => simpa [keepMarked] using hrest
    | true => simpa [keepMarked] using hrest

lemma rowsOf_keepMarked (hne : columns ≠ []) (hlen : ∀ c ∈ columns, c.length = marks.length) :
  rowsOf (columns.map (keepMarked · marks)) = keepMarked (rowsOf columns) marks :=
  rowsOf_map (fun c => keepMarked c marks) (fun f c => keepMarked_map f c marks)
    (fun f _ _ hb hc => zipWith_keepMarked f hb hc) hne hlen

lemma keepMarked_permute (hlen : column.length = marks.length)
    (h : order.Perm (range column.length)) :
  (keepMarked (permute order column) (permute order marks)).Perm (keepMarked column marks) := by
  have hzip : (permute order column).zip (permute order marks) = permute order (column.zip marks) :=
    zipWith_permute _ hlen
  have hperm : (permute order (column.zip marks)).Perm (column.zip marks) :=
    permute_perm (by simpa [hlen] using h)
  rw [keepMarked, hzip]
  exact (hperm.filter _).map _

lemma rowsOf_keepMarked_permute (hne : columns ≠ []) (hlen : ∀ c ∈ columns, c.length = marks.length)
  (h : order.Perm (range marks.length)) :
  (rowsOf (columns.map (fun c => keepMarked (permute order c) (permute order marks)))).Perm
    (rowsOf (columns.map (keepMarked · marks))) := by
  have hrows : (rowsOf columns).length = marks.length := length_rowsOf hne hlen
  have hpermuted : ∀ c ∈ columns.map (permute order), c.length = (permute order marks).length := by
    intro c hc
    obtain ⟨b, hb, rfl⟩ := mem_map.mp hc
    exact permute_length (hlen b hb)
  have hkept := rowsOf_keepMarked (by simpa using hne) hpermuted
  rw [map_map, rowsOf_permute hne hlen] at hkept
  rw [rowsOf_keepMarked hne hlen]
  exact (Perm.of_eq hkept).trans (keepMarked_permute hrows (by rwa [hrows]))

lemma rowsOf_of_map {ι : Type} (fs : List (ι → α)) (hne : fs ≠ []) (l : List ι) :
  rowsOf (fs.map (fun f => l.map f)) = l.map (fun x => fs.map (fun f => f x)) := by
  induction fs with
  | nil => exact absurd rfl hne
  | cons f fs ih =>
    cases fs with
    | nil => simp [rowsOf]
    | cons g fs =>
      have hrest := ih (by simp)
      rw [map_cons] at hrest
      rw [map_cons, map_cons, rowsOf, hrest, zipWith_map, zipWith_self]
      rfl

end ColumnRows
