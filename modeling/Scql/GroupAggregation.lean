import Scql.ColumnRows
import Scql.FallibleRules
import Scql.KeyGroups
import Scql.ObliviousGroups

/-! # Grouped aggregation

Two ways to compute the aggregates of a grouped table. One party that sees the group keys numbers
the groups and computes every aggregate group by group. Over secret columns the rows are sorted by
the keys, the last row of every group is marked, the aggregates run along the groups, and the
marked rows are kept: the aggregates are scans, which have no result for more than `2^30` rows.
Numbers are exact and a sort is any correct sort. -/
namespace Scql.GroupAggregation

open ObliviousGroups ColumnRows KeyGroups MarkedBlocks List Function

/-- A sort by key columns, the first of them being the major one. It says where the row of every
place comes from; rows with equal keys may come in any order. -/
structure Sorting (κ : Type) [LinearOrder κ] where
  order : ∀ {nk : ℕ}, List (Key κ nk) → List ℕ
  perm : ∀ {nk : ℕ} (keys : List (Key κ nk)), (order keys).Perm (range keys.length)
  sorted : ∀ {nk : ℕ} (keys : List (Key κ nk)), (permute (order keys) keys).Pairwise (· ≤ ·)

structure Shuffling where
  order : ℕ → List ℕ
  perm : ∀ n, (order n).Perm (range n)

variable {κ ρ : Type} [LinearOrder κ] {nk : ℕ}

def Sorting.rows (sort : Sorting κ) (key : ρ → Key κ nk) (rows : List ρ) : List ρ :=
  permute (sort.order (rows.map key)) rows

lemma Sorting.rows_perm (sort : Sorting κ) (key : ρ → Key κ nk) (rows : List ρ) :
  (sort.rows key rows).Perm rows :=
  permute_perm (by simpa using sort.perm (rows.map key))

lemma Sorting.rows_sorted (sort : Sorting κ) (key : ρ → Key κ nk) (rows : List ρ) :
  (sort.rows key rows).Pairwise (fun a b => key a ≤ key b) := by
  have h := sort.sorted (rows.map key)
  rw [permute_map] at h
  exact pairwise_map.mp h

def Sorting.insertion (κ : Type) [LinearOrder κ] : Sorting κ where
  order keys := sortedPlaces (· ≤ ·) keys
  perm keys := sortedPlaces_perm _ keys
  sorted keys := permute_sortedPlaces_pairwise _ le_total (fun _ _ _ => le_trans) keys

/-- An aggregate of a grouped table: the first row of a group key, or a function of a column. -/
inductive AggFunc (κ ρ : Type) (nk : ℕ) where
  | firstRow (column : Fin (nk+1))
  | sum (arg : ρ → ℚ)
  | max (arg : ρ → ℚ)
  | min (arg : ρ → ℚ)
  | avg (arg : ρ → ℚ)
  | count
  | countDistinct (arg : ρ → κ)
  -- sums up partial counts
  | countFinal (arg : ρ → ℚ)

inductive Cell (κ : Type) where
  | key (k : κ)
  | num (x : ℚ)
  deriving DecidableEq

def numOf (m : Bool) : ℚ := if m then 1 else 0

def Key.snoc (k : Key κ nk) (x : κ) : Key κ (nk+1) := ⟨k.1 ++ [x], by simp [k.2]⟩

def AggFunc.scanned : AggFunc κ ρ nk → Bool
  | .firstRow _ => false
  | .sum _ | .max _ | .min _ | .avg _ | .count | .countDistinct _ | .countFinal _ => true

/-- The secret column of an operator. -/
def runColumn {V : Type} (calculateResult : List V → List ℤ → Option (List ℚ)) (value : List V)
    (groupMark : List Bool) : Option (List (Cell κ)) :=
  (execute calculateResult value groupMark).map (fun column => column.map .num)

/-- The column of an aggregate, for rows that are sorted by the keys and marked. -/
def obliviousColumn (sort : Sorting κ) (key : ρ → Key κ (nk+1)) (sorted : List ρ)
    (groupMark : List Bool) : AggFunc κ ρ nk → Option (List (Cell κ))
  | .firstRow column => some (sorted.map (fun r => .key ((key r).column column)))
  | .sum arg => runColumn obliviousGroupSum (sorted.map arg) groupMark
  | .max arg => runColumn obliviousGroupMax (sorted.map arg) groupMark
  | .min arg => runColumn obliviousGroupMin (sorted.map arg) groupMark
  | .avg arg => runColumn obliviousGroupAvg (sorted.map arg) groupMark
  | .count => runColumn obliviousGroupCount (groupMark.map numOf) groupMark
  | .countDistinct arg =>
    -- the group keys are the major keys, so that the group mark stays valid
    let keyAndDistinct := sorted.map (fun r => Key.snoc (key r) (arg r))
    let sortedDistinctCol := permute (sort.order keyAndDistinct) (sorted.map arg)
    let groupMarkDistinct := obliviousGroupMark [sortedDistinctCol]
    let groupMarkFull := zipWith or groupMark groupMarkDistinct
    runColumn obliviousGroupSum (groupMarkFull.map numOf) groupMark
  | .countFinal arg => runColumn obliviousGroupSum (sorted.map arg) groupMark

/-- `partyToReveal` says whether the sort keys are revealed after a first shuffle. -/
def buildObliviousGroupAggregation (sort : Sorting κ) (shuffle shuffle' : Shuffling)
    (partyToReveal revealGroupMark : Bool) (key : ρ → Key κ (nk+1))
    (aggFuncs : List (AggFunc κ ρ nk)) (rows : List ρ) : Option (List (List (Cell κ))) := do
  let payload := if partyToReveal then permute (shuffle.order rows.length) rows else rows
  let sorted := sort.rows key payload
  let groupMark := obliviousGroupMark (columnsOf (sorted.map key))
  let rt ← aggFuncs.mapM (obliviousColumn sort key sorted groupMark)
  if revealGroupMark then return rowsOf (rt.map (fun column => keepMarked column groupMark))
  else
    let order := shuffle'.order sorted.length
    return rowsOf (rt.map (fun column =>
      keepMarked (permute order column) (permute order groupMark)))

variable {α β : Type}

/-- `Grouper::Consume`: the keys seen so far and the number of the group of every row. -/
def consume {K : Type} [DecidableEq K] (keys : List K) : List K × List ℕ :=
  keys.foldl (fun state k =>
    let seen := if k ∈ state.1 then state.1 else state.1 ++ [k]
    (seen, state.2 ++ [seen.idxOf k])) ([], [])

/-- `Grouper::MakeGroupings`: the places of every group. -/
def makeGroupings (groupId : List ℕ) (groupNum : ℕ) : List (List ℕ) :=
  (range groupNum).map (fun g =>
    (range groupId.length).filter (fun i => groupId[i]? = some g))

def applyGroupings (groupings : List (List ℕ)) (column : List α) : List (List α) :=
  groupings.map (fun places => permute places column)

/-- The value of a group from its first row and the others. -/
def onGroup (f : α → List α → β) : List α → Option β
  | [] => none
  | a::l => some (f a l)

/-- `GroupAggBase::Execute` for one column: empty slices are passed over. -/
def groupAgg (aggImpl : α → List α → β) (groupId : List ℕ) (groupNum : ℕ) (column : List α) :
    List β :=
  (applyGroupings (makeGroupings groupId groupNum) column).filterMap (onGroup aggImpl)

def groupFirstOf (a : α) (_ : List α) : α := a

def groupSum (a : ℚ) (l : List ℚ) : ℚ := (a::l).sum

def groupCount (a : α) (l : List α) : ℚ := (a::l).length

def groupAvg (a : ℚ) (l : List ℚ) : ℚ := (a::l).sum/(a::l).length

def groupMax (a : ℚ) (l : List ℚ) : ℚ := l.foldl max a

def groupMin (a : ℚ) (l : List ℚ) : ℚ := l.foldl min a

def groupCountDistinct [DecidableEq α] (a : α) (l : List α) : ℚ := (a::l).dedup.length

def privateColumn (key : ρ → Key κ (nk+1)) (rows : List ρ) (groupId : List ℕ) (groupNum : ℕ) :
    AggFunc κ ρ nk → List (Cell κ)
  | .firstRow column =>
    (groupAgg groupFirstOf groupId groupNum (rows.map (fun r => (key r).column column))).map .key
  | .sum arg => (groupAgg groupSum groupId groupNum (rows.map arg)).map .num
  | .max arg => (groupAgg groupMax groupId groupNum (rows.map arg)).map .num
  | .min arg => (groupAgg groupMin groupId groupNum (rows.map arg)).map .num
  | .avg arg => (groupAgg groupAvg groupId groupNum (rows.map arg)).map .num
  | .count => (groupAgg groupCount groupId groupNum groupId).map .num
  | .countDistinct arg => (groupAgg groupCountDistinct groupId groupNum (rows.map arg)).map .num
  | .countFinal arg => (groupAgg groupSum groupId groupNum (rows.map arg)).map .num

def buildPrivateGroupAggregation (key : ρ → Key κ (nk+1)) (aggFuncs : List (AggFunc κ ρ nk))
    (rows : List ρ) : List (List (Cell κ)) :=
  let grouper := consume (rows.map key)
  rowsOf (aggFuncs.map (privateColumn key rows grouper.2 grouper.1.length))

variable {K : Type} [DecidableEq K]

/-- What `consume` keeps: the keys seen, each once, and for every row the place of its key. -/
lemma consume_spec (keys : List K) : (consume keys).1.Nodup ∧ (∀ k, k ∈ (consume keys).1 ↔ k ∈ keys)
    ∧ (consume keys).2 = keys.map (fun k => (consume keys).1.idxOf k) := by
  induction keys using reverseRecOn with
  | nil => simp [consume]
  | append_singleton keys k ih =>
    obtain ⟨hnodup, hmem, hids⟩ := ih
    have hstep : consume (keys ++ [k])
        = (if k ∈ (consume keys).1 then (consume keys).1 else (consume keys).1 ++ [k],
          (consume keys).2 ++ [(if k ∈ (consume keys).1 then (consume keys).1
            else (consume keys).1 ++ [k]).idxOf k]) := by
      rw [consume, foldl_append]
      rfl
    rw [hstep]
    by_cases hk : k ∈ (consume keys).1
    · simp only [if_pos hk]
      refine ⟨hnodup, fun k' => ?_, ?_⟩
      · rw [hmem, mem_append, mem_singleton]
        refine (or_iff_left_of_imp ?_).symm
        rintro rfl
        exact (hmem k').mp hk
      · rw [map_append, ← hids]
        rfl
    · simp only [if_neg hk]
      refine ⟨?_, fun k' => ?_, ?_⟩
      · exact nodup_append.mpr ⟨hnodup, by simp, by rintro a ha b hb rfl; simp_all⟩
      · rw [mem_append, mem_append, hmem]
      · -- keys seen before keep their place
        have hold : keys.map (fun k' => ((consume keys).1 ++ [k]).idxOf k')
            = keys.map (fun k' => (consume keys).1.idxOf k') :=
          map_congr_left (fun k' hk' => idxOf_append_of_mem ((hmem k').mpr hk'))
        rw [map_append, hold, ← hids]
        rfl

lemma permute_filter_range (column : List α) (p : α → Bool) :
  permute ((range column.length).filter (fun i => column[i]?.any p)) column = column.filter p := by
  induction column with
  | nil => rfl
  | cons a column ih =>
    have hrange : (range (column.length+1)).filter (fun i => (a::column)[i]?.any p)
        = (if p a then [0] else []) ++ ((range column.length).filter
            (fun i => column[i]?.any p)).map Nat.succ := by
      rw [range_succ_eq_map, filter_cons, filter_map]
      by_cases ha : p a
      · simp [ha, comp_def]
      · simp [ha, comp_def]
    rw [permute] at ih
    rw [permute, length_cons, hrange, filterMap_append, filterMap_map, filter_cons, ← ih]
    by_cases ha : p a
    · simp [ha]
    · simp [ha]

lemma applyGroupings_consume (key : ρ → K) (rows : List ρ) (f : ρ → α) :
  applyGroupings (makeGroupings (consume (rows.map key)).2 (consume (rows.map key)).1.length)
      (rows.map f) = (consume (rows.map key)).1.map (fun k => (withKey key rows k).map f) := by
  obtain ⟨hnodup, hmem, hids⟩ := consume_spec (rows.map key)
  generalize (consume (rows.map key)).1 = seen at hnodup hmem hids ⊢
  rw [hids, applyGroupings, makeGroupings, map_map]
  refine ext_getElem (by simp) (fun g h₁ h₂ => ?_)
  have hg : g < seen.length := by simpa using h₂
  rw [getElem_map, getElem_map, getElem_range, comp_apply, permute_map]
  congr 1
  rw [withKey, ← permute_filter_range rows, length_map, length_map]
  congr 1
  refine filter_congr (fun i hi => ?_)
  have hi : i < rows.length := mem_range.mp hi
  have hin : key rows[i] ∈ seen := (hmem _).mpr (mem_map_of_mem (getElem_mem hi))
  rw [Bool.eq_iff_iff]
  simp only [getElem?_map, getElem?_eq_getElem hi, Option.map_some, Option.some.injEq,
    decide_eq_true_eq, Option.any_some]
  constructor
  · rintro rfl
    exact (getElem_idxOf _).symm
  · intro h
    rw [h, hnodup.idxOf_getElem]

lemma groupAgg_consume (aggImpl : α → List α → β) (key : ρ → K) (rows : List ρ) (f : ρ → α) :
  groupAgg aggImpl (consume (rows.map key)).2 (consume (rows.map key)).1.length (rows.map f)
    = (consume (rows.map key)).1.filterMap (fun k =>
        onGroup (fun a l => aggImpl (f a) (l.map f)) (withKey key rows k)) := by
  rw [groupAgg, applyGroupings_consume, filterMap_map]
  refine filterMap_congr (fun k _ => ?_)
  rw [comp_apply]
  cases withKey key rows k <;> rfl

/-- What an aggregate is of a group, given by its first row and the others. -/
def AggFunc.value (key : ρ → Key κ (nk+1)) : AggFunc κ ρ nk → ρ → List ρ → Cell κ
  | .firstRow column, r, _ => .key ((key r).column column)
  | .sum arg, r, l => .num (groupSum (arg r) (l.map arg))
  | .max arg, r, l => .num (groupMax (arg r) (l.map arg))
  | .min arg, r, l => .num (groupMin (arg r) (l.map arg))
  | .avg arg, r, l => .num (groupAvg (arg r) (l.map arg))
  | .count, r, l => .num (groupCount r l)
  | .countDistinct arg, r, l => .num (groupCountDistinct (arg r) (l.map arg))
  | .countFinal arg, r, l => .num (groupSum (arg r) (l.map arg))

variable {α β : Type}

lemma map_onGroup {γ : Type} (f : α → List α → β) (h : β → γ) (g : List α) :
  (onGroup f g).map h = onGroup (fun a l => h (f a l)) g := by
  cases g <;> rfl

lemma privateColumn_eq (key : ρ → Key κ (nk+1)) (rows : List ρ) (agg : AggFunc κ ρ nk) :
  privateColumn key rows (consume (rows.map key)).2 (consume (rows.map key)).1.length agg
    = (consume (rows.map key)).1.filterMap
      (fun k => onGroup (agg.value key) (withKey key rows k)) := by
  have hagg : ∀ {α β : Type} (aggImpl : α → List α → β) (f : ρ → α) (cell : β → Cell κ),
      (groupAgg aggImpl (consume (rows.map key)).2 (consume (rows.map key)).1.length
          (rows.map f)).map cell
        = (consume (rows.map key)).1.filterMap (fun k =>
            onGroup (fun a l => cell (aggImpl (f a) (l.map f))) (withKey key rows k)) := by
    intro α β aggImpl f cell
    rw [groupAgg_consume, map_filterMap]
    exact filterMap_congr (fun k _ => map_onGroup _ _ _)
  cases agg with
  | count =>
    -- the column that is counted is the one of the group numbers
    obtain ⟨id, hid⟩ : ∃ id : ρ → ℕ, (consume (rows.map key)).2 = rows.map id := by
      have hids := (consume_spec (rows.map key)).2.2
      rw [map_map] at hids
      exact ⟨_, hids⟩
    have hcount := hagg groupCount id .num
    rw [← hid] at hcount
    rw [privateColumn, hcount]
    refine filterMap_congr (fun k _ => ?_)
    cases withKey key rows k with
    | nil => rfl
    | cons a l => simp [onGroup, AggFunc.value, groupCount]
  | _ => exact hagg _ _ _

variable {a a' : ℚ} {l l' : List ℚ}

lemma groupMax_perm (h : (a::l).Perm (a'::l')) : groupMax a l = groupMax a' l' := by
  have hcons : (a::l).max? = some (groupMax a l) := max?_cons'
  obtain ⟨hmem, hle⟩ := max?_eq_some_iff.mp hcons
  have hmax : (a'::l').max? = some (groupMax a l) :=
    max?_eq_some_iff.mpr ⟨h.mem_iff.mp hmem, fun b hb => hle b (h.mem_iff.mpr hb)⟩
  rw [max?_cons'] at hmax
  exact (Option.some.inj hmax).symm

lemma groupMin_perm (h : (a::l).Perm (a'::l')) : groupMin a l = groupMin a' l' := by
  have hcons : (a::l).min? = some (groupMin a l) := min?_cons'
  obtain ⟨hmem, hle⟩ := min?_eq_some_iff.mp hcons
  have hmin : (a'::l').min? = some (groupMin a l) :=
    min?_eq_some_iff.mpr ⟨h.mem_iff.mp hmem, fun b hb => hle b (h.mem_iff.mpr hb)⟩
  rw [min?_cons'] at hmin
  exact (Option.some.inj hmin).symm

variable {g g' : List ρ} {k : Key κ (nk+1)}

lemma onGroup_value_perm {key : ρ → Key κ (nk+1)} (agg : AggFunc κ ρ nk)
  (h : g.Perm g') (hkey : ∀ r ∈ g, key r = k) :
    onGroup (agg.value key) g = onGroup (agg.value key) g' := by
  rcases g with - | ⟨a, l⟩
  · rw [h.nil_eq]
  · rcases g' with - | ⟨a', l'⟩
    · exact absurd h.length_eq (by simp)
    · refine congrArg some ?_
      have hmap : ∀ {β : Type} (f : ρ → β), (f a::l.map f).Perm (f a'::l'.map f) :=
        fun f => h.map f
      cases agg with
      | firstRow column =>
        have ha : key a = k := hkey a mem_cons_self
        have ha' : key a' = k := hkey a' (h.mem_iff.mpr mem_cons_self)
        rw [AggFunc.value, AggFunc.value, ha, ha']
      | sum arg | countFinal arg => exact congrArg Cell.num (hmap arg).sum_eq
      | max arg => exact congrArg Cell.num (groupMax_perm (hmap arg))
      | min arg => exact congrArg Cell.num (groupMin_perm (hmap arg))
      | avg arg =>
        rw [AggFunc.value, AggFunc.value, groupAvg, groupAvg, (hmap arg).sum_eq,
          (hmap arg).length_eq]
      | count => rw [AggFunc.value, AggFunc.value, groupCount, groupCount, h.length_eq]
      | countDistinct arg =>
        rw [AggFunc.value, AggFunc.value, groupCountDistinct, groupCountDistinct,
          (hmap arg).dedup.length_eq]

variable [LinearOrder K] {key : ρ → K} {rows : List ρ}

def groupsOf (key : ρ → K) (rows : List ρ) : List (List ρ) :=
  (sortedKeys key rows).map (withKey key rows)

lemma groupsOf_ne_nil : ∀ g ∈ groupsOf key rows, g ≠ [] := by
  intro g hg
  obtain ⟨k, hk, rfl⟩ := mem_map.mp hg
  obtain ⟨r, hr, hrk⟩ := mem_sortedKeys.mp hk
  exact ne_nil_of_mem (mem_withKey.mpr ⟨hr, hrk⟩)

lemma flatMap_groupsOf (hsorted : rows.Pairwise (fun a b => key a ≤ key b))
  (f : ρ → β) : (groupsOf key rows).flatMap (fun g => g.map f) = rows.map f := by
  have hrows := eq_flatMap_withKey hsorted (sortedKeys_strict key rows)
    (fun a ha => mem_sortedKeys.mpr ⟨a, ha, rfl⟩)
  rw [groupsOf, flatMap_map, ← map_flatMap, ← hrows]

lemma length_flatten_groupsOf (hsorted : rows.Pairwise (fun a b => key a ≤ key b)) :
  (groupsOf key rows).flatten.length = rows.length := by
  rw [← length_flatMap_blocks (c := fun g => g.map key) (fun g _ => length_map key),
    flatMap_groupsOf hsorted, length_map]

lemma lastMark_congr {g : List α} {g' : List β} (h : g.length = g'.length) :
    lastMark g = lastMark g' := by
  induction g using lastMark.induct generalizing g' with
  | case1 =>
    obtain rfl := eq_nil_of_length_eq_zero h.symm
    rfl
  | case2 a =>
    obtain ⟨b, rfl⟩ := length_eq_one_iff.mp h.symm
    rfl
  | case3 a b g ih =>
    rcases g' with - | ⟨a', - | ⟨b', g'⟩⟩
    · simp at h
    · simp at h
    · have hrest : (b::g).length = (b'::g').length := by simpa using h
      rw [lastMark, lastMark, ih hrest]

lemma endMarks_rows (hsorted : rows.Pairwise (fun a b => key a ≤ key b)) :
  endMarks (rows.map key) = (groupsOf key rows).flatMap lastMark := by
  have hnodup : (sortedKeys key rows).Nodup := (sortedKeys_strict key rows).imp (fun h => h.ne)
  rw [← flatMap_groupsOf hsorted key, groupsOf, flatMap_map, endMarks_groups hnodup, flatMap_map]
  · exact flatMap_congr (fun k _ => lastMark_congr (by simp))
  · intro k _ x hx
    obtain ⟨r, hr, rfl⟩ := mem_map.mp hx
    exact (mem_withKey.mp hr).2
  · intro k hk h
    exact groupsOf_ne_nil _ (mem_map_of_mem hk) (map_eq_nil_iff.mp h)

lemma sum_endMarks [LinearOrder α] {l : List α} (hsorted : l.Pairwise (· ≤ ·)) :
  ((endMarks l).map numOf).sum = l.dedup.length := by
  induction l using endMarks.induct with
  | case1 => rfl
  | case2 a => simp [endMarks, numOf]
  | case3 a b l ih =>
    obtain ⟨ha, hrest⟩ := pairwise_cons.mp hsorted
    rw [endMarks, map_cons, sum_cons, ih hrest]
    by_cases hab : a = b
    · subst hab
      have hin : a ∈ a::l := mem_cons_self
      rw [dedup_cons_of_mem hin]
      simp [numOf]
    · have hmem : a ∉ b::l := by
        intro hmem
        rcases mem_cons.mp hmem with h | h
        · exact hab h
        · have hba : b ≤ a := (pairwise_cons.mp hrest).1 a h
          exact hab (le_antisymm (ha b mem_cons_self) hba)
      rw [dedup_cons_of_notMem hmem, length_cons]
      simp [numOf, hab, add_comm]

variable {gs : List (List ρ)} {V : Type} {calculateResult : List V → List ℤ → Option (List ℚ)}

/-- The column has a cell of every row, and its marked cells are the values of the groups. -/
def KeptValues (gs : List (List ρ)) (f : ρ → List ρ → Cell κ)
    (column : Option (List (Cell κ))) : Prop :=
  ∃ cells, column = some cells ∧ cells.length = (gs.flatMap lastMark).length
    ∧ keepMarked cells (gs.flatMap lastMark) = gs.filterMap (onGroup f)

omit [LinearOrder κ] in
lemma keptValues_runColumn {v : List ρ → List V} {out : List ρ → List ℚ} {f : ρ → List ρ → ℚ}
  (hne : ∀ g ∈ gs, g ≠ []) (hv : ∀ g ∈ gs, (v g).length = g.length)
  (hcalc : calculateResult (gs.flatMap v) (gs.flatMap startMask) = some (gs.flatMap out))
  (hout : ∀ g ∈ gs, (out g).length = g.length)
  (hlast : ∀ a l, a::l ∈ gs → (out (a::l)).getLast? = some (f a l)) :
  KeptValues gs (fun a l => (.num (f a l) : Cell κ))
    (runColumn calculateResult (gs.flatMap v) (gs.flatMap lastMark)) := by
  refine ⟨(gs.flatMap out).map .num, ?_, ?_, ?_⟩
  · rw [runColumn, execute_blocks hne hv hcalc]
    rfl
  · rw [length_map, length_flatMap_blocks hout,
      length_flatMap_blocks (fun g _ => length_lastMark g)]
  · rw [keepMarked_map, keepMarked_blocks hout, ← filterMap_eq_flatMap_toList, map_filterMap]
    refine filterMap_congr (fun g hg => ?_)
    cases g with
    | nil => exact absurd rfl (hne [] hg)
    | cons a l =>
      rw [hlast a l hg]
      rfl

variable {x y : κ}

lemma snoc_lt_snoc {a b : List κ} (hlen : a.length = b.length) : a ++ [x] < b ++ [y] ↔
    a < b ∨ a = b ∧ x < y := by
  induction a generalizing b with
  | nil =>
    obtain rfl := eq_nil_of_length_eq_zero hlen.symm
    simp [cons_lt_cons_iff]
  | cons c a ih =>
    cases b with
    | nil => simp at hlen
    | cons d b =>
      rw [cons_append, cons_append, cons_lt_cons_iff, cons_lt_cons_iff,
        ih (by simpa using hlen), cons.injEq]
      tauto

lemma Key.snoc_le_snoc {a b : Key κ nk} (h : Key.snoc a x ≤ Key.snoc b y) :
  a < b ∨ a = b ∧ x ≤ y := by
  have hlen : a.1.length = b.1.length := a.2.trans b.2.symm
  rcases lt_or_eq_of_le h with h | h
  · rcases (snoc_lt_snoc hlen).mp (Subtype.coe_lt_coe.mpr h) with h | ⟨h, hxy⟩
    · exact .inl h
    · exact .inr ⟨Subtype.ext h, hxy.le⟩
  · obtain ⟨h, hxy⟩ := append_inj (congrArg Subtype.val h) hlen
    exact .inr ⟨Subtype.ext h, (singleton_inj.mp hxy).le⟩

variable (sort : Sorting κ) {key : ρ → Key κ (nk+1)}

def distinctRows (key : ρ → Key κ (nk+1)) (rows : List ρ) (arg : ρ → κ) : List ρ :=
  sort.rows (fun r => Key.snoc (key r) (arg r)) rows

variable (arg : ρ → κ)

lemma distinctRows_perm : (distinctRows sort key rows arg).Perm rows :=
  sort.rows_perm _ _

lemma distinctRows_sorted :
  (distinctRows sort key rows arg).Pairwise
    (fun a b => key a < key b ∨ key a = key b ∧ arg a ≤ arg b) :=
  (sort.rows_sorted (fun r => Key.snoc (key r) (arg r)) rows).imp (fun h => Key.snoc_le_snoc h)

lemma distinctRows_sorted_keys :
  (distinctRows sort key rows arg).Pairwise (fun a b => key a ≤ key b) := by
  refine (distinctRows_sorted sort arg).imp (fun h => ?_)
  rcases h with h | ⟨h, -⟩
  · exact h.le
  · exact h.le

lemma distinctRows_group_sorted {arg : ρ → κ} :
  ∀ g ∈ groupsOf key (distinctRows sort key rows arg), (g.map arg).Pairwise (· ≤ ·) := by
  intro g hg
  obtain ⟨k, -, rfl⟩ := mem_map.mp hg
  refine pairwise_map.mpr (((distinctRows_sorted sort arg).filter _).imp_of_mem ?_)
  intro a b ha hb h
  have hab : key a = key b := (mem_withKey.mp ha).2.trans (mem_withKey.mp hb).2.symm
  rcases h with h | ⟨-, h⟩
  · exact absurd hab h.ne
  · exact h

variable {rows' : List ρ}

lemma groupsOf_perm (h : rows'.Perm rows) {f : List ρ → β}
  (hf : ∀ k ∈ sortedKeys key rows, f (withKey key rows' k) = f (withKey key rows k)) :
  (groupsOf key rows').map f = (groupsOf key rows).map f := by
  rw [groupsOf, groupsOf, sortedKeys_perm h, map_map, map_map]
  exact map_congr_left hf

lemma groupsOf_perm_lastMark (h : rows'.Perm rows) :
  (groupsOf key rows').flatMap lastMark = (groupsOf key rows).flatMap lastMark := by
  rw [flatMap_def, flatMap_def, groupsOf_perm h]
  exact fun k _ => lastMark_congr (h.filter _).length_eq

lemma groupsOf_perm_value (h : rows'.Perm rows) (agg : AggFunc κ ρ nk) :
  (groupsOf key rows').filterMap (onGroup (agg.value key))
    = (groupsOf key rows).filterMap (onGroup (agg.value key)) := by
  rw [filterMap_eq_flatMap_toList, filterMap_eq_flatMap_toList, flatMap_def,
    flatMap_def, groupsOf_perm h]
  intro k _
  have hgroup : (withKey key rows' k).Perm (withKey key rows k) := h.filter _
  rw [onGroup_value_perm agg hgroup (fun r hr => (mem_withKey.mp hr).2)]

lemma permute_distinctRows :
  permute (sort.order (rows.map (fun r => Key.snoc (key r) (arg r)))) (rows.map arg)
    = (groupsOf key (distinctRows sort key rows arg)).flatMap (fun g => g.map arg) := by
  rw [permute_map, flatMap_groupsOf (distinctRows_sorted_keys sort arg)]
  rfl

lemma countDistinct_kept (hrows : rows.length ≤ 2^30) :
  KeptValues (groupsOf key rows) ((AggFunc.countDistinct arg).value key)
    (obliviousColumn sort key rows ((groupsOf key rows).flatMap lastMark)
      (.countDistinct arg)) := by
  have hperm : (distinctRows sort key rows arg).Perm rows := distinctRows_perm sort arg
  have hgroup : ∀ g ∈ groupsOf key (distinctRows sort key rows arg),
      (g.map arg).Pairwise (· ≤ ·) :=
    distinctRows_group_sorted sort
  have hne : ∀ g ∈ groupsOf key (distinctRows sort key rows arg), g ≠ [] := groupsOf_ne_nil
  have hflat : (groupsOf key (distinctRows sort key rows arg)).flatten.length ≤ 2^30 := by
    rw [length_flatten_groupsOf (distinctRows_sorted_keys sort arg), hperm.length_eq]
    exact hrows
  rw [KeptValues, obliviousColumn, permute_distinctRows, obliviousGroupMark_singleton,
    ← groupsOf_perm_lastMark hperm, ← groupsOf_perm_value hperm]
  generalize groupsOf key (distinctRows sort key rows arg) = gs at hgroup hne hflat ⊢
  rw [zipWith_or_endMarks arg hne, map_flatMap]
  refine keptValues_runColumn hne (fun g _ => by simp)
    (obliviousGroupSum_blocks hflat (fun g _ => by simp)) (fun g _ => by simp) (fun a l hg => ?_)
  rw [getLast?_runOf_add, sum_endMarks (hgroup _ hg)]
  · rfl
  · exact ne_nil_of_length_pos (by simp)

lemma firstRow_kept (hsorted : rows.Pairwise (fun a b => key a ≤ key b)) (column : Fin (nk+1)) :
  KeptValues (groupsOf key rows) ((AggFunc.firstRow column).value key)
    (obliviousColumn sort key rows ((groupsOf key rows).flatMap lastMark)
      (.firstRow column)) := by
  refine ⟨_, rfl, ?_, ?_⟩
  · rw [← flatMap_groupsOf hsorted, length_flatMap_blocks (fun g _ => length_map _),
      length_flatMap_blocks (fun g _ => length_lastMark g)]
  rw [← flatMap_groupsOf hsorted, keepMarked_blocks (fun g _ => length_map _),
    filterMap_eq_flatMap_toList]
  refine flatMap_congr (fun g hg => ?_)
  -- every row of the group has the key of the first one
  obtain ⟨k, -, rfl⟩ := mem_map.mp hg
  have hkey : ∀ r ∈ withKey key rows k, key r = k := fun r hr => (mem_withKey.mp hr).2
  have hcell : (withKey key rows k).map (fun r => Cell.key ((key r).column column))
      = (withKey key rows k).map (fun _ => Cell.key (k.column column)) :=
    map_congr_left (fun r hr => by rw [hkey r hr])
  rw [hcell]
  cases hrows : withKey key rows k with
  | nil => rfl
  | cons a l =>
    have ha : key a = k := hkey a (by simp [hrows])
    rw [onGroup, AggFunc.value, ha, map_const', getLast?_replicate]
    rfl

lemma obliviousColumn_kept (hsorted : rows.Pairwise (fun a b => key a ≤ key b))
  (agg : AggFunc κ ρ nk) (hrows : agg.scanned → rows.length ≤ 2^30) :
  KeptValues (groupsOf key rows) (agg.value key)
    (obliviousColumn sort key rows ((groupsOf key rows).flatMap lastMark) agg) := by
  have hne : ∀ g ∈ groupsOf key rows, g ≠ [] := groupsOf_ne_nil
  have hflat : agg.scanned → (groupsOf key rows).flatten.length ≤ 2^30 := by
    rw [length_flatten_groupsOf hsorted]
    exact hrows
  have hlen : ∀ arg : ρ → ℚ, ∀ g ∈ groupsOf key rows, (g.map arg).length = g.length :=
    fun arg g _ => length_map arg
  cases agg with
  | firstRow column => exact firstRow_kept sort hsorted column
  | sum arg | countFinal arg =>
    rw [obliviousColumn, ← flatMap_groupsOf hsorted arg]
    exact keptValues_runColumn hne (hlen arg) (obliviousGroupSum_blocks (hflat rfl) (hlen arg))
      (fun g _ => by simp) (fun a l _ => getLast?_runOf_add (by simp))
  | max arg =>
    rw [obliviousColumn, ← flatMap_groupsOf hsorted arg]
    refine keptValues_runColumn hne (hlen arg) (obliviousGroupMax_blocks (hflat rfl) (hlen arg))
      (fun g _ => by simp) (fun a l _ => ?_)
    rw [map_cons, getLast?_runOf]
    simp only [groupMax, max_comm]
  | min arg =>
    rw [obliviousColumn, ← flatMap_groupsOf hsorted arg]
    refine keptValues_runColumn hne (hlen arg) (obliviousGroupMin_blocks (hflat rfl) (hlen arg))
      (fun g _ => by simp) (fun a l _ => ?_)
    rw [map_cons, getLast?_runOf]
    simp only [groupMin, min_comm]
  | avg arg =>
    rw [obliviousColumn, ← flatMap_groupsOf hsorted arg]
    refine keptValues_runColumn hne (hlen arg) (obliviousGroupAvg_blocks (hflat rfl) (hlen arg))
      (fun g _ => by simp) (fun a l _ => ?_)
    have hlast : (runOf (· + ·) ((a::l).map arg)).getLast? = some ((a::l).map arg).sum :=
      getLast?_runOf_add (by simp)
    refine (getLast?_zipWith _ (by simp) hlast (getLast?_count l.length)).trans ?_
    simp [groupAvg]
  | count =>
    rw [obliviousColumn, map_flatMap]
    refine keptValues_runColumn hne (fun g _ => by simp)
      (obliviousGroupCount_blocks (hflat rfl) (fun g _ => by simp)) (fun g _ => by simp)
      (fun a l _ => ?_)
    exact getLast?_count l.length
  | countDistinct arg => exact countDistinct_kept sort arg (hrows rfl)

variable {mark : List Bool}

omit [LinearOrder κ] in
lemma runColumn_eq_none {value : List ℚ} {calculateResult : List ℚ → List ℤ → Option (List ℚ)}
  (hundefined : ∀ group, calculateResult value group = none) (hlong : 2^30 < value.length) :
  (runColumn calculateResult value mark : Option (List (Cell κ))) = none := by
  rw [runColumn, execute, if_neg (by omega), hundefined]
  rfl

lemma obliviousColumn_eq_none (sort : Sorting κ) (hmark : mark.length = rows.length)
  (hlong : 2^30 < rows.length) {agg : AggFunc κ ρ nk} (hscan : agg.scanned) :
  obliviousColumn sort key rows mark agg = none := by
  have hcolumn : ∀ arg : ρ → ℚ, 2^30 < (rows.map arg).length := fun arg => by simpa using hlong
  cases agg with
  | firstRow column => simp [AggFunc.scanned] at hscan
  | sum arg | max arg | min arg | countFinal arg =>
    exact runColumn_eq_none (fun group => SecretJoin.scan_eq_none (hcolumn arg)) (hcolumn arg)
  | avg arg =>
    exact runColumn_eq_none (fun group => obliviousGroupAvg_eq_none (hcolumn arg)) (hcolumn arg)
  | count =>
    have hvalue : 2^30 < (mark.map numOf).length := by rwa [length_map, hmark]
    exact runColumn_eq_none (fun group => obliviousGroupCount_eq_none hvalue) hvalue
  | countDistinct arg =>
    have hperm : (permute (sort.order (rows.map (fun r => Key.snoc (key r) (arg r))))
        (rows.map arg)).Perm (rows.map arg) := by
      refine permute_perm ((sort.perm _).trans (Perm.of_eq ?_))
      rw [length_map, length_map]
    have hvalue : ∀ full : List Bool, full.length = rows.length →
        2^30 < (full.map numOf).length := by
      intro full hfull
      rwa [length_map, hfull]
    refine runColumn_eq_none (fun group => SecretJoin.scan_eq_none (hvalue _ ?_)) (hvalue _ ?_)
    all_goals
      rw [length_zipWith, hmark, obliviousGroupMark_singleton, length_endMarks,
        hperm.length_eq, length_map, Nat.min_self]

def groupRow (key : ρ → Key κ (nk+1)) (aggFuncs : List (AggFunc κ ρ nk)) :
    List ρ → Option (List (Cell κ)) :=
  onGroup (fun a l => aggFuncs.map (fun agg => agg.value key a l))

variable {aggFuncs : List (AggFunc κ ρ nk)}

lemma rowsOf_groups (key : ρ → Key κ (nk+1)) (hne : aggFuncs ≠ []) (gs : List (List ρ)) :
  rowsOf (aggFuncs.map (fun agg => gs.filterMap (onGroup (agg.value key))))
    = gs.filterMap (groupRow key aggFuncs) := by
  have hpairs : ∀ {β : Type} (f : ρ → List ρ → β),
      gs.filterMap (onGroup f) = (gs.filterMap (onGroup Prod.mk)).map (fun p => f p.1 p.2) := by
    intro β f
    rw [map_filterMap]
    exact filterMap_congr (fun g _ => (map_onGroup Prod.mk (fun p => f p.1 p.2) g).symm)
  have hrows := rowsOf_of_map (aggFuncs.map (fun agg (p : ρ × List ρ) => agg.value key p.1 p.2))
    (by simpa using hne) (gs.filterMap (onGroup Prod.mk))
  rw [groupRow, hpairs]
  refine Eq.trans (congrArg rowsOf (map_congr_left (fun agg _ => hpairs (agg.value key)))) ?_
  simpa [map_map, comp_def] using hrows

lemma groupRow_perm (h : g.Perm g')
  (hkey : ∀ r ∈ g, key r = k) : groupRow key aggFuncs g = groupRow key aggFuncs g' := by
  rcases g with - | ⟨a, l⟩
  · rw [h.nil_eq]
  · rcases g' with - | ⟨a', l'⟩
    · exact absurd h.length_eq (by simp)
    · refine congrArg some (map_congr_left (fun agg _ => ?_))
      exact Option.some.inj (onGroup_value_perm agg h hkey)

lemma buildPrivateGroupAggregation_eq (hne : aggFuncs ≠ []) :
  buildPrivateGroupAggregation key aggFuncs rows
    = (consume (rows.map key)).1.filterMap
      (fun k => groupRow key aggFuncs (withKey key rows k)) := by
  have hgroups := rowsOf_groups key hne ((consume (rows.map key)).1.map (withKey key rows))
  simp only [filterMap_map, comp_def] at hgroups
  rw [buildPrivateGroupAggregation, ← hgroups]
  exact congrArg rowsOf (map_congr_left (fun agg _ => privateColumn_eq key rows agg))

lemma filterMap_groupsOf {sorted : List ρ} (hperm : sorted.Perm rows) :
  ((groupsOf key sorted).filterMap (groupRow key aggFuncs)).Perm
    ((consume (rows.map key)).1.filterMap
      (fun k => groupRow key aggFuncs (withKey key rows k))) := by
  obtain ⟨hnodup, hmem, -⟩ := consume_spec (rows.map key)
  have hkeys : (sortedKeys key sorted).Perm (consume (rows.map key)).1 := by
    refine (perm_ext_iff_of_nodup ((sortedKeys_strict key sorted).imp (fun h => h.ne)) hnodup).mpr
      (fun k => ?_)
    rw [mem_sortedKeys, hmem, mem_map]
    exact exists_congr (fun r => and_congr_left' hperm.mem_iff)
  rw [groupsOf, filterMap_map]
  have hgroup : ∀ k, groupRow key aggFuncs (withKey key sorted k)
      = groupRow key aggFuncs (withKey key rows k) := by
    intro k
    exact groupRow_perm (hperm.filter _) (fun r hr => (mem_withKey.mp hr).2)
  refine Perm.trans (Perm.of_eq ?_) (hkeys.filterMap _)
  exact filterMap_congr (fun k _ => hgroup k)

lemma payload_perm (shuffle : Shuffling) (partyToReveal : Bool) (rows : List ρ) :
  (if partyToReveal then permute (shuffle.order rows.length) rows else rows).Perm rows := by
  split
  · exact permute_perm (shuffle.perm rows.length)
  · exact Perm.refl rows

section Oblivious

variable (sort : Sorting κ) (shuffle shuffle' : Shuffling) (partyToReveal revealGroupMark : Bool)

lemma buildObliviousGroupAggregation_perm (hne : aggFuncs ≠ [])
  (hrows : ∀ agg ∈ aggFuncs, agg.scanned → rows.length ≤ 2^30) :
  ∃ sorted : List ρ, ∃ out, sorted.Perm rows
    ∧ buildObliviousGroupAggregation sort shuffle shuffle' partyToReveal revealGroupMark key
      aggFuncs rows = some out
    ∧ out.Perm ((groupsOf key sorted).filterMap (groupRow key aggFuncs)) := by
  have hpayload := payload_perm shuffle partyToReveal rows
  rw [buildObliviousGroupAggregation]
  dsimp only
  generalize (if partyToReveal then permute (shuffle.order rows.length) rows else rows) = payload
    at hpayload ⊢
  have hperm := (sort.rows_perm key payload).trans hpayload
  have hsorted := sort.rows_sorted key payload
  generalize sort.rows key payload = sorted at hperm hsorted ⊢
  rw [obliviousGroupMark_columnsOf, endMarks_rows hsorted]
  have hmark : ((groupsOf key sorted).flatMap lastMark).length = sorted.length := by
    rw [← endMarks_rows hsorted, length_endMarks, length_map]
  have hkept := fun agg hagg => obliviousColumn_kept sort hsorted agg
    (fun hscan => hperm.length_eq.trans_le (hrows agg hagg hscan))
  choose! column hcolumn hlength hvalues using hkept
  have hgroups := rowsOf_groups key hne (groupsOf key sorted)
  rw [← map_congr_left hvalues] at hgroups
  rw [Fallible.mapM_eq_some hcolumn, Option.bind_eq_bind, Option.bind_some]
  refine ⟨sorted, ?_⟩
  rw [← hgroups]
  cases revealGroupMark
  · have horder : (shuffle'.order sorted.length).Perm
        (range ((groupsOf key sorted).flatMap lastMark).length) := by
      rw [hmark]
      exact shuffle'.perm sorted.length
    have hlen : ∀ c ∈ aggFuncs.map column,
        c.length = ((groupsOf key sorted).flatMap lastMark).length := by
      intro c hc
      obtain ⟨agg, hagg, rfl⟩ := mem_map.mp hc
      exact hlength agg hagg
    have hshuffled := rowsOf_keepMarked_permute (by simpa using hne) hlen horder
    refine ⟨_, hperm, rfl, hshuffled.trans (Perm.of_eq ?_)⟩
    rw [map_map]
    rfl
  · refine ⟨_, hperm, rfl, ?_⟩
    rw [map_map]
    exact Perm.refl _

lemma buildObliviousGroupAggregation_eq_none (hlong : 2^30 < rows.length)
  {agg : AggFunc κ ρ nk} (hagg : agg ∈ aggFuncs) (hscan : agg.scanned) :
  buildObliviousGroupAggregation sort shuffle shuffle' partyToReveal revealGroupMark key aggFuncs
    rows = none := by
  have hpayload := payload_perm shuffle partyToReveal rows
  rw [buildObliviousGroupAggregation]
  dsimp only
  generalize (if partyToReveal then permute (shuffle.order rows.length) rows else rows) = payload
    at hpayload ⊢
  have hperm := (sort.rows_perm key payload).trans hpayload
  have hmark : (obliviousGroupMark (columnsOf ((sort.rows key payload).map key))).length
      = (sort.rows key payload).length := by
    rw [obliviousGroupMark_columnsOf, length_endMarks, length_map]
  have hcolumn : obliviousColumn sort key (sort.rows key payload) _ agg = none :=
    obliviousColumn_eq_none sort hmark (hperm.length_eq.symm ▸ hlong) hscan
  rw [Fallible.mapM_eq_none hagg hcolumn]
  rfl

end Oblivious

def Shuffling.reversing : Shuffling where
  order n := (range n).reverse
  perm n := reverse_perm (range n)

def sales : List (ℕ × ℚ) := [(1, 5), (2, 7), (1, 3)]

def saleKey (sale : ℕ × ℚ) : Key ℕ (0+1) := ⟨[sale.1], rfl⟩

def oneKey (_ : Unit) : Key ℕ (0+1) := ⟨[0], rfl⟩

end Scql.GroupAggregation
