import Scql.EngineLoops
import Scql.GroupAggregation

/-! # Discrete percentiles

`PERCENTILE_DISC` takes the value at position `ceil(percent * n) - 1` of the ascending order of `n`
values. It is computed for the groups of a private table, for the groups of a secret table, and for
a whole column that is private or secret. Numbers are exact, apart from the conversions to fixed
widths that the operators make; a scan has no result for more than `2^30` rows. -/
namespace Scql.PercentileDisc

open ColumnRows EngineLoops GroupAggregation KeyGroups MarkedBlocks ObliviousGroups Fallible List

def target (percent : ℚ) (length : ℕ) : ℤ := ⌈percent*length⌉ - 1

def asInt (x : ℤ) : ℤ := x.bmod (2^32)

def asInt64 (x : ℤ) : ℤ := x.bmod (2^64)

/-- The position in the group of a private table and in a secret column. -/
def intPosition (percent : ℚ) (length : ℕ) : Except Failure ℤ := do
  ensure (target percent length < 2^31) .undefined
  return min (max (target percent length) 0) (asInt (length-1))

/-- The position in a private column. A number that is negative does not fit a `size_t`. -/
def getPointIndex (percent : ℚ) (length : ℕ) : Except Failure ℤ := do
  ensure (0 ≤ target percent length ∧ target percent length < 2^64) .undefined
  return min (max (asInt64 (target percent length)) 0) (asInt64 length - 1)

/-- The value that `partition_nth_indices` brings to a position. -/
def partitionNth (arr : List ℚ) (pos : ℤ) : Except Failure ℚ :=
  match if 0 ≤ pos then (arr.insertionSort (· ≤ ·))[pos.toNat]? else none with
  | some value => .ok value
  | none => .error (.refused "failed to call partition_nth_indices function")

/-- `GroupPercentileDisc::AggImpl` of a slice, given by its first value and the others. -/
def groupPercentileDisc (percent : ℚ) (a : ℚ) (l : List ℚ) : Except Failure ℚ := do
  ensure (0 ≤ percent ∧ percent ≤ 1) (.refused "percent should be in [0.0, 1.0]")
  let pos ← intPosition percent (a::l).length
  partitionNth (a::l) pos

variable {nk : ℕ}

/-- The keys of the groups of a private table with their percentiles. -/
def privateGroups (percent : ℚ) (rows : List (Key ℚ (nk+1) × ℚ)) :
    Except Failure (List (Key ℚ (nk+1) × ℚ)) := do
  let grouper := consume (rows.map (·.1))
  let keys := groupAgg groupFirstOf grouper.2 grouper.1.length (rows.map (·.1))
  let values ← (groupAgg (groupPercentileDisc percent) grouper.2 grouper.1.length
    (rows.map (·.2))).mapM id
  return keys.zip values

def executeInPlain (percent : ℚ) (tensor : List ℚ) : Except Failure (List ℚ) := do
  ensure (0 ≤ percent ∧ percent ≤ 1) (.refused "percent should be in [0, 1]")
  if tensor.length = 0 then return tensor
  else
    let pos ← getPointIndex percent tensor.length
    let value ← partitionNth tensor pos
    return [value]

def secretReduceImpl (percent : ℚ) (input : List ℚ) : Except Failure (List ℚ) := do
  ensure (0 ≤ percent ∧ percent ≤ 1) (.refused "percent should be in [0, 1]")
  if input.length = 0 then return input
  else
    let pos ← intPosition percent input.length
    ensure (0 ≤ pos ∧ 0 ≤ input.length-pos-1) (.refused "invalid shape")
    let sorted := input.insertionSort (· ≤ ·)
    let concat := replicate pos.toNat 0 ++ [(1 : ℚ)] ++ replicate (input.length-pos-1).toNat 0
    let gathered := zipWith (· * ·) sorted concat
    return [gathered.foldl (· + ·) 0]

/-- The keys of the groups of a secret table with their percentiles: the rows are sorted by the
keys, the values by the keys and the values, and the last row of every group is kept. -/
def obliviousGroups (sort : Sorting ℚ) (percent : ℚ) (rows : List (Key ℚ (nk+1) × ℚ)) :
    Option (List (Key ℚ (nk+1) × ℚ)) := do
  let sorted := sort.rows (·.1) rows
  let groupMark := obliviousGroupMark (columnsOf (sorted.map (·.1)))
  let keysForPercentileSort := sorted.map (fun r => Key.snoc r.1 r.2)
  let sortedCol := permute (sort.order keysForPercentileSort) (sorted.map (·.2))
  let output ← execute (obliviousPercentileDisc percent) sortedCol groupMark
  return (keepMarked (sorted.map (·.1)) groupMark).zip (keepMarked output groupMark)

/-- The value at position `max (ceil(percent * n) - 1) 0` of the ascending order. -/
def percentile (percent : ℚ) (values : List ℚ) : ℚ :=
  (values.insertionSort (· ≤ ·)).getD (max (target percent values.length) 0).toNat 0

abbrev Percent := {percent : ℚ // 0 ≤ percent ∧ percent ≤ 1}

def valuesOf (rows : List (Key ℚ (nk+1) × ℚ)) (k : Key ℚ (nk+1)) : List ℚ :=
  (withKey (·.1) rows k).map (·.2)

/-- Every key of the table with the percentile of its group. -/
def percentiles (percent : ℚ) (rows : List (Key ℚ (nk+1) × ℚ)) : List (Key ℚ (nk+1) × ℚ) :=
  (rows.map (·.1)).dedup.map (fun k => (k, percentile percent (valuesOf rows k)))

/-- All ways give the percentiles of all groups of a table. -/
structure Agree (sort : Sorting ℚ) (percent : ℚ) (rows : List (Key ℚ (nk+1) × ℚ)) : Prop where
  privateGroup : ∃ out, privateGroups percent rows = .ok out ∧ out.Perm (percentiles percent rows)
  obliviousGroup : ∃ out, obliviousGroups sort percent rows = some out
    ∧ out.Perm (percentiles percent rows)
  plainReduce : ∀ k ∈ rows.map (·.1),
    executeInPlain percent (valuesOf rows k) = .ok [percentile percent (valuesOf rows k)]
  secretReduce : ∀ k ∈ rows.map (·.1),
    secretReduceImpl percent (valuesOf rows k) = .ok [percentile percent (valuesOf rows k)]

/-- When the position of a percentile of `n` values is exact on all ways: it is the last or the
first one where a percent near one or zero is taken for one or zero, and it is not negative before
it is made so. -/
structure Exact (percent : ℚ) (n : ℕ) : Prop where
  nearOne : 1 - percent < epsilon → (1 - percent) * n < 1
  nearZero : percent < epsilon → percent * n ≤ 1
  positive : 0 < percent

variable {percent : Percent} {n : ℕ}

lemma target_lt (percent : Percent) (n : ℕ) : target percent n < n := by
  have hceil : ⌈(percent : ℚ)*n⌉ ≤ n := by
    refine Int.ceil_le.mpr ?_
    have hnonneg : (0 : ℚ) ≤ n := Nat.cast_nonneg n
    have hmul := mul_le_mul_of_nonneg_right percent.2.2 hnonneg
    simpa using hmul
  rw [target]
  omega

lemma position_lt (percent : Percent) (hn : 0 < n) : (max (target percent n) 0).toNat < n := by
  have hlt := target_lt percent n
  omega

/-- A size that an `int` holds. -/
lemma asInt_pred (hpos : 0 < n) (hle : n ≤ 2^30) : asInt (n - 1) = n - 1 := by
  refine Int.bmod_eq_of_le ?_ ?_
  · norm_num
    omega
  · norm_num
    omega

lemma intPosition_eq (hpos : 0 < n) (hle : n ≤ 2^30) :
  intPosition percent n = .ok (max (target percent n) 0) := by
  have hlt := target_lt percent n
  have hfits : target percent n < 2^31 := by omega
  rw [intPosition, (ensure_eq_ok (a := ())).mpr hfits, asInt_pred hpos hle,
    min_eq_left (by omega)]
  rfl

lemma getPointIndex_eq (hzero : 0 ≤ target percent n) (hle : n ≤ 2^30) :
  getPointIndex percent n = .ok (max (target percent n) 0) := by
  have hlt := target_lt percent n
  have hself : asInt64 (target percent n) = target percent n := by
    refine Int.bmod_eq_of_le ?_ ?_
    · norm_num
      omega
    · norm_num
      omega
  have hlength : asInt64 n = n := by
    refine Int.bmod_eq_of_le ?_ ?_
    · norm_num
    · norm_num
      omega
  rw [getPointIndex, (ensure_eq_ok (a := ())).mpr ⟨hzero, by omega⟩, hself, hlength,
    min_eq_left (by omega)]
  rfl

variable {values : List ℚ}

lemma partitionNth_eq {pos : ℤ} (hpos : 0 ≤ pos) (hlt : pos.toNat < values.length) :
  partitionNth values pos = .ok ((values.insertionSort (· ≤ ·)).getD pos.toNat 0) := by
  have hlen : pos.toNat < (values.insertionSort (· ≤ ·)).length := by
    rwa [length_insertionSort]
  rw [partitionNth, if_pos hpos, getElem?_eq_getElem hlen, getD_eq_getElem _ _ hlen]

variable {pos : ℕ}

lemma sum_zipWith_indicator (hpos : pos < values.length) : (zipWith (· * ·) values
    (replicate pos 0 ++ [(1 : ℚ)] ++ replicate (values.length-pos-1) 0)).sum =
      values.getD pos 0 := by
  induction values generalizing pos with
  | nil => simp at hpos
  | cons v values ih =>
    cases pos with
    | zero =>
      have hzeros : ∀ (l : List ℚ) (k : ℕ), (zipWith (· * ·) l (replicate k 0)).sum = 0 := by
        intro l
        induction l with
        | nil => simp
        | cons x l ihl =>
          intro k
          cases k with
          | zero => simp
          | succ k => simpa [replicate_succ] using ihl k
      simpa using hzeros values values.length
    | succ pos =>
      have hrest := ih (by simpa using hpos)
      simpa [replicate_succ, Nat.succ_sub_succ] using hrest

lemma groupPercentileDisc_eq {a : ℚ} {l : List ℚ}
  (hle : (a::l).length ≤ 2^30) :
  groupPercentileDisc percent a l = .ok (percentile percent (a::l)) := by
  rw [groupPercentileDisc, (ensure_eq_ok (a := ())).mpr percent.2, intPosition_eq (by simp) hle]
  exact partitionNth_eq (le_max_right _ _) (position_lt percent (by simp))

lemma target_nonneg (hpercent : 0 < (percent : ℚ)) (hn : 0 < n) : 0 ≤ target percent n := by
  have hpos : (0 : ℚ) < percent * n := mul_pos hpercent (by exact_mod_cast hn)
  have hceil : 0 < ⌈(percent : ℚ) * n⌉ := Int.ceil_pos.mpr hpos
  rw [target]
  omega

lemma executeInPlain_eq (hne : values ≠ []) (hpercent : 0 < (percent : ℚ))
  (hle : values.length ≤ 2^30) :
  executeInPlain percent values = .ok [percentile percent values] := by
  have hpos : 0 < values.length := length_pos_of_ne_nil hne
  have hnth := partitionNth_eq (le_max_right (target percent values.length) 0)
    (position_lt percent hpos)
  refine bind_eq_ok.mpr ⟨(), ensure_eq_ok.mpr percent.2, ?_⟩
  rw [if_neg (by omega)]
  refine bind_eq_ok.mpr ⟨_, getPointIndex_eq (target_nonneg hpercent hpos) hle, ?_⟩
  rw [hnth]
  rfl

lemma secretReduceImpl_eq (hne : values ≠ []) (hle : values.length ≤ 2^30) :
  secretReduceImpl percent values = .ok [percentile percent values] := by
  have hpos : 0 < values.length := length_pos_of_ne_nil hne
  have hlt := target_lt percent values.length
  have hsum : (zipWith (· * ·) (values.insertionSort (· ≤ ·))
      (replicate (max (target percent values.length) 0).toNat 0 ++ [(1 : ℚ)]
        ++ replicate (values.length-max (target percent values.length) 0-1).toNat 0)).foldl
        (· + ·) 0 = percentile percent values := by
    have hplace :
      (max (target percent values.length) 0).toNat < (values.insertionSort (· ≤ ·)).length := by
      rw [length_insertionSort]
      exact position_lt percent hpos
    have hind := sum_zipWith_indicator hplace
    rw [length_insertionSort] at hind
    have hrest : (values.length-max (target percent values.length) 0-1).toNat
        = values.length-(max (target percent values.length) 0).toNat-1 := by omega
    rw [← sum_eq_foldl, hrest, hind, percentile]
  have hshape : 0 ≤ max (target percent values.length) 0
      ∧ 0 ≤ (values.length : ℤ)-max (target percent values.length) 0-1 := by omega
  refine bind_eq_ok.mpr ⟨(), ensure_eq_ok.mpr percent.2, ?_⟩
  rw [if_neg (by omega)]
  refine bind_eq_ok.mpr ⟨_, intPosition_eq hpos hle, ?_⟩
  refine bind_eq_ok.mpr ⟨(), ensure_eq_ok.mpr hshape, ?_⟩
  exact congrArg (fun v => Except.ok [v]) hsum

variable {rows : List (Key ℚ (nk+1) × ℚ)}

lemma valuesOf_perm {rows' : List (Key ℚ (nk+1) × ℚ)} (h : rows'.Perm rows)
  (k : Key ℚ (nk+1)) : (valuesOf rows' k).Perm (valuesOf rows k) :=
  (h.filter _).map _

lemma valuesOf_ne_nil {k : Key ℚ (nk+1)} (hk : k ∈ rows.map (·.1)) : valuesOf rows k ≠ [] := by
  obtain ⟨r, hr, hrk⟩ := mem_map.mp hk
  exact ne_nil_of_mem (mem_map_of_mem (mem_withKey.mpr ⟨hr, hrk⟩))

lemma length_valuesOf_le (rows : List (Key ℚ (nk+1) × ℚ)) (k : Key ℚ (nk+1)) :
  (valuesOf rows k).length ≤ rows.length := by
  rw [valuesOf, length_map]
  exact length_filter_le _ _

lemma groupAgg_of_onGroup {α β : Type} {aggImpl : α → List α → β} {f : Key ℚ (nk+1) × ℚ → α}
    {g : Key ℚ (nk+1) → β}
  (h : ∀ k ∈ rows.map (·.1), ∀ a l, withKey (·.1) rows k = a::l → aggImpl (f a) (l.map f) = g k) :
  groupAgg aggImpl (consume (rows.map (·.1))).2 (consume (rows.map (·.1))).1.length (rows.map f)
    = (consume (rows.map (·.1))).1.map g := by
  obtain ⟨-, hmem, -⟩ := consume_spec (rows.map (·.1))
  rw [groupAgg_consume]
  refine Eq.trans (filterMap_congr (fun k hk => ?_)) (congrFun filterMap_eq_map _)
  have hk : k ∈ rows.map (·.1) := (hmem k).mp hk
  cases hgroup : withKey (·.1) rows k with
  | nil =>
    have hnil : valuesOf rows k = [] := by
      rw [valuesOf, hgroup]
      rfl
    exact absurd hnil (valuesOf_ne_nil hk)
  | cons a l => exact congrArg some (h k hk a l hgroup)

lemma privateGroups_eq (hle : rows.length ≤ 2^30) :
  privateGroups percent rows = .ok ((consume (rows.map (·.1))).1.map
    (fun k => (k, percentile percent (valuesOf rows k)))) := by
  have hkeys : groupAgg groupFirstOf (consume (rows.map (·.1))).2
      (consume (rows.map (·.1))).1.length (rows.map (·.1)) =
        (consume (rows.map (·.1))).1.map id := by
    refine groupAgg_of_onGroup (fun k _ a l hgroup => ?_)
    have ha : a ∈ withKey (·.1) rows k := by simp [hgroup]
    exact (mem_withKey.mp ha).2
  have hvalues : groupAgg (groupPercentileDisc percent) (consume (rows.map (·.1))).2
      (consume (rows.map (·.1))).1.length (rows.map (·.2))
      = (consume (rows.map (·.1))).1.map (fun k => .ok (percentile percent (valuesOf rows k))) := by
    refine groupAgg_of_onGroup (fun k hk a l hgroup => ?_)
    have hk := (length_valuesOf_le rows k).trans hle
    rw [valuesOf, hgroup] at hk ⊢
    exact groupPercentileDisc_eq (by simpa using hk)
  have hok : ((consume (rows.map (·.1))).1.map (fun k =>
      (.ok (percentile percent (valuesOf rows k)) : Except Failure ℚ))).mapM id
      = .ok ((consume (rows.map (·.1))).1.map (fun k => percentile percent (valuesOf rows k))) := by
    rw [mapM_map]
    exact mapM_eq_ok_map (fun k _ => rfl)
  rw [privateGroups, hkeys, hvalues, hok]
  refine congrArg Except.ok ?_
  rw [zip_map']
  rfl

lemma consume_perm_dedup (rows : List (Key ℚ (nk+1) × ℚ)) :
  (consume (rows.map (·.1))).1.Perm (rows.map (·.1)).dedup := by
  obtain ⟨hnodup, hmem, -⟩ := consume_spec (rows.map (·.1))
  refine (perm_ext_iff_of_nodup hnodup (nodup_dedup _)).mpr (fun k => ?_)
  rw [hmem, mem_dedup]

variable {α : Type} {gs : List (List α)} {c : List α → List ℚ} {percent : ℚ}

/-- The cells of a block that are kept: the one whose count is the target. -/
def chosen (percent : ℚ) (values : List ℚ) : List ℚ :=
  zipWith (· * ·) values ((range values.length).map (fun i : ℕ =>
    if (⌈(values.length : ℚ)*percent⌉ : ℚ) = (i : ℚ)+1 then (1 : ℚ) else 0))

/-- The targets of a block, kept at its last cell only. -/
def targets (percent : ℚ) (g : List α) : List ℚ :=
  zipWith (fun (pos : ℚ) (m : ℤ) => pos*m)
    (((range g.length).map (fun i : ℕ => (i : ℚ)+1)).map (fun c => (⌈c*percent⌉ : ℚ)))
    (maskOf (lastMark g))

lemma length_targets (g : List α) : (targets percent g).length = g.length := by
  simp [targets, length_maskOf]

lemma getLast?_targets {g : List α} (hg : g ≠ []) :
  (targets percent g).getLast? = some (⌈(g.length : ℚ)*percent⌉ : ℚ) := by
  obtain ⟨a, l, rfl⟩ := exists_cons_of_ne_nil hg
  have hcount : (((range (a::l).length).map (fun i : ℕ => (i : ℚ)+1)).map
      (fun c => (⌈c*percent⌉ : ℚ))).getLast? = some (⌈((a::l).length : ℚ)*percent⌉ : ℚ) := by
    rw [getLast?_map, length_cons, getLast?_count]
    rfl
  have hmark : (maskOf (lastMark (a::l))).getLast? = some 1 := by
    rw [maskOf_lastMark, getLast?_concat]
  rw [targets, getLast?_zipWith _ (by simp [length_maskOf]) hcount hmark]
  simp

lemma obliviousPercentileDisc_blocks (hone : ¬1-percent < epsilon) (hzero : ¬percent < epsilon)
  (hrows : gs.flatten.length ≤ 2^30) (hne : ∀ g ∈ gs, g ≠ []) (hgs : gs ≠ [])
  (hlen : ∀ g ∈ gs, (c g).length = g.length) :
  obliviousPercentileDisc percent (gs.flatMap c) (gs.flatMap startMask)
    = some (gs.flatMap (fun g => runOf (· + ·) (chosen percent (c g)))) := by
  have hindex : zipWith (fun (pos : ℚ) (m : ℤ) => pos*m)
      ((gs.flatMap (fun g => (range g.length).map (fun i : ℕ => (i : ℚ)+1))).map
        (fun c => (⌈c*percent⌉ : ℚ))) (maskOf (gs.flatMap lastMark))
      = gs.flatMap (targets percent) := by
    rw [map_flatMap, maskOf, map_flatMap, zipWith_blocks]
    · rfl
    · exact fun g _ => by simp
  have hexpand : gs.flatMap (fun g => replicate g.length ((targets percent g).getLast?.getD 0))
      = gs.flatMap (fun g => replicate g.length (⌈(g.length : ℚ)*percent⌉ : ℚ)) := by
    refine flatMap_congr (fun g hg => ?_)
    rw [getLast?_targets (hne g hg)]
    rfl
  rw [obliviousPercentileDisc, if_neg hone, if_neg hzero, obliviousGroupCount_blocks hrows hlen]
  dsimp only [Option.bind_eq_bind, Option.bind_some]
  rw [revertGroupMaskTransfer_blocks hne hgs, hindex,
    expandGroupValueReversely_blocks hrows (fun g _ => length_targets g) hne, hexpand]
  dsimp only [Option.bind_some]
  rw [zipWith_blocks _ (fun g _ => by simp), zipWith_blocks _ (fun g hg => by simp [hlen g hg])]
  have hchosen :
    gs.flatMap (fun g => zipWith (· * ·) (c g) (zipWith (fun i c => if i = c then (1 : ℚ) else 0)
      (replicate g.length (⌈(g.length : ℚ)*percent⌉ : ℚ))
      ((range g.length).map (fun i : ℕ => (i : ℚ)+1))))
      = gs.flatMap (fun g => chosen percent (c g)) := by
    refine flatMap_congr (fun g hg => ?_)
    have hconst : replicate g.length (⌈(g.length : ℚ)*percent⌉ : ℚ)
        = (range g.length).map (fun _ => (⌈(g.length : ℚ)*percent⌉ : ℚ)) := by
      rw [map_const', length_range]
    rw [hconst, zipWith_map, zipWith_self, chosen, hlen g hg]
  rw [hchosen]
  exact obliviousGroupSum_blocks hrows (fun g hg => by simp [chosen, hlen g hg])

variable {n : ℕ}

lemma range_indicator (hpos : pos < n) : (range n).map (fun i => if pos = i then (1 : ℚ) else 0)
    = replicate pos 0 ++ [1] ++ replicate (n-pos-1) 0 := by
  obtain ⟨m, rfl⟩ : ∃ m, n = pos+1+m := ⟨n-pos-1, by omega⟩
  have hbefore : (range pos).map (fun i => if pos = i then (1 : ℚ) else 0) = replicate pos 0 := by
    refine eq_replicate_iff.mpr ⟨by simp, fun x hx => ?_⟩
    obtain ⟨i, hi, rfl⟩ := mem_map.mp hx
    rw [if_neg (mem_range.mp hi).ne']
  have hafter : ((range m).map (fun i => pos+1+i)).map
      (fun i => if pos = i then (1 : ℚ) else 0) = replicate m 0 := by
    refine eq_replicate_iff.mpr ⟨by simp, fun x hx => ?_⟩
    obtain ⟨j, hj, rfl⟩ := mem_map.mp hx
    obtain ⟨i, -, rfl⟩ := mem_map.mp hj
    rw [if_neg (by omega)]
  have hrest : pos+1+m-pos-1 = m := by omega
  rw [range_add, range_succ, map_append, map_append, hbefore, hafter, hrest]
  simp

lemma sum_chosen {values : List ℚ} (hpos : pos < values.length)
  (htarget : ⌈(values.length : ℚ)*percent⌉ = pos+1) :
    (chosen percent values).sum = values.getD pos 0 := by
  have hcast : ∀ i : ℕ, (((pos+1 : ℤ) : ℚ) = (i : ℚ)+1) ↔ pos = i := by
    intro i
    push_cast
    rw [add_left_inj, Nat.cast_inj]
  rw [← sum_zipWith_indicator hpos, chosen, htarget, ← range_indicator hpos]
  simp only [hcast]

/-- The position the oblivious operator picks among `n` sorted values. -/
def obliviousPosition (percent : ℚ) (n : ℕ) : ℕ :=
  if 1-percent < epsilon then n-1
  else if percent < epsilon then 0 else (target percent n).toNat

variable {v : ℚ} {vs : List ℚ}

lemma foldl_max_sorted (hsorted : (v::vs).Pairwise (· ≤ ·)) :
  vs.foldl (fun acc x => max x acc) v = (v::vs).getD vs.length 0 := by
  induction vs generalizing v with
  | nil => rfl
  | cons x vs ih =>
    obtain ⟨hv, hrest⟩ := pairwise_cons.mp hsorted
    rw [foldl_cons, max_eq_left (hv x mem_cons_self), ih hrest]
    rfl

lemma foldl_min_sorted (hv : ∀ x ∈ vs, v ≤ x) : vs.foldl (fun acc x => min x acc) v = v := by
  induction vs with
  | nil => rfl
  | cons x vs ih =>
    rw [foldl_cons, min_eq_right (hv x mem_cons_self)]
    exact ih (fun y hy => hv y (mem_cons_of_mem _ hy))

lemma target_pos {percent : Percent} (hzero : ¬(percent : ℚ) < epsilon) (hn : 0 < n) :
  ⌈(n : ℚ)*percent⌉ = (target percent n).toNat+1 ∧ 0 ≤ target percent n := by
  have heps : (0 : ℚ) < epsilon := by norm_num [epsilon]
  have hnonneg := target_nonneg (heps.trans_le (not_lt.mp hzero)) hn
  refine ⟨?_, hnonneg⟩
  rw [Int.toNat_of_nonneg hnonneg, target, mul_comm (n : ℚ), sub_add_cancel]

lemma obliviousPercentileDisc_kept (percent : Percent) (hrows : gs.flatten.length ≤ 2^30)
  (hne : ∀ g ∈ gs, g ≠ []) (hlen : ∀ g ∈ gs, (c g).length = g.length)
  (hsorted : ∀ g ∈ gs, (c g).Pairwise (· ≤ ·)) :
  (execute (obliviousPercentileDisc percent) (gs.flatMap c) (gs.flatMap lastMark)).map
      (fun column => keepMarked column (gs.flatMap lastMark))
    = some (gs.map (fun g => (c g).getD (obliviousPosition percent g.length) 0)) := by
  -- every block has a first value
  have hcons : ∀ g ∈ gs, ∃ v vs, c g = v::vs ∧ vs.length+1 = g.length := by
    intro g hg
    have hpos := length_pos_of_ne_nil (hne g hg)
    obtain ⟨v, vs, hvs⟩ := exists_cons_of_length_pos (by rw [hlen g hg]; exact hpos)
    exact ⟨v, vs, hvs, by rw [← hlen g hg, hvs, length_cons]⟩
  by_cases hgs : gs = []
  · subst hgs
    rfl
  · by_cases hone : 1-(percent : ℚ) < epsilon
    · have hcalc : obliviousPercentileDisc percent (gs.flatMap c) (gs.flatMap startMask)
          = some (gs.flatMap (fun g => runOf max (c g))) := by
        rw [obliviousPercentileDisc, if_pos hone, obliviousGroupMax_blocks hrows hlen]
      rw [keepMarked_execute hne hlen hcalc (fun g hg => by simp [hlen g hg])]
      refine congrArg some
        (Eq.trans (filterMap_congr (fun g hg => ?_)) (congrFun filterMap_eq_map _))
      change _ = some ((c g).getD (obliviousPosition percent g.length) 0)
      obtain ⟨v, vs, hvs, hcount⟩ := hcons g hg
      have hsort := hsorted g hg
      rw [hvs] at hsort ⊢
      rw [getLast?_runOf, foldl_max_sorted hsort, obliviousPosition, if_pos hone, ← hcount]
      rfl
    · by_cases hzero : (percent : ℚ) < ObliviousGroups.epsilon
      · have hcalc : obliviousPercentileDisc percent (gs.flatMap c) (gs.flatMap startMask)
            = some (gs.flatMap (fun g => runOf min (c g))) := by
          rw [obliviousPercentileDisc, if_neg hone, if_pos hzero,
            obliviousGroupMin_blocks hrows hlen]
        rw [keepMarked_execute hne hlen hcalc (fun g hg => by simp [hlen g hg])]
        refine congrArg some
          (Eq.trans (filterMap_congr (fun g hg => ?_)) (congrFun filterMap_eq_map _))
        change _ = some ((c g).getD (obliviousPosition percent g.length) 0)
        obtain ⟨v, vs, hvs, -⟩ := hcons g hg
        have hsort := hsorted g hg
        rw [hvs] at hsort ⊢
        rw [getLast?_runOf, foldl_min_sorted (pairwise_cons.mp hsort).1, obliviousPosition,
          if_neg hone, if_pos hzero]
        rfl
      · have hcalc := obliviousPercentileDisc_blocks hone hzero hrows hne hgs hlen
        rw [keepMarked_execute hne hlen hcalc (fun g hg => by simp [chosen, hlen g hg])]
        refine congrArg some
          (Eq.trans (filterMap_congr (fun g hg => ?_)) (congrFun filterMap_eq_map _))
        change _ = some ((c g).getD (obliviousPosition percent g.length) 0)
        obtain ⟨htarget, hpos⟩ := target_pos hzero (length_pos_of_ne_nil (hne g hg))
        have hlt := target_lt percent g.length
        have hchosen : chosen percent (c g) ≠ [] := by
          refine ne_nil_of_length_pos ?_
          simp [chosen, hlen g hg, length_pos_of_ne_nil (hne g hg)]
        have hsum : (chosen percent (c g)).sum = (c g).getD (target percent g.length).toNat 0 :=
          sum_chosen (by rw [hlen g hg]; omega) (by rw [hlen g hg]; exact htarget)
        rw [getLast?_runOf_add hchosen, hsum, obliviousPosition, if_neg hone, if_neg hzero]

/-- Every key of the table with the value at a position that depends on the size of its group. -/
def valuesAt (position : ℕ → ℕ) (rows : List (Key ℚ (nk+1) × ℚ)) : List (Key ℚ (nk+1) × ℚ) :=
  (rows.map (·.1)).dedup.map (fun k =>
    (k, ((valuesOf rows k).insertionSort (· ≤ ·)).getD (position (valuesOf rows k).length) 0))

lemma keepMarked_keys (hsorted : rows.Pairwise (fun a b => a.1 ≤ b.1)) :
  keepMarked (rows.map (·.1)) ((groupsOf (·.1) rows).flatMap lastMark) = sortedKeys (·.1) rows := by
  rw [← flatMap_groupsOf hsorted (·.1), keepMarked_blocks (fun g _ => by simp), groupsOf,
    flatMap_map]
  refine Eq.trans (flatMap_congr (fun k hk => ?_)) (flatMap_singleton' _)
  have hkey : (withKey (·.1) rows k).map (·.1) = (withKey (·.1) rows k).map (fun _ => k) :=
    map_congr_left (fun r hr => (mem_withKey.mp hr).2)
  have hne : withKey (·.1) rows k ≠ [] := groupsOf_ne_nil _ (mem_map_of_mem hk)
  rw [hkey, map_const', getLast?_replicate, if_neg (Nat.ne_of_gt (length_pos_of_ne_nil hne))]
  rfl

variable (sort : Sorting ℚ)

lemma obliviousGroups_perm (percent : Percent) {rows : List (Key ℚ (nk+1) × ℚ)}
  (hle : rows.length ≤ 2^30) : ∃ out, obliviousGroups sort percent rows = some out
    ∧ out.Perm (valuesAt (obliviousPosition percent) rows) := by
  have hperm : (sort.rows (·.1) rows).Perm rows := sort.rows_perm _ rows
  have hsorted := sort.rows_sorted (fun r : Key ℚ (nk+1) × ℚ => r.1) rows
  rw [obliviousGroups]
  rw [obliviousGroupMark_columnsOf, endMarks_rows hsorted, keepMarked_keys hsorted]
  generalize sort.rows (fun r : Key ℚ (nk+1) × ℚ => r.1) rows = sorted at hperm hsorted ⊢
  -- the values within the groups of the second sort
  have hdistinct : (distinctRows sort (·.1) sorted (·.2)).Perm sorted :=
    distinctRows_perm sort _
  have hgroup : ∀ g ∈ groupsOf (·.1) (distinctRows sort (·.1) sorted (·.2)),
      (g.map (·.2)).Pairwise (· ≤ ·) := distinctRows_group_sorted sort
  have hrows : (distinctRows sort (·.1) sorted (·.2)).Perm rows := hdistinct.trans hperm
  have hflat : (groupsOf (·.1) (distinctRows sort (·.1) sorted (·.2))).flatten.length ≤ 2^30 := by
    rwa [length_flatten_groupsOf (distinctRows_sorted_keys sort _), hrows.length_eq]
  obtain ⟨output, houtput, hvaluesOf⟩ := Option.map_eq_some_iff.mp
    (obliviousPercentileDisc_kept percent hflat groupsOf_ne_nil (fun g _ => by simp) hgroup)
  rw [permute_distinctRows, ← groupsOf_perm_lastMark hdistinct, houtput]
  refine ⟨(sortedKeys (·.1) sorted).zip _, rfl, ?_⟩
  rw [hvaluesOf]
  have hvalues : ∀ k ∈ sortedKeys (·.1) rows,
      (withKey (·.1) (distinctRows sort (·.1) sorted (·.2)) k).map (·.2)
        = (valuesOf rows k).insertionSort (· ≤ ·) := by
    intro k hk
    rw [← sortedKeys_perm hrows] at hk
    exact Perm.eq_of_pairwise (fun a b _ _ => le_antisymm) (hgroup _ (mem_map_of_mem hk))
      (pairwise_insertionSort _ _)
      ((valuesOf_perm hrows k).trans (perm_insertionSort _ _).symm)
  have hkept : (groupsOf (·.1) (distinctRows sort (·.1) sorted (·.2))).map
      (fun g => (g.map (·.2)).getD (obliviousPosition percent g.length) 0)
      = (sortedKeys (·.1) rows).map (fun k => ((valuesOf rows k).insertionSort (· ≤ ·)).getD
          (obliviousPosition percent (valuesOf rows k).length) 0) := by
    rw [groupsOf, sortedKeys_perm hrows, map_map]
    refine map_congr_left (fun k hk => ?_)
    have hlen := (valuesOf_perm hrows k).length_eq
    rw [valuesOf, length_map] at hlen
    rw [Function.comp_apply, hvalues k hk, hlen]
  rw [hkept, sortedKeys_perm hperm, ← map_id (sortedKeys (·.1) rows), map_map,
    zip_map', Function.comp_id]
  exact (perm_insertionSort _ _).map _

variable {percent : Percent}

/-- The oblivious operator picks the position of the percentile where a percent near one or zero
does not matter. -/
lemma obliviousPosition_eq_iff (hn : 0 < n) :
  obliviousPosition percent n = (max (target percent n) 0).toNat
    ↔ (1-(percent : ℚ) < epsilon → (1-(percent : ℚ))*n < 1) ∧
      ((percent : ℚ) < epsilon → (percent : ℚ)*n ≤ 1) := by
  have heps : epsilon < 1/2 := by norm_num [epsilon]
  have hlt := target_lt percent n
  have hpos : (0 : ℚ) < n := by exact_mod_cast hn
  by_cases hone : 1-(percent : ℚ) < epsilon
  · have hzero : ¬(percent : ℚ) < epsilon := by linarith
    obtain ⟨-, htarget⟩ := target_pos hzero hn
    have hceil : (1-(percent : ℚ))*n < 1 ↔ n ≤ ⌈(percent : ℚ)*n⌉ := by
      have hsub : (((n-1 : ℤ)) : ℚ) = (n : ℚ)-1 := by push_cast; ring
      have hlast : (n : ℤ) ≤ ⌈(percent : ℚ)*n⌉ ↔ (n : ℤ)-1 < ⌈(percent : ℚ)*n⌉ := by omega
      rw [hlast, Int.lt_ceil, hsub]
      constructor <;> intro h <;> linarith
    rw [obliviousPosition, if_pos hone]
    simp only [hone, hzero, hceil, true_imp_iff, false_imp_iff, and_true]
    rw [target] at hlt htarget ⊢
    omega
  · by_cases hzero : (percent : ℚ) < ObliviousGroups.epsilon
    · have hceil : (percent : ℚ)*n ≤ 1 ↔ ⌈(percent : ℚ)*n⌉ ≤ 1 := by
        rw [Int.ceil_le]
        norm_num
      rw [obliviousPosition, if_neg hone, if_pos hzero]
      simp only [hone, hzero, hceil, true_imp_iff, false_imp_iff, true_and]
      rw [target]
      omega
    · obtain ⟨-, htarget⟩ := target_pos hzero hn
      rw [obliviousPosition, if_neg hone, if_neg hzero, max_eq_left htarget]
      simp [hone, hzero]

variable {position : ℕ → ℕ}

lemma valuesAt_congr {position' : ℕ → ℕ}
  (h : ∀ k ∈ rows.map (·.1), position (valuesOf rows k).length =
    position' (valuesOf rows k).length) :
  valuesAt position rows = valuesAt position' rows := by
  refine map_congr_left (fun k hk => ?_)
  rw [h k (mem_dedup.mp hk)]

lemma agree_of_exact (hle : rows.length ≤ 2^30)
  (h : ∀ k ∈ rows.map (·.1), Exact percent (valuesOf rows k).length) :
  Agree sort percent rows where
  privateGroup := ⟨_, privateGroups_eq hle, (consume_perm_dedup rows).map _⟩
  obliviousGroup := by
    have hcongr : valuesAt (obliviousPosition percent) rows
        = valuesAt (fun n => (max (target percent n) 0).toNat) rows := by
      refine valuesAt_congr (fun k hk => ?_)
      have hpos := length_pos_of_ne_nil (valuesOf_ne_nil hk)
      exact (obliviousPosition_eq_iff hpos).mpr ⟨(h k hk).nearOne, (h k hk).nearZero⟩
    obtain ⟨out, hout, hperm⟩ := obliviousGroups_perm sort percent hle
    exact ⟨out, hout, hperm.trans (Perm.of_eq hcongr)⟩
  plainReduce k hk := executeInPlain_eq (valuesOf_ne_nil hk) (h k hk).positive
    ((length_valuesOf_le rows k).trans hle)
  secretReduce k hk := secretReduceImpl_eq (valuesOf_ne_nil hk)
    ((length_valuesOf_le rows k).trans hle)

lemma obliviousGroups_eq_none (hlong : 2^30 < rows.length) :
  obliviousGroups sort percent rows = none := by
  have hcolumn : 2^30 < (permute (sort.order ((sort.rows (·.1) rows).map
      (fun r => Key.snoc r.1 r.2))) ((sort.rows (·.1) rows).map (·.2))).length := by
    rw [permute_distinctRows, flatMap_groupsOf (distinctRows_sorted_keys sort _), length_map,
      (distinctRows_perm sort _).length_eq, (sort.rows_perm _ rows).length_eq]
    exact hlong
  rw [obliviousGroups]
  rw [execute, if_neg (by omega), obliviousPercentileDisc_eq_none hcolumn]
  rfl

def rampKey : Key ℚ 1 := ⟨[0], rfl⟩

def ramp (n : ℕ) : List (Key ℚ 1 × ℚ) := (range n).map (fun i : ℕ => (rampKey, (i : ℚ)))

lemma valuesOf_ramp (n : ℕ) : valuesOf (ramp n) rampKey = (range n).map (fun i : ℕ => (i : ℚ)) := by
  have hall : withKey (·.1) (ramp n) rampKey = ramp n := by
    refine filter_eq_self.mpr (fun r hr => ?_)
    obtain ⟨i, -, rfl⟩ := mem_map.mp hr
    exact decide_eq_true rfl
  rw [valuesOf, hall, ramp, map_map]
  rfl

lemma length_valuesOf_ramp (n : ℕ) : (valuesOf (ramp n) rampKey).length = n := by
  rw [valuesOf_ramp, length_map, length_range]

lemma length_ramp (n : ℕ) : (ramp n).length = n := by
  rw [ramp, length_map, length_range]

lemma ramp_sorted (n : ℕ) :
  (valuesOf (ramp n) rampKey).insertionSort (· ≤ ·) = (range n).map (fun i : ℕ => (i : ℚ)) := by
  have hsorted : ((range n).map (fun i : ℕ => (i : ℚ))).Pairwise (· ≤ ·) := by
    refine pairwise_map.mpr (pairwise_lt_range.imp (fun h => ?_))
    exact_mod_cast h.le
  rw [valuesOf_ramp, hsorted.insertionSort_eq]

lemma ramp_getD (hpos : pos < n) :
  ((valuesOf (ramp n) rampKey).insertionSort (· ≤ ·)).getD pos 0 = pos := by
  rw [ramp_sorted, getD_eq_getElem _ _ (by simpa using hpos), getElem_map, getElem_range]

lemma ramp_keys (hn : 0 < n) : ((ramp n).map (·.1)).dedup = [rampKey] := by
  obtain ⟨m, rfl⟩ : ∃ m, n = m+1 := ⟨n-1, by omega⟩
  have hkeys : (ramp (m+1)).map (·.1) = replicate (m+1) rampKey := by
    rw [ramp, map_map]
    refine map_const'.trans ?_
    rw [length_range]
    rfl
  rw [hkeys, replicate_dedup (by omega)]

lemma valuesAt_ramp (hn : 0 < n) (hpos : position n < n) :
  valuesAt position (ramp n) = [(rampKey, (position n : ℚ))] := by
  rw [valuesAt, ramp_keys hn, map_singleton, length_valuesOf_ramp, ramp_getD hpos]

lemma obliviousPosition_lt (percent : Percent) (hn : 0 < n) : obliviousPosition percent n < n := by
  have hlt := target_lt percent n
  rw [obliviousPosition]
  split
  · omega
  · split
    · exact hn
    · omega

lemma percentile_ramp (percent : Percent) (hn : 0 < n) :
  percentile percent (valuesOf (ramp n) rampKey) = ((max (target percent n) 0).toNat : ℚ) := by
  rw [percentile, length_valuesOf_ramp, ramp_getD (position_lt percent hn)]

lemma rampKey_mem (hn : 0 < n) : rampKey ∈ (ramp n).map (·.1) := by
  rw [← mem_dedup, ramp_keys hn]
  exact mem_singleton_self rampKey

lemma positive_of_executeInPlain {values : List ℚ} (hne : values ≠ []) {out : List ℚ}
  (h : executeInPlain percent values = .ok out) : 0 < (percent : ℚ) := by
  have hpos := length_pos_of_ne_nil hne
  rw [executeInPlain, bind_eq_ok] at h
  obtain ⟨-, -, h⟩ := h
  rw [if_neg (by omega), bind_eq_ok] at h
  obtain ⟨pos, hindex, -⟩ := h
  rw [getPointIndex, bind_eq_ok] at hindex
  obtain ⟨u, hfits, -⟩ := hindex
  have htarget := (ensure_eq_ok.mp hfits).1
  refine lt_of_le_of_ne percent.2.1 (fun hzero => ?_)
  rw [target, ← hzero, zero_mul, Int.ceil_zero] at htarget
  omega

lemma exact_of_agree {sort : Sorting ℚ} (hn : 0 < n) (hle : n ≤ 2^30)
  (h : Agree sort percent (ramp n)) : Exact percent n := by
  have hposition : obliviousPosition percent n = (max (target percent n) 0).toNat := by
    obtain ⟨out, hout, hperm⟩ := h.obliviousGroup
    obtain ⟨out', hout', hperm'⟩ := obliviousGroups_perm sort percent ((length_ramp n).trans_le hle)
    have hsame : out' = out := Option.some.inj (hout'.symm.trans hout)
    have hvalues : percentiles percent (ramp n)
        = valuesAt (fun n => (max (target percent n) 0).toNat) (ramp n) := rfl
    rw [hsame] at hperm'
    have hboth := hperm'.symm.trans hperm
    rw [hvalues, valuesAt_ramp hn (obliviousPosition_lt percent hn),
      valuesAt_ramp hn (position_lt percent hn)] at hboth
    have heq := perm_singleton.mp hboth
    simpa using heq
  obtain ⟨hone, hzero⟩ := (obliviousPosition_eq_iff hn).mp hposition
  exact ⟨hone, hzero, positive_of_executeInPlain (valuesOf_ne_nil (rampKey_mem hn))
    (h.plainReduce rampKey (rampKey_mem hn))⟩

/-- All ways agree on all tables of at most `2^30` rows with groups of some sizes exactly if the
positions are exact for these sizes; on a larger table the oblivious way has no result. -/
theorem percentileDisc_agree_iff (sort : Sorting ℚ) (percent : Percent) (sizes : Set ℕ) :
  ((∀ (nk : ℕ) (rows : List (Key ℚ (nk+1) × ℚ)), rows.length ≤ 2^30 →
      (∀ k ∈ rows.map (·.1), (valuesOf rows k).length ∈ sizes) → Agree sort percent rows)
    ↔ ∀ n ∈ sizes, 0 < n → n ≤ 2^30 → Exact percent n)
  ∧ ∀ (nk : ℕ) (rows : List (Key ℚ (nk+1) × ℚ)), 2^30 < rows.length →
    obliviousGroups sort percent rows = none := by
  refine ⟨⟨?_, ?_⟩, fun nk rows hlong => obliviousGroups_eq_none sort hlong⟩
  · intro h n hn hpos hle
    refine exact_of_agree hpos hle (h 0 (ramp n) ((length_ramp n).trans_le hle) (fun k hk => ?_))
    rw [← mem_dedup, ramp_keys hpos] at hk
    rwa [mem_singleton.mp hk, length_valuesOf_ramp]
  · intro h nk rows hle hrows
    refine agree_of_exact sort hle (fun k hk => h _ (hrows k hk) ?_ ?_)
    · exact length_pos_of_ne_nil (valuesOf_ne_nil hk)
    · exact (length_valuesOf_le rows k).trans hle

lemma obliviousGroups_ramp (percent : Percent) (hn : 0 < n) (hle : n ≤ 2^30) :
  obliviousGroups sort percent (ramp n) = some [(rampKey, (obliviousPosition percent n : ℚ))] := by
  obtain ⟨out, hout, hperm⟩ := obliviousGroups_perm sort percent ((length_ramp n).trans_le hle)
  rw [valuesAt_ramp hn (obliviousPosition_lt percent hn)] at hperm
  rw [hout, perm_singleton.mp hperm]

lemma privateGroups_ramp (hn : 0 < n) (hle : n ≤ 2^30) :
  privateGroups percent (ramp n) = .ok [(rampKey, ((max (target percent n) 0).toNat : ℚ))] := by
  have hkeys : (consume ((ramp n).map (·.1))).1 = [rampKey] := by
    have hperm := consume_perm_dedup (ramp n)
    rw [ramp_keys hn] at hperm
    exact perm_singleton.mp hperm
  rw [privateGroups_eq ((length_ramp n).trans_le hle), hkeys, map_singleton,
    percentile_ramp percent hn]

/-- A percent below the tolerance, of which a thousand and fifty million rows are more than one. -/
def smallPercent : Percent := ⟨99 / 10^11, by norm_num⟩

theorem ramp_smallPercent_differs :
  obliviousGroups (Sorting.insertion ℚ) smallPercent (ramp (105 * 10^7)) = some [(rampKey, 0)]
    ∧ privateGroups smallPercent (ramp (105 * 10^7)) = .ok [(rampKey, 1)] := by
  have htarget : target smallPercent (105 * 10^7) = 1 := by
    have hceil : ⌈(99 / 10^11 * ((105 * 10^7 : ℕ) : ℚ) : ℚ)⌉ = 2 := by
      rw [Int.ceil_eq_iff]
      norm_num
    rw [target, smallPercent, hceil]
    norm_num
  have hposition : obliviousPosition smallPercent (105 * 10^7) = 0 := by
    rw [obliviousPosition, if_neg (by norm_num [smallPercent, epsilon]),
      if_pos (by norm_num [smallPercent, epsilon])]
  constructor
  · rw [obliviousGroups_ramp _ _ (by norm_num) (by norm_num), hposition, Nat.cast_zero]
  · rw [privateGroups_ramp (by norm_num) (by norm_num), htarget]
    norm_num

end Scql.PercentileDisc
