import Mathlib.Data.Rat.Floor
import Scql.MarkedBlocks
import Scql.SecretJoinGroups

/-! # Oblivious group operators

Aggregates of secret columns whose rows are sorted by the group keys. A group mark is true in the
last row of every group; the operators turn it into a mask that is zero in the first row of every
group and compute running values within the groups, so that the marked row of a group has the
value of the whole group. Secret numbers are exact; a scan has no result for more than `2^30`
rows. -/
namespace Scql.ObliviousGroups

open SecretJoin MarkedBlocks List Function

variable {κ : Type} [DecidableEq κ]

def notEqualNext (column : List κ) : List Bool :=
  zipWith (fun top bottom => decide (top ≠ bottom)) column.dropLast column.tail

/-- `GetFullGroupMark`, for at least two rows. -/
def getFullGroupMark : List (List κ) → List Bool
  | [] => []
  | first::columns =>
    columns.foldl (fun result column => zipWith or result (notEqualNext column))
      (notEqualNext first) ++ [true]

def obliviousGroupMark (columns : List (List κ)) : List Bool :=
  let rowCount := (columns.headD []).length
  if rowCount ≤ 1 then replicate rowCount true else getFullGroupMark columns

abbrev Key (κ : Type) (nk : ℕ) := {columns : List κ // columns.length = nk}

def Key.column {nk : ℕ} (k : Key κ nk) (c : Fin nk) : κ := k.1.get (c.cast k.2.symm)

def columnsOf {nk : ℕ} (keys : List (Key κ nk)) : List (List κ) :=
  (finRange nk).map (fun c => keys.map (fun k => k.column c))

def maskOf (mark : List Bool) : List ℤ := mark.map (fun m => if m then 1 else 0)

/-- From the mark of the last rows to the mask of the rows that continue a group. -/
def transferGroupMask (mark : List ℤ) : List ℤ := 0::(mark.map (fun m => 1-m)).dropLast

def revertGroupMaskTransfer (mask : List ℤ) : List ℤ := (mask.tail ++ [0]).map (fun m => 1-m)

def sumWithin (lhs rhs : ℚ × ℤ) : ℚ × ℤ := (lhs.1+lhs.2*rhs.1, lhs.2*rhs.2)

def maxWithin (lhs rhs : ℚ × ℤ) : ℚ × ℤ :=
  (if lhs.2 ≠ 0 then max lhs.1 rhs.1 else lhs.1, lhs.2*rhs.2)

def minWithin (lhs rhs : ℚ × ℤ) : ℚ × ℤ :=
  (if lhs.2 ≠ 0 then min lhs.1 rhs.1 else lhs.1, lhs.2*rhs.2)

def obliviousGroupSum (value : List ℚ) (group : List ℤ) : Option (List ℚ) :=
  scan sumWithin value group

def obliviousGroupCount (value : List ℚ) (group : List ℤ) : Option (List ℚ) :=
  scan sumWithin (value.map (fun _ => 1)) group

def obliviousGroupAvg (value : List ℚ) (group : List ℤ) : Option (List ℚ) := do
  let sum ← obliviousGroupSum value group
  let count ← obliviousGroupCount value group
  return zipWith (· / ·) sum count

def obliviousGroupMax (value : List ℚ) (group : List ℤ) : Option (List ℚ) :=
  scan maxWithin value group

def obliviousGroupMin (value : List ℚ) (group : List ℤ) : Option (List ℚ) :=
  scan minWithin value group

def epsilon : ℚ := 1 / 10^9

def obliviousPercentileDisc (percent : ℚ) (value : List ℚ) (group : List ℤ) :
    Option (List ℚ) :=
  if 1 - percent < epsilon then obliviousGroupMax value group
  else if percent < epsilon then obliviousGroupMin value group
  else do
    let count ← obliviousGroupCount value group
    let recoveredGroup := revertGroupMaskTransfer group
    let reversedMark := recoveredGroup.map (fun m => 1 - m)
    let targetPos := count.map (fun c => (⌈c * percent⌉ : ℚ))
    let indexValues := zipWith (fun (pos : ℚ) (m : ℤ) => pos * m) targetPos recoveredGroup
    let expandedIndex ← expandGroupValueReversely indexValues reversedMark
    let percentileValues := zipWith (· * ·) value
      (zipWith (fun i c => if i = c then (1 : ℚ) else 0) expandedIndex count)
    obliviousGroupSum percentileValues group

/-- `ObliviousGroupAggBase::Execute` for one column. -/
def execute {V : Type} (calculateResult : List V → List ℤ → Option (List ℚ)) (value : List V)
    (mark : List Bool) : Option (List ℚ) :=
  let groupValue := transferGroupMask (maskOf mark)
  if value.length = 0 then some [] else calculateResult value groupValue

def endMarks : List κ → List Bool
  | [] => []
  | [_] => [true]
  | a::b::ks => decide (a ≠ b)::endMarks (b::ks)

@[simp] lemma length_endMarks (ks : List κ) : (endMarks ks).length = ks.length := by
  induction ks using endMarks.induct with
  | case1 | case2 => rfl
  | case3 a b ks ih =>
    rw [endMarks, length_cons, ih]
    rfl

lemma notEqualNext_append_eq (column : List κ) (h : column ≠ []) :
  notEqualNext column ++ [true] = endMarks column := by
  induction column using endMarks.induct with
  | case1 => exact absurd rfl h
  | case2 => rfl
  | case3 a b ks ih =>
    have hrest := ih (by simp)
    rw [endMarks, ← hrest, notEqualNext, dropLast_cons_of_ne_nil (by simp), tail_cons,
      zipWith_cons_cons, cons_append]
    rfl

variable {nk : ℕ}

omit [DecidableEq κ] in
lemma Key.ext_columns {a b : Key κ nk} (h : ∀ c, a.column c = b.column c) : a = b := by
  refine Subtype.ext (ext_getElem (a.2.trans b.2.symm) (fun i h₁ h₂ => ?_))
  exact h ⟨i, a.2 ▸ h₁⟩

variable {ρ : Type}

lemma notEqualNext_map (rows : List ρ) (f : ρ → κ) : notEqualNext (rows.map f)
    = (rows.dropLast.zip rows.tail).map (fun p => decide (f p.1 ≠ f p.2)) := by
  rw [notEqualNext, ← map_dropLast, ← map_tail, zipWith_map, map_zip_eq_zipWith]
  rfl

lemma foldl_or_map (pairs : List ρ) (fs : List (ρ → Bool)) (init : ρ → Bool) :
  fs.foldl (fun result f => zipWith or result (pairs.map f)) (pairs.map init)
    = pairs.map (fun p => init p || fs.any (fun f => f p)) := by
  induction fs generalizing init with
  | nil => simp
  | cons f fs ih =>
    have hstep :
      zipWith or (pairs.map init) (pairs.map f) = pairs.map (fun p => init p || f p) := by
      rw [zipWith_map, zipWith_self]
    rw [foldl_cons, hstep, ih]
    refine map_congr_left (fun p _ => ?_)
    rw [any_cons, Bool.or_assoc]

lemma differs_iff (a b : Key κ (nk+1)) : (decide (a.column 0 ≠ b.column 0)
    || (finRange nk).any (fun c => decide (a.column c.succ ≠ b.column c.succ))) =
      decide (a ≠ b) := by
  rw [Bool.eq_iff_iff]
  simp only [Bool.or_eq_true, any_eq_true, mem_finRange, true_and, decide_eq_true_eq]
  constructor
  · rintro (h | ⟨c, h⟩) rfl
    · exact h rfl
    · exact h rfl
  · intro hne
    by_contra hall
    push Not at hall
    refine hne (Key.ext_columns (fun c => ?_))
    exact c.cases hall.1 hall.2

lemma obliviousGroupMark_columnsOf (keys : List (Key κ (nk+1))) :
  obliviousGroupMark (columnsOf keys) = endMarks keys := by
  have hcolumns : columnsOf keys = keys.map (fun k => k.column 0)
      :: (finRange nk).map (fun c => keys.map (fun k => k.column c.succ)) := by
    rw [columnsOf, finRange_succ, map_cons, map_map]
    rfl
  rw [obliviousGroupMark, hcolumns, headD_cons, length_map]
  split
  · next hle =>
    rcases keys with - | ⟨a, - | ⟨b, keys⟩⟩
    · rfl
    · rfl
    · simp at hle
  · next hlt =>
    have hne : keys ≠ [] := by
      rintro rfl
      simp at hlt
    have hfold : ((finRange nk).map (fun c => keys.map (fun k => k.column c.succ))).foldl
          (fun result column => zipWith or result (notEqualNext column))
          (notEqualNext (keys.map (fun k => k.column 0)))
        = notEqualNext keys := by
      have hkeys := notEqualNext_map keys id
      rw [map_id] at hkeys
      have hor := foldl_or_map (keys.dropLast.zip keys.tail)
        ((finRange nk).map (fun c (p : Key κ (nk+1) × Key κ (nk+1)) =>
          decide (p.1.column c.succ ≠ p.2.column c.succ)))
        (fun p => decide (p.1.column 0 ≠ p.2.column 0))
      simp only [foldl_map, any_map, comp_def] at hor
      simp only [foldl_map, notEqualNext_map, hor, hkeys, differs_iff, id]
    rw [getFullGroupMark, hfold, notEqualNext_append_eq keys hne]

lemma endMarks_block {k : κ} {g rest : List κ} (hg : ∀ x ∈ g, x = k) (hne : g ≠ [])
  (hrest : ∀ x ∈ rest.head?, x ≠ k) : endMarks (g ++ rest) = lastMark g ++ endMarks rest := by
  induction g using lastMark.induct with
  | case1 => exact absurd rfl hne
  | case2 a =>
    cases rest with
    | nil => rfl
    | cons b rest =>
      have hab : a ≠ b := by
        rw [hg a (by simp)]
        exact (hrest b (by simp)).symm
      simp [endMarks, lastMark, hab]
  | case3 a b g ih =>
    have hab : a = b := by rw [hg a (by simp), hg b (by simp)]
    have ih := ih (fun x hx => hg x (mem_cons_of_mem _ hx)) (by simp)
    rw [cons_append, cons_append, endMarks, ← cons_append, ih, lastMark, cons_append, hab]
    simp

lemma endMarks_groups {ks : List κ} {group : κ → List κ} (hks : ks.Nodup)
  (hkey : ∀ k ∈ ks, ∀ x ∈ group k, x = k) (hne : ∀ k ∈ ks, group k ≠ []) :
  endMarks (ks.flatMap group) = ks.flatMap (fun k => lastMark (group k)) := by
  induction ks with
  | nil => rfl
  | cons k ks ih =>
    obtain ⟨hk, hks⟩ := nodup_cons.mp hks
    have hrest := ih hks (fun k' hk' => hkey k' (mem_cons_of_mem _ hk'))
      (fun k' hk' => hne k' (mem_cons_of_mem _ hk'))
    rw [flatMap_cons, flatMap_cons, endMarks_block (hkey k mem_cons_self) (hne k mem_cons_self),
      hrest]
    -- the next group has another key
    rintro x hx rfl
    obtain ⟨k', hk', hx⟩ := mem_flatMap.mp (mem_of_mem_head? hx)
    rw [hkey k' (mem_cons_of_mem _ hk') x hx] at hk
    exact hk hk'

lemma zipWith_or_endMarks {α : Type} {gs : List (List α)} (f : α → κ) (hne : ∀ g ∈ gs, g ≠ []) :
  zipWith or (gs.flatMap lastMark) (endMarks (gs.flatMap (fun g => g.map f)))
    = gs.flatMap (fun g => endMarks (g.map f)) := by
  -- a block ends where its last cell is
  have hblock : ∀ (g : List α) (m : List Bool) (rest : List κ), g ≠ [] →
      zipWith or (lastMark g ++ m) (endMarks (g.map f ++ rest))
        = endMarks (g.map f) ++ zipWith or m (endMarks rest) := by
    intro g m rest hg
    induction g using lastMark.induct with
    | case1 => exact absurd rfl hg
    | case2 a => cases rest <;> simp [lastMark, endMarks]
    | case3 a b g ih =>
      have hrest := ih (by simp)
      rw [map_cons, cons_append] at hrest
      rw [lastMark, map_cons, map_cons, cons_append, cons_append,
        cons_append, endMarks, zipWith_cons_cons, hrest, endMarks]
      simp
  induction gs with
  | nil => rfl
  | cons g gs ih =>
    rw [flatMap_cons, flatMap_cons, hblock g _ _ (hne g mem_cons_self),
      ih (fun g' hg' => hne g' (mem_cons_of_mem _ hg')), flatMap_cons]

lemma obliviousGroupMark_singleton (column : List κ) :
    obliviousGroupMark [column] = endMarks column := by
  rw [obliviousGroupMark, headD_cons]
  split
  · next hle =>
    rcases column with - | ⟨a, - | ⟨b, column⟩⟩
    · rfl
    · rfl
    · simp at hle
  · next hlt =>
    have hne : column ≠ [] := by
      rintro rfl
      simp at hlt
    exact notEqualNext_append_eq column hne

variable {α : Type} {gs : List (List α)} {c : List α → List ℚ}

lemma length_maskOf (mark : List Bool) : (maskOf mark).length = mark.length := by
  rw [maskOf, length_map]

lemma maskOf_lastMark (a : α) (g : List α) :
    maskOf (lastMark (a::g)) = replicate g.length 0 ++ [1] := by
  induction g generalizing a with
  | nil => rfl
  | cons b g ih =>
    have hstep : lastMark (a::b::g) = false::lastMark (b::g) := rfl
    have ih := ih b
    rw [maskOf] at ih
    rw [hstep, maskOf, map_cons, ih]
    rfl

lemma maskOf_append (mark mark' : List Bool) :
    maskOf (mark ++ mark') = maskOf mark ++ maskOf mark' :=
  map_append

lemma transferGroupMask_blocks (hne : ∀ g ∈ gs, g ≠ []) (hgs : gs ≠ []) :
  transferGroupMask (maskOf (gs.flatMap lastMark)) = gs.flatMap startMask := by
  induction gs with
  | nil => exact absurd rfl hgs
  | cons g gs ih =>
    obtain ⟨a, g, rfl⟩ := exists_cons_of_ne_nil (hne g mem_cons_self)
    rw [transferGroupMask, flatMap_cons, maskOf_append, maskOf_lastMark, map_append]
    by_cases hnil : gs = []
    · subst hnil
      simp [startMask, maskOf]
    · have hrest : maskOf (gs.flatMap lastMark) ≠ [] := by
        obtain ⟨g', gs, rfl⟩ := exists_cons_of_ne_nil hnil
        obtain ⟨b, g', rfl⟩ := exists_cons_of_ne_nil (hne g' (by simp))
        rw [flatMap_cons, maskOf_append, maskOf_lastMark]
        simp
      have ih := ih (fun g' hg' => hne g' (mem_cons_of_mem _ hg')) hnil
      rw [transferGroupMask] at ih
      rw [dropLast_append_of_ne_nil (by simpa using hrest), map_append,
        map_replicate, append_assoc, map_singleton, sub_self,
        singleton_append, ih, flatMap_cons, startMask, cons_append, sub_zero]

lemma revertGroupMaskTransfer_blocks (hne : ∀ g ∈ gs, g ≠ []) (hgs : gs ≠ []) :
  revertGroupMaskTransfer (gs.flatMap startMask) = maskOf (gs.flatMap lastMark) := by
  induction gs with
  | nil => exact absurd rfl hgs
  | cons g gs ih =>
    obtain ⟨a, g, rfl⟩ := exists_cons_of_ne_nil (hne g mem_cons_self)
    rw [flatMap_cons, flatMap_cons, maskOf_append, maskOf_lastMark, startMask,
      revertGroupMaskTransfer, cons_append, tail_cons, append_assoc,
      map_append, map_replicate, sub_self, append_assoc]
    congr 1
    by_cases hnil : gs = []
    · subst hnil
      simp [maskOf]
    · rw [← ih (fun g' hg' => hne g' (mem_cons_of_mem _ hg')) hnil]
      obtain ⟨g', gs, rfl⟩ := exists_cons_of_ne_nil hnil
      obtain ⟨b, g', rfl⟩ := exists_cons_of_ne_nil (hne g' (by simp))
      simp [startMask, revertGroupMaskTransfer]

lemma startMask_blocks_mask (gs : List (List α)) : ∀ m ∈ gs.flatMap startMask, m = 0 ∨ m = 1 := by
  intro m hm
  obtain ⟨g, -, hm⟩ := mem_flatMap.mp hm
  exact startMask_mask g m hm

lemma startMask_congr {β : Type} {g : List α} {g' : List β} (h : g.length = g'.length) :
  startMask g = startMask g' := by
  cases g <;> cases g' <;> simp_all [startMask]

variable {op : ℚ × ℤ → ℚ × ℤ → ℚ × ℤ} {f : ℚ → ℚ → ℚ}

/-- A scan whose operation is segmented computes the values of the cells one after another. -/
lemma scan_eq_runs
  (hf : ∀ x y z, f (f x y) z = f x (f y z)) (hop : ∀ x y : ℚ × ℤ, x.2 = 0 ∨ x.2 = 1 →
    op x y = within f x y)
  {values : List ℚ} {mask : List ℤ} (hlen : values.length = mask.length)
  (hrows : values.length ≤ 2^30)
  (hmask : ∀ m ∈ mask, m = 0 ∨ m = 1) :
    scan op values mask = some (runs f none (values.zip mask)) := by
  have hcells : cells values mask = fun j => (values.zip mask).getD j (0, 0) := by
    funext j
    by_cases hj : j < values.length
    · rw [cells, getD_eq_getElem _ _ hj, getD_eq_getElem _ _ (by omega),
        getD_eq_getElem _ _ (by simp; omega), getElem_zip]
    · rw [cells, getD_eq_default _ _ (by omega), getD_eq_default _ _ (by omega),
        getD_eq_default _ _ (by simp; omega)]
  have hgood : ∀ j, (cells values mask j).2 = 0 ∨ (cells values mask j).2 = 1 := mask_getD hmask
  have hzip : ∀ x ∈ values.zip mask, x.2 = 0 ∨ x.2 = 1 :=
    fun x hx => hmask x.2 (of_mem_zip hx).2
  have hassoc : PrefixScan.AssocOn op (fun c => c.2 = 0 ∨ c.2 = 1) := by
    have h := within_assoc hf
    constructor
    · intro x y hx hy
      rw [hop x y hx]
      exact h.closed x y hx hy
    · intro x y z hx hy hz
      have hxy := h.closed x y hx hy
      rw [hop x y hx, hop _ z hxy, hop y z hy, hop x _ hx]
      exact h.assoc x y z hx hy hz
  have hlength : values.length = (values.zip mask).length := by simp [hlen]
  have hnone : ((0 : ℚ), (0 : ℤ)).2 = 0 ∨ ((0 : ℚ), (0 : ℤ)).2 = 1 := .inl rfl
  refine (scan_eq_some_iff hassoc hgood).mpr ⟨hrows, ?_⟩
  rw [prefixes, ← map_upTo_within hf hzip hnone, hlength, ← hcells]
  exact map_congr_left (fun j _ => by rw [upTo_eq_within hf hop hgood])

lemma scan_blocks
  (hf : ∀ x y z, f (f x y) z = f x (f y z)) (hop : ∀ x y : ℚ × ℤ, x.2 = 0 ∨ x.2 = 1 →
    op x y = within f x y)
  (hrows : gs.flatten.length ≤ 2^30) (hlen : ∀ g ∈ gs, (c g).length = g.length) :
  scan op (gs.flatMap c) (gs.flatMap startMask) = some (gs.flatMap (fun g => runOf f (c g))) := by
  have hmask : ∀ g ∈ gs, (startMask g).length = g.length := fun g _ => length_startMask g
  rw [scan_eq_runs hf hop (by rw [length_flatMap_blocks hlen, length_flatMap_blocks hmask])
    (by rw [length_flatMap_blocks hlen]; exact hrows)
    (startMask_blocks_mask gs), zip, zipWith_blocks _ (fun g hg => by simp [hlen g hg])]
  have hblocks := runs_blocks f (gs.map c) none
  rw [flatMap_map, flatMap_map] at hblocks
  rw [← hblocks]
  refine congrArg (fun cells => some (runs f none cells)) (flatMap_congr (fun g hg => ?_))
  rw [startMask_congr (hlen g hg).symm]
  rfl

lemma sumWithin_eq (x y : ℚ × ℤ) (hx : x.2 = 0 ∨ x.2 = 1) : sumWithin x y = within (· + ·) x y := by
  rcases hx with hx | hx <;> simp [sumWithin, within, hx]

lemma maxWithin_eq (x y : ℚ × ℤ) (hx : x.2 = 0 ∨ x.2 = 1) : maxWithin x y = within max x y := by
  rcases hx with hx | hx <;> simp [maxWithin, within, hx]

lemma minWithin_eq (x y : ℚ × ℤ) (hx : x.2 = 0 ∨ x.2 = 1) : minWithin x y = within min x y := by
  rcases hx with hx | hx <;> simp [minWithin, within, hx]

variable (hrows : gs.flatten.length ≤ 2^30) (hlen : ∀ g ∈ gs, (c g).length = g.length)

include hrows hlen

lemma obliviousGroupSum_blocks : obliviousGroupSum (gs.flatMap c) (gs.flatMap startMask)
    = some (gs.flatMap (fun g => runOf (· + ·) (c g))) :=
  scan_blocks add_assoc sumWithin_eq hrows hlen

lemma obliviousGroupMax_blocks : obliviousGroupMax (gs.flatMap c) (gs.flatMap startMask)
    = some (gs.flatMap (fun g => runOf max (c g))) :=
  scan_blocks max_assoc maxWithin_eq hrows hlen

lemma obliviousGroupMin_blocks : obliviousGroupMin (gs.flatMap c) (gs.flatMap startMask)
    = some (gs.flatMap (fun g => runOf min (c g))) :=
  scan_blocks min_assoc minWithin_eq hrows hlen

omit hrows hlen in
lemma runOf_add_replicate (n : ℕ) :
  runOf (· + ·) (replicate n (1 : ℚ)) = (range n).map (fun i : ℕ => (i : ℚ)+1) := by
  have hscan : ∀ (n : ℕ) (a : ℚ), scanl (fun acc x => x+acc) a (replicate n 1)
      = (range (n+1)).map (fun i : ℕ => (i : ℚ)+a) := by
    intro n
    induction n with
    | zero => simp
    | succ n ih =>
      intro a
      have hrange : range (n+1+1) = 0::(range (n+1)).map Nat.succ :=
        range_succ_eq_map
      have hshift : ∀ i : ℕ, (i : ℚ)+(1+a) = (i+1 : ℕ)+a := by
        intro i
        push_cast
        ring
      rw [replicate_succ, scanl_cons, ih, hrange]
      simp [comp_def, hshift]
  cases n with
  | zero => rfl
  | succ n => rw [replicate_succ, runOf, hscan]

lemma obliviousGroupCount_blocks : obliviousGroupCount (gs.flatMap c) (gs.flatMap startMask)
    = some (gs.flatMap (fun g => (range g.length).map (fun i : ℕ => (i : ℚ) + 1))) := by
  have hones :
    (gs.flatMap c).map (fun _ => (1 : ℚ)) = gs.flatMap (fun g => replicate g.length 1) := by
    rw [map_flatMap]
    exact flatMap_congr (fun g hg => by rw [map_const', hlen g hg])
  rw [obliviousGroupCount, hones, scan_blocks add_assoc sumWithin_eq hrows (fun g _ => by simp)]
  exact congrArg some (flatMap_congr (fun g _ => runOf_add_replicate g.length))

lemma obliviousGroupAvg_blocks : obliviousGroupAvg (gs.flatMap c) (gs.flatMap startMask)
    = some (gs.flatMap (fun g => zipWith (· / ·) (runOf (· + ·) (c g))
        ((range g.length).map (fun i : ℕ => (i : ℚ) + 1)))) := by
  rw [obliviousGroupAvg, obliviousGroupSum_blocks hrows hlen,
    obliviousGroupCount_blocks hrows hlen]
  exact congrArg some (zipWith_blocks _ (fun g hg => by simp [hlen g hg]))

variable {V : Type} {calculateResult : List V → List ℤ → Option (List ℚ)} {v : List α → List V}
    {out : List α → List ℚ}

omit hrows hlen in
lemma execute_blocks (hne : ∀ g ∈ gs, g ≠ []) (hv : ∀ g ∈ gs, (v g).length = g.length)
  (hcalc : calculateResult (gs.flatMap v) (gs.flatMap startMask) = some (gs.flatMap out)) :
  execute calculateResult (gs.flatMap v) (gs.flatMap lastMark) = some (gs.flatMap out) := by
  by_cases hgs : gs = []
  · subst hgs
    rfl
  · have hrows : (gs.flatMap v).length ≠ 0 := by
      obtain ⟨g, gs, rfl⟩ := exists_cons_of_ne_nil hgs
      have hg := length_pos_of_ne_nil (hne g mem_cons_self)
      rw [flatMap_cons, length_append, hv g mem_cons_self]
      omega
    rw [execute, transferGroupMask_blocks hne hgs, if_neg hrows, hcalc]

omit hrows hlen in
lemma keepMarked_execute (hne : ∀ g ∈ gs, g ≠ []) (hv : ∀ g ∈ gs, (v g).length = g.length)
  (hcalc : calculateResult (gs.flatMap v) (gs.flatMap startMask) = some (gs.flatMap out))
  (hout : ∀ g ∈ gs, (out g).length = g.length) :
  (execute calculateResult (gs.flatMap v) (gs.flatMap lastMark)).map
      (fun column => keepMarked column (gs.flatMap lastMark))
    = some (gs.filterMap (fun g => (out g).getLast?)) := by
  rw [execute_blocks hne hv hcalc, Option.map_some, keepMarked_blocks hout,
    filterMap_eq_flatMap_toList]

omit hrows hlen in
lemma getLast?_runOf (f : ℚ → ℚ → ℚ) (v : ℚ) (vs : List ℚ) :
  (runOf f (v::vs)).getLast? = some (vs.foldl (fun acc x => f x acc) v) := by
  induction vs generalizing v with
  | nil => rfl
  | cons x vs ih =>
    have hrest := ih (f x v)
    rw [runOf] at hrest
    rw [runOf, scanl_cons, getLast?_cons, hrest]
    rfl

omit hrows hlen in
lemma getLast?_runOf_add {vs : List ℚ} (h : vs ≠ []) :
  (runOf (· + ·) vs).getLast? = some vs.sum := by
  have hfold : ∀ (vs : List ℚ) (v : ℚ), vs.foldl (fun acc x => x+acc) v = v+vs.sum := by
    intro vs
    induction vs with
    | nil => simp
    | cons x vs ih =>
      intro v
      rw [foldl_cons, ih, sum_cons]
      ring
  obtain ⟨v, vs, rfl⟩ := exists_cons_of_ne_nil h
  rw [getLast?_runOf, hfold, sum_cons]

omit hrows hlen in
lemma getLast?_count (n : ℕ) :
    ((range (n+1)).map (fun i : ℕ => (i : ℚ)+1)).getLast? = some ((n+1 : ℕ) : ℚ) := by
  rw [range_succ, map_append, map_singleton, getLast?_concat]
  push_cast
  rfl

omit hrows hlen in
lemma getLast?_zipWith {A B C : Type} (f : A → B → C) {l : List A} {r : List B} {x : A} {y : B}
  (h : l.length = r.length) (hl : l.getLast? = some x) (hr : r.getLast? = some y) :
  (zipWith f l r).getLast? = some (f x y) := by
  obtain ⟨l, rfl⟩ := getLast?_eq_some_iff.mp hl
  obtain ⟨r, rfl⟩ := getLast?_eq_some_iff.mp hr
  rw [zipWith_append (by simpa using h)]
  simp

omit hrows hlen in
lemma expand_block (vs : List ℚ) (v : ℚ) (rest : List (ℚ × ℤ)) :
  expand ((vs ++ [v]).zip (replicate vs.length 1 ++ [0]) ++ rest)
    = replicate (vs.length+1) v ++ expand rest := by
  induction vs with
  | nil => rfl
  | cons w vs ih =>
    rw [cons_append, length_cons, replicate_succ, cons_append,
      zip_cons_cons, cons_append, expand, ih, replicate_succ, cons_append]
    rfl

lemma expandGroupValueReversely_blocks (hne : ∀ g ∈ gs, g ≠ []) :
  expandGroupValueReversely (gs.flatMap c) ((maskOf (gs.flatMap lastMark)).map (fun m => 1-m))
    = some (gs.flatMap (fun g => replicate g.length ((c g).getLast?.getD 0))) := by
  have hmark : (maskOf (gs.flatMap lastMark)).map (fun m => 1-m)
      = gs.flatMap (fun g => (maskOf (lastMark g)).map (fun m => 1-m)) := by
    rw [maskOf, map_flatMap, map_flatMap]
    rfl
  have hmarklen : ∀ g ∈ gs, ((maskOf (lastMark g)).map (fun m => 1-m)).length = g.length :=
    fun g _ => by rw [length_map, length_maskOf, length_lastMark]
  have hbits : ∀ m ∈ gs.flatMap (fun g => (maskOf (lastMark g)).map (fun m => 1-m)), m = 0 ∨
    m = 1 := by
    intro m hm
    obtain ⟨g, -, hm⟩ := mem_flatMap.mp hm
    obtain ⟨m', hm', rfl⟩ := mem_map.mp hm
    obtain ⟨b, -, rfl⟩ := mem_map.mp hm'
    cases b
    · exact .inr rfl
    · exact .inl rfl
  rw [hmark, expandGroupValueReversely_eq_some_iff
    (by rw [length_flatMap_blocks hlen, length_flatMap_blocks hmarklen]) hbits, zip,
    zipWith_blocks _ (fun g hg => by rw [hlen g hg, hmarklen g hg])]
  refine ⟨by rw [length_flatMap_blocks hlen]; exact hrows, ?_⟩
  clear hmark hbits hmarklen hrows
  induction gs with
  | nil => rfl
  | cons g gs ih =>
    have hrest := ih (fun g' hg' => hlen g' (mem_cons_of_mem _ hg'))
      (fun g' hg' => hne g' (mem_cons_of_mem _ hg'))
    obtain ⟨a, g, rfl⟩ := exists_cons_of_ne_nil (hne g mem_cons_self)
    have hlast : (c (a::g)).length = g.length+1 := hlen _ mem_cons_self
    obtain ⟨vs, v, hvs⟩ : ∃ vs v, c (a::g) = vs ++ [v] := by
      refine ⟨_, _, (dropLast_append_getLast (ne_nil_of_length_pos ?_)).symm⟩
      omega
    have hcount : vs.length = g.length := by simpa [hvs] using hlast
    rw [flatMap_cons, flatMap_cons, maskOf_lastMark, hvs, ← hrest]
    have hblock := expand_block vs v
      (gs.flatMap (fun g => zipWith Prod.mk (c g) ((maskOf (lastMark g)).map (fun m => 1-m))))
    rw [hcount] at hblock
    simpa [zip] using hblock

section Undefined

variable {value : List ℚ} {group : List ℤ} (h : 2^30 < value.length)

omit hrows hlen
include h

lemma obliviousGroupCount_eq_none : obliviousGroupCount value group = none :=
  scan_eq_none (by rw [length_map]; exact h)

lemma obliviousGroupAvg_eq_none : obliviousGroupAvg value group = none := by
  rw [obliviousGroupAvg, obliviousGroupSum, scan_eq_none h]
  rfl

lemma obliviousPercentileDisc_eq_none (percent : ℚ) :
  obliviousPercentileDisc percent value group = none := by
  rw [obliviousPercentileDisc, obliviousGroupMax, obliviousGroupMin, scan_eq_none h,
    scan_eq_none h, obliviousGroupCount_eq_none h, Option.bind_eq_bind, Option.bind_none]
  simp only [ite_self]

end Undefined

end Scql.ObliviousGroups
