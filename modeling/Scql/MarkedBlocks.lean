import Mathlib.Data.List.GetD
import Mathlib.Data.List.Induction
import Scql.PrefixScan

/-! # Segmented scans over blocks

A column made of blocks laid one after another. A mask says of every cell whether it continues the
block of the cell before; a mark says whether it is the last of its block. A scan that combines a
cell with the one before only where the mask allows runs through every block on its own, and the
marked cells of the result are the totals of the blocks. -/
namespace MarkedBlocks

open Scql.PrefixScan List

variable {α β V : Type}

/-- Combine a cell with what was combined before it, if its mask is `1`. -/
def within (f : V → V → V) (lhs rhs : V × ℤ) : V × ℤ :=
  (if lhs.2 = 1 then f lhs.1 rhs.1 else lhs.1, lhs.2*rhs.2)

lemma within_assoc {f : V → V → V} (hf : ∀ x y z, f (f x y) z = f x (f y z)) :
  AssocOn (within f) (fun c => c.2 = 0 ∨ c.2 = 1) where
  closed x y hx hy := by
    rcases hx with hx | hx <;> rcases hy with hy | hy <;> simp [within, hx, hy]
  assoc x y z hx hy _ := by
    rcases hx with hx | hx <;> rcases hy with hy | hy <;> simp [within, hx, hy, hf]

lemma upTo_eq_within {op : V × ℤ → V × ℤ → V × ℤ} {f : V → V → V}
  (hf : ∀ x y z, f (f x y) z = f x (f y z)) (hop : ∀ x y : V × ℤ, x.2 = 0 ∨ x.2 = 1 →
    op x y = within f x y)
  {a : ℕ → V × ℤ} (ha : ∀ j, (a j).2 = 0 ∨ (a j).2 = 1) (j : ℕ) :
    upTo op a j = upTo (within f) a j := by
  have hseg : ∀ hi len, seg op a hi len = seg (within f) a hi len := by
    intro hi len
    induction len with
    | zero => rfl
    | succ len ih =>
      rw [seg, seg, ih]
      exact hop _ _ (good_seg (within_assoc hf) ha hi len)
  exact hseg j j

def next (f : V → V → V) (before : Option V) (c : V × ℤ) : V :=
  if c.2 = 1 then before.elim c.1 (f c.1) else c.1

def runs (f : V → V → V) : Option V → List (V × ℤ) → List V
  | _, [] => []
  | before, c::cs => next f before c::runs f (some (next f before c)) cs

variable {f : V → V → V} {before : Option V} {cs : List (V × ℤ)}

lemma runs_append (cs' : List (V × ℤ)) : runs f before (cs ++ cs')
    = runs f before cs ++ runs f ((runs f before cs).getLast?.or before) cs' := by
  induction cs generalizing before with
  | nil => simp [runs]
  | cons c cs ih =>
    rw [cons_append, runs, ih, runs, cons_append, getLast?_cons]
    cases (runs f (some (next f before c)) cs).getLast? <;> simp

lemma map_upTo_within (hf : ∀ x y z, f (f x y) z = f x (f y z))
  (hmask : ∀ c ∈ cs, c.2 = 0 ∨ c.2 = 1) {d : V × ℤ} (hd : d.2 = 0 ∨ d.2 = 1) :
  (range cs.length).map (fun j => (upTo (within f) (fun i => cs.getD i d) j).1) =
    runs f none cs := by
  induction cs using reverseRecOn with
  | nil => rfl
  | append_singleton cs c ih =>
    have hgood : ∀ j, ((cs ++ [c]).getD j d).2 = 0 ∨ ((cs ++ [c]).getD j d).2 = 1 := by
      intro j
      by_cases hj : j < (cs ++ [c]).length
      · rw [getD_eq_getElem _ _ hj]
        exact hmask _ (getElem_mem hj)
      · rw [getD_eq_default _ _ (by omega)]
        exact hd
    have hbefore : ∀ j < cs.length, upTo (within f) (fun i => (cs ++ [c]).getD i d) j
        = upTo (within f) (fun i => cs.getD i d) j :=
      fun j hj => upTo_congr (fun i hi => getD_append _ _ _ _ (by omega))
    have hc : (cs ++ [c]).getD cs.length d = c := by
      rw [getD_append_right _ _ _ _ le_rfl, Nat.sub_self, getD_cons_zero]
    have ih := ih (fun c' hc' => hmask c' (mem_append_left _ hc'))
    rw [length_append, length_singleton, range_succ, map_append, runs_append, ← ih]
    congr 1
    · exact map_congr_left (fun j hj => by rw [hbefore j (mem_range.mp hj)])
    · -- the last cell is combined with the last of the values before
      rw [map_singleton, runs, runs]
      congr 1
      rcases Nat.eq_zero_or_pos cs.length with hzero | hpos
      · rw [hzero, upTo_zero, ← hzero, hc]
        simp [next, hzero]
      · obtain ⟨n, hn⟩ : ∃ n, cs.length = n+1 := ⟨cs.length-1, by omega⟩
        rw [hn] at hc ⊢
        rw [upTo_succ (within_assoc hf) hgood, hc, hbefore n (by omega), range_succ,
          map_append, map_singleton, getLast?_concat]
        rfl

/-- The first cell of a block starts it, the others continue it. -/
def startMask : List α → List ℤ
  | [] => []
  | _::g => 0::replicate g.length 1

def lastMark : List α → List Bool
  | [] => []
  | [_] => [true]
  | _::b::g => false::lastMark (b::g)

variable (g : List α)

@[simp] lemma length_startMask : (startMask g).length = g.length := by
  cases g <;> simp [startMask]

@[simp] lemma length_lastMark : (lastMark g).length = g.length := by
  induction g using lastMark.induct with
  | case1 | case2 => rfl
  | case3 a b g ih =>
    rw [lastMark, length_cons, ih]
    rfl

lemma startMask_mask : ∀ m ∈ startMask g, m = 0 ∨ m = 1 := by
  cases g with
  | nil => simp [startMask]
  | cons a g =>
    intro m hm
    rcases mem_cons.mp hm with rfl | hm
    · exact .inl rfl
    · exact .inr (mem_replicate.mp hm).2

def runOf (f : V → V → V) : List V → List V
  | [] => []
  | v::vs => scanl (fun acc x => f x acc) v vs

variable (f : V → V → V)

@[simp] lemma length_runOf (g : List V) : (runOf f g).length = g.length := by
  cases g <;> simp [runOf]

lemma runs_continued (v : V) (vs : List V) (rest : List (V × ℤ)) :
  runs f (some v) (vs.zip (replicate vs.length 1) ++ rest) =
    (scanl (fun acc x => f x acc) v vs).tail
      ++ runs f (some (vs.foldl (fun acc x => f x acc) v)) rest := by
  induction vs generalizing v with
  | nil => simp
  | cons x vs ih =>
    rw [length_cons, replicate_succ, zip_cons_cons, cons_append, runs]
    have hnext : next f (some v) (x, 1) = f x v := by simp [next]
    rw [hnext, ih, scanl_cons, foldl_cons]
    cases vs <;> simp

lemma runs_blocks (gs : List (List V)) (before : Option V) :
  runs f before (gs.flatMap (fun g => g.zip (startMask g))) = gs.flatMap (runOf f) := by
  induction gs generalizing before with
  | nil => rfl
  | cons g gs ih =>
    rw [flatMap_cons, flatMap_cons]
    cases g with
    | nil => simpa [startMask, runOf] using ih before
    | cons v vs =>
      rw [startMask, zip_cons_cons, cons_append, runs]
      have hnext : next f before (v, 0) = v := by simp [next]
      rw [hnext, runs_continued, ih, runOf]
      cases vs <;> simp

variable {gs : List (List α)}

lemma length_flatMap_blocks {c : List α → List β} (hc : ∀ g ∈ gs, (c g).length = g.length) :
  (gs.flatMap c).length = gs.flatten.length := by
  induction gs with
  | nil => rfl
  | cons g gs ih =>
    rw [flatMap_cons, length_append, hc g mem_cons_self,
      ih fun g' hg' => hc g' (mem_cons_of_mem _ hg'), flatten_cons, length_append]

lemma zipWith_blocks {γ δ : Type} (h : β → γ → δ) {b : List α → List β} {c : List α → List γ}
  (hlen : ∀ g ∈ gs, (b g).length = (c g).length) : zipWith h (gs.flatMap b) (gs.flatMap c)
    = gs.flatMap (fun g => zipWith h (b g) (c g)) := by
  induction gs with
  | nil => rfl
  | cons g gs ih =>
    rw [flatMap_cons, flatMap_cons, zipWith_append (hlen g mem_cons_self),
      ih fun g' hg' => hlen g' (mem_cons_of_mem _ hg'), flatMap_cons]

def keepMarked (column : List β) (marks : List Bool) : List β :=
  ((column.zip marks).filter (·.2)).map (·.1)

lemma keepMarked_append {column column' : List β} {marks marks' : List Bool}
  (h : column.length = marks.length) : keepMarked (column ++ column') (marks ++ marks')
    = keepMarked column marks ++ keepMarked column' marks' := by
  rw [keepMarked, zip_append h, filter_append, map_append]
  rfl

lemma keepMarked_lastMark {g : List α} {column : List β} (hlen : column.length = g.length) :
  keepMarked column (lastMark g) = column.getLast?.toList := by
  induction g using lastMark.induct generalizing column with
  | case1 =>
    obtain rfl := eq_nil_of_length_eq_zero hlen
    rfl
  | case2 a =>
    obtain ⟨x, rfl⟩ := length_eq_one_iff.mp hlen
    rfl
  | case3 a b g ih =>
    cases column with
    | nil => simp at hlen
    | cons x column =>
      have hlen' : column.length = (b::g).length := by simpa using hlen
      have hne : column ≠ [] := by
        rintro rfl
        simp at hlen'
      have hkeep : keepMarked (x::column) (lastMark (a::b::g))
          = keepMarked column (lastMark (b::g)) := by
        simp [keepMarked, lastMark]
      rw [hkeep, ih hlen', getLast?_cons_of_ne_nil hne]

lemma keepMarked_blocks {c : List α → List β} (hlen : ∀ g ∈ gs, (c g).length = g.length) :
  keepMarked (gs.flatMap c) (gs.flatMap lastMark) =
    gs.flatMap (fun g => (c g).getLast?.toList) := by
  induction gs with
  | nil => rfl
  | cons g gs ih =>
    have hg := hlen g mem_cons_self
    rw [flatMap_cons, flatMap_cons, keepMarked_append (by simp [hg]),
      keepMarked_lastMark hg, ih fun g' hg' => hlen g' (mem_cons_of_mem _ hg'), flatMap_cons]

end MarkedBlocks
