import Mathlib.Data.Nat.Size
import Mathlib.Tactic.Ring

/-! # Work-efficient prefix scans

An inclusive scan of `n` cells in rounds, as a tree: going up, cells at distances that are
powers of two are combined; going down, the prefixes already complete are handed on. In every
round a cell is combined with one cell to the left, all targets at once. -/
namespace Scql.PrefixScan

variable {α : Type}

/-- The loop indices `start`, `start + stride`, … below `n`. -/
def strided (start stride n : ℕ) : List ℕ :=
  ((List.range n).map (fun t => start+t*stride)).filter (· < n)

lemma mem_strided {start stride n : ℕ} (hs : 0 < stride) {j : ℕ} :
  j ∈ strided start stride n ↔ j < n ∧ ∃ t, j = start+t*stride := by
  simp only [strided, List.mem_filter, List.mem_map, List.mem_range, decide_eq_true_eq]
  constructor
  · rintro ⟨⟨t, -, rfl⟩, hj⟩
    exact ⟨hj, t, rfl⟩
  · rintro ⟨hj, t, rfl⟩
    have ht : t ≤ t*stride := Nat.le_mul_of_pos_right t hs
    exact ⟨⟨t, by omega, rfl⟩, hj⟩

/-- Combine every target with the cell `back` places to its left. -/
def round (op : α → α → α) (targets : List ℕ) (back : ℕ) (a : ℕ → α) : ℕ → α := fun j =>
  if j ∈ targets then op (a j) (a (j-back)) else a j

def upRound (op : α → α → α) (n i : ℕ) : (ℕ → α) → ℕ → α :=
  round op (strided (2^(i+1)-1) (2^(i+1)) n) (2^i)

def downRound (op : α → α → α) (n i : ℕ) : (ℕ → α) → ℕ → α :=
  round op (strided (3*2^i-1) (2^(i+1)) n) (2^i)

def upSweep (op : α → α → α) (n : ℕ) : ℕ → (ℕ → α) → ℕ → α
  | 0, a => a
  | i+1, a => upRound op n i (upSweep op n i a)

/-- The rounds `i - 1`, …, `0`. -/
def downSweep (op : α → α → α) (n : ℕ) : ℕ → (ℕ → α) → ℕ → α
  | 0, a => a
  | i+1, a => downSweep op n i (downRound op n i a)

/-- The scan of the first `n` cells. -/
def scanParallel (op : α → α → α) (n : ℕ) (a : ℕ → α) : ℕ → α :=
  if n < 2 then a
  else downSweep op n ((n-1).size-1) (upSweep op n (n-1).size a)

/-- The cells `hi`, `hi - 1`, …, `hi - len` combined. -/
def seg (op : α → α → α) (a : ℕ → α) (hi : ℕ) : ℕ → α
  | 0 => a hi
  | len+1 => op (seg op a hi len) (a (hi-(len+1)))

/-- The operation is associative on the cells that occur. -/
structure AssocOn (op : α → α → α) (good : α → Prop) : Prop where
  closed : ∀ x y, good x → good y → good (op x y)
  assoc : ∀ x y z, good x → good y → good z → op (op x y) z = op x (op y z)

variable {op : α → α → α} {good : α → Prop} {a : ℕ → α}

lemma good_seg (h : AssocOn op good) (ha : ∀ j, good (a j)) (hi len : ℕ) :
  good (seg op a hi len) := by
  induction len with
  | zero => exact ha hi
  | succ len ih => exact h.closed _ _ ih (ha _)

lemma op_seg (h : AssocOn op good) (ha : ∀ j, good (a j)) (hi len len' : ℕ) :
  op (seg op a hi len) (seg op a (hi-(len+1)) len') = seg op a hi (len+len'+1) := by
  induction len' with
  | zero => rfl
  | succ len' ih =>
    have hcell : hi-(len+1)-(len'+1) = hi-(len+(len'+1)+1) := by omega
    rw [seg, ← h.assoc _ _ _ (good_seg h ha _ _) (good_seg h ha _ _) (ha _), ih, hcell]
    rfl

lemma seg_congr {b : ℕ → α} {hi : ℕ} (hab : ∀ i ≤ hi, a i = b i) (len : ℕ) :
    seg op a hi len = seg op b hi len := by
  induction len with
  | zero => exact hab hi le_rfl
  | succ len ih => rw [seg, seg, ih, hab _ (Nat.sub_le _ _)]

def upTo (op : α → α → α) (a : ℕ → α) (j : ℕ) : α := seg op a j j

lemma upTo_zero : upTo op a 0 = a 0 := rfl

lemma upTo_succ (h : AssocOn op good) (ha : ∀ j, good (a j)) (j : ℕ) :
  upTo op a (j+1) = op (a (j+1)) (upTo op a j) := by
  have hseg : op (a (j+1)) (seg op a j j) = seg op a (j+1) (0+j+1) :=
    op_seg h ha (j+1) 0 j
  rw [show 0+j+1 = j+1 by omega] at hseg
  exact hseg.symm

lemma upTo_congr {b : ℕ → α} {j : ℕ} (hab : ∀ i ≤ j, a i = b i) : upTo op a j = upTo op b j :=
  seg_congr hab j

variable {n : ℕ}

lemma mem_upTargets {i j : ℕ} : j ∈ strided (2^(i+1)-1) (2^(i+1)) n ↔ j < n ∧ 2^(i+1) ∣ j+1 := by
  have hpos : 0 < 2^(i+1) := Nat.two_pow_pos _
  rw [mem_strided hpos]
  refine and_congr_right (fun _ => ?_)
  constructor
  · rintro ⟨t, rfl⟩
    exact ⟨t+1, by rw [Nat.mul_add, Nat.mul_comm t]; omega⟩
  · rintro ⟨t, ht⟩
    cases t with
    | zero => omega
    | succ t => exact ⟨t, by rw [Nat.mul_add, Nat.mul_comm] at ht; omega⟩

lemma mem_downTargets {i j : ℕ} : j ∈ strided (3*2^i-1) (2^(i+1)) n ↔
    j < n ∧ ∃ t, j+1 = 2^i*(2*t+3) := by
  have hpos : 0 < 2^i := Nat.two_pow_pos _
  rw [mem_strided (Nat.two_pow_pos _)]
  refine and_congr_right (fun _ => exists_congr (fun t => ?_))
  have hmul : t*2^(i+1) = 2^i*(2*t) := by ring
  rw [hmul, Nat.mul_add]
  omega

/-- After `i` rounds up, a cell holds the segment of the largest power of two, at most `2 ^ i`,
that divides its number. -/
lemma upSweep_eq (h : AssocOn op good) (ha : ∀ j, good (a j)) (i : ℕ) :
  ∀ j < n, ∀ e ≤ i, 2^e ∣ j+1 → (e = i ∨ ¬2^(e+1) ∣ j+1) →
    upSweep op n i a j = seg op a j (2^e-1) := by
  induction i with
  | zero =>
    intro j _ e he _ _
    obtain rfl : e = 0 := by omega
    rfl
  | succ i ih =>
    intro j hj e he hdvd hmax
    have hpow : 2^(i+1) = 2^i+2^i := by ring
    have hpos : 0 < 2^i := Nat.two_pow_pos _
    rw [upSweep, upRound, round]
    by_cases htarget : 2^(i+1) ∣ j+1
    · rw [if_pos (mem_upTargets.mpr ⟨hj, htarget⟩)]
      -- a target is divisible by the larger power, so `e` is the number of rounds
      have hei : e = i+1 := by
        rcases hmax with rfl | hmax
        · rfl
        · by_contra hne
          exact hmax ((Nat.pow_dvd_pow 2 (by omega)).trans htarget)
      have hdvd' : 2^i ∣ j+1 := (Nat.pow_dvd_pow 2 (by omega)).trans htarget
      have hle : 2^(i+1) ≤ j+1 := Nat.le_of_dvd (by omega) htarget
      have hleft : 2^i ∣ j-2^i+1 := by
        have hsub := Nat.dvd_sub hdvd' (dvd_refl (2^i))
        rwa [show j+1-2^i = j-2^i+1 by omega] at hsub
      rw [ih j hj i le_rfl hdvd' (.inl rfl), ih (j-2^i) (by omega) i le_rfl hleft (.inl rfl), hei]
      have hseg := op_seg h ha j (2^i-1) (2^i-1)
      rw [show 2^i-1+1 = 2^i by omega, show 2^i-1+(2^i-1)+1 = 2^(i+1)-1 by omega] at hseg
      exact hseg
    · rw [if_neg (fun hm => htarget (mem_upTargets.mp hm).2)]
      have hei : e ≤ i := by
        by_contra hgt
        obtain rfl : e = i+1 := by omega
        exact htarget hdvd
      refine ih j hj e hei hdvd ?_
      rcases hmax with rfl | hmax
      · omega
      · exact .inr hmax

/-- The rounds down complete every prefix, once the multiples of `2 ^ i` are complete and the
other cells are as the rounds up left them. -/
lemma downSweep_eq (h : AssocOn op good) (ha : ∀ j, good (a j)) (i : ℕ) (b : ℕ → α)
  (hdone : ∀ j < n, 2^i ∣ j+1 → b j = upTo op a j)
  (hrest : ∀ j < n, ∀ e < i, 2^e ∣ j+1 → ¬2^(e+1) ∣ j+1 → b j = seg op a j (2^e-1)) :
  ∀ j < n, downSweep op n i b j = upTo op a j := by
  induction i generalizing b with
  | zero =>
    intro j hj
    exact hdone j hj (one_dvd _)
  | succ i ih =>
    have hpos : 0 < 2^i := Nat.two_pow_pos _
    refine ih (downRound op n i b) ?_ ?_
    · intro j hj hdvd
      rw [downRound, round]
      by_cases htwice : 2^(i+1) ∣ j+1
      · -- an even multiple is complete and no target
        rw [if_neg, hdone j hj htwice]
        intro hm
        obtain ⟨t, ht⟩ := (mem_downTargets.mp hm).2
        obtain ⟨u, hu⟩ := htwice
        have hodd : 2^i*(2*t+3) = 2^i*(2*u) := by
          rw [← ht, hu]
          ring
        have := Nat.eq_of_mul_eq_mul_left hpos hodd
        omega
      · obtain ⟨u, hu⟩ := hdvd
        have hodd : u%2 = 1 := by
          by_contra heven
          refine htwice ⟨u/2, ?_⟩
          rw [hu, pow_succ, Nat.mul_assoc, show 2*(u/2) = u by omega]
        have hown := hrest j hj i (by omega) ⟨u, hu⟩ htwice
        by_cases hone : u = 1
        · rw [if_neg, hown, upTo]
          · rw [hone, Nat.mul_one] at hu
            rw [show 2^i-1 = j by omega]
          · intro hm
            obtain ⟨t, ht⟩ := (mem_downTargets.mp hm).2
            have := Nat.eq_of_mul_eq_mul_left hpos (hu.symm.trans ht)
            omega
        · rw [if_pos (mem_downTargets.mpr ⟨hj, (u-3)/2, by
            rw [hu, show 2*((u-3)/2)+3 = u by omega]⟩), hown]
          have hle : 2^i*2 ≤ 2^i*(u-1) := Nat.mul_le_mul_left _ (by omega)
          have hsub : 2^i*u = 2^i*(u-1)+2^i := by
            rw [← Nat.mul_succ, show (u-1).succ = u by omega]
          have hprev : 2^(i+1) ∣ j-2^i+1 := by
            refine ⟨(u-1)/2, ?_⟩
            rw [pow_succ, Nat.mul_assoc, show 2*((u-1)/2) = u-1 by omega]
            omega
          rw [hdone (j-2^i) (by omega) hprev, upTo, upTo]
          have hseg := op_seg h ha j (2^i-1) (j-2^i)
          rw [show 2^i-1+1 = 2^i by omega, show 2^i-1+(j-2^i)+1 = j by omega] at hseg
          exact hseg
    · intro j hj e he hdvd hmax
      rw [downRound, round, if_neg, hrest j hj e (by omega) hdvd hmax]
      intro hm
      obtain ⟨t, ht⟩ := (mem_downTargets.mp hm).2
      exact hmax ((Nat.pow_dvd_pow 2 (by omega)).trans ⟨_, ht⟩)

lemma scanParallel_eq (h : AssocOn op good) (ha : ∀ j, good (a j)) {j : ℕ} (hj : j < n) :
  scanParallel op n a j = upTo op a j := by
  rw [scanParallel]
  split_ifs with hn
  · obtain rfl : j = 0 := by omega
    rfl
  have hsize : n ≤ 2^(n-1).size := by
    have := Nat.lt_size_self (n-1)
    omega
  have hk : 0 < (n-1).size := Nat.size_pos.mpr (by omega)
  obtain ⟨k, hk'⟩ : ∃ k, (n-1).size = k+1 := ⟨(n-1).size-1, by omega⟩
  rw [hk'] at hsize ⊢
  have hpow : 2^(k+1) = 2^k+2^k := by ring
  refine downSweep_eq h ha k _ ?_ ?_ j hj
  · -- only `2 ^ k` and `2 ^ (k + 1)` are multiples of `2 ^ k` in range
    intro j hj hdvd
    by_cases htwice : 2^(k+1) ∣ j+1
    · have hle := Nat.le_of_dvd (by omega) htwice
      rw [upSweep_eq h ha (k+1) j hj (k+1) le_rfl htwice (.inl rfl), upTo, show 2^(k+1)-1 =
        j by omega]
    · rw [upSweep_eq h ha (k+1) j hj k (by omega) hdvd (.inr htwice), upTo]
      obtain ⟨u, hu⟩ := hdvd
      have hu2 : u < 2 := by
        by_contra hge
        have hle : 2^k*2 ≤ 2^k*u := Nat.mul_le_mul_left _ (by omega)
        exact htwice ⟨1, by omega⟩
      have hu1 : u = 1 := by
        rcases Nat.eq_zero_or_pos u with rfl | hpos <;> omega
      rw [hu1, Nat.mul_one] at hu
      rw [show 2^k-1 = j by omega]
  · intro j hj e he hdvd hmax
    exact upSweep_eq h ha (k+1) j hj e (by omega) hdvd (.inr hmax)

end Scql.PrefixScan
