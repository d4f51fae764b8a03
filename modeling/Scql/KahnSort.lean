import Mathlib.Data.List.Perm.Subperm
import Mathlib.Data.List.Flatten
import Mathlib.Data.List.Nodup
import Mathlib.Algebra.Order.Group.Int

/-! # Queue-driven topological sorting

Kahn's algorithm over a list of nodes and a successor list for each node. Counters
are integers and the successor lists may name foreign nodes, whose counters are
decremented with the others. The invariant below shows that a foreign node is never
released and that no node of the list is released twice or lost. -/
namespace KahnSort

open List Function

variable {ν : Type*} [DecidableEq ν]

/-- Number of edges into each listed node; targets outside the list are not counted. -/
def indegrees (nodes : List ν) (succs : ν → List ν) : ν → ℤ :=
  (nodes.flatMap succs).foldl
    (fun deg v => if v ∈ nodes then update deg v (deg v+1) else deg) (fun _ => 0)

/-- Decrement the counter of every edge target in turn, collecting the targets whose
counter reaches zero. -/
def release : (ν → ℤ) → List ν → (ν → ℤ) × List ν
  | deg, [] => (deg, [])
  | deg, v::vs =>
    let deg' := update deg v (deg v-1)
    let rest := release deg' vs
    (rest.1, if deg' v = 0 then v::rest.2 else rest.2)

structure State (ν : Type*) where
  deg : ν → ℤ
  queue : List ν
  sorted : List ν

/-- One round: the head of the queue is emitted and what it releases is appended. -/
def step (succs : ν → List ν) (arrange : List ν → List ν) (s : State ν) : State ν :=
  match s.queue with
  | [] => s
  | cur::rest =>
    let released := release s.deg (succs cur)
    ⟨released.1, rest ++ arrange released.2, s.sorted ++ [cur]⟩

def init (nodes : List ν) (succs : ν → List ν) (arrange : List ν → List ν) : State ν :=
  let deg := indegrees nodes succs
  ⟨deg, arrange (nodes.filter (fun v => deg v = 0)), []⟩

/-- The loop runs until the queue is empty, which takes at most one round a node
(`finish_queue`). -/
def finish (nodes : List ν) (succs : ν → List ν) (arrange : List ν → List ν) : State ν :=
  (step succs arrange)^[nodes.length] (init nodes succs arrange)

/-- The emitted list, or failure when some node was never released. -/
def sort (nodes : List ν) (succs : ν → List ν) (arrange : List ν → List ν) :
    Option (List ν) :=
  let s := finish nodes succs arrange
  if s.sorted.length = nodes.length then some s.sorted else none

lemma foldl_increment_apply (p : ν → Prop) [DecidablePred p] (vs : List ν) (deg : ν → ℤ)
  (v : ν) : vs.foldl (fun deg v => if p v then update deg v (deg v+1) else deg)
    deg v = deg v+if p v then (vs.count v : ℤ) else 0 := by
  induction vs generalizing deg with
  | nil => simp
  | cons w vs ih =>
    rw [foldl_cons, ih]
    by_cases hw : w = v
    · subst hw
      by_cases hp : p w
      · simp only [hp, if_true, update_self, count_cons_self]
        omega
      · simp [hp]
    · have hc : (w::vs).count v = vs.count v := count_cons_of_ne hw
      rw [hc]
      by_cases hp : p w
      · simp [hp, update_of_ne (Ne.symm hw)]
      · simp [hp]

lemma indegrees_apply (nodes : List ν) (succs : ν → List ν) (v : ν) :
  indegrees nodes succs v = if v ∈ nodes then ((nodes.flatMap succs).count v : ℤ) else 0 := by
  simp [indegrees, foldl_increment_apply (· ∈ nodes)]

lemma release_deg (deg : ν → ℤ) (vs : List ν) (v : ν) :
  (release deg vs).1 v = deg v-vs.count v := by
  induction vs generalizing deg with
  | nil => simp [release]
  | cons w vs ih =>
    simp only [release, ih]
    by_cases hw : w = v
    · subst hw
      simp only [update_self, count_cons_self]
      omega
    · rw [update_of_ne (Ne.symm hw), count_cons_of_ne hw]

lemma mem_release (deg : ν → ℤ) (vs : List ν) (v : ν) :
  v ∈ (release deg vs).2 ↔ 0 < deg v ∧ deg v ≤ vs.count v := by
  induction vs generalizing deg with
  | nil =>
    simp only [release, not_mem_nil, count_nil, false_iff]
    omega
  | cons w vs ih =>
    simp only [release]
    by_cases hw : w = v
    · subst hw
      have hc : (((w::vs).count w : ℕ) : ℤ) = vs.count w+1 := by
        rw [count_cons_self]
        omega
      rw [hc, update_self]
      split
      · simp only [mem_cons, true_or, true_iff]
        omega
      · rw [ih, update_self]
        omega
    · rw [count_cons_of_ne hw]
      split
      · rw [mem_cons, ih, update_of_ne (Ne.symm hw)]
        simp [Ne.symm hw]
      · rw [ih, update_of_ne (Ne.symm hw)]

lemma release_nodup (deg : ν → ℤ) (vs : List ν) : (release deg vs).2.Nodup := by
  induction vs generalizing deg with
  | nil => simp [release]
  | cons w vs ih =>
    simp only [release]
    split
    · rename_i hzero
      refine nodup_cons.mpr ⟨?_, ih _⟩
      rw [mem_release]
      omega
    · exact ih _

/-- What every round preserves. A listed node is emitted or queued exactly when no edge
from a node still to be emitted enters it. -/
structure Invariant (nodes : List ν) (succs : ν → List ν) (s : State ν) : Prop where
  nodup : (s.sorted ++ s.queue).Nodup
  mem_iff : ∀ v, v ∈ s.sorted ++ s.queue ↔ v ∈ nodes ∧ s.deg v = 0
  deg_add : ∀ v ∈ nodes, s.deg v+(s.sorted.flatMap succs).count v = (nodes.flatMap succs).count v
  foreign : ∀ v ∉ nodes, s.deg v ≤ 0
  ordered : s.sorted.Pairwise (fun u v => u ∉ succs v)

variable {nodes : List ν} {succs : ν → List ν} {arrange : List ν → List ν} {s : State ν}

lemma count_flatMap_le {l : List ν} (hl : l.Nodup) (hsub : l ⊆ nodes) (v : ν) :
  (l.flatMap succs).count v ≤ (nodes.flatMap succs).count v := by
  obtain ⟨l', hperm, hle⟩ := subperm_of_subset hl hsub
  calc (l.flatMap succs).count v = (l'.flatMap succs).count v :=
        (hperm.symm.flatMap_right succs).count_eq v
    _ ≤ (nodes.flatMap succs).count v := (hle.flatMap succs).count_le v

lemma invariant_init (hnodup : nodes.Nodup) (harr : ∀ l, (arrange l).Perm l) :
  Invariant nodes succs (init nodes succs arrange) where
  nodup := by
    simpa [init] using (harr _).nodup_iff.mpr (hnodup.filter _)
  mem_iff v := by
    simp [init, (harr _).mem_iff]
  deg_add v hv := by
    simp [init, indegrees_apply, hv]
  foreign v hv := by
    simp [init, indegrees_apply, hv]
  ordered := by simp [init]

lemma step_nil (hq : s.queue = []) : step succs arrange s = s := by
  simp [step, hq]

variable {cur : ν} {rest : List ν}

lemma step_cons (hq : s.queue = cur::rest) : step succs arrange s = ⟨(release s.deg (succs cur)).1,
    rest ++ arrange (release s.deg (succs cur)).2, s.sorted ++ [cur]⟩ := by
  simp [step, hq]

section
variable (h : Invariant nodes succs s)
include h

variable {v : ν}

/-- The edges leaving the head of the queue never outnumber the counter they decrement. -/
lemma Invariant.count_le (hq : s.queue = cur::rest) (hv : v ∈ nodes) :
    ((succs cur).count v : ℤ) ≤ s.deg v := by
  have hnodup : (s.sorted ++ [cur]).Nodup := by
    have hn := h.nodup
    rw [hq, append_cons] at hn
    exact hn.of_append_left
  have hsub : s.sorted ++ [cur] ⊆ nodes := by
    intro w hw
    refine ((h.mem_iff w).mp ?_).1
    rw [hq, append_cons]
    exact mem_append_left _ hw
  have hle : ((s.sorted ++ [cur]).flatMap succs).count v ≤ (nodes.flatMap succs).count v :=
    count_flatMap_le hnodup hsub v
  have hdeg := h.deg_add v hv
  rw [flatMap_append, flatMap_singleton, count_append] at hle
  omega

lemma Invariant.step_deg_eq_zero_iff (hq : s.queue = cur::rest)
  (hv : v ∈ nodes) : s.deg v-(succs cur).count v = 0 ↔
    v ∈ s.sorted ++ s.queue ∨ v ∈ (release s.deg (succs cur)).2 := by
  have hle := h.count_le hq hv
  rw [h.mem_iff, mem_release]
  constructor
  · intro hz
    by_cases h0 : s.deg v = 0
    · exact .inl ⟨hv, h0⟩
    · exact .inr (by omega)
  · rintro (⟨-, h0⟩ | h0) <;> omega

lemma Invariant.step (harr : ∀ l, (arrange l).Perm l) :
    Invariant nodes succs (step succs arrange s) := by
  rcases hq : s.queue with - | ⟨cur, rest⟩
  · rwa [step_nil hq]
  · rw [step_cons hq]
    have hreleased : ∀ v ∈ (release s.deg (succs cur)).2, v ∉ s.sorted ++ s.queue := by
      intro v hv hmem
      have := (mem_release _ _ _).mp hv
      have := ((h.mem_iff v).mp hmem).2
      omega
    have hsplit : s.sorted ++ [cur] ++ (rest ++ arrange (release s.deg (succs cur)).2) =
        s.sorted ++ s.queue ++ arrange (release s.deg (succs cur)).2 := by
      simp [hq]
    refine ⟨?_, fun v => ?_, fun v hv => ?_, fun v hv => ?_, ?_⟩
    · dsimp only
      rw [hsplit]
      refine h.nodup.append ((harr _).nodup_iff.mpr (release_nodup _ _)) ?_
      intro v hold hnew
      exact hreleased v ((harr _).mem_iff.mp hnew) hold
    · dsimp only
      rw [hsplit, mem_append, (harr _).mem_iff, release_deg]
      by_cases hv : v ∈ nodes
      · rw [h.step_deg_eq_zero_iff hq hv]
        simp [hv]
      · -- a foreign node starts at zero or below, so no decrement brings it to zero
        have hf := h.foreign v hv
        rw [h.mem_iff, mem_release]
        simp only [hv, false_and, false_or, iff_false]
        omega
    · dsimp only
      rw [release_deg, flatMap_append, flatMap_singleton, count_append]
      have := h.deg_add v hv
      push_cast
      omega
    · dsimp only
      rw [release_deg]
      have := h.foreign v hv
      omega
    · refine pairwise_append.mpr ⟨h.ordered, pairwise_singleton _ _, ?_⟩
      intro u hu v hv
      obtain rfl := mem_singleton.mp hv
      have hzero := (h.mem_iff u).mp (mem_append_left _ hu)
      have hle := h.count_le hq hzero.1
      rw [← count_eq_zero]
      omega

end

lemma invariant_iterate (hnodup : nodes.Nodup) (harr : ∀ l, (arrange l).Perm l) (n : ℕ) :
  Invariant nodes succs ((KahnSort.step succs arrange)^[n] (init nodes succs arrange)) := by
  induction n with
  | zero => exact invariant_init hnodup harr
  | succ n ih =>
    rw [iterate_succ_apply']
    exact ih.step harr

lemma Invariant.length_le (h : Invariant nodes succs s) :
  s.sorted.length+s.queue.length ≤ nodes.length := by
  rw [← length_append]
  exact (subperm_of_subset h.nodup (fun v hv => ((h.mem_iff v).mp hv).1)).length_le

lemma iterate_queue_or_length (succs : ν → List ν) (arrange : List ν → List ν) (s : State ν)
  (n : ℕ) : ((KahnSort.step succs arrange)^[n] s).queue = [] ∨
    ((KahnSort.step succs arrange)^[n] s).sorted.length = s.sorted.length+n := by
  induction n with
  | zero => exact .inr rfl
  | succ n ih =>
    rw [iterate_succ_apply']
    generalize (KahnSort.step succs arrange)^[n] s = s' at ih ⊢
    rcases hq : s'.queue with - | ⟨cur, rest⟩
    · rw [step_nil hq]
      exact .inl hq
    · rw [step_cons hq]
      right
      have hlen := ih.resolve_left (by simp [hq])
      simp only [length_append, length_singleton, hlen]
      omega

lemma finish_queue (hnodup : nodes.Nodup) (harr : ∀ l, (arrange l).Perm l) :
  (finish nodes succs arrange).queue = [] := by
  have hinv : Invariant nodes succs (finish nodes succs arrange) :=
    invariant_iterate hnodup harr nodes.length
  rcases iterate_queue_or_length succs arrange (init nodes succs arrange) nodes.length with h | h
  · exact h
  · have hle := hinv.length_le
    have hlen : (finish nodes succs arrange).sorted.length = nodes.length := by
      simpa [finish, init] using h
    exact eq_nil_of_length_eq_zero (by omega)

/-- With an empty queue, nodes whose edges all increase a rank have all been emitted:
a missing node of least rank would have no edge left entering it. -/
lemma Invariant.mem_sorted (h : Invariant nodes succs s) (hq : s.queue = [])
  (rank : ν → ℕ) (hrank : ∀ u ∈ nodes, ∀ v ∈ succs u, rank u < rank v)
  (hnodup : nodes.Nodup) : ∀ v ∈ nodes, v ∈ s.sorted := by
  intro v
  induction hn : rank v using Nat.strong_induction_on generalizing v with
  | _ n ih =>
    intro hv
    have hmem := h.mem_iff v
    rw [hq, append_nil] at hmem
    refine hmem.mpr ⟨hv, ?_⟩
    have hdeg := h.deg_add v hv
    -- the edges into `v` all leave emitted nodes
    have hcount : (nodes.flatMap succs).count v ≤ (s.sorted.flatMap succs).count v := by
      have hpart := filter_append_perm (fun u => decide (u ∈ s.sorted)) nodes
      rw [← (hpart.flatMap_right succs).count_eq v, flatMap_append, count_append]
      have hrest :
        ((nodes.filter (fun u => !decide (u ∈ s.sorted))).flatMap succs).count v = 0 := by
        rw [count_eq_zero, mem_flatMap]
        rintro ⟨u, hu, huv⟩
        simp only [mem_filter, Bool.not_eq_true', decide_eq_false_iff_not] at hu
        exact hu.2 (ih (rank u) (by rw [← hn]; exact hrank u hu.1 v huv) u rfl hu.1)
      have hfirst : ((nodes.filter (fun u => decide (u ∈ s.sorted))).flatMap succs).count v ≤
          (s.sorted.flatMap succs).count v :=
        count_flatMap_le (hnodup.filter _) (fun u hu => by simpa using (mem_filter.mp hu).2) v
      omega
    have hsub : (s.sorted.flatMap succs).count v ≤ (nodes.flatMap succs).count v :=
      count_flatMap_le h.nodup.of_append_left
        (fun u hu => ((h.mem_iff u).mp (mem_append_left _ hu)).1) v
    omega

/-- On nodes whose edges increase a rank the sort succeeds, lists every node once and
never puts the target of an edge before its source. -/
lemma sort_spec (hnodup : nodes.Nodup) (harr : ∀ l, (arrange l).Perm l) (rank : ν → ℕ)
  (hrank : ∀ u ∈ nodes, ∀ v ∈ succs u, rank u < rank v) :
  ∃ l, sort nodes succs arrange = some l ∧ l.Perm nodes ∧ l.Pairwise (fun u v => u ∉ succs v) := by
  have hinv : Invariant nodes succs (finish nodes succs arrange) :=
    invariant_iterate hnodup harr nodes.length
  have hq : (finish nodes succs arrange).queue = [] := finish_queue hnodup harr
  have hperm : (finish nodes succs arrange).sorted.Perm nodes := by
    refine (perm_ext_iff_of_nodup hinv.nodup.of_append_left hnodup).mpr (fun v => ?_)
    refine ⟨fun hv => ((hinv.mem_iff v).mp (mem_append_left _ hv)).1, fun hv => ?_⟩
    exact hinv.mem_sorted hq rank hrank hnodup v hv
  exact ⟨_, by simp [sort, hperm.length_eq], hperm, hinv.ordered⟩

end KahnSort
