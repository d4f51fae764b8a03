import Mathlib.Data.List.Dedup
import Mathlib.Data.List.Perm.Lattice
import Mathlib.Data.List.Sort

/-! # Splitting a list by a key

A list is taken apart into the sublists of its elements with one key. Over all keys that occur,
each once, the sublists together have the elements of the list. -/
namespace KeyGroups

open List

variable {α κ : Type} [DecidableEq κ]

def withKey (key : α → κ) (l : List α) (k : κ) : List α := l.filter (fun a => key a = k)

variable {key : α → κ} {l : List α} {k : κ} {a : α}

@[simp] lemma mem_withKey : a ∈ withKey key l k ↔ a ∈ l ∧ key a = k := by
  simp [withKey]

lemma withKey_filter_ne {k' : κ} (h : k' ≠ k) :
  withKey key (l.filter (fun a => key a ≠ k)) k' = withKey key l k' := by
  rw [withKey, withKey, filter_filter]
  refine filter_congr (fun a _ => ?_)
  by_cases ha : key a = k'
  · simp [ha, h]
  · simp [ha]

variable {ks : List κ}

lemma perm_flatMap_withKey (hks : ks.Nodup) (hall : ∀ a ∈ l, key a ∈ ks) :
  (ks.flatMap (withKey key l)).Perm l := by
  induction ks generalizing l with
  | nil =>
    have hnil : l = [] := eq_nil_iff_forall_not_mem.mpr (fun a ha => by simpa using hall a ha)
    simp [hnil]
  | cons k ks ih =>
    obtain ⟨hk, hks⟩ := nodup_cons.mp hks
    rw [flatMap_cons]
    -- the other groups are groups of the elements with another key
    have hrest :
      ks.flatMap (withKey key l) = ks.flatMap (withKey key (l.filter (fun a => key a ≠ k))) := by
      refine flatMap_congr (fun k' hk' => ?_)
      rw [withKey_filter_ne]
      rintro rfl
      exact hk hk'
    have hother : ∀ a ∈ l.filter (fun a => key a ≠ k), key a ∈ ks := by
      intro a ha
      obtain ⟨hmem, hne⟩ := mem_filter.mp ha
      exact (mem_cons.mp (hall a hmem)).resolve_left (by simpa using hne)
    rw [hrest]
    refine ((ih hks hother).append_left _).trans ?_
    have hsplit := filter_append_perm (fun a => decide (key a = k)) l
    simpa [withKey] using hsplit

variable {prev rest : List α}

variable [LinearOrder κ] {k : κ}

lemma eq_withKey_append (hsorted : l.Pairwise (fun a b => key a ≤ key b))
  (hleast : ∀ a ∈ l, k ≤ key a) : l = withKey key l k ++ l.filter (fun a => key a ≠ k) := by
  induction l with
  | nil => rfl
  | cons a l ih =>
    obtain ⟨ha, hl⟩ := pairwise_cons.mp hsorted
    by_cases hk : key a = k
    · have hrest := ih hl (fun b hb => hleast b (mem_cons_of_mem _ hb))
      simpa [withKey, hk] using hrest
    · -- from here on no element has the key
      have hne : ∀ b ∈ a::l, key b ≠ k := by
        intro b hb hbk
        have hlt : k < key a := lt_of_le_of_ne (hleast a mem_cons_self) (Ne.symm hk)
        rcases mem_cons.mp hb with rfl | hb
        · exact hk hbk
        · exact absurd (ha b hb) (by rw [hbk]; exact not_le.mpr hlt)
      have hnone : withKey key (a::l) k = [] :=
        filter_eq_nil_iff.mpr (fun b hb => by simpa using hne b hb)
      have hall : (a::l).filter (fun b => key b ≠ k) = a::l :=
        filter_eq_self.mpr (fun b hb => by simpa using hne b hb)
      rw [hnone, hall, nil_append]

lemma eq_flatMap_withKey (hsorted : l.Pairwise (fun a b => key a ≤ key b))
  (hks : ks.Pairwise (· < ·)) (hall : ∀ a ∈ l, key a ∈ ks) : l = ks.flatMap (withKey key l) := by
  induction ks generalizing l with
  | nil => exact eq_nil_iff_forall_not_mem.mpr (fun a ha => by simpa using hall a ha)
  | cons k ks ih =>
    obtain ⟨hk, hks⟩ := pairwise_cons.mp hks
    have hleast : ∀ a ∈ l, k ≤ key a := by
      intro a ha
      rcases mem_cons.mp (hall a ha) with h | h
      · exact h.ge
      · exact (hk _ h).le
    have hrest := ih (hsorted.filter (fun a => decide (key a ≠ k))) hks (fun a ha => by
      obtain ⟨hmem, hne⟩ := mem_filter.mp ha
      exact (mem_cons.mp (hall a hmem)).resolve_left (by simpa using hne))
    rw [flatMap_cons]
    refine (eq_withKey_append hsorted hleast).trans (congrArg _ (hrest.trans ?_))
    refine flatMap_congr (fun k' hk' => withKey_filter_ne ?_)
    exact (hk k' hk').ne'

variable {ι γ : Type} [DecidableEq ι] {part : α → ι}

def sortedKeys (key : α → κ) (l : List α) : List κ := ((l.map key).dedup).insertionSort (· ≤ ·)

lemma mem_sortedKeys : k ∈ sortedKeys key l ↔ ∃ a ∈ l, key a = k := by
  simp [sortedKeys]

lemma sortedKeys_strict (key : α → κ) (l : List α) : (sortedKeys key l).Pairwise (· < ·) := by
  have hle : (sortedKeys key l).Pairwise (· ≤ ·) := pairwise_insertionSort _ _
  have hne : (sortedKeys key l).Nodup :=
    (perm_insertionSort _ _).nodup_iff.mpr (nodup_dedup _)
  exact (hle.and hne).imp (fun h => lt_of_le_of_ne h.1 h.2)

lemma sortedKeys_perm {l' : List α} (h : l.Perm l') : sortedKeys key l = sortedKeys key l' := by
  refine Perm.eq_of_pairwise (fun a b _ _ hab hba => absurd hab hba.asymm)
    (sortedKeys_strict key l) (sortedKeys_strict key l') ?_
  refine (perm_insertionSort _ _).trans (Perm.trans ?_ (perm_insertionSort _ _).symm)
  exact (h.map key).dedup

end KeyGroups
