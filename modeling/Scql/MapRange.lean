import Mathlib.Data.List.Sort
import Mathlib.Data.List.Destutter

/-! # Ranging over maps in an unspecified order

A loop over the entries of a hash map visits each entry once, in an order the language
leaves open and that may change from one loop to the next. The order is a parameter
here, so that a result stated for every `RangeOrder` holds for every run. -/
namespace MapRange

open List

/-- The visiting order of every map loop of a run: `range i j` is the order of the
`j`-th execution of the `i`-th loop. -/
structure RangeOrder where
  range : {α : Type} → ℕ → ℕ → List α → List α
  perm : ∀ {α : Type} (i j : ℕ) (l : List α), (range i j l).Perm l

def RangeOrder.inserted : RangeOrder where
  range _ _ l := l
  perm _ _ _ := Perm.refl _

def RangeOrder.reversed : RangeOrder where
  range _ _ l := l.reverse
  perm _ _ l := reverse_perm l

variable {α : Type} (o : RangeOrder) (i j : ℕ)

@[simp] lemma RangeOrder.mem_range {l : List α} {a : α} : a ∈ o.range i j l ↔ a ∈ l :=
  (o.perm i j l).mem_iff

@[simp] lemma RangeOrder.nodup_range {l : List α} : (o.range i j l).Nodup ↔ l.Nodup :=
  (o.perm i j l).nodup_iff

/-- Sort, then drop each element equal to the one before it. -/
def sliceDeDup {β : Type} [LinearOrder β] (s : List β) : List β :=
  (s.insertionSort (· ≤ ·)).destutter (· ≠ ·)

lemma mem_destutter_ne {β : Type} [DecidableEq β] (l : List β) (a : β) : a ∈ l.destutter (· ≠ ·) ↔
    a ∈ l := by
  refine ⟨fun h => (destutter_sublist _ l).subset h, ?_⟩
  cases l with
  | nil => simp
  | cons b l =>
    rw [destutter_cons']
    induction l generalizing b with
    | nil => simp
    | cons c l ih =>
      rw [destutter'_cons]
      intro ha
      split
      · rcases mem_cons.mp ha with rfl | ha
        · exact mem_cons_self
        · exact mem_cons_of_mem _ (ih c ha)
      · rename_i hbc
        obtain rfl := not_not.mp hbc
        exact ih b (by simpa using ha)

@[simp] lemma mem_sliceDeDup {β : Type} [LinearOrder β] {s : List β} {a : β} :
    a ∈ sliceDeDup s ↔ a ∈ s := by
  rw [sliceDeDup, mem_destutter_ne, mem_insertionSort]

lemma nodup_sliceDeDup {β : Type} [LinearOrder β] (s : List β) : (sliceDeDup s).Nodup := by
  rw [sliceDeDup, (pairwise_insertionSort (· ≤ ·) s).destutter_eq_dedup]
  exact nodup_dedup _

end MapRange
