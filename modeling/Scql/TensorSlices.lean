import Mathlib.Data.List.DropRight

/-! # Tensors in slices

A tensor of the engine is in memory or in files on disk; the bucket operator leaves one file per
bucket. A slicer hands out the files of a bucketed tensor one after another, and any other tensor
as a whole. -/
namespace Scql.TensorSlices

open List

universe u
variable {α : Type u}

/-- `MemTensor`, `DiskTensor`, and `DiskTensor` with `is_bucket_tensor_` set. A bucketed tensor has
a file: its constructor takes the schema from the first writer. -/
inductive Tensor (α : Type u)
  | mem (rows : List α)
  | disk (files : List (List α))
  | bucket (files : List (List α)) (nonempty : files ≠ [])

namespace Tensor

def rows : Tensor α → List α
  | mem rows => rows
  | disk files => files.flatten
  | bucket files _ => files.flatten

def slices : Tensor α → List (List α)
  | mem rows => [rows]
  | disk files => [files.flatten]
  | bucket files _ => files

lemma flatten_slices (t : Tensor α) : t.slices.flatten = t.rows := by
  cases t <;> simp [slices, rows]

end Tensor

/-- `MemTensorSlice` and `DiskTensorSlice`. -/
structure TensorSlice (α : Type u) where
  tensor : Tensor α
  curSliceIdx : ℕ := 0

def createTensorSlice (t : Tensor α) : TensorSlice α := ⟨t, 0⟩

namespace TensorSlice

def getSliceNum (s : TensorSlice α) : ℕ :=
  match s.tensor with
  | .bucket files _ => files.length
  | _ => 1

/-- The next slice, which is empty once there are none left. A tensor without buckets is read in one
batch of at most `2^63 - 1` rows, which is all of it. -/
def next (s : TensorSlice α) : Tensor α × TensorSlice α :=
  match s.tensor with
  | .bucket files _ =>
    match files[s.curSliceIdx]? with
    | none => (.mem [], s)
    | some file => (.disk [file], { s with curSliceIdx := s.curSliceIdx + 1 })
  | t =>
    if s.curSliceIdx = 0 then (.mem t.rows, { s with curSliceIdx := 1 }) else (.mem [], s)

def after : ℕ → TensorSlice α → TensorSlice α
  | 0, s => s
  | n+1, s => (after n s).next.2

end TensorSlice

lemma getSliceNum_createTensorSlice (t : Tensor α) :
  (createTensorSlice t).getSliceNum = t.slices.length := by
  cases t <;> rfl

lemma slices_length_pos (t : Tensor α) : 0 < t.slices.length := by
  cases t with
  | mem rows | disk files => exact Nat.one_pos
  | bucket files h => exact length_pos_iff.mpr h

lemma exists_bucket {t : Tensor α} (h : t.slices.length ≠ 1) :
  ∃ files hne, t = .bucket files hne := by
  cases t with
  | mem rows | disk files => exact absurd rfl h
  | bucket files hne => exact ⟨files, hne, rfl⟩

lemma after_bucket {files : List (List α)} (hne : files ≠ []) (n : ℕ) :
  (createTensorSlice (.bucket files hne)).after n =
    {createTensorSlice (.bucket files hne) with curSliceIdx := min n files.length} := by
  induction n with
  | zero => simp [TensorSlice.after, createTensorSlice]
  | succ n ih =>
    rw [TensorSlice.after, ih, TensorSlice.next]
    simp only [createTensorSlice]
    by_cases hn : n < files.length
    · rw [min_eq_left hn.le, getElem?_eq_getElem hn, min_eq_left hn]
    · rw [min_eq_right (not_lt.mp hn), getElem?_eq_none le_rfl,
        min_eq_right (by omega : files.length ≤ n+1)]

lemma rows_next_after {t : Tensor α} (h : t.slices.length ≠ 1) (n : ℕ) :
  ((createTensorSlice t).after n).next.1.rows = t.slices.getD n [] := by
  obtain ⟨files, hne, rfl⟩ := exists_bucket h
  rw [after_bucket, TensorSlice.next]
  simp only [createTensorSlice, Tensor.slices]
  by_cases hn : n < files.length
  · simp [min_eq_left hn.le, getElem?_eq_getElem hn, Tensor.rows]
  · simp [min_eq_right (not_lt.mp hn), Tensor.rows, getElem?_eq_none (not_lt.mp hn)]

end Scql.TensorSlices
