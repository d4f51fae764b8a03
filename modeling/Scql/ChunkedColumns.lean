import Mathlib.Data.List.Basic
import Mathlib.Tactic.Ring

/-! # Columns in chunks

A column stored as a list of chunks stands for the concatenation of its chunks; a chunk may be
empty, and so may the list. The operations work chunk by chunk, the lemmas say what they do to
the column. -/
namespace ChunkedColumns

open List

variable {α : Type}

def length (chunks : List (List α)) : ℕ := (chunks.map List.length).sum

lemma length_eq_flatten (chunks : List (List α)) : length chunks = chunks.flatten.length := by
  rw [length, List.length_flatten]

/-- `len` rows from `offset` on: whole chunks in front are skipped, and the walk stops as soon as
nothing is left to take. -/
def slice : List (List α) → ℕ → ℕ → List (List α)
  | [], _, _ => []
  | c::cs, offset, len =>
    if c.length ≤ offset then slice cs (offset-c.length) len
    else if len = 0 then []
    else (c.drop offset).take len::slice cs 0 (len-(c.length-offset))

lemma flatten_slice (chunks : List (List α)) (offset len : ℕ) :
  (slice chunks offset len).flatten = (chunks.flatten.drop offset).take len := by
  induction chunks generalizing offset len with
  | nil => simp [slice]
  | cons c cs ih =>
    rw [slice, flatten_cons, drop_append]
    split
    · next hc => rw [ih, drop_eq_nil_of_le hc, nil_append]
    · next hc =>
      have hoff : offset-c.length = 0 := by omega
      rw [hoff, drop_zero]
      split
      · next hlen => simp [hlen]
      · rw [flatten_cons, ih, drop_zero, take_append, length_drop]

def repeatChunks (n : ℕ) (chunks : List (List α)) : List (List α) :=
  (replicate n chunks).flatten

def repeatEach (n : ℕ) (rows : List α) : List α := rows.flatMap (replicate n)

lemma flatten_repeatChunks (n : ℕ) (chunks : List (List α)) :
  (repeatChunks n chunks).flatten = (replicate n chunks.flatten).flatten := by
  induction n with
  | zero => rfl
  | succ n ih =>
    rw [repeatChunks, replicate_succ, flatten_cons, flatten_append,
      replicate_succ, flatten_cons, ← ih, repeatChunks]

end ChunkedColumns
