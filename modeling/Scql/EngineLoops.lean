import Mathlib.Algebra.Ring.Nat
import Scql.FallibleRules

/-! # Numbers of the engine that are kept in an `int`

A loop `for (int k = 0; k < bound; k++)` over a 64-bit bound ends only if an `int` can reach the
bound, and neither the conversion of a `double` to a type that cannot hold it nor the shift of a
bit out of an `int` is defined. -/
namespace Scql.EngineLoops

inductive Failure
  | refused (reason : String)
  /-- The counter of a loop overflows before it reaches the bound. -/
  | diverges
  /-- A number is converted to a type that cannot hold it, shifted out of an `int` or added to
  another beyond its type, or a library is called outside of what it promises. -/
  | undefined
  deriving DecidableEq

def intBound : ℕ := 2^31

/-- The rounds of `for (int k = 0; k < bound; k++)`. -/
def intLoop (bound : ℕ) : Except Failure (List ℕ) :=
  if bound < intBound then .ok (List.range bound) else .error .diverges

lemma intLoop_eq_ok {bound : ℕ} {rounds : List ℕ} :
  intLoop bound = .ok rounds ↔ bound < intBound ∧ List.range bound = rounds := by
  rw [intLoop]
  split
  · next h => simp [h]
  · next h => simp [h]

end Scql.EngineLoops
