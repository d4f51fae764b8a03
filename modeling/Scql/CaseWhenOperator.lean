import Mathlib.Algebra.Ring.Int.Defs
import Mathlib.Data.Fin.VecNotation
import Mathlib.Data.List.GetD
import Mathlib.Data.List.Induction
import Scql.OperatorRegistry

/-! # CASE WHEN on private and on shared columns

In the clear every row takes the value of its first branch with a true condition. On shares this
choice must not show: the conditions are turned into selectors, one for every branch and one for
the else value, of which exactly one is true in every row, and the result is the sum of all values
times their selectors. -/
namespace Scql.CaseWhenOperator

open OperatorRegistry List

/-- A column of `n` rows without nulls. -/
abbrev Col (n : ℕ) (α : Type) := Fin n → α

/-- A condition column; of an integer, every value but zero is true. -/
inductive Cond (n : ℕ)
  | bool (rows : Col n Bool)
  | int (rows : Col n ℤ)

variable {n : ℕ} {α R : Type}

def Cond.notEqualZero : Cond n → Col n Bool
  | .bool rows => rows
  | .int rows => fun r => rows r != 0

/-- What `Validate` lets through: there is a condition, and as many values as conditions. -/
structure Inputs (n : ℕ) (α : Type) where
  conds : List (Cond n)
  values : List (Col n α)
  valueElse : Col n α
  conds_ne_nil : conds ≠ []
  length_eq : conds.length = values.length

/-- Arrow's `case_when` in one row. -/
def caseWhenRow : List Bool → List α → α → α
  | c::cs, v::vs, e => if c then v else caseWhenRow cs vs e
  | _, _, e => e

def caseWhenPrivate (inputs : Inputs n α) : Col n α := fun r =>
  caseWhenRow (inputs.conds.map (fun c => c.notEqualZero r)) (inputs.values.map (fun v => v r))
    (inputs.valueElse r)

section Share

def orLoop : Option (Col n Bool) → List (Col n Bool) → List (Col n Bool)
  | _, [] => []
  | none, condCur::conds => condCur::orLoop (some condCur) conds
  | some condPre, condCur::conds =>
    let condCur := fun r => condCur r || condPre r
    condCur::orLoop (some condCur) conds

/-- The second loop, in place and from the end: `result[i]` is changed while `result[i - 1]` still
has its old value. -/
def xorLoop : ℕ → List (Col n Bool) → List (Col n Bool)
  | 0, result => result
  | i+1, result =>
    let zero := fun _ => false
    xorLoop i (result.set (i+1) (fun r => (result.getD (i+1) zero r) ^^ (result.getD i zero r)))

def transformConditionData (conds : List (Cond n)) : List (Col n Bool) :=
  let result := orLoop none (conds.map Cond.notEqualZero)
  let result := result ++ [fun _ => true]
  xorLoop (result.length-1) result

variable [NonAssocSemiring R]

def mul (selector : Col n Bool) (value : Col n R) : Col n R := fun r =>
  (if selector r then 1 else 0)*value r

def add (lhs rhs : Col n R) : Col n R := fun r => lhs r+rhs r

def caseWhenShare (inputs : Inputs n R) : Col n R :=
  let conds := transformConditionData inputs.conds
  let resultValue := (conds.zip inputs.values).foldl
    (fun resultValue branch => add resultValue (mul branch.1 branch.2)) (fun _ => 0)
  add resultValue (mul (conds.getLastD (fun _ => false)) inputs.valueElse)

def execute (outStatus : TensorStatus) (inputs : Inputs n R) : Col n R :=
  if outStatus = .PRIVATE then caseWhenPrivate inputs else caseWhenShare inputs

end Share

/-- Every column xor the one before, the first one xor `pre`. -/
def diffs : Col n Bool → List (Col n Bool) → List (Col n Bool)
  | _, [] => []
  | pre, c::cs => (fun r => c r ^^ pre r)::diffs c cs

lemma diffs_append (pre : Col n Bool) (cs : List (Col n Bool)) (c : Col n Bool) :
  diffs pre (cs ++ [c]) = diffs pre cs ++ [fun r => c r ^^ (cs.getLastD pre) r] := by
  induction cs generalizing pre with
  | nil => rfl
  | cons c' cs ih =>
    rw [cons_append, diffs, ih, diffs, cons_append, getLastD_cons]

/-- The second loop leaves the first column and takes the differences of the others; columns
behind the start of the loop stay. -/
lemma xorLoop_eq (a : Col n Bool) (cs done : List (Col n Bool)) :
  xorLoop cs.length (a::cs ++ done) = a::diffs a cs ++ done := by
  -- from the end: the last column is changed first
  induction cs using reverseRecOn generalizing done with
  | nil => rfl
  | append_singleton cs c ih =>
    have hlast : (a::cs).length = cs.length+1 := rfl
    have hcur : ((a::cs) ++ (c::done)).getD (cs.length+1) (fun _ => false) = c := by
      rw [getD_append_right _ _ _ _ (Nat.le_of_eq hlast), hlast, Nat.sub_self, getD_cons_zero]
    have hpre : ((a::cs) ++ (c::done)).getD cs.length (fun _ => false) = cs.getLastD a := by
      rw [getD_append _ _ _ _ (by simp)]
      cases cs using reverseRecOn with
      | nil => rfl
      | append_singleton cs c' => simp
    rw [length_append, length_singleton, xorLoop]
    have hshape : a::(cs ++ [c]) ++ done = (a::cs) ++ (c::done) := by simp
    rw [hshape, hcur, hpre, set_append_right _ _ (Nat.le_of_eq hlast), hlast, Nat.sub_self,
      set_cons_zero, ih, diffs_append]
    simp

/-- The selectors of one row: `pre` tells whether a branch before has been taken. -/
def selectors : Bool → List Bool → List Bool
  | pre, [] => [true ^^ pre]
  | pre, c::cs => ((c || pre) ^^ pre)::selectors (c || pre) cs

lemma diffs_orLoop (pre : Col n Bool) (conds : List (Col n Bool)) (r : Fin n) :
  (diffs pre (orLoop (some pre) conds ++ [fun _ => true])).map (fun c => c r)
    = selectors (pre r) (conds.map (fun c => c r)) := by
  induction conds generalizing pre with
  | nil => rfl
  | cons c conds ih =>
    rw [orLoop, cons_append, diffs, map_cons, ih]
    rfl

lemma transformConditionData_row {conds : List (Cond n)} (hne : conds ≠ []) (r : Fin n) :
  (transformConditionData conds).map (fun c => c r)
    = selectors false (conds.map (fun c => c.notEqualZero r)) := by
  obtain ⟨c, cs, rfl⟩ := exists_cons_of_ne_nil hne
  rw [transformConditionData, map_cons, orLoop]
  have hloop := xorLoop_eq c.notEqualZero
    (orLoop (some c.notEqualZero) (cs.map Cond.notEqualZero) ++ [fun _ => true]) []
  simp only [append_nil] at hloop
  simp only [cons_append, length_cons, Nat.add_sub_cancel, hloop, map_cons]
  rw [diffs_orLoop, selectors, map_map]
  simp [Function.comp_def]

section FirstTrue

lemma selectors_ne_nil (pre : Bool) (cs : List Bool) : selectors pre cs ≠ [] := by
  cases cs <;> simp [selectors]

variable [NonAssocSemiring R]

def selectedSum (sels : List Bool) (vs : List R) (e : R) : R :=
  ((sels.zip vs).map (fun p => (if p.1 then 1 else 0)*p.2)).sum
    + (if sels.getLastD false then 1 else 0)*e

/-- Once a branch has been taken nothing is added; before that, the first true branch is. -/
lemma selectedSum_selectors (pre : Bool) (cs : List Bool) (vs : List R) (e : R)
    (hlen : cs.length = vs.length) :
  selectedSum (selectors pre cs) vs e = if pre then 0 else caseWhenRow cs vs e := by
  induction cs generalizing pre vs with
  | nil =>
    obtain rfl := eq_nil_of_length_eq_zero hlen.symm
    cases pre <;> simp [selectedSum, selectors, caseWhenRow]
  | cons c cs ih =>
    cases vs with
    | nil => simp at hlen
    | cons v vs =>
      have hlast : (selectors pre (c::cs)).getLastD false
          = (selectors (c || pre) cs).getLastD false := by
        rw [selectors, getLastD_cons]
        obtain ⟨s, ss, hs⟩ := exists_cons_of_ne_nil (selectors_ne_nil (c || pre) cs)
        rw [hs, getLastD_cons, getLastD_cons]
      have hsum : selectedSum (selectors pre (c::cs)) (v::vs) e
          = (if ((c || pre) ^^ pre) then 1 else 0)*v
            + selectedSum (selectors (c || pre) cs) vs e := by
        rw [selectedSum, selectedSum, hlast, selectors, zip_cons_cons, map_cons, sum_cons,
          add_assoc]
      rw [hsum, ih _ _ (by simpa using hlen), caseWhenRow]
      cases c <;> cases pre <;> simp

lemma foldl_add_row (branches : List (Col n Bool × Col n R)) (init : Col n R) (r : Fin n) :
  branches.foldl (fun resultValue branch => add resultValue (mul branch.1 branch.2)) init r
    = init r+(branches.map (fun b => (if b.1 r then 1 else 0)*b.2 r)).sum := by
  induction branches generalizing init with
  | nil => simp
  | cons b branches ih =>
    rw [foldl_cons, ih, map_cons, sum_cons, ← add_assoc]
    rfl

lemma caseWhenShare_eq (inputs : Inputs n R) : caseWhenShare inputs = caseWhenPrivate inputs := by
  funext r
  have hrow := transformConditionData_row inputs.conds_ne_nil r
  have hlen : (inputs.conds.map (fun c => c.notEqualZero r)).length
      = (inputs.values.map (fun v => v r)).length := by
    simp [inputs.length_eq]
  have hsum := selectedSum_selectors false _ _ (inputs.valueElse r) hlen
  have hlast : ((transformConditionData inputs.conds).map (fun c => c r)).getLastD false
      = (transformConditionData inputs.conds).getLastD (fun _ => false) r := by
    rw [getLastD_eq_getLast?, getLastD_eq_getLast?, getLast?_map]
    cases (transformConditionData inputs.conds).getLast? <;> rfl
  rw [← hrow, selectedSum, hlast, zip_map, map_map] at hsum
  rw [caseWhenShare, add, foldl_add_row, zero_add, mul]
  exact hsum

end FirstTrue

def Cond.Holds : Cond n → Fin n → Prop
  | .bool rows, r => rows r = true
  | .int rows, r => rows r ≠ 0

lemma notEqualZero_iff (c : Cond n) (r : Fin n) : c.notEqualZero r = true ↔ c.Holds r := by
  cases c <;> simp [Cond.notEqualZero, Cond.Holds]

variable {cs : List Bool} {vs : List α} {e : α}

lemma caseWhenRow_first {v : α} {i : ℕ} (hi : cs[i]? = some true)
  (hv : vs[i]? = some v) (hbefore : ∀ j < i, cs[j]? = some false) : caseWhenRow cs vs e = v := by
  induction cs generalizing vs i with
  | nil => simp at hi
  | cons c cs ih =>
    cases vs with
    | nil => simp at hv
    | cons v' vs =>
      rw [caseWhenRow]
      cases i with
      | zero =>
        obtain rfl : c = true := by simpa using hi
        exact Option.some.inj hv
      | succ i =>
        obtain rfl : c = false := by simpa using hbefore 0 (by simp)
        exact ih hi hv fun j hj => hbefore (j+1) (by simpa using hj)

lemma caseWhenRow_else (h : ∀ c ∈ cs, c = false) : caseWhenRow cs vs e = e := by
  induction cs generalizing vs with
  | nil => rfl
  | cons c cs ih =>
    cases vs with
    | nil => rfl
    | cons v vs =>
      rw [caseWhenRow, h c mem_cons_self, if_neg (by simp)]
      exact ih fun c' hc' => h c' (mem_cons_of_mem _ hc')

/-- Every row has the value of the first branch whose condition is true, or the else value if none
is. -/
def TakesFirstTrue (inputs : Inputs n α) (result : Col n α) : Prop :=
  ∀ r : Fin n,
    (∀ (i : ℕ) (c : Cond n) (v : Col n α), inputs.conds[i]? = some c → inputs.values[i]? = some v →
      c.Holds r → (∀ j < i, ∀ c' : Cond n, inputs.conds[j]? = some c' → ¬c'.Holds r) →
      result r = v r) ∧
    ((∀ c ∈ inputs.conds, ¬c.Holds r) → result r = inputs.valueElse r)

lemma caseWhenPrivate_first_true (inputs : Inputs n α) :
    TakesFirstTrue inputs (caseWhenPrivate inputs) := by
  intro r
  have hfalse : ∀ c : Cond n, ¬c.Holds r → c.notEqualZero r = false :=
    fun c hc => Bool.eq_false_iff.mpr (fun h => hc ((notEqualZero_iff c r).mp h))
  rw [caseWhenPrivate]
  constructor
  · intro i c v hc hv htrue hbefore
    refine caseWhenRow_first (i := i) ?_ ?_ (fun j hj => ?_)
    · rw [getElem?_map, hc, Option.map_some, (notEqualZero_iff c r).mpr htrue]
    · rw [getElem?_map, hv, Option.map_some]
    · have hlt : j < inputs.conds.length := by
        obtain ⟨hi, -⟩ := List.getElem?_eq_some_iff.mp hc
        omega
      have hj' := getElem?_eq_getElem hlt
      rw [getElem?_map, hj', Option.map_some, hfalse _ (hbefore j hj _ hj')]
  · intro hnone
    refine caseWhenRow_else (fun c hc => ?_)
    obtain ⟨cond, hcond, rfl⟩ := mem_map.mp hc
    exact hfalse cond (hnone cond hcond)

/-- On shares as in the clear, there for values of any type. -/
theorem execute_first_true [NonAssocSemiring R] (outStatus : TensorStatus) (inputs : Inputs n R)
    (plain : Inputs n α) : TakesFirstTrue inputs (execute outStatus inputs) ∧
      TakesFirstTrue plain (caseWhenPrivate plain) := by
  refine ⟨?_, caseWhenPrivate_first_true plain⟩
  rw [execute, caseWhenShare_eq, ite_self]
  exact caseWhenPrivate_first_true inputs

/-- Two branches: in the first row both conditions are true, in the second the last one, in the
third none. -/
def twoBranches : Inputs 3 ℤ where
  conds := [.bool ![true, false, false], .int ![-1, 2, 0]]
  values := [![10, 11, 12], ![20, 21, 22]]
  valueElse := ![30, 31, 32]
  conds_ne_nil := by simp
  length_eq := rfl

example : List.ofFn (execute .SECRET twoBranches) = [10, 21, 32] := by decide

end Scql.CaseWhenOperator
