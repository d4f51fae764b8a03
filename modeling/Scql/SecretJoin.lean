import Mathlib.Algebra.Group.Prod
import Mathlib.Algebra.Module.Basic
import Mathlib.Algebra.Order.Ring.Int
import Mathlib.Data.List.Lex
import Mathlib.Data.List.Perm.Basic
import Scql.PrefixScan

/-! # The secret join operator

The join of two secret tables without revealing which rows match: the tables are merged and
sorted by key, the rows of every key are counted, each row is sent to the end of the block it
fills in the result, copied over its block, and the right side is finally rearranged so that the
copies of one key pair up. Only the sizes of the result are revealed.

Secret values are integers, the columns of a payload are added and scaled together. -/
namespace Scql.SecretJoin

open PrefixScan

variable {V : Type} [AddCommGroup V]

/-- Combine counts; `1` in the mask keeps what was counted before. -/
def addWithin (lhs rhs : ℤ × ℤ) : ℤ × ℤ := (lhs.1+lhs.2*rhs.1, lhs.2*rhs.2)

/-- Combine values; `1` in the mask takes the value before. -/
def copyWithin (lhs rhs : V × ℤ) : V × ℤ := (lhs.1+lhs.2 • (rhs.1-lhs.1), lhs.2*rhs.2)

def cells (values : List V) (mask : List ℤ) (j : ℕ) : V × ℤ := (values.getD j 0, mask.getD j 0)

/-- `ScanParallel` computes `(1 << i) - 1` for every round `i` up to the bit width of `n - 1`, which
is undefined in `int` from `i = 31` on. -/
def scan (op : V × ℤ → V × ℤ → V × ℤ) (values : List V) (mask : List ℤ) : Option (List V) :=
  if (values.length-1).size < 31 then
    some ((List.range values.length).map (fun j =>
      (scanParallel op values.length (cells values mask) j).1))
  else none

def expandGroupValueReversely (values : List V) (mark : List ℤ) : Option (List V) := do
  let scanned ← scan copyWithin values.reverse mark.reverse
  return scanned.reverse

/-- `InvPermute`: the value of every place goes to where the permutation says. -/
def invPermute (perm : List ℤ) (values : List V) : Option (List V) :=
  if perm.Perm ((List.range values.length).map Int.ofNat) then
    some ((List.range values.length).map (fun x => values.getD (perm.idxOf (Int.ofNat x)) 0))
  else none

/-- `FillDummyValue` with the mark of dummies appended as a column. -/
def fillDummy (values : List V) (size : ℕ) : List (V × ℤ) :=
  values.map (fun v => (v, 0)) ++ List.replicate (size-values.length) (0, 1)

abbrev Key (nk : ℕ) := {columns : List ℤ // columns.length = nk}

variable {nk : ℕ} {P Q : Type} [AddCommGroup P] [AddCommGroup Q]

/-- A row of the merged table; the left rows are marked `0`, the right ones `1`. -/
structure Row (nk : ℕ) (P Q : Type) where
  key : Key nk
  mark : ℤ
  left : P
  right : Q

def mergeInputs (left : List (Key nk × P)) (right : List (Key nk × Q)) : List (Row nk P Q) :=
  left.map (fun r => ⟨r.1, 0, r.2, 0⟩) ++ right.map (fun r => ⟨r.1, 1, 0, r.2⟩)

/-- Rows are sorted by the key columns, then by the mark. -/
def rowLE (a b : Row nk P Q) : Bool := a.key < b.key ∨ (a.key = b.key ∧ a.mark ≤ b.mark)

def keyEqual (a b : Key nk) : Bool := (List.range nk).all (fun c => a.1.getD c 0 == b.1.getD c 0)

def keyEqualNext (keys : List (Key nk)) : List ℤ :=
  List.zipWith (fun a b => if keyEqual a b then 1 else 0) keys keys.tail

/-- `CountKeyGroup`: left count, right count and running right count of every row. -/
def countKeyGroup (keys : List (Key nk)) (marks : List ℤ) :
    Option (List ℤ × List ℤ × List ℤ) := do
  let keyGroupMark := 0::keyEqualNext keys
  let shiftedMark := keyEqualNext keys ++ [0]
  let tmpRightCount ← scan addWithin marks keyGroupMark
  let tmpLeftCount ← scan addWithin (marks.map (fun mark => 1-mark)) keyGroupMark
  let leftCount ← expandGroupValueReversely tmpLeftCount shiftedMark
  let rightCount ← expandGroupValueReversely tmpRightCount shiftedMark
  return (leftCount, rightCount, tmpRightCount)

structure Counted (P Q : Type) where
  mark : ℤ
  leftCount : ℤ
  rightCount : ℤ
  tmpRightCount : ℤ
  left : P
  right : Q

def attachCounts (rows : List (Row nk P Q)) (counts : List ℤ × List ℤ × List ℤ) :
    List (Counted P Q) :=
  (rows.zip (counts.1.zip (counts.2.1.zip counts.2.2))).map (fun (r, l, c, t) =>
    ⟨r.mark, l, c, t, r.left, r.right⟩)

def Counted.resultMark (r : Counted P Q) : ℤ := if r.leftCount*r.rightCount > 0 then 1 else 0

def separate (left : List (Key nk × P)) (right : List (Key nk × Q)) :
  Option (List (Counted P Q)) := do
  let sorted := (mergeInputs left right).mergeSort rowLE
  let counts ← countKeyGroup (sorted.map (·.key)) (sorted.map (·.mark))
  return (attachCounts sorted counts).mergeSort (fun a b => a.mark ≤ b.mark)

def runningSums : ℤ → List ℤ → List ℤ
  | _, [] => []
  | c, x::xs => (c+x)::runningSums (c+x) xs

/-- `CountPosition`: the places of the rows, and an upper bound of the size of the result. -/
def countPosition (count mark : List ℤ) : List ℤ × ℤ :=
  let tmpA := runningSums 0 count
  let tmpB := runningSums count.sum (mark.map (fun m => 1-m))
  (List.zipWith3 (fun m a b => m*(a-b)+b-1) mark tmpA tmpB,
    count.sum+(mark.map (fun m => 1-m)).sum)

def suffixSums : List ℤ → List ℤ
  | [] => []
  | x::xs => (x+(suffixSums xs).headD 0)::suffixSums xs

/-- What the protocol relies on: a keyed function that tells values apart, and a shuffle. -/
structure Spu (T : Type) where
  soPrf : ℤ → T
  injective : Function.Injective soPrf
  shuffle : List ℤ → List ℤ
  perm : ∀ xs, (shuffle xs).Perm xs

/-- `BuildPerm`: the given places, then the other places in shuffled order. -/
def buildPerm {T : Type} [DecidableEq T] (spu : Spu T) (p pi : List ℤ) : Option (List ℤ) :=
  let pSet := p.map spu.soPrf
  let others := pi.filter (fun x => spu.soPrf x ∉ pSet)
  if pSet.Nodup ∧ others.length+p.length = pi.length then some (p ++ others) else none

variable {T : Type} [DecidableEq T]

/-- The columns that travel with a right payload: result mark, running right count, left
count and right count. -/
abbrev RightRow (Q : Type) := Q × ℤ × ℤ × ℤ × ℤ

def Counted.rightRow (r : Counted P Q) : RightRow Q :=
  (r.right, r.resultMark, r.tmpRightCount, r.leftCount, r.rightCount)

/-- The place of a right row after alignment: copies of one left row next to each other. -/
def alignedPlace (i copyCount : ℤ) (r : RightRow Q) : ℤ :=
  let (_, mark, sR, aL, aR) := r
  let drPos := i-(sR-1)*(aL-1)+copyCount*(aR-1)
  mark*(drPos-i)+i

/-- Distribution and expansion: values sent to their places and copied over the blocks. -/
def distribute {V : Type} [AddCommGroup V] (spu : Spu T) (seqShuffled : List ℤ) (places : List ℤ)
    (values : List V) : Option (List (V × ℤ)) := do
  let perm ← buildPerm spu places seqShuffled
  invPermute perm (fillDummy values seqShuffled.length)

/-- Alignment of the right side, and the size of the result. The left counts are taken before the
expansion. -/
def align (seq : List ℤ) (rd : List (RightRow Q × ℤ)) (le : List P) (re : List (RightRow Q)) :
    Option (List P × List Q) := do
  let aEb := List.zipWith (fun d e => d.1.2.2.2.1-e.2.1) rd re
  let copyCount := suffixSums aEb
  let rfPi := List.zipWith3 alignedPlace seq copyCount re
  let rf ← invPermute rfPi (re.map (·.1))
  let joinSize := (re.map (fun e : RightRow Q => e.2.1)).sum.toNat
  return (le.take joinSize, rf.take joinSize)

def secretJoin (spu : Spu T) (left : List (Key nk × P)) (right : List (Key nk × Q)) :
    Option (List P × List Q) :=
  if left.length = 0 ∨ right.length = 0 then some ([], [])
  else do
    let sepSorted ← separate left right
    let ls := sepSorted.take left.length
    let rs := sepSorted.drop left.length
    let (pl, sizeLeft) := countPosition (ls.map (·.rightCount)) (ls.map (·.resultMark))
    let (pr, sizeRight) := countPosition (rs.map (·.leftCount)) (rs.map (·.resultMark))
    let m := (max sizeLeft sizeRight).toNat
    let seq := (List.range m).map Int.ofNat
    let seqShuffled := spu.shuffle seq
    let ld ← distribute spu seqShuffled pl (ls.map (·.left))
    let rd ← distribute spu seqShuffled pr (rs.map (·.rightRow))
    let le ← expandGroupValueReversely (ld.map (·.1)) (ld.map (·.2))
    let re ← expandGroupValueReversely (rd.map (·.1)) (rd.map (·.2))
    align seq rd le re

def innerJoin (left : List (Key nk × P)) (right : List (Key nk × Q)) : List (P × Q) :=
  left.flatMap (fun l => (right.filter (fun r => r.1 = l.1)).map (fun r => (l.2, r.2)))

/-- The rows whose key the other table does not have. -/
def unmatched {X Y : Type} (rows : List (Key nk × X)) (other : List (Key nk × Y)) : ℕ :=
  rows.countP (fun r => other.all (fun s => s.1 ≠ r.1))

/-- The length of the two sides before alignment, which is revealed. -/
def upperBound (left : List (Key nk × P)) (right : List (Key nk × Q)) : ℕ :=
  (innerJoin left right).length+max (unmatched left right) (unmatched right left)

end Scql.SecretJoin
