import Scql.ChunkedColumns
import Scql.ColumnControl
import Scql.EngineLoops
import Scql.KeyGroups
import Scql.OperatorRegistry

/-! # The limit operator

`LIMIT` with an offset and a count, for a table whose columns lie with different parties or are
shared. The plan has one node for all shared columns and one for the private columns of each
party; a node cuts private columns with a slice of the chunked array and shared ones with a slice
from a start to an end.

Offset and count are unsigned in the logical plan and signed in the node. The two slices belong to
Arrow and to SPU; of them only what they promise is used, and a node that asks for more has no
result to rely on. -/
namespace Scql.LimitOperator

open ColumnControl OperatorRegistry ChunkedColumns EngineLoops Fallible
open List hiding length

structure LogicalLimit where
  offset : UInt64
  count : UInt64

/-- The rows of a column; their number is a 64 bit integer. -/
structure Tensor (α : Type) where
  chunks : List (List α)
  length_lt : length chunks < 2^63

def Tensor.rows {α : Type} (t : Tensor α) : List α := t.chunks.flatten

structure Column (α : Type) where
  id : ℕ
  status : TensorStatus
  /-- Makes sense only when the column is private. -/
  ownerPartyCode : PartyCode := ""
  data : Tensor α

/-- A table of `n` rows. -/
structure Table (α : Type) (n : ℕ) where
  columns : List (Column α)
  ids_nodup : (columns.map (·.id)).Nodup
  length_eq : ∀ c ∈ columns, length c.data.chunks = n
  status_ne : ∀ c ∈ columns, c.status ≠ .UNKNOWN

structure LimitNode (α : Type) where
  inputs : List (Column α)
  offset : Int64
  count : Int64
  parties : List PartyCode

variable {α : Type}

def Column.isShare (c : Column α) : Bool := c.status = .SECRET ∨ c.status = .PUBLIC

def Column.isPrivate (c : Column α) : Bool := c.status = .PRIVATE

def owners (columns : List (Column α)) : List PartyCode :=
  ((columns.filter Column.isPrivate).map (·.ownerPartyCode)).dedup.insertionSort (· ≤ ·)

def checkStatus (c : Column α) : Except Failure PUnit :=
  if c.isShare ∨ c.isPrivate then .ok ⟨⟩
  else .error (.refused "buildLimit: unsupported tensor status")

def buildLimit (parties : List PartyCode) (limit : LogicalLimit) (columns : List (Column α)) :
    Except Failure (List (LimitNode α)) := do
  columns.forM checkStatus
  let shareTensors := columns.filter Column.isShare
  let node (inputs : List (Column α)) (partyCodes : List PartyCode) : LimitNode α :=
    ⟨inputs, limit.offset.toInt64, limit.count.toInt64, partyCodes⟩
  return (if shareTensors = [] then [] else [node shareTensors parties])
    ++ (owners columns).map (fun party =>
      node (KeyGroups.withKey (·.ownerPartyCode) (columns.filter Column.isPrivate) party) [party])

/-- What Arrow and SPU promise of their slices: `ChunkedArray::Slice` takes up to `count` rows from
an offset within the array, `hlo::Slice` with stride one the rows from `start` to `limit` if the
value has them. Nothing is promised for other arguments. -/
structure Slicing (α : Type) where
  sliceArray : List (List α) → ℤ → ℤ → Except Failure (List (List α))
  sliceValue : List α → ℤ → ℤ → Except Failure (List α)
  sliceArray_eq : ∀ chunks (offset count : ℕ), offset ≤ length chunks →
    (sliceArray chunks offset count).map flatten = .ok ((chunks.flatten.drop offset).take count)
  sliceValue_eq : ∀ value (start limit : ℕ), start ≤ limit → limit ≤ value.length →
    sliceValue value start limit = .ok ((value.take limit).drop start)

/-- The slices that fail wherever nothing is promised. -/
def Slicing.strict : Slicing α where
  sliceArray chunks offset count :=
    if 0 ≤ offset ∧ offset ≤ length chunks ∧ 0 ≤ count then
      .ok (slice chunks offset.toNat count.toNat)
    else .error .undefined
  sliceValue value start limit :=
    if 0 ≤ start ∧ start ≤ limit ∧ limit ≤ value.length then
      .ok ((value.take limit.toNat).drop start.toNat)
    else .error .undefined
  sliceArray_eq chunks offset count h := by
    rw [if_pos (by omega)]
    exact congrArg Except.ok (flatten_slice chunks offset count)
  sliceValue_eq value start limit h h' := by
    rw [if_pos (by omega)]
    rfl

/-- The sum of two `int64_t`, which is not defined if it overflows. -/
def checkedAdd (a b : Int64) : Except Failure ℤ :=
  let sum := a.toInt + b.toInt
  if -2 ^ 63 ≤ sum ∧ sum < 2 ^ 63 then .ok sum else .error .undefined

section Execute

variable (s : Slicing α)

def executePrivate (offset count : Int64) (t : Tensor α) : Except Failure (List (List α)) :=
  if offset.toInt < length t.chunks then s.sliceArray t.chunks offset.toInt count.toInt else .ok []

def executeShare (offset count : Int64) (t : Tensor α) : Except Failure (List α) := do
  let last ← checkedAdd offset count
  s.sliceValue t.rows offset.toInt (min last (length t.chunks))

def LimitNode.executeColumn (node : LimitNode α) (c : Column α) : Except Failure (List α) :=
  if c.isPrivate then (executePrivate s node.offset node.count c.data).map flatten
  else executeShare s node.offset node.count c.data

def LimitNode.execute (node : LimitNode α) : Except Failure (List (ℕ × List α)) :=
  node.inputs.mapM (fun c => (node.executeColumn s c).map (fun rows => (c.id, rows)))

/-- Build the plan and run its nodes: the rows of every column. -/
def runLimit (parties : List PartyCode) (limit : LogicalLimit) (columns : List (Column α)) :
    Except Failure (List (ℕ × List α)) := do
  let nodes ← buildLimit parties limit columns
  let outputs ← nodes.mapM (LimitNode.execute s)
  return outputs.flatten

end Execute

/-- The rows from position `offset` up to `offset + count`, as far as there are rows. -/
def LogicalLimit.window (limit : LogicalLimit) (rows : List α) : List α :=
  let n := rows.length
  (rows.take (min (limit.offset.toNat+limit.count.toNat) n)).drop (min limit.offset.toNat n)

lemma toInt_toInt64 (x : UInt64) : x.toInt64.toInt = (x.toNat : ℤ).bmod (2^64) :=
  BitVec.toInt_eq_toNat_bmod x.toBitVec

lemma toInt_toInt64_of_lt {x : UInt64} (h : x.toNat < 2^63) : x.toInt64.toInt = x.toNat := by
  rw [toInt_toInt64, Int.bmod_eq_of_le] <;> omega

lemma toInt_toInt64_of_le {x : UInt64} (h : 2^63 ≤ x.toNat) :
    x.toInt64.toInt = (x.toNat : ℤ)-2^64 := by
  have hx := x.toNat_lt
  rw [toInt_toInt64, ← Int.sub_bmod_right, Int.bmod_eq_of_le] <;> norm_num <;> omega

lemma lt_of_toInt_toInt64 {x : UInt64} (h : 0 ≤ x.toInt64.toInt) : x.toNat < 2 ^ 63 := by
  by_contra hx
  have hlt := x.toNat_lt
  rw [toInt_toInt64_of_le (not_lt.mp hx)] at h
  omega

variable {limit : LogicalLimit} {rows : List α} {s : Slicing α}

lemma window_eq (limit : LogicalLimit) (rows : List α) :
  limit.window rows = (rows.drop limit.offset.toNat).take limit.count.toNat := by
  rw [LogicalLimit.window, drop_take]
  rcases le_total rows.length limit.offset.toNat with h | h
  · rw [min_eq_right h, drop_eq_nil_of_le h]
    simp
  · rw [min_eq_left h]
    rcases le_total (limit.offset.toNat+limit.count.toNat) rows.length with h' | h'
    · rw [min_eq_left h', Nat.add_sub_cancel_left]
    · rw [min_eq_right h', take_of_length_le (by simp), take_of_length_le (by simp; omega)]

/-- What a column needs of the limit. For a private column the offset fits into the attribute, and
so does the count unless the offset is beyond the rows; for a shared one the offset is not beyond
the rows and the end fits. -/
def Column.InRange (limit : LogicalLimit) (c : Column α) : Prop :=
  if c.isPrivate then
    limit.offset.toNat < 2 ^ 63 ∧
      (length c.data.chunks ≤ limit.offset.toNat ∨ limit.count.toNat < 2 ^ 63)
  else
    limit.offset.toNat ≤ length c.data.chunks ∧ limit.offset.toNat + limit.count.toNat < 2 ^ 63

lemma executePrivate_eq (t : Tensor α) (ho : limit.offset.toNat < 2 ^ 63)
    (hc : length t.chunks ≤ limit.offset.toNat ∨ limit.count.toNat < 2 ^ 63) :
    (executePrivate s limit.offset.toInt64 limit.count.toInt64 t).map flatten =
      .ok (limit.window t.rows) := by
  have hrows : length t.chunks = t.rows.length := length_eq_flatten t.chunks
  rw [window_eq, executePrivate, toInt_toInt64_of_lt ho]
  split
  · next hlt =>
    have hcount : limit.count.toNat < 2 ^ 63 := hc.resolve_left (by omega)
    rw [toInt_toInt64_of_lt hcount]
    exact s.sliceArray_eq t.chunks _ _ (by omega)
  · next hge =>
    rw [drop_eq_nil_of_le (by omega)]
    simp [Except.map]

lemma executeShare_eq (t : Tensor α) (ho : limit.offset.toNat ≤ length t.chunks)
    (hend : limit.offset.toNat + limit.count.toNat < 2 ^ 63) :
    executeShare s limit.offset.toInt64 limit.count.toInt64 t = .ok (limit.window t.rows) := by
  have hrows : length t.chunks = t.rows.length := length_eq_flatten t.chunks
  have hoffset := toInt_toInt64_of_lt (x := limit.offset) (by omega)
  have hcount := toInt_toInt64_of_lt (x := limit.count) (by omega)
  have hadd : checkedAdd limit.offset.toInt64 limit.count.toInt64 =
      .ok ((limit.offset.toNat + limit.count.toNat : ℕ) : ℤ) := by
    rw [checkedAdd, hoffset, hcount]
    exact if_pos (by omega)
  have hmin : min ((limit.offset.toNat + limit.count.toNat : ℕ) : ℤ) (length t.chunks) =
      (min (limit.offset.toNat + limit.count.toNat) t.rows.length : ℕ) := by omega
  rw [executeShare, hadd, LogicalLimit.window, min_eq_left (hrows ▸ ho)]
  change s.sliceValue t.rows _ (min _ _) = _
  rw [hoffset, hmin]
  exact s.sliceValue_eq t.rows _ _ (by omega) (by omega)

lemma executeColumn_eq {node : LimitNode α} (ho : node.offset = limit.offset.toInt64)
    (hc : node.count = limit.count.toInt64) {c : Column α} (h : c.InRange limit) :
    node.executeColumn s c = .ok (limit.window c.data.rows) := by
  rw [Column.InRange] at h
  rw [LimitNode.executeColumn, ho, hc]
  split at h
  · next hprivate =>
    rw [if_pos hprivate]
    exact executePrivate_eq c.data h.1 h.2
  · next hshare =>
    rw [if_neg hshare]
    exact executeShare_eq c.data h.1 h.2

lemma inRange_of_strict {node : LimitNode α} (ho : node.offset = limit.offset.toInt64)
    (hc : node.count = limit.count.toInt64) {c : Column α}
    (h : node.executeColumn .strict c = .ok rows) : c.InRange limit := by
  have hoffset := limit.offset.toNat_lt
  have hcount := limit.count.toNat_lt
  rw [LimitNode.executeColumn, ho, hc] at h
  rw [Column.InRange]
  split at h
  · next hprivate =>
    rw [if_pos hprivate]
    rw [executePrivate] at h
    split at h
    · next hlt =>
      simp only [Slicing.strict] at h
      split at h
      · next harg =>
        have ho' := lt_of_toInt_toInt64 harg.1
        exact ⟨ho', .inr (lt_of_toInt_toInt64 harg.2.2)⟩
      · cases h
    · next hge =>
      have ho' : limit.offset.toNat < 2 ^ 63 := lt_of_toInt_toInt64 (by omega)
      rw [toInt_toInt64_of_lt ho'] at hge
      exact ⟨ho', .inl (by omega)⟩
  · next hshare =>
    rw [if_neg hshare]
    obtain ⟨last, hlast, h⟩ := bind_eq_ok.mp h
    rw [checkedAdd] at hlast
    split at hlast
    · cases hlast
      simp only [Slicing.strict] at h
      split at h
      · next hsum harg =>
        have ho' := lt_of_toInt_toInt64 harg.1
        rw [toInt_toInt64_of_lt ho'] at harg hsum
        have hc' : limit.count.toNat < 2 ^ 63 := lt_of_toInt_toInt64 (by omega)
        rw [toInt_toInt64_of_lt hc'] at harg hsum
        omega
      · cases h
    · cases hlast

variable {parties : List PartyCode} {columns : List (Column α)}

lemma buildLimit_spec (parties : List PartyCode) (limit : LogicalLimit)
  (hstatus : ∀ c ∈ columns, c.status ≠ .UNKNOWN) :
    ∃ nodes, buildLimit parties limit columns = .ok nodes
    ∧ (∀ node ∈ nodes, node.offset = limit.offset.toInt64 ∧ node.count = limit.count.toInt64)
    ∧ (nodes.flatMap (·.inputs)).Perm columns := by
  have hcheck : columns.forM checkStatus = .ok ⟨⟩ := by
    refine forM_ok_of_forall (fun c hc => ?_)
    have := hstatus c hc
    cases h : c.status <;> simp_all [checkStatus, Column.isShare, Column.isPrivate]
  refine ⟨_, by rw [buildLimit, hcheck]; rfl, ?_, ?_⟩
  · intro node hnode
    rcases mem_append.mp hnode with h | h
    · split at h
      · simp at h
      · obtain rfl := mem_singleton.mp h
        exact ⟨rfl, rfl⟩
    · obtain ⟨party, -, rfl⟩ := mem_map.mp h
      exact ⟨rfl, rfl⟩
  · rw [flatMap_append, flatMap_map]
    have hshare : (if columns.filter Column.isShare = [] then []
        else [(⟨columns.filter Column.isShare, limit.offset.toInt64, limit.count.toInt64, parties⟩ :
          LimitNode α)]).flatMap (·.inputs) = columns.filter Column.isShare := by
      split
      · next h => rw [h]; rfl
      · simp
    have hprivate : ((owners columns).flatMap (KeyGroups.withKey (·.ownerPartyCode)
        (columns.filter Column.isPrivate))).Perm (columns.filter Column.isPrivate) := by
      refine KeyGroups.perm_flatMap_withKey ?_ ?_
      · exact (perm_insertionSort _ _).nodup_iff.mpr (nodup_dedup _)
      · intro c hc
        rw [owners, mem_insertionSort, mem_dedup]
        exact mem_map_of_mem hc
    rw [hshare]
    refine (hprivate.append_left _).trans ?_
    -- a column is private exactly if it is not shared
    have hother : columns.filter Column.isPrivate = columns.filter (fun c => !c.isShare) := by
      refine filter_congr (fun c hc => ?_)
      have := hstatus c hc
      cases h : c.status <;> simp_all [Column.isShare, Column.isPrivate]
    rw [hother]
    exact filter_append_perm _ _

lemma execute_eq_ok {node : LimitNode α} {g : Column α → List α}
    (h : ∀ c ∈ node.inputs, node.executeColumn s c = .ok (g c)) :
    node.execute s = .ok (node.inputs.map (fun c => (c.id, g c))) := by
  refine mapM_eq_ok_map (fun c hc => ?_)
  rw [h c hc]
  rfl

lemma mem_runLimit {out : List (ℕ × List α)} (hstatus : ∀ c ∈ columns, c.status ≠ .UNKNOWN)
    (h : runLimit s parties limit columns = .ok out) {c : Column α} (hc : c ∈ columns) :
    ∃ (node : LimitNode α) (rows : List α), node.offset = limit.offset.toInt64 ∧
      node.count = limit.count.toInt64 ∧ node.executeColumn s c = .ok rows := by
  obtain ⟨nodes, hnodes, hattr, hperm⟩ := buildLimit_spec parties limit hstatus
  rw [runLimit, hnodes, bind_eq_ok] at h
  obtain ⟨_, hok, h⟩ := h
  cases hok
  obtain ⟨outputs, houtputs, -⟩ := bind_eq_ok.mp h
  obtain ⟨node, hnode, hinput⟩ := mem_flatMap.mp (hperm.mem_iff.mpr hc)
  obtain ⟨part, -, hexec⟩ := mapM_ok_mem houtputs hnode
  obtain ⟨r, -, hcolumn⟩ := mapM_ok_mem hexec hinput
  cases hrows : node.executeColumn s c with
  | error e =>
    rw [hrows] at hcolumn
    cases hcolumn
  | ok rows => exact ⟨node, rows, (hattr node hnode).1, (hattr node hnode).2, hrows⟩

/-- What Arrow and SPU promise of their slices suffices for every column, private or shared, to be
cut to the rows of the limit if and only if offset and count stay in range for each of them. -/
theorem runLimit_exact_iff {n : ℕ} (parties : List PartyCode) (limit : LogicalLimit)
    (table : Table α n) :
    (∀ s : Slicing α, ∃ out, runLimit s parties limit table.columns = .ok out ∧
      out.Perm (table.columns.map (fun c => (c.id, limit.window c.data.rows)))) ↔
    ∀ c ∈ table.columns, c.InRange limit := by
  constructor
  · intro h c hc
    obtain ⟨out, hout, -⟩ := h .strict
    obtain ⟨node, rows, ho, hcount, hrows⟩ := mem_runLimit table.status_ne hout hc
    exact inRange_of_strict ho hcount hrows
  · intro hrange s
    obtain ⟨nodes, hnodes, hattr, hperm⟩ := buildLimit_spec parties limit table.status_ne
    have hexec : ∀ node ∈ nodes, node.execute s =
        .ok (node.inputs.map (fun c => (c.id, limit.window c.data.rows))) := by
      intro node hnode
      refine execute_eq_ok (fun c hc => ?_)
      refine executeColumn_eq (hattr node hnode).1 (hattr node hnode).2 (hrange c ?_)
      exact hperm.mem_iff.mp (mem_flatMap.mpr ⟨node, hnode, hc⟩)
    refine ⟨(nodes.map (fun node => node.inputs.map
      (fun c => (c.id, limit.window c.data.rows)))).flatten, ?_, ?_⟩
    · rw [runLimit, hnodes, bind_eq_ok]
      exact ⟨_, rfl, bind_eq_ok.mpr ⟨_, mapM_eq_ok_map hexec, rfl⟩⟩
    · rw [← flatMap_def]
      have hmap := hperm.map (fun c : Column α => (c.id, limit.window c.data.rows))
      rwa [map_flatMap] at hmap

def sevenRows : Tensor ℕ := ⟨[[1, 2, 3], [4, 5, 6, 7]], by decide⟩

/-- All rows from the sixth on, with the largest signed count: the end of the shared column
overflows, whatever the slices do. -/
theorem runLimit_end_overflows :
    (¬∃ s : Slicing ℕ, ∃ out, runLimit s ["alice", "bob"] ⟨5, 9223372036854775807⟩
      [⟨0, .PRIVATE, "alice", sevenRows⟩, ⟨1, .SECRET, "", sevenRows⟩] = .ok out) ∧
    LogicalLimit.window ⟨5, 9223372036854775807⟩ sevenRows.rows = [6, 7] := by
  refine ⟨?_, by decide⟩
  rintro ⟨s, out, hout⟩
  obtain ⟨node, rows, ho, hc, hrows⟩ := mem_runLimit (c := ⟨1, .SECRET, "", sevenRows⟩)
    (by simp) hout (by simp)
  have hshare : executeShare s node.offset node.count sevenRows = .ok rows := hrows
  obtain ⟨last, hlast, -⟩ := bind_eq_ok.mp hshare
  rw [ho, hc] at hlast
  cases hlast

end Scql.LimitOperator
