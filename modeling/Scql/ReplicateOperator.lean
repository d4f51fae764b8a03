import Mathlib.Data.List.ProdSigma
import Scql.ChunkedColumns
import Scql.ColumnControl
import Scql.EngineLoops

/-! # Cross join by replication

The parties of the two sides tell each other their numbers of rows. The left side then repeats its
chunks as a block, once for every right row; the right side repeats every row, once for every left
row, copying the rows one by one. The loops that copy count with an `int`, so they do not end for
a bound that an `int` cannot reach. -/
namespace Scql.ReplicateOperator

open ChunkedColumns ColumnControl EngineLoops Fallible
open List hiding length

variable {α β : Type}

def copyRows (extendSize : ℕ) (chunk : List α) : Except Failure (List α) := do
  let _ ← intLoop chunk.length
  let copies ← chunk.mapM (fun value => do
    let rounds ← intLoop extendSize
    return rounds.map (fun _ => value))
  return copies.flatten

def extendArray (chunks : List (List α)) (extendSize : ℕ) (interleaving : Bool) :
    Except Failure (List (List α)) :=
  if extendSize = 0 ∨ chunks = [] then .ok []
  else if interleaving then .ok (repeatChunks extendSize chunks)
  else do
    let copied ← chunks.mapM (copyRows extendSize)
    return [copied.flatten]

/-- Every column of one side; the columns have to have one length. -/
def buildReplicate (inputs : List (List (List α))) (dupRows : ℕ) (interleaving : Bool) :
    Except Failure (List (List (List α))) :=
  inputs.mapM (fun chunks => do
    ensure (some (length chunks) = inputs.head?.map length)
      (.refused "input tensors length must be equal")
    extendArray chunks dupRows interleaving)

/-- `AllGather` between the two parties: what each rank has sent. -/
def allGather (leftLength rightLength : ℕ) : List ℕ := [leftLength, rightLength]

def nextRank (rank : ℕ) : ℕ := (rank+1)%2

/-- The row count a side extends its columns by: of the first column of the other side, read from
the table if both sides are at one party and from the other party's message if not. -/
def otherLength (codes : PartyCode × PartyCode) (rank : ℕ) (left : List (List (List α)))
    (right : List (List (List β))) : Except Failure ℕ :=
  match left, right with
  | l::_, r::_ =>
    if codes.1 = codes.2 then .ok (if rank = 0 then length r else length l)
    else match (allGather (length l) (length r))[nextRank rank]? with
      | some n => .ok n
      | none => .error (.refused "invalid rank")
  | _, _ => .error (.refused "tensor not found")

def execute (codes : PartyCode × PartyCode) (left : List (List (List α)))
    (right : List (List (List β))) :
    Except Failure (List (List (List α)) × List (List (List β))) := do
  let rightLength ← otherLength codes 0 left right
  let leftOut ← buildReplicate left rightLength true
  let leftLength ← otherLength codes 1 left right
  let rightOut ← buildReplicate right leftLength false
  return (leftOut, rightOut)

/-- The columns of one side, all of `n` rows, in any chunks. -/
structure Side (α : Type) (n : ℕ) where
  columns : List (List (List α))
  nonempty : columns ≠ []
  length_eq : ∀ chunks ∈ columns, length chunks = n

lemma copies_eq_ok {k : ℕ} {value : α} {copies : List α} :
  (do let rounds ← intLoop k; return rounds.map (fun _ => value) : Except Failure (List α))
      = .ok copies ↔ k < intBound ∧ replicate k value = copies := by
  simp only [bind_eq_ok, pure_eq_ok, intLoop_eq_ok]
  constructor
  · rintro ⟨rounds, ⟨hk, rfl⟩, rfl⟩
    simp [hk]
  · rintro ⟨hk, rfl⟩
    exact ⟨_, ⟨hk, rfl⟩, by simp⟩

lemma mapM_copies_eq_ok {k : ℕ} {chunk : List α} {copies : List (List α)} :
    chunk.mapM (fun value => do
      let rounds ← intLoop k
      return rounds.map (fun _ => value)) = .ok copies
    ↔ (k < intBound ∨ chunk = []) ∧ chunk.map (replicate k) = copies := by
  induction chunk generalizing copies with
  | nil => simp [pure, Except.pure]
  | cons value chunk ih =>
    rw [mapM_cons_eq_ok]
    constructor
    · rintro ⟨c, cs, hc, hcs, rfl⟩
      obtain ⟨hk, rfl⟩ := copies_eq_ok.mp hc
      obtain ⟨-, rfl⟩ := ih.mp hcs
      exact ⟨.inl hk, rfl⟩
    · rintro ⟨hk, rfl⟩
      have hk : k < intBound := by simpa using hk
      exact ⟨_, _, copies_eq_ok.mpr ⟨hk, rfl⟩, ih.mpr ⟨.inl hk, rfl⟩, rfl⟩

/-- The counters of the copying loops reach their bounds. -/
def Copyable (extendSize : ℕ) (chunk : List α) : Prop :=
  chunk.length < intBound ∧ (extendSize < intBound ∨ chunk = [])

lemma copyRows_eq_ok {k : ℕ} {chunk out : List α} :
  copyRows k chunk = .ok out ↔ Copyable k chunk ∧ repeatEach k chunk = out := by
  simp only [copyRows, bind_eq_ok, pure_eq_ok, intLoop_eq_ok, mapM_copies_eq_ok]
  constructor
  · rintro ⟨_, ⟨hlen, -⟩, _, ⟨hk, rfl⟩, rfl⟩
    exact ⟨⟨hlen, hk⟩, flatMap_def⟩
  · rintro ⟨⟨hlen, hk⟩, rfl⟩
    exact ⟨_, ⟨hlen, rfl⟩, _, ⟨hk, rfl⟩, flatMap_def.symm⟩

variable {chunks out : List (List α)} {k : ℕ}

lemma extendArray_interleaving (chunks : List (List α)) (k : ℕ) :
  ∃ out, extendArray chunks k true = .ok out ∧ out.flatten =
    (replicate k chunks.flatten).flatten := by
  rw [extendArray]
  split
  · next h =>
    refine ⟨[], rfl, ?_⟩
    rcases h with rfl | rfl <;> simp
  · exact ⟨_, rfl, flatten_repeatChunks k chunks⟩

lemma flatten_map_repeatEach (k : ℕ) (chunks : List (List α)) :
  (chunks.map (repeatEach k)).flatten = repeatEach k chunks.flatten := by
  rw [repeatEach, flatMap_def, map_flatten, flatten_flatten, map_map]
  rfl

lemma mapM_copyRows (hcopy : ∀ c ∈ chunks, Copyable k c) :
  chunks.mapM (copyRows k) = .ok (chunks.map (repeatEach k)) :=
  mapM_eq_ok_map (fun c hc => copyRows_eq_ok.mpr ⟨hcopy c hc, rfl⟩)

lemma extendArray_each_iff :
  (∃ out, extendArray chunks k false = .ok out) ↔ k = 0 ∨ ∀ c ∈ chunks, Copyable k c := by
  constructor
  · rintro ⟨out, h⟩
    rw [extendArray] at h
    split at h
    · next hk =>
      rcases hk with rfl | rfl
      · exact .inl rfl
      · exact .inr (by simp)
    · obtain ⟨copied, hcopied, -⟩ := bind_eq_ok.mp h
      refine .inr (fun c hc => ?_)
      obtain ⟨b, -, hb⟩ := mapM_ok_mem hcopied hc
      exact (copyRows_eq_ok.mp hb).1
  · intro h
    rw [extendArray]
    split
    · exact ⟨[], rfl⟩
    · next hk =>
      have hcopy := h.resolve_left (fun h0 => hk (.inl h0))
      exact ⟨_, bind_eq_ok.mpr ⟨_, mapM_copyRows hcopy, rfl⟩⟩

lemma flatten_extendArray_each (h : extendArray chunks k false = .ok out) :
  out.flatten = repeatEach k chunks.flatten := by
  rw [extendArray] at h
  split at h
  · next hk =>
    cases h
    rcases hk with rfl | rfl <;> simp [repeatEach]
  · obtain ⟨copied, hcopied, h⟩ := bind_eq_ok.mp h
    cases h
    have hcopy : ∀ c ∈ chunks, Copyable k c := by
      intro c hc
      obtain ⟨b, -, hb⟩ := mapM_ok_mem hcopied hc
      exact (copyRows_eq_ok.mp hb).1
    rw [mapM_copyRows hcopy] at hcopied
    cases hcopied
    rw [flatten_singleton, flatten_map_repeatEach]

variable {n m : ℕ}

lemma buildReplicate_eq (side : Side α n) (dupRows : ℕ) (interleaving : Bool) :
  buildReplicate side.columns dupRows interleaving
    = side.columns.mapM (fun chunks => extendArray chunks dupRows interleaving) := by
  obtain ⟨first, rest, hcolumns⟩ := exists_cons_of_ne_nil side.nonempty
  have hhead : side.columns.head?.map length = some n := by
    rw [hcolumns, head?_cons, Option.map_some]
    exact congrArg some (side.length_eq first (by simp [hcolumns]))
  rw [buildReplicate, hhead]
  refine mapM_congr (fun chunks hchunks => ?_)
  rw [ensure, if_pos (by rw [side.length_eq chunks hchunks])]
  rfl

lemma otherLength_left (codes : PartyCode × PartyCode) (left : Side α n) (right : Side β m) :
  otherLength codes 0 left.columns right.columns = .ok m := by
  obtain ⟨l, ls, hl⟩ := exists_cons_of_ne_nil left.nonempty
  obtain ⟨r, rs, hr⟩ := exists_cons_of_ne_nil right.nonempty
  have hlen : length r = m := right.length_eq r (by simp [hr])
  rw [hl, hr, otherLength]
  split
  · simp [hlen]
  · simp [allGather, nextRank, hlen]

lemma otherLength_right (codes : PartyCode × PartyCode) (left : Side α n) (right : Side β m) :
  otherLength codes 1 left.columns right.columns = .ok n := by
  obtain ⟨l, ls, hl⟩ := exists_cons_of_ne_nil left.nonempty
  obtain ⟨r, rs, hr⟩ := exists_cons_of_ne_nil right.nonempty
  have hlen : length l = n := left.length_eq l (by simp [hl])
  rw [hl, hr, otherLength]
  split
  · simp [hlen]
  · simp [allGather, nextRank, hlen]

/-- The pairs of positions in the order of the outputs. -/
def pairs (n m : ℕ) : List (ℕ × ℕ) :=
  (range m).flatMap (fun r => (range n).map (fun l => (l, r)))

lemma mem_pairs {n m l r : ℕ} : (l, r) ∈ pairs n m ↔ l < n ∧ r < m := by
  simp [pairs, and_comm]

lemma nodup_pairs (n m : ℕ) : (pairs n m).Nodup := by
  rw [pairs, nodup_flatMap]
  constructor
  · intro r _
    exact nodup_range.map (fun a b h => (Prod.mk.inj h).1)
  · refine nodup_range.pairwise_of_forall_ne (fun r _ r' _ hne => ?_)
    refine disjoint_left.mpr (fun p hp hp' => ?_)
    obtain ⟨_, -, rfl⟩ := mem_map.mp hp
    obtain ⟨_, -, h⟩ := mem_map.mp hp'
    exact hne (Prod.mk.inj h).2.symm

lemma length_pairs (n m : ℕ) : (pairs n m).length = n*m := by
  rw [pairs, length_flatMap]
  simp [Nat.mul_comm]

lemma map_some_eq_range (rows : List α) :
    rows.map some = (range rows.length).map (fun i => rows[i]?) := by
  refine ext_getElem (by simp) (fun i h₁ h₂ => ?_)
  have hi : i < rows.length := by simpa using h₁
  simp [hi]

lemma repeated_block (rows : List α) (m : ℕ) : ((replicate m rows).flatten).map some
    = (pairs rows.length m).map (fun p => rows[p.1]?) := by
  rw [map_flatten, map_replicate, map_some_eq_range, pairs, map_flatMap, flatMap_def]
  simp [Function.comp_def, map_const']

lemma repeated_rows (rows : List α) (n : ℕ) :
  (repeatEach n rows).map some = (pairs n rows.length).map (fun p => rows[p.2]?) := by
  have hmap : (repeatEach n rows).map some = (rows.map some).flatMap (replicate n) := by
    rw [repeatEach, map_flatMap, flatMap_map]
    simp
  rw [hmap, map_some_eq_range, flatMap_map, pairs, map_flatMap]
  simp [Function.comp_def, map_const']

/-- The outputs have `n * m` rows; their positions run through all pairs of a left and a right
row, each once, and every column of a side follows the same pairs. -/
def IsCrossJoin (left : Side α n) (right : Side β m)
    (out : List (List (List α)) × List (List (List β))) : Prop :=
  ∃ positions : List (ℕ × ℕ), positions.length = n*m ∧ positions.Nodup
    ∧ (∀ l r, (l, r) ∈ positions ↔ l < n ∧ r < m)
    ∧ out.1.map (·.flatten.map some)
      = left.columns.map (fun c => positions.map (fun p => c.flatten[p.1]?))
    ∧ out.2.map (·.flatten.map some)
      = right.columns.map (fun c => positions.map (fun p => c.flatten[p.2]?))

lemma Side.length_flatten (side : Side α n) {chunks : List (List α)}
  (h : chunks ∈ side.columns) : chunks.flatten.length = n := by
  rw [← length_eq_flatten, side.length_eq chunks h]

lemma left_columns (left : Side α n) (m : ℕ) :
  ∃ out, buildReplicate left.columns m true = .ok out ∧ out.map (·.flatten.map some)
    = left.columns.map (fun c => (pairs n m).map (fun p => c.flatten[p.1]?)) := by
  rw [buildReplicate_eq]
  obtain ⟨out, hout, -⟩ := mapM_ok_of_forall
    (fun chunks (_ : chunks ∈ left.columns) => extendArray_interleaving chunks m)
  refine ⟨out, hout, map_of_mapM_ok hout (fun chunks hchunks o ho => ?_)⟩
  obtain ⟨o', ho', hflat⟩ := extendArray_interleaving chunks m
  cases ho.symm.trans ho'
  rw [hflat, repeated_block, left.length_flatten hchunks]

lemma right_columns (right : Side β m) {n : ℕ} {out : List (List (List β))}
  (h : buildReplicate right.columns n false = .ok out) : out.map (·.flatten.map some)
    = right.columns.map (fun c => (pairs n m).map (fun p => c.flatten[p.2]?)) := by
  rw [buildReplicate_eq] at h
  refine map_of_mapM_ok h (fun chunks hchunks o ho => ?_)
  rw [flatten_extendArray_each ho, repeated_rows, right.length_flatten hchunks]

/-- The counters that copy the right rows reach their bounds. -/
def CountersSuffice (n : ℕ) (right : Side β m) : Prop :=
  n = 0 ∨ m = 0 ∨ (n < intBound ∧ ∀ chunks ∈ right.columns, ∀ c ∈ chunks, c.length < intBound)

lemma countersSuffice_iff (n : ℕ) (right : Side β m) : CountersSuffice n right
    ↔ ∀ chunks ∈ right.columns, n = 0 ∨ ∀ c ∈ chunks, Copyable n c := by
  constructor
  · rintro (rfl | rfl | ⟨hn, hlen⟩) chunks hchunks
    · exact .inl rfl
    · -- without rows every chunk is empty
      refine .inr (fun c hc => ?_)
      have hnil : c = [] := flatten_eq_nil_iff.mp
        (eq_nil_of_length_eq_zero (right.length_flatten hchunks)) c hc
      exact ⟨by rw [hnil]; exact Nat.two_pow_pos 31, .inr hnil⟩
    · exact .inr (fun c hc => ⟨hlen chunks hchunks c hc, .inl hn⟩)
  · intro h
    by_cases hn : n = 0
    · exact .inl hn
    by_cases hm : m = 0
    · exact .inr (.inl hm)
    have hcopy : ∀ chunks ∈ right.columns, ∀ c ∈ chunks, Copyable n c :=
      fun chunks hchunks => (h chunks hchunks).resolve_left hn
    refine .inr (.inr ⟨?_, fun chunks hchunks c hc => (hcopy chunks hchunks c hc).1⟩)
    -- a column with rows has a chunk that is not empty
    obtain ⟨first, rest, hcolumns⟩ := exists_cons_of_ne_nil right.nonempty
    have hfirst : first ∈ right.columns := by simp [hcolumns]
    obtain ⟨c, hc, hne⟩ : ∃ c ∈ first, c ≠ [] := by
      by_contra hall
      push Not at hall
      have hlen := right.length_flatten hfirst
      rw [flatten_eq_nil_iff.mpr hall] at hlen
      exact hm hlen.symm
    exact (hcopy first hfirst c hc).2.resolve_right hne

lemma countersSuffice_of_execute {codes : PartyCode × PartyCode} (left : Side α n)
  (right : Side β m) {out : List (List (List α)) × List (List (List β))}
  (h : execute codes left.columns right.columns = .ok out) : CountersSuffice n right := by
  rw [countersSuffice_iff]
  intro chunks hchunks
  simp only [execute, otherLength_left, otherLength_right, bind_eq_ok, Except.ok.injEq] at h
  obtain ⟨_, rfl, _, -, _, rfl, rightOut, hright, -⟩ := h
  rw [buildReplicate_eq] at hright
  obtain ⟨o, -, ho⟩ := mapM_ok_mem hright hchunks
  exact extendArray_each_iff.mp ⟨o, ho⟩

/-- The operator makes the cross join exactly if the counters suffice. -/
theorem execute_crossJoin_iff (codes : PartyCode × PartyCode) (left : Side α n) (right : Side β m) :
  (∃ out, execute codes left.columns right.columns = .ok out ∧ IsCrossJoin left right out)
    ↔ CountersSuffice n right := by
  constructor
  · rintro ⟨out, hout, -⟩
    exact countersSuffice_of_execute left right hout
  · intro h
    rw [countersSuffice_iff] at h
    obtain ⟨leftOut, hleft, hleftRows⟩ := left_columns left m
    obtain ⟨rightOut, hright, -⟩ := mapM_ok_of_forall (R := fun _ (_ : List (List β)) => True)
      (fun chunks (hchunks : chunks ∈ right.columns) =>
        (extendArray_each_iff.mpr (h chunks hchunks)).imp fun _ ho => ⟨ho, trivial⟩)
    rw [← buildReplicate_eq] at hright
    refine ⟨(leftOut, rightOut), ?_, pairs n m, length_pairs n m, nodup_pairs n m,
      fun l r => mem_pairs, hleftRows, right_columns right hright⟩
    rw [execute, otherLength_left, otherLength_right]
    simp only [bind_eq_ok]
    exact ⟨m, rfl, leftOut, hleft, n, rfl, rightOut, hright, rfl⟩

/-- A left side of `2 ^ 31` rows and a right side of one row: the right row is never copied to the
end. -/
theorem execute_long_left_diverges :
  ¬∃ out, execute ("alice", "bob") [[replicate intBound true]] [[[true]]] = .ok out := by
  rintro ⟨out, hout⟩
  let left : Side Bool intBound :=
    ⟨[[replicate intBound true]], by simp, by simp [length]⟩
  let right : Side Bool 1 := ⟨[[[true]]], by simp, by simp [length]⟩
  rcases countersSuffice_of_execute left right hout with h | h | ⟨h, -⟩
  · exact absurd h (Nat.two_pow_pos 31).ne'
  · exact absurd h one_ne_zero
  · exact absurd h (lt_irrefl _)

end Scql.ReplicateOperator
