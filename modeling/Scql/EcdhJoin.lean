import Scql.PsiTables

/-! # The ECDH join

Both parties end up with the doubly masked keys of either side, spread over bins by hash. Each
party walks through the bins and appends the row numbers of its own side. -/
namespace Scql.EcdhJoin

open EquiJoin PsiTables List Function

variable {K C : Type} [DecidableEq C]

/-- A store of ciphertexts: every item with its index, in the order of saving. -/
structure EcPointStore (C : Type) where
  numBins : ℕ
  items : List (C × ℕ)

def EcPointStore.itemCount (st : EcPointStore C) : ℕ := st.items.length

def EcPointStore.loadBucketItems (hash : C → ℕ) (st : EcPointStore C) (binIdx : ℕ) :
    List (C × ℕ) :=
  st.items.filter (fun it => hash it.1%st.numBins = binIdx)

def EcPointStore.saved (numBins : ℕ) (cs : List C) : EcPointStore C := ⟨numBins, keyed cs⟩

/-- The matches of one bin: a map from the keys of the right items to their indices, probed
with the left items. -/
def probeBin (left right : List (C × ℕ)) : List (ℕ × ℕ) :=
  let rightKeyIndicesMap := groupIndex right
  left.flatMap (fun l => ((rightKeyIndicesMap.lookup l.1).getD []).map (fun r => (l.2, r)))

def allMatches (hash : C → ℕ) (left right : EcPointStore C) : List (ℕ × ℕ) :=
  (range left.numBins).flatMap (fun bin =>
    probeBin (left.loadBucketItems hash bin) (right.loadBucketItems hash bin))

/-- `ComputeJoinIndices`: the indices of one side, nulls where only the other side has a row. -/
def computeJoinIndices (hash : C → ℕ) (left right : EcPointStore C) (joinType : JoinKind)
    (isLeft : Bool) : List (Option ℕ) :=
  let ms := allMatches hash left right
  let outerJoinKeySize := match joinType with
    | .left => left.itemCount
    | .right => right.itemCount
    | .inner => 0
  ms.map (fun m => some (if isLeft then m.1 else m.2)) ++
    (range outerJoinKeySize).flatMap (fun index =>
      (if joinType = .left ∧ index ∉ ms.map (·.1) then
        [if isLeft then some index else none] else []) ++
      (if joinType = .right ∧ index ∉ ms.map (·.2) then
        [if isLeft then none else some index] else []))

def finalizeAndComputeJoinIndices (hash : C → ℕ) (isLeft : Bool)
    (selfCache peerCache : EcPointStore C) (joinType : JoinKind) : List (Option ℕ) :=
  if isLeft then computeJoinIndices hash selfCache peerCache joinType isLeft
  else computeJoinIndices hash peerCache selfCache joinType isLeft

/-- The masks of the two parties. They commute, and a key masked by both is told apart from
other keys. -/
structure Cipher (K C : Type) where
  hashPoint : K → C
  maskLeft : C → C
  maskRight : C → C
  comm : ∀ c, maskLeft (maskRight c) = maskRight (maskLeft c)
  injective : Injective (fun k => maskRight (maskLeft (hashPoint k)))

/-- The left party's keys: masked by it, then by the peer. -/
def leftItems (cipher : Cipher K C) (keys : List K) : List C :=
  keys.map (fun k => cipher.maskRight (cipher.maskLeft (cipher.hashPoint k)))

def rightItems (cipher : Cipher K C) (keys : List K) : List C :=
  keys.map (fun k => cipher.maskLeft (cipher.maskRight (cipher.hashPoint k)))

/-- What a party computes on one slice: its own keys come back from the peer, the peer's keys
are masked a second time here. -/
def ecdhPsiSlice (cipher : Cipher K C) (hash : C → ℕ) (numBins : ℕ) (joinType : JoinKind)
    (isLeft : Bool) (leftKeys rightKeys : List K) : List (Option ℕ) :=
  let ofLeft := EcPointStore.saved numBins (leftItems cipher leftKeys)
  let ofRight := EcPointStore.saved numBins (rightItems cipher rightKeys)
  if isLeft then finalizeAndComputeJoinIndices hash isLeft ofLeft ofRight joinType
  else finalizeAndComputeJoinIndices hash isLeft ofRight ofLeft joinType

/-- `EcdhPsiJoin` at one party, slice after slice. -/
def ecdhPsiJoin (cipher : Cipher K C) (hash : C → ℕ) (numBins : ℕ) (joinType : JoinKind)
    (isLeft : Bool) (L R : List (List K)) : List (List (Option ℕ)) :=
  (range L.length).map (fun i =>
    ecdhPsiSlice cipher hash numBins joinType isLeft (L.getD i []) (R.getD i []))

variable {hash : C → ℕ} {left right : EcPointStore C} {joinType : JoinKind}

lemma probeBin_eq (l r : List (C × ℕ)) : probeBin l r = probe l r := by
  refine flatMap_congr (fun a _ => ?_)
  rw [getD_lookup_groupIndex]

lemma isMatching_allMatches (hash : C → ℕ) (left right : EcPointStore C)
  (hbins : 0 < left.numBins) (hnum : left.numBins = right.numBins)
  (hleft : (left.items.map (·.2)).Nodup) (hright : (right.items.map (·.2)).Nodup) :
  IsMatching left.items right.items (allMatches hash left right) := by
  refine IsMatching.bins (f := fun c => hash c%left.numBins) nodup_range
    (fun c => mem_range.mpr (Nat.mod_lt _ hbins)) hleft hright (fun b _ => ?_)
  rw [EcPointStore.loadBucketItems, EcPointStore.loadBucketItems, ← hnum, probeBin_eq]
  exact isMatching_probe (hleft.sublist (filter_sublist.map _))
    (hright.sublist (filter_sublist.map _))

/-- What both parties enumerate: the matches, then the rows only the outer side has. -/
def joinPairs (hash : C → ℕ) (left right : EcPointStore C) : JoinKind → List (Option ℕ × Option ℕ)
  | .inner => (allMatches hash left right).map both
  | .left => (allMatches hash left right).map both ++
      ((range left.itemCount).filter (fun i => i ∉ (allMatches hash left right).map (·.1))).map
        (fun i => (some i, none))
  | .right => (allMatches hash left right).map both ++
      ((range right.itemCount).filter (fun i => i ∉ (allMatches hash left right).map (·.2))).map
        (fun i => (none, some i))

lemma flatMap_ite_singleton {α β : Type} (xs : List α) (p : α → Prop) [DecidablePred p]
  (f : α → β) : xs.flatMap (fun x => if p x then [f x] else []) = (xs.filter p).map f := by
  induction xs with
  | nil => rfl
  | cons x xs ih => by_cases h : p x <;> simp [h, ih]

lemma computeJoinIndices_eq (isLeft : Bool) : computeJoinIndices hash left right joinType isLeft =
    (joinPairs hash left right joinType).map (fun p => if isLeft then p.1 else p.2) := by
  cases joinType <;> cases isLeft <;>
    simp [computeJoinIndices, joinPairs, both, comp_def, flatMap_ite_singleton]

lemma isJoin_joinPairs (hash : C → ℕ) (joinType : JoinKind) {numBins : ℕ} (hbins : 0 < numBins)
  (ls rs : List C) : IsJoin joinType (keyed ls) (keyed rs)
    (joinPairs hash (.saved numBins ls) (.saved numBins rs) joinType) := by
  have hm : IsMatching (keyed ls) (keyed rs)
      (allMatches hash (.saved numBins ls) (.saved numBins rs)) :=
    isMatching_allMatches hash (.saved numBins ls) (.saved numBins rs) hbins rfl
      (keyed_nodup ls) (keyed_nodup rs)
  have hcount : ∀ cs : List C, (EcPointStore.saved numBins cs).itemCount = cs.length := fun cs => by
    simp [EcPointStore.saved, EcPointStore.itemCount, keyed]
  cases joinType with
  | inner => exact hm.inner
  | left =>
    rw [joinPairs, hcount]
    exact hm.left (nodup_range.filter _) (mem_unmatched hm)
  | right =>
    rw [joinPairs, hcount]
    refine hm.right (nodup_range.filter _) (fun j => ?_)
    rw [← mem_unmatched hm.swap j]
    simp [map_map, comp_def]

lemma ecdhPsiSlice_eq (cipher : Cipher K C) (numBins : ℕ) (isLeft : Bool)
    (leftKeys rightKeys : List K) :
  ecdhPsiSlice cipher hash numBins joinType isLeft leftKeys rightKeys =
    (joinPairs hash (.saved numBins (leftItems cipher leftKeys))
      (.saved numBins (rightItems cipher rightKeys)) joinType).map
        (fun p => if isLeft then p.1 else p.2) := by
  rw [← computeJoinIndices_eq]
  cases isLeft <;> rfl

lemma ecdhPsiSlice_joined (cipher : Cipher K C) {numBins : ℕ} (hbins : 0 < numBins)
  (leftKeys rightKeys : List K) :
  let l := ecdhPsiSlice cipher hash numBins joinType true leftKeys rightKeys
  let r := ecdhPsiSlice cipher hash numBins joinType false leftKeys rightKeys
  l.length = r.length ∧ IsJoin joinType (keyed leftKeys) (keyed rightKeys) (l.zip r) := by
  have hj := isJoin_joinPairs hash joinType hbins (leftItems cipher leftKeys)
    (leftItems cipher rightKeys)
  have hright : rightItems cipher rightKeys = leftItems cipher rightKeys := by
    simp [rightItems, leftItems, cipher.comm]
  simp only [ecdhPsiSlice_eq, length_map, Bool.false_eq_true, if_true, if_false, true_and]
  rw [zip_map_fst_map_snd, hright]
  refine IsJoin.of_rekey cipher.injective ?_
  rw [← keyed_map, ← keyed_map]
  exact hj

/-- The two parties' index lists are those of the join, for every join type, number of bins
and slicing. -/
theorem ecdhPsiJoin_joined (cipher : Cipher K C) (hash : C → ℕ) {numBins : ℕ} (hbins : 0 < numBins)
  (joinType : JoinKind) {L R : List (List K)} (hlen : L.length = R.length) (hal : Aligned L R) :
  JoinedRows joinType L R (ecdhPsiJoin cipher hash numBins joinType true L R)
    (ecdhPsiJoin cipher hash numBins joinType false L R) :=
  joinedRows_of_slices hlen hal (fun _ _ => ecdhPsiSlice_joined cipher hbins _ _)

theorem ecdhPsiJoin_joined_left : let cipher : Cipher ℕ ℕ :=
    ⟨id, id, id, fun _ => rfl, fun _ _ h => h⟩
    JoinedRows .left [[1, 1, 2]] [[1, 3, 1]]
      (ecdhPsiJoin cipher id 2 .left true [[1, 1, 2]] [[1, 3, 1]])
      (ecdhPsiJoin cipher id 2 .left false [[1, 1, 2]] [[1, 3, 1]]) :=
  ecdhPsiJoin_joined _ id (by decide) .left rfl (aligned_single _ _)

end Scql.EcdhJoin
