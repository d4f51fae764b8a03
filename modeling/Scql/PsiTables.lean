import Scql.EquiJoin

/-! # Key tensors and join results

A key tensor is a list of slices: one for a plain tensor, one per bucket for a tensor made by
bucketing. A join of two such tensors works slice by slice, and each party only builds the row
numbers of its own side; a row is named by its slice and its place there. -/
namespace Scql.PsiTables

open EquiJoin List Function

variable {K : Type}

def keyed (keys : List K) : List (K × ℕ) := keys.zipIdx

lemma mem_keyed {keys : List K} {k : K} {i : ℕ} : (k, i) ∈ keyed keys ↔ keys[i]? = some k := by
  rw [keyed, mem_zipIdx_iff_getElem?]

lemma keyed_nodup (keys : List K) : ((keyed keys).map (·.2)).Nodup := by
  have hmap : (keyed keys).map (·.2) = range keys.length := by
    rw [keyed, zipIdx_map_snd, range_eq_range']
  rw [hmap]
  exact nodup_range

lemma keyed_map {C : Type} (f : K → C) (xs : List K) : keyed (xs.map f) = rekey f (keyed xs) := by
  rw [keyed, keyed, rekey, zipIdx_map]
  rfl

lemma mem_unmatched {cs : List K} {R : List (K × ℕ)} {ms : List (ℕ × ℕ)}
  (h : IsMatching (keyed cs) R ms) (i : ℕ) :
  i ∈ (range cs.length).filter (fun i => i ∉ ms.map (·.1)) ↔ Unmatched (keyed cs) R i := by
  simp only [mem_filter, mem_range, decide_eq_true_eq, Unmatched]
  constructor
  · rintro ⟨hi, hn⟩
    refine ⟨cs[i], mem_keyed.mpr (by simp [hi]), fun j hj => hn ?_⟩
    exact mem_map.mpr ⟨(i, j), (h.mem_iff i j).mpr ⟨_, mem_keyed.mpr (by simp [hi]), hj⟩, rfl⟩
  · rintro ⟨k, hk, hn⟩
    obtain ⟨hi, -⟩ := List.getElem?_eq_some_iff.mp (mem_keyed.mp hk)
    refine ⟨hi, fun hm => ?_⟩
    obtain ⟨⟨i', j⟩, hij, rfl⟩ := mem_map.mp hm
    obtain ⟨k', hk', hj⟩ := (h.mem_iff _ _).mp hij
    exact hn j (key_unique (keyed_nodup cs) hk' hk ▸ hj)

/-- What the two sides append after the matches: the rows without a match on the outer side,
nulls on the other. -/
def tails : JoinKind → List ℕ → List ℕ → List (Option ℕ) × List (Option ℕ)
  | .inner, _, _ => ([], [])
  | .left, us, _ => (us.map some, replicate us.length none)
  | .right, _, vs => (replicate vs.length none, vs.map some)

lemma isJoin_tails {L R : List (K × ℕ)} {l r us vs : List ℕ} (hlen : l.length = r.length)
  (hm : IsMatching L R (l.zip r)) (hus : us.Nodup ∧ ∀ i, i ∈ us ↔ Unmatched L R i)
  (hvs : vs.Nodup ∧ ∀ j, j ∈ vs ↔ Unmatched R L j) (kind : JoinKind) :
  let left := l.map some ++ (tails kind us vs).1
  let right := r.map some ++ (tails kind us vs).2
  left.length = right.length ∧ IsJoin kind L R (left.zip right) := by
  intro left right
  have hzip :
    left.zip right = (l.zip r).map both ++ (tails kind us vs).1.zip (tails kind us vs).2 := by
    rw [zip_append (by simpa using hlen), zip_map]
    rfl
  rw [hzip]
  refine ⟨by cases kind <;> simp [left, right, tails, hlen], ?_⟩
  cases kind with
  | inner => simpa [tails] using hm.inner
  | left =>
    rw [tails, ← map_const', zip_map']
    exact hm.left hus.1 hus.2
  | right =>
    rw [tails, ← map_const', zip_map']
    exact hm.right hvs.1 hvs.2

def rows (slices : List (List K)) : List (K × (ℕ × ℕ)) :=
  (range slices.length).flatMap (fun s => rename (Prod.mk s) (keyed (slices.getD s [])))

/-- Index lists of the slices, as rows of the whole tensor. -/
def rowRefs (result : List (List (Option ℕ))) : List (Option (ℕ × ℕ)) :=
  (range result.length).flatMap (fun s => (result.getD s []).map (Option.map (Prod.mk s)))

def Aligned (L R : List (List K)) : Prop :=
  ∀ s s' k, k ∈ L.getD s [] → k ∈ R.getD s' [] → s = s'

lemma aligned_single (l r : List K) : Aligned [l] [r] := by
  intro s s' k hl hr
  cases s <;> cases s' <;> simp_all

/-- The index lists the two parties built have equal length and, zipped, are the pairs of
rows of the join, each once. -/
def JoinedRows (t : JoinKind) (L R : List (List K)) (left right : List (List (Option ℕ))) : Prop :=
  (rowRefs left).length = (rowRefs right).length ∧
    IsJoin t (rows L) (rows R) ((rowRefs left).zip (rowRefs right))

lemma rows_nodup (slices : List (List K)) : ((rows slices).map (·.2)).Nodup := by
  rw [rows, map_flatMap]
  refine nodup_flatMap.mpr ⟨fun s _ => ?_, ?_⟩
  · rw [rename, map_map]
    have hinj : Injective (Prod.mk s : ℕ → ℕ × ℕ) := fun i i' h => (Prod.mk.inj h).2
    simpa [comp_def] using (keyed_nodup (slices.getD s [])).map hinj
  · refine nodup_range.imp ?_
    rintro s s' hne ⟨a, b⟩ h h'
    simp only [rename, map_map, mem_map, comp_apply, Prod.mk.injEq] at h h'
    obtain ⟨-, -, rfl, -⟩ := h
    obtain ⟨-, -, h, -⟩ := h'
    exact hne h.symm

lemma mem_of_mem_rename {s : ℕ} {keys : List K} {k : K} {x : ℕ × ℕ}
  (h : (k, x) ∈ rename (Prod.mk s) (keyed keys)) : k ∈ keys := by
  obtain ⟨i, hi, -⟩ := mem_rename.mp h
  exact mem_of_getElem? (mem_keyed.mp hi)

lemma rowRefs_map_range (n : ℕ) (f : ℕ → List (Option ℕ)) : rowRefs ((range n).map f) =
    (range n).flatMap (fun s => (f s).map (Option.map (Prod.mk s))) := by
  rw [rowRefs, length_map, length_range]
  refine flatMap_congr (fun s hs => ?_)
  simp [mem_range.mp hs]

lemma joinedRows_of_slices {t : JoinKind} {L R : List (List K)} (hlen : L.length = R.length)
  (hal : Aligned L R) {left right : ℕ → List (Option ℕ)}
  (hs : ∀ s < L.length, (left s).length = (right s).length ∧
    IsJoin t (keyed (L.getD s [])) (keyed (R.getD s [])) ((left s).zip (right s))) :
  JoinedRows t L R ((range L.length).map left) ((range L.length).map right) := by
  rw [JoinedRows, rowRefs_map_range, rowRefs_map_range]
  obtain ⟨hlen', hzip⟩ := zip_flatMap (range L.length)
    (fun s => (left s).map (Option.map (Prod.mk s)))
      (fun s => (right s).map (Option.map (Prod.mk s)))
    (fun s h => by simpa using (hs s (mem_range.mp h)).1)
  refine ⟨hlen', ?_⟩
  rw [hzip, rows, rows, ← hlen]
  refine IsJoin.parts (rows_nodup L) ?_ ?_ ?_
  · rw [hlen]
    exact rows_nodup R
  · intro s _ s' _ k i j hi hj
    exact hal s s' k (mem_of_mem_rename hi) (mem_of_mem_rename hj)
  · intro s h
    have hinj : Injective (Prod.mk s : ℕ → ℕ × ℕ) := fun i i' h => (Prod.mk.inj h).2
    have hj := (hs s (mem_range.mp h)).2.rename hinj hinj
    rwa [← zip_map] at hj

end Scql.PsiTables
