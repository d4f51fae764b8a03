import Mathlib.Data.List.AList
import Mathlib.Data.List.Induction
import Mathlib.Data.Prod.Basic

/-! # Equality joins of keyed rows

A table is a list of rows, each a key with the name of the row. A join is described by the
pairs of row names it holds, so an algorithm that enumerates them in an order of its own is
compared with the join by membership and freedom of repetition. -/
namespace Scql.EquiJoin

open List Function

/-- Which side keeps the rows that match nothing. -/
inductive JoinKind
  | inner | left | right
  deriving DecidableEq

def JoinKind.swap : JoinKind → JoinKind
  | inner => inner
  | left => right
  | right => left

variable {K ι κ : Type}

/-- A pair of row names belongs to the join; a missing name stands for the null row. -/
inductive Joined (t : JoinKind) (L : List (K × ι)) (R : List (K × κ)) : Option ι × Option κ → Prop
  | both {k : K} {i : ι} {j : κ} : (k, i) ∈ L → (k, j) ∈ R → Joined t L R (some i, some j)
  | left {k : K} {i : ι} : t = .left → (k, i) ∈ L → (∀ j, (k, j) ∉ R) → Joined t L R (some i, none)
  | right {k : K} {j : κ} : t = .right → (k, j) ∈ R → (∀ i, (k, i) ∉ L) →
    Joined t L R (none, some j)

structure IsJoin (t : JoinKind) (L : List (K × ι)) (R : List (K × κ))
    (pairs : List (Option ι × Option κ)) : Prop where
  nodup : pairs.Nodup
  mem_iff : ∀ p, p ∈ pairs ↔ Joined t L R p

variable {t : JoinKind} {L L' : List (K × ι)} {R R' : List (K × κ)} {p : Option ι × Option κ}

lemma Joined.of_mem_iff (hL : ∀ x, x ∈ L ↔ x ∈ L') (hR : ∀ x, x ∈ R ↔ x ∈ R')
  (h : Joined t L R p) : Joined t L' R' p := by
  cases h with
  | both hi hj => exact .both ((hL _).mp hi) ((hR _).mp hj)
  | left ht hi hn => exact .left ht ((hL _).mp hi) (fun j hj => hn j ((hR _).mpr hj))
  | right ht hj hn => exact .right ht ((hR _).mp hj) (fun i hi => hn i ((hL _).mpr hi))

variable {pairs : List (Option ι × Option κ)}

lemma IsJoin.of_mem_iff (h : IsJoin t L R pairs) (hL : ∀ x, x ∈ L ↔ x ∈ L')
    (hR : ∀ x, x ∈ R ↔ x ∈ R') :
  IsJoin t L' R' pairs := by
  refine ⟨h.nodup, fun p => (h.mem_iff p).trans ⟨fun hp => hp.of_mem_iff hL hR, fun hp => ?_⟩⟩
  exact hp.of_mem_iff (fun x => (hL x).symm) (fun x => (hR x).symm)

lemma Joined.swap (h : Joined t L R p) : Joined t.swap R L p.swap := by
  cases h with
  | both hi hj => exact .both hj hi
  | left ht hi hn => exact .right (by rw [ht]; rfl) hi hn
  | right ht hj hn => exact .left (by rw [ht]; rfl) hj hn

lemma JoinKind.swap_swap (t : JoinKind) : t.swap.swap = t := by
  cases t <;> rfl

lemma IsJoin.perm {pairs' : List (Option ι × Option κ)} (h : IsJoin t L R pairs)
  (h' : IsJoin t L R pairs') : pairs.Perm pairs' :=
  (perm_ext_iff_of_nodup h.nodup h'.nodup).mpr fun p => (h.mem_iff p).trans (h'.mem_iff p).symm

lemma IsJoin.swap (h : IsJoin t L R pairs) : IsJoin t.swap R L (pairs.map Prod.swap) := by
  refine ⟨h.nodup.map Prod.swap_injective, fun p => ⟨fun hp => ?_, fun hp => ?_⟩⟩
  · obtain ⟨q, hq, rfl⟩ := mem_map.mp hp
    exact ((h.mem_iff q).mp hq).swap
  · have hq := hp.swap
    rw [t.swap_swap] at hq
    exact mem_map.mpr ⟨p.swap, (h.mem_iff _).mpr hq, Prod.swap_swap p⟩

def both (m : ι × κ) : Option ι × Option κ := (some m.1, some m.2)

lemma both_injective : Injective (both : ι × κ → _) := by
  rintro ⟨i, j⟩ ⟨i', j'⟩ h
  simpa [both] using h

/-- The pairs of names of rows with equal keys, each once. -/
structure IsMatching (L : List (K × ι)) (R : List (K × κ)) (ms : List (ι × κ)) : Prop where
  nodup : ms.Nodup
  mem_iff : ∀ i j, (i, j) ∈ ms ↔ ∃ k, (k, i) ∈ L ∧ (k, j) ∈ R

def Unmatched (L : List (K × ι)) (R : List (K × κ)) (i : ι) : Prop :=
  ∃ k, (k, i) ∈ L ∧ ∀ j, (k, j) ∉ R

variable {ms : List (ι × κ)}

lemma mem_map_both {p : Option ι × Option κ} : p ∈ ms.map both ↔ ∃ i j, (i, j) ∈ ms ∧
    p = (some i, some j) := by
  constructor
  · rintro h
    obtain ⟨⟨i, j⟩, hm, rfl⟩ := mem_map.mp h
    exact ⟨i, j, hm, rfl⟩
  · rintro ⟨i, j, hm, rfl⟩
    exact mem_map.mpr ⟨(i, j), hm, rfl⟩

section
variable (h : IsMatching L R ms)
include h

lemma IsMatching.of_mem_iff {L' : List (K × ι)} {R' : List (K × κ)} (hL : ∀ x, x ∈ L ↔ x ∈ L')
  (hR : ∀ x, x ∈ R ↔ x ∈ R') : IsMatching L' R' ms := by
  refine ⟨h.nodup, fun i j => (h.mem_iff i j).trans ?_⟩
  simp only [hL, hR]

lemma IsMatching.inner : IsJoin .inner L R (ms.map both) := by
  refine ⟨h.nodup.map both_injective, fun p => mem_map_both.trans ⟨?_, ?_⟩⟩
  · rintro ⟨i, j, hm, rfl⟩
    obtain ⟨k, hi, hj⟩ := (h.mem_iff i j).mp hm
    exact .both hi hj
  · intro hp
    cases hp with
    | both hi hj => exact ⟨_, _, (h.mem_iff _ _).mpr ⟨_, hi, hj⟩, rfl⟩
    | left ht _ _ | right ht _ _ => cases ht

lemma IsMatching.left {us : List ι} (hus : us.Nodup) (hmem : ∀ i, i ∈ us ↔ Unmatched L R i) :
  IsJoin .left L R (ms.map both ++ us.map (fun i => (some i, none))) := by
  have hinj : Injective (fun i : ι => ((some i, none) : Option ι × Option κ)) := by
    intro i i' hi
    simpa using hi
  refine ⟨?_, fun p => ?_⟩
  · refine (h.nodup.map both_injective).append (hus.map hinj) ?_
    intro p hp hq
    obtain ⟨i, j, -, rfl⟩ := mem_map_both.mp hp
    simp at hq
  · rw [mem_append, mem_map_both, mem_map]
    constructor
    · rintro (⟨i, j, hm, rfl⟩ | ⟨i, hi, rfl⟩)
      · obtain ⟨k, hi, hj⟩ := (h.mem_iff i j).mp hm
        exact .both hi hj
      · obtain ⟨k, hk, hn⟩ := (hmem i).mp hi
        exact .left rfl hk hn
    · intro hp
      cases hp with
      | both hi hj => exact .inl ⟨_, _, (h.mem_iff _ _).mpr ⟨_, hi, hj⟩, rfl⟩
      | left _ hi hn => exact .inr ⟨_, (hmem _).mpr ⟨_, hi, hn⟩, rfl⟩
      | right ht _ _ => cases ht

lemma IsMatching.swap : IsMatching R L (ms.map Prod.swap) := by
  refine ⟨h.nodup.map Prod.swap_injective, fun j i => ?_⟩
  constructor
  · intro hm
    obtain ⟨⟨i', j'⟩, hm', he⟩ := mem_map.mp hm
    obtain ⟨rfl, rfl⟩ : j' = j ∧ i' = i := by simpa using he
    obtain ⟨k, hi, hj⟩ := (h.mem_iff _ _).mp hm'
    exact ⟨k, hj, hi⟩
  · rintro ⟨k, hj, hi⟩
    exact mem_map.mpr ⟨(i, j), (h.mem_iff i j).mpr ⟨k, hi, hj⟩, rfl⟩

lemma IsMatching.right {us : List κ} (hus : us.Nodup) (hmem : ∀ j, j ∈ us ↔ Unmatched R L j) :
  IsJoin .right L R (ms.map both ++ us.map (fun j => (none, some j))) := by
  have hj := (h.swap.left hus hmem).swap
  rw [map_append, map_map, map_map, map_map] at hj
  exact hj

end

variable {i : ι}

lemma key_unique {L : List (K × ι)} (hL : (L.map (·.2)).Nodup) {k k' : K} (h : (k, i) ∈ L)
    (h' : (k', i) ∈ L) : k = k' :=
  congrArg Prod.fst (inj_on_of_nodup_map hL h h' rfl)

variable {j : κ}

section Probe

variable [DecidableEq K]

def idsOf (R : List (K × κ)) (k : K) : List κ := (R.filter (fun r => r.1 = k)).map (·.2)

lemma mem_idsOf {k : K} : j ∈ idsOf R k ↔ (k, j) ∈ R := by
  simp [idsOf]

lemma idsOf_nodup (hR : (R.map (·.2)).Nodup) (k : K) : (idsOf R k).Nodup :=
  hR.sublist (filter_sublist.map _)

def probe (L : List (K × ι)) (R : List (K × κ)) : List (ι × κ) :=
  L.flatMap (fun a => (idsOf R a.1).map (fun j => (a.2, j)))

lemma mem_probe : (i, j) ∈ probe L R ↔ ∃ k, (k, i) ∈ L ∧ (k, j) ∈ R := by
  simp only [probe, mem_flatMap, mem_map, Prod.mk.injEq, mem_idsOf]
  constructor
  · rintro ⟨⟨k, i'⟩, hi, j', hj, rfl, rfl⟩
    exact ⟨k, hi, hj⟩
  · rintro ⟨k, hi, hj⟩
    exact ⟨(k, i), hi, j, hj, rfl, rfl⟩

lemma isMatching_probe (hL : (L.map (·.2)).Nodup) (hR : (R.map (·.2)).Nodup) :
  IsMatching L R (probe L R) := by
  refine ⟨?_, fun i j => mem_probe⟩
  refine nodup_flatMap.mpr ⟨fun a _ => ?_, ?_⟩
  · exact (idsOf_nodup hR a.1).map (fun j j' h => by simpa using h)
  · refine (pairwise_map.mp hL).imp ?_
    rintro a b hne ⟨i, j⟩ ha hb
    simp only [mem_map, Prod.mk.injEq] at ha hb
    obtain ⟨-, -, rfl, -⟩ := ha
    obtain ⟨-, -, h, -⟩ := hb
    exact hne h.symm

/-- Go through the keys both sides have; for each, through the right rows and under them
through the left rows. -/
def crossProducts (ks : List K) (L : List (K × ι)) (R : List (K × κ)) : List (ι × κ) :=
  ks.flatMap (fun k => (idsOf R k).flatMap (fun j => (idsOf L k).map (fun i => (i, j))))

lemma isMatching_crossProducts (hL : (L.map (·.2)).Nodup) (hR : (R.map (·.2)).Nodup)
  {ks : List K} (hks : ks.Nodup) (hmem : ∀ k i j, (k, i) ∈ L → (k, j) ∈ R → k ∈ ks) :
  IsMatching L R (crossProducts ks L R) := by
  have hcross : ∀ k i j, (i, j) ∈ (idsOf R k).flatMap (fun j => (idsOf L k).map (fun i => (i, j)))
      ↔ (k, i) ∈ L ∧ (k, j) ∈ R := by
    intro k i j
    simp only [mem_flatMap, mem_map, Prod.mk.injEq, mem_idsOf]
    constructor
    · rintro ⟨j', hj, i', hi, rfl, rfl⟩
      exact ⟨hi, hj⟩
    · rintro ⟨hi, hj⟩
      exact ⟨j, hj, i, hi, rfl, rfl⟩
  refine ⟨nodup_flatMap.mpr ⟨fun k _ => ?_, ?_⟩, fun i j => ?_⟩
  · refine nodup_flatMap.mpr ⟨fun j _ => ?_, ?_⟩
    · exact (idsOf_nodup hL k).map (fun i i' h => by simpa using h)
    · refine (idsOf_nodup hR k).imp ?_
      rintro j j' hne ⟨i, j''⟩ h h'
      simp only [mem_map, Prod.mk.injEq] at h h'
      obtain ⟨-, -, -, rfl⟩ := h
      obtain ⟨-, -, -, h⟩ := h'
      exact hne h.symm
  · refine hks.imp ?_
    rintro k k' hne ⟨i, j⟩ h h'
    exact hne (key_unique hL ((hcross k i j).mp h).1 ((hcross k' i j).mp h').1)
  · rw [crossProducts, mem_flatMap]
    constructor
    · rintro ⟨k, -, h⟩
      exact ⟨k, (hcross k i j).mp h⟩
    · rintro ⟨k, hi, hj⟩
      exact ⟨k, hmem k i j hi hj, (hcross k i j).mpr ⟨hi, hj⟩⟩

end Probe

variable {β : Type} {bs : List β} {Ls : β → List (K × ι)} {Rs : β → List (K × κ)} {L : List (K × ι)}
    {R : List (K × κ)}

lemma Joined.left_mem {o : Option κ} (h : Joined t L R (some i, o)) : ∃ k, (k, i) ∈ L := by
  cases h with
  | both hi _ | left _ hi _ => exact ⟨_, hi⟩

lemma Joined.right_mem {o : Option ι} (h : Joined t L R (o, some j)) : ∃ k, (k, j) ∈ R := by
  cases h with
  | both _ hj | right _ hj _ => exact ⟨_, hj⟩

lemma part_unique (hn : ((bs.flatMap Ls).map (·.2)).Nodup) :
  bs.Pairwise (fun b b' => ∀ k k' i, (k, i) ∈ Ls b → (k', i) ∉ Ls b') := by
  rw [map_flatMap] at hn
  refine (nodup_flatMap.mp hn).2.imp ?_
  intro b b' hd k k' i h h'
  exact hd (mem_map.mpr ⟨_, h, rfl⟩) (mem_map.mpr ⟨_, h', rfl⟩)

lemma IsJoin.parts {ps : β → List (Option ι × Option κ)}
  (hL : ((bs.flatMap Ls).map (·.2)).Nodup) (hR : ((bs.flatMap Rs).map (·.2)).Nodup)
  (hsep : ∀ b ∈ bs, ∀ b' ∈ bs, ∀ k i j, (k, i) ∈ Ls b → (k, j) ∈ Rs b' → b = b')
  (h : ∀ b ∈ bs, IsJoin t (Ls b) (Rs b) (ps b)) :
  IsJoin t (bs.flatMap Ls) (bs.flatMap Rs) (bs.flatMap ps) := by
  refine ⟨nodup_flatMap.mpr ⟨fun b hb => (h b hb).nodup, ?_⟩, fun p => ?_⟩
  · refine (List.Pairwise.and_mem.mp ((part_unique hL).and (part_unique hR))).imp ?_
    rintro b b' ⟨hb, hb', hl, hr⟩ ⟨o, o'⟩ hp hp'
    have hj := ((h b hb).mem_iff _).mp hp
    have hj' := ((h b' hb').mem_iff _).mp hp'
    rcases o with - | i
    · rcases o' with - | j
      · cases hj
      · obtain ⟨k, hk⟩ := hj.right_mem
        obtain ⟨k', hk'⟩ := hj'.right_mem
        exact hr k k' j hk hk'
    · obtain ⟨k, hk⟩ := hj.left_mem
      obtain ⟨k', hk'⟩ := hj'.left_mem
      exact hl k k' i hk hk'
  · simp only [mem_flatMap]
    constructor
    · rintro ⟨b, hb, hp⟩
      cases ((h b hb).mem_iff p).mp hp with
      | both hi hj =>
        exact .both (mem_flatMap.mpr ⟨b, hb, hi⟩) (mem_flatMap.mpr ⟨b, hb, hj⟩)
      | left ht hi hn =>
        refine .left ht (mem_flatMap.mpr ⟨b, hb, hi⟩) (fun j hj => ?_)
        obtain ⟨b', hb', hj⟩ := mem_flatMap.mp hj
        obtain rfl := hsep b hb b' hb' _ _ _ hi hj
        exact hn j hj
      | right ht hj hn =>
        refine .right ht (mem_flatMap.mpr ⟨b, hb, hj⟩) (fun i hi => ?_)
        obtain ⟨b', hb', hi⟩ := mem_flatMap.mp hi
        obtain rfl := hsep b' hb' b hb _ _ _ hi hj
        exact hn i hi
    · intro hp
      cases hp with
      | both hi hj =>
        obtain ⟨b, hb, hi⟩ := mem_flatMap.mp hi
        obtain ⟨b', hb', hj⟩ := mem_flatMap.mp hj
        obtain rfl := hsep b hb b' hb' _ _ _ hi hj
        exact ⟨b, hb, ((h b hb).mem_iff _).mpr (.both hi hj)⟩
      | left ht hi hn =>
        obtain ⟨b, hb, hi⟩ := mem_flatMap.mp hi
        refine ⟨b, hb, ((h b hb).mem_iff _).mpr (.left ht hi (fun j hj => ?_))⟩
        exact hn j (mem_flatMap.mpr ⟨b, hb, hj⟩)
      | right ht hj hn =>
        obtain ⟨b, hb, hj⟩ := mem_flatMap.mp hj
        refine ⟨b, hb, ((h b hb).mem_iff _).mpr (.right ht hj (fun i hi => ?_))⟩
        exact hn i (mem_flatMap.mpr ⟨b, hb, hi⟩)

lemma IsMatching.of_inner {ms : List (ι × κ)} (h : IsJoin .inner L R (ms.map both)) :
  IsMatching L R ms := by
  refine ⟨h.nodup.of_map both, fun i j => ?_⟩
  have hm : (i, j) ∈ ms ↔ ((some i, some j) : Option ι × Option κ) ∈ ms.map both := by
    rw [mem_map_both]
    simp
  rw [hm, h.mem_iff]
  constructor
  · intro hp
    cases hp with
    | both hi hj => exact ⟨_, hi, hj⟩
  · rintro ⟨k, hi, hj⟩
    exact .both hi hj

variable {ms : β → List (ι × κ)}

lemma IsMatching.parts (hL : ((bs.flatMap Ls).map (·.2)).Nodup)
    (hR : ((bs.flatMap Rs).map (·.2)).Nodup)
  (hsep : ∀ b ∈ bs, ∀ b' ∈ bs, ∀ k i j, (k, i) ∈ Ls b → (k, j) ∈ Rs b' → b = b')
  (h : ∀ b ∈ bs, IsMatching (Ls b) (Rs b) (ms b)) :
  IsMatching (bs.flatMap Ls) (bs.flatMap Rs) (bs.flatMap ms) := by
  refine .of_inner ?_
  rw [map_flatMap]
  exact .parts hL hR hsep (fun b hb => (h b hb).inner)

def bin [DecidableEq β] (f : K → β) (L : List (K × ι)) (b : β) : List (K × ι) :=
  L.filter (fun r => f r.1 = b)

variable [DecidableEq β] {f : K → β}

lemma mem_bin {b : β} {r : K × ι} : r ∈ bin f L b ↔ r ∈ L ∧ f r.1 = b := by
  simp [bin]

lemma mem_bins (hL : ∀ k, f k ∈ bs) (r : K × ι) : r ∈ bs.flatMap (bin f L) ↔ r ∈ L := by
  simp [mem_bin, hL]

lemma bins_nodup (hbs : bs.Nodup) (hL : (L.map (·.2)).Nodup) :
  ((bs.flatMap (bin f L)).map (·.2)).Nodup := by
  rw [map_flatMap]
  refine nodup_flatMap.mpr ⟨fun b _ => hL.sublist (filter_sublist.map _), hbs.imp ?_⟩
  intro b b' hne i h h'
  obtain ⟨⟨k, i⟩, hk, rfl⟩ := mem_map.mp h
  obtain ⟨⟨k', i'⟩, hk', rfl⟩ := mem_map.mp h'
  rw [mem_bin] at hk hk'
  exact hne (hk.2.symm.trans ((congrArg f (key_unique hL hk.1 hk'.1)).trans hk'.2))

lemma IsMatching.bins (hbs : bs.Nodup) (hf : ∀ k, f k ∈ bs) (hL : (L.map (·.2)).Nodup)
  (hR : (R.map (·.2)).Nodup) (h : ∀ b ∈ bs, IsMatching (bin f L b) (bin f R b) (ms b)) :
  IsMatching L R (bs.flatMap ms) := by
  refine (IsMatching.parts (bins_nodup hbs hL) (bins_nodup hbs hR) ?_ h).of_mem_iff
    (mem_bins hf) (mem_bins hf)
  intro b _ b' _ k i j hi hj
  exact (mem_bin.mp hi).2.symm.trans (mem_bin.mp hj).2

variable {ι' κ' : Type}

def rename (f : ι → ι') (L : List (K × ι)) : List (K × ι') := L.map (fun r => (r.1, f r.2))

lemma mem_rename {f : ι → ι'} {k : K} {x : ι'} :
  (k, x) ∈ rename f L ↔ ∃ i, (k, i) ∈ L ∧ f i = x := by
  simp [rename]

variable {ps : List (Option ι × Option κ)} {K' : Type} {f : K → K'}

lemma IsJoin.rename {f : ι → ι'} {g : κ → κ'} (hf : Injective f) (hg : Injective g)
    (h : IsJoin t L R ps) :
  IsJoin t (rename f L) (rename g R) (ps.map (Prod.map (Option.map f) (Option.map g))) := by
  refine ⟨h.nodup.map ((Option.map_injective hf).prodMap (Option.map_injective hg)), fun p => ?_⟩
  rw [mem_map]
  constructor
  · rintro ⟨q, hq, rfl⟩
    cases (h.mem_iff q).mp hq with
    | both hi hj => exact .both (mem_rename.mpr ⟨_, hi, rfl⟩) (mem_rename.mpr ⟨_, hj, rfl⟩)
    | left ht hi hn =>
      refine .left ht (mem_rename.mpr ⟨_, hi, rfl⟩) (fun x hx => ?_)
      obtain ⟨j, hj, -⟩ := mem_rename.mp hx
      exact hn j hj
    | right ht hj hn =>
      refine .right ht (mem_rename.mpr ⟨_, hj, rfl⟩) (fun x hx => ?_)
      obtain ⟨i, hi, -⟩ := mem_rename.mp hx
      exact hn i hi
  · intro hp
    cases hp with
    | both hi' hj' =>
      obtain ⟨i, hi, rfl⟩ := mem_rename.mp hi'
      obtain ⟨j, hj, rfl⟩ := mem_rename.mp hj'
      exact ⟨_, (h.mem_iff _).mpr (.both hi hj), rfl⟩
    | left ht hi' hn =>
      obtain ⟨i, hi, rfl⟩ := mem_rename.mp hi'
      refine ⟨_, (h.mem_iff _).mpr (.left ht hi (fun j hj => ?_)), rfl⟩
      exact hn _ (mem_rename.mpr ⟨j, hj, rfl⟩)
    | right ht hj' hn =>
      obtain ⟨j, hj, rfl⟩ := mem_rename.mp hj'
      refine ⟨_, (h.mem_iff _).mpr (.right ht hj (fun i hi => ?_)), rfl⟩
      exact hn _ (mem_rename.mpr ⟨i, hi, rfl⟩)

/-- The same rows under keys that tell the same rows apart. -/
def rekey {K' : Type} (f : K → K') (L : List (K × ι)) : List (K' × ι) :=
  L.map (fun r => (f r.1, r.2))

lemma mem_rekey {x : K'} : (x, i) ∈ rekey f L ↔ ∃ k, (k, i) ∈ L ∧ f k = x := by
  simp [rekey]

lemma Joined.of_rekey (hf : Injective f) (h : Joined t (rekey f L) (rekey f R) p) :
    Joined t L R p := by
  cases h with
  | both hi' hj' =>
    obtain ⟨k, hi, rfl⟩ := mem_rekey.mp hi'
    obtain ⟨k', hj, hk⟩ := mem_rekey.mp hj'
    obtain rfl := hf hk
    exact .both hi hj
  | left ht hi' hn =>
    obtain ⟨k, hi, rfl⟩ := mem_rekey.mp hi'
    exact .left ht hi (fun j hj => hn j (mem_rekey.mpr ⟨k, hj, rfl⟩))
  | right ht hj' hn =>
    obtain ⟨k, hj, rfl⟩ := mem_rekey.mp hj'
    exact .right ht hj (fun i hi => hn i (mem_rekey.mpr ⟨k, hi, rfl⟩))

lemma Joined.rekey (hf : Injective f) (h : Joined t L R p) :
  Joined t (rekey f L) (rekey f R) p := by
  cases h with
  | both hi hj => exact .both (mem_rekey.mpr ⟨_, hi, rfl⟩) (mem_rekey.mpr ⟨_, hj, rfl⟩)
  | left ht hi hn =>
    refine .left ht (mem_rekey.mpr ⟨_, hi, rfl⟩) (fun j hj => ?_)
    obtain ⟨k, hj, hk⟩ := mem_rekey.mp hj
    exact hn j (hf hk ▸ hj)
  | right ht hj hn =>
    refine .right ht (mem_rekey.mpr ⟨_, hj, rfl⟩) (fun i hi => ?_)
    obtain ⟨k, hi, hk⟩ := mem_rekey.mp hi
    exact hn i (hf hk ▸ hi)

lemma IsJoin.of_rekey (hf : Injective f)
  (h : IsJoin t (EquiJoin.rekey f L) (EquiJoin.rekey f R) ps) :
  IsJoin t L R ps :=
  ⟨h.nodup, fun p => (h.mem_iff p).trans ⟨fun hp => hp.of_rekey hf, fun hp => hp.rekey hf⟩⟩

variable [DecidableEq K]

/-- Group row names by key, appending each to the names seen under its key. -/
def groupIndex (R : List (K × κ)) : AList (fun _ : K => List κ) :=
  R.foldl (fun m r => m.insert r.1 ((m.lookup r.1).getD [] ++ [r.2])) ∅

lemma lookup_groupIndex (R : List (K × κ)) (k : K) :
  (groupIndex R).lookup k = if idsOf R k = [] then none else some (idsOf R k) := by
  induction R using reverseRecOn with
  | nil => simp [groupIndex, idsOf]
  | append_singleton R r ih =>
    have hstep : groupIndex (R ++ [r]) = (groupIndex R).insert r.1
        (((groupIndex R).lookup r.1).getD [] ++ [r.2]) := by
      simp [groupIndex, foldl_append]
    have hids : idsOf (R ++ [r]) k = idsOf R k ++ if r.1 = k then [r.2] else [] := by
      by_cases hk : r.1 = k <;> simp [idsOf, filter_append, hk]
    rw [hstep, hids]
    by_cases hk : k = r.1
    · subst hk
      rw [AList.lookup_insert, ih]
      split_ifs with h <;> simp_all
    · rw [AList.lookup_insert_ne hk, ih, if_neg (Ne.symm hk), append_nil]

lemma getD_lookup_groupIndex (R : List (K × κ)) (k : K) :
    ((groupIndex R).lookup k).getD [] = idsOf R k := by
  rw [lookup_groupIndex]
  split_ifs with h
  · rw [h]
    rfl
  · rfl

lemma zip_map_fst_map_snd {α β : Type} (ps : List (α × β)) :
  (ps.map Prod.fst).zip (ps.map Prod.snd) = ps := by
  rw [zip_map']
  exact map_id _

lemma zip_flatMap {α β γ : Type} (xs : List γ) (f : γ → List α) (g : γ → List β)
  (h : ∀ x ∈ xs, (f x).length = (g x).length) : (xs.flatMap f).length = (xs.flatMap g).length ∧
    (xs.flatMap f).zip (xs.flatMap g) = xs.flatMap (fun x => (f x).zip (g x)) := by
  induction xs with
  | nil => exact ⟨rfl, rfl⟩
  | cons x xs ih =>
    obtain ⟨hlen, hzip⟩ := ih (fun y hy => h y (by simp [hy]))
    have hx := h x (by simp)
    refine ⟨by simp [hx, hlen], ?_⟩
    rw [flatMap_cons, flatMap_cons, zip_append hx, hzip, flatMap_cons]

end Scql.EquiJoin
