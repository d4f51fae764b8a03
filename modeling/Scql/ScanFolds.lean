import Scql.SecretJoinGroups

/-! # Scans as folds

A scan is defined for at most `2 ^ 30` cells, since its rounds shift an `int`. Every place of its
result is the fold of the cells up to it, and the reverse expansion of groups hands
every place the value of the end of its group. -/
namespace Scql.SecretJoin

open PrefixScan List

variable {V : Type} [AddCommGroup V] {op : V × ℤ → V × ℤ → V × ℤ} {good : V × ℤ → Prop}

/-- The values of the folds from left to right; `op` takes the new cell first. -/
def folds (op : V × ℤ → V × ℤ → V × ℤ) : List (V × ℤ) → List V
  | [] => []
  | c::cs => (cs.scanl (fun acc c => op c acc) c).map (·.1)

omit [AddCommGroup V] in
lemma map_upTo_eq_folds (h : AssocOn op good) {cs : List (V × ℤ)} {a : ℕ → V × ℤ}
    (ha : ∀ j, good (a j))
  (hcs : ∀ j (hj : j < cs.length), a j = cs[j]) :
  (range cs.length).map (fun j => (upTo op a j).1) = folds op cs := by
  cases cs with
  | nil => rfl
  | cons c cs =>
    refine ext_getElem (by simp [folds]) fun j hj hj' => ?_
    have hupTo : ∀ j (hj : j < (cs.scanl (fun acc c => op c acc) c).length),
        upTo op a j = (cs.scanl (fun acc c => op c acc) c)[j] := by
      intro j
      induction j with
      | zero =>
        intro hj
        rw [upTo_zero, hcs 0 (Nat.succ_pos _), getElem_scanl_zero]
        rfl
      | succ j ih =>
        intro hj
        have hlt : j < cs.length := by simpa using hj
        rw [upTo_succ h ha, ih (by omega), hcs (j+1) (Nat.succ_lt_succ hlt), getElem_succ_scanl]
        rfl
    rw [getElem_map, getElem_range]
    simp only [folds, getElem_map]
    rw [hupTo]

lemma prefixes_eq_folds {values : List V} {mask : List ℤ} (hlen : values.length = mask.length)
  (h : AssocOn op good) (hc : ∀ j, good (cells values mask j)) :
  prefixes op values mask = folds op (values.zip mask) := by
  rw [← map_upTo_eq_folds h hc, length_zip, ← hlen, min_self, prefixes]
  intro j hj
  have hj : j < values.length ∧ j < mask.length := by simpa using hj
  rw [cells, getD_eq_getElem _ _ hj.1, getD_eq_getElem _ _ hj.2, getElem_zip]

/-- A scan of a marked column is the fold of its cells exactly if the column is not too long. -/
theorem scan_eq_folds_iff (h : AssocOn op good) (hgood : ∀ v m, m = 0 ∨ m = 1 → good (v, m))
  (values : List V) (mask : List ℤ) (hlen : values.length = mask.length)
  (hmask : ∀ m ∈ mask, m = 0 ∨ m = 1) :
  scan op values mask = some (folds op (values.zip mask)) ↔ values.length ≤ 2^30 := by
  have hc : ∀ j, good (cells values mask j) := fun j => hgood _ _ (mask_getD hmask j)
  rw [scan_eq_some_iff h hc, prefixes_eq_folds hlen h hc]
  exact and_iff_left rfl

theorem scan_eq_folds_sums : scan addWithin [5, 7, 9] [0, 1, 0] =
  some (folds addWithin ([5, 7, 9].zip [0, 1, 0])) :=
  (scan_eq_folds_iff addWithin_assoc (fun _ _ _ => trivial) [5, 7, 9] [0, 1, 0] rfl
    (by decide)).mpr (by decide)

theorem scan_long_ne_folds :
  ¬scan addWithin (replicate (2^31+1) 1) (replicate (2^31+1) 1) =
    some (folds addWithin ((replicate (2^31+1) 1).zip (replicate (2^31+1) 1))) := by
  rw [scan_eq_none (by rw [length_replicate]; decide)]
  exact nofun

/-- `ExpandGroupValueReversely` of several columns. -/
def expandInputs (inputs : List (List V)) (mark : List ℤ) : Option (List (List V)) :=
  inputs.mapM (expandGroupValueReversely · mark)

/-- Every place holds the value of the first place from there on that is marked `0`, or of the
last place. -/
def Expanded (mark : List ℤ) (v out : List V) : Prop :=
  out.length = v.length ∧ ∀ i < v.length, ∃ j < v.length, i ≤ j ∧
    (∀ k, i ≤ k → k < j → mark.getD k 0 = 1) ∧
    (mark.getD j 0 = 0 ∨ j+1 = v.length) ∧ out.getD i 0 = v.getD j 0

lemma expanded_expand {v : List V} {mark : List ℤ} (hlen : v.length = mark.length)
  (hmark : ∀ m ∈ mark, m = 0 ∨ m = 1) : Expanded mark v (expand (v.zip mark)) := by
  induction v generalizing mark with
  | nil => exact ⟨rfl, fun i hi => absurd hi (Nat.not_lt_zero i)⟩
  | cons x v ih =>
    cases mark with
    | nil => cases hlen
    | cons m mark =>
      obtain ⟨hout, hplaces⟩ :=
        ih (Nat.succ_inj.mp hlen) fun m' hm' => hmark m' (mem_cons_of_mem _ hm')
      refine ⟨congrArg Nat.succ hout, fun i hi => ?_⟩
      cases i with
      | succ i =>
        obtain ⟨j, hj, hij, hones, hend, hvalue⟩ := hplaces i (Nat.lt_of_succ_lt_succ hi)
        refine ⟨j+1, Nat.succ_lt_succ hj, Nat.succ_le_succ hij, fun k hik hkj => ?_, ?_, hvalue⟩
        · obtain ⟨k, rfl⟩ := Nat.exists_eq_succ_of_ne_zero (by omega : k ≠ 0)
          exact hones k (by omega) (by omega)
        · exact hend.imp id (congrArg Nat.succ)
      | zero =>
        rcases hmark m mem_cons_self with rfl | rfl
        · exact ⟨0, hi, le_rfl, fun k _ hk => absurd hk (Nat.not_lt_zero k), .inl rfl, rfl⟩
        · -- the place takes the value of the next one, if there is one
          cases v with
          | nil => exact ⟨0, hi, le_rfl, fun k _ hk => absurd hk (Nat.not_lt_zero k), .inr rfl, rfl⟩
          | cons y v =>
            obtain ⟨j, hj, -, hones, hend, hvalue⟩ := hplaces 0 (Nat.succ_pos _)
            refine ⟨j+1, Nat.succ_lt_succ hj, Nat.zero_le _, fun k _ hkj => ?_,
              hend.imp id (congrArg Nat.succ), ?_⟩
            · cases k with
              | zero => rfl
              | succ k => exact hones k (Nat.zero_le k) (Nat.lt_of_succ_lt_succ hkj)
            · rw [zip_cons_cons, expand, if_pos rfl]
              generalize expand ((y::v).zip mark) = rest at hout hvalue
              cases rest with
              | nil => cases hout
              | cons r rest => exact hvalue

/-- The groups of all inputs are expanded exactly if the scans are defined. -/
theorem expandInputs_iff (inputs : List (List V)) (mark : List ℤ)
  (hlen : ∀ v ∈ inputs, v.length = mark.length) (hmark : ∀ m ∈ mark, m = 0 ∨ m = 1) :
  (∃ outs, expandInputs inputs mark = some outs ∧ Forall₂ (Expanded mark) inputs outs) ↔
    inputs = [] ∨ mark.length ≤ 2^30 := by
  induction inputs with
  | nil => exact iff_of_true ⟨[], rfl, .nil⟩ (.inl rfl)
  | cons v inputs ih =>
    have ih := ih fun v' hv' => hlen v' (mem_cons_of_mem _ hv')
    have hv := hlen v mem_cons_self
    have hscan : ∀ out, expandGroupValueReversely v mark = some out ↔
        mark.length ≤ 2^30 ∧ expand (v.zip mark) = out :=
      fun out => hv ▸ expandGroupValueReversely_eq_some_iff hv hmark
    simp only [expandInputs, mapM_cons, Option.bind_eq_bind, Option.bind_eq_some_iff, hscan,
      reduceCtorEq, false_or] at ih ⊢
    constructor
    · rintro ⟨_, ⟨_, ⟨hle, -⟩, -⟩, -⟩
      exact hle
    · intro hle
      obtain ⟨outs, houts, hall⟩ := ih.mpr (.inr hle)
      exact ⟨_, ⟨_, ⟨hle, rfl⟩, _, houts, rfl⟩, .cons (expanded_expand hv hmark) hall⟩

theorem expandInputs_groups : ∃ outs, expandInputs [[1, 2, 3, 4]] [1, 0, 1, 1] = some outs ∧
  Forall₂ (Expanded [1, 0, 1, 1]) [[1, 2, 3, (4 : ℤ)]] outs :=
  (expandInputs_iff [[1, 2, 3, 4]] [1, 0, 1, 1] (by decide) (by decide)).mpr (.inr (by decide))

theorem not_expandInputs_long :
  ¬∃ outs, expandInputs [replicate (2^31+1) (1 : ℤ)] (replicate (2^31+1) 0) = some outs ∧
    Forall₂ (Expanded (replicate (2^31+1) 0)) [replicate (2^31+1) 1] outs := by
  rintro ⟨outs, houts, -⟩
  rw [expandInputs, mapM_cons,
    expandGroupValueReversely_eq_none (by rw [length_replicate]; decide)] at houts
  cases houts

end Scql.SecretJoin
