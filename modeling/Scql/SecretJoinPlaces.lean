import Mathlib.Data.List.Perm.Subperm
import Scql.SecretJoinGroups

/-! # Places, blocks and copies

Every row with `c` copies in the result is sent to the end of a block of `c` places; the rows
without copies follow behind all blocks. Copying from the right then fills the blocks. -/
namespace Scql.SecretJoin

open List

/-- The places of rows with the given numbers of copies: blocks from `a` on, rows without
copies from `b` on. -/
def places (a b : ℕ) : List ℕ → List ℕ
  | [] => []
  | c::cs => if c = 0 then b::places a (b+1) cs else (a+c-1)::places (a+c) b cs

def marksOf (cs : List ℕ) : List ℤ := cs.map (fun c => if 0 < c then 1 else 0)

lemma zipWith3_places (a b : ℕ) (cs : List ℕ) :
    List.zipWith3 (fun m a b => m*(a-b)+b-1) (marksOf cs)
      (runningSums a (cs.map Int.ofNat)) (runningSums b ((marksOf cs).map (fun m => 1-m))) =
    (places a b cs).map Int.ofNat := by
  induction cs generalizing a b with
  | nil => rfl
  | cons c cs ih =>
    rcases Nat.eq_zero_or_pos c with rfl | hc
    · have hrest := ih a (b+1)
      simp only [marksOf, map_cons, runningSums, List.zipWith3, places, if_true] at hrest ⊢
      simpa using hrest
    · have hrest := ih (a+c) b
      have hne : c ≠ 0 := by omega
      simp only [marksOf, map_cons, runningSums, List.zipWith3, places, if_pos hc,
        if_neg hne] at hrest ⊢
      simp only [sub_self, add_zero, Int.ofNat_eq_natCast, Nat.cast_add, cons.injEq] at hrest ⊢
      exact ⟨by omega, hrest⟩

lemma sum_unmarked (cs : List ℕ) : ((marksOf cs).map (fun m => 1-m)).sum = (cs.count 0 : ℤ) := by
  induction cs with
  | nil => rfl
  | cons c cs ih =>
    rw [marksOf, map_map] at ih ⊢
    rcases Nat.eq_zero_or_pos c with rfl | hc
    · simp [ih, add_comm]
    · have hne : c ≠ 0 := by omega
      simp [hc, ih, hne]

lemma countPosition_eq (cs : List ℕ) : countPosition (cs.map Int.ofNat) (marksOf cs) =
    ((places 0 cs.sum cs).map Int.ofNat, ((cs.sum+cs.count 0 : ℕ) : ℤ)) := by
  have hsum : (cs.map Int.ofNat).sum = (cs.sum : ℤ) := by
    induction cs with
    | nil => rfl
    | cons c cs ih => simp [ih]
  have hplaces := zipWith3_places 0 cs.sum cs
  rw [Nat.cast_zero] at hplaces
  rw [countPosition, hsum, hplaces, sum_unmarked, Nat.cast_add]

lemma length_places (a b : ℕ) (cs : List ℕ) : (places a b cs).length = cs.length := by
  induction cs generalizing a b with
  | nil => rfl
  | cons c cs ih =>
    rw [places]
    split_ifs <;> simp [ih]

variable {cs : List ℕ} {a b : ℕ}

lemma mem_places {x : ℕ} (hx : x ∈ places a b cs) :
    (a ≤ x ∧ x < a+cs.sum) ∨ (b ≤ x ∧ x < b+cs.count 0) := by
  induction cs generalizing a b with
  | nil => simp [places] at hx
  | cons c cs ih =>
    rw [places] at hx
    split_ifs at hx with hc
    · subst hc
      rw [sum_cons, count_cons_self]
      rcases mem_cons.mp hx with rfl | hx
      · omega
      · have := ih hx
        omega
    · rw [sum_cons, count_cons_of_ne (by omega)]
      rcases mem_cons.mp hx with rfl | hx
      · omega
      · have := ih hx
        omega

lemma places_nodup (hab : a+cs.sum ≤ b) : (places a b cs).Nodup := by
  induction cs generalizing a b with
  | nil => exact nodup_nil
  | cons c cs ih =>
    rw [sum_cons] at hab
    rw [places]
    split_ifs with hc
    · refine nodup_cons.mpr ⟨fun hx => ?_, ih (by omega)⟩
      have := mem_places hx
      omega
    · refine nodup_cons.mpr ⟨fun hx => ?_, ih (by omega)⟩
      have := mem_places hx
      omega

lemma places_pos {e : ℕ} (he : a+cs.sum ≤ e) :
    Forall₂ (fun c x => c ≠ 0 → x < e) cs (places a b cs) := by
  induction cs generalizing a b with
  | nil => exact .nil
  | cons c cs ih =>
    rw [sum_cons] at he
    rw [places]
    split_ifs with hc
    · exact .cons (fun h => absurd hc h) (ih (by omega))
    · exact .cons (fun _ => by omega) (ih (by omega))

variable {V T : Type} [AddCommGroup V] [DecidableEq T]

lemma buildPerm_eq (spu : Spu T) {p pi : List ℤ} (hp : p.Nodup) (hpi : pi.Nodup) (hsub : p ⊆ pi) :
  buildPerm spu p pi = some (p ++ pi.filter (fun x => x ∉ p)) ∧
    (p ++ pi.filter (fun x => x ∉ p)).Perm pi := by
  have hset : ∀ x, spu.soPrf x ∈ p.map spu.soPrf ↔ x ∈ p := fun x =>
    mem_map_of_injective spu.injective
  have hperm : (p ++ pi.filter (fun x => x ∉ p)).Perm pi := by
    refine (perm_ext_iff_of_nodup ?_ hpi).mpr (fun x => ?_)
    · refine nodup_append.mpr ⟨hp, hpi.filter _, fun a ha b hb => ?_⟩
      rintro rfl
      exact of_decide_eq_true (mem_filter.mp hb).2 ha
    · rw [mem_append, mem_filter, decide_eq_true_eq]
      constructor
      · rintro (hx | hx)
        · exact hsub hx
        · exact hx.1
      · intro hx
        by_cases hin : x ∈ p
        · exact .inl hin
        · exact .inr ⟨hx, hin⟩
  refine ⟨?_, hperm⟩
  have hlen := hperm.length_eq
  rw [length_append] at hlen
  simp only [buildPerm, hset]
  rw [if_pos ⟨hp.map spu.injective, by omega⟩]

variable {m : ℕ} {seq : List ℤ}

lemma distribute_spec (spu : Spu T) {ps : List ℕ} {values : List V}
  (hseq : seq.Perm ((range m).map Int.ofNat)) (hnodup : ps.Nodup) (hlt : ∀ x ∈ ps, x < m)
  (hlen : ps.length = values.length) :
  ∃ d, distribute spu seq (ps.map Int.ofNat) values = some d ∧ d.length = m ∧
    Forall₂ (fun x v => d[x]? = some (v, 0)) ps values ∧ ∀ x < m, x ∉ ps → d[x]? = some (0, 1) := by
  have hinj : Function.Injective Int.ofNat := fun _ _ h => Int.ofNat.inj h
  have hseqLen : seq.length = m := by simpa using hseq.length_eq
  have hpsNodup : (ps.map Int.ofNat).Nodup := hnodup.map hinj
  have hsub : ps.map Int.ofNat ⊆ seq := by
    intro x hx
    obtain ⟨y, hy, rfl⟩ := mem_map.mp hx
    exact hseq.mem_iff.mpr (mem_map.mpr ⟨y, mem_range.mpr (hlt y hy), rfl⟩)
  obtain ⟨hbuild, hperm⟩ :=
    buildPerm_eq spu hpsNodup (hseq.nodup_iff.mpr (nodup_range.map hinj)) hsub
  set perm := ps.map Int.ofNat ++ seq.filter (fun x => x ∉ ps.map Int.ofNat) with hdef
  have hle : values.length ≤ m := by
    have := hperm.length_eq
    simp only [hdef, length_append, length_map] at this
    omega
  have hfill : (fillDummy values seq.length).length = m := by
    simp [fillDummy, hseqLen, hle]
  have hd : ∀ x < m, ((range m).map (fun x =>
      (fillDummy values seq.length).getD (perm.idxOf (Int.ofNat x)) 0))[x]? =
        some ((fillDummy values seq.length).getD (perm.idxOf (Int.ofNat x)) 0) := by
    intro x hx
    simp [hx]
  refine ⟨(range m).map (fun x =>
    (fillDummy values seq.length).getD (perm.idxOf (Int.ofNat x)) 0), ?_, by simp, ?_, ?_⟩
  · rw [distribute, hbuild]
    show invPermute perm _ = _
    rw [invPermute, hfill, if_pos (hperm.trans hseq)]
  · refine forall₂_iff_get.mpr ⟨hlen, fun i hi hi' => ?_⟩
    have hidx : perm.idxOf (Int.ofNat ps[i]) = i := by
      rw [hdef, idxOf_append_of_mem (mem_map.mpr ⟨ps[i], getElem_mem hi, rfl⟩)]
      have := Nodup.idxOf_getElem hpsNodup i (by simpa using hi)
      rwa [getElem_map] at this
    rw [get_eq_getElem, hd _ (hlt _ (getElem_mem hi)), hidx, fillDummy,
      getD_append _ _ _ _ (by simpa using hi'), getD_eq_getElem _ _ (by simpa using hi')]
    simp
  · intro x hx hout
    have hout' : Int.ofNat x ∉ ps.map Int.ofNat := by
      rw [mem_map_of_injective hinj]
      exact hout
    have hmem : Int.ofNat x ∈ perm := (hperm.trans hseq).mem_iff.mpr
      (mem_map.mpr ⟨x, mem_range.mpr hx, rfl⟩)
    have hidx : perm.idxOf (Int.ofNat x) < m := by
      have := idxOf_lt_length_of_mem hmem
      rwa [(hperm.trans hseq).length_eq, length_map, length_range] at this
    have hge : values.length ≤ perm.idxOf (Int.ofNat x) := by
      rw [hdef, idxOf_append_of_notMem hout', length_map]
      omega
    rw [hd x hx, fillDummy, getD_append_right _ _ _ _ (by simpa using hge),
      getD_eq_getElem _ _ (by rw [length_replicate, length_map]; omega), getElem_replicate]

def block (c : ℕ) (v : V) : List (V × ℤ) :=
  if c = 0 then [] else replicate (c-1) (0, 1) ++ [(v, 0)]

def blocks (cs : List ℕ) (vs : List V) : List (V × ℤ) :=
  (cs.zip vs).flatMap (fun x => block x.1 x.2)

def copies (cs : List ℕ) (vs : List V) : List V :=
  (cs.zip vs).flatMap (fun x => replicate x.1 x.2)

variable {vs : List V}

lemma take_eq_blocks {d : List (V × ℤ)} (hab : a+cs.sum ≤ b)
  (hreal : Forall₂ (fun x v => d[x]? = some (v, 0)) (places a b cs) vs)
  (hdummy : ∀ x, a ≤ x → x < a+cs.sum → x ∉ places a b cs → d[x]? = some (0, 1)) :
  (d.drop a).take cs.sum = blocks cs vs := by
  induction cs generalizing a b vs with
  | nil => simp [blocks]
  | cons c cs ih =>
    rw [sum_cons] at hab hdummy ⊢
    rw [places] at hreal hdummy
    split_ifs at hreal hdummy with hc
    · subst hc
      obtain ⟨v, vs, hv, hvs, rfl⟩ := forall₂_cons_left_iff.mp hreal
      rw [Nat.zero_add] at *
      rw [ih (by omega) hvs]
      · simp [blocks, block]
      · intro x hx hx' hout
        refine hdummy x hx hx' (fun hm => ?_)
        rcases mem_cons.mp hm with rfl | hm
        · omega
        · exact hout hm
    · obtain ⟨v, vs, hv, hvs, rfl⟩ := forall₂_cons_left_iff.mp hreal
      have hrest := ih (a := a+c) (by omega) hvs (fun x hx hx' hout => by
        refine hdummy x (by omega) (by omega) (fun hm => ?_)
        rcases mem_cons.mp hm with rfl | hm
        · omega
        · exact hout hm)
      have hfirst : (d.drop a).take c = block c v := by
        refine ext_getElem? (fun t => ?_)
        rw [block, if_neg hc, getElem?_take, getElem?_drop]
        rcases Nat.lt_trichotomy t (c-1) with ht | ht | ht
        · rw [if_pos (by omega), getElem?_append_left (by simpa using ht)]
          rw [hdummy (a+t) (by omega) (by omega)]
          · simp [ht]
          · intro hm
            rcases mem_cons.mp hm with heq | hm
            · omega
            · have := mem_places hm
              omega
        · rw [if_pos (by omega), getElem?_append_right (by simp [ht]), ht,
            show a+(c-1) = a+c-1 by omega, hv]
          simp
        · rw [if_neg (by omega), getElem?_eq_none]
          simp
          omega
      rw [take_add, drop_drop, hfirst, hrest]
      simp [blocks]

lemma expand_block (c : ℕ) (v : V) (rest : List (V × ℤ)) :
  expand (block c v ++ rest) = replicate c v ++ expand rest := by
  cases c with
  | zero => rfl
  | succ n =>
    rw [block, if_neg (by omega), Nat.add_sub_cancel]
    induction n with
    | zero => simp [expand]
    | succ n ih =>
      rw [replicate_succ, cons_append, cons_append, expand, ih]
      simp [replicate_succ]

lemma expand_blocks (cs : List ℕ) (vs : List V) (rest : List (V × ℤ)) :
  expand (blocks cs vs ++ rest) = copies cs vs ++ expand rest := by
  rw [blocks, copies]
  induction cs.zip vs with
  | nil => rfl
  | cons x xs ih => rw [flatMap_cons, flatMap_cons, append_assoc, expand_block, ih, append_assoc]

omit [AddCommGroup V] in
lemma length_expand (l : List (V × ℤ)) : (expand l).length = l.length := by
  induction l with
  | nil => rfl
  | cons x l ih => rw [expand, length_cons, length_cons, ih]

omit [AddCommGroup V] in
lemma mem_expand {l : List (V × ℤ)} {v : V} (h : v ∈ expand l) : v ∈ l.map (·.1) := by
  induction l with
  | nil => exact h
  | cons x l ih =>
    rw [expand] at h
    rw [map_cons]
    rcases mem_cons.mp h with h | h
    · by_cases hm : x.2 = 1
      · rw [if_pos hm] at h
        cases hl : expand l with
        | nil => simp [h, hl]
        | cons w ws => exact mem_cons_of_mem _ (ih (by simp [h, hl]))
      · rw [if_neg hm] at h
        simp [h]
    · exact mem_cons_of_mem _ (ih h)

omit [AddCommGroup V] in
lemma length_copies (hlen : cs.length = vs.length) : (copies cs vs).length = cs.sum := by
  induction cs generalizing vs with
  | nil => rfl
  | cons c cs ih =>
    cases vs with
    | nil => simp at hlen
    | cons v vs =>
      have hlen' : cs.length = vs.length := by simpa using hlen
      have hrest := ih hlen'
      rw [copies] at hrest ⊢
      simp [hrest]

/-- After distribution the blocks come first; behind them are dummies and rows without copies. -/
lemma distribute_blocks (spu : Spu T)
  (hseq : seq.Perm ((range m).map Int.ofNat)) (hlen : cs.length = vs.length)
  (hm : cs.sum+cs.count 0 ≤ m) :
  ∃ rest, distribute spu seq ((places 0 cs.sum cs).map Int.ofNat) vs = some (blocks cs vs ++ rest) ∧
      cs.sum+rest.length = m ∧
        (∀ c ∈ blocks cs vs ++ rest, c.2 = 0 ∨ c.2 = 1) ∧
    ∀ c ∈ rest, c.1 = 0 ∨ (0, c.1) ∈ cs.zip vs := by
  have hlt : ∀ x ∈ places 0 cs.sum cs, x < m := by
    intro x hx
    have := mem_places hx
    omega
  obtain ⟨d, hd, hdlen, hreal, hdummy⟩ := distribute_spec spu hseq
    (places_nodup (a := 0) (by omega)) hlt ((length_places _ _ _).trans hlen)
  have hblocks :=
    take_eq_blocks (a := 0) (by omega) hreal (fun x _ hx hout => hdummy x (by omega) hout)
  rw [drop_zero] at hblocks
  have hsplit : d = blocks cs vs ++ d.drop cs.sum := by rw [← hblocks, take_append_drop]
  -- a cell is a row at its place or a dummy
  have hcell : ∀ (x : ℕ) (c : V × ℤ), d[x]? = some c → c = (0, 1) ∨
      ∃ (i k : ℕ) (v : V), cs[i]? = some k ∧ vs[i]? = some v ∧ c = (v, 0) ∧
        (k ≠ 0 → x < cs.sum) := by
    intro x c hc
    have hx : x < m := by
      rw [← hdlen]
      exact (List.getElem?_eq_some_iff.mp hc).1
    by_cases hin : x ∈ places 0 cs.sum cs
    · obtain ⟨i, hi, rfl⟩ := mem_iff_getElem.mp hin
      have hi' : i < cs.length := by rwa [length_places] at hi
      have hv := (forall₂_iff_get.mp hreal).2 i hi (by omega)
      have hpos : Forall₂ (fun c x => c ≠ 0 → x < cs.sum) cs (places 0 cs.sum cs) :=
        places_pos (by omega)
      have hk := (forall₂_iff_get.mp hpos).2 i hi' hi
      refine .inr ⟨i, cs[i], vs[i], by simp [hi'], by simp, ?_, hk⟩
      exact Option.some.inj (hc.symm.trans hv)
    · exact .inl (Option.some.inj (hc.symm.trans (hdummy x hx hin)))
  refine ⟨d.drop cs.sum, by rw [← hsplit, hd], ?_, ?_, ?_⟩
  · rw [length_drop, hdlen]
    omega
  · intro c hc
    rw [← hsplit] at hc
    obtain ⟨x, hx⟩ := mem_iff_getElem?.mp hc
    rcases hcell x c hx with rfl | ⟨i, k, v, -, -, rfl, -⟩
    · exact .inr rfl
    · exact .inl rfl
  · intro c hc
    obtain ⟨x, hx⟩ := mem_iff_getElem?.mp hc
    rw [getElem?_drop] at hx
    rcases hcell _ c hx with rfl | ⟨i, k, v, hk, hv, rfl, hlt⟩
    · exact .inl rfl
    · have hzero : k = 0 := by
        by_contra hne
        have := hlt hne
        omega
      subst hzero
      refine .inr (mem_iff_getElem?.mpr ⟨i, ?_⟩)
      rw [getElem?_zip_eq_some]
      exact ⟨hk, hv⟩

end Scql.SecretJoin
