import Scql.ControlInference
import Mathlib.Data.List.Rotate

/-! # Who sees a count per group

A count per group tells a party how often each combination of keys occurs, so it should be shown
exactly to the parties none of the keys is hidden from. The loop over the parties of a key stops at
the first unknown party: the parties after it keep the level they had. -/
namespace Scql.ControlInference

open MapRange ColumnControl CCLLevel Planner List

/-- The levels that say nothing about what a party may see after the next step. -/
def Hidden (l : CCLLevel) : Prop := l = Unknown ∨ l = Encrypt

instance (l : CCLLevel) : Decidable (Hidden l) := inferInstanceAs (Decidable (_ ∨ _))

/-- Every map loop starts at a place of its own and wraps around. -/
def rotated (start : ℕ → ℕ) : RangeOrder where
  range _ j l := l.rotate (start j)
  perm _ j l := rotate_perm l (start j)

/-- The order whose loop over the parties of the `j`-th key ends with `p`. -/
def endingWith (p : PartyCode) (keys : List CCL) : RangeOrder :=
  rotated fun j => ((keys[j]?).map fun cc => cc.partyLevels.keys.idxOf p+1).getD 0

lemma rotate_idxOf {p : PartyCode} {l : List PartyCode} (h : p ∈ l) :
  l.rotate (l.idxOf p+1) = l.drop (l.idxOf p+1) ++ l.take (l.idxOf p) ++ [p] := by
  have hlt := idxOf_lt_length_of_mem h
  rw [rotate_eq_drop_append_take hlt, take_succ_eq_append_getElem hlt, getElem_idxOf, append_assoc]

variable {cc : CCL} {p : PartyCode} {o : RangeOrder} {site : ℕ} {keys : List CCL} {arg : CCL}

variable {ps : List PartyCode}

lemma levelFor_foldl_set (f : PartyCode → CCLLevel) (ps : List PartyCode) (cc : CCL) :
  (ps.foldl (fun cc x => cc.setLevelForParty x (f x)) cc).levelFor p =
    if p ∈ ps then f p else cc.levelFor p := by
  induction ps generalizing cc with
  | nil => simp
  | cons x ps ih =>
    rw [foldl_cons, ih, CCL.levelFor_set]
    by_cases hp : p = x
    · subst hp
      simp
    · simp [hp]

lemma levelFor_countKey_of_not_hidden (h : ¬Hidden (cc.levelFor p)) (ps : List PartyCode)
  (out : CCL) : (countKey cc ps out).levelFor p = out.levelFor p := by
  induction ps generalizing out with
  | nil => rfl
  | cons x ps ih =>
    have hset : ∀ l, Hidden (cc.levelFor x) →
      (out.setLevelForParty x l).levelFor p = out.levelFor p := by
      intro l hx
      refine CCL.levelFor_set_of_ne out x p l ?_
      rintro rfl
      exact h hx
    rw [countKey]
    split
    · next hx => exact hset _ (.inl hx)
    · split
      · next hx => rw [ih, hset _ (.inr hx)]
      · exact ih out

lemma levelFor_countKey (cc : CCL) (ps : List PartyCode) (out : CCL) :
  (countKey cc ps out).levelFor p = out.levelFor p ∨ Hidden ((countKey cc ps out).levelFor p) := by
  by_cases h : Hidden (cc.levelFor p)
  · induction ps generalizing out with
    | nil => exact .inl rfl
    | cons x ps ih =>
      rw [countKey]
      split
      · rw [CCL.levelFor_set]
        split
        · exact .inr (.inl rfl)
        · exact .inl rfl
      · split
        · rcases ih (out.setLevelForParty x Encrypt) with hsame | hhidden
          · rw [hsame, CCL.levelFor_set]
            split
            · exact .inr (.inr rfl)
            · exact .inl rfl
          · exact .inr hhidden
        · exact ih out
  · exact .inl (levelFor_countKey_of_not_hidden h ps out)

/-- The count is visible to the parties of its argument, but for those a group key is hidden
from. -/
lemma levelFor_countWithKeys (o : RangeOrder) (site : ℕ) (keys : List CCL) (arg : CCL)
  (h : ∀ cc ∈ keys, ¬Hidden (cc.levelFor p)) (hp : p ∈ arg.partyLevels) :
  (countWithKeys o site keys arg).levelFor p = Plain := by
  rw [countWithKeys]
  refine foldlRecOn (motive := fun out : CCL => out.levelFor p = Plain) _ _ ?_ ?_
  · rw [levelFor_foldl_set (fun _ => Plain), if_pos (AList.mem_keys.mp hp)]
  · intro out hout k hk
    rw [levelFor_countKey_of_not_hidden (h k.1 (fst_mem_of_mem_zipIdx hk)), hout]

lemma levelFor_countKey_of_notMem (h : p ∉ ps) (out : CCL) :
  (countKey cc ps out).levelFor p = out.levelFor p := by
  induction ps generalizing out with
  | nil => rfl
  | cons x ps ih =>
    rw [mem_cons, not_or] at h
    rw [countKey]
    split
    · exact CCL.levelFor_set_of_ne out x p _ h.1
    · split
      · rw [ih h.2, CCL.levelFor_set_of_ne out x p _ h.1]
      · exact ih h.2 out

lemma countKey_append (h : ∃ q ∈ ps, cc.levelFor q = Unknown)
  (qs : List PartyCode) (out : CCL) : countKey cc (ps ++ qs) out = countKey cc ps out := by
  induction ps generalizing out with
  | nil => simp at h
  | cons x ps ih =>
    rw [cons_append, countKey, countKey]
    split
    · rfl
    · next hx =>
      have hps : ∃ q ∈ ps, cc.levelFor q = Unknown := by simpa [hx] using h
      rw [ih hps, ih hps]

/-- The loop over the parties of the key hides the count from `p` in every order. -/
def Settles (cc : CCL) (p : PartyCode) : Prop :=
  p ∈ cc.partyLevels ∧ Hidden (cc.levelFor p) ∧ ∀ q ∈ cc.partyLevels, cc.levelFor q = Unknown →
    q = p

lemma hidden_countKey (hp : p ∈ ps) (hidden : Hidden (cc.levelFor p))
  (hps : ∀ q ∈ ps, cc.levelFor q = Unknown → q = p) (out : CCL) :
    Hidden ((countKey cc ps out).levelFor p) := by
  induction ps generalizing out with
  | nil => simp at hp
  | cons x ps ih =>
    have hrest := fun q hq => hps q (mem_cons_of_mem x hq)
    rw [countKey]
    split
    · next hx =>
      rw [hps x mem_cons_self hx, CCL.levelFor_set_self]
      exact .inl rfl
    · rcases mem_cons.mp hp with rfl | hp
      · next hx =>
        have henc := hidden.resolve_left hx
        rw [if_pos henc]
        rcases levelFor_countKey (p := p) cc ps (out.setLevelForParty p Encrypt) with h | h
        · rw [h, CCL.levelFor_set_self]
          exact .inr rfl
        · exact h
      · split
        · exact ih hp hrest _
        · exact ih hp hrest _

/-- No later key shows the count again. -/
lemma hidden_foldl_countKey {out : CCL} (h : Hidden (out.levelFor p)) (l : List (CCL × ℕ)) :
  Hidden ((l.foldl (fun out k => countKey k.1 (k.1.parties o (site+k.2)) out) out).levelFor p) := by
  refine foldlRecOn (motive := fun out : CCL => Hidden (out.levelFor p)) _ _ h ?_
  intro out hout k _
  rcases levelFor_countKey (p := p) k.1 (k.1.parties o (site+k.2)) out with hsame | hhidden
  · rwa [hsame]
  · exact hhidden

lemma hidden_of_settles (hcc : cc ∈ keys) (h : Settles cc p) :
  Hidden ((countWithKeys o site keys arg).levelFor p) := by
  obtain ⟨i, hi⟩ := mem_iff_getElem?.mp hcc
  have hmem : (cc, i) ∈ keys.zipIdx := mem_zipIdx_iff_getElem?.mpr hi
  obtain ⟨before, after, hsplit⟩ := append_of_mem hmem
  rw [countWithKeys, hsplit, foldl_append, foldl_cons]
  refine hidden_foldl_countKey (hidden_countKey ?_ h.2.1 (fun q hq => h.2.2 q ?_) _) after
  · exact (o.mem_range 0 _).mpr (AList.mem_keys.mp h.1)
  · exact AList.mem_keys.mpr ((o.mem_range 0 _).mp hq)

lemma hidden_of_notMem (hp : p ∉ arg.partyLevels) :
  Hidden ((countWithKeys o site keys arg).levelFor p) := by
  refine hidden_foldl_countKey (.inl ?_) _
  rw [levelFor_foldl_set (fun _ => Plain), if_neg (mt AList.mem_keys.mpr hp)]
  exact CCL.levelFor_eq_unknown_of_notMem arg p hp

lemma not_hidden_plain : ¬Hidden Plain := by decide

/-- An order in which the count stays visible to a party that no key is sure to hide it from. -/
lemma plain_countWithKeys (hp : p ∈ arg.partyLevels) (h : ∀ cc ∈ keys, ¬Settles cc p) :
  (countWithKeys (endingWith p keys) 0 keys arg).levelFor p = Plain := by
  rw [countWithKeys]
  refine foldlRecOn (motive := fun out : CCL => out.levelFor p = Plain) _ _ ?_ ?_
  · rw [levelFor_foldl_set (fun _ => Plain), if_pos (AList.mem_keys.mp hp)]
  · rintro out hout ⟨cc, j⟩ hk
    have hget := mem_zipIdx_iff_getElem?.mp hk
    have hparties : cc.parties (endingWith p keys) (0+j) =
        cc.partyLevels.keys.rotate (cc.partyLevels.keys.idxOf p+1) := by
      simp [CCL.parties, endingWith, rotated, hget]
    rw [hparties, ← hout]
    by_cases hmem : p ∈ cc.partyLevels.keys
    · by_cases hidden : Hidden (cc.levelFor p)
      · have hother : ∃ q ∈ cc.partyLevels, cc.levelFor q = Unknown ∧ q ≠ p := by
          by_contra hno
          push Not at hno
          exact h cc (fst_mem_of_mem_zipIdx hk) ⟨AList.mem_keys.mpr hmem, hidden, hno⟩
        obtain ⟨q, hq, hunknown, hne⟩ := hother
        have hnodup := (rotate_perm _ (cc.partyLevels.keys.idxOf p+1)).nodup_iff.mpr
          cc.partyLevels.keys_nodup
        have hrot := (mem_rotate (n := cc.partyLevels.keys.idxOf p+1)).mpr (AList.mem_keys.mp hq)
        rw [rotate_idxOf hmem] at hnodup hrot ⊢
        have hbefore := (mem_append.mp hrot).resolve_right (by simpa using hne)
        rw [countKey_append ⟨q, hbefore, hunknown⟩]
        exact levelFor_countKey_of_notMem
          (fun hin => disjoint_of_nodup_append hnodup hin mem_cons_self) out
      · exact levelFor_countKey_of_not_hidden hidden _ out
    · exact levelFor_countKey_of_notMem (mt mem_rotate.mp hmem) out

variable {info : AggInfo} {ccs : List CCL} {f : AggFuncDesc}

/-- The count is visible exactly to the parties no key is hidden from, in every order of the keys
and of their parties. -/
def ShownAsKeys (info : AggInfo) (ccs keys : List CCL) (f : AggFuncDesc) (arg : CCL) : Prop :=
  ∀ (o : RangeOrder) (site : ℕ) (keys' : List CCL), keys'.Perm keys →
    ∃ cc, aggFuncCCL o site info ccs keys' f arg = .ok cc ∧
      ∀ p, cc.levelFor p = Plain ↔ ∀ k ∈ keys, ¬Hidden (k.levelFor p)

lemma aggFuncCCL_count (hdistinct : info.producedByDistinct = false) (hf : f.name = .Count)
  (hkeys : keys ≠ []) :
    aggFuncCCL o site info ccs keys f arg = .ok (countWithKeys o site keys arg) := by
  simp [aggFuncCCL, hdistinct, hf, hkeys]

theorem shownAsKeys_iff (hdistinct : info.producedByDistinct = false) (hf : f.name = .Count)
  (hkeys : keys ≠ []) : ShownAsKeys info ccs keys f arg ↔ ∀ p,
    ((∀ k ∈ keys, ¬Hidden (k.levelFor p)) → p ∈ arg.partyLevels) ∧
    ((∃ k ∈ keys, Hidden (k.levelFor p)) → p ∉ arg.partyLevels ∨ ∃ k ∈ keys, Settles k p) := by
  constructor
  · intro h p
    have hshown : ∀ o, (countWithKeys o 0 keys arg).levelFor p = Plain ↔
        ∀ k ∈ keys, ¬Hidden (k.levelFor p) := by
      intro o
      obtain ⟨cc, hcc, hlevel⟩ := h o 0 keys (.refl _)
      rw [aggFuncCCL_count hdistinct hf hkeys] at hcc
      cases hcc
      exact hlevel p
    refine ⟨fun hnone => ?_, fun ⟨k, hk, hhidden⟩ => ?_⟩
    · by_contra hp
      exact not_hidden_plain ((hshown .inserted).mpr hnone ▸ hidden_of_notMem hp)
    · by_contra hno
      push Not at hno
      exact (hshown _).mp (plain_countWithKeys hno.1 hno.2) k hk hhidden
  · intro h o site keys' hperm
    have hne : keys' ≠ [] := fun hnil => hkeys (by simpa [hnil] using hperm)
    refine ⟨_, aggFuncCCL_count hdistinct hf hne,
      fun p => ⟨fun hplain k hk hhidden => ?_, fun hnone => ?_⟩⟩
    · apply not_hidden_plain
      rw [← hplain]
      rcases (h p).2 ⟨k, hk, hhidden⟩ with hp | ⟨k, hk, hsettles⟩
      · exact hidden_of_notMem hp
      · exact hidden_of_settles (hperm.mem_iff.mpr hk) hsettles
    · exact levelFor_countWithKeys o site keys' arg (fun k hk => hnone k (hperm.mem_iff.mp hk))
        ((h p).1 hnone)

/-- A key that is unknown to one party and encrypted for another. -/
def mixedKey : CCL := (CCL.newCCL.setLevelForParty "bob" Encrypt).setLevelForParty "alice" Unknown

theorem not_shownAsKeys_mixedKey :
    ¬ShownAsKeys ⟨[], [], false⟩ [] [mixedKey] ⟨.Count, [], false, false, false⟩
  (CCL.createAllPlainCCL ["alice", "bob"]) := by
  intro h
  obtain ⟨cc, hcc, hlevel⟩ := h .inserted 0 [mixedKey] (.refl _)
  rw [aggFuncCCL_count rfl rfl (by simp)] at hcc
  cases hcc
  exact (hlevel "bob").mp (by decide) mixedKey (by simp) (by decide)

/-- A key that is plain for one party and encrypted for another. -/
def encryptedKey : CCL := (CCL.newCCL.setLevelForParty "bob" Encrypt).setLevelForParty "alice" Plain

lemma mem_allPlain_two {p : PartyCode} :
  p ∈ (CCL.createAllPlainCCL ["alice", "bob"]).partyLevels ↔ p = "alice" ∨ p = "bob" := by
  simp [CCL.createAllPlainCCL, CCL.setLevelForParty, CCL.newCCL, AList.mem_keys, or_comm]

lemma settles_encryptedKey : Settles encryptedKey "bob" := by
  refine ⟨by decide, by decide, fun q hq hunknown => ?_⟩
  have hmem : q = "alice" ∨ q = "bob" := by
    simpa [encryptedKey, CCL.setLevelForParty, CCL.newCCL, AList.mem_keys] using hq
  rcases hmem with rfl | rfl
  · exact absurd hunknown (by decide)
  · rfl

/-- Of two keys one is hidden from `bob`: the count is shown to `alice` only. -/
theorem shownAsKeys_encryptedKey : ShownAsKeys ⟨[], [], false⟩ []
  [CCL.createAllPlainCCL ["alice", "bob"], encryptedKey] ⟨.Count, [], false, false, false⟩
  (CCL.createAllPlainCCL ["alice", "bob"]) := by
  refine (shownAsKeys_iff rfl rfl (by simp)).mpr fun p => ?_
  by_cases hp : p = "alice" ∨ p = "bob"
  · refine ⟨fun _ => mem_allPlain_two.mpr hp, fun hhidden => ?_⟩
    rcases hp with rfl | rfl
    · exact absurd hhidden (by decide)
    · exact .inr ⟨encryptedKey, by simp, settles_encryptedKey⟩
  · have hout : p ∉ (CCL.createAllPlainCCL ["alice", "bob"]).partyLevels :=
      mt mem_allPlain_two.mp hp
    refine ⟨fun hnone => (hnone _ mem_cons_self (.inl ?_)).elim, fun _ => .inl hout⟩
    exact CCL.levelFor_eq_unknown_of_notMem _ p hout

end Scql.ControlInference
