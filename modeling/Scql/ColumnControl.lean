import Mathlib.Data.List.AList
import Scql.MapRange

/-! # Column control levels

A column control (CCL) assigns to each party the level at which it may see a column.
Levels combine by `lookUpVis`: `Plain` is neutral and `Encrypt` absorbs. -/
namespace Scql.ColumnControl

open MapRange List AList

abbrev PartyCode := String

inductive CCLLevel
  | Unknown | Plain | Encrypt | Join | GroupBy | Compare | Aggregate | AsJoinPayload | Rank
  deriving DecidableEq

open CCLLevel

def lookUpVis (left right : CCLLevel) : CCLLevel :=
  if left = Encrypt ∨ right = Encrypt then Encrypt
  else if left = Plain then right
  else if right = Plain then left
  else if left = right then left
  else Unknown

/-- A comparison reveals its outcome when both sides allow it. -/
def inferCompareFunc (left right : CCLLevel) : CCLLevel :=
  if (left = Compare ∨ left = Plain) ∧ (right = Compare ∨ right = Plain) then Plain
  else lookUpVis left right

lemma lookUpVis_eq_encrypt_iff (l r : CCLLevel) : lookUpVis l r = Encrypt ↔ l = Encrypt ∨
    r = Encrypt := by
  cases l <;> cases r <;> decide

lemma inferCompareFunc_eq_encrypt_iff (l r : CCLLevel) :
  inferCompareFunc l r = Encrypt ↔ l = Encrypt ∨ r = Encrypt := by
  cases l <;> cases r <;> decide

structure CCL where
  partyLevels : AList (fun _ : PartyCode => CCLLevel)
  deriving DecidableEq

namespace CCL

def newCCL : CCL := ⟨∅⟩

def levelFor (cc : CCL) (party : PartyCode) : CCLLevel :=
  (cc.partyLevels.lookup party).getD Unknown

def setLevelForParty (cc : CCL) (party : PartyCode) (level : CCLLevel) : CCL :=
  ⟨cc.partyLevels.insert party level⟩

def isVisibleFor (cc : CCL) (party : PartyCode) : Bool :=
  cc.partyLevels.lookup party = some Plain

def isVisibleForParties (cc : CCL) (parties : List PartyCode) : Bool :=
  parties.all cc.isVisibleFor

/-- The parties with an entry, in the order of one map loop. -/
def parties (o : RangeOrder) (site : ℕ) (cc : CCL) : List PartyCode :=
  o.range 0 site cc.partyLevels.keys

def createAllPlainCCL (parties : List PartyCode) : CCL :=
  parties.foldl (fun cc p => cc.setLevelForParty p Plain) newCCL

/-- The parties named by some of the column controls, sorted. -/
def extractPartyCodes (ins : List CCL) : List PartyCode :=
  ((ins.flatMap (fun cc => cc.partyLevels.keys)).dedup).insertionSort (· ≤ ·)

/-- Combine the levels of two column controls party by party. -/
def combine (f : CCLLevel → CCLLevel → CCLLevel) (cc other : CCL) : CCL :=
  (extractPartyCodes [cc, other]).foldl
    (fun acc p => acc.setLevelForParty p (f (acc.levelFor p) (other.levelFor p))) cc

def updateMoreRestrictedCCLFrom (cc other : CCL) : CCL := combine lookUpVis cc other

def inferCompareFuncCCL (left right : CCL) : CCL := combine inferCompareFunc left right

variable (cc other : CCL) (p q : PartyCode) (l : CCLLevel)

@[simp] lemma levelFor_newCCL : newCCL.levelFor p = Unknown := rfl

@[simp] lemma levelFor_set_self : (cc.setLevelForParty p l).levelFor p = l := by
  simp [levelFor, setLevelForParty]

lemma levelFor_set_of_ne (h : q ≠ p) : (cc.setLevelForParty p l).levelFor q = cc.levelFor q := by
  simp [levelFor, setLevelForParty, lookup_insert_ne h]

lemma levelFor_set : (cc.setLevelForParty p l).levelFor q = if q = p then l else cc.levelFor q := by
  split
  · subst q
    exact levelFor_set_self cc p l
  · exact levelFor_set_of_ne cc p q l ‹_›

lemma isVisibleFor_iff : cc.isVisibleFor p = true ↔ cc.levelFor p = Plain := by
  rw [isVisibleFor, decide_eq_true_iff, levelFor]
  rcases cc.partyLevels.lookup p with - | l <;> simp

lemma levelFor_eq_unknown_of_notMem (h : p ∉ cc.partyLevels) : cc.levelFor p = Unknown := by
  simp [levelFor, lookup_eq_none.mpr h]

lemma mem_extractPartyCodes (ins : List CCL) : p ∈ extractPartyCodes ins ↔
    ∃ cc ∈ ins, p ∈ cc.partyLevels := by
  simp [extractPartyCodes, AList.mem_keys]

lemma foldl_combine_levelFor (f : CCLLevel → CCLLevel → CCLLevel) (ps : List PartyCode)
  (hps : ps.Nodup) : (ps.foldl
    (fun acc p => acc.setLevelForParty p (f (acc.levelFor p) (other.levelFor p))) cc).levelFor q
    = if q ∈ ps then f (cc.levelFor q) (other.levelFor q) else cc.levelFor q := by
  induction ps generalizing cc with
  | nil => simp
  | cons p ps ih =>
    obtain ⟨hp, hnodup⟩ := nodup_cons.mp hps
    rw [foldl_cons, ih _ hnodup, levelFor_set]
    by_cases hq : q = p
    · subst hq
      simp [hp]
    · simp [hq]

lemma levelFor_combine (f : CCLLevel → CCLLevel → CCLLevel) (hf : f Unknown Unknown = Unknown) :
  (combine f cc other).levelFor p = f (cc.levelFor p) (other.levelFor p) := by
  have hnodup : (extractPartyCodes [cc, other]).Nodup :=
    (perm_insertionSort _ _).nodup_iff.mpr (nodup_dedup _)
  rw [combine, foldl_combine_levelFor _ _ _ _ _ hnodup]
  split
  · rfl
  · rename_i hp
    simp only [mem_extractPartyCodes, mem_cons, not_mem_nil, or_false,
      exists_eq_or_imp, exists_eq_left, not_or] at hp
    rw [levelFor_eq_unknown_of_notMem _ _ hp.1, levelFor_eq_unknown_of_notMem _ _ hp.2, hf]

@[simp] lemma levelFor_updateMoreRestrictedCCLFrom :
  (cc.updateMoreRestrictedCCLFrom other).levelFor p =
    lookUpVis (cc.levelFor p) (other.levelFor p) :=
  levelFor_combine cc other p lookUpVis rfl

@[simp] lemma levelFor_inferCompareFuncCCL : (cc.inferCompareFuncCCL other).levelFor p =
    inferCompareFunc (cc.levelFor p) (other.levelFor p) :=
  levelFor_combine cc other p inferCompareFunc rfl

lemma levelFor_createAllPlainCCL (ps : List PartyCode) :
  (createAllPlainCCL ps).levelFor p = if p ∈ ps then Plain else Unknown := by
  suffices h : ∀ cc : CCL, (ps.foldl (fun cc p => cc.setLevelForParty p Plain) cc).levelFor p =
      if p ∈ ps then Plain else cc.levelFor p by
    simpa [createAllPlainCCL] using h newCCL
  induction ps with
  | nil => simp
  | cons q ps ih =>
    intro cc
    rw [foldl_cons, ih, levelFor_set]
    by_cases hp : p = q <;> simp [hp]

end CCL
end Scql.ColumnControl
