import Mathlib.Data.List.AList
import Mathlib.Data.List.Induction
import Mathlib.Data.Option.Basic
import Mathlib.Order.Lattice

/-! # Updates of a map

A loop that updates a map entry by entry touches at each turn one key only. What it leaves at a
key is therefore what the turns of that key leave, whatever the order of the turns. -/
namespace MapUpdates

open List

universe u v w
variable {κ : Type u} {β : Type v} [DecidableEq κ]

def mapValues (f : β → β) (m : AList (fun _ : κ => β)) : AList (fun _ : κ => β) where
  entries := m.entries.map (Sigma.map id fun _ => f)
  nodupKeys := by
    rw [List.NodupKeys, keys, map_map]
    exact m.nodupKeys

@[simp] lemma lookup_mapValues (f : β → β) (m : AList (fun _ : κ => β)) (k : κ) :
  (mapValues f m).lookup k = (m.lookup k).map f :=
  dlookup_map₂ (f := fun _ => f) k

def getOrCreate (k : κ) (b : β) (m : AList (fun _ : κ => β)) : AList (fun _ : κ => β) :=
  if k ∈ m then m else m.insert k b

lemma lookup_getOrCreate (k : κ) (b : β) (m : AList (fun _ : κ => β)) (k' : κ) :
  (getOrCreate k b m).lookup k' = if k' = k then some ((m.lookup k).getD b) else m.lookup k' := by
  rw [getOrCreate]
  split
  · next hk =>
    split
    · next hkk =>
      subst hkk
      obtain ⟨c, hc⟩ := Option.isSome_iff_exists.mp (AList.lookup_isSome.mpr hk)
      simp [hc]
    · rfl
  · next hk =>
    split
    · next hkk =>
      subst hkk
      simp [AList.lookup_eq_none.mpr hk]
    · next hkk => exact AList.lookup_insert_ne hkk

def adjust (k : κ) (f : β → β) (m : AList (fun _ : κ => β)) : Option (AList (fun _ : κ => β)) :=
  (m.lookup k).map (fun b => m.insert k (f b))

lemma lookup_of_adjust {k : κ} {f : β → β} {m m' : AList (fun _ : κ => β)}
    (h : adjust k f m = some m') (k' : κ) :
  m'.lookup k' = if k' = k then (m.lookup k').map f else m.lookup k' := by
  obtain ⟨b, hb, rfl⟩ := Option.map_eq_some_iff.mp h
  split
  · next hk =>
    subst hk
    simp [hb]
  · next hk => exact AList.lookup_insert_ne hk

lemma adjust_isSome {k : κ} (f : β → β) {m : AList (fun _ : κ => β)} (hk : k ∈ m) :
    ∃ m', adjust k f m = some m' := by
  obtain ⟨b, hb⟩ := Option.isSome_iff_exists.mp (AList.lookup_isSome.mpr hk)
  exact ⟨m.insert k (f b), by simp [adjust, hb]⟩

lemma lookup_foldl_insert {l : List (κ × β)} (hl : (l.map Prod.fst).Nodup) {k : κ} {b : β} :
  (l.foldl (fun m x => m.insert x.1 x.2) (∅ : AList (fun _ : κ => β))).lookup k = some b ↔
    (k, b) ∈ l := by
  induction l using reverseRecOn with
  | nil => simp
  | append_singleton l x ih =>
    rw [map_append, nodup_append] at hl
    rw [foldl_append, foldl_cons, foldl_nil, mem_append, mem_singleton]
    by_cases hk : k = x.1
    · subst hk
      have hnot : (x.1, b) ∉ l := fun h =>
        hl.2.2 x.1 (mem_map.mpr ⟨_, h, rfl⟩) x.1 (by simp) rfl
      rw [AList.lookup_insert]
      constructor
      · intro h
        exact .inr (Prod.ext rfl (Option.some.inj h).symm)
      · rintro (h | h)
        · exact absurd h hnot
        · rw [← h]
    · rw [AList.lookup_insert_ne hk, ih hl.1]
      exact ⟨.inl, fun h => h.resolve_right fun h => hk (congrArg Prod.fst h)⟩

lemma lookup_foldl_insert_keys (f : κ → β) (ks : List κ) (m : AList (fun _ : κ => β)) (k : κ) :
  ((ks.map (fun k => (k, f k))).foldl (fun m x => m.insert x.1 x.2) m).lookup k =
    if k ∈ ks then some (f k) else m.lookup k := by
  induction ks using reverseRecOn with
  | nil => rfl
  | append_singleton ks k' ih =>
    rw [map_append, foldl_append, map_singleton, foldl_cons, foldl_nil]
    by_cases hk : k = k'
    · subst hk
      simp
    · rw [AList.lookup_insert_ne hk, ih]
      simp [hk]

lemma lookup_foldl_erase (ks : List κ) (m : AList (fun _ : κ => β)) (k : κ) :
  (ks.foldl (fun m k => m.erase k) m).lookup k = if k ∈ ks then none else m.lookup k := by
  induction ks using reverseRecOn with
  | nil => rfl
  | append_singleton ks k' ih =>
    rw [foldl_append, foldl_cons, foldl_nil]
    by_cases hk : k = k'
    · subst hk
      simp
    · rw [AList.lookup_erase_ne hk, ih]
      simp [hk]

/-- A loop that may fail goes through if each turn keeps the invariant, which may speak of the
elements visited so far. -/
lemma foldlM_of_step {σ : Type v} {α : Type w} {f : σ → α → Option σ} {P : List α → σ → Prop}
  (l : List α) (hstep : ∀ done a rest, l = done ++ a::rest → ∀ s, P done s →
    ∃ s', f s a = some s' ∧ P (done ++ [a]) s') {s : σ} (hs : P [] s) : ∃ s', l.foldlM f s =
      some s' ∧ P l s' := by
  induction l using reverseRecOn with
  | nil => exact ⟨s, rfl, hs⟩
  | append_singleton l a ih =>
    obtain ⟨t, ht, hP⟩ := ih fun done b rest hl => hstep done b (rest ++ [a]) (by simp [hl])
    obtain ⟨s', hs', hP'⟩ := hstep l a [] rfl t hP
    exact ⟨s', by simp [ht, hs'], hP'⟩

lemma mapM_of_forall {α : Type w} {f : α → Option β} {l : List α}
  (hf : ∀ a ∈ l, ∃ b, f a = some b) :
    ∃ bs, l.mapM f = some bs ∧ ∀ b ∈ bs, ∃ a ∈ l, f a = some b := by
  induction l with
  | nil => exact ⟨[], rfl, by simp⟩
  | cons a l ih =>
    obtain ⟨b, hb⟩ := hf a (by simp)
    obtain ⟨bs, hbs, hmem⟩ := ih fun a ha => hf a (by simp [ha])
    refine ⟨b::bs, by simp [hb, hbs], ?_⟩
    rintro c (_ | ⟨_, hc⟩)
    · exact ⟨a, by simp, hb⟩
    · obtain ⟨a', ha', hc⟩ := hmem c hc
      exact ⟨a', by simp [ha'], hc⟩

end MapUpdates
