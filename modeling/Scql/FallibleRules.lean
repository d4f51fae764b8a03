import Mathlib.Data.List.Forall2
import Mathlib.Data.List.Induction

/-! # Rules for fallible code

Inversion of sequencing and loops in `Except`: what a successful run says about its
parts, and when a loop over a list succeeds; for `Option`, when a loop has a result. -/
namespace Fallible

open List

universe u v
variable {ε : Type u} {α β : Type v} {f : α → Except ε β} {a : α} {l : List α} {bs : List β}
    {R : α → β → Prop}

variable {x : Except ε α} {s : β} {P : List α → β → Prop}

lemma bind_eq_ok {b : β} : x >>= f = .ok b ↔ ∃ a, x = .ok a ∧ f a = .ok b := by
  cases x <;> simp [bind, Except.bind]

lemma pure_eq_ok {b : α} : (pure a : Except ε α) = .ok b ↔ a = b := by
  simp [pure, Except.pure]

lemma elim_eq_ok {o : Option α} {e : ε} : o.elim (.error e) .ok = Except.ok a ↔ o = some a := by
  cases o <;> simp

def ensure (p : Prop) [Decidable p] (e : ε) : Except ε Unit := if p then .ok () else .error e

lemma ensure_eq_ok {p : Prop} [Decidable p] {e : ε} {a : Unit} : ensure p e = .ok a ↔ p := by
  by_cases hp : p <;> simp [ensure, hp]

lemma mapM_cons_eq_ok : (a::l).mapM f = .ok bs ↔ ∃ b bs', f a = .ok b ∧ l.mapM f = .ok bs' ∧
    b::bs' = bs := by
  simp only [mapM_cons, bind_eq_ok, pure_eq_ok]
  constructor
  · rintro ⟨b, hb, bs', hbs', h⟩
    exact ⟨b, bs', hb, hbs', h⟩
  · rintro ⟨b, bs', hb, hbs', h⟩
    exact ⟨b, hb, bs', hbs', h⟩

lemma foldlM_cons_eq_ok {f : β → α → Except ε β} {t : β} :
  (a::l).foldlM f s = .ok t ↔ ∃ u, f s a = .ok u ∧ l.foldlM f u = .ok t := by
  rw [foldlM_cons, bind_eq_ok]

lemma mapM_ok_of_forall (h : ∀ a ∈ l, ∃ b, f a = .ok b ∧ R a b) :
    ∃ bs, l.mapM f = .ok bs ∧ Forall₂ R l bs := by
  induction l with
  | nil => exact ⟨[], rfl, .nil⟩
  | cons a l ih =>
    obtain ⟨b, hb, hr⟩ := h a mem_cons_self
    obtain ⟨bs, hbs, hrs⟩ := ih (fun a' ha' => h a' (mem_cons_of_mem _ ha'))
    refine ⟨b::bs, ?_, .cons hr hrs⟩
    rw [mapM_cons, hb, hbs]
    rfl

lemma mapM_congr {g : α → Except ε β} (h : ∀ a ∈ l, f a = g a) : l.mapM f = l.mapM g := by
  induction l with
  | nil => rfl
  | cons a l ih =>
    rw [mapM_cons, mapM_cons, h a mem_cons_self, ih fun a' ha' => h a' (mem_cons_of_mem _ ha')]

lemma foldlM_congr {f g : β → α → Except ε β} (h : ∀ a ∈ l, ∀ s, f s a = g s a) (s : β) :
    l.foldlM f s = l.foldlM g s := by
  induction l generalizing s with
  | nil => rfl
  | cons a l ih =>
    rw [foldlM_cons, foldlM_cons, h a mem_cons_self]
    exact bind_congr (ih fun a' ha' => h a' (mem_cons_of_mem _ ha'))

lemma mapM_eq_ok_map {g : α → β} (h : ∀ a ∈ l, f a = .ok (g a)) : l.mapM f = .ok (l.map g) := by
  induction l with
  | nil => rfl
  | cons a l ih =>
    rw [mapM_cons_eq_ok]
    exact ⟨g a, l.map g, h a mem_cons_self, ih fun a' ha' => h a' (mem_cons_of_mem _ ha'), rfl⟩

lemma exists_of_forall₂ {k : List β} (h : Forall₂ R l k) (ha : a ∈ l) : ∃ b ∈ k, R a b := by
  induction h with
  | nil => simp at ha
  | cons hr _ ih =>
    rcases mem_cons.mp ha with rfl | ha
    · exact ⟨_, mem_cons_self, hr⟩
    · obtain ⟨b, hb, hrb⟩ := ih ha
      exact ⟨b, mem_cons_of_mem _ hb, hrb⟩

lemma mapM_eq_ok : l.mapM f = .ok bs ↔ Forall₂ (fun a b => f a = .ok b) l bs := by
  induction l generalizing bs with
  | nil => simp [pure, Except.pure, eq_comm]
  | cons a l ih =>
    rw [mapM_cons_eq_ok, forall₂_cons_left_iff]
    simp only [ih, eq_comm]

lemma forall₂_of_mapM_ok (h : l.mapM f = .ok bs) (hf : ∀ a ∈ l, ∀ b, f a = .ok b → R a b) :
    Forall₂ R l bs :=
  ((forall₂_and_left _ _).mpr ⟨hf, mapM_eq_ok.mp h⟩).imp fun _ b hab => hab.1 b hab.2

lemma map_of_mapM_ok {γ : Type v} {g : β → γ} {k : α → γ} (h : l.mapM f = .ok bs)
  (hf : ∀ a ∈ l, ∀ b, f a = .ok b → g b = k a) : bs.map g = l.map k := by
  rw [← forall₂_eq_eq_eq, forall₂_map_left_iff, forall₂_map_right_iff]
  exact (forall₂_of_mapM_ok h hf).flip

lemma mem_of_mapM_ok (h : l.mapM f = .ok bs) {b : β} (hb : b ∈ bs) : ∃ a ∈ l, f a = .ok b :=
  exists_of_forall₂ (mapM_eq_ok.mp h).flip hb

lemma mapM_ok_mem (h : l.mapM f = .ok bs) (ha : a ∈ l) : ∃ b ∈ bs, f a = .ok b :=
  exists_of_forall₂ (mapM_eq_ok.mp h) ha

lemma foldlM_concat_eq_ok {f : β → α → Except ε β} {t : β} :
  (l ++ [a]).foldlM f s = .ok t ↔ ∃ u, l.foldlM f s = .ok u ∧ f u a = .ok t := by
  rw [List.foldlM_append, bind_eq_ok]
  simp [foldlM_cons]

/-- What holds of the items done so far and the state holds of all of them after the loop. -/
lemma foldlM_prefix {f : β → α → Except ε β} (l : List α) {s' : β}
  (hstep : ∀ done a rest, l = done ++ a::rest → ∀ s s', P done s → f s a = .ok s' →
    P (done ++ [a]) s')
  (hs : P [] s) (h : l.foldlM f s = .ok s') : P l s' := by
  induction l using reverseRecOn generalizing s' with
  | nil => exact pure_eq_ok.mp h ▸ hs
  | append_singleton l a ih =>
    obtain ⟨t, ht, h⟩ := foldlM_concat_eq_ok.mp h
    have hP := ih (fun done b rest hl => hstep done b (rest ++ [a]) (by simp [hl])) ht
    exact hstep l a [] rfl t s' hP h

lemma foldlM_invariant {f : β → α → Except ε β} {s' : β} {P : β → Prop}
  (hstep : ∀ a ∈ l, ∀ s s', P s → f s a = .ok s' → P s') (hs : P s) (h : l.foldlM f s = .ok s') :
    P s' :=
  foldlM_prefix (P := fun _ => P) l (fun _ a _ hl => hstep a (by simp [hl])) hs h

lemma foldlM_total {f : β → α → Except ε β} (l : List α)
  (hstep : ∀ done a rest, l = done ++ a::rest → ∀ s, P done s → ∃ s', f s a = .ok s' ∧
    P (done ++ [a]) s')
  (hs : P [] s) : ∃ s', l.foldlM f s = .ok s' ∧ P l s' := by
  induction l using reverseRecOn with
  | nil => exact ⟨s, rfl, hs⟩
  | append_singleton l a ih =>
    obtain ⟨t, ht, hP⟩ := ih fun done b rest hl => hstep done b (rest ++ [a]) (by simp [hl])
    obtain ⟨s', hs', hP'⟩ := hstep l a [] rfl t hP
    exact ⟨s', foldlM_concat_eq_ok.mpr ⟨t, ht, hs'⟩, hP'⟩

/-- A loop that appends to its accumulator and never fails computes the concatenation. -/
lemma foldlM_append {f : List β → α → Except ε (List β)} {g : α → List β}
  (h : ∀ a ∈ l, ∀ acc, f acc a = .ok (acc ++ g a)) (acc : List β) :
    l.foldlM f acc = .ok (acc ++ l.flatMap g) := by
  induction l generalizing acc with
  | nil => simp [pure, Except.pure]
  | cons a l ih =>
    rw [foldlM_cons, h a mem_cons_self]
    have htail := ih (fun a' ha' => h a' (mem_cons_of_mem _ ha')) (acc ++ g a)
    simpa [bind, Except.bind] using htail

lemma forM_ok_mem {f : α → Except ε PUnit} (h : l.forM f = .ok ⟨⟩) {a : α} (ha : a ∈ l) :
    f a = .ok ⟨⟩ := by
  induction l with
  | nil => cases ha
  | cons b l ih =>
    rw [List.forM, bind_eq_ok] at h
    obtain ⟨_, hb, h⟩ := h
    rcases mem_cons.mp ha with rfl | ha
    · exact hb
    · exact ih h ha

lemma forM_ok_of_forall {f : α → Except ε PUnit} (h : ∀ a ∈ l, f a = .ok ⟨⟩) :
  l.forM f = .ok ⟨⟩ := by
  induction l with
  | nil => rfl
  | cons b l ih =>
    rw [List.forM, bind_eq_ok]
    exact ⟨⟨⟩, h b mem_cons_self, ih fun a ha => h a (mem_cons_of_mem b ha)⟩

/-- A loop fails at one of its items, after the items before it went through. -/
lemma exists_of_foldlM_error {f : β → α → Except ε β} {e : ε} (h : l.foldlM f s = .error e) :
    ∃ done a rest t, l = done ++ a :: rest ∧ done.foldlM f s = .ok t ∧ f t a = .error e := by
  induction l generalizing s with
  | nil => cases h
  | cons b l ih =>
    rw [foldlM_cons] at h
    cases hb : f s b with
    | error e' =>
      rw [hb] at h
      cases h
      exact ⟨[], b, l, s, rfl, rfl, hb⟩
    | ok u =>
      rw [hb] at h
      obtain ⟨done, a, rest, t, rfl, ht, ha⟩ := ih h
      exact ⟨b :: done, a, rest, t, rfl, foldlM_cons_eq_ok.mpr ⟨u, hb, ht⟩, ha⟩

lemma exists_of_mapM_error {e : ε} (h : l.mapM f = .error e) : ∃ a ∈ l, f a = .error e := by
  induction l with
  | nil => cases h
  | cons b l ih =>
    rw [mapM_cons] at h
    cases hb : f b with
    | error e' =>
      rw [hb] at h
      cases h
      exact ⟨b, mem_cons_self, hb⟩
    | ok c =>
      rw [hb] at h
      cases hl : l.mapM f with
      | error e' =>
        rw [hl] at h
        cases h
        obtain ⟨a, ha, hfa⟩ := ih hl
        exact ⟨a, mem_cons_of_mem b ha, hfa⟩
      | ok cs =>
        rw [hl] at h
        cases h

lemma toOption_eq_some : x.toOption = some a ↔ x = .ok a := by
  cases x <;> simp [Except.toOption]

section Option

variable {α β : Type} {f : α → Option β} {l : List α}

lemma mapM_eq_some {g : α → β} (h : ∀ a ∈ l, f a = some (g a)) : l.mapM f = some (l.map g) := by
  induction l with
  | nil => rfl
  | cons a l ih =>
    rw [mapM_cons, h a mem_cons_self, ih (fun b hb => h b (mem_cons_of_mem a hb))]
    rfl

lemma mapM_eq_none {a : α} (ha : a ∈ l) (h : f a = none) : l.mapM f = none := by
  induction l with
  | nil => cases ha
  | cons b l ih =>
    rw [mapM_cons]
    rcases mem_cons.mp ha with rfl | ha
    · rw [h]
      rfl
    · rw [ih ha]
      cases f b <;> rfl

end Option

end Fallible
