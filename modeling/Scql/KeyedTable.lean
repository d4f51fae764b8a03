import Mathlib.Data.List.Nodup
import Mathlib.Order.Lattice

/-! # Tables with a primary key

A table is a list of rows no two of which have the same key. The operations are those of a
relational database: insert (refused if the key is taken), update and delete of the rows that
meet a condition, and insert-or-replace. Each has one lemma about the rows after it, and where a
row is looked up by its key one lemma about the lookup. -/

universe u v

structure KeyedTable {α : Type u} {κ : Type v} (key : α → κ) where
  rows : List α
  nodup : (rows.map key).Nodup

namespace KeyedTable

open List

variable {α : Type u} {κ : Type v} {key : α → κ}

instance : Membership α (KeyedTable key) := ⟨fun t a => a ∈ t.rows⟩

variable {t : KeyedTable key} {a : α}

lemma mem_iff : a ∈ t ↔ a ∈ t.rows := Iff.rfl

instance [DecidableEq α] (t : KeyedTable key) (a : α) : Decidable (a ∈ t) :=
  inferInstanceAs (Decidable (a ∈ t.rows))

def empty : KeyedTable key := ⟨[], nodup_nil⟩

@[simp] lemma not_mem_empty (a : α) : a ∉ (empty : KeyedTable key) := not_mem_nil

variable {b : α}

lemma eq_of_key_eq (ha : a ∈ t) (hb : b ∈ t) (h : key a = key b) : a = b :=
  inj_on_of_nodup_map t.nodup ha hb h

def updateWhere (t : KeyedTable key) (p : α → Bool) (f : α → α) (hf : ∀ a, key (f a) = key a) :
    KeyedTable key where
  rows := t.rows.map (fun a => if p a then f a else a)
  nodup := by
    have hkey : key ∘ (fun a => if p a then f a else a) = key := by
      funext a
      simp only [Function.comp_apply]
      split
      · exact hf a
      · rfl
    rw [map_map, hkey]
    exact t.nodup

def deleteWhere (t : KeyedTable key) (p : α → Bool) : KeyedTable key where
  rows := t.rows.filter (fun a => !p a)
  nodup := t.nodup.sublist (filter_sublist.map key)

variable {p : α → Bool} {f : α → α} {hf : ∀ a, key (f a) = key a}

lemma mem_updateWhere : b ∈ t.updateWhere p f hf ↔ ∃ a ∈ t, (if p a then f a else a) = b :=
  mem_map

@[simp] lemma mem_deleteWhere : a ∈ t.deleteWhere p ↔ a ∈ t ∧ p a = false := by
  simp [mem_iff, deleteWhere]

variable [DecidableEq κ]

def find? (t : KeyedTable key) (k : κ) : Option α := t.rows.find? (fun a => key a = k)

variable {k : κ}

lemma mem_of_find? (h : t.find? k = some a) : a ∈ t :=
  mem_of_find?_eq_some h

lemma key_of_find? (h : t.find? k = some a) : key a = k := by
  simpa using find?_some h

lemma find?_key (ha : a ∈ t) : t.find? (key a) = some a := by
  cases hfind : t.find? (key a) with
  | none => exact absurd (decide_eq_true rfl) (List.find?_eq_none.mp hfind a ha)
  | some b => rw [eq_of_key_eq (mem_of_find? hfind) ha (key_of_find? hfind)]

lemma find?_eq_some : t.find? k = some a ↔ a ∈ t ∧ key a = k :=
  ⟨fun h => ⟨mem_of_find? h, key_of_find? h⟩, fun h => h.2 ▸ find?_key h.1⟩

lemma find?_eq_none : t.find? k = none ↔ ∀ a ∈ t, key a ≠ k := by
  simp [find?, mem_iff]

@[simp] lemma find?_empty (k : κ) : (empty : KeyedTable key).find? k = none := rfl

def insert (t : KeyedTable key) (a : α) : Option (KeyedTable key) :=
  if h : key a ∈ t.rows.map key then none
  else some ⟨t.rows ++ [a], by
    rw [map_append, nodup_append]
    refine ⟨t.nodup, nodup_singleton _, ?_⟩
    rintro _ hk _ ha rfl
    exact h ((by simpa using ha : _ = key a) ▸ hk)⟩

/-- Insert a row in place of the one with its key, if there is one. -/
def upsert (t : KeyedTable key) (a : α) : KeyedTable key where
  rows := t.rows.filter (fun b => key b ≠ key a) ++ [a]
  nodup := by
    rw [map_append, nodup_append]
    refine ⟨t.nodup.sublist (filter_sublist.map key), nodup_singleton _, ?_⟩
    rintro _ hk _ ha rfl
    obtain ⟨b, hb, hkey⟩ := mem_map.mp hk
    have hne : key b ≠ key a := by simpa using (mem_filter.mp hb).2
    exact hne (hkey.trans (by simpa using ha))

variable {t t' : KeyedTable key} {a b : α} {k : κ}

lemma find?_of_insert (h : t.insert a = some t') : t.find? (key a) = none := by
  rw [insert] at h
  split at h
  · cases h
  · next hkey =>
    exact find?_eq_none.mpr fun b hb hba => hkey (mem_map.mpr ⟨b, hb, hba⟩)

lemma mem_insert (h : t.insert a = some t') : b ∈ t' ↔ b = a ∨ b ∈ t := by
  rw [insert] at h
  split at h
  · cases h
  · cases h
    simp [mem_iff, or_comm]

@[simp] lemma mem_upsert : b ∈ t.upsert a ↔ b = a ∨ b ∈ t ∧ key b ≠ key a := by
  simp [mem_iff, upsert, or_comm]

lemma find?_insert (h : t.insert a = some t') :
    t'.find? k = if key a = k then some a else t.find? k := by
  split
  · next hk => exact find?_eq_some.mpr ⟨(mem_insert h).mpr (.inl rfl), hk⟩
  · next hk =>
    refine Option.ext fun b => ?_
    rw [find?_eq_some, find?_eq_some, mem_insert h]
    constructor
    · rintro ⟨rfl | hb, hbk⟩
      · exact absurd hbk hk
      · exact ⟨hb, hbk⟩
    · rintro ⟨hb, hbk⟩
      exact ⟨.inr hb, hbk⟩

@[simp] lemma find?_updateWhere :
  (t.updateWhere p f hf).find? k = (t.find? k).map (fun a => if p a then f a else a) := by
  have hkey : ∀ a, key (if p a then f a else a) = key a := by
    intro a
    split
    · exact hf a
    · rfl
  refine Option.ext fun b => ?_
  rw [find?_eq_some, mem_updateWhere, Option.map_eq_some_iff]
  constructor
  · rintro ⟨⟨a, ha, rfl⟩, hbk⟩
    exact ⟨a, find?_eq_some.mpr ⟨ha, (hkey a).symm.trans hbk⟩, rfl⟩
  · rintro ⟨a, ha, rfl⟩
    obtain ⟨ha, hak⟩ := find?_eq_some.mp ha
    exact ⟨⟨a, ha, rfl⟩, (hkey a).trans hak⟩

@[simp] lemma find?_deleteWhere :
  (t.deleteWhere p).find? k = (t.find? k).filter (fun a => !p a) := by
  refine Option.ext fun b => ?_
  rw [find?_eq_some, mem_deleteWhere, Option.filter_eq_some_iff, find?_eq_some]
  simp [and_right_comm]

lemma find?_updateWhere_keys {q : κ → Prop} [DecidablePred q] (hp : ∀ a, p a = true ↔ q (key a)) :
  (t.updateWhere p f hf).find? k = if q k then (t.find? k).map f else t.find? k := by
  rw [find?_updateWhere]
  cases hfind : t.find? k with
  | none => simp
  | some a =>
    have hpa : p a = true ↔ q k := key_of_find? hfind ▸ hp a
    by_cases hq : q k
    · simp [hq, hpa.mpr hq]
    · simp [hq, Bool.eq_false_iff.mpr (mt hpa.mp hq)]

def insertAll (t : KeyedTable key) (rows : List α) : Option (KeyedTable key) := rows.foldlM insert t

variable {rows : List α}

lemma mem_insertAll (h : t.insertAll rows = some t') : b ∈ t' ↔ b ∈ rows ∨ b ∈ t := by
  induction rows generalizing t with
  | nil =>
    obtain rfl : t = t' := Option.some.inj h
    simp
  | cons a rows ih =>
    rw [insertAll, foldlM_cons] at h
    obtain ⟨t₁, h₁, h⟩ := Option.bind_eq_some_iff.mp h
    rw [ih h, mem_insert h₁, mem_cons, or_left_comm, or_assoc]

def upsertAll (t : KeyedTable key) (rows : List α) : KeyedTable key := rows.foldl upsert t

lemma rows_insertAll (h : t.insertAll rows = some t') : t'.rows = t.rows ++ rows := by
  induction rows generalizing t with
  | nil =>
    obtain rfl : t = t' := Option.some.inj h
    simp
  | cons a rows ih =>
    rw [insertAll, foldlM_cons] at h
    obtain ⟨t₁, h₁, h⟩ := Option.bind_eq_some_iff.mp h
    rw [insert] at h₁
    split at h₁
    · cases h₁
    · cases h₁
      rw [ih h]
      simp

lemma find?_insertAll (h : t.insertAll rows = some t') :
  t'.find? k = (t.find? k).or (rows.find? (fun a => key a = k)) := by
  rw [find?, rows_insertAll h, find?_append]
  rfl

lemma exists_insertAll (h : ((t.rows ++ rows).map key).Nodup) :
  ∃ t', t.insertAll rows = some t' := by
  induction rows generalizing t with
  | nil => exact ⟨t, rfl⟩
  | cons a rows ih =>
    have hnew : key a ∉ t.rows.map key := by
      rw [map_append, nodup_append] at h
      exact fun hmem => h.2.2 _ hmem _ mem_cons_self rfl
    have hinsert : t.insert a = some ⟨t.rows ++ [a], _⟩ := dif_neg hnew
    obtain ⟨t', ht'⟩ := ih (t := ⟨t.rows ++ [a], _⟩) (by simpa using h)
    refine ⟨t', ?_⟩
    rw [insertAll, foldlM_cons, hinsert]
    exact ht'

/-- The rows of a class that none of the new rows is in stay as they are, in their order. -/
lemma filter_rows_upsertAll (hp : ∀ a b, key a = key b → p a = p b)
    (hrows : ∀ a ∈ rows, p a = false) :
  (t.upsertAll rows).rows.filter p = t.rows.filter p := by
  induction rows generalizing t with
  | nil => rfl
  | cons a rows ih =>
    have ha : p a = false := hrows a mem_cons_self
    have hstep : (t.upsert a).rows.filter p = t.rows.filter p := by
      rw [upsert, filter_append, filter_filter, filter_cons_of_neg (by simp [ha]),
        filter_nil, append_nil]
      refine filter_congr fun b _ => ?_
      by_cases hb : p b = true
      · have hne : key b ≠ key a := fun heq => Bool.false_ne_true
          (ha.symm.trans ((hp b a heq).symm.trans hb))
        simp [hb, hne]
      · simp [hb]
    exact (ih fun b hb => hrows b (mem_cons_of_mem a hb)).trans hstep

lemma mem_upsertAll (hb : ∀ a ∈ rows, ∀ a' ∈ rows, key a = key b → key a' = key b → a = a') :
  b ∈ t.upsertAll rows ↔ b ∈ rows ∨ b ∈ t ∧ ∀ a ∈ rows, key a ≠ key b := by
  induction rows generalizing t with
  | nil => simp [upsertAll]
  | cons a rows ih =>
    have hrest : ∀ x ∈ rows, ∀ y ∈ rows, key x = key b → key y = key b → x = y :=
      fun x hx y hy => hb x (mem_cons_of_mem a hx) y (mem_cons_of_mem a hy)
    refine (ih hrest).trans ?_
    rw [mem_upsert, mem_cons, forall_mem_cons]
    constructor
    · rintro (h | ⟨rfl | ⟨h, hne⟩, hrows⟩)
      · exact .inl (.inr h)
      · exact .inl (.inl rfl)
      · exact .inr ⟨h, hne.symm, hrows⟩
    · rintro ((rfl | h) | ⟨h, hne, hrows⟩)
      · by_cases hrows : ∃ x ∈ rows, key x = key b
        · obtain ⟨x, hx, hxb⟩ := hrows
          have heq : x = b := hb x (mem_cons_of_mem b hx) b mem_cons_self hxb rfl
          exact .inl (heq ▸ hx)
        · exact .inr ⟨.inl rfl, fun x hx hxb => hrows ⟨x, hx, hxb⟩⟩
      · exact .inl h
      · exact .inr ⟨.inr ⟨h, fun heq => hne heq.symm⟩, hrows⟩

end KeyedTable
