import Mathlib.Order.Lattice

/-! # Leases

A lease has a holder and an expiry. Anyone may take it over once it has expired, its holder may
move the expiry. Who was told that they hold the lease up to a deadline is safe as long as the
lease covers that deadline. -/
namespace LeaseRules

variable {ι τ : Type} [DecidableEq ι] [LinearOrder τ]

structure Lease (ι τ : Type) where
  owner : ι
  expiry : τ
  deriving DecidableEq

namespace Lease

/-- Take over a lease that had expired at `now`. -/
def preempt (l : Lease ι τ) (i : ι) (now expiry : τ) : Option (Lease ι τ) :=
  if l.expiry < now then some ⟨i, expiry⟩ else none

def renew (l : Lease ι τ) (i : ι) (expiry : τ) : Option (Lease ι τ) :=
  if l.owner = i then some {l with expiry} else none

/-- The lease is held by `i` at least up to the deadline. -/
def Covers (l : Lease ι τ) (i : ι) (deadline : τ) : Prop := l.owner = i ∧ deadline ≤ l.expiry

variable {l l' : Lease ι τ} {i j : ι} {d now expiry : τ}

omit [DecidableEq ι] in
lemma Covers.unique {d' : τ} (h : l.Covers i d) (h' : l.Covers j d') : i = j :=
  h.1.symm.trans h'.1

omit [DecidableEq ι] in
lemma preempt_covers (h : l.preempt i now expiry = some l') : l'.Covers i expiry := by
  rw [preempt] at h
  split at h
  · cases h
    exact ⟨rfl, le_rfl⟩
  · cases h

omit [DecidableEq ι] in
lemma Covers.preempt_eq_none (h : l.Covers i d) (hnow : now ≤ d) : l.preempt j now expiry = none :=
  if_neg (not_lt.mpr (hnow.trans h.2))

lemma renew_covers (h : l.renew i expiry = some l') : l'.Covers i expiry := by
  rw [renew] at h
  split at h
  · rename_i howner
    cases h
    exact ⟨howner, le_rfl⟩
  · cases h

lemma Covers.renew (h : l.Covers i d) (hl : l.renew j expiry = some l') (hd : i = j → d ≤ expiry) :
  l'.Covers i d := by
  rw [Lease.renew] at hl
  split at hl
  · rename_i howner
    cases hl
    exact ⟨h.1, hd (h.1.symm.trans howner)⟩
  · cases hl

end Lease

end LeaseRules
