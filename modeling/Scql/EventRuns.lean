import Mathlib.Control.Basic
import Mathlib.Order.Basic

/-! # Runs of event systems

A system reacts to events; an event that is not enabled in a state has no successor. A run is
a list of events, and a property that one step keeps holds along every run. -/
namespace EventRuns

universe u v
variable {σ : Type u} {ε : Type v} (step : ε → σ → Option σ)

/-- The state after the events, if all of them were enabled in turn. -/
def run : List ε → σ → Option σ
  | [], s => some s
  | e::es, s => (step e s).bind (run es)

/-- Every event of the run meets a condition on the state it happens in. -/
def Along (C : ε → σ → Prop) : List ε → σ → Prop
  | [], _ => True
  | e::es, s => C e s ∧ ∀ s', step e s = some s' → Along C es s'

instance decidableAlong {C : ε → σ → Prop} [∀ e s, Decidable (C e s)] :
    ∀ (es : List ε) (s : σ), Decidable (Along step C es s)
  | [], _ => .isTrue trivial
  | e::es, s =>
    match hstep : step e s with
    | none => decidable_of_iff (C e s) (by simp [Along, hstep])
    | some s' =>
      have := decidableAlong (C := C) es s'
      decidable_of_iff (C e s ∧ Along step C es s') (by simp [Along, hstep])

variable {step}

lemma run_append (es es' : List ε) (s : σ) :
  run step (es ++ es') s = (run step es s).bind (run step es') := by
  induction es generalizing s with
  | nil => rfl
  | cons e es ih =>
    simp only [List.cons_append, run, Option.bind_assoc]
    exact congrArg _ (funext ih)

variable {C : ε → σ → Prop} {es : List ε} {s : σ}

lemma along_append {es' : List ε} {s' : σ} (h : Along step C (es ++ es') s)
  (hrun : run step es s = some s') : Along step C es s ∧ Along step C es' s' := by
  induction es generalizing s with
  | nil =>
    cases hrun
    exact ⟨trivial, h⟩
  | cons e es ih =>
    obtain ⟨t, ht, hrun⟩ := Option.bind_eq_some_iff.mp hrun
    have hes := ih (h.2 t ht) hrun
    refine ⟨⟨h.1, fun t' ht' => ?_⟩, hes.2⟩
    obtain rfl := Option.some.inj (ht.symm.trans ht')
    exact hes.1

lemma guard_eq_some {p : Prop} [Decidable p] {u : Unit} : (guard p : Option Unit) = some u ↔ p := by
  by_cases hp : p <;> simp [guard, hp]

lemma along_of_mem (hC : ∀ e ∈ es, ∀ s, C e s) (s : σ) : Along step C es s := by
  induction es generalizing s with
  | nil => trivial
  | cons e es ih =>
    have hes : ∀ e ∈ es, ∀ s, C e s := fun e' he' => hC e' (List.mem_cons_of_mem e he')
    exact ⟨hC e List.mem_cons_self s, fun s' _ => ih hes s'⟩

lemma along_of_forall (hC : ∀ e s, C e s) (es : List ε) (s : σ) : Along step C es s :=
  along_of_mem (fun e _ => hC e) s

/-- What a step keeps under a condition holds after every run that meets the condition. -/
lemma run_invariant {P : σ → Prop} (hstep : ∀ e s s', C e s → P s → step e s = some s' → P s')
    {s' : σ}
  (hes : Along step C es s) (hs : P s) (hrun : run step es s = some s') : P s' := by
  induction es generalizing s with
  | nil =>
    cases hrun
    exact hs
  | cons e es ih =>
    obtain ⟨t, ht, hrun⟩ := Option.bind_eq_some_iff.mp hrun
    exact ih (hes.2 t ht) (hstep e s t hes.1 hs ht) hrun

end EventRuns
