import Scql.ExecutionGraph
import Scql.FallibleRules

/-! # Status constraints of a node

Adding a node checks the first argument of every parameter against the constraint of the
parameter. The other arguments of a variadic parameter may have any status. -/
namespace Scql.ExecutionGraph

open OperatorRegistry Fallible List

abbrev Constraints := List (String × List TensorStatus)

abbrev Statuses := List (String × TensorStatus)

/-- Parameters, each with all its arguments. -/
abbrev Bindings := List (FormalParameter × List ℕ)

def bindings (args : Arguments) (params : List FormalParameter) : Bindings :=
  params.map (fun p => (p, (args.lookup p.paramName).getD []))

def nodeBindings (opType : OpName) (inputs outputs : Arguments) : Bindings :=
  bindings inputs (findOpDef opType).inputParams ++ bindings outputs (findOpDef opType).outputParams

/-- Every argument has a status its constraint allows, and all arguments bound to one constraint
name have the same status. -/
structure Complies (status : ℕ → TensorStatus) (cs : Constraints) (bs : Bindings) : Prop where
  allowed : ∀ b ∈ bs, ∀ t ∈ b.2, ∃ allowed,
    cs.lookup b.1.parameterStatusConstraintName = some allowed ∧ status t ∈ allowed
  common : ∀ b ∈ bs, ∀ c ∈ bs, b.1.parameterStatusConstraintName =
    c.1.parameterStatusConstraintName →
    ∀ t ∈ b.2, ∀ u ∈ c.2, status t = status u

/-- What a check has bound to the constraint names, from `s` to `s'`. -/
structure Bound (status : ℕ → TensorStatus) (cs : Constraints) (s : Statuses) (bs : Bindings)
    (s' : Statuses) : Prop where
  keep : ∀ name v, s.lookup name = some v → s'.lookup name = some v
  allowed : ∀ name v, s'.lookup name = some v →
    s.lookup name = some v ∨ ∃ allowed, cs.lookup name = some allowed ∧ v ∈ allowed
  first : ∀ b ∈ bs, ∀ t ∈ b.2.head?, s'.lookup b.1.parameterStatusConstraintName = some (status t)

variable {status : ℕ → TensorStatus} {args : Arguments} {cs : Constraints} {bs bs' : Bindings}
  {s s' s'' : Statuses} {opType : OpName} {inputs outputs : Arguments}

lemma Bound.of_first (h : ∀ b ∈ bs, ∀ t ∈ b.2.head?,
  s.lookup b.1.parameterStatusConstraintName = some (status t)) : Bound status cs s bs s :=
  ⟨fun _ _ h => h, fun _ _ h => .inl h, h⟩

lemma Bound.append (h : Bound status cs s bs s') (h' : Bound status cs s' bs' s'') :
  Bound status cs s (bs ++ bs') s'' where
  keep name v hv := h'.keep name v (h.keep name v hv)
  allowed name v hv := (h'.allowed name v hv).elim (h.allowed name v) .inr
  first b hb t ht := by
    rcases mem_append.mp hb with hb | hb
    · exact h'.keep _ _ (h.first b hb t ht)
    · exact h'.first b hb t ht

lemma bound_checkParam {param : FormalParameter} (h : checkParam status args cs s param = .ok s') :
  Bound status cs s (bindings args [param]) s' := by
  rw [checkParam] at h
  rw [bindings, map_singleton]
  split at h
  · cases h
  · rename_i hargs
    split at h
    · cases h
      exact .of_first (by simp [hargs])
    · cases h
  · rename_i hargs
    split at h
    · rename_i hbound
      split at h
      · rename_i heq
        cases h
        exact .of_first (by simp [hargs, hbound, heq])
      · cases h
    · rename_i hnone
      split at h
      · cases h
      · rename_i allowed hallowed
        split at h
        · rename_i hmem
          cases h
          -- the name is bound for the first time
          refine ⟨fun name v hv => ?_, fun name v hv => ?_, by simp [hargs]⟩
          all_goals by_cases hname : name = param.parameterStatusConstraintName
          · rw [hname, hnone] at hv
            cases hv
          · rwa [lookup_cons, beq_false_of_ne hname]
          · rw [hname, lookup_cons_self, Option.some.injEq] at hv
            exact .inr ⟨allowed, hname ▸ hallowed, hv ▸ hmem⟩
          · rw [lookup_cons, beq_false_of_ne hname] at hv
            exact .inl hv
        · cases h

lemma bound_foldlM {params : List FormalParameter}
  (h : params.foldlM (checkParam status args cs) s = .ok s') :
  Bound status cs s (bindings args params) s' := by
  induction params generalizing s with
  | nil =>
    cases h
    exact .of_first (by simp [bindings])
  | cons param params ih =>
    obtain ⟨s₁, hparam, h⟩ := foldlM_cons_eq_ok.mp h
    exact (bound_checkParam hparam).append (ih h)

lemma bound_checkParamStatusConstraint {u : Unit}
  (h : checkParamStatusConstraint status (findOpDef opType) inputs outputs = .ok u) :
  ∃ s, Bound status (findOpDef opType).paramStatusConstraints []
    (nodeBindings opType inputs outputs) s := by
  rw [checkParamStatusConstraint] at h
  dsimp only at h
  split at h
  · cases h
  · split at h
    · cases h
    · obtain ⟨s, hin, h⟩ := bind_eq_ok.mp h
      obtain ⟨s', hout, -⟩ := bind_eq_ok.mp h
      exact ⟨s', (bound_foldlM hin).append (bound_foldlM hout)⟩

/-- An accepted node complies with its constraints exactly if the arguments of each parameter have
one status. -/
theorem complies_iff_uniform (plan plan' : GraphBuilder) (name : String) (opType : OpName)
  (inputs outputs : Arguments) (attributes : AList (fun _ : String => AttributeValue))
  (partyCodes : List ColumnControl.PartyCode)
  (h : plan.addExecutionNode name opType inputs outputs attributes partyCodes = .ok plan') :
  Complies plan.status (findOpDef opType).paramStatusConstraints
      (nodeBindings opType inputs outputs) ↔
    ∀ b ∈ nodeBindings opType inputs outputs, ∀ t ∈ b.2, ∀ u ∈ b.2, plan.status t =
      plan.status u := by
  refine ⟨fun h b hb => h.common b hb b hb rfl, fun huniform => ?_⟩
  obtain ⟨_, hcheck, -⟩ := bind_eq_ok.mp h
  obtain ⟨s, hs⟩ := bound_checkParamStatusConstraint hcheck
  have hbound : ∀ b ∈ nodeBindings opType inputs outputs, ∀ t ∈ b.2,
      s.lookup b.1.parameterStatusConstraintName = some (plan.status t) := by
    intro b hb t ht
    obtain ⟨u, hu⟩ := Option.isSome_iff_exists.mp (isSome_head?.mpr (ne_nil_of_mem ht))
    rw [hs.first b hb u hu, huniform b hb u (mem_of_mem_head? hu) t ht]
  constructor
  · intro b hb t ht
    exact (hs.allowed _ _ (hbound b hb t ht)).resolve_left (by simp)
  · intro b hb c hc hname t ht u hu
    have heq := hbound b hb t ht
    rw [hname, hbound c hc u hu] at heq
    exact (Option.some.inj heq).symm

def mixedPlan : GraphBuilder where
  partyInfo := ["alice"]
  tensors := [{ name := "a", status := .PRIVATE }, { name := "b", status := .SECRET },
    { name := "c", status := .PRIVATE }]
  batched := false

def runSQLOutputs (ts : List ℕ) : Arguments := (∅ : Arguments).insert "Out" ts

theorem complies_runSQL : ∃ plan',
    mixedPlan.addExecutionNode "runsql" .RunSQL ∅ (runSQLOutputs [0, 2]) ∅ ["alice"] = .ok plan' ∧
    Complies mixedPlan.status (findOpDef .RunSQL).paramStatusConstraints
      (nodeBindings .RunSQL ∅ (runSQLOutputs [0, 2])) := by
  refine ⟨_, rfl, ?_⟩
  exact (complies_iff_uniform mixedPlan _ "runsql" .RunSQL ∅ _ ∅ ["alice"] rfl).mpr (by decide)

/-- The second column of a query is secret, its constraint asks for private ones. -/
theorem not_complies_runSQL : ∃ plan',
  mixedPlan.addExecutionNode "runsql" .RunSQL ∅ (runSQLOutputs [0, 1]) ∅ ["alice"] = .ok plan' ∧
    ¬Complies mixedPlan.status (findOpDef .RunSQL).paramStatusConstraints
      (nodeBindings .RunSQL ∅ (runSQLOutputs [0, 1])) := by
  refine ⟨_, rfl, fun h => ?_⟩
  obtain ⟨allowed, hallowed, hmem⟩ :=
    h.allowed (variadic "Out" "T", [0, 1]) (by decide) 1 (by decide)
  cases hallowed
  exact absurd hmem (by decide)

end Scql.ExecutionGraph
