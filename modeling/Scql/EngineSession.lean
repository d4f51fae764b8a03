import Scql.EventRuns

/-! # The life of an engine session

One thread runs the plan of a session and reports its result, other threads may stop the session
or remove it after a timeout. The thread that runs the plan stores session states without looking
at the old one; only the stop and the last step before the removal compare first. -/
namespace Scql.Engine

open EventRuns
open Option (bind_eq_some_iff map_eq_some_iff some)

inductive SessionState
  | INITIALIZED | RUNNING | COMP_FINISHED | ABORTING | SUCCEEDED | FAILED
  deriving DecidableEq

/-- Where the thread that runs the plan is. `core n` is the loop of `RunPlanCore` with `n` node
executions to go, `threw` an exception on its way to the handler of `RunPlanSync`. -/
inductive Position
  | queued
  | core (n : ℕ)
  | coreDone
  | synced
  | stored
  | threw
  | returned
  | reported
  | settled
  | ended
  deriving DecidableEq

/-- What becomes of the report to the driver. -/
inductive Report
  | delivered | notSent | unanswered
  deriving DecidableEq

/-- `nodeExecutions` is how often the plan runs a node; `statusOk` says that the code of the
response is `OK`, which is also its default. `aborted` and `toldOk` record that a stop moved the
session to `ABORTING`, and that the driver was told `OK`. -/
structure Session where
  nodeExecutions : ℕ
  async : Bool
  state : SessionState := .INITIALIZED
  position : Position := .queued
  present : Bool := true
  statusOk : Bool := true
  aborted : Bool := false
  toldOk : Bool := false
  deriving DecidableEq

/-- The steps of `RunPlanSync` and of what follows it, and those of the other threads. The link
and the operators are not modelled: `throwException` stands for whatever they throw, also after
a stop has aborted the link. -/
inductive Event
  | start
  | runNode
  | finishCore
  | sync
  | store
  | waitLinkTaskFinish
  | throwException
  | handle
  | report (r : Report)
  | compareAndSet
  | removeSession
  | stopSession
  | timeout
  deriving DecidableEq

namespace Session

/-- `CompareAndSetState`; a removed session is not found. -/
def casState (s : Session) (expected desired : SessionState) : Session :=
  if s.present ∧ s.state = expected then {s with state := desired} else s

/-- `RemoveSession` refuses a session that is neither `FAILED` nor `SUCCEEDED`. -/
def remove (s : Session) : Session :=
  if s.state = .FAILED ∨ s.state = .SUCCEEDED then {s with present := false} else s

/-- `StopSession`: only a running session is stopped. -/
def stop (s : Session) : Session :=
  if s.present ∧ s.state = .RUNNING then {s with state := .ABORTING, aborted := true} else s

/-- `ReportResult`: a report that fails makes the session fail. -/
def reportResult (s : Session) : Report → Session
  | .delivered => {s with toldOk := s.toldOk || s.statusOk}
  | .notSent => {s with state := .FAILED}
  | .unanswered => {s with state := .FAILED, toldOk := s.toldOk || s.statusOk}

end Session

/-- The places where a call of the plan, of the link or of the peers may throw. -/
def Position.mayThrow : Position → Bool
  | .queued | .core _ | .coreDone | .stored => true
  | _ => false

def step : Event → Session → Option Session
  | .start, s =>
    match s.position with
    | .queued => some {s with state := .RUNNING, position := .core s.nodeExecutions}
    | _ => none
  | .runNode, s =>
    match s.position with
    | .core (n+1) =>
      -- every node execution begins with a look at the state
      if s.state = .RUNNING then some {s with position := .core n}
      else some {s with position := .threw}
    | _ => none
  | .finishCore, s =>
    match s.position with
    | .core 0 => some {s with position := .coreDone, statusOk := true}
    | _ => none
  | .sync, s =>
    match s.position with
    | .coreDone => some {s with position := .synced}
    | _ => none
  | .store, s =>
    match s.position with
    | .synced => some {s with position := .stored, state := .COMP_FINISHED}
    | _ => none
  | .waitLinkTaskFinish, s =>
    match s.position with
    | .stored => some {s with position := .returned}
    | _ => none
  | .throwException, s => do
    guard s.position.mayThrow
    return {s with position := .threw}
  | .handle, s =>
    match s.position with
    | .threw => some {s with position := .returned, state := .FAILED, statusOk := false}
    | _ => none
  | .report r, s => do
    guard (s.position = .returned)
    -- in sync mode the response goes out at the end
    return {(if s.async then s.reportResult r else s) with position := .reported}
  | .compareAndSet, s => do
    guard (s.position = .reported)
    return {s.casState .COMP_FINISHED .SUCCEEDED with position := .settled}
  | .removeSession, s => do
    guard (s.position = .settled)
    return { s.remove with
      position := .ended
      toldOk := s.toldOk || (!s.async && s.statusOk)}
  | .stopSession, s => some s.stop
  | .timeout, s => some s.remove

def Position.nodesAhead : Position → Bool
  | .core (_+1) => true
  | _ => false

/-- A stop that moves the session to `ABORTING` finds a node execution still to begin. -/
def Early : Event → Session → Prop
  | .stopSession, s => s.present = true → s.state = .RUNNING → s.position.nodesAhead = true
  | _, _ => True

instance (e : Event) (s : Session) : Decidable (Early e s) := by
  unfold Early
  split <;> infer_instance

/-- After an abort the thread is on its way to the handler or behind it. -/
inductive AbortedAt : Session → Prop
  | ahead {s : Session} (n : ℕ) (hpos : s.position = .core (n+1)) (hstate : s.state = .ABORTING) :
    AbortedAt s
  | threw {s : Session} (hpos : s.position = .threw) (hstate : s.state = .ABORTING) : AbortedAt s
  | handled {s : Session} (hstate : s.state = .FAILED) (hstatus : s.statusOk = false)
      (hpos : s.position = .returned ∨ s.position = .reported ∨ s.position = .settled ∨
        s.position = .ended) : AbortedAt s

structure Inv (s : Session) : Prop where
  toldOk : s.toldOk = true → s.aborted = false ∧
    (s.position = .reported ∨ s.position = .settled ∨ s.position = .ended)
  aborted : s.aborted = true → AbortedAt s

/-- Where no abort can have happened: the thread reads the state no more before it stores
`COMP_FINISHED`, or has not begun. -/
def Position.clear : Position → Bool
  | .queued | .core 0 | .coreDone | .synced | .stored => true
  | _ => false

variable {s s' : Session}

lemma AbortedAt.not_clear (h : AbortedAt s) : s.position.clear = false := by
  cases h with
  | ahead n hpos | threw hpos => rw [hpos]; rfl
  | handled _ _ hpos => rcases hpos with hpos | hpos | hpos | hpos <;> rw [hpos] <;> rfl

lemma Inv.aborted_eq_false (hs : Inv s) (hclear : s.position.clear = true) : s.aborted = false := by
  cases h : s.aborted with
  | false => rfl
  | true => simp [(hs.aborted h).not_clear] at hclear

lemma Inv.toldOk_eq_false (hs : Inv s) (hpos : s.position ≠ .reported ∧ s.position ≠ .settled ∧
  s.position ≠ .ended) : s.toldOk = false := by
  cases h : s.toldOk with
  | false => rfl
  | true =>
    rcases (hs.toldOk h).2 with hp | hp | hp
    · exact absurd hp hpos.1
    · exact absurd hp hpos.2.1
    · exact absurd hp hpos.2.2

lemma Inv.failed (hs : Inv s) (habort : s.aborted = true)
  (hpos : s.position = .returned ∨ s.position = .reported ∨ s.position = .settled) :
  s.state = .FAILED ∧ s.statusOk = false := by
  cases hs.aborted habort with
  | ahead n hpos' | threw hpos' => simp [hpos'] at hpos
  | handled hstate hstatus => exact ⟨hstate, hstatus⟩

lemma Inv.of_not_aborted (htold : s.toldOk = false) (habort : s.aborted = false) : Inv s :=
  ⟨fun h => by simp [htold] at h, fun h => by simp [habort] at h⟩

lemma Inv.stop (hs : Inv s) (hearly : Early .stopSession s) : Inv s.stop := by
  unfold Session.stop
  split
  · rename_i hrunning
    obtain ⟨n, hpos⟩ : ∃ n, s.position = .core (n+1) := by
      have hahead := hearly hrunning.1 hrunning.2
      unfold Position.nodesAhead at hahead
      split at hahead
      · exact ⟨_, by assumption⟩
      · cases hahead
    have htold : s.toldOk = false := hs.toldOk_eq_false (by simp [hpos])
    exact ⟨fun h => by simp [htold] at h, fun _ => .ahead n hpos rfl⟩
  · exact hs

lemma Inv.remove (hs : Inv s) : Inv s.remove := by
  unfold Session.remove
  split
  · refine ⟨hs.toldOk, fun h => ?_⟩
    cases hs.aborted h with
    | ahead n hpos hstate => exact .ahead n hpos hstate
    | threw hpos hstate => exact .threw hpos hstate
    | handled hstate hstatus hpos => exact .handled hstate hstatus hpos
  · exact hs

/-- A report goes out with the code of the response; an aborted session has an error code. -/
lemma Inv.report (hs : Inv s) (hpos : s.position = .returned) (r : Report) :
  Inv {(if s.async then s.reportResult r else s) with position := .reported} := by
  have htold : s.toldOk = false := hs.toldOk_eq_false (by simp [hpos])
  have hkept : (if s.async then s.reportResult r else s).aborted = s.aborted := by
    cases s.async <;> cases r <;> rfl
  cases habort : s.aborted with
  | false =>
    exact ⟨fun _ => ⟨hkept.trans habort, .inl rfl⟩, fun h => by simp [hkept, habort] at h⟩
  | true =>
    obtain ⟨hstate, hok⟩ := hs.failed habort (.inl hpos)
    refine ⟨fun h => ?_, fun _ => .handled ?_ ?_ (.inr (.inl rfl))⟩
    · cases hasync : s.async <;> cases r <;> simp [Session.reportResult, hasync, htold, hok] at h
    · cases s.async <;> cases r <;> simp [Session.reportResult, hstate]
    · cases s.async <;> cases r <;> simp [Session.reportResult, hok]

lemma Inv.compareAndSet (hs : Inv s) (hpos : s.position = .reported) :
  Inv {s.casState .COMP_FINISHED .SUCCEEDED with position := .settled} := by
  unfold Session.casState
  split
  · rename_i hcas
    have habort : s.aborted = false := by
      cases habort : s.aborted with
      | false => rfl
      | true => simp [(hs.failed habort (.inr (.inl hpos))).1] at hcas
    exact ⟨fun _ => ⟨habort, .inr (.inl rfl)⟩, fun h => by simp [habort] at h⟩
  · refine ⟨fun h => ⟨(hs.toldOk h).1, .inr (.inl rfl)⟩, fun habort => ?_⟩
    obtain ⟨hstate, hok⟩ := hs.failed habort (.inr (.inl hpos))
    exact .handled hstate hok (.inr (.inr (.inl rfl)))

lemma Inv.removeSession (hs : Inv s) (hpos : s.position = .settled) : Inv { s.remove with
    position := .ended
    toldOk := s.toldOk || (!s.async && s.statusOk)} := by
  have hkept : s.remove.aborted = s.aborted ∧ s.remove.state = s.state ∧
    s.remove.statusOk = s.statusOk := by
    unfold Session.remove
    split <;> exact ⟨rfl, rfl, rfl⟩
  cases habort : s.aborted with
  | false =>
    exact ⟨fun _ => ⟨hkept.1.trans habort, .inr (.inr rfl)⟩,
      fun h => by simp [hkept.1, habort] at h⟩
  | true =>
    obtain ⟨hstate, hok⟩ := hs.failed habort (.inr (.inr hpos))
    have htold : s.toldOk = false := by
      cases ht : s.toldOk with
      | false => rfl
      | true => simp [(hs.toldOk ht).1] at habort
    refine ⟨fun h => by simp [htold, hok] at h, fun _ => ?_⟩
    exact .handled (hkept.2.1.trans hstate) (hkept.2.2.trans hok) (.inr (.inr (.inr rfl)))

lemma inv_step {e : Event} (he : Early e s) (hs : Inv s) (hstep : step e s = some s') : Inv s' := by
  cases e with
  | start =>
    simp only [step] at hstep
    split at hstep
    · rename_i hpos
      cases hstep
      exact .of_not_aborted (hs.toldOk_eq_false (by simp [hpos]))
        (hs.aborted_eq_false (by simp [hpos, Position.clear]))
    · cases hstep
  | runNode =>
    simp only [step] at hstep
    split at hstep
    · rename_i n hpos
      have htold : s.toldOk = false := hs.toldOk_eq_false (by simp [hpos])
      split at hstep
      · rename_i hrunning
        cases hstep
        refine .of_not_aborted htold ?_
        -- an aborted session is not running here
        cases habort : s.aborted with
        | false => rfl
        | true => cases hs.aborted habort <;> simp_all
      · cases hstep
        refine ⟨fun h => by simp [htold] at h, fun habort => ?_⟩
        cases hs.aborted habort with
        | ahead _ _ hstate => exact .threw rfl hstate
        | threw hpos' => simp [hpos] at hpos'
        | handled _ _ hpos' => simp [hpos] at hpos'
    · cases hstep
  | finishCore | sync | store | waitLinkTaskFinish =>
    simp only [step] at hstep
    split at hstep
    · rename_i hpos
      cases hstep
      exact .of_not_aborted (hs.toldOk_eq_false (by simp [hpos]))
        (hs.aborted_eq_false (by simp [hpos, Position.clear]))
    · cases hstep
  | throwException =>
    obtain ⟨_, hguard, hstep⟩ := bind_eq_some_iff.mp hstep
    cases hstep
    have hthrow : s.position.mayThrow = true := guard_eq_some.mp hguard
    have htold : s.toldOk = false := hs.toldOk_eq_false (by
      refine ⟨?_, ?_, ?_⟩ <;> (intro hpos; simp [hpos, Position.mayThrow] at hthrow))
    refine ⟨fun h => by simp [htold] at h, fun habort => ?_⟩
    cases hs.aborted habort with
    | ahead _ _ hstate | threw _ hstate => exact .threw rfl hstate
    | handled _ _ hpos =>
      rcases hpos with hpos | hpos | hpos | hpos <;> simp [hpos, Position.mayThrow] at hthrow
  | handle =>
    simp only [step] at hstep
    split at hstep
    · rename_i hpos
      cases hstep
      have htold : s.toldOk = false := hs.toldOk_eq_false (by simp [hpos])
      exact ⟨fun h => by simp [htold] at h, fun _ => .handled rfl rfl (.inl rfl)⟩
    · cases hstep
  | report r =>
    obtain ⟨_, hguard, hstep⟩ := bind_eq_some_iff.mp hstep
    cases hstep
    exact hs.report (guard_eq_some.mp hguard) r
  | compareAndSet =>
    obtain ⟨_, hguard, hstep⟩ := bind_eq_some_iff.mp hstep
    cases hstep
    exact hs.compareAndSet (guard_eq_some.mp hguard)
  | removeSession =>
    obtain ⟨_, hguard, hstep⟩ := bind_eq_some_iff.mp hstep
    cases hstep
    exact hs.removeSession (guard_eq_some.mp hguard)
  | stopSession =>
    cases hstep
    exact hs.stop he
  | timeout =>
    cases hstep
    exact hs.remove

def Session.Created (s : Session) : Prop :=
  s.state = .INITIALIZED ∧ s.position = .queued ∧ s.aborted = false ∧ s.toldOk = false

/-- In every run in which stops come early, an aborted session never counts as finished, and the
driver is not told `OK`. -/
theorem abort_is_final {es : List Event} (hs : s.Created) (hes : Along step Early es s)
  (hrun : run step es s = some s') (habort : s'.aborted = true) :
  s'.state ≠ .COMP_FINISHED ∧ s'.state ≠ .SUCCEEDED ∧ s'.toldOk = false := by
  have hinv : Inv s' :=
    run_invariant (fun _ _ _ => inv_step) hes (.of_not_aborted hs.2.2.2 hs.2.2.1) hrun
  have hstate : s'.state = .ABORTING ∨ s'.state = .FAILED := by
    cases hinv.aborted habort with
    | ahead _ _ h | threw _ h => exact .inl h
    | handled h => exact .inr h
  refine ⟨?_, ?_, ?_⟩
  · rcases hstate with h | h <;> simp [h]
  · rcases hstate with h | h <;> simp [h]
  · cases htold : s'.toldOk with
    | false => rfl
    | true => simp [(hinv.toldOk htold).1] at habort

def twoNodes : Session where
  nodeExecutions := 2
  async := true

def stoppedRun : List Event :=
  [.start, .runNode, .stopSession, .runNode, .handle, .report .delivered, .compareAndSet,
    .removeSession]

theorem abort_is_final_stoppedRun : ∃ s', run step stoppedRun twoNodes = some s' ∧
  s'.aborted = true ∧ s'.state ≠ .COMP_FINISHED ∧ s'.state ≠ .SUCCEEDED ∧ s'.toldOk = false := by
  have habort : (run step stoppedRun twoNodes).map (·.aborted) = some true := by decide
  obtain ⟨s', hrun, habort⟩ := map_eq_some_iff.mp habort
  exact ⟨s', hrun, habort, abort_is_final ⟨rfl, rfl, rfl, rfl⟩ (by decide) hrun habort⟩

/-- A stop between the last look at the state and the store of `COMP_FINISHED` is lost. -/
theorem abort_overwritten :
  run step [.start, .runNode, .runNode, .finishCore, .sync, .stopSession, .store,
    .waitLinkTaskFinish, .report .delivered, .compareAndSet] twoNodes =
  some { twoNodes with
    state := .SUCCEEDED, position := .settled, aborted := true, toldOk := true} := by
  decide

end Scql.Engine
