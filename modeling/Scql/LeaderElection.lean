import Mathlib.Order.Nat
import Scql.EventRuns
import Scql.LeaseRules

/-! # Election of the broker instance that runs the cron tasks

The instances of one broker share a lock row. Each runs an election tick now and then: a worker
looks whether the row has expired and then tries to take it, the leader renews it. Every call of
the storage is a transaction that the database executes some time after the instance asked, and
whose answer arrives some time after that. -/
namespace Scql.Broker.Election

open EventRuns LeaseRules
open Option (bind_eq_some_iff map_eq_some_iff some)

inductive Role
  | Leader | Worker
  deriving DecidableEq

/-- The row, with `expired_at` as its expiry. -/
abbrev Lock (ι : Type) := Lease ι ℕ

/-- How a transaction ends. `failed` is an error of the statement; after `commitFailed` the
statement is undone although its number of affected rows was read; after `unanswered` the update
stays but the caller sees an error. -/
inductive Commit
  | committed | failed | commitFailed | unanswered
  deriving DecidableEq

/-- Where the tick of an instance is. The first number of a statement is the time of its
condition, the last one the `expired_at` it writes; an answer is `none` for an error. -/
inductive Phase
  | idle
  | checking (now : ℕ)
  | checked (expired : Option Bool)
  | stamping (now : ℕ)
  | preempting (now expiry : ℕ)
  | preempted (ok : Option Bool) (expiry : ℕ)
  | renewing (expiry : ℕ)
  | renewed (ok : Option Bool) (expiry : ℕ)
  deriving DecidableEq

/-- `leaseEnd` is two intervals after the time of the last successful election or renewal. -/
structure Instance where
  alive : Bool := true
  role : Role := .Worker
  phase : Phase := .idle
  leaseEnd : ℕ := 0
  deriving DecidableEq

structure State (ι : Type) where
  clock : ℕ
  lock : Lock ι
  instances : ι → Instance

inductive Event (ι : Type)
  | advance (d : ℕ)
  | tick (i : ι)
  /-- The database executes the statement of an instance, which may be dead by now. -/
  | execute (i : ι) (c : Commit)
  /-- An instance goes on with an answer; `tasksOk` is the outcome of starting or stopping
  tasks. -/
  | resume (i : ι) (tasksOk : Bool)
  | crash (i : ι)
  deriving DecidableEq

variable {ι : Type} [DecidableEq ι]

/-- `DistributeLockGuard` runs `Finish` with the error it had when the call began, which is nil:
it always commits, and what the commit returns is only logged. -/
def distributeLockGuard (c : Commit) (lk : Lock ι) (updated : Option (Lock ι)) :
    Option Bool × Lock ι :=
  match c with
  | .committed => (some updated.isSome, updated.getD lk)
  | .failed => (none, lk)
  | .commitFailed => (some updated.isSome, lk)
  | .unanswered => (none, updated.getD lk)

def distributedLockExpired (c : Commit) (lk : Lock ι) (now : ℕ) : Option Bool :=
  match c with
  | .committed | .commitFailed => some (lk.expiry < now)
  | .failed | .unanswered => none

def preemptDistributedLock (c : Commit) (lk : Lock ι) (owner : ι) (now expiry : ℕ) :
    Option Bool × Lock ι :=
  distributeLockGuard c lk (lk.preempt owner now expiry)

def renewDistributedLock (c : Commit) (lk : Lock ι) (owner : ι) (expiry : ℕ) :
    Option Bool × Lock ι :=
  distributeLockGuard c lk (lk.renew owner expiry)

def State.set (s : State ι) (i : ι) (w : Instance) : State ι :=
  {s with instances := Function.update s.instances i w}

def Instance.tick (interval clock : ℕ) (w : Instance) : Instance :=
  match w.role with
  | .Worker => {w with phase := .checking clock}
  | .Leader => {w with phase := .renewing (clock+2*interval)}

def Instance.execute (c : Commit) (i : ι) (lk : Lock ι) (w : Instance) :
    Option (Instance × Lock ι) :=
  match w.phase with
  | .checking now => some ({w with phase := .checked (distributedLockExpired c lk now)}, lk)
  | .preempting now expiry =>
    let (ok, lk) := preemptDistributedLock c lk i now expiry
    some ({w with phase := .preempted ok expiry}, lk)
  | .renewing expiry =>
    let (ok, lk) := renewDistributedLock c lk i expiry
    some ({w with phase := .renewed ok expiry}, lk)
  | _ => none

/-- The instance goes on. An update reads the clock twice, for its condition and for the expiry
it writes. -/
def Instance.resume (interval clock : ℕ) (tasksOk : Bool) (w : Instance) : Option Instance :=
  match w.phase with
  | .checked (some true) => some {w with phase := .stamping clock}
  | .checked _ => some {w with phase := .idle}
  | .stamping now => some {w with phase := .preempting now (clock+2*interval)}
  | .preempted (some true) expiry =>
    if tasksOk then some {w with phase := .idle, role := .Leader, leaseEnd := expiry}
    else some {w with phase := .idle}
  | .preempted _ _ => some {w with phase := .idle}
  | .renewed (some true) expiry => some {w with phase := .idle, leaseEnd := expiry}
  | .renewed _ _ =>
    -- tasks that cannot be stopped leave the instance a leader
    if tasksOk then some {w with phase := .idle, role := .Worker}
    else some {w with phase := .idle}
  | _ => none

def step (interval : ℕ) : Event ι → State ι → Option (State ι)
  | .advance d, s => some {s with clock := s.clock+d}
  | .tick i, s => do
    guard ((s.instances i).alive ∧ (s.instances i).phase = .idle)
    return s.set i ((s.instances i).tick interval s.clock)
  | .execute i c, s => do
    let (w, lock) ← (s.instances i).execute c i s.lock
    return {s.set i w with lock}
  | .resume i tasksOk, s => do
    guard (s.instances i).alive
    let w ← (s.instances i).resume interval s.clock tasksOk
    return s.set i w
  | .crash i, s => some (s.set i {s.instances i with alive := false})

/-- The instance runs the tasks: their scheduler asks `IsLeader` before every run. -/
def State.acts (s : State ι) (i : ι) : Bool :=
  (s.instances i).alive && (s.instances i).role = .Leader

def State.Initial (s : State ι) : Prop :=
  ∀ i, (s.instances i).role = .Worker ∧ (s.instances i).phase = .idle ∧ (s.instances i).leaseEnd = 0

/-- No update that found its row loses its commit, an election is answered before the time it
writes, and a leader renews its lock or stops before its lease ends. -/
def Timely : Event ι → State ι → Prop
  | .advance d, s => ∀ i, s.acts i = true → s.clock+d ≤ (s.instances i).leaseEnd
  | .execute i .commitFailed, s =>
    match (s.instances i).phase with
    | .preempting now expiry => s.lock.preempt i now expiry = none
    | .renewing expiry => s.lock.renew i expiry = none
    | _ => True
  | .resume i _, s =>
    match (s.instances i).phase with
    | .preempted (some true) expiry => s.clock ≤ expiry
    | _ => True
  | _, _ => True

def PhaseSound (interval clock : ℕ) (lk : Lock ι) (i : ι) (w : Instance) : Prop :=
  match w.phase with
  | .stamping now => now ≤ clock
  | .preempting now expiry => now ≤ clock ∧ expiry ≤ clock+2*interval
  | .preempted ok expiry =>
    expiry ≤ clock+2*interval ∧ (ok = some true → clock ≤ expiry → lk.Covers i expiry)
  | .renewing expiry => expiry ≤ clock+2*interval ∧ w.leaseEnd ≤ expiry
  | .renewed ok expiry => expiry ≤ clock+2*interval ∧ w.leaseEnd ≤ expiry ∧
      (ok = some true → w.alive = true → w.role = .Leader → lk.Covers i expiry)
  | _ => True

/-- A leader's lease has not ended, and the lock covers it. -/
structure Sound (interval clock : ℕ) (lk : Lock ι) (i : ι) (w : Instance) : Prop where
  leaseEnd_le : w.leaseEnd ≤ clock+2*interval
  leader : w.alive = true → w.role = .Leader → lk.Covers i w.leaseEnd ∧ clock ≤ w.leaseEnd
  phase : PhaseSound interval clock lk i w

variable {interval clock : ℕ} {lk lk' : Lock ι} {i j : ι} {w w' : Instance}

omit [DecidableEq ι] in
lemma Sound.of_lock (h : Sound interval clock lk i w)
  (hlk : ∀ d, clock ≤ d → lk.Covers i d → lk'.Covers i d) : Sound interval clock lk' i w := by
  refine ⟨h.leaseEnd_le, fun ha hr => ?_, ?_⟩
  · obtain ⟨hcov, hclock⟩ := h.leader ha hr
    exact ⟨hlk _ hclock hcov, hclock⟩
  · have hphase := h.phase
    unfold PhaseSound at hphase ⊢
    split at hphase
    · exact hphase
    · exact hphase
    · exact ⟨hphase.1, fun hok hle => hlk _ hle (hphase.2 hok hle)⟩
    · exact hphase
    · refine ⟨hphase.1, hphase.2.1, fun hok ha hr => hlk _ ?_ (hphase.2.2 hok ha hr)⟩
      exact (h.leader ha hr).2.trans hphase.2.1
    · trivial

omit [DecidableEq ι] in
lemma Sound.advance (h : Sound interval clock lk i w) {d : ℕ}
  (hd : w.alive = true → w.role = .Leader → clock+d ≤ w.leaseEnd) :
    Sound interval (clock+d) lk i w := by
  refine ⟨by have := h.leaseEnd_le; omega, fun ha hr => ⟨(h.leader ha hr).1, hd ha hr⟩, ?_⟩
  have hphase := h.phase
  unfold PhaseSound at hphase ⊢
  split at hphase
  · exact hphase.trans (Nat.le_add_right _ _)
  · exact ⟨by omega, by omega⟩
  · exact ⟨by omega, fun hok hle => hphase.2 hok (by omega)⟩
  · exact ⟨by omega, hphase.2⟩
  · exact ⟨by omega, hphase.2⟩
  · trivial

omit [DecidableEq ι] in
lemma Sound.tick (h : Sound interval clock lk i w) :
  Sound interval clock lk i (w.tick interval clock) := by
  unfold Instance.tick
  split
  · exact ⟨h.leaseEnd_le, h.leader, trivial⟩
  · exact ⟨h.leaseEnd_le, h.leader, le_rfl, h.leaseEnd_le⟩

omit [DecidableEq ι] in
lemma Sound.crash (h : Sound interval clock lk i w) :
  Sound interval clock lk i {w with alive := false} := by
  refine ⟨h.leaseEnd_le, fun ha => by simp at ha, ?_⟩
  have hphase := h.phase
  unfold PhaseSound at hphase ⊢
  split at hphase <;> simp_all

omit [DecidableEq ι] in
lemma Sound.resume (h : Sound interval clock lk i w) {tasksOk : Bool}
  (hw : w.resume interval clock tasksOk = some w')
  (htimely : ∀ expiry, w.phase = .preempted (some true) expiry → clock ≤ expiry) :
  Sound interval clock lk i w' := by
  have hphase := h.phase
  unfold PhaseSound at hphase
  unfold Instance.resume at hw
  split at hw
  · cases hw
    exact ⟨h.leaseEnd_le, h.leader, le_rfl⟩
  · cases hw
    exact ⟨h.leaseEnd_le, h.leader, trivial⟩
  · rename_i now hnow
    cases hw
    rw [hnow] at hphase
    exact ⟨h.leaseEnd_le, h.leader, hphase, le_rfl⟩
  · rename_i expiry hexpiry
    rw [hexpiry] at hphase
    split at hw
    · cases hw
      have hle := htimely expiry hexpiry
      exact ⟨hphase.1, fun _ _ => ⟨hphase.2 rfl hle, hle⟩, trivial⟩
    · cases hw
      exact ⟨h.leaseEnd_le, h.leader, trivial⟩
  · cases hw
    exact ⟨h.leaseEnd_le, h.leader, trivial⟩
  · rename_i expiry hexpiry
    rw [hexpiry] at hphase
    cases hw
    refine ⟨hphase.1, fun ha hr => ⟨hphase.2.2 rfl ha hr, ?_⟩, trivial⟩
    exact (h.leader ha hr).2.trans hphase.2.1
  · split at hw
    · cases hw
      exact ⟨h.leaseEnd_le, fun _ hr => by simp at hr, trivial⟩
    · cases hw
      exact ⟨h.leaseEnd_le, h.leader, trivial⟩
  · cases hw

omit [DecidableEq ι] in
lemma distributeLockGuard_lock (c : Commit) (lk : Lock ι) (updated : Option (Lock ι)) :
  (distributeLockGuard c lk updated).2 = lk ∨ updated =
    some (distributeLockGuard c lk updated).2 := by
  cases c <;> cases updated <;> simp [distributeLockGuard]

variable {c : Commit}

omit [DecidableEq ι] in
/-- An answer that reports success means that the update stayed, unless the commit failed. -/
lemma distributeLockGuard_ok {updated : Option (Lock ι)} (hc : c = .commitFailed → updated = none)
  (h : (distributeLockGuard c lk updated).1 = some true) :
  updated = some (distributeLockGuard c lk updated).2 := by
  cases c <;> cases updated <;> simp_all [distributeLockGuard]

/-- The lock after a statement is the old one or what an election or a renewal wrote. -/
lemma lock_of_execute (hw : w.execute c j lk = some (w', lk')) : lk' = lk ∨
  (∃ now expiry, w.phase = .preempting now expiry ∧ lk.preempt j now expiry = some lk') ∨
  ∃ expiry, w.phase = .renewing expiry ∧ lk.renew j expiry = some lk' := by
  unfold Instance.execute at hw
  split at hw
  · exact .inl (Prod.ext_iff.mp (some.inj hw)).2.symm
  · rename_i now expiry hphase
    obtain rfl := (Prod.ext_iff.mp (some.inj hw)).2
    rcases distributeLockGuard_lock c lk (lk.preempt j now expiry) with h | h
    · exact .inl h
    · exact .inr (.inl ⟨now, expiry, hphase, h⟩)
  · rename_i expiry hphase
    obtain rfl := (Prod.ext_iff.mp (some.inj hw)).2
    rcases distributeLockGuard_lock c lk (lk.renew j expiry) with h | h
    · exact .inl h
    · exact .inr (.inr ⟨expiry, hphase, h⟩)
  · cases hw

lemma Sound.covers_of_execute (h : Sound interval clock lk j w)
  (hw : w.execute c j lk = some (w', lk')) {d : ℕ} (hcov : lk.Covers i d) (hd : clock ≤ d)
  (hown : i = j → ∀ expiry, w.phase = .renewing expiry → d ≤ expiry) : lk'.Covers i d := by
  have hsound := h.phase
  unfold PhaseSound at hsound
  rcases lock_of_execute hw with rfl | ⟨now, expiry, hphase, hlk⟩ | ⟨expiry, hphase, hlk⟩
  · exact hcov
  · rw [hphase] at hsound
    rw [hcov.preempt_eq_none (hsound.1.trans hd)] at hlk
    cases hlk
  · exact hcov.renew hlk fun hij => hown hij expiry hphase

/-- The instance whose statement was executed stays sound, unless a failed commit undid it. -/
lemma Sound.execute (h : Sound interval clock lk j w) (hw : w.execute c j lk = some (w', lk'))
  (hpreempt : ∀ now expiry, w.phase = .preempting now expiry → c = .commitFailed →
    lk.preempt j now expiry = none)
  (hrenew : ∀ expiry, w.phase = .renewing expiry → c = .commitFailed → lk.renew j expiry = none) :
  Sound interval clock lk' j w' := by
  have hsound := h.phase
  unfold PhaseSound at hsound
  have hleader :
    w.alive = true → w.role = .Leader → lk'.Covers j w.leaseEnd ∧ clock ≤ w.leaseEnd := by
    intro ha hr
    obtain ⟨hcov, hclock⟩ := h.leader ha hr
    refine ⟨h.covers_of_execute hw hcov hclock fun _ expiry hphase => ?_, hclock⟩
    rw [hphase] at hsound
    exact hsound.2
  unfold Instance.execute at hw
  split at hw
  · obtain ⟨rfl, rfl⟩ := Prod.ext_iff.mp (some.inj hw)
    exact ⟨h.leaseEnd_le, hleader, trivial⟩
  · rename_i now expiry hphase
    obtain ⟨rfl, rfl⟩ := Prod.ext_iff.mp (some.inj hw)
    rw [hphase] at hsound
    refine ⟨h.leaseEnd_le, hleader, hsound.2, fun hok _ => ?_⟩
    exact Lease.preempt_covers (distributeLockGuard_ok (hpreempt now expiry hphase) hok)
  · rename_i expiry hphase
    obtain ⟨rfl, rfl⟩ := Prod.ext_iff.mp (some.inj hw)
    rw [hphase] at hsound
    refine ⟨h.leaseEnd_le, hleader, hsound.1, hsound.2, fun hok _ _ => ?_⟩
    exact Lease.renew_covers (distributeLockGuard_ok (hrenew expiry hphase) hok)
  · cases hw

variable {s s' : State ι}

def State.AllSound (interval : ℕ) (s : State ι) : Prop :=
  ∀ i, Sound interval s.clock s.lock i (s.instances i)

lemma State.AllSound.set {lk : Lock ι} {w : Instance}
  (hothers : ∀ j, j ≠ i → Sound interval s.clock lk j (s.instances j))
  (hw : Sound interval s.clock lk i w) :
  State.AllSound interval {s.set i w with lock := lk} := by
  intro j
  by_cases hj : j = i
  · subst hj
    simpa [State.set] using hw
  · simpa [State.set, hj] using hothers j hj

lemma allSound_step {e : Event ι} (htimely : Timely e s) (hs : s.AllSound interval)
  (hstep : step interval e s = some s') : s'.AllSound interval := by
  cases e with
  | advance d =>
    cases hstep
    exact fun i => (hs i).advance fun ha hr => htimely i (by simp [State.acts, ha, hr])
  | tick i =>
    obtain ⟨_, -, hstep⟩ := bind_eq_some_iff.mp hstep
    cases hstep
    exact .set (fun j _ => hs j) (hs i).tick
  | execute i c =>
    obtain ⟨⟨w, lk⟩, hw, hstep⟩ := bind_eq_some_iff.mp hstep
    cases hstep
    refine .set (fun j hj => (hs j).of_lock fun d hd hcov => ?_) ((hs i).execute hw ?_ ?_)
    · exact (hs i).covers_of_execute hw hcov hd fun hij => absurd hij hj
    · rintro now expiry hphase rfl
      simpa [Timely, hphase] using htimely
    · rintro expiry hphase rfl
      simpa [Timely, hphase] using htimely
  | resume i tasksOk =>
    obtain ⟨_, -, hstep⟩ := bind_eq_some_iff.mp hstep
    obtain ⟨w, hw, hstep⟩ := bind_eq_some_iff.mp hstep
    cases hstep
    refine .set (fun j _ => hs j) ((hs i).resume hw fun expiry hphase => ?_)
    simpa [Timely, hphase] using htimely
  | crash i =>
    cases hstep
    exact .set (fun j _ => hs j) (hs i).crash

omit [DecidableEq ι] in
lemma State.Initial.allSound (hs : s.Initial) : s.AllSound interval := by
  intro i
  obtain ⟨hrole, hphase, hend⟩ := hs i
  refine ⟨by simp [hend], fun _ hr => ?_, ?_⟩
  · simp [hrole] at hr
  · simp [PhaseSound, hphase]

/-- In every run of timely steps no two instances act as leader. -/
theorem acts_unique {es : List (Event ι)} (hs : s.Initial) (hes : Along (step interval) Timely es s)
  (hrun : run (step interval) es s = some s') (hi : s'.acts i = true) (hj : s'.acts j = true) :
  i = j := by
  have hsound : s'.AllSound interval :=
    run_invariant (fun _ _ _ => allSound_step) hes hs.allSound hrun
  simp only [State.acts, Bool.and_eq_true, decide_eq_true_eq] at hi hj
  exact ((hsound i).leader hi.1 hi.2).1.unique ((hsound j).leader hj.1 hj.2).1

def twoInstances : State Bool where
  clock := 1
  lock := ⟨false, 0⟩
  instances _ := {}

/-- A whole tick of a worker that finds the row expired, with the end of its election. -/
def elect (i : ι) (c : Commit) : List (Event ι) :=
  [.tick i, .execute i .committed, .resume i true, .resume i true, .execute i c, .resume i true]

instance (e : Event Bool) (s : State Bool) : Decidable (Timely e s) := by
  unfold Timely
  split
  · infer_instance
  · split <;> infer_instance
  · split <;> infer_instance
  · infer_instance

/-- One instance is elected and renews its lock, the other one finds the row in use. -/
def quietRun : List (Event Bool) :=
  elect false .committed ++ [.advance 10, .tick true, .execute true .committed, .resume true true,
    .tick false, .execute false .committed, .resume false true]

theorem acts_unique_quietRun : ∃ s', run (step 10) quietRun twoInstances = some s' ∧
  s'.acts false = true ∧ ∀ j, s'.acts j = true → false = j := by
  have hleader : (run (step 10) quietRun twoInstances).map (·.acts false) = some true := by decide
  obtain ⟨s', hrun, hacts⟩ := map_eq_some_iff.mp hleader
  exact ⟨s', hrun, hacts, fun j => acts_unique (fun _ => ⟨rfl, rfl, rfl⟩) (by decide) hrun hacts⟩

/-- A commit that failed unnoticed makes a leader without the lock; a renewal that waits for the
database while the row expires leaves the old leader in office. -/
theorem two_leaders :
  (run (step 10) (elect false .commitFailed ++ elect true .committed) twoInstances).map
    (fun s => (s.clock, s.acts false, s.acts true)) = some (1, true, true) ∧
  (run (step 10) (elect false .committed ++ [.advance 19, .tick false, .advance 2] ++
    elect true .committed) twoInstances).map
    (fun s => (s.clock, s.acts false, s.acts true)) = some (22, true, true) :=
  ⟨by decide, by decide⟩

end Scql.Broker.Election
