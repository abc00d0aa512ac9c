import OsesProject.Laws.System
import OsesProject.Application.Procedure

/-!
# Replenishment and the priorities of the callbacks

`rt_thread_deferrable_init` initialises `tim_server` and nobody starts it, so a server that has
used up its capacity is never due for replenishment: `replenishment_due_iff` says that it is, along
a run, only when its capacity callback is never executed.

The two callbacks give `rt_thread_control` a pointer. The one of `rt_timer_deferrable_period` points
at the field `priority` of the server's record, which no statement sets; the one of
`rt_timer_deferrable_capacity` is the number 31 taken as an address. `callback_priorities_iff`:
they set the priorities they are meant to exactly when the byte at this address is 31 and the
priority asked for is 0.
-/

set_option linter.unusedSectionVars false

namespace OsesProject

open Machine

variable {τ : Type} [DecidableEq τ] {cfg : Config τ} {s s' : State τ} {e : Event τ}

/-- When the capacity callback has been executed since the last replenishment, `tim_server` runs and
is due within the period. -/
def ReplenishmentDue (cfg : Config τ) (s : State τ) : Prop :=
  s.demoted = true → (s.k.timer (.app .server)).activated = true ∧
    tickSub (s.k.timer (.app .server)).timeoutTick s.k.tick ≤ cfg.period

instance (cfg : Config τ) (s : State τ) : Decidable (ReplenishmentDue cfg s) := by
  unfold ReplenishmentDue
  infer_instance

/-- **A demoted server is never due for replenishment.** For every capacity, period and priority
and every run whatever: the server is due for replenishment whenever it is demoted, in every state
of the run, if and only if no step of the run executes its capacity callback. -/
theorem replenishment_due_iff (cfg : Config τ) (caller tick : Nat) {es : List (Event τ)}
    (hrun : run (step cfg) (afterInit cfg caller tick) es = some s') :
    Always (step cfg) (ReplenishmentDue cfg) (afterInit cfg caller tick) es ↔
      Each (step cfg) (fun s e => ¬RunsCapacity s e) (afterInit cfg caller tick) es := by
  refine always_iff_each (I := fun s => SystemInv s ∧ s.demoted = false) ?_ ?_ ?_
    ⟨initial_systemInv cfg caller tick _ _, rfl⟩ (fun _ _ => trivial) hrun
  · rintro s ⟨-, hd⟩ hd'
    rw [hd] at hd'
    cases hd'
  · rintro s e s' ⟨hI, hd⟩ - hcap h
    obtain ⟨-, hper, hsame⟩ := step_demoted h
    refine ⟨hI.step h, ?_⟩
    by_cases hp : RunsPeriod s e
    · exact hper hcap hp
    · exact (hsame hcap hp).trans hd
  · rintro s e s' ⟨hI, -⟩ - hcap h hdue
    have := (hdue ((step_demoted h).1 (not_not.mp hcap))).1
    rw [(hI.step h).noReplenishment.2] at this
    cases this

open Event in
/-- A press, and the server, which takes a tick for its task and suspends itself behind it. -/
def oneTask : List (Event Task) :=
  startUp ++ [press .bench, switch .server] ++ List.replicate 6 (thread .server 0) ++
    [tick, checked] ++ List.replicate 14 (thread .server 0)

/-- The capacity lasts for the task, and the server is never demoted. -/
theorem replenishment_due_oneTask :
    ∃ s, run (step (board fun _ => 0)) (afterInit (board fun _ => 0) mainPriority 0) oneTask =
        some s ∧ s.ran = [.writeBenchMemAsync] ∧ s.used = 1 ∧
      Always (step (board fun _ => 0)) (ReplenishmentDue (board fun _ => 0))
        (afterInit (board fun _ => 0) mainPriority 0) oneTask := by
  have hrun : ((run (step (board fun _ => 0)) (afterInit (board fun _ => 0) mainPriority 0)
      oneTask).map fun s => (s.ran, s.used)) = some ([.writeBenchMemAsync], 1) := by
    decide +kernel
  obtain ⟨s, hs, hd⟩ := Option.map_eq_some_iff.mp hrun
  obtain ⟨hran, hused⟩ := Prod.mk.inj hd
  exact ⟨s, hs, hran, hused,
    (replenishment_due_iff (board fun _ => 0) mainPriority 0 hs).mpr (by decide +kernel)⟩

open Event in
/-- A capacity of one tick, used up by one task. -/
def oneTick : List (Event Task) :=
  startUp ++ [press .bench, switch .server] ++ List.replicate 6 (thread .server 0) ++
    [tick, expire]

/-- After the capacity is used up `tim_server` does not run. -/
theorem replenishment_not_due :
    ∃ s, (∀ e ∈ oneTick, e.OnBoard) ∧
      Each (step (application 1 205000 17 fun _ => 31)) Scheduled
        (afterInit (application 1 205000 17 fun _ => 31) mainPriority 0) oneTick ∧
      run (step (application 1 205000 17 fun _ => 31))
        (afterInit (application 1 205000 17 fun _ => 31) mainPriority 0) oneTick = some s ∧
      s.capacityLeft = 0 ∧ ¬ReplenishmentDue (application 1 205000 17 fun _ => 31) s := by
  have hrun : ((run (step (application 1 205000 17 fun _ => 31))
      (afterInit (application 1 205000 17 fun _ => 31) mainPriority 0) oneTick).map fun s =>
        decide (s.capacityLeft = 0 ∧
          ¬ReplenishmentDue (application 1 205000 17 fun _ => 31) s)) = some true := by
    decide +kernel
  obtain ⟨s, hs, hdue⟩ := Option.map_eq_some_iff.mp hrun
  exact ⟨s, by decide, by decide +kernel, hs, of_decide_eq_true hdue⟩

/-! ## The priorities the callbacks set -/

/-- What `rt_timer_deferrable_capacity` sets: the byte at the address 31. -/
theorem capacity_priority (memory : Nat → UInt8) (s : State τ) :
    ((s.rtTimerDeferrableCapacity memory).k.thread .server).currentPriority =
      (memory (rtThreadPriorityMax - 1)).toNat := by
  simp [State.rtTimerDeferrableCapacity, State.rtThreadControl, State.deref,
    Kernel.rtThreadChangePriority_priority]

/-- What `rt_timer_deferrable_period` sets: the field `priority`. -/
theorem period_priority (memory : Nat → UInt8) (s : State τ) :
    ((s.rtTimerDeferrablePeriod memory).k.thread .server).currentPriority = s.priority := by
  simp [State.rtTimerDeferrablePeriod, State.rtThreadControl, State.deref,
    Kernel.rtThreadChangePriority_priority]

/-- The field `priority` is zero in every state of every run. -/
theorem priority_eq_zero {caller tick : Nat}
    (hreach : Reach (step cfg) (fun _ _ => True) (afterInit cfg caller tick) s) :
    s.priority = 0 :=
  hreach.invariant (fun s => s.priority = 0) rfl
    fun _ _ _ hp _ h => (step_const h).1.trans hp

/-- **The callbacks switch the priority as they are meant to in one case only.** For every priority
asked for, every content of the memory and all the states of all runs: after the capacity callback
the server has the priority `RT_THREAD_PRIORITY_MAX - 1`, and after the period callback the one
asked for, if and only if the byte at the address 31 is 31 and the priority asked for is 0. -/
theorem callback_priorities_iff (cfg : Config τ) (caller tick : Nat) :
    (∀ s, Reach (step cfg) (fun _ _ => True) (afterInit cfg caller tick) s →
      ((s.rtTimerDeferrableCapacity cfg.memory).k.thread .server).currentPriority =
        rtThreadPriorityMax - 1 ∧
      ((s.rtTimerDeferrablePeriod cfg.memory).k.thread .server).currentPriority =
        cfg.priority) ↔
      (cfg.memory (rtThreadPriorityMax - 1)).toNat = rtThreadPriorityMax - 1 ∧
        cfg.priority = 0 := by
  constructor
  · intro hall
    obtain ⟨hcap, hper⟩ := hall _ .refl
    rw [capacity_priority] at hcap
    rw [period_priority] at hper
    exact ⟨hcap, hper.symm⟩
  · rintro ⟨hmem, hp⟩ s hreach
    rw [capacity_priority, period_priority, priority_eq_zero hreach]
    exact ⟨hmem, hp.symm⟩

/-- On the board, with zeros in the memory: the capacity callback makes the server the most urgent
thread, and so does the period callback. -/
theorem callback_priorities_board :
    ¬∀ s, Reach (step (board fun _ => 0)) (fun _ _ => True)
        (afterInit (board fun _ => 0) mainPriority 0) s →
      ((s.rtTimerDeferrableCapacity fun _ => 0).k.thread .server).currentPriority =
        rtThreadPriorityMax - 1 ∧
      ((s.rtTimerDeferrablePeriod fun _ => 0).k.thread .server).currentPriority = 17 := by
  intro hall
  exact absurd (hall _ .refl).1 (by decide)

end OsesProject
