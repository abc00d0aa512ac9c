import OsesProject.Kernel.Object
import Mathlib.Algebra.Group.Nat.Defs

/-!
# Hard timers (`timer.c`)

`rt_tick_t` is an unsigned 32-bit integer; ticks are natural numbers below `2 ^ 32`, and their
difference is `tickSub`, taken modulo `2 ^ 32` as the C subtraction is.

`rt_timer_check` runs inside the tick interrupt and calls the time-out functions of the timers
that are due, one after the other. Its loop is given here in its three pieces, which a run puts
together: `Kernel.rtTimerExpired` finds the first timer of the list when it is due,
`Kernel.rtTimerTakeOff` takes it off the list before its function is called, and
`Kernel.rtTimerRearm` starts a periodic one again afterwards.
-/

set_option linter.unusedSectionVars false

namespace OsesProject

/-- The difference of two ticks, as unsigned 32-bit integers. -/
def tickSub (a b : Nat) : Nat := (a + 2 ^ 32 - b) % 2 ^ 32

namespace Kernel

variable {T M A : Type} [DecidableEq T] [DecidableEq A]

/-- `_rt_timer_remove`. -/
def rtTimerRemove (k : Kernel T M A) (i : TimerId T A) : Kernel T M A :=
  { k with timerList := k.timerList.filter (· ≠ i) }

/-- The place `rt_timer_start` finds for a timer: behind every timer that is due no later, before
the first one that is due later. -/
def rtTimerInsert (timer : TimerId T A → Timer) (x : TimerId T A) :
    List (TimerId T A) → List (TimerId T A)
  | [] => [x]
  | y :: ys =>
    let d := tickSub (timer y).timeoutTick (timer x).timeoutTick
    if d = 0 then
      y :: rtTimerInsert timer x ys
    else if d < rtTickMax / 2 then
      x :: y :: ys
    else
      y :: rtTimerInsert timer x ys

/-- `rt_timer_start`; `none` is a failed assertion on the timer's interval, where the kernel
stops. -/
def rtTimerStart (k : Kernel T M A) (i : TimerId T A) : Option (Kernel T M A) :=
  let k := k.rtTimerRemove i
  let k := k.setTimer i { k.timer i with activated := false }
  -- RT_ASSERT(timer->init_tick < RT_TICK_MAX / 2);
  if (k.timer i).initTick < rtTickMax / 2 then
    let k := k.setTimer i
      { k.timer i with timeoutTick := (k.tick + (k.timer i).initTick) % 2 ^ 32 }
    let k := { k with timerList := rtTimerInsert k.timer i k.timerList }
    some (k.setTimer i { k.timer i with activated := true })
  else
    none

/-- `rt_timer_stop`. -/
def rtTimerStop (k : Kernel T M A) (i : TimerId T A) : Kernel T M A :=
  if (k.timer i).activated then
    let k := k.rtTimerRemove i
    k.setTimer i { k.timer i with activated := false }
  else
    k

/-- `rt_timer_detach`. -/
def rtTimerDetach (k : Kernel T M A) (i : TimerId T A) : Kernel T M A :=
  let k := k.rtTimerRemove i
  k.setTimer i { k.timer i with activated := false }

/-- `rt_timer_control` with `RT_TIMER_CTRL_SET_TIME`. -/
def rtTimerSetTime (k : Kernel T M A) (i : TimerId T A) (time : Nat) : Kernel T M A :=
  k.setTimer i { k.timer i with initTick := time }

/-- The first timer of the list, when it is due: the test of the loop of `rt_timer_check`. -/
def rtTimerExpired (k : Kernel T M A) : Option (TimerId T A) :=
  match k.timerList with
  | [] => none
  | i :: _ => if tickSub k.tick (k.timer i).timeoutTick < rtTickMax / 2 then some i else none

/-- What `rt_timer_check` does to a due timer before it calls its function. -/
def rtTimerTakeOff (k : Kernel T M A) (i : TimerId T A) : Kernel T M A :=
  let k := k.rtTimerRemove i
  if (k.timer i).periodic then k else k.setTimer i { k.timer i with activated := false }

/-- What `rt_timer_check` does to a due timer after it has called its function. -/
def rtTimerRearm (k : Kernel T M A) (i : TimerId T A) : Option (Kernel T M A) :=
  if (k.timer i).periodic && (k.timer i).activated then
    (k.setTimer i { k.timer i with activated := false }).rtTimerStart i
  else
    some k

/-- Starting a timer changes nothing but the timers. -/
theorem rtTimerStart_frame {k k' : Kernel T M A} {i : TimerId T A}
    (h : k.rtTimerStart i = some k') :
    k'.thread = k.thread ∧ k'.current = k.current ∧ k'.mutex = k.mutex ∧ k'.tick = k.tick := by
  unfold rtTimerStart at h
  simp only at h
  split at h
  · cases h
    exact ⟨rfl, rfl, rfl, rfl⟩
  · cases h

/-- Starting a timer again after its expiry changes nothing but the timers. -/
theorem rtTimerRearm_frame {k k' : Kernel T M A} {i : TimerId T A}
    (h : k.rtTimerRearm i = some k') :
    k'.thread = k.thread ∧ k'.current = k.current ∧ k'.mutex = k.mutex ∧ k'.tick = k.tick := by
  unfold rtTimerRearm at h
  split at h
  · simpa using rtTimerStart_frame h
  · cases h
    exact ⟨rfl, rfl, rfl, rfl⟩

section Frame

variable (k : Kernel T M A) (i : TimerId T A)

@[simp] theorem rtTimerStop_thread : (k.rtTimerStop i).thread = k.thread := by
  unfold rtTimerStop
  split <;> rfl

@[simp] theorem rtTimerStop_current : (k.rtTimerStop i).current = k.current := by
  unfold rtTimerStop
  split <;> rfl

@[simp] theorem rtTimerStop_mutex : (k.rtTimerStop i).mutex = k.mutex := by
  unfold rtTimerStop
  split <;> rfl

@[simp] theorem rtTimerStop_tick : (k.rtTimerStop i).tick = k.tick := by
  unfold rtTimerStop
  split <;> rfl

@[simp] theorem rtTimerSetTime_thread (n : Nat) : (k.rtTimerSetTime i n).thread = k.thread := rfl

@[simp] theorem rtTimerSetTime_current (n : Nat) :
    (k.rtTimerSetTime i n).current = k.current := rfl

@[simp] theorem rtTimerSetTime_mutex (n : Nat) : (k.rtTimerSetTime i n).mutex = k.mutex := rfl

@[simp] theorem rtTimerTakeOff_thread : (k.rtTimerTakeOff i).thread = k.thread := by
  unfold rtTimerTakeOff
  simp only
  split <;> rfl

@[simp] theorem rtTimerTakeOff_current : (k.rtTimerTakeOff i).current = k.current := by
  unfold rtTimerTakeOff
  simp only
  split <;> rfl

@[simp] theorem rtTimerTakeOff_mutex : (k.rtTimerTakeOff i).mutex = k.mutex := by
  unfold rtTimerTakeOff
  simp only
  split <;> rfl

@[simp] theorem rtTimerDetach_thread : (k.rtTimerDetach i).thread = k.thread := rfl

@[simp] theorem rtTimerDetach_mutex : (k.rtTimerDetach i).mutex = k.mutex := rfl

@[simp] theorem rtTimerDetach_current : (k.rtTimerDetach i).current = k.current := rfl

end Frame

/-! ## The timers after an operation -/

section Timers

variable {k k' : Kernel T M A} {i j : TimerId T A}

theorem mem_rtTimerInsert (f : TimerId T A → Timer) (l : List (TimerId T A)) :
    j ∈ rtTimerInsert f i l ↔ j = i ∨ j ∈ l := by
  induction l with
  | nil => simp [rtTimerInsert]
  | cons y ys ih =>
    simp only [rtTimerInsert]
    split
    · simp only [List.mem_cons, ih]
      tauto
    · split
      · simp only [List.mem_cons]
      · simp only [List.mem_cons, ih]
        tauto

/-- A started timer is on the list, with the others. -/
theorem rtTimerStart_mem (h : k.rtTimerStart i = some k') :
    j ∈ k'.timerList ↔ j = i ∨ j ∈ k.timerList := by
  unfold rtTimerStart at h
  simp only at h
  split at h
  · cases h
    simp only [setTimer_timerList, mem_rtTimerInsert, rtTimerRemove, List.mem_filter,
      decide_eq_true_eq]
    tauto
  · cases h

/-- A started timer is due after its interval, counted from now. -/
theorem rtTimerStart_timer (h : k.rtTimerStart i = some k') :
    k'.timer j = if j = i then
        { k.timer i with
          timeoutTick := (k.tick + (k.timer i).initTick) % 2 ^ 32
          activated := true }
      else k.timer j := by
  unfold rtTimerStart at h
  simp only at h
  split at h
  · cases h
    by_cases hj : j = i <;> simp [hj, rtTimerRemove]
  · cases h

/-- The list after a start: the timer is put in its place among the others, by the time-outs. -/
theorem rtTimerStart_list (h : k.rtTimerStart i = some k') :
    ∃ f : TimerId T A → Timer, (∀ j, (f j).timeoutTick = (k'.timer j).timeoutTick) ∧
      k'.timerList = rtTimerInsert f i (k.timerList.filter (· ≠ i)) := by
  unfold rtTimerStart at h
  simp only at h
  split at h
  · cases h
    refine ⟨_, fun j => ?_, rfl⟩
    by_cases hj : j = i <;> simp [hj]
  · cases h

/-- A timer starts only with an interval below half the range of the ticks. -/
theorem rtTimerStart_initTick (h : k.rtTimerStart i = some k') :
    (k.timer i).initTick < rtTickMax / 2 := by
  unfold rtTimerStart at h
  simp only at h
  split at h
  · next hlt => simpa [rtTimerRemove] using hlt
  · cases h

theorem rtTimerStop_mem :
    j ∈ (k.rtTimerStop i).timerList ↔
      j ∈ k.timerList ∧ ((k.timer i).activated = true → j ≠ i) := by
  unfold rtTimerStop
  split
  · next ha => simp [rtTimerRemove, ha]
  · next ha => simp [ha]

theorem rtTimerStop_timer :
    (k.rtTimerStop i).timer j =
      if j = i then { k.timer i with activated := false } else k.timer j := by
  unfold rtTimerStop
  split
  · by_cases hj : j = i <;> simp [hj, rtTimerRemove]
  · next ha =>
    by_cases hj : j = i
    · subst hj
      simp only [Bool.not_eq_true] at ha
      simp [← ha]
    · simp [hj]

/-- The timer that is due is on the list. -/
theorem rtTimerExpired_mem (h : k.rtTimerExpired = some i) : i ∈ k.timerList := by
  unfold rtTimerExpired at h
  cases hl : k.timerList with
  | nil => simp [hl] at h
  | cons j js =>
    simp only [hl] at h
    split at h
    · cases h
      exact List.mem_cons_self
    · cases h

theorem rtTimerTakeOff_mem : j ∈ (k.rtTimerTakeOff i).timerList ↔ j ∈ k.timerList ∧ j ≠ i := by
  unfold rtTimerTakeOff
  simp only
  split <;> simp [rtTimerRemove]

theorem rtTimerTakeOff_timer :
    (k.rtTimerTakeOff i).timer j =
      if j = i ∧ (k.timer i).periodic = false then { k.timer i with activated := false }
      else k.timer j := by
  unfold rtTimerTakeOff
  simp only
  split
  · next hp =>
    have hp : (k.timer i).periodic = true := hp
    simp [hp, rtTimerRemove]
  · next hp =>
    have hp : (k.timer i).periodic = false := by simpa [rtTimerRemove] using hp
    by_cases hj : j = i <;> simp [hj, hp, rtTimerRemove]

/-- A timer that has expired is started again when it is periodic, and left alone otherwise. -/
theorem rtTimerRearm_cases (h : k.rtTimerRearm i = some k') :
    k' = k ∨ ((k.timer i).periodic = true ∧
      (k.setTimer i { k.timer i with activated := false }).rtTimerStart i = some k') := by
  unfold rtTimerRearm at h
  split at h
  · next hp =>
    rw [Bool.and_eq_true] at hp
    exact .inr ⟨hp.1, h⟩
  · cases h
    exact .inl rfl

end Timers

end Kernel

end OsesProject
