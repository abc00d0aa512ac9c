import OsesProject.Kernel.Timer

/-!
# Threads and the scheduler (`thread.c`, `scheduler.c`)

The functions that change a thread's state. `Kernel.rtScheduleTo k t` is the switching part of
`rt_schedule` for the thread `t` it has chosen; the choice itself is `Kernel.RtSchedulePicks`.

A thread that is resumed leaves whatever list it is suspended on: `rt_thread_resume` unlinks its
`tlist` without looking at which list that is. This is how a thread blocked in `rt_mutex_take`
can be woken by someone who is not the mutex's owner.
-/

namespace OsesProject.Kernel

variable {T M A : Type} [DecidableEq T]

/-- `rt_list_remove(&thread->tlist)` on a suspended thread: it leaves the list of the mutex it
waits for, if it waits for one. -/
def rtListRemoveTlist (k : Kernel T M A) (t : T) : Kernel T M A :=
  { k with mutex := fun m =>
      { k.mutex m with suspendThread := (k.mutex m).suspendThread.filter (· ≠ t) } }

/-- `rt_schedule_insert_thread`. -/
def rtScheduleInsertThread (k : Kernel T M A) (t : T) : Kernel T M A :=
  k.setThread t
    { k.thread t with stat := if t = k.current then .running else .ready }

/-- `rt_schedule` once it has chosen the thread `t` to run: the current thread goes back to the
ready table when it was running, and `t` becomes the current thread. -/
def rtScheduleTo (k : Kernel T M A) (t : T) : Option (Kernel T M A) :=
  if t ≠ k.current ∧ (k.thread t).stat = .ready then
    let fromThread := k.thread k.current
    let k := if fromThread.stat = .running then
        k.setThread k.current { fromThread with stat := .ready }
      else
        k
    some { k.setThread t { k.thread t with stat := .running } with current := t }
  else
    none

/-- The choice of `rt_schedule`: no ready thread is more urgent than `t`, and a running current
thread gives way only to one at least as urgent. Between threads of one priority the choice
depends on their order in the ready table and on the time slice, and is left open. -/
def RtSchedulePicks (k : Kernel T M A) (t : T) : Prop :=
  (∀ u, (k.thread u).stat = .ready →
    (k.thread t).currentPriority ≤ (k.thread u).currentPriority) ∧
  ((k.thread k.current).stat = .running →
    (k.thread t).currentPriority ≤ (k.thread k.current).currentPriority)

/-- `rt_thread_control` with `RT_THREAD_CTRL_CHANGE_PRIORITY`, after the byte at `arg` has been
read. A ready thread leaves the ready table and is inserted again; its state is the same. -/
def rtThreadChangePriority (k : Kernel T M A) (t : T) (priority : Nat) : Kernel T M A :=
  k.setThread t { k.thread t with currentPriority := priority }

/-- A switch goes to a ready thread, which then runs; the thread it leaves, when it was running,
is ready. -/
theorem rtScheduleTo_stat {k k' : Kernel T M A} {t : T} (h : k.rtScheduleTo t = some k') (u : T) :
    (k.thread t).stat = .ready ∧ (k'.thread u).stat =
      if u = t then .running
      else if u = k.current ∧ (k.thread u).stat = .running then .ready
      else (k.thread u).stat := by
  unfold rtScheduleTo at h
  split at h
  · next hg =>
    cases h
    refine ⟨hg.2, ?_⟩
    by_cases hrun : (k.thread k.current).stat = .running
    · simp only [hrun, if_true]
      by_cases hut : u = t
      · simp [hut]
      · by_cases huc : u = k.current
        · subst huc
          simp [hut, hrun]
        · simp [hut, huc]
    · simp only [hrun, if_false]
      by_cases hut : u = t
      · simp [hut]
      · by_cases huc : u = k.current
        · subst huc
          simp [hut, hrun]
        · simp [hut, huc]
  · cases h

/-- A context switch leaves the mutexes and the timers alone, and wakes and suspends nobody. -/
theorem rtScheduleTo_frame {k k' : Kernel T M A} {t : T} (h : k.rtScheduleTo t = some k') :
    k'.mutex = k.mutex ∧ k'.timer = k.timer ∧ k'.timerList = k.timerList ∧
      ∀ u, (k'.thread u).stat = .suspend ↔ (k.thread u).stat = .suspend := by
  have hstat : ∀ u, (k'.thread u).stat = .suspend ↔ (k.thread u).stat = .suspend := by
    intro u
    obtain ⟨hready, hu⟩ := rtScheduleTo_stat h u
    rw [hu]
    by_cases hut : u = t
    · simp [hut, hready]
    · by_cases hcur : u = k.current ∧ (k.thread u).stat = .running
      · rw [if_neg hut, if_pos hcur, hcur.2]
        simp
      · rw [if_neg hut, if_neg hcur]
  unfold rtScheduleTo at h
  split at h
  · cases h
    by_cases hrun : (k.thread k.current).stat = .running <;>
      simp only [hrun, if_true, if_false] at hstat ⊢ <;>
      exact ⟨rfl, rfl, rfl, hstat⟩
  · cases h

theorem rtScheduleTo_tick {k k' : Kernel T M A} {t : T} (h : k.rtScheduleTo t = some k') :
    k'.tick = k.tick := by
  unfold rtScheduleTo at h
  split at h
  · cases h
    by_cases hrun : (k.thread k.current).stat = .running <;> simp [hrun]
  · cases h

theorem rtScheduleTo_priority {k k' : Kernel T M A} {t : T} (h : k.rtScheduleTo t = some k')
    (u : T) : (k'.thread u).currentPriority = (k.thread u).currentPriority := by
  unfold rtScheduleTo at h
  split at h
  · next hg =>
    cases h
    by_cases hrun : (k.thread k.current).stat = .running
    · simp only [hrun, if_true]
      by_cases hut : u = t
      · subst hut
        simp [hg.1]
      · by_cases huc : u = k.current
        · subst huc
          simp [hut]
        · simp [hut, huc]
    · simp only [hrun, if_false]
      by_cases hut : u = t <;> simp [hut]
  · cases h

section Priority

variable (k : Kernel T M A) (t u : T)

theorem rtThreadChangePriority_thread (priority : Nat) :
    (k.rtThreadChangePriority t priority).thread u =
      if u = t then { k.thread t with currentPriority := priority } else k.thread u := by
  simp [rtThreadChangePriority]

@[simp] theorem rtThreadChangePriority_stat (priority : Nat) :
    ((k.rtThreadChangePriority t priority).thread u).stat = (k.thread u).stat := by
  rw [rtThreadChangePriority_thread]
  split <;> simp_all

theorem rtThreadChangePriority_priority (priority : Nat) :
    ((k.rtThreadChangePriority t priority).thread u).currentPriority =
      if u = t then priority else (k.thread u).currentPriority := by
  rw [rtThreadChangePriority_thread]
  split <;> rfl

@[simp] theorem rtThreadChangePriority_mutex (priority : Nat) :
    (k.rtThreadChangePriority t priority).mutex = k.mutex := rfl

@[simp] theorem rtThreadChangePriority_current (priority : Nat) :
    (k.rtThreadChangePriority t priority).current = k.current := rfl

end Priority

variable [DecidableEq A]

/-- `rt_thread_suspend`; on a thread that is neither ready nor running it is an error and changes
nothing. -/
def rtThreadSuspend (k : Kernel T M A) (t : T) : Kernel T M A :=
  if (k.thread t).stat = .ready ∨ (k.thread t).stat = .running then
    (k.setThread t { k.thread t with stat := .suspend }).rtTimerStop (.thread t)
  else
    k

/-- `rt_thread_resume`; on a thread that is not suspended it is an error and changes nothing. -/
def rtThreadResume (k : Kernel T M A) (t : T) : Kernel T M A :=
  if (k.thread t).stat = .suspend then
    ((k.rtListRemoveTlist t).rtTimerStop (.thread t)).rtScheduleInsertThread t
  else
    k

/-- `rt_thread_init`. The failed assertions are `none`: those of `rt_object_init` for the thread and
for its timer, and the one on the priority. -/
def rtThreadInit (k : Kernel T M A) (objects : Objects T) (t : T) (priority : Nat) :
    Option (Kernel T M A × Objects T) :=
  (rtObjectInit objects.threads t).bind fun threads =>
    if priority < rtThreadPriorityMax then
      (rtObjectInit objects.timers t).map fun timers =>
        ((k.setThread t ⟨.eok, .init, priority, priority⟩).setTimer (.thread t)
            ⟨0, 0, false, false⟩,
          ⟨threads, timers⟩)
    else
      none

/-- `rt_thread_startup` up to its call of `rt_schedule`; `none` is the failed assertion that the
thread has just been initialised. -/
def rtThreadStartup (k : Kernel T M A) (t : T) : Option (Kernel T M A) :=
  if (k.thread t).stat = .init then
    some ((k.setThread t { k.thread t with
      currentPriority := (k.thread t).initPriority
      stat := .suspend }).rtThreadResume t)
  else
    none

/-- `rt_thread_exit` up to its call of `rt_schedule`: the thread leaves the ready table, and its
timer is detached. -/
def rtThreadExit (k : Kernel T M A) (t : T) : Kernel T M A :=
  (k.setThread t { k.thread t with stat := .close }).rtTimerDetach (.thread t)

/-- `rt_thread_sleep` up to its call of `rt_schedule`. -/
def rtThreadSleep (k : Kernel T M A) (t : T) (tick : Nat) : Option (Kernel T M A) :=
  ((k.rtThreadSuspend t).rtTimerSetTime (.thread t) tick).rtTimerStart (.thread t)

/-- `rt_thread_timeout`, the time-out function of a thread's own timer; `none` is the failed
assertion that the thread is suspended. -/
def rtThreadTimeout (k : Kernel T M A) (t : T) : Option (Kernel T M A) :=
  if (k.thread t).stat = .suspend then
    let k := k.setThread t { k.thread t with error := .etimeout }
    some ((k.rtListRemoveTlist t).rtScheduleInsertThread t)
  else
    none

/-- `rt_thread_init` on an object that is in no list. -/
theorem rtThreadInit_eq {k k' : Kernel T M A} {objects objects' : Objects T} {t : T}
    {priority : Nat}
    (h : k.rtThreadInit objects t priority = some (k', objects')) :
    k' = (k.setThread t ⟨.eok, .init, priority, priority⟩).setTimer (.thread t)
        ⟨0, 0, false, false⟩ ∧
      objects' = ⟨t :: objects.threads, t :: objects.timers⟩ := by
  simp only [rtThreadInit, rtObjectInit, Option.bind_eq_some_iff] at h
  obtain ⟨threads, hthreads, h⟩ := h
  split at hthreads
  · cases hthreads
  · cases hthreads
    split at h
    · simp only [Option.map_eq_some_iff] at h
      obtain ⟨timers, htimers, he⟩ := h
      split at htimers
      · cases htimers
      · cases htimers
        cases he
        exact ⟨rfl, rfl⟩
    · cases h

section Frame

variable (k : Kernel T M A) (t u : T)

theorem rtThreadSuspend_stat :
    ((k.rtThreadSuspend t).thread u).stat =
      if u = t ∧ ((k.thread t).stat = .ready ∨ (k.thread t).stat = .running) then .suspend
      else (k.thread u).stat := by
  unfold rtThreadSuspend
  by_cases hu : u = t
  · subst hu
    split <;> simp_all
  · split <;> simp_all

@[simp] theorem rtThreadSuspend_priority :
    ((k.rtThreadSuspend t).thread u).currentPriority = (k.thread u).currentPriority := by
  unfold rtThreadSuspend
  split
  · by_cases hu : u = t <;> simp [hu]
  · rfl

@[simp] theorem rtThreadSuspend_mutex : (k.rtThreadSuspend t).mutex = k.mutex := by
  unfold rtThreadSuspend
  split <;> simp

@[simp] theorem rtThreadSuspend_current : (k.rtThreadSuspend t).current = k.current := by
  unfold rtThreadSuspend
  split <;> simp

theorem rtThreadResume_stat :
    ((k.rtThreadResume t).thread u).stat =
      if u = t ∧ (k.thread t).stat = .suspend then
        if t = k.current then .running else .ready
      else (k.thread u).stat := by
  unfold rtThreadResume
  by_cases hu : u = t
  · subst hu
    split <;> simp_all [rtScheduleInsertThread, rtListRemoveTlist]
  · split <;> simp_all [rtScheduleInsertThread, rtListRemoveTlist]

@[simp] theorem rtThreadResume_priority :
    ((k.rtThreadResume t).thread u).currentPriority = (k.thread u).currentPriority := by
  unfold rtThreadResume
  split
  · by_cases hu : u = t <;> simp [rtScheduleInsertThread, rtListRemoveTlist, hu]
  · rfl

@[simp] theorem rtThreadResume_current : (k.rtThreadResume t).current = k.current := by
  unfold rtThreadResume
  split <;> simp [rtScheduleInsertThread, rtListRemoveTlist]

/-- Resuming a thread takes it off the list of the mutex it waits for, and leaves the mutexes
otherwise as they are. -/
theorem rtThreadResume_mutex (m : M) :
    (k.rtThreadResume t).mutex m =
      if (k.thread t).stat = .suspend then
        { k.mutex m with suspendThread := (k.mutex m).suspendThread.filter (· ≠ t) }
      else k.mutex m := by
  unfold rtThreadResume
  split <;> simp [rtScheduleInsertThread, rtListRemoveTlist]

variable {k t} {i : TimerId T A}

theorem rtThreadSuspend_timerList (h : i ∈ (k.rtThreadSuspend t).timerList) :
    i ∈ k.timerList := by
  unfold rtThreadSuspend at h
  split at h
  · exact (rtTimerStop_mem.mp h).1
  · exact h

theorem rtThreadSuspend_timer (hi : i ≠ .thread t) :
    (k.rtThreadSuspend t).timer i = k.timer i := by
  unfold rtThreadSuspend
  split
  · rw [rtTimerStop_timer, if_neg hi]
    rfl
  · rfl

theorem rtThreadResume_timerList (hs : (k.thread t).stat = .suspend) :
    i ∈ (k.rtThreadResume t).timerList ↔
      i ∈ k.timerList ∧ ((k.timer (.thread t)).activated = true → i ≠ .thread t) := by
  unfold rtThreadResume
  rw [if_pos hs]
  exact rtTimerStop_mem

theorem rtThreadResume_timer (hs : (k.thread t).stat = .suspend) :
    (k.rtThreadResume t).timer i =
      if i = .thread t then { k.timer i with activated := false } else k.timer i := by
  unfold rtThreadResume
  rw [if_pos hs]
  show ((k.rtListRemoveTlist t).rtTimerStop (.thread t)).timer i = _
  rw [rtTimerStop_timer]
  split
  · next hi =>
    subst hi
    rfl
  · rfl

end Frame

end OsesProject.Kernel
