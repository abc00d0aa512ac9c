import OsesProject.Kernel.Thread

/-!
# Mutexes with priority inheritance (`ipc.c`)

`rt_mutex_take` with `RT_WAITING_FOREVER`, the only waiting time the application and the bus
drivers use, and `rt_mutex_release`. Every mutex modelled is created with `RT_IPC_FLAG_FIFO`.

A take that has to wait suspends its thread and returns only after somebody has made the thread
ready again; the part up to that point is `Kernel.rtMutexTake`, with the answer `blocked`. What
the kernel does on waking is to look at the thread's `error`, which stays `RT_EOK`: the woken
thread takes the mutex to be its own, whoever woke it.
-/

set_option linter.unusedSectionVars false

namespace OsesProject

/-- What a call of `rt_mutex_take` comes to: the mutex is taken, the caller is suspended, or the
hold counter is at its maximum (`-RT_EFULL`). -/
inductive TakeResult
  | taken
  | blocked
  | full
  deriving DecidableEq, Repr

namespace Kernel

variable {T M A : Type} [DecidableEq T] [DecidableEq M] [DecidableEq A]

/-- `rt_ipc_list_suspend` with `RT_IPC_FLAG_FIFO`. -/
def rtIpcListSuspend (k : Kernel T M A) (m : M) (t : T) : Kernel T M A :=
  let k := k.rtThreadSuspend t
  k.setMutex m { k.mutex m with suspendThread := (k.mutex m).suspendThread ++ [t] }

/-- Priority inheritance in `rt_mutex_take`: an owner less urgent than the waiter gets the
waiter's priority. -/
def inheritPriority (k : Kernel T M A) (m : M) (t : T) : Kernel T M A :=
  match (k.mutex m).owner with
  | none => k
  | some o =>
    if (k.thread t).currentPriority < (k.thread o).currentPriority then
      k.rtThreadChangePriority o (k.thread t).currentPriority
    else
      k

/-- `rt_mutex_take` called by `t` with `RT_WAITING_FOREVER`, up to its call of `rt_schedule`. -/
def rtMutexTake (k : Kernel T M A) (t : T) (m : M) : Kernel T M A × TakeResult :=
  let k := k.setThread t { k.thread t with error := .eok }
  let mx := k.mutex m
  if mx.owner = some t then
    if mx.hold < rtMutexHoldMax then
      (k.setMutex m { mx with hold := mx.hold + 1 }, .taken)
    else
      (k, .full)
  else if 0 < mx.value then
    let mx := { mx with
      value := mx.value - 1
      owner := some t
      originalPriority := (k.thread t).currentPriority }
    if mx.hold < rtMutexHoldMax then
      (k.setMutex m { mx with hold := mx.hold + 1 }, .taken)
    else
      (k.setMutex m mx, .full)
  else
    ((k.inheritPriority m t).rtIpcListSuspend m t, .blocked)

/-- The owner gets back the priority recorded when it took the mutex. -/
def restorePriority (k : Kernel T M A) (t : T) (m : M) : Kernel T M A :=
  if (k.mutex m).originalPriority ≠ (k.thread t).currentPriority then
    k.rtThreadChangePriority t (k.mutex m).originalPriority
  else
    k

/-- `rt_mutex_release` when the hold counter has come down to zero: the owner gets back its
priority, and the mutex goes to the first thread that waits for it, or becomes free. -/
def handOver (k : Kernel T M A) (t : T) (m : M) : Kernel T M A :=
  let k := k.restorePriority t m
  let mx := k.mutex m
  match mx.suspendThread with
  | x :: _ =>
    let mx := { mx with
      owner := some x
      originalPriority := (k.thread x).currentPriority }
    if mx.hold < rtMutexHoldMax then
      (k.setMutex m { mx with hold := mx.hold + 1 }).rtThreadResume x
    else
      k.setMutex m mx
  | [] =>
    if mx.value < rtMutexValueMax then
      k.setMutex m { mx with value := mx.value + 1, owner := none, originalPriority := 0xff }
    else
      k

/-- `rt_mutex_release` called by `t`. -/
def rtMutexRelease (k : Kernel T M A) (t : T) (m : M) : Kernel T M A :=
  let mx := k.mutex m
  if mx.owner = some t then
    -- mutex->hold--, an 8-bit counter
    let hold := (mx.hold + 255) % 256
    let k := k.setMutex m { mx with hold := hold }
    if hold = 0 then k.handOver t m else k
  else
    k.setThread t { k.thread t with error := .error }

/-! ## What a take and a release come to

`rt_mutex_take` on a free mutex and on one that another thread holds, and `rt_mutex_release` by
the owner of a mutex held once, with and without a waiter. -/

section Specs

variable {k : Kernel T M A} {t u : T} {m : M}

theorem rtMutexTake_free (hown : (k.mutex m).owner = none) (hval : (k.mutex m).value = 1)
    (hhold : (k.mutex m).hold = 0) :
    k.rtMutexTake t m =
      ((k.setThread t { k.thread t with error := .eok }).setMutex m
        { k.mutex m with
          value := 0
          owner := some t
          originalPriority := (k.thread t).currentPriority
          hold := 1 }, .taken) := by
  simp [rtMutexTake, hown, hval, hhold, rtMutexHoldMax]

theorem rtMutexTake_held (hown : (k.mutex m).owner ≠ some t) (hval : (k.mutex m).value = 0) :
    k.rtMutexTake t m =
      (((k.setThread t { k.thread t with error := .eok }).inheritPriority m t).rtIpcListSuspend m t,
        .blocked) := by
  simp [rtMutexTake, hown, hval]

theorem rtMutexRelease_not_owner (hown : (k.mutex m).owner ≠ some t) :
    k.rtMutexRelease t m = k.setThread t { k.thread t with error := .error } := by
  simp [rtMutexRelease, hown]

theorem rtMutexRelease_owner (hown : (k.mutex m).owner = some t) (hhold : (k.mutex m).hold = 1) :
    k.rtMutexRelease t m = (k.setMutex m { k.mutex m with hold := 0 }).handOver t m := by
  simp [rtMutexRelease, hown, hhold]

@[simp] theorem inheritPriority_mutex : (k.inheritPriority m t).mutex = k.mutex := by
  unfold inheritPriority
  split
  · rfl
  · split <;> rfl

@[simp] theorem inheritPriority_stat :
    ((k.inheritPriority m t).thread u).stat = (k.thread u).stat := by
  unfold inheritPriority
  split
  · rfl
  · split <;> simp

/-- Inheritance changes the priority of the owner at most. -/
theorem inheritPriority_priority (hu : (k.mutex m).owner ≠ some u) :
    ((k.inheritPriority m t).thread u).currentPriority = (k.thread u).currentPriority := by
  unfold inheritPriority
  split
  · rfl
  · next o ho =>
    split
    · rw [rtThreadChangePriority_priority, if_neg]
      rintro rfl
      exact hu ho
    · rfl

@[simp] theorem inheritPriority_timerList : (k.inheritPriority m t).timerList = k.timerList := by
  unfold inheritPriority
  split
  · rfl
  · split <;> rfl

@[simp] theorem inheritPriority_timer : (k.inheritPriority m t).timer = k.timer := by
  unfold inheritPriority
  split
  · rfl
  · split <;> rfl

@[simp] theorem restorePriority_mutex : (k.restorePriority t m).mutex = k.mutex := by
  unfold restorePriority
  split <;> rfl

@[simp] theorem restorePriority_stat :
    ((k.restorePriority t m).thread u).stat = (k.thread u).stat := by
  unfold restorePriority
  split <;> simp

@[simp] theorem restorePriority_current : (k.restorePriority t m).current = k.current := by
  unfold restorePriority
  split <;> simp

theorem restorePriority_priority :
    ((k.restorePriority t m).thread u).currentPriority =
      if u = t then (k.mutex m).originalPriority else (k.thread u).currentPriority := by
  unfold restorePriority
  split
  · rw [rtThreadChangePriority_priority]
  · next heq =>
    split
    · next hu =>
      subst hu
      exact (not_not.mp heq).symm
    · rfl

@[simp] theorem restorePriority_timerList : (k.restorePriority t m).timerList = k.timerList := by
  unfold restorePriority
  split <;> rfl

@[simp] theorem restorePriority_timer : (k.restorePriority t m).timer = k.timer := by
  unfold restorePriority
  split <;> rfl

theorem rtIpcListSuspend_mutex (n : M) :
    (k.rtIpcListSuspend m t).mutex n =
      if n = m then { k.mutex m with suspendThread := (k.mutex m).suspendThread ++ [t] }
      else k.mutex n := by
  simp [rtIpcListSuspend]

@[simp] theorem rtIpcListSuspend_thread :
    (k.rtIpcListSuspend m t).thread = (k.rtThreadSuspend t).thread := rfl

@[simp] theorem rtIpcListSuspend_timer :
    (k.rtIpcListSuspend m t).timer = (k.rtThreadSuspend t).timer := rfl

@[simp] theorem rtIpcListSuspend_timerList :
    (k.rtIpcListSuspend m t).timerList = (k.rtThreadSuspend t).timerList := rfl

theorem handOver_nil (hw : (k.mutex m).suspendThread = []) (hval : (k.mutex m).value = 0) :
    k.handOver t m = (k.restorePriority t m).setMutex m
      { k.mutex m with value := 1, owner := none, originalPriority := 0xff } := by
  simp [handOver, hw, hval, rtMutexValueMax]

theorem handOver_cons {xs : List T} (hw : (k.mutex m).suspendThread = u :: xs)
    (hhold : (k.mutex m).hold = 0) :
    k.handOver t m = ((k.restorePriority t m).setMutex m
      { k.mutex m with
        owner := some u
        originalPriority := ((k.restorePriority t m).thread u).currentPriority
        hold := 1 }).rtThreadResume u := by
  simp [handOver, hw, hhold, rtMutexHoldMax]

@[simp] theorem inheritPriority_current : (k.inheritPriority m t).current = k.current := by
  unfold inheritPriority
  split
  · rfl
  · split <;> rfl

@[simp] theorem rtMutexTake_current : (k.rtMutexTake t m).1.current = k.current := by
  unfold rtMutexTake
  simp only
  split
  · split <;> rfl
  · split
    · split <;> rfl
    · simp [rtIpcListSuspend]

@[simp] theorem rtMutexRelease_current : (k.rtMutexRelease t m).current = k.current := by
  have hhand : ∀ k : Kernel T M A, (k.handOver t m).current = k.current := by
    intro k
    unfold handOver
    simp only
    split
    · split <;> simp
    · split <;> simp
  unfold rtMutexRelease
  simp only
  split
  · split
    · rw [hhand]
      rfl
    · rfl
  · rfl

end Specs

end Kernel

end OsesProject
