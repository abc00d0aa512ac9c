import Mathlib.Logic.Function.Basic
import Mathlib.Data.List.Basic

/-!
# Kernel objects

The records of `rtdef.h` that the modelled functions read and write, and the constants of
`rtdef.h` and `rtconfig.h` they compare with. Threads, mutexes and application timers are named
by types of their own (`T`, `M`, `A`), as the C code names them by pointer; a thread's built-in
timer is `TimerId.thread`.

The ready table is not a field of its own: a thread is in it exactly when its `stat` is `ready`,
and which of the ready threads runs next is left to the run (`Kernel.rtScheduleTo`). A context
switch may therefore happen between any two steps, at any of the points where the kernel calls
`rt_schedule` and at more.
-/

namespace OsesProject

/-- `RT_THREAD_PRIORITY_MAX`: priorities run from 0, the most urgent, to 31. -/
def rtThreadPriorityMax : Nat := 32

/-- `RT_TICK_MAX`. -/
def rtTickMax : Nat := 0xffffffff

/-- `RT_MUTEX_VALUE_MAX`. -/
def rtMutexValueMax : Nat := 0xffff

/-- `RT_MUTEX_HOLD_MAX`. -/
def rtMutexHoldMax : Nat := 0xff

/-- The thread states, `RT_THREAD_INIT` to `RT_THREAD_CLOSE`. -/
inductive ThreadStat
  | init
  | ready
  | suspend
  | running
  | close
  deriving DecidableEq, Repr

/-- The error codes a thread's `error` field takes in the modelled functions. -/
inductive RtErr
  | eok
  | error
  | etimeout
  deriving DecidableEq, Repr

/-- `struct rt_thread`. -/
structure Thread where
  error : RtErr
  stat : ThreadStat
  currentPriority : Nat
  initPriority : Nat
  deriving DecidableEq, Repr

/-- `struct rt_mutex`; `suspendThread` is the list of the threads blocked on it, in order. -/
structure Mutex (T : Type) where
  suspendThread : List T
  value : Nat
  originalPriority : Nat
  hold : Nat
  owner : Option T
  deriving DecidableEq, Repr

/-- `struct rt_timer`, with its two flags. -/
structure Timer where
  initTick : Nat
  timeoutTick : Nat
  activated : Bool
  periodic : Bool
  deriving DecidableEq, Repr

/-- The timers: one in every thread object, and those of the application. -/
inductive TimerId (T A : Type)
  | thread (t : T)
  | app (a : A)
  deriving DecidableEq, Repr

/-- The kernel's objects: `rt_current_thread`, `rt_tick`, and `rt_timer_list`, the active hard
timers in the order of their time-outs (`RT_TIMER_SKIP_LIST_LEVEL` is 1). -/
structure Kernel (T M A : Type) where
  thread : T → Thread
  current : T
  mutex : M → Mutex T
  timer : TimerId T A → Timer
  timerList : List (TimerId T A)
  tick : Nat

variable {T M A : Type}

/-- The kernel's lists of the thread objects and of the objects of their timers. -/
structure Objects (T : Type) where
  threads : List T
  timers : List T

/-- `rt_object_init` on the list of the objects of its class; `none` is the failed assertion that
the object is not in the list already. -/
def rtObjectInit [DecidableEq T] (objects : List T) (t : T) : Option (List T) :=
  if t ∈ objects then none else some (t :: objects)

/-- `rt_object_detach`. -/
def rtObjectDetach [DecidableEq T] (objects : List T) (t : T) : List T := objects.filter (· ≠ t)

/-- `rt_object_detach` of a thread and of its timer. -/
def Objects.detach [DecidableEq T] (objects : Objects T) (t : T) : Objects T :=
  ⟨rtObjectDetach objects.threads t, rtObjectDetach objects.timers t⟩

/-- A thread's object replaced. -/
def Kernel.setThread [DecidableEq T] (k : Kernel T M A) (t : T) (th : Thread) : Kernel T M A :=
  { k with thread := Function.update k.thread t th }

/-- A mutex object replaced. -/
def Kernel.setMutex [DecidableEq M] (k : Kernel T M A) (m : M) (mx : Mutex T) : Kernel T M A :=
  { k with mutex := Function.update k.mutex m mx }

/-- A timer object replaced. -/
def Kernel.setTimer [DecidableEq T] [DecidableEq A] (k : Kernel T M A) (i : TimerId T A)
    (tm : Timer) : Kernel T M A :=
  { k with timer := Function.update k.timer i tm }

section Fields

variable (k : Kernel T M A)

@[simp] theorem setThread_thread [DecidableEq T] (t u : T) (th : Thread) :
    (k.setThread t th).thread u = if u = t then th else k.thread u := by
  simp [Kernel.setThread, Function.update_apply]

@[simp] theorem setThread_current [DecidableEq T] (t : T) (th : Thread) :
    (k.setThread t th).current = k.current := rfl

@[simp] theorem setThread_mutex [DecidableEq T] (t : T) (th : Thread) :
    (k.setThread t th).mutex = k.mutex := rfl

@[simp] theorem setThread_timer [DecidableEq T] (t : T) (th : Thread) :
    (k.setThread t th).timer = k.timer := rfl

@[simp] theorem setThread_timerList [DecidableEq T] (t : T) (th : Thread) :
    (k.setThread t th).timerList = k.timerList := rfl

@[simp] theorem setThread_tick [DecidableEq T] (t : T) (th : Thread) :
    (k.setThread t th).tick = k.tick := rfl

@[simp] theorem setMutex_mutex [DecidableEq M] (m n : M) (mx : Mutex T) :
    (k.setMutex m mx).mutex n = if n = m then mx else k.mutex n := by
  simp [Kernel.setMutex, Function.update_apply]

@[simp] theorem setMutex_thread [DecidableEq M] (m : M) (mx : Mutex T) :
    (k.setMutex m mx).thread = k.thread := rfl

@[simp] theorem setMutex_current [DecidableEq M] (m : M) (mx : Mutex T) :
    (k.setMutex m mx).current = k.current := rfl

@[simp] theorem setMutex_timer [DecidableEq M] (m : M) (mx : Mutex T) :
    (k.setMutex m mx).timer = k.timer := rfl

@[simp] theorem setMutex_timerList [DecidableEq M] (m : M) (mx : Mutex T) :
    (k.setMutex m mx).timerList = k.timerList := rfl

@[simp] theorem setMutex_tick [DecidableEq M] (m : M) (mx : Mutex T) :
    (k.setMutex m mx).tick = k.tick := rfl

variable [DecidableEq T] [DecidableEq A]

@[simp] theorem setTimer_timer (i j : TimerId T A) (tm : Timer) :
    (k.setTimer i tm).timer j = if j = i then tm else k.timer j := by
  simp [Kernel.setTimer, Function.update_apply]

@[simp] theorem setTimer_thread (i : TimerId T A) (tm : Timer) :
    (k.setTimer i tm).thread = k.thread := rfl

@[simp] theorem setTimer_current (i : TimerId T A) (tm : Timer) :
    (k.setTimer i tm).current = k.current := rfl

@[simp] theorem setTimer_mutex (i : TimerId T A) (tm : Timer) :
    (k.setTimer i tm).mutex = k.mutex := rfl

@[simp] theorem setTimer_timerList (i : TimerId T A) (tm : Timer) :
    (k.setTimer i tm).timerList = k.timerList := rfl

@[simp] theorem setTimer_tick (i : TimerId T A) (tm : Timer) :
    (k.setTimer i tm).tick = k.tick := rfl

end Fields

end OsesProject
