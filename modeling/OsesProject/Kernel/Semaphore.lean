import Mathlib.Logic.Function.Basic
import Mathlib.Data.Int.Notation
import Mathlib.Data.List.Basic

/-!
# Semaphores (`ipc.c`)

`rt_sem_take` and `rt_sem_release` of one semaphore, called by threads and interrupts in any order,
with both flags an IPC object can have and with every waiting time. A call is one step up to its
call of `rt_schedule`; the thread that `rt_sem_take` suspends goes on behind it when it has been
resumed. Nobody else resumes a thread that waits here: its timer does, or `rt_sem_release`.
-/

namespace OsesProject

open Function

/-- `RT_IPC_FLAG_FIFO` and `RT_IPC_FLAG_PRIO`. -/
inductive IpcFlag
  | fifo
  | prio
  deriving DecidableEq

/-- Where a thread is. -/
inductive SemPc
  /-- not in `rt_sem_take` -/
  | outside
  /-- in the list of the semaphore, with its timer started or not -/
  | suspended (timer : Bool)
  /-- resumed, behind the `rt_schedule` of `rt_sem_take`; its `error` is `-RT_ETIMEOUT` or not -/
  | resumed (timedOut : Bool)
  deriving DecidableEq

/-- `struct rt_semaphore` and the threads that use it. Two records are kept: who was given the
semaphore, in this order, and how often it was released. -/
structure SemThreads (T : Type) where
  flag : IpcFlag
  value : ℕ
  suspendThread : List T
  currentPriority : T → ℕ
  pc : T → SemPc
  acquired : List T
  released : ℕ

namespace SemThreads

variable {T : Type} [DecidableEq T]

/-- After `rt_sem_init`. -/
def init (flag : IpcFlag) (value : ℕ) (currentPriority : T → ℕ) : SemThreads T :=
  ⟨flag, value, [], currentPriority, fun _ => .outside, [], 0⟩

/-- The loop of `rt_ipc_list_suspend` for `RT_IPC_FLAG_PRIO`: the place before the first thread that
is less urgent. -/
def insertByPriority (priority : T → ℕ) (t : T) : List T → List T
  | [] => [t]
  | s :: list =>
    if priority t < priority s then t :: s :: list else s :: insertByPriority priority t list

/-- `rt_ipc_list_suspend`. -/
def rtIpcListSuspend (flag : IpcFlag) (priority : T → ℕ) (list : List T) (t : T) : List T :=
  match flag with
  | .fifo => list ++ [t]
  | .prio => insertByPriority priority t list

/-- `rt_sem_take`, up to its `rt_schedule`. -/
def rtSemTake (s : SemThreads T) (t : T) (time : ℤ) : SemThreads T :=
  if 0 < s.value then
    { s with value := s.value - 1, acquired := s.acquired ++ [t] }
  else if time = 0 then
    s
  else
    { s with
      suspendThread := rtIpcListSuspend s.flag s.currentPriority s.suspendThread t
      pc := update s.pc t (.suspended (0 < time)) }

/-- `rt_sem_release`, up to its `rt_schedule`. -/
def rtSemRelease (s : SemThreads T) : SemThreads T :=
  match s.suspendThread with
  | t :: list =>
    { s with
      suspendThread := list
      pc := update s.pc t (.resumed false)
      acquired := s.acquired ++ [t]
      released := s.released + 1 }
  | [] =>
    -- `RT_SEM_VALUE_MAX`
    if s.value < 0xffff then
      { s with value := s.value + 1, released := s.released + 1 }
    else
      s

/-- What happens to the semaphore. -/
inductive Event (T : Type)
  | take (t : T) (time : ℤ)
  | release
  /-- `rt_thread_timeout` -/
  | timeout (t : T)
  /-- `t` goes on behind `rt_schedule` -/
  | goOn (t : T)
  /-- `rt_thread_control`, which leaves the thread where it is in the list -/
  | changePriority (t : T) (priority : ℕ)

def step (s : SemThreads T) : Event T → Option (SemThreads T)
  | .take t time => if s.pc t = .outside then some (s.rtSemTake t time) else none
  | .release => some s.rtSemRelease
  | .timeout t =>
    if s.pc t = .suspended true then
      some { s with
        suspendThread := s.suspendThread.erase t
        pc := update s.pc t (.resumed true) }
    else
      none
  | .goOn t =>
    match s.pc t with
    | .resumed _ => some { s with pc := update s.pc t .outside }
    | _ => none
  | .changePriority t priority =>
    some { s with currentPriority := update s.currentPriority t priority }

end SemThreads

end OsesProject
