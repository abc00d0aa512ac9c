import OsesProject.Application.Procedure

/-!
# The start of the application (`main.c`)

`main` from the return of `rt_thread_deferrable_init` on. It enables the interrupts of the buttons,
creates `raw_mutex` and `bench_mutex`, and goes on to start the producer and the consumer, which is
the machine of `Application.System`. `rt_mutex_create` allocates the object by `rt_malloc`, and
`rt_malloc` takes the semaphore of the heap: `main` waits there when another thread is inside the
heap's functions.

The other thread is the shell. It is less urgent than the server, and it can be inside `rt_malloc`
when the delay of `main` before all this is over. `Tid.idle`, which stands for the threads that use
no modelled object, is the shell here.
-/

namespace OsesProject

/-- `RT_SEM_VALUE_MAX`. -/
def rtSemValueMax : Nat := 0xffff

/-- `struct rt_semaphore`, created with `RT_IPC_FLAG_FIFO`. -/
structure Semaphore (T : Type) where
  suspendThread : List T
  value : Nat

section Semaphore

variable {T M A : Type} [DecidableEq T] [DecidableEq A]

/-- `rt_sem_take` called by `t` with `RT_WAITING_FOREVER`, up to its call of `rt_schedule`, and
whether the caller is suspended. The `error` of the threads that use the semaphore is `RT_EOK`
throughout, so that it need not be set. -/
def Kernel.rtSemTake (k : Kernel T M A) (sem : Semaphore T) (t : T) :
    Kernel T M A × Semaphore T × Bool :=
  if 0 < sem.value then
    (k, { sem with value := sem.value - 1 }, false)
  else
    (k.rtThreadSuspend t, { sem with suspendThread := sem.suspendThread ++ [t] }, true)

/-- `rt_sem_release` up to its call of `rt_schedule`. -/
def Kernel.rtSemRelease (k : Kernel T M A) (sem : Semaphore T) : Kernel T M A × Semaphore T :=
  match sem.suspendThread with
  | t :: rest => (k.rtThreadResume t, { sem with suspendThread := rest })
  | [] =>
    if sem.value < rtSemValueMax then (k, { sem with value := sem.value + 1 }) else (k, sem)

end Semaphore

/-- The statements of `main` from the first `rt_pin_irq_enable` to the test of the second mutex.
Each button has its interrupt and its mutex. -/
inductive BootPc
  /-- `rt_pin_irq_enable` -/
  | enable (b : Button)
  /-- `rt_mutex_create`: `rt_sem_take(&heap_sem)` in `rt_malloc` -/
  | semTake (b : Button)
  /-- inside `rt_sem_take`, behind its `rt_schedule` -/
  | inSemTake (b : Button)
  /-- the search for a block -/
  | malloc (b : Button)
  /-- `rt_sem_release(&heap_sem)` -/
  | semRelease (b : Button) (found : Bool)
  /-- the mutex is stored, and tested for `RT_NULL` -/
  | assign (b : Button) (found : Bool)
  /-- `return -1` -/
  | failed
  | exited
  /-- `main` goes on to start the producer -/
  | done
  deriving DecidableEq, Repr

/-- Where the shell is. -/
inductive ShellPc
  | outside
  | inSemTake
  | inside
  deriving DecidableEq, Repr

/-- The system while `main` starts it. -/
structure Boot where
  sys : State Task
  pc : BootPc
  /-- the interrupts enabled -/
  enabled : Button → Bool
  /-- the pointers `raw_mutex` and `bench_mutex` that are not null -/
  mutex : Button → Bool
  heapSem : Semaphore Tid
  shellPc : ShellPc

instance : Fintype Button := ⟨{.raw, .bench}, fun b => by cases b <;> decide⟩

/-- The mutex of a button's tasks. -/
def Button.lock : Button → Lock
  | .raw => .raw
  | .bench => .bench

/-- An event of the system, the next statement of `main`, with the outcome of the search for memory,
or the next statement of the shell. -/
inductive BootEvent
  | sys (e : Event Task)
  | main (found : Bool)
  | shell
  deriving DecidableEq, Repr

namespace Boot

/-- One statement of `main`. -/
def mainStep (s : Boot) (found : Bool) : Option Boot :=
  match s.pc with
  | .enable b =>
    let next : BootPc := match b with
      | .raw => .enable .bench
      | .bench => .semTake .raw
    some { s with enabled := Function.update s.enabled b true, pc := next }
  | .semTake b =>
    let (k, sem, blocked) := s.sys.k.rtSemTake s.heapSem .main
    some { s with
      sys := { s.sys with k := k }
      heapSem := sem
      pc := if blocked then .inSemTake b else .malloc b }
  | .inSemTake b => some { s with pc := .malloc b }
  | .malloc b => some { s with pc := .semRelease b found }
  | .semRelease b found =>
    let (k, sem) := s.sys.k.rtSemRelease s.heapSem
    some { s with sys := { s.sys with k := k }, heapSem := sem, pc := .assign b found }
  | .assign b found =>
    if found then
      let next : BootPc := match b with
        | .raw => .semTake .bench
        | .bench => .done
      some { s with mutex := Function.update s.mutex b true, pc := next }
    else
      some { s with pc := .failed }
  | .failed =>
    some { s with sys := { s.sys with k := s.sys.k.rtThreadExit .main }, pc := .exited }
  | .exited | .done => none

/-- One statement of the shell, as far as it uses the heap. -/
def shellStep (s : Boot) : Boot :=
  match s.shellPc with
  | .outside =>
    let (k, sem, blocked) := s.sys.k.rtSemTake s.heapSem .idle
    { s with
      sys := { s.sys with k := k }
      heapSem := sem
      shellPc := if blocked then .inSemTake else .inside }
  | .inSemTake => { s with shellPc := .inside }
  | .inside =>
    let (k, sem) := s.sys.k.rtSemRelease s.heapSem
    { s with sys := { s.sys with k := k }, heapSem := sem, shellPc := .outside }

/-- The server calls `rt_mutex_take` with a null pointer. -/
def TakesNull (s : Boot) : Prop :=
  s.sys.k.current = .server ∧ (s.sys.k.thread .server).stat = .running ∧
    ∃ b todo, s.sys.pc .server = .run (.take b.lock :: todo) ∧ s.mutex b = false

/-- The statement of a thread can be made: it runs, and no interrupt is being served. -/
def Runs (s : Boot) (t : Tid) : Prop :=
  s.sys.inCheck = false ∧ s.sys.k.current = t ∧ (s.sys.k.thread t).stat = .running

instance (s : Boot) (t : Tid) : Decidable (s.Runs t) := by
  unfold Runs
  infer_instance

/-- One event. A button whose interrupt is not enabled does nothing, and `main` has its own
statements until it starts the producer. -/
def step (cfg : Config Task) (s : Boot) : BootEvent → Option Boot
  | .sys (.press b) =>
    if s.enabled b then
      (OsesProject.step cfg s.sys (.press b)).map fun sys => { s with sys := sys }
    else
      none
  | .sys (.thread .main choice) =>
    if s.pc = .done then
      (OsesProject.step cfg s.sys (.thread .main choice)).map fun sys => { s with sys := sys }
    else
      none
  | .sys e => (OsesProject.step cfg s.sys e).map fun sys => { s with sys := sys }
  | .main found => if s.Runs .main then s.mainStep found else none
  | .shell => if s.Runs .idle then some s.shellStep else none

/-- `rt_thread_deferrable_init` has returned; the shell, of the priority `shell`, is inside
`rt_malloc` or not. -/
def start (cfg : Config Task) (tick shell : Nat) (inside : Bool) : Boot where
  sys :=
    let s := afterInit cfg mainPriority tick
    { s with k := s.k.setThread .idle ⟨.eok, .ready, shell, shell⟩ }
  pc := .enable .raw
  enabled := fun _ => false
  mutex := fun _ => false
  heapSem := ⟨[], if inside then 0 else 1⟩
  shellPc := if inside then .inside else .outside

end Boot

end OsesProject
