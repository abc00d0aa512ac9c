import OsesProject.Kernel.Service
import OsesProject.Kernel.Program
import Mathlib.Data.Fintype.Basic

/-!
# The deferrable server (`deferrable.c`)

The server's record, its two timer callbacks, the insertion of a task, and its thread, statement by
statement: `ServerPc` is the place the thread has reached in `rt_thread_deferrable_entry`. Tasks
are named by a type `τ`, as the C code names them by the pointer to their record; what a task does
is a program of kernel calls, given by the configuration.

The tasks' list nodes live in a heap with the list head `asyncTask` and the null pointer, which the
nodes of statically allocated tasks hold before their first insertion. A call through a node that
is not a task's has no successor here: it is undefined behaviour of the C program.

Some fields record the history of a run and are read by no function: which tasks have been
inserted, which have been run, how many have been removed, for how many ticks the server has
executed tasks since its last replenishment, and whether its capacity has been exhausted since.
-/

namespace OsesProject

/-- The threads. `idle` stands for every thread that uses no modelled object. -/
inductive Tid
  | server
  | producer
  | consumer
  | main
  | idle
  deriving DecidableEq, Repr

instance : Fintype Tid :=
  ⟨{.server, .producer, .consumer, .main, .idle}, fun t => by cases t <;> decide⟩

/-- The mutexes: the two of the application and the locks of the two buses. -/
inductive Lock
  | raw
  | bench
  | spi
  | i2c
  deriving DecidableEq, Repr

instance : Fintype Lock :=
  ⟨{.raw, .bench, .spi, .i2c}, fun m => by cases m <;> decide⟩

/-- The timers of the server, `tim_capacity` and `tim_server`. -/
inductive AppTimer
  | capacity
  | server
  deriving DecidableEq, Repr

/-- The list nodes: `&deferrable_server.asyncTask`, and `&task->tlist` for every task. -/
inductive Ptr (τ : Type)
  | null
  | asyncTask
  | tlist (a : τ)
  deriving DecidableEq, Repr

/-- The statements of `rt_thread_deferrable_entry`. -/
inductive ServerPc (τ : Type)
  /-- `active = 0;` -/
  | entry
  /-- `if (!active)` -/
  | loop
  /-- `rt_timer_start(&deferrable_server.tim_capacity);` -/
  | start
  /-- `active = 1;` -/
  | setActive
  /-- `task = rt_list_entry(deferrable_server.asyncTask.next, ...);` -/
  | fetch
  /-- `(task->thd_fun)(task->args);`, before the call -/
  | call (n : Ptr τ)
  /-- inside the task's function -/
  | task (n : Ptr τ)
  /-- `rt_list_remove(&task->tlist);` -/
  | remove (n : Ptr τ)
  /-- `if (rt_list_isempty(deferrable_server.asyncTask.next))` -/
  | test
  /-- `rt_timer_stop(&deferrable_server.tim_capacity);` -/
  | stop
  /-- `rt_thread_suspend(&deferrable_server.deferrable);` -/
  | suspend
  /-- `active = 0;` -/
  | clear
  /-- inside `rt_schedule();` -/
  | sched
  deriving DecidableEq, Repr

/-- The statements of `main` from the start of the server on. -/
inductive MainPc
  /-- `rt_thread_startup` in `rt_thread_deferrable_init` -/
  | startup
  /-- `rt_thread_suspend` in `rt_thread_deferrable_init` -/
  | suspendServer
  /-- `rt_thread_startup(&producer);` -/
  | startProducer
  /-- `rt_thread_startup(&consumer);` -/
  | startConsumer
  /-- the return from `main` -/
  | exit
  | done
  deriving DecidableEq, Repr

/-- The two buttons. -/
inductive Button
  | raw
  | bench
  deriving DecidableEq, Repr

/-- What the system is set up with: the arguments of `rt_thread_deferrable_init`, the bytes of the
memory outside the program's own objects, the programs of the tasks and of the other threads, and
the tasks the buttons stand for. A task may do different things at different times; the number
given to `body` is the choice among them. -/
structure Config (τ : Type) where
  capacity : Nat
  period : Nat
  priority : Nat
  memory : Nat → UInt8
  body : τ → Nat → List (Act Lock)
  round : Tid → Nat → List (Act Lock)
  task : Button → Bool → τ
  body_nested : ∀ a c, Nested [] (body a c)
  round_nested : ∀ t n, Nested [] (round t n)

/-- The state of the system. -/
structure State (τ : Type) where
  k : Kernel Tid Lock AppTimer
  /-- where each thread is in its program of kernel calls -/
  pc : Tid → Pc Lock
  /-- how many rounds of its loop a thread has begun -/
  rounds : Tid → Nat
  mainPc : MainPc
  serverPc : ServerPc τ
  /-- the tick interrupt is inside `rt_timer_check` -/
  inCheck : Bool
  /-- the `tlist` nodes and `asyncTask` -/
  heap : Ptr τ → Links (Ptr τ)
  active : Bool
  priority : Nat
  capacity : Nat
  capacityLeft : Nat
  /-- the direction each button's handler takes next; `false` is writing -/
  RWn : Button → Bool
  inserted : List τ
  ran : List τ
  removed : Nat
  used : Nat
  demoted : Bool

namespace State

variable {τ : Type}

/-- The kernel's objects and the places of the threads. -/
def threads (s : State τ) : Threads Tid Lock AppTimer := ⟨s.k, s.pc⟩

/-- The tasks inserted and not yet removed. -/
def pending (s : State τ) : List τ := s.inserted.drop s.removed

variable [DecidableEq τ]

/-- `rt_list_isempty(deferrable_server.asyncTask.next)`. -/
def isempty (s : State τ) : Bool := rtListIsempty s.heap (s.heap .asyncTask).next

/-- `rt_thread_deferrable_insert_task`. -/
def rtThreadDeferrableInsertTask (s : State τ) (a : τ) : State τ :=
  { s with
    k := if s.isempty then s.k.rtThreadResume .server else s.k
    heap := rtListInsertBefore (rtListInit s.heap (.tlist a)) .asyncTask (.tlist a)
    inserted := s.inserted ++ [a] }

/-- The pointers the callbacks give to `rt_thread_control`: an address written as a number, and
`&deferrable_server.priority`. -/
inductive Arg
  | address (n : Nat)
  | priority

/-- `*(rt_uint8_t *)arg`. -/
def deref (memory : Nat → UInt8) (s : State τ) : Arg → Nat
  | .address n => (memory n).toNat
  | .priority => s.priority

/-- `rt_thread_control(&deferrable_server.deferrable, RT_THREAD_CTRL_CHANGE_PRIORITY, arg)`. -/
def rtThreadControl (memory : Nat → UInt8) (s : State τ) (arg : Arg) : State τ :=
  { s with k := s.k.rtThreadChangePriority .server (s.deref memory arg) }

/-- `rt_timer_deferrable_period`. -/
def rtTimerDeferrablePeriod (memory : Nat → UInt8) (s : State τ) : State τ :=
  let s := { s with capacityLeft := s.capacity, used := 0, demoted := false }
  let s := { s with k := if s.isempty then s.k.rtThreadResume .server else s.k }
  let s := s.rtThreadControl memory .priority
  { s with k := s.k.rtTimerSetTime (.app .capacity) s.capacityLeft }

/-- `rt_timer_deferrable_capacity`. The third argument of its `rt_thread_control` is
`(void *)(RT_THREAD_PRIORITY_MAX - 1)`. -/
def rtTimerDeferrableCapacity (memory : Nat → UInt8) (s : State τ) : State τ :=
  let s := { s with capacityLeft := 0, demoted := true }
  s.rtThreadControl memory (.address (rtThreadPriorityMax - 1))

/-- One statement of `rt_thread_deferrable_entry`; inside a task, one of the task's kernel calls or
its return. After its `rt_thread_suspend` the thread goes on to the next statement although it is
no longer in the state `running`; every other statement needs that state. -/
def rtThreadDeferrableEntry (cfg : Config τ) (choice : Nat) (s : State τ) : Option (State τ) :=
  if s.k.current = .server ∧ ((s.k.thread .server).stat = .running ∨ s.serverPc = .clear) then
    match s.serverPc with
    | .entry => some { s with active := false, serverPc := .loop }
    | .loop => some { s with serverPc := if s.active then .fetch else .start }
    | .start =>
      (s.k.rtTimerStart (.app .capacity)).map fun k => { s with k := k, serverPc := .setActive }
    | .setActive => some { s with active := true, serverPc := .fetch }
    | .fetch => some { s with serverPc := .call (s.heap .asyncTask).next }
    | .call (.tlist a) =>
      if s.pc .server = .run [] then
        some { s with
          pc := Function.update s.pc .server (.run (cfg.body a choice))
          ran := s.ran ++ [a]
          serverPc := .task (.tlist a) }
      else
        none
    | .call _ => none
    | .task n =>
      if s.pc .server = .run [] then
        some { s with serverPc := .remove n }
      else
        (s.k.actStep .server (s.pc .server)).map fun r =>
          { s with k := r.2, pc := Function.update s.pc .server r.1 }
    | .remove n =>
      some { s with heap := rtListRemove s.heap n, removed := s.removed + 1, serverPc := .test }
    | .test => some { s with serverPc := if s.isempty then .stop else .loop }
    | .stop => some { s with k := s.k.rtTimerStop (.app .capacity), serverPc := .suspend }
    | .suspend => some { s with k := s.k.rtThreadSuspend .server, serverPc := .clear }
    | .clear => some { s with active := false, serverPc := .sched }
    | .sched => some { s with serverPc := .loop }
  else
    none

/-- What a statement of the server does, one case for each: the inversion of
`rtThreadDeferrableEntry`. -/
inductive ServerStep (cfg : Config τ) (choice : Nat) (s : State τ) : State τ → Prop
  | entry (h : s.serverPc = .entry) :
      ServerStep cfg choice s { s with active := false, serverPc := .loop }
  | loop (h : s.serverPc = .loop) :
      ServerStep cfg choice s { s with serverPc := if s.active then .fetch else .start }
  | start (h : s.serverPc = .start) {k : Kernel Tid Lock AppTimer}
      (hk : s.k.rtTimerStart (.app .capacity) = some k) :
      ServerStep cfg choice s { s with k := k, serverPc := .setActive }
  | setActive (h : s.serverPc = .setActive) :
      ServerStep cfg choice s { s with active := true, serverPc := .fetch }
  | fetch (h : s.serverPc = .fetch) :
      ServerStep cfg choice s { s with serverPc := .call (s.heap .asyncTask).next }
  | call (a : τ) (h : s.serverPc = .call (.tlist a)) (hpc : s.pc .server = .run []) :
      ServerStep cfg choice s { s with
        pc := Function.update s.pc .server (.run (cfg.body a choice))
        ran := s.ran ++ [a]
        serverPc := .task (.tlist a) }
  | act (n : Ptr τ) (h : s.serverPc = .task n) (hpc : s.pc .server ≠ .run []) {p : Pc Lock}
      {k : Kernel Tid Lock AppTimer} (hk : s.k.actStep .server (s.pc .server) = some (p, k)) :
      ServerStep cfg choice s { s with k := k, pc := Function.update s.pc .server p }
  | ret (n : Ptr τ) (h : s.serverPc = .task n) (hpc : s.pc .server = .run []) :
      ServerStep cfg choice s { s with serverPc := .remove n }
  | remove (n : Ptr τ) (h : s.serverPc = .remove n) :
      ServerStep cfg choice s
        { s with heap := rtListRemove s.heap n, removed := s.removed + 1, serverPc := .test }
  | test (h : s.serverPc = .test) :
      ServerStep cfg choice s { s with serverPc := if s.isempty then .stop else .loop }
  | stop (h : s.serverPc = .stop) :
      ServerStep cfg choice s { s with k := s.k.rtTimerStop (.app .capacity), serverPc := .suspend }
  | suspend (h : s.serverPc = .suspend) :
      ServerStep cfg choice s { s with k := s.k.rtThreadSuspend .server, serverPc := .clear }
  | clear (h : s.serverPc = .clear) :
      ServerStep cfg choice s { s with active := false, serverPc := .sched }
  | sched (h : s.serverPc = .sched) : ServerStep cfg choice s { s with serverPc := .loop }

/-- Every statement of the server is one of these, made while the server is the current thread. -/
theorem serverStep_of_entry {cfg : Config τ} {choice : Nat} {s s' : State τ}
    (h : s.rtThreadDeferrableEntry cfg choice = some s') :
    s.k.current = .server ∧ ((s.k.thread .server).stat = .running ∨ s.serverPc = .clear) ∧
      ServerStep cfg choice s s' := by
  unfold rtThreadDeferrableEntry at h
  split at h
  · next hg =>
    refine ⟨hg.1, hg.2, ?_⟩
    cases hpc : s.serverPc with
    | entry => simp only [hpc] at h; cases h; exact .entry hpc
    | loop => simp only [hpc] at h; cases h; exact .loop hpc
    | start =>
      simp only [hpc] at h
      obtain ⟨k, hk, rfl⟩ := Option.map_eq_some_iff.mp h
      exact .start hpc hk
    | setActive => simp only [hpc] at h; cases h; exact .setActive hpc
    | fetch => simp only [hpc] at h; cases h; exact .fetch hpc
    | call n =>
      cases n with
      | null => simp [hpc] at h
      | asyncTask => simp [hpc] at h
      | tlist a =>
        simp only [hpc] at h
        split at h
        · cases h
          exact .call a hpc ‹_›
        · cases h
    | task n =>
      simp only [hpc] at h
      split at h
      · cases h
        exact .ret n hpc ‹_›
      · obtain ⟨⟨p, k⟩, hk, rfl⟩ := Option.map_eq_some_iff.mp h
        have hact : ServerStep cfg choice s
            { s with k := k, pc := Function.update s.pc .server p } := .act n hpc ‹_› hk
        rwa [hpc] at hact
    | remove n => simp only [hpc] at h; cases h; exact .remove n hpc
    | test => simp only [hpc] at h; cases h; exact .test hpc
    | stop => simp only [hpc] at h; cases h; exact .stop hpc
    | suspend => simp only [hpc] at h; cases h; exact .suspend hpc
    | clear => simp only [hpc] at h; cases h; exact .clear hpc
    | sched => simp only [hpc] at h; cases h; exact .sched hpc
  · cases h

end State

end OsesProject
