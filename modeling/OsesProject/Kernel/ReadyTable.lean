import OsesProject.Kernel.Program
import OsesProject.Kernel.Service
import OsesProject.Lib.Rings

/-!
# The ready table (`scheduler.c`, `thread.c`, `clock.c`, `ipc.c`)

The kernel with its lists where they are, in memory. `Kernel` says which threads are ready and who
waits for a mutex; here a thread is linked through its `tlist` into the list of its priority in
`rt_thread_priority_table`, into the list of a mutex, or into `rt_thread_defunct`, and one bit for
each priority in `rt_thread_ready_priority_group` says that its list is not empty. `rt_schedule`
looks at nothing else.

The functions are those of `Kernel`, word for word on the lists and the bits, and the time slice
of `rt_tick_increase` and `rt_thread_yield` with them. They are partial: `none` is a failed
assertion, a priority outside the table, a list head read as a thread, or an owner that is null.
A thread's timer and the application's timers are those of `Kernel`.
-/

set_option linter.unusedSectionVars false

namespace OsesProject

/-- The lists a thread's `tlist` is linked into: `rt_thread_priority_table[priority]`, the
`suspend_thread` of a mutex, and `rt_thread_defunct`. -/
inductive ListId (M : Type)
  | priorityTable (priority : Nat)
  | suspendThread (m : M)
  | threadDefunct
  deriving DecidableEq, Repr

/-- The fields of `struct rt_thread` that the scheduler alone uses; `yield` is the bit
`RT_THREAD_STAT_YIELD` of `stat`, and `systemobject` the answer of `rt_object_is_systemobject`. -/
structure SchedFields where
  numberMask : BitVec 32
  yield : Bool
  initTick : BitVec 32
  remainingTick : BitVec 32
  systemobject : Bool
  deriving DecidableEq, Repr

/-- `struct rt_mutex` apart from its list. -/
structure MutexFields (T : Type) where
  value : Nat
  originalPriority : Nat
  hold : Nat
  owner : Option T
  deriving DecidableEq, Repr

/-- The kernel's objects, the lists they are linked into, and `rt_thread_ready_priority_group`. -/
structure LinkedKernel (T M A : Type) where
  objects : Kernel T Empty A
  sched : T → SchedFields
  mutex : M → MutexFields T
  list : RingNode (ListId M) T → Links (RingNode (ListId M) T)
  readyPriorityGroup : BitVec 32

/-- `__rt_ffs`: one more than the index of the lowest bit that is set, and 0 when none is. -/
def rtFfs (value : BitVec 32) : Nat :=
  match (List.range 32).find? value.getLsbD with
  | none => 0
  | some i => i + 1

namespace LinkedKernel

open RingNode ListId

variable {T M A : Type} [DecidableEq T] [DecidableEq M] [DecidableEq A]

/-- A thread's record replaced. -/
def setThread (c : LinkedKernel T M A) (t : T) (th : Thread) : LinkedKernel T M A :=
  { c with objects := c.objects.setThread t th }

/-- A thread's status replaced, without its yield bit. -/
def setStat (c : LinkedKernel T M A) (t : T) (stat : ThreadStat) : LinkedKernel T M A :=
  c.setThread t { c.objects.thread t with stat := stat }

/-- The scheduler's fields of a thread replaced. -/
def setSched (c : LinkedKernel T M A) (t : T) (s : SchedFields) : LinkedKernel T M A :=
  { c with sched := Function.update c.sched t s }

/-- A mutex replaced. -/
def setMutex (c : LinkedKernel T M A) (m : M) (mx : MutexFields T) : LinkedKernel T M A :=
  { c with mutex := Function.update c.mutex m mx }

/-- The timers operated. -/
def onTimers (c : LinkedKernel T M A) (f : Kernel T Empty A → Kernel T Empty A) :
    LinkedKernel T M A :=
  { c with objects := f c.objects }

/-! ## The table -/

/-- `rt_schedule_insert_thread`. -/
def rtScheduleInsertThread (c : LinkedKernel T M A) (t : T) : Option (LinkedKernel T M A) :=
  if t = c.objects.current then
    -- it's current thread, it should be RUNNING thread
    some (c.setStat t .running)
  else
    let priority := (c.objects.thread t).currentPriority
    if priority < rtThreadPriorityMax then
      let c := c.setStat t .ready
      some { c with
        list := rtListInsertBefore c.list (head (priorityTable priority)) (cell t)
        readyPriorityGroup := c.readyPriorityGroup ||| (c.sched t).numberMask }
    else
      none

/-- `rt_schedule_remove_thread`. -/
def rtScheduleRemoveThread (c : LinkedKernel T M A) (t : T) : Option (LinkedKernel T M A) :=
  let priority := (c.objects.thread t).currentPriority
  if priority < rtThreadPriorityMax then
    let c := { c with list := rtListRemove c.list (cell t) }
    if rtListIsempty c.list (head (priorityTable priority)) then
      some { c with readyPriorityGroup := c.readyPriorityGroup &&& ~~~(c.sched t).numberMask }
    else
      some c
  else
    none

/-- `_get_highest_priority_thread`, with the priority it stores. -/
def getHighestPriorityThread (c : LinkedKernel T M A) : Option (T × Nat) :=
  match rtFfs c.readyPriorityGroup with
  | 0 => none
  | priority + 1 =>
    match (c.list (head (priorityTable priority))).next with
    | cell t => some (t, priority)
    | head _ => none

/-- `rt_schedule` when it switches: `toThread` becomes the current thread, and the thread it
leaves goes back to the table when it has to. -/
def switchTo (c : LinkedKernel T M A) (toThread : T) (needInsertFromThread : Bool) :
    Option (LinkedKernel T M A) :=
  let fromThread := c.objects.current
  let c := { c with objects := { c.objects with current := toThread } }
  let inserted := if needInsertFromThread then c.rtScheduleInsertThread fromThread else some c
  (inserted.bind fun c => c.rtScheduleRemoveThread toThread).map fun c =>
    c.setStat toThread .running

/-- `rt_schedule` when it goes on with the current thread. -/
def keepCurrent (c : LinkedKernel T M A) : Option (LinkedKernel T M A) :=
  (c.rtScheduleRemoveThread c.objects.current).map fun c => c.setStat c.objects.current .running

/-- `rt_schedule`, with the scheduler not locked. -/
def rtSchedule (c : LinkedKernel T M A) : Option (LinkedKernel T M A) :=
  if c.readyPriorityGroup = 0 then
    some c
  else
    c.getHighestPriorityThread.bind fun (toThread, highestReadyPriority) =>
      let current := c.objects.current
      let th := c.objects.thread current
      if th.stat = .running then
        let yield := (c.sched current).yield
        let c := c.setSched current { c.sched current with yield := false }
        if th.currentPriority < highestReadyPriority then
          c.keepCurrent
        else if th.currentPriority = highestReadyPriority ∧ yield = false then
          c.keepCurrent
        else if toThread ≠ current then
          c.switchTo toThread true
        else
          c.keepCurrent
      else if toThread ≠ current then
        c.switchTo toThread false
      else
        c.keepCurrent

/-- The current thread gets a full slice and is asked to yield. -/
def askYield (c : LinkedKernel T M A) : LinkedKernel T M A :=
  let s := c.sched c.objects.current
  -- thread->remaining_tick = thread->init_tick; thread->stat |= RT_THREAD_STAT_YIELD;
  c.setSched c.objects.current { s with remainingTick := s.initTick, yield := true }

/-- `rt_thread_yield` called by the current thread. -/
def rtThreadYield (c : LinkedKernel T M A) : Option (LinkedKernel T M A) := c.askYield.rtSchedule

/-- The tick counter moved on, and the slice of the current thread with it. -/
def countTick (c : LinkedKernel T M A) : LinkedKernel T M A :=
  let s := c.sched c.objects.current
  -- ++ rt_tick; -- thread->remaining_tick;
  (c.onTimers fun k => { k with tick := (k.tick + 1) % 2 ^ 32 }).setSched c.objects.current
    { s with remainingTick := s.remainingTick - 1 }

/-- `rt_tick_increase` up to its call of `rt_timer_check`. -/
def rtTickIncrease (c : LinkedKernel T M A) : Option (LinkedKernel T M A) :=
  let c := c.countTick
  if (c.sched c.objects.current).remainingTick = 0 then
    -- change to initialized tick
    c.askYield.rtSchedule
  else
    some c

/-! ## Threads -/

/-- `rt_thread_suspend`. -/
def rtThreadSuspend (c : LinkedKernel T M A) (t : T) : Option (LinkedKernel T M A) :=
  let stat := (c.objects.thread t).stat
  if stat = .ready ∨ stat = .running then
    -- RT_ASSERT(thread == rt_thread_self());
    if stat = .running ∧ t ≠ c.objects.current then
      none
    else
      (c.rtScheduleRemoveThread t).map fun c =>
        (c.setStat t .suspend).onTimers fun k => k.rtTimerStop (.thread t)
  else
    some c

/-- `rt_thread_resume`. -/
def rtThreadResume (c : LinkedKernel T M A) (t : T) : Option (LinkedKernel T M A) :=
  if (c.objects.thread t).stat = .suspend then
    let c := { c with list := rtListRemove c.list (cell t) }
    (c.onTimers fun k => k.rtTimerStop (.thread t)).rtScheduleInsertThread t
  else
    some c

/-- A thread's priority set, with the bit that stands for it. -/
def setPriority (c : LinkedKernel T M A) (t : T) (priority : Nat) : LinkedKernel T M A :=
  (c.setThread t { c.objects.thread t with currentPriority := priority }).setSched t
    { c.sched t with numberMask := 1#32 <<< priority }

/-- `rt_thread_startup` up to its call of `rt_schedule`. -/
def rtThreadStartup (c : LinkedKernel T M A) (t : T) : Option (LinkedKernel T M A) :=
  if (c.objects.thread t).stat = .init then
    let c := c.setPriority t (c.objects.thread t).initPriority
    let c := c.setSched t { c.sched t with yield := false }
    (c.setStat t .suspend).rtThreadResume t
  else
    none

/-- `rt_thread_exit` up to its call of `rt_schedule`: the object of a thread that was created is
left to the idle thread, in `rt_thread_defunct`. -/
def rtThreadExit (c : LinkedKernel T M A) (t : T) : Option (LinkedKernel T M A) :=
  (c.rtScheduleRemoveThread t).map fun c =>
    let c := (c.setStat t .close).setSched t { c.sched t with yield := false }
    let c := c.onTimers fun k => k.rtTimerDetach (.thread t)
    if (c.sched t).systemobject then
      c
    else
      { c with list := rtListInsertAfter c.list (head threadDefunct) (cell t) }

/-- One turn of the loop of `rt_thread_idle_excute`, with the thread whose object it deletes. -/
def rtThreadIdleExcute (c : LinkedKernel T M A) : Option (Option T × LinkedKernel T M A) :=
  if (c.list (head threadDefunct)).next = head threadDefunct then
    some (none, c)
  else
    match (c.list (head threadDefunct)).next with
    | cell t => some (some t, { c with list := rtListRemove c.list (cell t) })
    | head _ => none

/-- `rt_thread_sleep` up to its call of `rt_schedule`. -/
def rtThreadSleep (c : LinkedKernel T M A) (t : T) (tick : Nat) : Option (LinkedKernel T M A) :=
  (c.rtThreadSuspend t).bind fun c =>
    ((c.objects.rtTimerSetTime (.thread t) tick).rtTimerStart (.thread t)).map fun k =>
      { c with objects := k }

/-- `rt_thread_timeout` up to its call of `rt_schedule`. -/
def rtThreadTimeout (c : LinkedKernel T M A) (t : T) : Option (LinkedKernel T M A) :=
  if (c.objects.thread t).stat = .suspend then
    let c := c.setThread t { c.objects.thread t with error := .etimeout }
    ({ c with list := rtListRemove c.list (cell t) }).rtScheduleInsertThread t
  else
    none

/-- `rt_thread_control` with `RT_THREAD_CTRL_CHANGE_PRIORITY`; the shift of `1` by a priority that
is not one is not defined. -/
def rtThreadChangePriority (c : LinkedKernel T M A) (t : T) (priority : Nat) :
    Option (LinkedKernel T M A) :=
  if priority < rtThreadPriorityMax then
    if (c.objects.thread t).stat = .ready then
      (c.rtScheduleRemoveThread t).bind fun c =>
        (c.setPriority t priority).rtScheduleInsertThread t
    else
      some (c.setPriority t priority)
  else
    none

/-! ## Mutexes -/

/-- `rt_ipc_list_suspend` with `RT_IPC_FLAG_FIFO`. -/
def rtIpcListSuspend (c : LinkedKernel T M A) (m : M) (t : T) : Option (LinkedKernel T M A) :=
  (c.rtThreadSuspend t).map fun c =>
    { c with list := rtListInsertBefore c.list (head (suspendThread m)) (cell t) }

/-- Priority inheritance in `rt_mutex_take`. -/
def inheritPriority (c : LinkedKernel T M A) (m : M) (t : T) : Option (LinkedKernel T M A) :=
  (c.mutex m).owner.bind fun o =>
    if (c.objects.thread t).currentPriority < (c.objects.thread o).currentPriority then
      c.rtThreadChangePriority o (c.objects.thread t).currentPriority
    else
      some c

/-- `rt_mutex_take` called by `t` with `RT_WAITING_FOREVER`, up to its call of `rt_schedule`. -/
def rtMutexTake (c : LinkedKernel T M A) (t : T) (m : M) :
    Option (LinkedKernel T M A × TakeResult) :=
  let c := c.setThread t { c.objects.thread t with error := .eok }
  let mx := c.mutex m
  if mx.owner = some t then
    if mx.hold < rtMutexHoldMax then
      some (c.setMutex m { mx with hold := mx.hold + 1 }, .taken)
    else
      some (c, .full)
  else if 0 < mx.value then
    let mx := { mx with
      value := mx.value - 1
      owner := some t
      originalPriority := (c.objects.thread t).currentPriority }
    if mx.hold < rtMutexHoldMax then
      some (c.setMutex m { mx with hold := mx.hold + 1 }, .taken)
    else
      some (c.setMutex m mx, .full)
  else
    ((c.inheritPriority m t).bind fun c => c.rtIpcListSuspend m t).map fun c => (c, .blocked)

/-- The owner gets back the priority recorded when it took the mutex. -/
def restorePriority (c : LinkedKernel T M A) (t : T) (m : M) : Option (LinkedKernel T M A) :=
  if (c.mutex m).originalPriority ≠ (c.objects.thread t).currentPriority then
    c.rtThreadChangePriority t (c.mutex m).originalPriority
  else
    some c

/-- The mutex goes to the first thread of its list, or becomes free. -/
def wakeFirst (c : LinkedKernel T M A) (m : M) : Option (LinkedKernel T M A) :=
  let mx := c.mutex m
  if rtListIsempty c.list (head (suspendThread m)) then
    if mx.value < rtMutexValueMax then
      some (c.setMutex m { mx with value := mx.value + 1, owner := none, originalPriority := 0xff })
    else
      some c
  else
    match (c.list (head (suspendThread m))).next with
    | cell x =>
      let mx := { mx with
        owner := some x
        originalPriority := (c.objects.thread x).currentPriority }
      if mx.hold < rtMutexHoldMax then
        (c.setMutex m { mx with hold := mx.hold + 1 }).rtThreadResume x
      else
        some (c.setMutex m mx)
    | head _ => none

/-- `rt_mutex_release` called by `t`. -/
def rtMutexRelease (c : LinkedKernel T M A) (t : T) (m : M) : Option (LinkedKernel T M A) :=
  let mx := c.mutex m
  if mx.owner = some t then
    -- mutex->hold--, an 8-bit counter
    let hold := (mx.hold + 255) % 256
    let c := c.setMutex m { mx with hold := hold }
    if hold = 0 then
      (c.restorePriority t m).bind fun c => c.wakeFirst m
    else
      some c
  else
    some (c.setThread t { c.objects.thread t with error := .error })

/-- The next action of the thread `t`, which runs. -/
def actStep (c : LinkedKernel T M A) (t : T) : Pc M → Option (Pc M × LinkedKernel T M A)
  | .run [] => none
  | .run (.take m :: todo) =>
    (c.rtMutexTake t m).map fun
      | (c, .blocked) => (.inTake m todo, c)
      | (c, _) => (.run todo, c)
  | .run (.release m :: todo) => (c.rtMutexRelease t m).map fun c => (.run todo, c)
  | .run (.delay tick :: todo) => (c.rtThreadSleep t tick).map fun c => (.inSleep todo, c)
  | .inTake _ todo => some (.run todo, c)
  | .inSleep todo =>
    -- if (thread->error == -RT_ETIMEOUT) thread->error = RT_EOK;
    if (c.objects.thread t).error = .etimeout then
      some (.run todo, c.setThread t { c.objects.thread t with error := .eok })
    else
      some (.run todo, c)

end LinkedKernel

/-! ## The machine -/

/-- What happens to the kernel: one of the calls of `Call` other than `schedule` and `tick`, whose
places are taken by `rt_schedule` itself and by the tick interrupt; a thread yields; the idle
thread deletes an object. -/
inductive KernelEvent (T M A : Type)
  | call (e : Call T M A)
  | schedule
  | yield
  | tickIncrease
  | idleExcute
  deriving DecidableEq, Repr

/-- The kernel and the place of every thread in its program. -/
structure LinkedThreads (T M A : Type) where
  c : LinkedKernel T M A
  pc : T → Pc M

namespace LinkedThreads

variable {T M A : Type} [DecidableEq T] [DecidableEq M] [DecidableEq A]

/-- One of the calls, as `Threads.call` makes it. -/
def call (x : LinkedThreads T M A) : Call T M A → Option (LinkedThreads T M A)
  | .act t =>
    if x.c.objects.current = t ∧ (x.c.objects.thread t).stat = .running then
      (x.c.actStep t (x.pc t)).map fun r => ⟨r.2, Function.update x.pc t r.1⟩
    else
      none
  | .load t prog =>
    if x.pc t = .run [] ∧ Nested [] prog then
      some { x with pc := Function.update x.pc t (.run prog) }
    else
      none
  | .resume t => (x.c.rtThreadResume t).map fun c => { x with c := c }
  | .suspend t => (x.c.rtThreadSuspend t).map fun c => { x with c := c }
  | .startup t => (x.c.rtThreadStartup t).map fun c => { x with c := c }
  | .exit t =>
    if x.c.objects.current = t ∧ (x.c.objects.thread t).stat = .running then
      (x.c.rtThreadExit t).map fun c => { x with c := c }
    else
      none
  | .control t priority => (x.c.rtThreadChangePriority t priority).map fun c => { x with c := c }
  | .timeout t =>
    if x.c.objects.timerList.contains (.thread t) then
      ((x.c.onTimers fun k => k.rtTimerTakeOff (.thread t)).rtThreadTimeout t).map fun c =>
        { x with c := c }
    else
      none
  | .schedule _ => none
  | .tick => none
  | .timerStart a =>
    (x.c.objects.rtTimerStart (.app a)).map fun k => { x with c := { x.c with objects := k } }
  | .timerStop a => some { x with c := x.c.onTimers fun k => k.rtTimerStop (.app a) }
  | .timerSetTime a time =>
    some { x with c := x.c.onTimers fun k => k.rtTimerSetTime (.app a) time }
  | .timerTakeOff a => some { x with c := x.c.onTimers fun k => k.rtTimerTakeOff (.app a) }
  | .timerRearm a =>
    (x.c.objects.rtTimerRearm (.app a)).map fun k => { x with c := { x.c with objects := k } }

/-- One step of the kernel. A thread yields when it runs. -/
def step (x : LinkedThreads T M A) : KernelEvent T M A → Option (LinkedThreads T M A)
  | .call e => x.call e
  | .schedule => x.c.rtSchedule.map fun c => { x with c := c }
  | .yield =>
    if (x.c.objects.thread x.c.objects.current).stat = .running then
      x.c.rtThreadYield.map fun c => { x with c := c }
    else
      none
  | .tickIncrease => x.c.rtTickIncrease.map fun c => { x with c := c }
  | .idleExcute => x.c.rtThreadIdleExcute.map fun r => { x with c := r.2 }

end LinkedThreads

end OsesProject
