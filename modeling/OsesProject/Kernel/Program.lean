import OsesProject.Kernel.Mutex

/-!
# Threads as programs of kernel calls

What a thread of the application does with the kernel between two interrupts is a list of
actions: it takes and releases mutexes and it sleeps. `Pc` is the place a thread has reached in
such a program. The two calls that can suspend the thread, `rt_mutex_take` and `rt_thread_sleep`,
have a place of their own inside them, behind their call of `rt_schedule`: the thread goes on from
there as soon as it runs again, whoever has made it ready.

`stackOf` reads off the rest of a program which mutexes it still has to release, and `Nested` says
that a program takes and releases its mutexes like brackets. `Pc.inside` are the mutexes the
thread is between the return of its take and its release of.

`Call` are the ways the kernel's objects change, a thread's next action among them, and
`Kernel.call` makes one. The application's steps are runs of these calls, and the laws of mutexes
and priorities are proved call by call.
-/

namespace OsesProject

/-- An action of a thread. -/
inductive Act (M : Type)
  | take (m : M)
  | release (m : M)
  | delay (tick : Nat)
  deriving DecidableEq, Repr

/-- The place a thread has reached in its program. -/
inductive Pc (M : Type)
  | run (todo : List (Act M))
  | inTake (m : M) (todo : List (Act M))
  | inSleep (todo : List (Act M))
  deriving DecidableEq, Repr

variable {T M A : Type}

/-- The mutexes a program has to release that it does not take itself, the innermost first. -/
def stackOf : List (Act M) → List M
  | [] => []
  | .take _ :: todo => (stackOf todo).tail
  | .release m :: todo => m :: stackOf todo
  | .delay _ :: todo => stackOf todo

/-- A program started inside the mutexes `stk`, the innermost first, takes and releases like
brackets, takes no mutex twice, ends outside all of them, and never sleeps for no time. -/
def Nested : List M → List (Act M) → Prop
  | stk, [] => stk = []
  | stk, .take m :: todo => m ∉ stk ∧ Nested (m :: stk) todo
  | stk, .release m :: todo => stk.head? = some m ∧ Nested stk.tail todo
  | stk, .delay tick :: todo => 0 < tick ∧ Nested stk todo

instance Nested.decidable [DecidableEq M] (stk : List M) (todo : List (Act M)) :
    Decidable (Nested stk todo) :=
  match todo with
  | [] => inferInstanceAs (Decidable (stk = []))
  | .take m :: todo =>
    have := Nested.decidable (m :: stk) todo
    inferInstanceAs (Decidable (m ∉ stk ∧ Nested (m :: stk) todo))
  | .release m :: todo =>
    have := Nested.decidable stk.tail todo
    inferInstanceAs (Decidable (stk.head? = some m ∧ Nested stk.tail todo))
  | .delay tick :: todo =>
    have := Nested.decidable stk todo
    inferInstanceAs (Decidable (0 < tick ∧ Nested stk todo))

namespace Pc

/-- What is left of the program. -/
def todo : Pc M → List (Act M)
  | .run todo => todo
  | .inTake _ todo => todo
  | .inSleep todo => todo

/-- The mutexes the thread has asked for and not released. -/
def stack (p : Pc M) : List M := stackOf p.todo

/-- The mutexes the thread is between the return of its take and its release of. -/
def inside : Pc M → List M
  | .run todo => stackOf todo
  | .inTake _ todo => (stackOf todo).tail
  | .inSleep todo => stackOf todo

end Pc

namespace Kernel

variable [DecidableEq T] [DecidableEq M] [DecidableEq A]

/-- The next action of the thread `t`, which runs. The application does not look at what
`rt_mutex_take` returns; the bus drivers do, and `-RT_EFULL` is the only answer on which they would
go another way. -/
def actStep (k : Kernel T M A) (t : T) : Pc M → Option (Pc M × Kernel T M A)
  | .run [] => none
  | .run (.take m :: todo) =>
    match k.rtMutexTake t m with
    | (k', .blocked) => some (.inTake m todo, k')
    | (k', _) => some (.run todo, k')
  | .run (.release m :: todo) => some (.run todo, k.rtMutexRelease t m)
  | .run (.delay tick :: todo) => (k.rtThreadSleep t tick).map fun k' => (.inSleep todo, k')
  | .inTake _ todo => some (.run todo, k)
  | .inSleep todo =>
    -- if (thread->error == -RT_ETIMEOUT) thread->error = RT_EOK;
    let k' := if (k.thread t).error = .etimeout then
        k.setThread t { k.thread t with error := .eok }
      else
        k
    some (.run todo, k')

end Kernel

/-- The ways the kernel's objects change: a thread takes its next action or begins a new program,
a thread is resumed, suspended, started, ended or given a priority, a thread's timer expires, the
scheduler switches, the tick counter moves on, and the application's timers are operated. -/
inductive Call (T M A : Type)
  | act (t : T)
  | load (t : T) (prog : List (Act M))
  | resume (t : T)
  | suspend (t : T)
  | startup (t : T)
  | exit (t : T)
  | control (t : T) (priority : Nat)
  | timeout (t : T)
  | schedule (t : T)
  | tick
  | timerStart (a : A)
  | timerStop (a : A)
  | timerSetTime (a : A) (time : Nat)
  | timerTakeOff (a : A)
  | timerRearm (a : A)
  deriving DecidableEq, Repr

/-- The kernel's objects and the place of every thread. -/
structure Threads (T M A : Type) where
  k : Kernel T M A
  pc : T → Pc M

namespace Threads

variable [DecidableEq T] [DecidableEq M] [DecidableEq A]

/-- One call. A thread acts and ends only when it runs, and begins a program only when it has
finished the one before; a thread's timer expires when it is on the list. -/
def call (x : Threads T M A) : Call T M A → Option (Threads T M A)
  | .act t =>
    if x.k.current = t ∧ (x.k.thread t).stat = .running then
      (x.k.actStep t (x.pc t)).map fun r => ⟨r.2, Function.update x.pc t r.1⟩
    else
      none
  | .load t prog =>
    if x.pc t = .run [] ∧ Nested [] prog then
      some { x with pc := Function.update x.pc t (.run prog) }
    else
      none
  | .resume t => some { x with k := x.k.rtThreadResume t }
  | .suspend t => some { x with k := x.k.rtThreadSuspend t }
  | .startup t => (x.k.rtThreadStartup t).map fun k => { x with k := k }
  | .exit t =>
    if x.k.current = t ∧ (x.k.thread t).stat = .running then
      some { x with k := x.k.rtThreadExit t }
    else
      none
  | .control t priority => some { x with k := x.k.rtThreadChangePriority t priority }
  | .timeout t =>
    if .thread t ∈ x.k.timerList then
      ((x.k.rtTimerTakeOff (.thread t)).rtThreadTimeout t).map fun k => { x with k := k }
    else
      none
  | .schedule t => (x.k.rtScheduleTo t).map fun k => { x with k := k }
  | .tick => some { x with k := { x.k with tick := (x.k.tick + 1) % 2 ^ 32 } }
  | .timerStart a => (x.k.rtTimerStart (.app a)).map fun k => { x with k := k }
  | .timerStop a => some { x with k := x.k.rtTimerStop (.app a) }
  | .timerSetTime a time => some { x with k := x.k.rtTimerSetTime (.app a) time }
  | .timerTakeOff a => some { x with k := x.k.rtTimerTakeOff (.app a) }
  | .timerRearm a => (x.k.rtTimerRearm (.app a)).map fun k => { x with k := k }

end Threads

/-! ## Bracketed programs -/

/-- The rest of a bracketed program releases exactly the mutexes it is inside. -/
theorem Nested.stackOf_eq {stk : List M} {todo : List (Act M)} (h : Nested stk todo) :
    stackOf todo = stk := by
  induction todo generalizing stk with
  | nil => exact h.symm
  | cons a todo ih =>
    cases a with
    | take m =>
      rw [stackOf, ih h.2]
      rfl
    | release m =>
      rw [stackOf, ih h.2]
      cases stk with
      | nil => cases h.1
      | cons n stk =>
        cases h.1
        rfl
    | delay tick => exact ih h.2

/-- A program inside a mutex releases it. -/
theorem mem_stackOf {m : M} {todo : List (Act M)} (h : m ∈ stackOf todo) : .release m ∈ todo := by
  induction todo with
  | nil => cases h
  | cons a todo ih =>
    cases a with
    | take n => exact List.mem_cons_of_mem _ (ih (List.mem_of_mem_tail h))
    | release n =>
      rcases List.mem_cons.mp h with rfl | h
      · exact List.mem_cons_self
      · exact List.mem_cons_of_mem _ (ih h)
    | delay tick => exact List.mem_cons_of_mem _ (ih h)

/-- An action leaves the rest of the program. -/
theorem Kernel.actStep_todo [DecidableEq T] [DecidableEq M] [DecidableEq A] {k k' : Kernel T M A}
    {t : T} {p p' : Pc M} (h : k.actStep t p = some (p', k')) : p'.todo <:+ p.todo := by
  cases p with
  | run todo =>
    cases todo with
    | nil => cases h
    | cons a todo =>
      cases a with
      | take m =>
        simp only [Kernel.actStep] at h
        split at h <;> cases h <;> exact List.suffix_cons _ _
      | release m =>
        cases h
        exact List.suffix_cons _ _
      | delay tick =>
        simp only [Kernel.actStep, Option.map_eq_some_iff] at h
        obtain ⟨k'', -, he⟩ := h
        cases he
        exact List.suffix_cons _ _
  | inTake m todo =>
    cases h
    exact List.suffix_rfl
  | inSleep todo =>
    cases h
    exact List.suffix_rfl

end OsesProject
