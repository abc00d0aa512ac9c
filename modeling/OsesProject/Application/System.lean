import OsesProject.Lib.Run
import OsesProject.Application.Deferrable

/-!
# The system as a machine

`step` is one event of the running board: a button interrupt, a statement of the thread that runs,
a context switch, or a piece of the tick interrupt. Interrupts come between any two statements, and
a context switch may come wherever the kernel could make one; what the scheduler would really
choose is `Scheduled`, a condition on the event `switch` that a law states where it needs it.

The tick interrupt moves the tick counter on (`tick`) and then goes through the timers that are due,
one at a time (`expire`), until none is (`checked`). Two further events run the server's callbacks
at a time of their own (`period`, `capacity`), for the laws that quantify over every order of them;
and `insert` is an insertion of any task at all. On the board the callbacks run only as time-out
functions, and tasks are inserted by the buttons only: `Event.OnBoard`.

`calls` gives the kernel calls of each event, and `step_calls` says that a step is a run of them.
-/

set_option linter.unusedSectionVars false

namespace OsesProject

/-- The events. -/
inductive Event (τ : Type)
  /-- the interrupt of a button -/
  | press (b : Button)
  /-- a call of `rt_thread_deferrable_insert_task` -/
  | insert (a : τ)
  /-- the next statement of the thread that runs -/
  | thread (t : Tid) (choice : Nat)
  /-- `rt_schedule` switches to a thread -/
  | switch (t : Tid)
  /-- the tick interrupt -/
  | tick
  /-- `rt_timer_check` finds a timer due and calls its function -/
  | expire
  /-- `rt_timer_check` finds no timer due -/
  | checked
  /-- a call of `rt_timer_deferrable_period` -/
  | period
  /-- a call of `rt_timer_deferrable_capacity` -/
  | capacity
  deriving DecidableEq, Repr

/-- The events of the board: no insertion but by a button, and no callback but by its timer. -/
def Event.OnBoard {τ : Type} : Event τ → Prop
  | .insert _ => False
  | .period => False
  | .capacity => False
  | _ => True

instance {τ : Type} (e : Event τ) : Decidable e.OnBoard :=
  match e with
  | .insert _ | .period | .capacity => .isFalse id
  | .press _ | .thread _ _ | .switch _ | .tick | .expire | .checked => .isTrue trivial

variable {τ : Type} [DecidableEq τ]

namespace State

/-- The button handlers: the task inserted is the one of the button's present direction, which is
then inverted. -/
def buttonAsyncHandler (cfg : Config τ) (s : State τ) (b : Button) : State τ :=
  { s.rtThreadDeferrableInsertTask (cfg.task b (s.RWn b)) with
    RWn := Function.update s.RWn b (!s.RWn b) }

/-- One statement of `main`, from the start of the server on. -/
def mainStep (s : State τ) : Option (State τ) :=
  match s.mainPc with
  | .startup =>
    (s.k.rtThreadStartup .server).map fun k => { s with k := k, mainPc := .suspendServer }
  | .suspendServer =>
    some { s with k := s.k.rtThreadSuspend .server, mainPc := .startProducer }
  | .startProducer =>
    (s.k.rtThreadStartup .producer).map fun k => { s with k := k, mainPc := .startConsumer }
  | .startConsumer =>
    (s.k.rtThreadStartup .consumer).map fun k => { s with k := k, mainPc := .exit }
  | .exit => some { s with k := s.k.rtThreadExit .main, mainPc := .done }
  | .done => none

/-- A statement of `main` changes the kernel's objects and `main`'s place only. -/
theorem mainStep_eq {s s' : State τ} (h : s.mainStep = some s') :
    ∃ k mainPc, s' = { s with k := k, mainPc := mainPc } := by
  unfold mainStep at h
  cases hpc : s.mainPc with
  | startup | startProducer | startConsumer =>
    simp only [hpc] at h
    obtain ⟨k, -, rfl⟩ := Option.map_eq_some_iff.mp h
    exact ⟨_, _, rfl⟩
  | suspendServer | exit =>
    simp only [hpc] at h
    cases h
    exact ⟨_, _, rfl⟩
  | done => simp [hpc] at h

/-- One kernel call of the producer or the consumer, or the beginning of a new round of its
loop. -/
def roundStep (cfg : Config τ) (t : Tid) (s : State τ) : Option (State τ) :=
  if s.pc t = .run [] then
    some { s with
      pc := Function.update s.pc t (.run (cfg.round t (s.rounds t)))
      rounds := Function.update s.rounds t (s.rounds t + 1) }
  else
    (s.k.actStep t (s.pc t)).map fun r => { s with k := r.2, pc := Function.update s.pc t r.1 }

/-- One statement of the thread `t`, when it is the one that runs. -/
def threadStep (cfg : Config τ) (choice : Nat) (s : State τ) (t : Tid) : Option (State τ) :=
  if t = .server then
    s.rtThreadDeferrableEntry cfg choice
  else if s.k.current = t ∧ (s.k.thread t).stat = .running then
    match t with
    | .main => s.mainStep
    | .idle => none
    | t => s.roundStep cfg t
  else
    none

/-- The tick belongs to the server: it executes a task at a priority more urgent than
`RT_THREAD_PRIORITY_MAX - 1`. -/
def Charged (s : State τ) : Prop :=
  s.k.current = .server ∧ (∃ n, s.serverPc = .task n) ∧
    (s.k.thread .server).currentPriority < rtThreadPriorityMax - 1

instance (s : State τ) : Decidable (∃ n, s.serverPc = .task n) :=
  match h : s.serverPc with
  | .task n => .isTrue ⟨n, rfl⟩
  | .entry | .loop | .start | .setActive | .fetch | .call _ | .remove _ | .test | .stop
  | .suspend | .clear | .sched => .isFalse (by simp)

instance (s : State τ) : Decidable s.Charged := by
  unfold Charged
  infer_instance

/-- `rt_tick_increase` up to its call of `rt_timer_check`. -/
def rtTickIncrease (s : State τ) : State τ :=
  { s with
    k := { s.k with tick := (s.k.tick + 1) % 2 ^ 32 }
    used := if s.Charged then s.used + 1 else s.used
    inCheck := true }

/-- One round of the loop of `rt_timer_check`, when a timer is due. A thread's timer is one-shot
and is not started again. -/
def rtTimerCheck (cfg : Config τ) (s : State τ) : Option (State τ) :=
  match s.k.rtTimerExpired with
  | none => none
  | some (.thread t) =>
    ((s.k.rtTimerTakeOff (.thread t)).rtThreadTimeout t).map fun k => { s with k := k }
  | some (.app a) =>
    let s := { s with k := s.k.rtTimerTakeOff (.app a) }
    let s := match a with
      | .capacity => s.rtTimerDeferrableCapacity cfg.memory
      | .server => s.rtTimerDeferrablePeriod cfg.memory
    (s.k.rtTimerRearm (.app a)).map fun k => { s with k := k }

end State

/-- One event. Inside `rt_timer_check`, which runs at the highest interrupt priority, nothing else
happens but the context switches its callbacks ask for. -/
def step (cfg : Config τ) (s : State τ) : Event τ → Option (State τ)
  | .press b => if s.inCheck then none else some (s.buttonAsyncHandler cfg b)
  | .insert a => if s.inCheck then none else some (s.rtThreadDeferrableInsertTask a)
  | .thread t choice => if s.inCheck then none else s.threadStep cfg choice t
  | .switch t => (s.k.rtScheduleTo t).map fun k => { s with k := k }
  | .tick => if s.inCheck then none else some s.rtTickIncrease
  | .expire => if s.inCheck then s.rtTimerCheck cfg else none
  | .checked =>
    if s.inCheck ∧ s.k.rtTimerExpired = none then some { s with inCheck := false } else none
  | .period => some (s.rtTimerDeferrablePeriod cfg.memory)
  | .capacity => some (s.rtTimerDeferrableCapacity cfg.memory)

/-- The scheduler's choice: a switch goes to a thread that `rt_schedule` would pick. -/
def Scheduled (s : State τ) : Event τ → Prop
  | .switch t => s.k.RtSchedulePicks t
  | _ => True

instance (k : Kernel Tid Lock AppTimer) (t : Tid) : Decidable (k.RtSchedulePicks t) := by
  unfold Kernel.RtSchedulePicks
  infer_instance

instance (s : State τ) (e : Event τ) : Decidable (Scheduled s e) :=
  match e with
  | .switch t => inferInstanceAs (Decidable (s.k.RtSchedulePicks t))
  | .press _ | .insert _ | .thread _ _ | .tick | .expire | .checked | .period | .capacity =>
    .isTrue trivial

/-- What an event does, one case for each way it can go: the inversion of `step`. -/
inductive Step (cfg : Config τ) (s : State τ) : Event τ → State τ → Prop
  | press (b : Button) (hc : s.inCheck = false) : Step cfg s (.press b) (s.buttonAsyncHandler cfg b)
  | insert (a : τ) (hc : s.inCheck = false) :
      Step cfg s (.insert a) (s.rtThreadDeferrableInsertTask a)
  | server (choice : Nat) {s' : State τ} (hc : s.inCheck = false) (hcur : s.k.current = .server)
      (hrun : (s.k.thread .server).stat = .running ∨ s.serverPc = .clear)
      (h : s.ServerStep cfg choice s') : Step cfg s (.thread .server choice) s'
  | main (choice : Nat) {k : Kernel Tid Lock AppTimer} {mainPc : MainPc} (hc : s.inCheck = false)
      (hcur : s.k.current = .main) (hrun : (s.k.thread .main).stat = .running)
      (h : s.mainStep = some { s with k := k, mainPc := mainPc }) :
      Step cfg s (.thread .main choice) { s with k := k, mainPc := mainPc }
  | load (t : Tid) (choice : Nat) (ht : t = .producer ∨ t = .consumer) (hc : s.inCheck = false)
      (hcur : s.k.current = t) (hrun : (s.k.thread t).stat = .running) (hpc : s.pc t = .run []) :
      Step cfg s (.thread t choice) { s with
        pc := Function.update s.pc t (.run (cfg.round t (s.rounds t)))
        rounds := Function.update s.rounds t (s.rounds t + 1) }
  | act (t : Tid) (choice : Nat) (ht : t = .producer ∨ t = .consumer) {p : Pc Lock}
      {k : Kernel Tid Lock AppTimer} (hc : s.inCheck = false) (hcur : s.k.current = t)
      (hrun : (s.k.thread t).stat = .running) (hpc : s.pc t ≠ .run [])
      (hk : s.k.actStep t (s.pc t) = some (p, k)) :
      Step cfg s (.thread t choice) { s with k := k, pc := Function.update s.pc t p }
  | switch (t : Tid) {k : Kernel Tid Lock AppTimer} (hk : s.k.rtScheduleTo t = some k) :
      Step cfg s (.switch t) { s with k := k }
  | tick (hc : s.inCheck = false) : Step cfg s .tick s.rtTickIncrease
  | timeout (t : Tid) {k : Kernel Tid Lock AppTimer} (hc : s.inCheck = true)
      (he : s.k.rtTimerExpired = some (.thread t))
      (hk : (s.k.rtTimerTakeOff (.thread t)).rtThreadTimeout t = some k) :
      Step cfg s .expire { s with k := k }
  | capacityExpired {k : Kernel Tid Lock AppTimer} (hc : s.inCheck = true)
      (he : s.k.rtTimerExpired = some (.app .capacity))
      (hk : ({ s with k := s.k.rtTimerTakeOff (.app .capacity) }.rtTimerDeferrableCapacity
        cfg.memory).k.rtTimerRearm (.app .capacity) = some k) :
      Step cfg s .expire { s.rtTimerDeferrableCapacity cfg.memory with k := k }
  | serverExpired {k : Kernel Tid Lock AppTimer} (hc : s.inCheck = true)
      (he : s.k.rtTimerExpired = some (.app .server))
      (hk : ({ s with k := s.k.rtTimerTakeOff (.app .server) }.rtTimerDeferrablePeriod
        cfg.memory).k.rtTimerRearm (.app .server) = some k) :
      Step cfg s .expire { s.rtTimerDeferrablePeriod cfg.memory with k := k }
  | checked (hc : s.inCheck = true) (he : s.k.rtTimerExpired = none) :
      Step cfg s .checked { s with inCheck := false }
  | period : Step cfg s .period (s.rtTimerDeferrablePeriod cfg.memory)
  | capacity : Step cfg s .capacity (s.rtTimerDeferrableCapacity cfg.memory)

/-- Every step is one of these. -/
theorem step_cases {cfg : Config τ} {s s' : State τ} {e : Event τ} (h : step cfg s e = some s') :
    Step cfg s e s' := by
  cases e with
  | press b =>
    simp only [step] at h
    split at h
    · cases h
    · next hc =>
      cases h
      exact .press b (by simpa using hc)
  | insert a =>
    simp only [step] at h
    split at h
    · cases h
    · next hc =>
      cases h
      exact .insert a (by simpa using hc)
  | thread t choice =>
    simp only [step] at h
    split at h
    · cases h
    · next hc =>
      simp only [Bool.not_eq_true] at hc
      have hround : ∀ {t}, t = .producer ∨ t = .consumer →
          s.k.current = t ∧ (s.k.thread t).stat = .running → s.roundStep cfg t = some s' →
          Step cfg s (.thread t choice) s' := by
        intro t ht hg h
        unfold State.roundStep at h
        split at h
        · cases h
          exact .load t choice ht hc hg.1 hg.2 ‹_›
        · obtain ⟨⟨p, k⟩, hk, rfl⟩ := Option.map_eq_some_iff.mp h
          exact .act t choice ht hc hg.1 hg.2 ‹_› hk
      unfold State.threadStep at h
      cases t with
      | server =>
        simp only [if_true] at h
        obtain ⟨hcur, hrun, hstep⟩ := State.serverStep_of_entry h
        exact .server choice hc hcur hrun hstep
      | main =>
        simp only [reduceCtorEq, if_false] at h
        split at h
        · next hg =>
          obtain ⟨k, mainPc, rfl⟩ := State.mainStep_eq h
          exact .main choice hc hg.1 hg.2 h
        · cases h
      | idle =>
        simp only [reduceCtorEq, if_false] at h
        split at h <;> cases h
      | producer =>
        simp only [reduceCtorEq, if_false] at h
        split at h
        · exact hround (.inl rfl) ‹_› h
        · cases h
      | consumer =>
        simp only [reduceCtorEq, if_false] at h
        split at h
        · exact hround (.inr rfl) ‹_› h
        · cases h
  | switch t =>
    obtain ⟨k, hk, rfl⟩ := Option.map_eq_some_iff.mp h
    exact .switch t hk
  | tick =>
    simp only [step] at h
    split at h
    · cases h
    · next hc =>
      cases h
      exact .tick (by simpa using hc)
  | expire =>
    simp only [step] at h
    split at h
    · unfold State.rtTimerCheck at h
      split at h
      · cases h
      · next t he =>
        obtain ⟨k, hk, rfl⟩ := Option.map_eq_some_iff.mp h
        exact .timeout t ‹_› he hk
      · next a he =>
        obtain ⟨k, hk, rfl⟩ := Option.map_eq_some_iff.mp h
        cases a with
        | capacity => exact .capacityExpired ‹_› he hk
        | server => exact .serverExpired ‹_› he hk
    · cases h
  | checked =>
    simp only [step] at h
    split at h
    · next hg =>
      cases h
      exact .checked hg.1 hg.2
    · cases h
  | period =>
    cases h
    exact .period
  | capacity =>
    cases h
    exact .capacity

/-! ## The states a run starts from -/

/-- The state `rt_thread_deferrable_init` is in when its list and timers are initialised, with the
server's thread in the state `stat` and `main` at `mainPc`. The thread that calls it has the
priority `caller`, and `priority` of the server's record is the zero of a static object: no
statement sets it. -/
def initial (cfg : Config τ) (caller tick : Nat) (stat : ThreadStat) (mainPc : MainPc) :
    State τ where
  k :=
    { thread := fun
        | .server => ⟨.eok, stat, cfg.priority, cfg.priority⟩
        | .producer => ⟨.eok, .init, 7, 7⟩
        | .consumer => ⟨.eok, .init, 17, 17⟩
        | .main => ⟨.eok, .running, caller, caller⟩
        | .idle => ⟨.eok, .ready, rtThreadPriorityMax - 1, rtThreadPriorityMax - 1⟩
      current := .main
      mutex := fun _ => ⟨[], 1, 0xff, 0, none⟩
      timer := fun
        | .thread _ => ⟨0, 0, false, false⟩
        | .app .capacity => ⟨cfg.capacity, 0, false, false⟩
        | .app .server => ⟨cfg.period, 0, false, true⟩
      timerList := []
      tick := tick }
  pc := fun _ => .run []
  rounds := fun _ => 0
  mainPc := mainPc
  serverPc := .entry
  inCheck := false
  heap := rtListInit (fun _ => ⟨.null, .null⟩) .asyncTask
  active := false
  priority := 0
  capacity := cfg.capacity
  capacityLeft := cfg.capacity
  RWn := fun _ => false
  inserted := []
  ran := []
  removed := 0
  used := 0
  demoted := false

/-- `rt_thread_deferrable_init` before it starts the server's thread. -/
def beforeStartup (cfg : Config τ) (caller tick : Nat) : State τ :=
  initial cfg caller tick .init .startup

/-- `rt_thread_deferrable_init` has returned: the server's thread is suspended, and `main` goes on
to start the producer and the consumer. -/
def afterInit (cfg : Config τ) (caller tick : Nat) : State τ :=
  initial cfg caller tick .suspend .startProducer

/-! ## A step is a run of kernel calls -/

/-- The calls of `rt_timer_deferrable_period`. -/
def periodCalls (s : State τ) : List (Call Tid Lock AppTimer) :=
  (if s.isempty then [.resume .server] else []) ++
    [.control .server s.priority, .timerSetTime .capacity s.capacity]

/-- The calls of `rt_timer_deferrable_capacity`. -/
def capacityCalls (cfg : Config τ) : List (Call Tid Lock AppTimer) :=
  [.control .server (cfg.memory (rtThreadPriorityMax - 1)).toNat]

/-- The calls of a statement of the server. -/
def serverCalls (cfg : Config τ) (choice : Nat) (s : State τ) : List (Call Tid Lock AppTimer) :=
  match s.serverPc with
  | .start => [.timerStart .capacity]
  | .call (.tlist a) => [.load .server (cfg.body a choice)]
  | .task _ => if s.pc .server = .run [] then [] else [.act .server]
  | .stop => [.timerStop .capacity]
  | .suspend => [.suspend .server]
  | _ => []

/-- The calls of a statement of `main`. -/
def mainCalls (s : State τ) : List (Call Tid Lock AppTimer) :=
  match s.mainPc with
  | .startup => [.startup .server]
  | .suspendServer => [.suspend .server]
  | .startProducer => [.startup .producer]
  | .startConsumer => [.startup .consumer]
  | .exit => [.exit .main]
  | .done => []

/-- The calls of an event. -/
def calls (cfg : Config τ) (s : State τ) : Event τ → List (Call Tid Lock AppTimer)
  | .press _ | .insert _ => if s.isempty then [.resume .server] else []
  | .thread t choice =>
    match t with
    | .server => serverCalls cfg choice s
    | .main => mainCalls s
    | t => if s.pc t = .run [] then [.load t (cfg.round t (s.rounds t))] else [.act t]
  | .switch t => [.schedule t]
  | .tick => [.tick]
  | .expire =>
    match s.k.rtTimerExpired with
    | none => []
    | some (.thread t) => [.timeout t]
    | some (.app .capacity) =>
      .timerTakeOff .capacity :: capacityCalls cfg ++ [.timerRearm .capacity]
    | some (.app .server) => .timerTakeOff .server :: periodCalls s ++ [.timerRearm .server]
  | .checked => []
  | .period => periodCalls s
  | .capacity => capacityCalls cfg

open Machine

private theorem period_calls (cfg : Config τ) (s : State τ) :
    run Threads.call s.threads (periodCalls s) =
      some (s.rtTimerDeferrablePeriod cfg.memory).threads := by
  unfold periodCalls State.rtTimerDeferrablePeriod
  have : ({ s with capacityLeft := s.capacity, used := 0, demoted := false } : State τ).isempty =
      s.isempty := rfl
  cases hs : s.isempty with
  | true => simp only [this, hs]; rfl
  | false => simp only [this, hs]; rfl

private theorem capacity_calls (cfg : Config τ) (s : State τ) :
    run Threads.call s.threads (capacityCalls cfg) =
      some (s.rtTimerDeferrableCapacity cfg.memory).threads := rfl

private theorem insert_calls (s : State τ) (a : τ) :
    run Threads.call s.threads (if s.isempty then [.resume .server] else []) =
      some (s.rtThreadDeferrableInsertTask a).threads := by
  unfold State.rtThreadDeferrableInsertTask
  cases s.isempty <;> rfl

private theorem server_calls {cfg : Config τ} {choice : Nat} {s s' : State τ}
    (hcur : s.k.current = .server)
    (hrun : (s.k.thread .server).stat = .running ∨ s.serverPc = .clear)
    (hstep : s.ServerStep cfg choice s') :
    run Threads.call s.threads (serverCalls cfg choice s) = some s'.threads := by
  unfold serverCalls
  cases hstep with
  | start hs hk => simp [hs, run_cons, Threads.call, State.threads, hk]
  | call a hs hpc =>
    simp [hs, run_cons, Threads.call, State.threads, hpc, cfg.body_nested a choice]
  | act n hs hpc hk =>
    have hrun := hrun.resolve_right (by simp [hs])
    simp [hs, run_cons, Threads.call, State.threads, hpc, hcur, hrun, hk]
  | ret n hs hpc => simp [hs, hpc, State.threads]
  | stop hs => simp [hs, run_cons, Threads.call, State.threads]
  | suspend hs => simp [hs, run_cons, Threads.call, State.threads]
  | entry hs | loop hs | setActive hs | fetch hs | remove n hs | test hs | clear hs | sched hs =>
    simp [hs, State.threads]

private theorem main_calls {s s' : State τ} (hrun : s.k.current = .main ∧
    (s.k.thread .main).stat = .running) (h : s.mainStep = some s') :
    run Threads.call s.threads (mainCalls s) = some s'.threads := by
  unfold State.mainStep at h
  unfold mainCalls
  cases hpc : s.mainPc with
  | startup | startProducer | startConsumer =>
    simp only [hpc] at h
    obtain ⟨k, hk, rfl⟩ := Option.map_eq_some_iff.mp h
    simp [run_cons, Threads.call, State.threads, hk]
  | suspendServer =>
    simp only [hpc] at h
    cases h
    rfl
  | exit =>
    simp only [hpc] at h
    cases h
    simp [run_cons, Threads.call, State.threads, hrun]
  | done => simp [hpc] at h

/-- **A step is a run of kernel calls.** -/
theorem step_calls {cfg : Config τ} {s s' : State τ} {e : Event τ} (h : step cfg s e = some s') :
    run Threads.call s.threads (calls cfg s e) = some s'.threads := by
  cases step_cases h with
  | press b => exact insert_calls s (cfg.task b (s.RWn b))
  | insert a => exact insert_calls s a
  | server choice _ hcur hrun hstep => exact server_calls hcur hrun hstep
  | main choice _ hcur hrun hstep => exact main_calls ⟨hcur, hrun⟩ hstep
  | load t choice ht _ _ _ hpc =>
    rcases ht with rfl | rfl <;>
      simp [calls, run_cons, Threads.call, State.threads, hpc, cfg.round_nested]
  | act t choice ht _ hcur hrun hpc hk =>
    rcases ht with rfl | rfl <;>
      simp [calls, run_cons, Threads.call, State.threads, hpc, hcur, hrun, hk]
  | switch t hk => simp [calls, run_cons, Threads.call, State.threads, hk]
  | tick => rfl
  | timeout t _ he hk =>
    simp [calls, he, run_cons, Threads.call, State.threads, Kernel.rtTimerExpired_mem he, hk]
  | capacityExpired _ he hk =>
    let s₁ : State τ := { s with k := s.k.rtTimerTakeOff (.app .capacity) }
    simp only [calls, he]
    show run Threads.call s₁.threads (capacityCalls cfg ++ [.timerRearm .capacity]) = _
    rw [run_append, capacity_calls]
    simp only [s₁, Option.bind_some, run_cons, Threads.call, State.threads, hk]
    rfl
  | serverExpired _ he hk =>
    let s₁ : State τ := { s with k := s.k.rtTimerTakeOff (.app .server) }
    simp only [calls, he]
    show run Threads.call s₁.threads (periodCalls s₁ ++ [.timerRearm .server]) = _
    rw [run_append, period_calls cfg]
    simp only [s₁, Option.bind_some, run_cons, Threads.call, State.threads, hk]
    rfl
  | checked => rfl
  | period => exact period_calls cfg s
  | capacity => exact capacity_calls cfg s

end OsesProject
