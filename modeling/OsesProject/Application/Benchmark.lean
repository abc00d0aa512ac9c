import OsesProject.Application.Procedure
import OsesProject.Application.XenoJetBench

/-!
# The threads of the benchmark (`create_tasks`, `start_tasks`, `init_xeno`)

`init_xeno` runs each of the four functions of the pipeline in a thread of its own. It initialises
and starts the threads and then reads the results: nobody waits for the threads, which are more
urgent than the consumer. The machine here is the consumer, statement by statement, the four
threads, one assignment or test at a time, and the scheduler (`rt_schedule`), over the kernel with
the threads of the system and of the pipeline.

What the other threads and the interrupts do to the kernel is any call at all that does not act for
the consumer or the pipeline (`Call.Elsewhere`), at any time, and they may change the samples at any
time. `engine` is read by the threads, but `init_xeno` sets it only before it starts the first of
them, so that their functions are taken for the engine there is when they are initialised.

The records `snapshot`, `present` and `finished` are the history of the benchmark: what has been
read of the samples for the present reading, and what each call of `init_xeno` has read and stored.
No function reads them.
-/

namespace OsesProject

open Flow Machine

/-- The threads of the pipeline, in the order of `start_tasks`. -/
inductive Stage
  | deduceInputs
  | getThermo
  | getGeo
  | calcPerf
  deriving DecidableEq, Repr

namespace Stage

/-- The place of a thread in the pipeline. -/
def index : Stage → Nat
  | .deduceInputs => 0
  | .getThermo => 1
  | .getGeo => 2
  | .calcPerf => 3

/-- The thread after it. -/
def next? : Stage → Option Stage
  | .deduceInputs => some .getThermo
  | .getThermo => some .getGeo
  | .getGeo => some .calcPerf
  | .calcPerf => none

/-- `HIGHEST`, `HIGH`, `MID` and `LOW`. -/
def priority : Stage → Nat
  | .deduceInputs => rtThreadPriorityMax - 20
  | .getThermo => rtThreadPriorityMax - 19
  | .getGeo => rtThreadPriorityMax - 18
  | .calcPerf => rtThreadPriorityMax - 17

end Stage

/-- The threads of the system, and those of the pipeline. -/
inductive Worker
  | sys (t : Tid)
  | stage (p : Stage)
  deriving DecidableEq, Repr

instance : Fintype Stage :=
  ⟨{.deduceInputs, .getThermo, .getGeo, .calcPerf}, fun p => by cases p <;> decide⟩

instance : Fintype Worker where
  elems := (Finset.univ.image Worker.sys) ∪ (Finset.univ.image Worker.stage)
  complete t := by cases t <;> simp

/-- The thread that runs `consumer_entry`. -/
def Worker.consumer : Worker := .sys .consumer

/-- A call made by an interrupt or by another thread: it acts for no thread of the benchmark, and
ends, suspends or resumes none of them, nor sets its priority. `main` starts the consumer; the
scheduler's switches are events of their own. -/
def Call.Elsewhere : Call Worker Lock AppTimer → Prop
  | .act t | .load t _ | .resume t | .suspend t | .exit t | .control t _ =>
    ∃ u, t = .sys u ∧ u ≠ .consumer
  | .startup t => ∃ u, t = .sys u
  | .schedule _ => False
  | .timeout _ | .tick | .timerStart _ | .timerStop _ | .timerSetTime _ _ | .timerTakeOff _
  | .timerRearm _ => True

/-- The statements of `consumer_entry` and `init_xeno`. -/
inductive XenoPc (F : Type)
  /-- `rt_thread_mdelay` -/
  | delay (tick : Nat)
  /-- inside `rt_thread_sleep`, behind its `rt_schedule` -/
  | inSleep
  /-- `engine = 1 + rand() % 3;` -/
  | chooseEngine
  /-- inside `defaultParam` -/
  | defaultParam (todo : List (Stmt Var F))
  /-- `rt_mutex_take(raw_mutex, RT_WAITING_FOREVER);` -/
  | takeRaw
  /-- its return -/
  | tookRaw
  /-- `u0d = acc_v[i];` -/
  | readAcc
  /-- `altd = baro_v[i];` -/
  | readBaro
  /-- `throtl = gyro_v[i];` -/
  | readGyro
  /-- `rt_mutex_release(raw_mutex);` -/
  | releaseRaw
  /-- `rt_thread_init` in `create_tasks` -/
  | create (p : Stage)
  /-- `rt_thread_startup` in `start_tasks`, up to its call of `rt_schedule` -/
  | startup (p : Stage)
  /-- the call of `rt_schedule` in `rt_thread_startup` -/
  | schedule (p : Stage)
  /-- `rt_mutex_take(bench_mutex, RT_WAITING_FOREVER);` -/
  | takeBench
  /-- its return -/
  | tookBench
  /-- `results[j] = ...;` -/
  | store (j : Fin 14)
  /-- `rt_mutex_release(bench_mutex);` -/
  | releaseBench

/-- A call of `init_xeno`: the engine, the globals it found, the readings it took and the results it
stored for each of them. -/
structure XenoRun (F : Type) where
  engine : Engine
  globals : Var → F
  readings : List (Reading F)
  stored : List (List F)

/-- The benchmark, and the kernel it runs on. -/
structure Xeno (F : Type) where
  x : Threads Worker Lock AppTimer
  /-- the objects of the kernel's lists -/
  objects : Objects Worker
  pc : XenoPc F
  /-- what the threads of the pipeline have left to do -/
  todo : Stage → List (Stmt Var F)
  i : Nat
  engine : Engine
  g : Var → F
  accV : Nat → F
  baroV : Nat → F
  gyroV : Nat → F
  results : Fin 14 → F
  snapshot : Reading F
  present : XenoRun F
  finished : List (XenoRun F)

/-- The events: the next statement of the consumer, with the value of `rand` and the choice of
`rt_schedule`; the next assignment or test of a thread of the pipeline; a call elsewhere; a switch
by the scheduler; and new samples. -/
inductive XenoEvent (F : Type)
  | consumer (engine : Engine) (chosen : Option Worker)
  | stage (p : Stage)
  | other (c : Call Worker Lock AppTimer)
  | switch (t : Worker)
  | sample (accV baroV gyroV : Nat → F)

instance (c : Call Worker Lock AppTimer) : Decidable c.Elsewhere := by
  cases c <;> unfold Call.Elsewhere <;> infer_instance

instance (k : Kernel Worker Lock AppTimer) (t : Worker) : Decidable (k.RtSchedulePicks t) := by
  unfold Kernel.RtSchedulePicks
  infer_instance

/-- `rt_schedule` may return to the thread that calls it: no ready thread is more urgent. -/
def Kernel.RtScheduleStays {T M A : Type} (k : Kernel T M A) : Prop :=
  ∀ u, (k.thread u).stat = .ready →
    (k.thread k.current).currentPriority ≤ (k.thread u).currentPriority

instance (k : Kernel Worker Lock AppTimer) : Decidable k.RtScheduleStays := by
  unfold Kernel.RtScheduleStays
  infer_instance

variable {F : Type} [LinearOrder F] [Add F] [Sub F] [Mul F] [Div F] [Neg F] [OfScientific F]
  [∀ n, OfNat F n]

/-- The function of a thread of the pipeline. -/
def Stage.entry (m : Utilities F) (engine : Engine) : Stage → List (Stmt Var F)
  | .deduceInputs => OsesProject.deduceInputs m
  | .getThermo => OsesProject.getThermo m engine
  | .getGeo => OsesProject.getGeo m engine
  | .calcPerf => OsesProject.calcPerf m engine

/-- The value of `results[j]`. -/
def benchResult (g : Var → F) (j : Fin 14) : F := (benchResults g).get j

namespace Xeno

/-- The consumer makes kernel calls and goes on to a place. -/
def goOn (s : Xeno F) (cs : List (Call Worker Lock AppTimer)) (pc : XenoPc F) : Option (Xeno F) :=
  (run Threads.call s.x cs).map fun x => { s with x := x, pc := pc }

/-- The consumer returns from `rt_mutex_take`: after a wait, it has still to leave the function. -/
def returned (s : Xeno F) (pc : XenoPc F) : Option (Xeno F) :=
  match s.x.pc .consumer with
  | .inTake _ _ => s.goOn [.act .consumer] pc
  | _ => s.goOn [] pc

/-- One statement of the consumer. -/
def consumerStep (m : Utilities F) (engine : Engine) (chosen : Option Worker) (s : Xeno F) :
    Option (Xeno F) :=
  match s.pc with
  | .delay tick => s.goOn [.load .consumer [.delay tick], .act .consumer] .inSleep
  | .inSleep => s.goOn [.act .consumer] .chooseEngine
  | .chooseEngine =>
    some { s with
      pc := .defaultParam defaultParam
      engine := engine
      i := 0
      present := ⟨engine, s.g, [], []⟩
      finished := s.present :: s.finished }
  | .defaultParam [] => some { s with pc := .takeRaw }
  | .defaultParam (st :: todo) =>
    let r := next (st :: todo) s.g
    some { s with pc := .defaultParam r.1, g := r.2 }
  | .takeRaw =>
    s.goOn [.load .consumer [.take .raw, .release .raw, .take .bench, .release .bench],
      .act .consumer] .tookRaw
  | .tookRaw => s.returned .readAcc
  | .readAcc =>
    some { s with
      pc := .readBaro
      g := Function.update s.g .u0d (s.accV s.i)
      snapshot := { s.snapshot with u0d := s.accV s.i } }
  | .readBaro =>
    some { s with
      pc := .readGyro
      g := Function.update s.g .altd (s.baroV s.i)
      snapshot := { s.snapshot with altd := s.baroV s.i } }
  | .readGyro =>
    let snapshot := { s.snapshot with throtl := s.gyroV s.i }
    some { s with
      pc := .releaseRaw
      g := Function.update s.g .throtl (s.gyroV s.i)
      snapshot := snapshot
      present := { s.present with readings := s.present.readings ++ [snapshot] } }
  | .releaseRaw => s.goOn [.act .consumer] (.create .deduceInputs)
  | .create p =>
    (s.x.k.rtThreadInit s.objects (.stage p) p.priority).map fun r =>
      { s with
        x := { s.x with k := r.1 }
        objects := r.2
        todo := Function.update s.todo p (p.entry m s.engine)
        pc := match p.next? with
          | some q => .create q
          | none => .startup .deduceInputs }
  | .startup p => s.goOn [.startup (.stage p)] (.schedule p)
  | .schedule p =>
    let pc : XenoPc F := match p.next? with
      | some q => .startup q
      | none => .takeBench
    match chosen with
    | none => if s.x.k.RtScheduleStays then s.goOn [] pc else none
    | some t => if s.x.k.RtSchedulePicks t then s.goOn [.schedule t] pc else none
  | .takeBench => s.goOn [.act .consumer] .tookBench
  | .tookBench => s.returned (.store 0)
  | .store j =>
    let results := Function.update s.results j (benchResult s.g j)
    if h : j.val + 1 < 14 then
      some { s with results := results, pc := .store ⟨j + 1, h⟩ }
    else
      some { s with
        results := results
        pc := .releaseBench
        present := { s.present with stored := s.present.stored ++ [List.ofFn results] } }
  | .releaseBench =>
    let i := s.i + 1
    (run Threads.call s.x [.act .consumer]).map fun x =>
      { s with x := x, i := i, pc := if i < numReadings then .takeRaw else .delay 6000 }

/-- One assignment or test of a thread of the pipeline; its function returns into
`rt_thread_exit`, which takes the thread and its timer off the lists of objects. -/
def stageStep (s : Xeno F) (p : Stage) : Option (Xeno F) :=
  match s.todo p with
  | [] =>
    (s.x.call (.exit (.stage p))).map fun x =>
      { s with x := x, objects := s.objects.detach (.stage p) }
  | st :: todo =>
    let r := next (st :: todo) s.g
    some { s with todo := Function.update s.todo p r.1, g := r.2 }

/-- One event. -/
def step (m : Utilities F) (s : Xeno F) : XenoEvent F → Option (Xeno F)
  | .consumer engine chosen =>
    if s.x.k.current = .consumer ∧ (s.x.k.thread .consumer).stat = .running then
      s.consumerStep m engine chosen
    else
      none
  | .stage p =>
    if s.x.k.current = .stage p ∧ (s.x.k.thread (.stage p)).stat = .running then
      s.stageStep p
    else
      none
  | .other c =>
    if c.Elsewhere then (s.x.call c).map fun x => { s with x := x } else none
  | .switch t =>
    if s.x.k.RtSchedulePicks t then
      (s.x.call (.schedule t)).map fun x => { s with x := x }
    else
      none
  | .sample accV baroV gyroV => some { s with accV := accV, baroV := baroV, gyroV := gyroV }

end Xeno

/-! ## The state it starts from -/

/-- A timer of the system. -/
def TimerId.sys {A : Type} : TimerId Tid A → TimerId Worker A
  | .thread t => .thread (.sys t)
  | .app a => .app a

/-- The kernel of the system with the thread objects of the pipeline, which are static and hold
zeros. -/
def Kernel.withStages (k : Kernel Tid Lock AppTimer) : Kernel Worker Lock AppTimer where
  thread
    | .sys t => k.thread t
    | .stage _ => ⟨.eok, .init, 0, 0⟩
  current := .sys k.current
  mutex n := ⟨(k.mutex n).suspendThread.map .sys, (k.mutex n).value, (k.mutex n).originalPriority,
    (k.mutex n).hold, (k.mutex n).owner.map .sys⟩
  timer
    | .thread (.sys t) => k.timer (.thread t)
    | .thread (.stage _) => ⟨0, 0, false, false⟩
    | .app a => k.timer (.app a)
  timerList := k.timerList.map .sys
  tick := k.tick

/-- `rt_thread_deferrable_init` has returned, and `main` goes on to start the producer and the
consumer. The globals of the benchmark are whatever they are. -/
def Xeno.start (cfg : Config Task) (tick : Nat) (engine : Engine) (g : Var → F)
    (results : Fin 14 → F) (accV baroV gyroV : Nat → F) : Xeno F where
  x := ⟨(afterInit cfg mainPriority tick).k.withStages, fun _ => .run []⟩
  objects :=
    let threads := [.sys .consumer, .sys .producer, .sys .server, .sys .main, .sys .idle]
    ⟨threads, threads⟩
  pc := .delay 5000
  todo := fun _ => []
  i := 0
  engine := engine
  g := g
  accV := accV
  baroV := baroV
  gyroV := gyroV
  results := results
  snapshot := ⟨accV 0, baroV 0, gyroV 0⟩
  present := ⟨engine, g, [], []⟩
  finished := []

/-- The benchmark without threads: `defaultParam`, and then each reading from its inputs to its
results. -/
def sequential (m : Utilities F) (engine : Engine) : (Var → F) → List (Reading F) → List (List F)
  | _, [] => []
  | g, x :: xs =>
    let g' := exec (evaluate m engine x) g
    benchResults g' :: sequential m engine g' xs

end OsesProject
