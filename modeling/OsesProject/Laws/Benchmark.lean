import OsesProject.Application.Benchmark
import OsesProject.Laws.Priority
import OsesProject.Laws.System

/-!
# The threaded benchmark and the sequential one

`init_xeno` waits for nobody: it starts the four threads of the pipeline and reads their results. It
is the priorities that put the threads and the consumer in order. `StageInv` says how: a thread that
is ready or runs is the one the consumer has started last, and the consumer is not the current
thread then, except right before its own call of `rt_schedule`. What lets it run again is the
scheduler, and the scheduler does not choose it before a thread of the pipeline: the consumer owns
no mutex at this place, so that its priority is its own (`StageInv.not_live_of_urgent`).

`Inv` adds what is in the globals (`Data`): at any moment, what the threads have left to do leads
where the pipeline leads from the inputs of the reading. So the results recorded are those of the
benchmark without threads on the readings recorded (`Inv.stored_prefix`).
-/

set_option linter.unusedSectionVars false

namespace OsesProject

open Flow Machine

/-! ## What the calls leave to the threads of the pipeline -/

/-- The calls that touch no thread of the pipeline. -/
def Call.Aside : Call Worker Lock AppTimer → Prop
  | .act t | .load t _ | .resume t | .suspend t | .startup t | .exit t | .control t _ =>
    ∃ u, t = .sys u
  | .schedule _ => False
  | _ => True

theorem Call.Elsewhere.aside {c : Call Worker Lock AppTimer} (h : c.Elsewhere) : c.Aside := by
  cases c with
  | act | load | resume | suspend | exit | control =>
    obtain ⟨u, hu, -⟩ := h
    exact ⟨u, hu⟩
  | startup => exact h
  | schedule => exact h
  | timeout | tick | timerStart | timerStop | timerSetTime | timerTakeOff | timerRearm => trivial

/-- A call with the threads renamed. -/
def Call.map {T T' M A : Type} (f : T → T') : Call T M A → Call T' M A
  | .act t => .act (f t)
  | .load t prog => .load (f t) prog
  | .resume t => .resume (f t)
  | .suspend t => .suspend (f t)
  | .startup t => .startup (f t)
  | .exit t => .exit (f t)
  | .control t priority => .control (f t) priority
  | .timeout t => .timeout (f t)
  | .schedule t => .schedule (f t)
  | .tick => .tick
  | .timerStart a => .timerStart a
  | .timerStop a => .timerStop a
  | .timerSetTime a time => .timerSetTime a time
  | .timerTakeOff a => .timerTakeOff a
  | .timerRearm a => .timerRearm a

/-- **What the rest of the system does is elsewhere**: every kernel call of an event of the system,
other than the consumer's statements and the scheduler's switches, may come at any time here. -/
theorem calls_elsewhere {τ : Type} [DecidableEq τ] {cfg : Config τ} {s : State τ} {e : Event τ}
    {c : Call Tid Lock AppTimer} (hc : c ∈ calls cfg s e)
    (hconsumer : ∀ choice, e ≠ .thread .consumer choice) (hswitch : ∀ t, e ≠ .switch t) :
    (c.map Worker.sys).Elsewhere := by
  have horigin := origin_of_mem hc
  cases c with
  | act t =>
    obtain ⟨choice, rfl⟩ := horigin
    refine ⟨t, rfl, ?_⟩
    rintro rfl
    exact hconsumer choice rfl
  | load t prog =>
    obtain ⟨choice, rfl⟩ := horigin
    refine ⟨t, rfl, ?_⟩
    rintro rfl
    exact hconsumer choice rfl
  | resume t => exact ⟨t, rfl, by simp [horigin.1]⟩
  | suspend t => exact ⟨t, rfl, by simp [horigin.1]⟩
  | control t priority => exact ⟨t, rfl, by simp [horigin.1]⟩
  | exit t => exact ⟨t, rfl, by simp [show t = .main from horigin]⟩
  | startup t => exact ⟨t, rfl⟩
  | schedule t => exact hswitch t horigin
  | timeout | tick | timerStart | timerStop | timerSetTime | timerTakeOff | timerRearm => trivial

/-- The kernel has the thread of the pipeline as it had it. -/
structure SameStage (x x' : Threads Worker Lock AppTimer) (p : Stage) : Prop where
  current : x'.k.current = x.k.current
  place : x'.pc (.stage p) = x.pc (.stage p)
  stat : (x'.k.thread (.stage p)).stat = (x.k.thread (.stage p)).stat
  priority : (x'.k.thread (.stage p)).currentPriority = (x.k.thread (.stage p)).currentPriority
  initPriority : (x'.k.thread (.stage p)).initPriority = (x.k.thread (.stage p)).initPriority

variable {x x' : Threads Worker Lock AppTimer} {c : Call Worker Lock AppTimer}

theorem SameStage.refl (x : Threads Worker Lock AppTimer) (p : Stage) : SameStage x x p :=
  ⟨rfl, rfl, rfl, rfl, rfl⟩

theorem SameStage.trans {x'' : Threads Worker Lock AppTimer} {p : Stage} (h : SameStage x x' p)
    (h' : SameStage x' x'' p) : SameStage x x'' p :=
  ⟨h'.current.trans h.current, h'.place.trans h.place, h'.stat.trans h.stat,
    h'.priority.trans h.priority, h'.initPriority.trans h.initPriority⟩

/-- A call aside leaves them alone. -/
theorem Call.Aside.same (ha : c.Aside) (hL : LockInv x) {p : Stage}
    (hidle : x.pc (.stage p) = .run []) (hc : x.call c = some x') : SameStage x x' p := by
  have hplace : x'.pc (.stage p) = x.pc (.stage p) := by
    apply Threads.call_pc_of_ne hc
    · rintro rfl
      obtain ⟨u, hu⟩ := ha
      cases hu
    · rintro prog rfl
      obtain ⟨u, hu⟩ := ha
      cases hu
  refine ⟨?_, hplace, ?_, ?_, Threads.call_initPriority hc _⟩
  · apply Threads.call_current hc
    rintro t rfl
    exact ha
  · have hchange := hL.statChange_of_call hc (.stage p)
    generalize (x'.k.thread (.stage p)).stat = stat at hchange ⊢
    cases hchange with
    | same => rfl
    | granted t n _ hn => exact absurd hn (hL.not_waits hidle n)
    | timedOut _ _ hmem =>
      obtain ⟨todo, htodo⟩ := (hL.sleeps _ hmem).1
      rw [hidle] at htodo
      cases htodo
    | own | resumed | suspended | started | exited =>
      obtain ⟨u, hu⟩ := ha
      cases hu
    | chosen | preempted => exact ha.elim
  · apply Threads.call_priority_idle hL hc hidle (hplace.trans hidle)
    cases c with
    | control t priority =>
      rintro rfl
      obtain ⟨u, hu⟩ := ha
      cases hu
    | startup t =>
      rintro rfl
      obtain ⟨u, hu⟩ := ha
      cases hu
    | _ => exact id

/-! ## The invariant -/

/-- Where the consumer is in its round of kernel calls. -/
def XenoPc.Place {F : Type} : XenoPc F → Pc Lock → Prop
  | .delay _, p | .chooseEngine, p | .defaultParam _, p | .takeRaw, p => p = .run []
  | .inSleep, p => p = .inSleep []
  | .tookRaw, p => p = .run [.release .raw, .take .bench, .release .bench] ∨
      p = .inTake .raw [.release .raw, .take .bench, .release .bench]
  | .readAcc, p | .readBaro, p | .readGyro, p | .releaseRaw, p =>
    p = .run [.release .raw, .take .bench, .release .bench]
  | .create _, p | .startup _, p | .schedule _, p | .takeBench, p =>
    p = .run [.take .bench, .release .bench]
  | .tookBench, p => p = .run [.release .bench] ∨ p = .inTake .bench [.release .bench]
  | .store _, p | .releaseBench, p => p = .run [.release .bench]

/-- The threads of the pipeline with this reading's `rt_thread_init` behind them. -/
def XenoPc.created {F : Type} : XenoPc F → Nat
  | .create p => p.index
  | .startup _ | .schedule _ | .takeBench | .tookBench | .store _ | .releaseBench => 4
  | _ => 0

/-- Those with this reading's `rt_thread_startup` behind them. -/
def XenoPc.started {F : Type} : XenoPc F → Nat
  | .startup p => p.index
  | .schedule p => p.index + 1
  | .takeBench | .tookBench | .store _ | .releaseBench => 4
  | _ => 0

/-- How far this reading has come with the threads of the pipeline. -/
def XenoPc.counts {F : Type} (pc : XenoPc F) : Nat × Nat := (pc.created, pc.started)

/-- The one that may not have exited yet. -/
def XenoPc.launched {F : Type} : XenoPc F → Option Stage
  | .startup .getThermo => some .deduceInputs
  | .startup .getGeo => some .getThermo
  | .startup .calcPerf => some .getGeo
  | .schedule p => some p
  | .takeBench => some .calcPerf
  | _ => none

theorem Stage.index_inj {p q : Stage} : p.index = q.index ↔ p = q := by
  cases p <;> cases q <;> decide

theorem Stage.index_lt (p : Stage) : p.index < 4 := by
  cases p <;> decide

variable {F : Type} [LinearOrder F] [Add F] [Sub F] [Mul F] [Div F] [Neg F] [OfScientific F]
  [∀ n, OfNat F n]

namespace Xeno

/-- The thread is ready or runs. -/
def Live (s : Xeno F) (p : Stage) : Prop :=
  (s.x.k.thread (.stage p)).stat = .ready ∨ (s.x.k.thread (.stage p)).stat = .running

/-- The thread has exited, or has never been initialised: its objects are not in the kernel's
lists. -/
def Exited (s : Xeno F) (p : Stage) : Prop :=
  .stage p ∉ s.objects.threads ∧ .stage p ∉ s.objects.timers ∧
    ((s.x.k.thread (.stage p)).stat = .init ∨ (s.x.k.thread (.stage p)).stat = .close)

/-- What holds of a thread of the pipeline, wherever the consumer is. -/
structure StageOk (m : Utilities F) (s : Xeno F) (p : Stage) : Prop where
  idle : s.x.pc (.stage p) = .run []
  running : (s.x.k.thread (.stage p)).stat = .running → s.x.k.current = .stage p
  absent : s.pc.created ≤ p.index → s.Exited p
  initialised : s.pc.started ≤ p.index → p.index < s.pc.created →
    (s.x.k.thread (.stage p)).stat = .init ∧
      (s.x.k.thread (.stage p)).initPriority = p.priority ∧ s.todo p = p.entry m s.engine
  started : p.index < s.pc.started →
    s.Live p ∧ s.pc.launched = some p ∧
      (s.x.k.thread (.stage p)).currentPriority = p.priority ∨
    s.Exited p ∧ s.todo p = []
  waits : s.Live p → s.x.k.current = .consumer → s.pc = .schedule p

/-- What holds of the threads of the pipeline, and of the consumer's place and priority. -/
structure StageInv (m : Utilities F) (s : Xeno F) : Prop where
  locks : LockInv s.x
  place : s.pc.Place (s.x.pc .consumer)
  base : s.x.basePriority .consumer = 17
  initPriority : (s.x.k.thread .consumer).initPriority = 17
  stages : ∀ p, s.StageOk m p

variable {m : Utilities F} {s s' : Xeno F} {p q : Stage}

theorem Exited.not_live (h : s.Exited p) : ¬s.Live p := by
  rintro (hs | hs) <;> rcases h.2.2 with h | h <;> simp [hs] at h

namespace StageOk

/-- A thread that is ready or runs is the one started last, at its own priority. -/
theorem of_live (h : s.StageOk m p) (hp : s.Live p) :
    p.index < s.pc.started ∧ s.pc.launched = some p ∧
      (s.x.k.thread (.stage p)).currentPriority = p.priority := by
  by_cases hstarted : p.index < s.pc.started
  · obtain ⟨-, hl⟩ | ⟨he, -⟩ := h.started hstarted
    · exact ⟨hstarted, hl⟩
    · exact absurd hp he.not_live
  · by_cases hcreated : p.index < s.pc.created
    · have hinit := (h.initialised (by omega) hcreated).1
      rcases hp with hs | hs <;> simp [hs] at hinit
    · exact absurd hp (h.absent (by omega)).not_live

/-- A step that leaves the thread alone, and lets the consumer go on only if the thread is not left
over. -/
theorem keep (h : s.StageOk m p) (hsame : SameStage s.x s'.x p)
    (hthreads : .stage p ∈ s'.objects.threads ↔ .stage p ∈ s.objects.threads)
    (htimers : .stage p ∈ s'.objects.timers ↔ .stage p ∈ s.objects.timers)
    (htodo : s'.todo p = s.todo p) (hengine : s'.engine = s.engine ∨ s.pc.created ≤ p.index)
    (hcreated : p.index < s'.pc.created ↔ p.index < s.pc.created)
    (hstarted : p.index < s'.pc.started ↔ p.index < s.pc.started)
    (hpc : s'.pc = s.pc ∨ ¬s.Live p) : s'.StageOk m p := by
  have hlive : s'.Live p ↔ s.Live p := by
    unfold Live
    rw [hsame.stat]
  have hexited : s'.Exited p ↔ s.Exited p := by
    unfold Exited
    rw [hsame.stat, hthreads, htimers]
  refine ⟨hsame.place.trans h.idle, fun hp => ?_, fun hp => ?_, fun hp hp' => ?_, fun hp => ?_,
    fun hp hcur => ?_⟩
  · rw [hsame.current]
    exact h.running (hsame.stat ▸ hp)
  · exact hexited.mpr (h.absent (by omega))
  · obtain ⟨hinit, hprio, hentry⟩ := h.initialised (by omega) (by omega)
    refine ⟨hsame.stat.trans hinit, hsame.initPriority.trans hprio, ?_⟩
    rw [htodo, hentry, hengine.resolve_right (by omega)]
  · rw [hlive, hexited, hsame.priority, htodo]
    rcases hpc with hpc | hpc
    · rw [hpc]
      exact h.started (hstarted.mp hp)
    · exact .inr ((h.started (hstarted.mp hp)).resolve_left fun hl => hpc hl.1)
  · rw [hlive] at hp
    rcases hpc with hpc | hpc
    · rw [hpc]
      exact h.waits hp (hsame.current ▸ hcur)
    · exact absurd hp hpc

/-- A thread that has exited, at a place where the consumer has not initialised it yet. -/
theorem of_exited (hidle : s.x.pc (.stage p) = .run []) (he : s.Exited p)
    (hcreated : s.pc.created ≤ p.index) (hstarted : s.pc.started ≤ p.index) : s.StageOk m p := by
  refine ⟨hidle, fun hrun => ?_, fun _ => he, fun _ hc => absurd hc (not_lt.mpr hcreated),
    fun hs => absurd hs (not_lt.mpr hstarted), fun hl => absurd hl he.not_live⟩
  exact absurd (.inr hrun) he.not_live

end StageOk

namespace StageInv

/-- While one of them may not have exited, the consumer owns no mutex, and has its own priority. -/
theorem consumer_priority (h : s.StageInv m) (hp : s.pc.launched = some p) :
    (s.x.k.thread .consumer).currentPriority = 17 := by
  have hplace : s.x.pc .consumer = .run [.take .bench, .release .bench] := by
    have := h.place
    cases hpc : s.pc with
    | startup | schedule | takeBench =>
      rw [hpc] at this
      exact this
    | _ =>
      rw [hpc] at hp
      cases hp
  rw [← Threads.basePriority_eq, h.base]
  simp [Threads.owned, hplace, Pc.stack, Pc.todo, stackOf]

/-- **The consumer is less urgent than the pipeline**: where the scheduler would let it run, none of
the four threads is left. -/
theorem not_live_of_urgent (h : s.StageInv m)
    (hurgent : (s.x.k.thread (.stage p)).stat = .ready ∨ (s.x.k.thread (.stage p)).stat = .running →
      (s.x.k.thread .consumer).currentPriority ≤ (s.x.k.thread (.stage p)).currentPriority) :
    ¬s.Live p := by
  intro hp
  obtain ⟨-, hlaunched, hprio⟩ := (h.stages p).of_live hp
  have hle := hurgent hp
  rw [h.consumer_priority hlaunched, hprio] at hle
  cases p <;> simp [Stage.priority, rtThreadPriorityMax] at hle

/-- When the consumer runs, all of them have exited, but for the one it is about to yield to. -/
theorem not_live (h : s.StageInv m) (hcur : s.x.k.current = .consumer)
    (hpc : ∀ p, s.pc ≠ .schedule p) (p : Stage) : ¬s.Live p :=
  fun hp => hpc p ((h.stages p).waits hp hcur)

/-- A call elsewhere. -/
theorem other (h : s.StageInv m) (hc : c.Elsewhere) (hcall : s.x.call c = some x') :
    StageInv m { s with x := x' } := by
  have hplace : x'.pc .consumer = s.x.pc .consumer := by
    apply Threads.call_pc_of_ne hcall
    · rintro rfl
      obtain ⟨u, hu, hne⟩ := hc
      cases hu
      exact hne rfl
    · rintro prog rfl
      obtain ⟨u, hu, hne⟩ := hc
      cases hu
      exact hne rfl
  have hbase : x'.basePriority .consumer = 17 := by
    by_cases hstart : c = .startup .consumer
    · subst hstart
      rw [Threads.basePriority_startup hcall]
      split
      · exact h.initPriority
      · exact h.base
    · rw [Threads.call_basePriority h.locks hcall, h.base]
      cases c with
      | control t priority =>
        rintro rfl
        obtain ⟨u, hu, hne⟩ := hc
        cases hu
        exact hne rfl
      | startup t =>
        rintro rfl
        exact hstart rfl
      | _ => exact id
  refine ⟨h.locks.call hcall, hplace ▸ h.place, hbase, ?_, fun p => ?_⟩
  · exact (Threads.call_initPriority hcall _).trans h.initPriority
  · have hsame := hc.aside.same h.locks (h.stages p).idle hcall
    exact (h.stages p).keep hsame .rfl .rfl rfl (.inl rfl) .rfl .rfl (.inl rfl)

/-- The scheduler switches to another thread; the consumer may have called it. -/
theorem switch (h : s.StageInv m) {t : Worker} {pc : XenoPc F}
    (hpicks : s.x.k.RtSchedulePicks t) (hcall : s.x.call (.schedule t) = some x')
    (hplace : pc.Place (s.x.pc .consumer)) (hcounts : pc.counts = s.pc.counts)
    (hlaunched : pc.launched = s.pc.launched) : StageInv m { s with x := x', pc := pc } := by
  obtain ⟨hcreated, hstarted⟩ := Prod.ext_iff.mp hcounts
  simp only [XenoPc.counts] at hcreated hstarted
  have hinit := Threads.call_initPriority hcall
  have hbase := Threads.call_basePriority (u := .consumer) h.locks hcall id
  have hlocks := h.locks.call hcall
  obtain ⟨k, hk, rfl⟩ := Option.map_eq_some_iff.mp hcall
  have hcur : k.current = t := by
    unfold Kernel.rtScheduleTo at hk
    split at hk
    · cases hk
      rfl
    · cases hk
  refine ⟨hlocks, hplace, hbase.trans h.base, (hinit _).trans h.initPriority, fun p => ?_⟩
  have hp := h.stages p
  obtain ⟨hready, hstat⟩ := Kernel.rtScheduleTo_stat hk (.stage p)
  have hlive : Live { s with x := ⟨k, s.x.pc⟩, pc := pc } p ↔ s.Live p := by
    show (k.thread (.stage p)).stat = .ready ∨ (k.thread (.stage p)).stat = .running ↔ _
    rw [hstat, Live]
    split
    · next hpt => simp [hpt, hready]
    · split
      · next hrun => simp [hrun.2]
      · rfl
  have hsame : ¬s.Live p → (k.thread (.stage p)).stat = (s.x.k.thread (.stage p)).stat := by
    intro hnot
    rw [hstat, if_neg, if_neg]
    · exact fun hrun => hnot (.inr hrun.2)
    · rintro rfl
      exact hnot (.inl hready)
  have hexited : s.Exited p → Exited { s with x := ⟨k, s.x.pc⟩, pc := pc } p := by
    intro he
    refine ⟨he.1, he.2.1, ?_⟩
    show (k.thread (.stage p)).stat = .init ∨ _
    rw [hsame he.not_live]
    exact he.2.2
  refine ⟨hp.idle, fun hrun => ?_, fun hc => ?_, fun hs hc => ?_, fun hs => ?_, fun hl hcons => ?_⟩
  · show k.current = .stage p
    rw [show (k.thread (.stage p)).stat = .running from hrun] at hstat
    by_cases hpt : Worker.stage p = t
    · rw [hcur, hpt]
    · rw [if_neg hpt] at hstat
      split at hstat
      · cases hstat
      · next hnot => exact absurd ⟨(hp.running hstat.symm).symm, hstat.symm⟩ hnot
  · exact hexited (hp.absent (hcreated ▸ hc))
  · obtain ⟨hi, hpr, htodo⟩ := hp.initialised (hstarted ▸ hs) (hcreated ▸ hc)
    refine ⟨(hsame ?_).trans hi, (hinit _).trans hpr, htodo⟩
    rintro (hst | hst) <;> simp [hst] at hi
  · obtain ⟨hl, hla, hpr⟩ | ⟨he, htodo⟩ := hp.started (hstarted ▸ hs)
    · refine .inl ⟨hlive.mpr hl, hlaunched.trans hla, ?_⟩
      exact (Kernel.rtScheduleTo_priority hk _).trans hpr
    · exact .inr ⟨hexited he, htodo⟩
  · have htc : t = .consumer := hcur.symm.trans hcons
    subst htc
    refine absurd (hlive.mp hl) (h.not_live_of_urgent ?_)
    rintro (hst | hst)
    · exact hpicks.1 _ hst
    · have := hpicks.2
      rw [hp.running hst] at this
      exact this hst

/-- The call of `rt_schedule` by the consumer returns at once. -/
theorem not_live_of_stays (h : s.StageInv m) (hcur : s.x.k.current = .consumer)
    (hstays : s.x.k.RtScheduleStays) (p : Stage) : ¬s.Live p := by
  apply h.not_live_of_urgent
  rintro (hst | hst)
  · have := hstays _ hst
    rwa [hcur] at this
  · rw [(h.stages p).running hst] at hcur
    cases hcur

/-- The consumer's own kernel calls. -/
theorem calls (h : s.StageInv m) {cs : List (Call Worker Lock AppTimer)}
    (hcs : ∀ c ∈ cs, c = .act .consumer ∨ ∃ prog, c = .load .consumer prog)
    (hrun : run Threads.call s.x cs = some x') :
    LockInv x' ∧ x'.basePriority .consumer = 17 ∧ (x'.k.thread .consumer).initPriority = 17 ∧
      ∀ p, SameStage s.x x' p := by
  refine run_invariant (fun y => LockInv y ∧ y.basePriority .consumer = 17 ∧
    (y.k.thread .consumer).initPriority = 17 ∧ ∀ p, SameStage s.x y p) ?_
    ⟨h.locks, h.base, h.initPriority, SameStage.refl s.x⟩ hrun
  rintro c hc y y' ⟨hL, hbase, hinit, hsame⟩ hcall
  have haside : c.Aside ∧ ¬c.Controls .consumer := by
    rcases hcs c hc with rfl | ⟨prog, rfl⟩
    · exact ⟨⟨.consumer, rfl⟩, id⟩
    · exact ⟨⟨.consumer, rfl⟩, id⟩
  refine ⟨hL.call hcall, ?_, (Threads.call_initPriority hcall _).trans hinit, fun p => ?_⟩
  · rw [Threads.call_basePriority hL hcall haside.2, hbase]
  · have hidle := (hsame p).place.trans (h.stages p).idle
    exact (hsame p).trans (haside.1.same hL hidle hcall)

/-- The consumer goes on with kernel calls of its own, or none, and none of the threads of the
pipeline is left. -/
theorem goOn (h : s.StageInv m) {cs : List (Call Worker Lock AppTimer)}
    (hcs : ∀ c ∈ cs, c = .act .consumer ∨ ∃ prog, c = .load .consumer prog)
    (hrun : run Threads.call s.x cs = some s'.x) (hnone : ∀ p, ¬s.Live p)
    (hplace : s'.pc.Place (s'.x.pc .consumer)) (hobjects : s'.objects = s.objects)
    (htodo : s'.todo = s.todo) (hengine : s'.engine = s.engine ∨ s.pc.created = 0)
    (hcounts : s'.pc.counts = s.pc.counts) : s'.StageInv m := by
  obtain ⟨hL, hbase, hinit, hsame⟩ := h.calls hcs hrun
  obtain ⟨hcreated, hstarted⟩ := Prod.ext_iff.mp hcounts
  simp only [XenoPc.counts] at hcreated hstarted
  refine ⟨hL, hplace, hbase, hinit, fun p => ?_⟩
  refine (h.stages p).keep (hsame p) ?_ ?_ ?_ ?_ ?_ ?_ (.inr (hnone p))
  · rw [hobjects]
  · rw [hobjects]
  · rw [htodo]
  · exact hengine.imp_right fun hz => by omega
  · rw [hcreated]
  · rw [hstarted]

/-- The consumer is done with a reading. -/
theorem nextReading (h : s.StageInv m) (hpc : s.pc = .releaseBench)
    (hcur : s.x.k.current = .consumer) {pc : XenoPc F} {i : Nat}
    (hrun : run Threads.call s.x [.act .consumer] = some x')
    (hplace : pc.Place (x'.pc .consumer)) (hcreated : pc.created = 0) (hstarted : pc.started = 0) :
    StageInv m { s with x := x', i := i, pc := pc } := by
  obtain ⟨hL, hbase, hinit, hsame⟩ := h.calls (by simp) hrun
  refine ⟨hL, hplace, hbase, hinit, fun p => ?_⟩
  have hnone := h.not_live hcur (by simp [hpc]) p
  have hexited : s.Exited p := by
    have hlt : p.index < s.pc.started := by
      rw [hpc]
      exact p.index_lt
    exact (((h.stages p).started hlt).resolve_left fun hl => hnone hl.1).1
  apply StageOk.of_exited
  · exact (hsame p).place.trans (h.stages p).idle
  · refine ⟨hexited.1, hexited.2.1, ?_⟩
    show (x'.k.thread (.stage p)).stat = .init ∨ _
    rw [(hsame p).stat]
    exact hexited.2.2
  · simp [hcreated]
  · simp [hstarted]

/-- `rt_thread_init`: the thread is initialised, and the others are as they were. -/
theorem create (h : s.StageInv m) (hpc : s.pc = .create p) (hcur : s.x.k.current = .consumer)
    {pc : XenoPc F} {k : Kernel Worker Lock AppTimer} {objects : Objects Worker}
    (hk : s.x.k.rtThreadInit s.objects (.stage p) p.priority = some (k, objects))
    (hplace : ∀ q, pc.Place q ↔ s.pc.Place q) (hcreated : pc.created = p.index + 1)
    (hstarted : pc.started = 0) :
    StageInv m { s with
      x := { s.x with k := k }
      objects := objects
      todo := Function.update s.todo p (p.entry m s.engine)
      pc := pc } := by
  have hcreated₀ : s.pc.created = p.index := by
    rw [hpc]
    rfl
  have hstarted₀ : s.pc.started = 0 := by
    rw [hpc]
    rfl
  have hlocks := h.locks.init (h.stages p).idle hk
  obtain ⟨rfl, rfl⟩ := Kernel.rtThreadInit_eq hk
  refine ⟨hlocks, (hplace _).mpr h.place, ?_, ?_, fun q => ?_⟩
  · rw [← h.base]
    exact Threads.basePriority_frame rfl (fun _ => rfl) (by simp [Worker.consumer])
  · simpa [Worker.consumer] using h.initPriority
  · by_cases hqp : q = p
    · subst hqp
      refine ⟨(h.stages q).idle, ?_, ?_, ?_, ?_, ?_⟩
      · simp
      · intro hc
        simp only [hcreated] at hc
        omega
      · simp
      · simp [hstarted]
      · simp [Live]
    · have hne : q.index ≠ p.index := fun he => hqp (Stage.index_inj.mp he)
      refine (h.stages q).keep ⟨rfl, rfl, ?_, ?_, ?_⟩ ?_ ?_ ?_ (.inl rfl) ?_ ?_
        (.inr (h.not_live hcur (by simp [hpc]) q))
      · simp [hqp]
      · simp [hqp]
      · simp [hqp]
      · simp [hqp]
      · simp [hqp]
      · simp [hqp]
      · simp only [hcreated, hcreated₀]
        omega
      · simp only [hstarted, hstarted₀]

/-- `rt_thread_startup`: the thread is ready, at the priority it was initialised with. -/
theorem startup (h : s.StageInv m) (hpc : s.pc = .startup p) (hcur : s.x.k.current = .consumer)
    (hcall : s.x.call (.startup (.stage p)) = some x') :
    StageInv m { s with x := x', pc := .schedule p } := by
  have hcreated : s.pc.created = 4 := by
    rw [hpc]
    rfl
  have hstarted : s.pc.started = p.index := by
    rw [hpc]
    rfl
  have hlocks := h.locks.call hcall
  have hbase := Threads.call_basePriority (u := .consumer) h.locks hcall (by
    intro hc
    cases hc)
  have hinit := Threads.call_initPriority hcall
  have hplace := h.place
  rw [hpc] at hplace
  obtain ⟨hp, hprio, -⟩ := (h.stages p).initialised (by omega) (hcreated ▸ p.index_lt)
  obtain ⟨k, hk, rfl⟩ := Option.map_eq_some_iff.mp hcall
  unfold Kernel.rtThreadStartup at hk
  rw [if_pos hp] at hk
  cases hk
  refine ⟨hlocks, hplace, hbase.trans h.base, (hinit _).trans h.initPriority, fun q => ?_⟩
  by_cases hqp : q = p
  · subst hqp
    have hready : (((s.x.k.setThread (.stage q) { s.x.k.thread (.stage q) with
        currentPriority := (s.x.k.thread (.stage q)).initPriority
        stat := .suspend }).rtThreadResume (.stage q)).thread (.stage q)).stat = .ready := by
      simp [Kernel.rtThreadResume_stat, hcur, Worker.consumer]
    refine ⟨(h.stages q).idle, ?_, ?_, ?_, fun _ => .inl ⟨.inl hready, rfl, ?_⟩, fun _ _ => rfl⟩
    · intro hrun
      rw [hready] at hrun
      cases hrun
    · intro hc
      have := q.index_lt
      simp only [XenoPc.created] at hc
      omega
    · intro hs
      simp only [XenoPc.started] at hs
      omega
    · simp [hprio]
  · have hne : q.index ≠ p.index := fun he => hqp (Stage.index_inj.mp he)
    refine (h.stages q).keep ⟨?_, rfl, ?_, ?_, hinit _⟩ .rfl .rfl rfl (.inl rfl) ?_ ?_
      (.inr (h.not_live hcur (by simp [hpc]) q))
    · simp
    · simp [Kernel.rtThreadResume_stat, hqp]
    · simp [hqp]
    · rw [hcreated]
      rfl
    · rw [hstarted]
      show q.index < p.index + 1 ↔ q.index < p.index
      omega

/-- An assignment or a test of a thread of the pipeline. -/
theorem assign (h : s.StageInv m) {todo : List (Stmt Var F)} {g : Var → F} (hp : s.Live p) :
    StageInv m { s with todo := Function.update s.todo p todo, g := g } := by
  refine ⟨h.locks, h.place, h.base, h.initPriority, fun q => ?_⟩
  by_cases hqp : q = p
  · subst hqp
    have hlive := (h.stages q).of_live hp
    refine ⟨(h.stages q).idle, (h.stages q).running, (h.stages q).absent, fun hs => ?_,
      fun _ => .inl ⟨hp, hlive.2⟩, (h.stages q).waits⟩
    exact absurd hlive.1 (not_lt.mpr hs)
  · exact (h.stages q).keep (SameStage.refl _ _) .rfl .rfl (by simp [hqp]) (.inl rfl) .rfl .rfl
      (.inl rfl)

/-- A thread of the pipeline ends. -/
theorem exit (h : s.StageInv m) (htodo : s.todo p = [])
    (hrun : (s.x.k.thread (.stage p)).stat = .running)
    (hcall : s.x.call (.exit (.stage p)) = some x') :
    StageInv m { s with x := x', objects := s.objects.detach (.stage p) } := by
  have hlive := (h.stages p).of_live (.inr hrun)
  have hcur := (h.stages p).running hrun
  have hlocks := h.locks.call hcall
  have hbase := Threads.call_basePriority (u := .consumer) h.locks hcall id
  have hinit := Threads.call_initPriority hcall
  simp only [Threads.call] at hcall
  rw [if_pos ⟨hcur, hrun⟩] at hcall
  cases hcall
  refine ⟨hlocks, h.place, hbase.trans h.base, (hinit _).trans h.initPriority, fun q => ?_⟩
  by_cases hqp : q = p
  · subst hqp
    have hclose : ((s.x.k.rtThreadExit (.stage q)).thread (.stage q)).stat = .close := by
      simp [Kernel.rtThreadExit]
    have hexited : Exited { s with
        x := { s.x with k := s.x.k.rtThreadExit (.stage q) }
        objects := s.objects.detach (.stage q) } q := by
      refine ⟨?_, ?_, .inr hclose⟩
      · simp [Objects.detach, rtObjectDetach]
      · simp [Objects.detach, rtObjectDetach]
    refine ⟨(h.stages q).idle, ?_, fun _ => hexited, fun hs => absurd hlive.1 (not_lt.mpr hs),
      fun _ => .inr ⟨hexited, htodo⟩, fun hl => absurd hl hexited.not_live⟩
    intro hr
    rw [hclose] at hr
    cases hr
  · refine (h.stages q).keep ⟨rfl, rfl, ?_, ?_, ?_⟩ ?_ ?_ rfl (.inl rfl) .rfl .rfl (.inl rfl)
    · simp [Kernel.rtThreadExit, hqp]
    · simp [Kernel.rtThreadExit, hqp]
    · simp [Kernel.rtThreadExit, hqp]
    · simp [Objects.detach, rtObjectDetach, hqp]
    · simp [Objects.detach, rtObjectDetach, hqp]

/-- A statement of the consumer. -/
theorem consumer (h : s.StageInv m) (hcur : s.x.k.current = .consumer) {engine : Engine}
    {chosen : Option Worker} (hstep : s.consumerStep m engine chosen = some s') :
    s'.StageInv m := by
  have hplace := h.place
  have hact : ∀ {y : Threads Worker Lock AppTimer},
      run Threads.call s.x [.act .consumer] = some y →
      (s.x.pc .consumer).After (y.pc .consumer) := by
    intro y hy
    simp only [run_cons, run_nil, Option.bind_eq_some_iff, Option.some.injEq] at hy
    obtain ⟨y', hy', rfl⟩ := hy
    exact Threads.call_act_pc hy'
  have hload : ∀ {prog : List (Act Lock)} {y : Threads Worker Lock AppTimer},
      run Threads.call s.x [.load .consumer prog, .act .consumer] = some y →
      (Pc.run prog).After (y.pc .consumer) := by
    intro prog y hy
    simp only [run_cons, run_nil, Option.bind_eq_some_iff, Option.some.injEq] at hy
    obtain ⟨y', hy', y'', hy'', rfl⟩ := hy
    have hpc : y'.pc .consumer = .run prog := by
      simp only [Threads.call] at hy'
      split at hy'
      · cases hy'
        simp
      · cases hy'
    rw [← hpc]
    exact Threads.call_act_pc hy''
  have hnone : (∀ p, s.pc ≠ .schedule p) → ∀ p, ¬s.Live p := h.not_live hcur
  -- the statements without kernel calls, and those that take, release and sleep
  have hstay : s'.x = s.x → s'.objects = s.objects → s'.todo = s.todo →
      (s'.engine = s.engine ∨ s.pc.created = 0) → (∀ p, s.pc ≠ .schedule p) →
      s'.pc.Place (s.x.pc .consumer) → s'.pc.counts = s.pc.counts → s'.StageInv m := by
    intro hx hobjects htodo hengine hs hpl hcounts
    have hrun : run Threads.call s.x [] = some s'.x := by
      rw [hx]
      rfl
    exact h.goOn (by simp) hrun (hnone hs) (hx ▸ hpl) hobjects htodo hengine hcounts
  have hgo : ∀ {cs pc}, s.goOn cs pc = some s' →
      (∀ c ∈ cs, c = .act .consumer ∨ ∃ prog, c = .load .consumer prog) →
      (∀ p, s.pc ≠ .schedule p) →
      (∀ y, run Threads.call s.x cs = some y → pc.Place (y.pc .consumer)) →
      pc.counts = s.pc.counts → s'.StageInv m := by
    intro cs pc hgo hcs hs hpl hcounts
    obtain ⟨y, hy, rfl⟩ := Option.map_eq_some_iff.mp hgo
    exact h.goOn hcs hy (hnone hs) (hpl y hy) rfl rfl (.inl rfl) hcounts
  have hreturned : ∀ {n todo pc}, s.returned pc = some s' →
      (s.x.pc .consumer = .run todo ∨ s.x.pc .consumer = .inTake n todo) →
      (∀ p, s.pc ≠ .schedule p) → pc.Place (.run todo) → pc.counts = s.pc.counts →
      s'.StageInv m := by
    intro n todo pc hret hpl hs hpc hcounts
    unfold returned at hret
    rcases hpl with hpl | hpl
    · rw [hpl] at hret
      refine hgo hret (by simp) hs (fun y hy => ?_) hcounts
      cases hy
      rw [hpl]
      exact hpc
    · rw [hpl] at hret
      refine hgo hret (by simp) hs (fun y hy => ?_) hcounts
      have := hact hy
      rw [hpl] at this
      rw [show y.pc .consumer = .run todo from this]
      exact hpc
  unfold consumerStep at hstep
  cases hpc : s.pc with
  | delay tick =>
    simp only [hpc] at hstep
    exact hgo hstep (by simp) (by simp [hpc]) (fun y hy => hload hy) (by rw [hpc]; rfl)
  | inSleep =>
    simp only [hpc] at hstep
    refine hgo hstep (by simp) (by simp [hpc]) (fun y hy => ?_) (by rw [hpc]; rfl)
    have := hact hy
    rw [hpc] at hplace
    rw [show s.x.pc .consumer = .inSleep [] from hplace] at this
    exact this
  | chooseEngine =>
    simp only [hpc] at hstep
    cases hstep
    refine hstay rfl rfl rfl (.inr (by rw [hpc]; rfl)) (by simp [hpc]) ?_ (by rw [hpc]; rfl)
    rw [hpc] at hplace
    exact hplace
  | defaultParam todo =>
    rw [hpc] at hplace
    cases todo with
    | nil =>
      simp only [hpc] at hstep
      cases hstep
      exact hstay rfl rfl rfl (.inl rfl) (by simp [hpc]) hplace (by rw [hpc]; rfl)
    | cons st todo =>
      simp only [hpc] at hstep
      cases hstep
      exact hstay rfl rfl rfl (.inl rfl) (by simp [hpc]) hplace (by rw [hpc]; rfl)
  | takeRaw =>
    simp only [hpc] at hstep
    exact hgo hstep (by simp) (by simp [hpc]) (fun y hy => hload hy) (by rw [hpc]; rfl)
  | tookRaw =>
    simp only [hpc] at hstep
    rw [hpc] at hplace
    exact hreturned hstep hplace (by simp [hpc]) rfl (by rw [hpc]; rfl)
  | readAcc =>
    simp only [hpc] at hstep
    cases hstep
    rw [hpc] at hplace
    exact hstay rfl rfl rfl (.inl rfl) (by simp [hpc]) hplace (by rw [hpc]; rfl)
  | readBaro =>
    simp only [hpc] at hstep
    cases hstep
    rw [hpc] at hplace
    exact hstay rfl rfl rfl (.inl rfl) (by simp [hpc]) hplace (by rw [hpc]; rfl)
  | readGyro =>
    simp only [hpc] at hstep
    cases hstep
    rw [hpc] at hplace
    exact hstay rfl rfl rfl (.inl rfl) (by simp [hpc]) hplace (by rw [hpc]; rfl)
  | releaseRaw =>
    simp only [hpc] at hstep
    refine hgo hstep (by simp) (by simp [hpc]) (fun y hy => ?_) (by rw [hpc]; rfl)
    have := hact hy
    rw [hpc] at hplace
    rw [show s.x.pc .consumer = _ from hplace] at this
    exact this
  | create p =>
    simp only [hpc] at hstep
    obtain ⟨⟨k, objects⟩, hk, rfl⟩ := Option.map_eq_some_iff.mp hstep
    refine h.create hpc hcur hk ?_ ?_ ?_
    · intro q
      rw [hpc]
      cases p <;> exact Iff.rfl
    · cases p <;> rfl
    · cases p <;> rfl
  | startup p =>
    simp only [hpc, Xeno.goOn, run_cons, run_nil] at hstep
    obtain ⟨y, hy, rfl⟩ := Option.map_eq_some_iff.mp hstep
    simp only [Option.bind_eq_some_iff, Option.some.injEq] at hy
    obtain ⟨y', hy', rfl⟩ := hy
    exact h.startup hpc hcur hy'
  | schedule p =>
    rw [hpc] at hplace
    simp only [hpc] at hstep
    cases chosen with
    | none =>
      simp only at hstep
      split at hstep
      · next hstays =>
        cases hstep
        have hrun : run Threads.call s.x [] = some s.x := rfl
        refine h.goOn (by simp) hrun (h.not_live_of_stays hcur hstays) ?_ rfl rfl (.inl rfl) ?_
        · cases p <;> exact hplace
        · rw [hpc]
          cases p <;> rfl
      · cases hstep
    | some t =>
      simp only at hstep
      split at hstep
      · next hpicks =>
        simp only [Xeno.goOn, run_cons, run_nil] at hstep
        obtain ⟨y, hy, rfl⟩ := Option.map_eq_some_iff.mp hstep
        simp only [Option.bind_eq_some_iff, Option.some.injEq] at hy
        obtain ⟨y', hy', rfl⟩ := hy
        refine h.switch hpicks hy' ?_ ?_ ?_
        · cases p <;> exact hplace
        · rw [hpc]
          cases p <;> rfl
        · rw [hpc]
          cases p <;> rfl
      · cases hstep
  | takeBench =>
    simp only [hpc] at hstep
    refine hgo hstep (by simp) (by simp [hpc]) (fun y hy => ?_) (by rw [hpc]; rfl)
    have := hact hy
    rw [hpc] at hplace
    rw [show s.x.pc .consumer = _ from hplace] at this
    exact this
  | tookBench =>
    simp only [hpc] at hstep
    rw [hpc] at hplace
    exact hreturned hstep hplace (by simp [hpc]) rfl (by rw [hpc]; rfl)
  | store j =>
    simp only [hpc] at hstep
    rw [hpc] at hplace
    split at hstep
    · cases hstep
      exact hstay rfl rfl rfl (.inl rfl) (by simp [hpc]) hplace (by rw [hpc]; rfl)
    · cases hstep
      exact hstay rfl rfl rfl (.inl rfl) (by simp [hpc]) hplace (by rw [hpc]; rfl)
  | releaseBench =>
    simp only [hpc] at hstep
    obtain ⟨y, hy, rfl⟩ := Option.map_eq_some_iff.mp hstep
    have := hact hy
    rw [hpc] at hplace
    rw [show s.x.pc .consumer = _ from hplace] at this
    refine h.nextReading hpc hcur hy ?_ ?_ ?_
    · split <;> exact this
    · split <;> rfl
    · split <;> rfl

end StageInv

/-! ## What is computed -/

/-- What the threads of the pipeline have left to do, one after the other. -/
def left (s : Xeno F) : List (Stmt Var F) :=
  s.todo .deduceInputs ++ s.todo .getThermo ++ s.todo .getGeo ++ s.todo .calcPerf

end Xeno

/-- The globals after some readings. -/
def globalsAfter (m : Utilities F) (engine : Engine) (g : Var → F) (xs : List (Reading F)) :
    Var → F :=
  exec (xs.flatMap (evaluate m engine)) g

theorem globalsAfter_snoc (m : Utilities F) (engine : Engine) (g : Var → F) (xs : List (Reading F))
    (x : Reading F) : globalsAfter m engine g (xs ++ [x]) =
      exec (evaluate m engine x) (globalsAfter m engine g xs) := by
  simp [globalsAfter, exec_append]

theorem sequential_snoc (m : Utilities F) (engine : Engine) (g : Var → F) (xs : List (Reading F))
    (x : Reading F) : sequential m engine g (xs ++ [x]) =
      sequential m engine g xs ++ [benchResults (globalsAfter m engine g (xs ++ [x]))] := by
  induction xs generalizing g with
  | nil => simp [sequential, globalsAfter]
  | cons y ys ih =>
    simp only [List.cons_append, sequential, ih, globalsAfter, List.flatMap_cons, exec_append]

namespace XenoRun

/-- The results stored are those of the benchmark without threads. -/
def Complete (m : Utilities F) (r : XenoRun F) : Prop :=
  r.stored = sequential m r.engine (exec defaultParam r.globals) r.readings

/-- Every reading has its results stored, and these are the globals after it. -/
def Settled (m : Utilities F) (r : XenoRun F) (g : Var → F) : Prop :=
  r.Complete m ∧ g = globalsAfter m r.engine (exec defaultParam r.globals) r.readings

/-- The results of the last reading are not stored yet, and these are the globals with its
inputs. -/
def Open (m : Utilities F) (r : XenoRun F) (g : Var → F) : Prop :=
  ∃ xs x, r.readings = xs ++ [x] ∧
    r.stored = sequential m r.engine (exec defaultParam r.globals) xs ∧
    g = exec (takeInputs x) (globalsAfter m r.engine (exec defaultParam r.globals) xs)

variable {m : Utilities F}

/-- The inputs of the reading have been read. -/
theorem Settled.open_reading {r : XenoRun F} {g : Var → F} (h : r.Settled m g) (x : Reading F) :
    Open m { r with readings := r.readings ++ [x] } (exec (takeInputs x) g) := by
  refine ⟨r.readings, x, rfl, h.1, ?_⟩
  rw [h.2]

/-- The results of the reading are stored. -/
theorem Open.settled {r : XenoRun F} {g g' : Var → F} (h : r.Open m g)
    (hg' : g' = exec (pipeline m r.engine) g) :
    Settled m { r with stored := r.stored ++ [benchResults g'] } g' := by
  obtain ⟨xs, x, hreadings, hstored, hg⟩ := h
  have hafter : g' = globalsAfter m r.engine (exec defaultParam r.globals) (xs ++ [x]) := by
    rw [hg', hg, globalsAfter_snoc, evaluate, exec_append]
  refine ⟨?_, ?_⟩
  · show r.stored ++ [benchResults g'] =
      sequential m r.engine (exec defaultParam r.globals) r.readings
    rw [hreadings, sequential_snoc, hstored, ← hafter]
  · show g' = globalsAfter m r.engine (exec defaultParam r.globals) r.readings
    rw [hreadings, hafter]

end XenoRun

namespace Xeno

variable {m : Utilities F} {s s' : Xeno F} {p q : Stage}

/-- What the globals and the records hold, wherever the consumer is. -/
def Data (m : Utilities F) (s : Xeno F) : Prop :=
  match s.pc with
  | .delay _ | .inSleep | .chooseEngine => s.present.Complete m
  | .defaultParam todo => s.present.readings = [] ∧ s.present.stored = [] ∧
      exec todo s.g = exec defaultParam s.present.globals
  | .takeRaw | .tookRaw | .readAcc | .releaseBench => s.present.Settled m s.g
  | .readBaro => ∃ g, s.present.Settled m g ∧ s.g = Function.update g .u0d s.snapshot.u0d
  | .readGyro => ∃ g, s.present.Settled m g ∧
      s.g = Function.update (Function.update g .u0d s.snapshot.u0d) .altd s.snapshot.altd
  | .releaseRaw | .create _ => s.present.Open m s.g
  | .startup _ | .schedule _ | .takeBench => ∃ g, s.present.Open m g ∧
      exec s.left s.g = exec (pipeline m s.engine) g
  | .tookBench => ∃ g, s.present.Open m g ∧ s.g = exec (pipeline m s.engine) g
  | .store j => (∃ g, s.present.Open m g ∧ s.g = exec (pipeline m s.engine) g) ∧
      ∀ k < j, s.results k = benchResult s.g k

/-- The invariant of the benchmark. -/
structure Inv (m : Utilities F) (s : Xeno F) : Prop where
  stages : s.StageInv m
  engine : s.present.engine = s.engine
  data : s.Data m
  finished : ∀ r ∈ s.finished, r.Complete m

theorem StageInv.todo_nil (h : s.StageInv m) (hnone : ∀ p, ¬s.Live p)
    (hp : p.index < s.pc.started) :
    s.todo p = [] :=
  (((h.stages p).started hp).resolve_left fun hl => hnone p hl.1).2

/-- Before the first of them is started, the threads have the whole pipeline left to do. -/
theorem StageInv.left_pipeline (h : s.StageInv m) (hpc : s.pc = .startup .deduceInputs) :
    s.left = pipeline m s.engine := by
  have hentry : ∀ p, s.todo p = p.entry m s.engine := by
    intro p
    refine ((h.stages p).initialised ?_ ?_).2.2
    · rw [hpc]
      exact Nat.zero_le _
    · rw [hpc]
      exact p.index_lt
  simp only [left, hentry]
  rfl

/-- An assignment or a test of the thread that is left does not change where they lead. -/
theorem StageInv.exec_left (h : s.StageInv m) (hp : s.Live p)
    (htodo : s'.todo = Function.update s.todo p (next (s.todo p) s.g).1)
    (hg : s'.g = (next (s.todo p) s.g).2) : exec s'.left s'.g = exec s.left s.g := by
  have hbefore : ∀ q, q.index < p.index → s.todo q = [] := by
    intro q hq
    obtain ⟨hlt, hlaunched, -⟩ := (h.stages p).of_live hp
    obtain ⟨-, hl, -⟩ | ⟨-, htodo⟩ := (h.stages q).started (by omega)
    · rw [hl] at hlaunched
      cases hlaunched
      omega
    · exact htodo
  have hdeduce := hbefore .deduceInputs
  have hthermo := hbefore .getThermo
  have hgeo := hbefore .getGeo
  unfold left
  rw [htodo, hg]
  cases p with
  | deduceInputs => simp [exec_append, exec_next]
  | getThermo => simp [exec_append, exec_next, hdeduce (by decide)]
  | getGeo => simp [exec_append, exec_next, hdeduce (by decide), hthermo (by decide)]
  | calcPerf =>
    simp [exec_next, hdeduce (by decide), hthermo (by decide), hgeo (by decide)]

/-- A statement of the consumer. -/
theorem Inv.consumer (h : s.Inv m) (hcur : s.x.k.current = .consumer) {engine : Engine}
    {chosen : Option Worker} (hstep : s.consumerStep m engine chosen = some s') : s'.Inv m := by
  have hstages := h.stages.consumer hcur hstep
  have hdata := h.data
  -- the statements that leave the globals and the records as they are
  have hgo : ∀ {cs pc}, s.goOn cs pc = some s' →
      (∀ y, Data m { s with x := y, pc := pc }) → s'.Inv m := by
    intro cs pc hgo hd
    obtain ⟨y, -, rfl⟩ := Option.map_eq_some_iff.mp hgo
    exact ⟨hstages, h.engine, hd y, h.finished⟩
  have hreturned : ∀ {pc}, s.returned pc = some s' →
      (∀ y, Data m { s with x := y, pc := pc }) → s'.Inv m := by
    intro pc hret hd
    unfold returned at hret
    split at hret <;> exact hgo hret hd
  unfold consumerStep at hstep
  unfold Data at hdata
  cases hpc : s.pc with
  | delay tick =>
    simp only [hpc] at hstep hdata
    exact hgo hstep fun y => hdata
  | inSleep =>
    simp only [hpc] at hstep hdata
    exact hgo hstep fun y => hdata
  | chooseEngine =>
    simp only [hpc] at hstep hdata
    cases hstep
    refine ⟨hstages, rfl, ⟨rfl, rfl, rfl⟩, fun r hr => ?_⟩
    rcases List.mem_cons.mp hr with rfl | hr
    · exact hdata
    · exact h.finished r hr
  | defaultParam todo =>
    simp only [hpc] at hstep hdata
    obtain ⟨hreadings, hstored, hexec⟩ := hdata
    cases todo with
    | nil =>
      cases hstep
      refine ⟨hstages, h.engine, ⟨?_, ?_⟩, h.finished⟩
      · show s.present.stored = sequential _ _ _ s.present.readings
        rw [hreadings, hstored]
        rfl
      · show s.g = globalsAfter _ _ _ s.present.readings
        rw [hreadings, ← hexec]
        rfl
    | cons st todo =>
      cases hstep
      refine ⟨hstages, h.engine, ⟨hreadings, hstored, ?_⟩, h.finished⟩
      exact (exec_next _ _).trans hexec
  | takeRaw =>
    simp only [hpc] at hstep hdata
    exact hgo hstep fun y => hdata
  | tookRaw =>
    simp only [hpc] at hstep hdata
    exact hreturned hstep fun y => hdata
  | readAcc =>
    simp only [hpc] at hstep hdata
    cases hstep
    exact ⟨hstages, h.engine, ⟨_, hdata, rfl⟩, h.finished⟩
  | readBaro =>
    simp only [hpc] at hstep hdata
    obtain ⟨g, hsettled, hg⟩ := hdata
    cases hstep
    refine ⟨hstages, h.engine, ⟨g, hsettled, ?_⟩, h.finished⟩
    simp only [hg]
  | readGyro =>
    simp only [hpc] at hstep hdata
    obtain ⟨g, hsettled, hg⟩ := hdata
    cases hstep
    refine ⟨hstages, h.engine, ?_, h.finished⟩
    simp only [Data, hg]
    exact hsettled.open_reading _
  | releaseRaw =>
    simp only [hpc] at hstep hdata
    exact hgo hstep fun y => hdata
  | create p =>
    simp only [hpc] at hstep hdata
    obtain ⟨r, -, rfl⟩ := Option.map_eq_some_iff.mp hstep
    refine ⟨hstages, h.engine, ?_, h.finished⟩
    cases p with
    | deduceInputs | getThermo | getGeo => exact hdata
    | calcPerf => exact ⟨s.g, hdata, by rw [hstages.left_pipeline rfl]⟩
  | startup p =>
    simp only [hpc] at hstep hdata
    exact hgo hstep fun y => hdata
  | schedule p =>
    simp only [hpc] at hstep hdata
    cases chosen with
    | none =>
      simp only at hstep
      split at hstep
      · cases p <;> exact hgo hstep fun y => hdata
      · cases hstep
    | some t =>
      simp only at hstep
      split at hstep
      · cases p <;> exact hgo hstep fun y => hdata
      · cases hstep
  | takeBench =>
    have hnil : s.left = [] := by
      have htodo : ∀ p, s.todo p = [] := by
        intro p
        apply h.stages.todo_nil (h.stages.not_live hcur (by simp [hpc]))
        rw [hpc]
        exact p.index_lt
      simp [left, htodo]
    simp only [hpc] at hstep hdata
    obtain ⟨g, hopen, hexec⟩ := hdata
    rw [hnil, exec_nil] at hexec
    exact hgo hstep fun y => ⟨g, hopen, hexec⟩
  | tookBench =>
    simp only [hpc] at hstep hdata
    exact hreturned hstep fun y => ⟨hdata, fun k hk => absurd hk (Nat.not_lt_zero _)⟩
  | store j =>
    simp only [hpc] at hstep hdata
    obtain ⟨⟨g, hopen, hg⟩, hresults⟩ := hdata
    have hnew : ∀ k, k.val < j.val + 1 →
        Function.update s.results j (benchResult s.g j) k = benchResult s.g k := by
      intro k hk
      by_cases hkj : k = j
      · subst hkj
        simp
      · rw [Function.update_of_ne hkj]
        refine hresults k ?_
        have := Fin.val_ne_of_ne hkj
        exact Fin.lt_def.mpr (by omega)
    split at hstep
    · cases hstep
      exact ⟨hstages, h.engine, ⟨⟨g, hopen, hg⟩, fun k hk => hnew k hk⟩, h.finished⟩
    · next hlast =>
      cases hstep
      have hall : List.ofFn (Function.update s.results j (benchResult s.g j)) =
          benchResults s.g := by
        have : Function.update s.results j (benchResult s.g j) = benchResult s.g := by
          funext k
          exact hnew k (by omega)
        rw [this]
        rfl
      refine ⟨hstages, h.engine, ?_, h.finished⟩
      show XenoRun.Settled m { s.present with stored := s.present.stored ++ [List.ofFn _] } s.g
      rw [hall]
      exact hopen.settled (by rw [h.engine]; exact hg)
  | releaseBench =>
    simp only [hpc] at hstep hdata
    obtain ⟨y, -, rfl⟩ := Option.map_eq_some_iff.mp hstep
    refine ⟨hstages, h.engine, ?_, h.finished⟩
    by_cases hi : s.i + 1 < numReadings
    · simp only [Data, hi, if_true]
      exact hdata
    · simp only [Data, hi, if_false]
      exact hdata.1

/-- **Every event keeps the invariant.** -/
theorem Inv.step (h : s.Inv m) {e : XenoEvent F} (hstep : Xeno.step m s e = some s') :
    s'.Inv m := by
  cases e with
  | consumer engine chosen =>
    simp only [Xeno.step] at hstep
    split at hstep
    · next hrun => exact h.consumer hrun.1 hstep
    · cases hstep
  | stage p =>
    simp only [Xeno.step] at hstep
    split at hstep
    · next hrun =>
      have hp : s.Live p := .inr hrun.2
      unfold stageStep at hstep
      split at hstep
      · next htodo =>
        obtain ⟨y, hy, rfl⟩ := Option.map_eq_some_iff.mp hstep
        exact ⟨h.stages.exit htodo hrun.2 hy, h.engine, h.data, h.finished⟩
      · next st todo htodo =>
        cases hstep
        refine ⟨h.stages.assign hp, h.engine, ?_, h.finished⟩
        have hleft : exec (left ({ s with
            todo := Function.update s.todo p (next (st :: todo) s.g).1
            g := (next (st :: todo) s.g).2 })) (next (st :: todo) s.g).2 = exec s.left s.g :=
          h.stages.exec_left hp (by rw [htodo]) (by rw [htodo])
        have hlaunched := ((h.stages.stages p).of_live hp).2.1
        have hdata := h.data
        unfold Data at hdata ⊢
        cases hpc : s.pc with
        | startup q | schedule q | takeBench =>
          simp only [hpc] at hdata ⊢
          obtain ⟨g, hopen, hexec⟩ := hdata
          exact ⟨g, hopen, hleft.trans hexec⟩
        | _ =>
          rw [hpc] at hlaunched
          cases hlaunched
    · cases hstep
  | other c =>
    simp only [Xeno.step] at hstep
    split at hstep
    · next hc =>
      obtain ⟨y, hy, rfl⟩ := Option.map_eq_some_iff.mp hstep
      exact ⟨h.stages.other hc hy, h.engine, h.data, h.finished⟩
    · cases hstep
  | switch t =>
    simp only [Xeno.step] at hstep
    split at hstep
    · next hpicks =>
      obtain ⟨y, hy, rfl⟩ := Option.map_eq_some_iff.mp hstep
      exact ⟨h.stages.switch hpicks hy h.stages.place rfl rfl, h.engine, h.data, h.finished⟩
    · cases hstep
  | sample accV baroV gyroV =>
    cases hstep
    refine ⟨⟨h.stages.locks, h.stages.place, h.stages.base, h.stages.initPriority, fun p => ?_⟩,
      h.engine, h.data, h.finished⟩
    exact (h.stages.stages p).keep (SameStage.refl _ _) .rfl .rfl rfl (.inl rfl) .rfl .rfl
      (.inl rfl)

/-- The state it starts from. -/
theorem Inv.start (cfg : Config Task) (tick : Nat) (engine : Engine) (g : Var → F)
    (results : Fin 14 → F) (accV baroV gyroV : Nat → F) :
    Inv m (Xeno.start cfg tick engine g results accV baroV gyroV) := by
  refine ⟨⟨?_, rfl, rfl, rfl, fun p => ?_⟩, rfl, rfl, by simp [Xeno.start]⟩
  · exact
      { nested := fun _ => rfl
        distinct := fun _ => List.nodup_nil
        inTake := by simp [Xeno.start]
        owner_mem := by simp [Xeno.start, Kernel.withStages, afterInit, initial]
        waits := by simp [Xeno.start, Kernel.withStages, afterInit, initial]
        nodup := fun _ => List.nodup_nil
        free := fun _ _ => ⟨rfl, rfl, rfl⟩
        held := by simp [Xeno.start, Kernel.withStages, afterInit, initial]
        sleeps := by simp [Xeno.start, Kernel.withStages, afterInit, initial]
        listed := by simp [Xeno.start, Kernel.withStages, afterInit, initial] }
  · apply StageOk.of_exited
    · rfl
    · refine ⟨by simp [Xeno.start], by simp [Xeno.start], .inl rfl⟩
    · exact Nat.zero_le _
    · exact Nat.zero_le _

/-- The results stored are those of the benchmark without threads, as far as there are any. -/
theorem Inv.stored_prefix (h : s.Inv m) (r : XenoRun F) (hr : r ∈ s.present :: s.finished) :
    r.stored <+: sequential m r.engine (exec defaultParam r.globals) r.readings := by
  have hcomplete : ∀ {r : XenoRun F}, r.Complete m →
      r.stored <+: sequential m r.engine (exec defaultParam r.globals) r.readings := by
    intro r hr
    rw [← show r.stored = _ from hr]
  have hopen : ∀ {r : XenoRun F} {g : Var → F}, r.Open m g →
      r.stored <+: sequential m r.engine (exec defaultParam r.globals) r.readings := by
    rintro r g ⟨xs, x, hreadings, hstored, -⟩
    rw [hreadings, sequential_snoc, hstored]
    exact List.prefix_append _ _
  rcases List.mem_cons.mp hr with rfl | hr
  · have hdata := h.data
    unfold Data at hdata
    split at hdata
    · exact hcomplete hdata
    · exact hcomplete hdata
    · exact hcomplete hdata
    · rw [hdata.2.1]
      exact List.nil_prefix
    · exact hcomplete hdata.1
    · exact hcomplete hdata.1
    · exact hcomplete hdata.1
    · exact hcomplete hdata.1
    · obtain ⟨g, hsettled, -⟩ := hdata
      exact hcomplete hsettled.1
    · obtain ⟨g, hsettled, -⟩ := hdata
      exact hcomplete hsettled.1
    · exact hopen hdata
    · exact hopen hdata
    · obtain ⟨g, ho, -⟩ := hdata
      exact hopen ho
    · obtain ⟨g, ho, -⟩ := hdata
      exact hopen ho
    · obtain ⟨g, ho, -⟩ := hdata
      exact hopen ho
    · obtain ⟨g, ho, -⟩ := hdata
      exact hopen ho
    · obtain ⟨⟨g, ho, -⟩, -⟩ := hdata
      exact hopen ho
  · exact hcomplete (h.finished r hr)

end Xeno

end OsesProject
