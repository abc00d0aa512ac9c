import OsesProject.Laws.Scheduler
import OsesProject.Laws.Exclusion

/-!
# Runs of the linked kernel

`step_refines` puts the operations together: from a valid state every event of the linked kernel is
possible exactly when the threads' states allow it, leaves a valid state, and is one or two calls
of `Threads.call`, the scheduler's among them with a choice that `Kernel.RtSchedulePicks` leaves
open. Over runs: `linked_run_valid` (no step of any run reads a list head as a thread, indexes the
table outside its range or fails an assertion on the lists) and `linked_run_refines`, through which
the laws proved of `Threads.call` hold of the kernel with its lists in memory; mutual exclusion is
carried over here.
-/

set_option linter.unusedSectionVars false

namespace OsesProject

open Machine

variable {T M A : Type} [DecidableEq T] [DecidableEq M] [DecidableEq A]

/-- An event that can be asked of the kernel: a priority that is one, and neither of the calls that
stand for `rt_schedule` and the tick interrupt. -/
def KernelEvent.InRange : KernelEvent T M A → Prop
  | .call (.schedule _) => False
  | .call .tick => False
  | .call (.control _ priority) => priority < rtThreadPriorityMax
  | _ => True

instance (e : KernelEvent T M A) : Decidable e.InRange := by
  unfold KernelEvent.InRange
  split <;> infer_instance

/-- The event gives a thread a priority by name. -/
def KernelEvent.Requeues (e : KernelEvent T M A) (t : T) : Prop :=
  ∃ priority, e = .call (.control t priority)

namespace LinkedThreads

open RingNode ListId LinkedKernel

variable {x x' : LinkedThreads T M A} {content content' : ListId M → List T}

/-- The threads and their places without the lists. -/
def abs (x : LinkedThreads T M A) (content : ListId M → List T) : Threads T M A :=
  ⟨x.c.abs content, x.pc⟩

/-- What a step comes to: a valid state, the ready lists changed as queues change. -/
structure Stepped (x x' : LinkedThreads T M A) (content content' : ListId M → List T)
    (e : KernelEvent T M A) (fs : List (Call T M A)) : Prop where
  valid : Valid x'.c content'
  run : run Threads.call (x.abs content) fs = some (x'.abs content')
  picks : Each Threads.call (fun y f => ∀ t, f = .schedule t → y.k.RtSchedulePicks t)
    (x.abs content) fs
  calls : (∃ f, e = .call f ∧ fs = [f]) ∨ ∀ f ∈ fs, f = .tick ∨ ∃ t, f = .schedule t
  moved : ∀ p, Moved e.Requeues (content (priorityTable p)) (content' (priorityTable p))
  dispatch : x'.c.objects.current ≠ x.c.objects.current → ∃ us,
    content (priorityTable (x.c.objects.thread x'.c.objects.current).currentPriority) =
      x'.c.objects.current :: us ∧ ∀ p, x'.c.objects.current ∉ content' (priorityTable p)

/-- A step that is one call. -/
theorem Stepped.of_call {f : Call T M A} (hvalid : Valid x'.c content')
    (hcall : (x.abs content).call f = some (x'.abs content')) (hf : ∀ t, f ≠ .schedule t)
    (hmoved : ∀ p, Moved (KernelEvent.call f).Requeues (content (priorityTable p))
      (content' (priorityTable p))) : Stepped x x' content content' (.call f) [f] := by
  refine ⟨hvalid, ?_, ?_, .inl ⟨f, rfl, rfl⟩, hmoved, fun hne => ?_⟩
  · rw [run_cons, hcall]
    rfl
  · exact ⟨fun t ht => absurd ht (hf t), fun _ _ => trivial⟩
  · exact absurd (Threads.call_current hcall hf) hne

/-- An operation on the kernel that refines is a step, once its call is known. -/
theorem Stepped.of_refines {f : Call T M A} {r : Option (LinkedKernel T M A)} {k : Kernel T M A}
    (pc : T → Pc M) (hr : Refines (fun _ => False) content r k)
    (hcall : (x.abs content).call f = some ⟨k, pc⟩) (hf : ∀ t, f ≠ .schedule t) :
    ∃ c' content', r = some c' ∧ Stepped x ⟨c', pc⟩ content content' (.call f) [f] := by
  obtain ⟨c', content', hc', hvalid, habs, hmoved⟩ := hr
  refine ⟨c', content', hc', Stepped.of_call hvalid ?_ hf fun p => (hmoved p).mono ?_⟩
  · rw [hcall, abs, habs]
  · exact fun _ hfalse => hfalse.elim

/-- **The next action of a thread refines.** -/
theorem act_refines (h : Valid x.c content) {t : T}
    (ht : (x.c.objects.thread t).stat = .running) :
    (((x.c.abs content).actStep t (x.pc t) = none ∧ x.c.actStep t (x.pc t) = none)) ∨
      ∃ p c' content', x.c.actStep t (x.pc t) = some (p, c') ∧ Valid c' content' ∧
        (x.c.abs content).actStep t (x.pc t) = some (p, c'.abs content') ∧
        ∀ q, Moved (fun _ => False) (content (priorityTable q)) (content' (priorityTable q)) := by
  cases x.pc t with
  | run todo =>
    cases todo with
    | nil => exact .inl ⟨rfl, rfl⟩
    | cons a todo =>
      cases a with
      | take m =>
        obtain ⟨c', content', hc', h', habs', hmoved⟩ := rtMutexTake_refines h ht m
        right
        simp only [actStep, Kernel.actStep, hc', Option.map_some]
        rcases hr : (x.c.abs content).rtMutexTake t m with ⟨k, r⟩
        rw [hr] at habs'
        cases r with
        | blocked => exact ⟨_, c', content', rfl, h', by rw [habs'], hmoved⟩
        | taken => exact ⟨_, c', content', rfl, h', by rw [habs'], hmoved⟩
        | full => exact ⟨_, c', content', rfl, h', by rw [habs'], hmoved⟩
      | release m =>
        obtain ⟨c', content', hc', h', habs', hmoved⟩ := rtMutexRelease_refines h ht m
        right
        simp only [actStep, Kernel.actStep, hc', Option.map_some]
        exact ⟨_, c', content', rfl, h', by rw [habs'], hmoved⟩
      | delay tick =>
        simp only [actStep, Kernel.actStep]
        rcases rtThreadSleep_refines h t tick with ⟨hk, hc⟩ | ⟨k, hk, c', content', hc', h', habs',
          hmoved⟩
        · rw [hk, hc]
          exact .inl ⟨rfl, rfl⟩
        · right
          rw [hk, hc']
          exact ⟨_, c', content', rfl, h', by rw [habs']; rfl, hmoved⟩
  | inTake m todo => exact .inr ⟨_, x.c, content, rfl, h, rfl, fun q => Moved.refl _ _⟩
  | inSleep todo =>
    right
    simp only [actStep, Kernel.actStep]
    show ∃ p c' content', _ ∧ _ ∧ some (_, if (x.c.objects.thread t).error = .etimeout then _
      else _) = _ ∧ _
    by_cases he : (x.c.objects.thread t).error = .etimeout
    · rw [if_pos he, if_pos he]
      exact ⟨_, _, content, rfl, setError_valid h t .eok, rfl, fun q => Moved.refl _ _⟩
    · rw [if_neg he, if_neg he]
      exact ⟨_, x.c, content, rfl, h, rfl, fun q => Moved.refl _ _⟩

/-- **Every call refines**: it is possible when the threads' states allow it, and leaves a valid
state. -/
theorem call_refines (h : Valid x.c content) {f : Call T M A}
    (hf : (KernelEvent.call f).InRange) :
    ((x.abs content).call f = none ∧ x.call f = none) ∨
      ∃ x' content', x.call f = some x' ∧ Stepped x x' content content' (.call f) [f] := by
  cases f with
  | act t =>
    simp only [call]
    by_cases hg : x.c.objects.current = t ∧ (x.c.objects.thread t).stat = .running
    · have hcall : (x.abs content).call (.act t) = ((x.c.abs content).actStep t (x.pc t)).map
          fun r => ⟨r.2, Function.update x.pc t r.1⟩ := if_pos hg
      rw [if_pos hg, hcall]
      rcases act_refines h hg.2 with ⟨hk, hc⟩ | ⟨p, c', content', hc', h', hk, hmoved⟩
      · rw [hk, hc]
        exact .inl ⟨rfl, rfl⟩
      · right
        rw [hc']
        refine ⟨_, content', rfl, Stepped.of_call h' ?_ (by simp) fun q => (hmoved q).mono ?_⟩
        · rw [hcall, hk]
          rfl
        · exact fun _ hfalse => hfalse.elim
    · rw [if_neg hg]
      exact .inl ⟨if_neg hg, rfl⟩
  | load t prog =>
    simp only [call]
    by_cases hg : x.pc t = .run [] ∧ Nested [] prog
    · rw [if_pos hg]
      refine .inr ⟨_, content, rfl, Stepped.of_call h ?_ (by simp) fun q => Moved.refl _ _⟩
      exact if_pos hg
    · rw [if_neg hg]
      exact .inl ⟨if_neg hg, rfl⟩
  | resume t =>
    right
    obtain ⟨c', content', hc', hs⟩ := Stepped.of_refines (x := x) (f := .resume t) x.pc
      (rtThreadResume_refines h t) rfl (by simp)
    exact ⟨_, content', by simp only [call, hc', Option.map_some], hs⟩
  | suspend t =>
    right
    obtain ⟨c', content', hc', hs⟩ := Stepped.of_refines (x := x) (f := .suspend t) x.pc
      (rtThreadSuspend_refines h t) rfl (by simp)
    exact ⟨_, content', by simp only [call, hc', Option.map_some], hs⟩
  | startup t =>
    by_cases ht : (x.c.objects.thread t).stat = .init
    · right
      obtain ⟨k, hk, hr⟩ := rtThreadStartup_refines h ht
      obtain ⟨c', content', hc', hs⟩ := Stepped.of_refines (x := x) (f := .startup t) x.pc hr
        (by show ((x.c.abs content).rtThreadStartup t).map _ = _; rw [hk]; rfl) (by simp)
      exact ⟨_, content', by simp only [call, hc', Option.map_some], hs⟩
    · left
      have hcond : ¬ ((x.c.abs content).thread t).stat = .init := ht
      refine ⟨?_, ?_⟩
      · show ((x.c.abs content).rtThreadStartup t).map _ = _
        rw [Kernel.rtThreadStartup, if_neg hcond]
        rfl
      · simp only [call, rtThreadStartup, if_neg ht, Option.map_none]
  | exit t =>
    simp only [call]
    by_cases hg : x.c.objects.current = t ∧ (x.c.objects.thread t).stat = .running
    · right
      obtain ⟨c', content', hc', hs⟩ := Stepped.of_refines (x := x) (f := .exit t) x.pc
        (rtThreadExit_refines h hg.2) (if_pos hg) (by simp)
      exact ⟨_, content', by rw [if_pos hg, hc', Option.map_some], hs⟩
    · rw [if_neg hg]
      exact .inl ⟨if_neg hg, rfl⟩
  | control t priority =>
    right
    obtain ⟨c', content', hc', h', habs', hmoved⟩ := rtThreadChangePriority_refines h t hf
    refine ⟨⟨c', x.pc⟩, content', by simp only [call, hc', Option.map_some],
      Stepped.of_call h' ?_ (by simp) fun q => (hmoved q).mono ?_⟩
    · show some (Threads.mk ((x.c.abs content).rtThreadChangePriority t priority) x.pc) = _
      rw [← habs']
      rfl
    · rintro u ⟨rfl, -⟩
      exact ⟨priority, rfl⟩
  | timeout t =>
    simp only [call, List.contains_iff_mem]
    by_cases hg : .thread t ∈ x.c.objects.timerList
    · have hcall : (x.abs content).call (.timeout t) =
          (((x.c.abs content).rtTimerTakeOff (.thread t)).rtThreadTimeout t).map fun k =>
            { x.abs content with k := k } := if_pos hg
      rw [if_pos hg, hcall]
      have h₁ : Valid (x.c.onTimers fun k => k.rtTimerTakeOff (.thread t)) content := by
        refine h.of_stat (h.tables.congr rfl rfl (fun u _ => ?_) fun u => ?_) ?_
          (fun u => .inl ?_) h.owned
        · simp [onTimers]
        · simp only [onTimers, Kernel.rtTimerTakeOff_thread]
          exact h.tables.bound u
        · simp [onTimers]
        · simp [onTimers]
      have habs₁ : (x.c.onTimers fun k => k.rtTimerTakeOff (.thread t)).abs content =
          (x.c.abs content).rtTimerTakeOff (.thread t) :=
        Kernel.withMutex_rtTimerTakeOff _ _ _
      rw [← habs₁]
      by_cases ht : ((x.c.onTimers fun k => k.rtTimerTakeOff (.thread t)).objects.thread t).stat =
          .suspend
      · right
        obtain ⟨k, hk, hr⟩ := rtThreadTimeout_refines h₁ ht
        obtain ⟨c', content', hc', hs⟩ := Stepped.of_refines (x := x) (f := .timeout t)
          x.pc hr (by rw [hcall, ← habs₁, hk]; rfl) (by simp)
        exact ⟨_, content', by rw [hc', Option.map_some], hs⟩
      · left
        have hcond : ¬ (((x.c.onTimers fun k => k.rtTimerTakeOff (.thread t)).abs
            content).thread t).stat = .suspend := ht
        rw [Kernel.rtThreadTimeout, if_neg hcond, rtThreadTimeout, if_neg ht]
        exact ⟨rfl, rfl⟩
    · rw [if_neg hg]
      exact .inl ⟨if_neg hg, rfl⟩
  | schedule t => exact hf.elim
  | tick => exact hf.elim
  | timerStart a =>
    have hstart := Kernel.withMutex_rtTimerStart x.c.objects (x.c.mutexes content) (.app a)
    have hcall : (x.abs content).call (.timerStart a) =
        ((x.c.abs content).rtTimerStart (.app a)).map fun k => { x.abs content with k := k } := rfl
    simp only [call]
    cases hk : x.c.objects.rtTimerStart (.app a) with
    | none =>
      left
      refine ⟨?_, rfl⟩
      rw [hcall, abs_eq_withMutex, ← hstart, hk]
      rfl
    | some k =>
      right
      obtain ⟨hthread, hcurrent, -, -⟩ := Kernel.rtTimerStart_frame hk
      obtain ⟨c', content', hc', hs⟩ := Stepped.of_refines (x := x) (f := .timerStart a)
        x.pc (onTimers_refines h hthread hcurrent)
        (by rw [hcall, abs_eq_withMutex, ← hstart, hk]; rfl) (by simp)
      cases hc'
      exact ⟨_, content', rfl, hs⟩
  | timerStop a =>
    right
    obtain ⟨c', content', hc', hs⟩ := Stepped.of_refines (x := x) (f := .timerStop a) x.pc
      (onTimers_refines h (k := x.c.objects.rtTimerStop (.app a)) (by simp) (by simp))
      (by rw [Kernel.withMutex_rtTimerStop]; rfl) (by simp)
    cases hc'
    exact ⟨_, content', rfl, hs⟩
  | timerSetTime a time =>
    right
    obtain ⟨c', content', hc', hs⟩ := Stepped.of_refines (x := x) (f := .timerSetTime a time)
      x.pc
      (onTimers_refines h (k := x.c.objects.rtTimerSetTime (.app a) time) (by simp) (by simp))
      rfl (by simp)
    cases hc'
    exact ⟨_, content', rfl, hs⟩
  | timerTakeOff a =>
    right
    obtain ⟨c', content', hc', hs⟩ := Stepped.of_refines (x := x) (f := .timerTakeOff a)
      x.pc
      (onTimers_refines h (k := x.c.objects.rtTimerTakeOff (.app a)) (by simp) (by simp))
      (by rw [Kernel.withMutex_rtTimerTakeOff]; rfl) (by simp)
    cases hc'
    exact ⟨_, content', rfl, hs⟩
  | timerRearm a =>
    have hrearm := Kernel.withMutex_rtTimerRearm x.c.objects (x.c.mutexes content) (.app a)
    have hcall : (x.abs content).call (.timerRearm a) =
        ((x.c.abs content).rtTimerRearm (.app a)).map fun k => { x.abs content with k := k } := rfl
    simp only [call]
    cases hk : x.c.objects.rtTimerRearm (.app a) with
    | none =>
      left
      refine ⟨?_, rfl⟩
      rw [hcall, abs_eq_withMutex, ← hrearm, hk]
      rfl
    | some k =>
      right
      obtain ⟨hthread, hcurrent, -, -⟩ := Kernel.rtTimerRearm_frame hk
      obtain ⟨c', content', hc', hs⟩ := Stepped.of_refines (x := x) (f := .timerRearm a)
        x.pc (onTimers_refines h hthread hcurrent)
        (by rw [hcall, abs_eq_withMutex, ← hrearm, hk]; rfl) (by simp)
      cases hc'
      exact ⟨_, content', rfl, hs⟩

/-- A call of `rt_schedule` is no step of the threads' states, or one switch. -/
theorem schedule_refines {c : LinkedKernel T M A} (h : Valid c content) (pc : T → Pc M)
    (y : Threads T M A) (gs : List (Call T M A))
    (hy : run Threads.call y gs = some ⟨c.abs content, pc⟩)
    (hpicks : Each Threads.call (fun y f => ∀ t, f = .schedule t → y.k.RtSchedulePicks t) y gs)
    (hgs : ∀ f ∈ gs, f = .tick ∨ ∃ t, f = .schedule t) :
    ∃ c' content' fs, c.rtSchedule = some c' ∧ Valid c' content' ∧
      run Threads.call y fs = some ⟨c'.abs content', pc⟩ ∧
      Each Threads.call (fun y f => ∀ t, f = .schedule t → y.k.RtSchedulePicks t) y fs ∧
      (∀ f ∈ fs, f = .tick ∨ ∃ t, f = .schedule t) ∧
      (∀ p, Moved (fun _ => False) (content (priorityTable p)) (content' (priorityTable p))) ∧
      (c'.objects.current ≠ c.objects.current → ∃ us,
        content (priorityTable (c.objects.thread c'.objects.current).currentPriority) =
          c'.objects.current :: us ∧ ∀ p, c'.objects.current ∉ content' (priorityTable p)) := by
  obtain ⟨c', hc', -, hkeep | ⟨content', t, us, hswitch⟩⟩ := rtSchedule_cases h
  · refine ⟨c', content, gs, hc', hkeep.valid, ?_, hpicks, hgs, fun p => Moved.refl _ _,
      fun hne => ?_⟩
    · rw [hy, hkeep.abs_eq]
    · exact absurd (congrArg Kernel.current hkeep.abs_eq) hne
  · have hcall : (Threads.mk (c.abs content) pc).call (.schedule t) =
        some ⟨c'.abs content', pc⟩ := by
      show ((c.abs content).rtScheduleTo t).map _ = _
      rw [hswitch.scheduleTo]
      rfl
    refine ⟨c', content', gs ++ [.schedule t], hc', hswitch.valid, ?_, ?_, fun f hf => ?_,
      fun p => hswitch.moved h p, fun _ => ?_⟩
    · rw [run_append, hy, Option.bind_some, run_cons, hcall]
      rfl
    · refine hpicks.append hy ⟨fun u hu => ?_, fun _ _ => trivial⟩
      cases hu
      exact hswitch.picks h
    · rcases List.mem_append.mp hf with hf | hf
      · exact hgs f hf
      · exact .inr ⟨t, List.mem_singleton.mp hf⟩
    · rw [hswitch.current_eq h]
      exact ⟨us, hswitch.highest.head, hswitch.notMem h⟩

/-- The idle thread takes an object out of `rt_thread_defunct`, when there is one. -/
theorem rtThreadIdleExcute_refines {c : LinkedKernel T M A} (h : Valid c content) :
    ∃ r c' content', c.rtThreadIdleExcute = some (r, c') ∧ Valid c' content' ∧
      c'.abs content' = c.abs content ∧ content threadDefunct = r.toList ++ content' threadDefunct ∧
      ∀ p, content' (priorityTable p) = content (priorityTable p) := by
  have hempty := h.tables.rings.head_next_eq_iff threadDefunct
  unfold rtThreadIdleExcute
  cases hd : content threadDefunct with
  | nil =>
    rw [if_pos (hempty.mpr hd)]
    exact ⟨none, c, content, rfl, h, rfl, by simp [hd], fun p => rfl⟩
  | cons t ts =>
    rw [if_neg (by rw [hempty, hd]; simp)]
    simp only [h.tables.rings.head_next_cons hd]
    have hclose : (c.objects.thread t).stat = .close :=
      h.tables.closed t (by rw [hd]; exact List.mem_cons_self)
    have hnd := h.tables.rings.nodup threadDefunct
    rw [hd, List.nodup_cons] at hnd
    have hout : ∀ i, i ≠ threadDefunct → (content i).filter (· ≠ t) = content i := by
      intro i hi
      refine List.filter_ne_of_notMem fun hmem => hi (h.tables.rings.unique hmem ?_)
      rw [hd]
      exact List.mem_cons_self
    have hoff := (h.tables.listRemove (t := t) (by simp [hclose])).settle (by simp [hclose])
      (h.tables.mask t (by simp))
    refine ⟨some t, _, fun i => (content i).filter (· ≠ t), rfl, ?_, ?_, ?_,
      fun p => hout _ (by simp)⟩
    · exact h.of_stat hoff rfl (fun u => .inl rfl) h.owned
    · show c.objects.withMutex _ = c.objects.withMutex _
      congr 1
      funext m
      simp only [mutexes, hout (suspendThread m) (by simp)]
    · show t :: ts = t :: (content threadDefunct).filter (· ≠ t)
      rw [hd, List.filter_cons_of_neg (by simp), List.filter_ne_of_notMem hnd.1]

/-- When an event cannot happen: the call it makes is not possible in the threads' states, or a
thread yields that does not run. -/
def Blocked (y : Threads T M A) : KernelEvent T M A → Prop
  | .call f => y.call f = none
  | .yield => (y.k.thread y.k.current).stat ≠ .running
  | _ => False

/-- **Every event of the linked kernel refines**: it happens exactly when the threads' states let
it. -/
theorem step_refines (h : Valid x.c content) {e : KernelEvent T M A} (he : e.InRange) :
    (Blocked (x.abs content) e ∧ x.step e = none) ∨
      (¬ Blocked (x.abs content) e ∧
        ∃ x' content' fs, x.step e = some x' ∧ Stepped x x' content content' e fs) := by
  have hfalse : ∀ (e : KernelEvent T M A) (u : T), False → e.Requeues u := fun _ _ hf => hf.elim
  cases e with
  | call f =>
    rcases call_refines h he with hnone | ⟨x', content', hx', hs⟩
    · exact .inl hnone
    · right
      refine ⟨?_, x', content', [f], hx', hs⟩
      intro hb
      have hrun := hs.run
      rw [run_cons, show (x.abs content).call f = none from hb] at hrun
      cases hrun
  | schedule =>
    right
    obtain ⟨c', content', fs, hc', h', hrun, hpicks, hcalls, hmoved, hdispatch⟩ :=
      schedule_refines h x.pc (x.abs content) [] rfl trivial (by simp)
    refine ⟨id, ⟨c', x.pc⟩, content', fs, by simp only [step, hc', Option.map_some],
      h', hrun, hpicks, .inr hcalls, fun p => (hmoved p).mono (hfalse _), hdispatch⟩
  | yield =>
    by_cases hg : (x.c.objects.thread x.c.objects.current).stat = .running
    · right
      obtain ⟨c', content', fs, hc', h', hrun, hpicks, hcalls, hmoved, hdispatch⟩ :=
        schedule_refines (askYield_valid h) x.pc (x.abs content) [] rfl trivial (by simp)
      refine ⟨fun hb => hb hg, ⟨c', x.pc⟩, content', fs, ?_, h', hrun, hpicks,
        .inr hcalls, fun p => (hmoved p).mono (hfalse _), hdispatch⟩
      simp only [step, hg, if_true, rtThreadYield, hc', Option.map_some]
    · left
      refine ⟨hg, ?_⟩
      simp only [step, hg, if_false]
  | tickIncrease =>
    right
    refine ⟨id, ?_⟩
    have h₁ := countTick_valid h
    have hrun₁ : run Threads.call (x.abs content) [.tick] =
        some ⟨x.c.countTick.abs content, x.pc⟩ := rfl
    have heach : Each Threads.call (fun y f => ∀ t, f = .schedule t → y.k.RtSchedulePicks t)
        (x.abs content) [.tick] := ⟨by simp, fun _ _ => trivial⟩
    simp only [step, rtTickIncrease]
    split
    · -- the slice is used up
      obtain ⟨c', content', fs, hc', h', hrun, hpicks, hcalls, hmoved, hdispatch⟩ :=
        schedule_refines (askYield_valid h₁) x.pc _ _ hrun₁ heach (by simp)
      exact ⟨⟨c', x.pc⟩, content', fs, by rw [hc', Option.map_some], h', hrun, hpicks,
        .inr hcalls, fun p => (hmoved p).mono (hfalse _), hdispatch⟩
    · exact ⟨⟨_, x.pc⟩, content, [.tick], rfl, h₁, hrun₁, heach, .inr (by simp),
        fun p => Moved.refl _ _, fun hne => absurd rfl hne⟩
  | idleExcute =>
    right
    obtain ⟨r, c', content', hc', h', habs', -, hlists⟩ := rtThreadIdleExcute_refines h
    refine ⟨id, ⟨c', x.pc⟩, content', [], by simp only [step, hc', Option.map_some], h', ?_,
      trivial, .inr (by simp), fun p => ?_, fun hne => ?_⟩
    · rw [run_nil, abs, abs, habs']
    · rw [hlists]
      exact Moved.refl _ _
    · exact absurd (congrArg Kernel.current habs') hne

/-- A step that is taken. -/
theorem stepped (h : Valid x.c content) {e : KernelEvent T M A} (he : e.InRange)
    (hstep : x.step e = some x') : ∃ content' fs, Stepped x x' content content' e fs := by
  rcases step_refines h he with ⟨-, hnone⟩ | ⟨-, x'', content', fs, hx'', hs⟩
  · rw [hnone] at hstep
    cases hstep
  · cases hx''.symm.trans hstep
    exact ⟨content', fs, hs⟩

/-! ## Runs -/

/-- The linked kernel before any thread but one is started: every list as `rt_list_init` leaves it,
the thread `current` running, the others initialised, every mutex free. -/
def fresh (current : T) (priority : T → Nat) (sched : T → SchedFields) : LinkedThreads T M A where
  c :=
    { objects :=
        { thread := fun t => ⟨.eok, if t = current then .running else .init, priority t, priority t⟩
          current := current
          mutex := nofun
          timer := fun _ => ⟨0, 0, false, false⟩
          timerList := []
          tick := 0 }
      sched := fun t => { sched t with numberMask := 1#32 <<< priority t }
      mutex := fun _ => ⟨1, 0xff, 0, none⟩
      list := fun n => ⟨n, n⟩
      readyPriorityGroup := 0 }
  pc := fun _ => .run []

theorem fresh_valid {current : T} {priority : T → Nat} {sched : T → SchedFields}
    (hp : ∀ t, priority t < rtThreadPriorityMax) :
    Valid (fresh (M := M) (A := A) current priority sched).c fun _ => [] where
  tables :=
    { rings := ⟨fun i => CircularList.nil_iff.mpr ⟨rfl, rfl⟩, by simp, fun t _ => rfl⟩
      off_lists := by simp
      ready := by
        intro t _ p
        simp only [fresh]
        split <;> simp
      waiting := by simp
      closed := by simp
      group := by simp [fresh]
      mask := by simp [fresh]
      bound := fun t => ⟨hp t, hp t⟩ }
  current := by simp [fresh]
  running := by
    intro t ht
    simp only [fresh] at ht ⊢
    by_contra hne
    rw [if_neg hne] at ht
    cases ht
  owned := fun m => ⟨by simp [fresh], by simp [fresh]⟩

theorem fresh_locks (current : T) (priority : T → Nat) (sched : T → SchedFields) :
    LockInv ((fresh (M := M) (A := A) current priority sched).abs fun _ => []) where
  nested := fun _ => rfl
  distinct := fun _ => List.nodup_nil
  inTake := nofun
  owner_mem := nofun
  waits := by simp [fresh, abs, LinkedKernel.abs, Kernel.withMutex, mutexes]
  nodup := fun _ => List.nodup_nil
  free := fun _ _ => ⟨rfl, rfl, rfl⟩
  held := nofun
  sleeps := by simp [fresh, abs, LinkedKernel.abs, Kernel.withMutex]
  listed := by simp [fresh, abs, LinkedKernel.abs, Kernel.withMutex]

theorem fresh_exclusive (current : T) (priority : T → Nat) (sched : T → SchedFields) :
    Exclusive ((fresh (M := M) (A := A) current priority sched).abs fun _ => []) where
  inside := by simp [fresh, abs, Pc.inside, stackOf]
  asked := nofun

/-- **The lists and the bits stay right in every run**, and no step of it reads a list head as a
thread, leaves the table, follows a null owner or fails one of the assertions on the lists: an event
that is asked of the kernel happens exactly when the threads' states let it. -/
theorem linked_run_valid {es : List (KernelEvent T M A)} (h : Valid x.c content)
    (hes : ∀ e ∈ es, e.InRange) (hrun : run step x es = some x') :
    ∃ content', Valid x'.c content' ∧
      ∀ e : KernelEvent T M A, e.InRange → (x'.step e = none ↔ Blocked (x'.abs content') e) := by
  have hvalid : ∃ content', Valid x'.c content' := by
    refine run_invariant (fun x : LinkedThreads T M A => ∃ content, Valid x.c content) ?_
      ⟨content, h⟩ hrun
    rintro e he x x' ⟨content, h⟩ hstep
    obtain ⟨content', fs, hs⟩ := stepped h (hes e he) hstep
    exact ⟨content', hs.valid⟩
  obtain ⟨content', h'⟩ := hvalid
  refine ⟨content', h', fun e he => ?_⟩
  rcases step_refines h' he with ⟨hb, hnone⟩ | ⟨hb, x'', content'', fs, hx'', -⟩
  · exact iff_of_true hnone hb
  · exact iff_of_false (by simp [hx'']) hb

/-- Two threads of one priority with slices of two ticks, the first one running. -/
def pair : LinkedThreads Bool Unit Unit :=
  fresh false (fun _ => 3) fun _ => ⟨0, false, 2, 2, true⟩

theorem pair_valid : Valid pair.c fun _ => [] := fresh_valid fun _ => by decide

/-- The second thread is started, the first one yields to it and gets the processor back. -/
def yieldTwice : List (KernelEvent Bool Unit Unit) :=
  [.call (.startup true), .schedule, .yield, .yield]

theorem linked_run_valid_pair : ∃ x', run step pair yieldTwice = some x' ∧
    ∃ content', Valid x'.c content' ∧ ∀ e : KernelEvent Bool Unit Unit,
      e.InRange → (x'.step e = none ↔ Blocked (x'.abs content') e) := by
  have hrun : run step pair yieldTwice = some _ := rfl
  exact ⟨_, hrun, linked_run_valid pair_valid (by decide) hrun⟩

/-- **Every run of the linked kernel is a run of the threads' states** in which the scheduler
switches to a thread that is as urgent as any that is ready, and to none less urgent than the one
that runs. -/
theorem linked_run_refines {es : List (KernelEvent T M A)} (h : Valid x.c content)
    (hes : ∀ e ∈ es, e.InRange) (hrun : run step x es = some x') :
    ∃ content' fs, Valid x'.c content' ∧
      run Threads.call (x.abs content) fs = some (x'.abs content') ∧
      Each Threads.call (fun y f => ∀ t, f = .schedule t → y.k.RtSchedulePicks t)
        (x.abs content) fs := by
  induction es generalizing x content with
  | nil =>
    cases hrun
    exact ⟨content, [], h, rfl, trivial⟩
  | cons e es ih =>
    rw [run_cons, Option.bind_eq_some_iff] at hrun
    obtain ⟨x₁, hx₁, hrun⟩ := hrun
    obtain ⟨content₁, gs, hs⟩ := stepped h (hes e List.mem_cons_self) hx₁
    obtain ⟨content', fs, h', hrun', hpicks⟩ :=
      ih hs.valid (fun f hf => hes f (List.mem_cons_of_mem _ hf)) hrun
    refine ⟨content', gs ++ fs, h', ?_, hs.picks.append hs.run hpicks⟩
    rw [run_append, hs.run, Option.bind_some, hrun']

theorem linked_run_refines_pair : ∃ x', run step pair yieldTwice = some x' ∧
    ∃ content' fs, Valid x'.c content' ∧
      run Threads.call (pair.abs fun _ => []) fs = some (x'.abs content') ∧
      Each Threads.call (fun y f => ∀ t, f = .schedule t → y.k.RtSchedulePicks t)
        (pair.abs fun _ => []) fs := by
  have hrun : run step pair yieldTwice = some _ := rfl
  exact ⟨_, hrun, linked_run_refines pair_valid (by decide) hrun⟩

/-- **Mutual exclusion in the linked kernel.** In every run in which no thread is resumed inside a
take, at most one thread is between the return of its take of a mutex and its release of it: the law
of the threads' states, carried over. -/
theorem linked_exclusive {es : List (KernelEvent T M A)} (h : Valid x.c content)
    (hlock : LockInv (x.abs content)) (hexcl : Exclusive (x.abs content))
    (hes : ∀ e ∈ es, e.InRange)
    (hres : Each step (fun x e => ∀ t m todo, e = .call (.resume t) → x.pc t ≠ .inTake m todo) x es)
    (hrun : run step x es = some x') {t u : T} {m : M} (ht : m ∈ (x'.pc t).inside)
    (hu : m ∈ (x'.pc u).inside) : t = u := by
  induction es generalizing x content with
  | nil =>
    cases hrun
    exact hexcl.unique ht hu
  | cons e es ih =>
    rw [run_cons, Option.bind_eq_some_iff] at hrun
    obtain ⟨x₁, hx₁, hrun⟩ := hrun
    obtain ⟨content₁, fs, hs⟩ := stepped h (hes e List.mem_cons_self) hx₁
    have hkeeps : LockInv (x₁.abs content₁) ∧ Exclusive (x₁.abs content₁) := by
      rcases hs.calls with ⟨f, rfl, rfl⟩ | hfs
      · have hrun₁ := hs.run
        rw [run_cons, Option.bind_eq_some_iff] at hrun₁
        obtain ⟨y, hy, hrun₁⟩ := hrun₁
        cases hrun₁
        exact ⟨hlock.call hy, hexcl.call hlock hy fun t m todo hf => hres.1 t m todo (by rw [hf])⟩
      · refine run_invariant (fun y => LockInv y ∧ Exclusive y) ?_ ⟨hlock, hexcl⟩ hs.run
        rintro f hf y y' ⟨hlock, hexcl⟩ hy
        refine ⟨hlock.call hy, hexcl.call hlock hy fun t m todo he => ?_⟩
        rcases hfs f hf with rfl | ⟨t', rfl⟩
        · cases he
        · cases he
    exact ih hs.valid hkeeps.1 hkeeps.2 (fun f hf => hes f (List.mem_cons_of_mem _ hf))
      (hres.2 x₁ hx₁) hrun

/-- The first thread takes the mutex and yields; the second one asks for it and is suspended. -/
def contend : List (KernelEvent Bool Unit Unit) :=
  [.call (.startup true), .call (.load false [.take (), .release ()]),
    .call (.load true [.take (), .release ()]), .call (.act false), .yield, .call (.act true)]

theorem linked_exclusive_contend : ∃ x', run step pair contend = some x' ∧
    ∀ t u : Bool, () ∈ (x'.pc t).inside → () ∈ (x'.pc u).inside → t = u := by
  have hrun : run step pair contend = some _ := rfl
  refine ⟨_, hrun, fun t u => ?_⟩
  refine linked_exclusive pair_valid (fresh_locks _ _ _) (fresh_exclusive _ _ _) (by decide) ?_ hrun
  exact Each.of_forall (by simp [contend]) pair

end LinkedThreads

end OsesProject
