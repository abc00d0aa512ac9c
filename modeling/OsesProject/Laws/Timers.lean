import OsesProject.Kernel.Program

/-!
# What the kernel's calls do to the timers

`TimersLe k k'`: no timer is started between `k` and `k'`, the time-outs stay as they are, and the
application's timers keep running. This is what every operation on threads and mutexes does;
`rt_thread_sleep` starts the thread's own timer after it (`Threads.call_timers`). So an application
timer that does not run is started only by the call that starts it (`Threads.call_stopped`).
-/

set_option linter.unusedSectionVars false

namespace OsesProject

variable {T M A : Type} [DecidableEq T] [DecidableEq M] [DecidableEq A]

/-- Threads' timers may have been stopped, and nothing else has happened to a timer. -/
structure TimersLe (k k' : Kernel T M A) : Prop where
  tick : k'.tick = k.tick
  sublist : k'.timerList.Sublist k.timerList
  timeout : ∀ i, (k'.timer i).timeoutTick = (k.timer i).timeoutTick
  app : ∀ a, k'.timer (.app a) = k.timer (.app a)
  mem : ∀ a, .app a ∈ k.timerList → .app a ∈ k'.timerList

namespace TimersLe

variable {k k' k'' : Kernel T M A}

theorem of_eq (htick : k'.tick = k.tick) (htimer : k'.timer = k.timer)
    (hlist : k'.timerList = k.timerList) : TimersLe k k' where
  tick := htick
  sublist := by rw [hlist]
  timeout := by simp [htimer]
  app := by simp [htimer]
  mem := by simp [hlist]

theorem refl (k : Kernel T M A) : TimersLe k k := of_eq rfl rfl rfl

theorem trans (h : TimersLe k k') (h' : TimersLe k' k'') : TimersLe k k'' where
  tick := h'.tick.trans h.tick
  sublist := h'.sublist.trans h.sublist
  timeout := fun i => (h'.timeout i).trans (h.timeout i)
  app := fun a => (h'.app a).trans (h.app a)
  mem := fun a ha => h'.mem a (h.mem a ha)

theorem setThread (k : Kernel T M A) (t : T) (th : Thread) : TimersLe k (k.setThread t th) :=
  of_eq rfl rfl rfl

theorem setMutex (k : Kernel T M A) (m : M) (mx : Mutex T) : TimersLe k (k.setMutex m mx) :=
  of_eq rfl rfl rfl

theorem removeTlist (k : Kernel T M A) (t : T) : TimersLe k (k.rtListRemoveTlist t) :=
  of_eq rfl rfl rfl

theorem stop (k : Kernel T M A) (t : T) : TimersLe k (k.rtTimerStop (.thread t)) where
  tick := by simp
  sublist := by
    unfold Kernel.rtTimerStop
    split
    · exact List.filter_sublist
    · exact List.Sublist.refl _
  timeout := by
    intro i
    rw [Kernel.rtTimerStop_timer]
    split
    · next hi => rw [hi]
    · rfl
  app := by
    intro a
    rw [Kernel.rtTimerStop_timer, if_neg (by simp)]
  mem := by
    intro a ha
    exact Kernel.rtTimerStop_mem.mpr ⟨ha, fun _ => by simp⟩

theorem takeOff (k : Kernel T M A) (t : T) : TimersLe k (k.rtTimerTakeOff (.thread t)) where
  tick := by
    unfold Kernel.rtTimerTakeOff
    simp only
    split <;> rfl
  sublist := by
    unfold Kernel.rtTimerTakeOff
    simp only
    split <;> exact List.filter_sublist
  timeout := by
    intro i
    rw [Kernel.rtTimerTakeOff_timer]
    split
    · next hi => rw [hi.1]
    · rfl
  app := by
    intro a
    rw [Kernel.rtTimerTakeOff_timer, if_neg (by simp)]
  mem := by
    intro a ha
    exact Kernel.rtTimerTakeOff_mem.mpr ⟨ha, by simp⟩

theorem suspend (k : Kernel T M A) (t : T) : TimersLe k (k.rtThreadSuspend t) := by
  unfold Kernel.rtThreadSuspend
  split
  · exact (setThread k t _).trans (stop _ t)
  · exact refl k

theorem resume (k : Kernel T M A) (t : T) : TimersLe k (k.rtThreadResume t) := by
  unfold Kernel.rtThreadResume
  split
  · exact ((removeTlist k t).trans (stop _ t)).trans (setThread _ t _)
  · exact refl k

theorem take (k : Kernel T M A) (t : T) (m : M) : TimersLe k (k.rtMutexTake t m).1 := by
  have hinherit : ∀ k : Kernel T M A, TimersLe k (k.inheritPriority m t) := by
    intro k
    unfold Kernel.inheritPriority
    split
    · exact refl k
    · split <;> exact of_eq rfl rfl rfl
  unfold Kernel.rtMutexTake
  simp only
  split
  · split <;> exact of_eq rfl rfl rfl
  · split
    · split <;> exact of_eq rfl rfl rfl
    · exact (((setThread k t _).trans (hinherit _)).trans (suspend _ t)).trans (setMutex _ m _)

theorem release (k : Kernel T M A) (t : T) (m : M) : TimersLe k (k.rtMutexRelease t m) := by
  have hrestore : ∀ k : Kernel T M A, TimersLe k (k.restorePriority t m) := by
    intro k
    unfold Kernel.restorePriority
    split <;> exact of_eq rfl rfl rfl
  have hhand : ∀ k : Kernel T M A, TimersLe k (k.handOver t m) := by
    intro k
    refine (hrestore k).trans ?_
    unfold Kernel.handOver
    simp only
    split
    · split
      · exact (setMutex _ m _).trans (resume _ _)
      · exact of_eq rfl rfl rfl
    · split <;> exact of_eq rfl rfl rfl
  unfold Kernel.rtMutexRelease
  simp only
  split
  · split
    · exact (setMutex k m _).trans (hhand _)
    · exact of_eq rfl rfl rfl
  · exact of_eq rfl rfl rfl

end TimersLe

/-- The call is one of the application's timers, or the tick. -/
def Call.OnTimers : Call T M A → Prop
  | .tick | .timerStart _ | .timerStop _ | .timerSetTime _ _ | .timerTakeOff _ | .timerRearm _ =>
    True
  | _ => False

variable {x x' : Threads T M A} {c : Call T M A}

/-- What an action does to the timers: nothing but stopping a thread's timer, or, for a sleep,
starting the thread's own. -/
theorem Threads.act_timers {t : T} {p : Pc M} {k' : Kernel T M A}
    (hk : x.k.actStep t (x.pc t) = some (p, k')) :
    TimersLe x.k k' ∨ ∃ tick todo, x.pc t = .run (.delay tick :: todo) ∧
      TimersLe x.k ((x.k.rtThreadSuspend t).rtTimerSetTime (.thread t) tick) ∧
      ((x.k.rtThreadSuspend t).rtTimerSetTime (.thread t) tick).rtTimerStart (.thread t) =
        some k' := by
  cases hpc : x.pc t with
  | run todo =>
    rw [hpc] at hk
    cases todo with
    | nil => cases hk
    | cons a todo =>
      cases a with
      | take m =>
        refine .inl ?_
        have hle := TimersLe.take x.k t m
        simp only [Kernel.actStep] at hk
        split at hk
        · next heq =>
          cases hk
          rw [heq] at hle
          exact hle
        · next heq =>
          cases hk
          rw [heq] at hle
          exact hle
      | release m =>
        cases hk
        exact .inl (TimersLe.release x.k t m)
      | delay tick =>
        simp only [Kernel.actStep, Option.map_eq_some_iff] at hk
        obtain ⟨k'', hk, he⟩ := hk
        cases he
        refine .inr ⟨tick, todo, rfl, (TimersLe.suspend x.k t).trans ?_, hk⟩
        refine ⟨rfl, List.Sublist.refl _, ?_, ?_, fun _ ha => ha⟩
        · intro i
          by_cases hi : i = .thread t <;> simp [Kernel.rtTimerSetTime, hi]
        · intro a
          simp [Kernel.rtTimerSetTime]
  | inTake m todo =>
    rw [hpc] at hk
    cases hk
    exact .inl (TimersLe.refl _)
  | inSleep todo =>
    rw [hpc] at hk
    cases hk
    refine .inl ?_
    split <;> exact TimersLe.of_eq rfl rfl rfl

/-- **What a call on threads does to the timers.** -/
theorem Threads.call_timers (hc : x.call c = some x') (happ : ¬c.OnTimers) :
    TimersLe x.k x'.k ∨ ∃ t tick todo, x.pc t = .run (.delay tick :: todo) ∧
      TimersLe x.k ((x.k.rtThreadSuspend t).rtTimerSetTime (.thread t) tick) ∧
      ((x.k.rtThreadSuspend t).rtTimerSetTime (.thread t) tick).rtTimerStart (.thread t) =
        some x'.k := by
  cases c with
  | act t =>
    simp only [Threads.call] at hc
    split at hc
    · obtain ⟨⟨p, k'⟩, hk, rfl⟩ := Option.map_eq_some_iff.mp hc
      exact (act_timers hk).imp_right fun ⟨tick, todo, h⟩ => ⟨t, tick, todo, h⟩
    · cases hc
  | load t prog =>
    simp only [Threads.call] at hc
    split at hc
    · cases hc
      exact .inl (TimersLe.refl _)
    · cases hc
  | resume t =>
    cases hc
    exact .inl (TimersLe.resume x.k t)
  | suspend t =>
    cases hc
    exact .inl (TimersLe.suspend x.k t)
  | startup t =>
    obtain ⟨k', hk, rfl⟩ := Option.map_eq_some_iff.mp hc
    unfold Kernel.rtThreadStartup at hk
    split at hk
    · cases hk
      exact .inl ((TimersLe.setThread x.k t _).trans (TimersLe.resume _ t))
    · cases hk
  | exit t =>
    simp only [Threads.call] at hc
    split at hc
    · cases hc
      refine .inl ⟨rfl, List.filter_sublist, ?_, ?_, ?_⟩
      · intro i
        by_cases hi : i = .thread t <;>
          simp [Kernel.rtThreadExit, Kernel.rtTimerDetach, Kernel.rtTimerRemove, hi]
      · intro a
        simp [Kernel.rtThreadExit, Kernel.rtTimerDetach, Kernel.rtTimerRemove]
      · intro a ha
        simpa [Kernel.rtThreadExit, Kernel.rtTimerDetach, Kernel.rtTimerRemove] using ha
    · cases hc
  | control t priority =>
    cases hc
    exact .inl (TimersLe.of_eq rfl rfl rfl)
  | timeout t =>
    simp only [Threads.call] at hc
    split at hc
    · obtain ⟨k', hk, rfl⟩ := Option.map_eq_some_iff.mp hc
      unfold Kernel.rtThreadTimeout at hk
      split at hk
      · cases hk
        exact .inl ((TimersLe.takeOff x.k t).trans (TimersLe.of_eq rfl rfl rfl))
      · cases hk
    · cases hc
  | schedule t =>
    obtain ⟨k', hk, rfl⟩ := Option.map_eq_some_iff.mp hc
    obtain ⟨-, htimer, hlist, -⟩ := Kernel.rtScheduleTo_frame hk
    exact .inl (TimersLe.of_eq (Kernel.rtScheduleTo_tick hk) htimer hlist)
  | tick | timerStart _ | timerStop _ | timerSetTime _ _ | timerTakeOff _ | timerRearm _ =>
    exact absurd trivial happ

/-- **An application timer that does not run is started only by `rt_timer_start`.** -/
theorem Threads.call_stopped {a : A} (hc : x.call c = some x') (hne : c ≠ .timerStart a)
    (hoff : .app a ∉ x.k.timerList ∧ (x.k.timer (.app a)).activated = false) :
    .app a ∉ x'.k.timerList ∧ (x'.k.timer (.app a)).activated = false := by
  by_cases happ : c.OnTimers
  · cases c with
    | tick =>
      cases hc
      exact hoff
    | timerStart b =>
      obtain ⟨k', hk, rfl⟩ := Option.map_eq_some_iff.mp hc
      have hab : (.app a : TimerId T A) ≠ .app b := fun he => hne (by cases he; rfl)
      constructor
      · intro hmem
        exact hoff.1 (((Kernel.rtTimerStart_mem hk).mp hmem).resolve_left hab)
      · show (k'.timer (.app a)).activated = false
        rw [Kernel.rtTimerStart_timer hk, if_neg hab]
        exact hoff.2
    | timerStop b =>
      cases hc
      constructor
      · intro hmem
        exact hoff.1 (Kernel.rtTimerStop_mem.mp hmem).1
      · show ((x.k.rtTimerStop (.app b)).timer (.app a)).activated = false
        rw [Kernel.rtTimerStop_timer]
        split
        · rfl
        · exact hoff.2
    | timerSetTime b time =>
      cases hc
      refine ⟨hoff.1, ?_⟩
      by_cases hab : (.app a : TimerId T A) = .app b
      · cases hab
        simpa [Kernel.rtTimerSetTime] using hoff.2
      · simpa [Kernel.rtTimerSetTime, hab] using hoff.2
    | timerTakeOff b =>
      cases hc
      constructor
      · intro hmem
        exact hoff.1 (Kernel.rtTimerTakeOff_mem.mp hmem).1
      · show ((x.k.rtTimerTakeOff (.app b)).timer (.app a)).activated = false
        rw [Kernel.rtTimerTakeOff_timer]
        split
        · rfl
        · exact hoff.2
    | timerRearm b =>
      obtain ⟨k', hk, rfl⟩ := Option.map_eq_some_iff.mp hc
      by_cases hab : a = b
      · subst hab
        have : x.k.rtTimerRearm (.app a) = some x.k := by
          simp [Kernel.rtTimerRearm, hoff.2]
        cases this.symm.trans hk
        exact hoff
      · rcases Kernel.rtTimerRearm_cases hk with rfl | ⟨-, hk⟩
        · exact hoff
        · have hab : (.app a : TimerId T A) ≠ .app b := by simpa using hab
          constructor
          · intro hmem
            exact hoff.1 (((Kernel.rtTimerStart_mem hk).mp hmem).resolve_left hab)
          · show (k'.timer (.app a)).activated = false
            rw [Kernel.rtTimerStart_timer hk, if_neg hab, setTimer_timer, if_neg hab]
            exact hoff.2
    | _ => exact absurd happ id
  · rcases Threads.call_timers hc happ with hle | ⟨t, tick, todo, -, hle, hk⟩
    · exact ⟨fun hmem => hoff.1 (hle.sublist.subset hmem), by rw [hle.app]; exact hoff.2⟩
    · have hne : (.app a : TimerId T A) ≠ .thread t := by simp
      constructor
      · intro hmem
        exact hoff.1 (hle.sublist.subset (((Kernel.rtTimerStart_mem hk).mp hmem).resolve_left hne))
      · rw [Kernel.rtTimerStart_timer hk, if_neg hne, hle.app]
        exact hoff.2

end OsesProject
