import OsesProject.Kernel.Program

/-!
# What the kernel's calls leave alone

Only a thread's own action changes who owns a mutex, and only its action or the beginning of a new
program changes where it is. The other calls may take a thread off a list (`Call.Wakes`) or set
its priority (`Call.Controls`), and leave the rest as it is: `Threads.call_mutex`,
`Threads.call_priority` and `Threads.call_pc`.
-/

set_option linter.unusedSectionVars false

namespace OsesProject

variable {T M A : Type} [DecidableEq T] [DecidableEq M] [DecidableEq A]

/-- The call takes the thread off the list it is suspended on. -/
def Call.Wakes : Call T M A → T → Prop
  | .resume t, u => u = t
  | .startup t, u => u = t
  | .timeout t, u => u = t
  | _, _ => False

/-- The call sets the thread's priority. -/
def Call.Controls : Call T M A → T → Prop
  | .control t _, u => u = t
  | .startup t, u => u = t
  | _, _ => False

/-- **No owner changes but by a thread's own action**, nor the priority recorded with it, and
nobody leaves the list of a mutex but the thread that is woken. -/
theorem Threads.call_mutex {x x' : Threads T M A} {c : Call T M A} (hc : x.call c = some x')
    (hact : ∀ t, c ≠ .act t) (m : M) :
    (x'.k.mutex m).owner = (x.k.mutex m).owner ∧
    (x'.k.mutex m).originalPriority = (x.k.mutex m).originalPriority ∧
    (∀ u, ¬c.Wakes u → u ∈ (x.k.mutex m).suspendThread → u ∈ (x'.k.mutex m).suspendThread) := by
  have same : ∀ {k' : Kernel T M A}, k'.mutex = x.k.mutex →
      (k'.mutex m).owner = (x.k.mutex m).owner ∧
      (k'.mutex m).originalPriority = (x.k.mutex m).originalPriority ∧
      (∀ u, ¬c.Wakes u → u ∈ (x.k.mutex m).suspendThread →
        u ∈ (k'.mutex m).suspendThread) := by
    intro k' hm
    rw [hm]
    exact ⟨rfl, rfl, fun _ _ hu => hu⟩
  have woken : ∀ (k : Kernel T M A) (t : T), k.mutex = x.k.mutex → (∀ u, ¬c.Wakes u → u ≠ t) →
      ((k.rtThreadResume t).mutex m).owner = (x.k.mutex m).owner ∧
      ((k.rtThreadResume t).mutex m).originalPriority = (x.k.mutex m).originalPriority ∧
      (∀ u, ¬c.Wakes u → u ∈ (x.k.mutex m).suspendThread →
        u ∈ ((k.rtThreadResume t).mutex m).suspendThread) := by
    intro k t hm ht
    rw [Kernel.rtThreadResume_mutex, hm]
    split
    · refine ⟨rfl, rfl, fun u hw hu => ?_⟩
      simpa using ⟨hu, ht u hw⟩
    · exact ⟨rfl, rfl, fun _ _ hu => hu⟩
  cases c with
  | act t => exact absurd rfl (hact t)
  | load t prog =>
    simp only [Threads.call] at hc
    split at hc
    · cases hc
      exact same rfl
    · cases hc
  | resume t =>
    cases hc
    exact woken x.k t rfl fun u hw => hw
  | suspend t =>
    cases hc
    exact same (by simp)
  | startup t =>
    obtain ⟨k', hk, rfl⟩ := Option.map_eq_some_iff.mp hc
    unfold Kernel.rtThreadStartup at hk
    split at hk
    · cases hk
      exact woken _ t rfl fun u hw => hw
    · cases hk
  | exit t =>
    simp only [Threads.call] at hc
    split at hc
    · cases hc
      exact same rfl
    · cases hc
  | control t priority =>
    cases hc
    exact same rfl
  | timeout t =>
    simp only [Threads.call] at hc
    split at hc
    · obtain ⟨k', hk, rfl⟩ := Option.map_eq_some_iff.mp hc
      unfold Kernel.rtThreadTimeout at hk
      split at hk
      · cases hk
        simp only [Kernel.rtScheduleInsertThread, Kernel.rtListRemoveTlist, setThread_mutex,
          Kernel.rtTimerTakeOff_mutex]
        refine ⟨trivial, trivial, fun u hw hu => ?_⟩
        simpa using ⟨hu, show u ≠ t from hw⟩
      · cases hk
    · cases hc
  | schedule t =>
    obtain ⟨k', hk, rfl⟩ := Option.map_eq_some_iff.mp hc
    exact same (Kernel.rtScheduleTo_frame hk).1
  | tick =>
    cases hc
    exact same rfl
  | timerStart a =>
    obtain ⟨k', hk, rfl⟩ := Option.map_eq_some_iff.mp hc
    exact same (Kernel.rtTimerStart_frame hk).2.2.1
  | timerStop a =>
    cases hc
    exact same (by simp)
  | timerSetTime a time =>
    cases hc
    exact same rfl
  | timerTakeOff a =>
    cases hc
    exact same (by simp)
  | timerRearm a =>
    obtain ⟨k', hk, rfl⟩ := Option.map_eq_some_iff.mp hc
    exact same (Kernel.rtTimerRearm_frame hk).2.2.1

/-- No priority changes but by a thread's action or a call that sets it. -/
theorem Threads.call_priority {x x' : Threads T M A} {c : Call T M A} (hc : x.call c = some x')
    (hact : ∀ t, c ≠ .act t) {u : T} (hctl : ¬c.Controls u) :
    (x'.k.thread u).currentPriority = (x.k.thread u).currentPriority := by
  cases c with
  | act t => exact absurd rfl (hact t)
  | load t prog =>
    simp only [Threads.call] at hc
    split at hc
    · cases hc
      rfl
    · cases hc
  | resume t =>
    cases hc
    simp
  | suspend t =>
    cases hc
    simp
  | startup t =>
    obtain ⟨k', hk, rfl⟩ := Option.map_eq_some_iff.mp hc
    unfold Kernel.rtThreadStartup at hk
    split at hk
    · cases hk
      have hut : u ≠ t := hctl
      simp [hut]
    · cases hk
  | exit t =>
    simp only [Threads.call] at hc
    split at hc
    · cases hc
      by_cases hut : u = t <;> simp [Kernel.rtThreadExit, hut]
    · cases hc
  | control t priority =>
    cases hc
    have hut : u ≠ t := hctl
    simp [Kernel.rtThreadChangePriority_priority, hut]
  | timeout t =>
    simp only [Threads.call] at hc
    split at hc
    · obtain ⟨k', hk, rfl⟩ := Option.map_eq_some_iff.mp hc
      unfold Kernel.rtThreadTimeout at hk
      split at hk
      · cases hk
        by_cases hut : u = t <;>
          simp [Kernel.rtScheduleInsertThread, Kernel.rtListRemoveTlist, hut]
      · cases hk
    · cases hc
  | schedule t =>
    obtain ⟨k', hk, rfl⟩ := Option.map_eq_some_iff.mp hc
    exact Kernel.rtScheduleTo_priority hk u
  | tick =>
    cases hc
    rfl
  | timerStart a =>
    obtain ⟨k', hk, rfl⟩ := Option.map_eq_some_iff.mp hc
    show (k'.thread u).currentPriority = _
    rw [(Kernel.rtTimerStart_frame hk).1]
  | timerStop a =>
    cases hc
    simp
  | timerSetTime a time =>
    cases hc
    rfl
  | timerTakeOff a =>
    cases hc
    simp
  | timerRearm a =>
    obtain ⟨k', hk, rfl⟩ := Option.map_eq_some_iff.mp hc
    show (k'.thread u).currentPriority = _
    rw [(Kernel.rtTimerRearm_frame hk).1]

/-- The programs are where they were, but for a thread's action or the beginning of one. -/
theorem Threads.call_pc {x x' : Threads T M A} {c : Call T M A} (hc : x.call c = some x')
    (hact : ∀ t, c ≠ .act t) (hload : ∀ t prog, c ≠ .load t prog) : x'.pc = x.pc := by
  cases c with
  | act t => exact absurd rfl (hact t)
  | load t prog => exact absurd rfl (hload t prog)
  | suspend t =>
    cases hc
    rfl
  | exit t =>
    simp only [Threads.call] at hc
    split at hc
    · cases hc
      rfl
    · cases hc
  | timeout t =>
    simp only [Threads.call] at hc
    split at hc
    · obtain ⟨k', -, rfl⟩ := Option.map_eq_some_iff.mp hc
      rfl
    · cases hc
  | startup t =>
    obtain ⟨k', -, rfl⟩ := Option.map_eq_some_iff.mp hc
    rfl
  | schedule t =>
    obtain ⟨k', -, rfl⟩ := Option.map_eq_some_iff.mp hc
    rfl
  | timerStart a =>
    obtain ⟨k', -, rfl⟩ := Option.map_eq_some_iff.mp hc
    rfl
  | timerRearm a =>
    obtain ⟨k', -, rfl⟩ := Option.map_eq_some_iff.mp hc
    rfl
  | resume t =>
    cases hc
    rfl
  | control t priority =>
    cases hc
    rfl
  | tick =>
    cases hc
    rfl
  | timerStop a =>
    cases hc
    rfl
  | timerSetTime a time =>
    cases hc
    rfl
  | timerTakeOff a =>
    cases hc
    rfl

/-- A thread's program is where it was, but for its own action and the beginning of one. -/
theorem Threads.call_pc_of_ne {x x' : Threads T M A} {c : Call T M A} (hc : x.call c = some x')
    {u : T} (hact : c ≠ .act u) (hload : ∀ prog, c ≠ .load u prog) : x'.pc u = x.pc u := by
  by_cases ha : ∃ t, c = .act t
  · obtain ⟨t, rfl⟩ := ha
    have hut : u ≠ t := fun hut => hact (by rw [hut])
    simp only [Threads.call] at hc
    split at hc
    · obtain ⟨r, -, rfl⟩ := Option.map_eq_some_iff.mp hc
      simp [hut]
    · cases hc
  · by_cases hl : ∃ t prog, c = .load t prog
    · obtain ⟨t, prog, rfl⟩ := hl
      have hut : u ≠ t := fun hut => hload prog (by rw [hut])
      simp only [Threads.call] at hc
      split at hc
      · cases hc
        simp [hut]
      · cases hc
    · rw [Threads.call_pc hc (fun t ht => ha ⟨t, ht⟩) fun t prog ht => hl ⟨t, prog, ht⟩]

/-- The places a thread can be at after its next action. -/
def Pc.After : Pc M → Pc M → Prop
  | .run [], _ => False
  | .run (.take m :: todo), p => p = .run todo ∨ p = .inTake m todo
  | .run (.release _ :: todo), p => p = .run todo
  | .run (.delay _ :: todo), p => p = .inSleep todo
  | .inTake _ todo, p => p = .run todo
  | .inSleep todo, p => p = .run todo

theorem Threads.call_act_pc {x x' : Threads T M A} {t : T} (hc : x.call (.act t) = some x') :
    (x.pc t).After (x'.pc t) := by
  simp only [Threads.call] at hc
  split at hc
  · obtain ⟨⟨p, k'⟩, hk, rfl⟩ := Option.map_eq_some_iff.mp hc
    simp only [Function.update_self]
    cases hpc : x.pc t with
    | run todo =>
      rw [hpc] at hk
      cases todo with
      | nil => cases hk
      | cons a todo =>
        cases a with
        | take m =>
          simp only [Kernel.actStep] at hk
          split at hk
          · cases hk
            exact .inr rfl
          · cases hk
            exact .inl rfl
        | release m =>
          cases hk
          rfl
        | delay tick =>
          simp only [Kernel.actStep, Option.map_eq_some_iff] at hk
          obtain ⟨k'', -, he⟩ := hk
          cases he
          rfl
    | inTake m todo =>
      rw [hpc] at hk
      cases hk
      rfl
    | inSleep todo =>
      rw [hpc] at hk
      cases hk
      rfl
  · cases hc

/-- An action makes no other thread the current one. -/
theorem Kernel.actStep_current {k k' : Kernel T M A} {t : T} {p p' : Pc M}
    (h : k.actStep t p = some (p', k')) : k'.current = k.current := by
  cases p with
  | run todo =>
    cases todo with
    | nil => cases h
    | cons a todo =>
      cases a with
      | take m =>
        have hcur : (k.rtMutexTake t m).1.current = k.current := rtMutexTake_current
        simp only [Kernel.actStep] at h
        split at h
        · next he =>
          cases h
          rwa [he] at hcur
        · next he =>
          cases h
          rwa [he] at hcur
      | release m =>
        cases h
        exact rtMutexRelease_current
      | delay tick =>
        simp only [Kernel.actStep, Option.map_eq_some_iff] at h
        obtain ⟨k'', hk, he⟩ := h
        cases he
        rw [(rtTimerStart_frame hk).2.1]
        simp
  | inTake m todo =>
    cases h
    rfl
  | inSleep todo =>
    cases h
    split <;> rfl

/-- **Only the scheduler makes another thread the current one.** -/
theorem Threads.call_current {x x' : Threads T M A} {c : Call T M A} (hc : x.call c = some x')
    (hsched : ∀ t, c ≠ .schedule t) : x'.k.current = x.k.current := by
  cases c with
  | act t =>
    simp only [Threads.call] at hc
    split at hc
    · obtain ⟨⟨p, k'⟩, hk, rfl⟩ := Option.map_eq_some_iff.mp hc
      exact Kernel.actStep_current hk
    · cases hc
  | load t prog =>
    simp only [Threads.call] at hc
    split at hc
    · cases hc
      rfl
    · cases hc
  | exit t =>
    simp only [Threads.call] at hc
    split at hc
    · cases hc
      rfl
    · cases hc
  | timeout t =>
    simp only [Threads.call] at hc
    split at hc
    · obtain ⟨k', hk, rfl⟩ := Option.map_eq_some_iff.mp hc
      unfold Kernel.rtThreadTimeout at hk
      split at hk
      · cases hk
        simp [Kernel.rtScheduleInsertThread, Kernel.rtListRemoveTlist]
      · cases hk
    · cases hc
  | startup t =>
    obtain ⟨k', hk, rfl⟩ := Option.map_eq_some_iff.mp hc
    unfold Kernel.rtThreadStartup at hk
    split at hk
    · cases hk
      simp
    · cases hk
  | schedule t => exact absurd rfl (hsched t)
  | timerStart a =>
    obtain ⟨k', hk, rfl⟩ := Option.map_eq_some_iff.mp hc
    exact (Kernel.rtTimerStart_frame hk).2.1
  | timerRearm a =>
    obtain ⟨k', hk, rfl⟩ := Option.map_eq_some_iff.mp hc
    exact (Kernel.rtTimerRearm_frame hk).2.1
  | resume t =>
    cases hc
    simp
  | suspend t =>
    cases hc
    simp
  | control t priority =>
    cases hc
    rfl
  | tick =>
    cases hc
    rfl
  | timerStop a =>
    cases hc
    simp
  | timerSetTime a time =>
    cases hc
    rfl
  | timerTakeOff a =>
    cases hc
    simp

section InitPriority

variable (k : Kernel T M A) (t u : T) (m : M)

/-- A thread's object replaced by one with the same initial priority. -/
theorem setThread_initPriority {th : Thread} (h : th.initPriority = (k.thread t).initPriority) :
    ((k.setThread t th).thread u).initPriority = (k.thread u).initPriority := by
  rw [setThread_thread]
  split
  · next hu => rw [h, hu]
  · rfl

theorem Kernel.rtThreadSuspend_initPriority :
    ((k.rtThreadSuspend t).thread u).initPriority = (k.thread u).initPriority := by
  unfold rtThreadSuspend
  split
  · rw [rtTimerStop_thread]
    exact setThread_initPriority k t u (by rfl)
  · rfl

theorem Kernel.rtThreadResume_initPriority :
    ((k.rtThreadResume t).thread u).initPriority = (k.thread u).initPriority := by
  unfold rtThreadResume
  split
  · unfold rtScheduleInsertThread
    refine (setThread_initPriority _ t u (by rfl)).trans ?_
    rw [rtTimerStop_thread]
    rfl
  · rfl

theorem Kernel.rtMutexTake_initPriority :
    ((k.rtMutexTake t m).1.thread u).initPriority = (k.thread u).initPriority := by
  have hset : ∀ e, ((k.setThread t { k.thread t with error := e }).thread u).initPriority =
      (k.thread u).initPriority := fun e => setThread_initPriority k t u (by rfl)
  unfold rtMutexTake
  simp only
  split
  · split <;> exact hset _
  · split
    · split <;> exact hset _
    · rw [rtIpcListSuspend_thread, rtThreadSuspend_initPriority]
      unfold inheritPriority
      split
      · exact hset _
      · split
        · exact (setThread_initPriority _ _ u (by rfl)).trans (hset _)
        · exact hset _

theorem Kernel.rtMutexRelease_initPriority :
    ((k.rtMutexRelease t m).thread u).initPriority = (k.thread u).initPriority := by
  have hhand : ∀ k : Kernel T M A,
      ((k.handOver t m).thread u).initPriority = (k.thread u).initPriority := by
    intro k
    have hrest : ((k.restorePriority t m).thread u).initPriority = (k.thread u).initPriority := by
      unfold restorePriority
      split
      · exact setThread_initPriority k t u (by rfl)
      · rfl
    unfold handOver
    simp only
    split
    · split
      · rw [rtThreadResume_initPriority, setMutex_thread]
        exact hrest
      · exact hrest
    · split <;> exact hrest
  unfold rtMutexRelease
  simp only
  split
  · split
    · exact hhand _
    · rfl
  · exact setThread_initPriority k t u (by rfl)

theorem Kernel.actStep_initPriority {k k' : Kernel T M A} {p p' : Pc M}
    (h : k.actStep t p = some (p', k')) :
    (k'.thread u).initPriority = (k.thread u).initPriority := by
  cases p with
  | run todo =>
    cases todo with
    | nil => cases h
    | cons a todo =>
      cases a with
      | take m =>
        have htake := k.rtMutexTake_initPriority t u m
        simp only [Kernel.actStep] at h
        split at h
        · next he =>
          cases h
          rwa [he] at htake
        · next he =>
          cases h
          rwa [he] at htake
      | release m =>
        cases h
        exact k.rtMutexRelease_initPriority t u m
      | delay tick =>
        simp only [Kernel.actStep, Option.map_eq_some_iff] at h
        obtain ⟨k'', hk, he⟩ := h
        cases he
        rw [(rtTimerStart_frame hk).1]
        exact k.rtThreadSuspend_initPriority t u
  | inTake m todo =>
    cases h
    rfl
  | inSleep todo =>
    cases h
    split
    · exact setThread_initPriority k t u (by rfl)
    · rfl

end InitPriority

/-- **No call changes the priority a thread was initialised with.** -/
theorem Threads.call_initPriority {x x' : Threads T M A} {c : Call T M A} (hc : x.call c = some x')
    (u : T) : (x'.k.thread u).initPriority = (x.k.thread u).initPriority := by
  cases c with
  | act t =>
    simp only [Threads.call] at hc
    split at hc
    · obtain ⟨⟨p, k'⟩, hk, rfl⟩ := Option.map_eq_some_iff.mp hc
      exact Kernel.actStep_initPriority t u hk
    · cases hc
  | load t prog =>
    simp only [Threads.call] at hc
    split at hc
    · cases hc
      rfl
    · cases hc
  | resume t =>
    cases hc
    exact x.k.rtThreadResume_initPriority t u
  | suspend t =>
    cases hc
    exact x.k.rtThreadSuspend_initPriority t u
  | startup t =>
    obtain ⟨k', hk, rfl⟩ := Option.map_eq_some_iff.mp hc
    unfold Kernel.rtThreadStartup at hk
    split at hk
    · cases hk
      exact (Kernel.rtThreadResume_initPriority _ t u).trans
        (setThread_initPriority x.k t u (by rfl))
    · cases hk
  | exit t =>
    simp only [Threads.call] at hc
    split at hc
    · cases hc
      exact setThread_initPriority x.k t u (by rfl)
    · cases hc
  | control t priority =>
    cases hc
    exact setThread_initPriority x.k t u (by rfl)
  | timeout t =>
    simp only [Threads.call] at hc
    split at hc
    · obtain ⟨k', hk, rfl⟩ := Option.map_eq_some_iff.mp hc
      unfold Kernel.rtThreadTimeout at hk
      split at hk
      · cases hk
        refine (setThread_initPriority _ t u (by rfl)).trans ?_
        refine (setThread_initPriority _ t u (by rfl)).trans ?_
        rw [Kernel.rtTimerTakeOff_thread]
      · cases hk
    · cases hc
  | schedule t =>
    obtain ⟨k', hk, rfl⟩ := Option.map_eq_some_iff.mp hc
    unfold Kernel.rtScheduleTo at hk
    split at hk
    · cases hk
      refine (setThread_initPriority _ t u (by rfl)).trans ?_
      split
      · exact setThread_initPriority x.k _ u rfl
      · rfl
    · cases hk
  | tick =>
    cases hc
    rfl
  | timerStart a =>
    obtain ⟨k', hk, rfl⟩ := Option.map_eq_some_iff.mp hc
    show (k'.thread u).initPriority = _
    rw [(Kernel.rtTimerStart_frame hk).1]
  | timerStop a =>
    cases hc
    simp
  | timerSetTime a time =>
    cases hc
    rfl
  | timerTakeOff a =>
    cases hc
    simp
  | timerRearm a =>
    obtain ⟨k', hk, rfl⟩ := Option.map_eq_some_iff.mp hc
    show (k'.thread u).initPriority = _
    rw [(Kernel.rtTimerRearm_frame hk).1]

end OsesProject
