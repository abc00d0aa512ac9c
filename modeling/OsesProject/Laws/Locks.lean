import OsesProject.Kernel.Program

/-!
# Laws of mutexes, over every run of the kernel

`LockInv` is what holds of the mutexes, the threads and the timers whatever the threads do and
whoever resumes whom, as long as the threads' programs are bracketed:

* the owner of a mutex has asked for it and not released it, and a mutex without an owner is free
  and has no waiters;
* a thread on the list of a mutex is suspended inside its take of this mutex;
* a thread whose timer runs is suspended inside its sleep.

It says nothing of the converse: a thread that is past its take need not be the owner. Here are
the calls that touch no mutex; the actions of a thread are in `Laws.Actions`, with the law
`LockInv.call` that puts all of them together.
-/

set_option linter.unusedSectionVars false

namespace OsesProject

variable {T M A : Type} [DecidableEq T] [DecidableEq M] [DecidableEq A]

/-- What holds of the mutexes, the threads and the timers, whoever resumes whom. -/
structure LockInv (x : Threads T M A) : Prop where
  nested : ∀ t, Nested (x.pc t).stack (x.pc t).todo
  distinct : ∀ t, (x.pc t).stack.Nodup
  inTake : ∀ t m todo, x.pc t = .inTake m todo → (stackOf todo).head? = some m
  owner_mem : ∀ t m, (x.k.mutex m).owner = some t → m ∈ (x.pc t).stack
  waits : ∀ t m, t ∈ (x.k.mutex m).suspendThread →
    (∃ todo, x.pc t = .inTake m todo) ∧ (x.k.thread t).stat = .suspend ∧
      (x.k.mutex m).owner ≠ some t
  nodup : ∀ m, (x.k.mutex m).suspendThread.Nodup
  free : ∀ m, (x.k.mutex m).owner = none →
    (x.k.mutex m).value = 1 ∧ (x.k.mutex m).hold = 0 ∧ (x.k.mutex m).suspendThread = []
  held : ∀ t m, (x.k.mutex m).owner = some t → (x.k.mutex m).value = 0 ∧ (x.k.mutex m).hold = 1
  sleeps : ∀ t, .thread t ∈ x.k.timerList →
    (∃ todo, x.pc t = .inSleep todo) ∧ (x.k.thread t).stat = .suspend
  listed : ∀ i ∈ x.k.timerList, (x.k.timer i).activated = true

namespace LockInv

variable {x x' : Threads T M A}

/-! ## Frames -/

/-- Whatever leaves the mutexes and the programs alone, and wakes no thread that is inside a
program, keeps the invariant. -/
theorem frame (h : LockInv x) (hm : x'.k.mutex = x.k.mutex) (hpc : x'.pc = x.pc)
    (hstat : ∀ t, x.pc t ≠ .run [] → (x.k.thread t).stat = .suspend →
      (x'.k.thread t).stat = .suspend)
    (hlist : ∀ t, .thread t ∈ x'.k.timerList → .thread t ∈ x.k.timerList)
    (hact : ∀ i ∈ x'.k.timerList, (x'.k.timer i).activated = true) : LockInv x' where
  nested := by rw [hpc]; exact h.nested
  distinct := by rw [hpc]; exact h.distinct
  inTake := by rw [hpc]; exact h.inTake
  owner_mem := by rw [hpc, hm]; exact h.owner_mem
  waits := by
    intro t m ht
    rw [hm] at ht ⊢
    obtain ⟨⟨todo, htodo⟩, hs, hne⟩ := h.waits t m ht
    exact ⟨⟨todo, by rw [hpc, htodo]⟩, hstat t (by simp [htodo]) hs, hne⟩
  nodup := by rw [hm]; exact h.nodup
  free := by rw [hm]; exact h.free
  held := by rw [hm]; exact h.held
  sleeps := by
    intro t ht
    obtain ⟨⟨todo, htodo⟩, hs⟩ := h.sleeps t (hlist t ht)
    exact ⟨⟨todo, by rw [hpc, htodo]⟩, hstat t (by simp [htodo]) hs⟩
  listed := hact

/-- Whatever takes one thread off every list it is suspended on, and leaves the other threads,
the owners and the programs alone, keeps the invariant. -/
theorem wake (h : LockInv x) (t : T) (hpc : x'.pc = x.pc)
    (hm : ∀ m, x'.k.mutex m =
      { x.k.mutex m with suspendThread := (x.k.mutex m).suspendThread.filter (· ≠ t) })
    (hstat : ∀ u, u ≠ t → (x'.k.thread u).stat = (x.k.thread u).stat)
    (hlist : ∀ i ∈ x'.k.timerList, i ≠ .thread t ∧ i ∈ x.k.timerList)
    (hact : ∀ i ∈ x'.k.timerList, (x'.k.timer i).activated = true) : LockInv x' where
  nested := by rw [hpc]; exact h.nested
  distinct := by rw [hpc]; exact h.distinct
  inTake := by rw [hpc]; exact h.inTake
  owner_mem := by
    intro u m hu
    rw [hm] at hu
    rw [hpc]
    exact h.owner_mem u m hu
  waits := by
    intro u m hu
    rw [hm] at hu ⊢
    simp only [List.mem_filter, decide_eq_true_eq] at hu
    obtain ⟨hw, hs, hne⟩ := h.waits u m hu.1
    rw [hpc, hstat u hu.2]
    exact ⟨hw, hs, hne⟩
  nodup := by
    intro m
    rw [hm]
    exact (h.nodup m).filter _
  free := by
    intro m hown
    rw [hm] at hown ⊢
    obtain ⟨hv, hh, hw⟩ := h.free m hown
    exact ⟨hv, hh, by simp [hw]⟩
  held := by
    intro u m hown
    rw [hm] at hown ⊢
    exact h.held u m hown
  sleeps := by
    intro u hu
    obtain ⟨hne, hmem⟩ := hlist _ hu
    have hut : u ≠ t := fun he => hne (by rw [he])
    rw [hpc, hstat u hut]
    exact h.sleeps u hmem
  listed := hact

/-! ## Consequences -/

/-- A thread outside all programs waits for no mutex. -/
theorem not_waits (h : LockInv x) {t : T} (ht : x.pc t = .run []) (m : M) :
    t ∉ (x.k.mutex m).suspendThread := by
  intro hw
  obtain ⟨⟨todo, htodo⟩, -⟩ := h.waits t m hw
  rw [ht] at htodo
  cases htodo

/-- A thread outside all programs owns no mutex. -/
theorem not_owner (h : LockInv x) {t : T} (ht : x.pc t = .run []) (m : M) :
    (x.k.mutex m).owner ≠ some t := by
  intro hown
  have := h.owner_mem t m hown
  rw [ht] at this
  cases this

/-- A thread waits for one mutex at a time. -/
theorem waits_unique (h : LockInv x) {t : T} {m n : M} (hm : t ∈ (x.k.mutex m).suspendThread)
    (hn : t ∈ (x.k.mutex n).suspendThread) : m = n := by
  obtain ⟨⟨todo, htodo⟩, -⟩ := h.waits t m hm
  obtain ⟨⟨todo', htodo'⟩, -⟩ := h.waits t n hn
  rw [htodo] at htodo'
  cases htodo'
  rfl

/-! ## Calls that touch no mutex -/

theorem resume (h : LockInv x) (t : T) : LockInv { x with k := x.k.rtThreadResume t } := by
  by_cases hs : (x.k.thread t).stat = .suspend
  · have hlist : ∀ i ∈ (x.k.rtThreadResume t).timerList,
        i ≠ .thread t ∧ i ∈ x.k.timerList := by
      intro i hi
      obtain ⟨hmem, hne⟩ := (Kernel.rtThreadResume_timerList hs).mp hi
      refine ⟨?_, hmem⟩
      rintro rfl
      exact hne (h.listed _ hmem) rfl
    refine h.wake t rfl ?_ ?_ hlist ?_
    · intro m
      show (x.k.rtThreadResume t).mutex m = _
      rw [Kernel.rtThreadResume_mutex, if_pos hs]
    · intro u hu
      show ((x.k.rtThreadResume t).thread u).stat = _
      rw [Kernel.rtThreadResume_stat, if_neg (fun hc => hu hc.1)]
    · intro i hi
      show ((x.k.rtThreadResume t).timer i).activated = true
      rw [Kernel.rtThreadResume_timer hs, if_neg (hlist i hi).1]
      exact h.listed i (hlist i hi).2
  · have : x.k.rtThreadResume t = x.k := if_neg hs
    rw [this]
    exact h

theorem suspend (h : LockInv x) (t : T) : LockInv { x with k := x.k.rtThreadSuspend t } := by
  by_cases hs : (x.k.thread t).stat = .ready ∨ (x.k.thread t).stat = .running
  · refine h.frame (by simp) rfl ?_ ?_ ?_
    · intro u hu hs
      show ((x.k.rtThreadSuspend t).thread u).stat = _
      rw [Kernel.rtThreadSuspend_stat]
      split
      · rfl
      · exact hs
    · intro u hu
      exact Kernel.rtThreadSuspend_timerList hu
    · intro i hi
      have hmem := Kernel.rtThreadSuspend_timerList hi
      have hne : i ≠ .thread t := by
        rintro rfl
        have := (h.sleeps t hmem).2
        rw [this] at hs
        rcases hs with hs | hs <;> cases hs
      show ((x.k.rtThreadSuspend t).timer i).activated = true
      rw [Kernel.rtThreadSuspend_timer hne]
      exact h.listed i hmem
  · have : x.k.rtThreadSuspend t = x.k := if_neg hs
    rw [this]
    exact h

theorem startup (h : LockInv x) {t : T} {k' : Kernel T M A}
    (hk : x.k.rtThreadStartup t = some k') : LockInv { x with k := k' } := by
  unfold Kernel.rtThreadStartup at hk
  split at hk
  · cases hk
    -- the thread is put into the suspended state first, and then resumed
    let y : Threads T M A := { x with k := x.k.setThread t { x.k.thread t with
      currentPriority := (x.k.thread t).initPriority
      stat := .suspend } }
    have hy : LockInv y := by
      refine h.frame rfl rfl ?_ (fun _ hu => hu) h.listed
      intro u _ hs
      simp only [y, setThread_thread]
      split
      · rfl
      · exact hs
    exact hy.resume t
  · cases hk

/-- A thread initialised anew has been outside its programs. -/
theorem init (h : LockInv x) {t : T} {k' : Kernel T M A} {objects objects' : Objects T}
    {priority : Nat} (ht : x.pc t = .run [])
    (hk : x.k.rtThreadInit objects t priority = some (k', objects')) :
    LockInv { x with k := k' } := by
  obtain ⟨rfl, -⟩ := Kernel.rtThreadInit_eq hk
  refine h.frame rfl rfl ?_ (fun _ hu => hu) ?_
  · intro u hu hs
    have hut : u ≠ t := by
      rintro rfl
      exact hu ht
    simpa [hut] using hs
  · intro i hi
    have hne : i ≠ .thread t := by
      rintro rfl
      obtain ⟨todo, htodo⟩ := (h.sleeps t hi).1
      rw [ht] at htodo
      cases htodo
    simpa [hne] using h.listed i hi

theorem exit (h : LockInv x) (t : T) (hrun : (x.k.thread t).stat = .running) :
    LockInv { x with k := x.k.rtThreadExit t } := by
  have hlist : ∀ i ∈ (x.k.rtThreadExit t).timerList, i ≠ .thread t ∧ i ∈ x.k.timerList := by
    intro i hi
    simp only [Kernel.rtThreadExit, Kernel.rtTimerDetach, Kernel.rtTimerRemove,
      setTimer_timerList, setThread_timerList, List.mem_filter, decide_eq_true_eq] at hi
    exact ⟨hi.2, hi.1⟩
  refine h.frame rfl rfl ?_ (fun u hu => (hlist _ hu).2) ?_
  · intro u _ hs
    have hut : u ≠ t := by
      rintro rfl
      rw [hrun] at hs
      cases hs
    simpa [Kernel.rtThreadExit, hut] using hs
  · intro i hi
    have hne := (hlist i hi).1
    simpa [Kernel.rtThreadExit, Kernel.rtTimerDetach, Kernel.rtTimerRemove, hne] using
      h.listed i (hlist i hi).2

theorem control (h : LockInv x) (t : T) (priority : Nat) :
    LockInv { x with k := x.k.rtThreadChangePriority t priority } := by
  refine h.frame rfl rfl ?_ (fun _ hu => hu) h.listed
  intro u _ hs
  simpa using hs

theorem timeout (h : LockInv x) {t : T} {k' : Kernel T M A}
    (hk : (x.k.rtTimerTakeOff (.thread t)).rtThreadTimeout t = some k') :
    LockInv { x with k := k' } := by
  unfold Kernel.rtThreadTimeout at hk
  split at hk
  · cases hk
    have hlist : ∀ i ∈ (x.k.rtTimerTakeOff (.thread t)).timerList,
        i ≠ .thread t ∧ i ∈ x.k.timerList := by
      intro i hi
      obtain ⟨hmem, hne⟩ := Kernel.rtTimerTakeOff_mem.mp hi
      exact ⟨hne, hmem⟩
    refine h.wake t rfl ?_ ?_ hlist ?_
    · intro m
      simp [Kernel.rtListRemoveTlist, Kernel.rtScheduleInsertThread]
    · intro u hu
      simp [Kernel.rtListRemoveTlist, Kernel.rtScheduleInsertThread, hu]
    · intro i hi
      show ((x.k.rtTimerTakeOff (.thread t)).timer i).activated = true
      rw [Kernel.rtTimerTakeOff_timer, if_neg (fun hc => (hlist i hi).1 hc.1)]
      exact h.listed i (hlist i hi).2
  · cases hk

theorem schedule (h : LockInv x) {t : T} {k' : Kernel T M A} (hk : x.k.rtScheduleTo t = some k') :
    LockInv { x with k := k' } := by
  obtain ⟨hm, htimer, hlist, hstat⟩ := Kernel.rtScheduleTo_frame hk
  refine h.frame hm rfl ?_ ?_ ?_
  · intro u _ hs
    exact (hstat u).mpr hs
  · intro u hu
    exact hlist ▸ hu
  · intro i hi
    show (k'.timer i).activated = true
    rw [htimer]
    exact h.listed i (hlist ▸ hi)

/-- A thread outside all programs begins a bracketed one. -/
theorem load (h : LockInv x) {t : T} {prog : List (Act M)} (ht : x.pc t = .run [])
    (hprog : Nested [] prog) :
    LockInv { x with pc := Function.update x.pc t (.run prog) } := by
  have hpc : ∀ u p, p ≠ .run [] → p ≠ .run prog →
      (Function.update x.pc t (.run prog) u = p ↔ x.pc u = p) := by
    intro u p hp hp'
    by_cases hu : u = t
    · subst hu
      simp [ht, Ne.symm hp, Ne.symm hp']
    · simp [hu]
  have hs := hprog.stackOf_eq
  refine ⟨?_, ?_, ?_, ?_, ?_, h.nodup, h.free, h.held, ?_, h.listed⟩
  · intro u
    by_cases hu : u = t
    · subst hu
      simpa [Pc.stack, Pc.todo, hs] using hprog
    · simpa [hu] using h.nested u
  · intro u
    by_cases hu : u = t
    · subst hu
      simp [Pc.stack, Pc.todo, hs]
    · simpa [hu] using h.distinct u
  · intro u m todo hu
    exact h.inTake u m todo ((hpc u _ (by simp) (by simp)).mp hu)
  · intro u m hu
    have hut : u ≠ t := fun he => h.not_owner ht m (he ▸ hu)
    simpa [hut] using h.owner_mem u m hu
  · intro u m hu
    obtain ⟨⟨todo, htodo⟩, hs⟩ := h.waits u m hu
    exact ⟨⟨todo, (hpc u _ (by simp) (by simp)).mpr htodo⟩, hs⟩
  · intro u hu
    obtain ⟨⟨todo, htodo⟩, hs⟩ := h.sleeps u hu
    exact ⟨⟨todo, (hpc u _ (by simp) (by simp)).mpr htodo⟩, hs⟩

/-! ## Calls on the application's timers -/

theorem timerStart (h : LockInv x) {a : A} {k' : Kernel T M A}
    (hk : x.k.rtTimerStart (.app a) = some k') : LockInv { x with k := k' } := by
  obtain ⟨hth, -, hm, -⟩ := Kernel.rtTimerStart_frame hk
  refine h.frame hm rfl ?_ ?_ ?_
  · intro u _ hs
    exact (congrArg (fun f => (f u).stat) hth).trans hs
  · intro u hu
    rcases (Kernel.rtTimerStart_mem hk).mp hu with hu | hu
    · cases hu
    · exact hu
  · intro i hi
    show (k'.timer i).activated = true
    rw [Kernel.rtTimerStart_timer hk]
    split
    · rfl
    · next hne => exact h.listed i (((Kernel.rtTimerStart_mem hk).mp hi).resolve_left hne)

theorem timerStop (h : LockInv x) (a : A) :
    LockInv { x with k := x.k.rtTimerStop (.app a) } := by
  refine h.frame (by simp) rfl ?_ ?_ ?_
  · intro u _ hs
    simpa using hs
  · intro u hu
    exact (Kernel.rtTimerStop_mem.mp hu).1
  · intro i hi
    obtain ⟨hmem, hne⟩ := Kernel.rtTimerStop_mem.mp hi
    show ((x.k.rtTimerStop (.app a)).timer i).activated = true
    rw [Kernel.rtTimerStop_timer, if_neg]
    · exact h.listed i hmem
    · rintro rfl
      exact hne (h.listed _ hmem) rfl

theorem timerSetTime (h : LockInv x) (a : A) (time : Nat) :
    LockInv { x with k := x.k.rtTimerSetTime (.app a) time } := by
  refine h.frame rfl rfl (fun _ _ hs => hs) (fun _ hu => hu) ?_
  intro i hi
  have := h.listed i hi
  by_cases hia : i = .app a
  · subst hia
    simpa [Kernel.rtTimerSetTime] using this
  · simpa [Kernel.rtTimerSetTime, hia] using this

theorem timerTakeOff (h : LockInv x) (a : A) :
    LockInv { x with k := x.k.rtTimerTakeOff (.app a) } := by
  refine h.frame (by simp) rfl ?_ ?_ ?_
  · intro u _ hs
    simpa using hs
  · intro u hu
    exact (Kernel.rtTimerTakeOff_mem.mp hu).1
  · intro i hi
    obtain ⟨hmem, hne⟩ := Kernel.rtTimerTakeOff_mem.mp hi
    show ((x.k.rtTimerTakeOff (.app a)).timer i).activated = true
    rw [Kernel.rtTimerTakeOff_timer, if_neg (fun hc => hne hc.1)]
    exact h.listed i hmem

theorem timerRearm (h : LockInv x) {a : A} {k' : Kernel T M A}
    (hk : x.k.rtTimerRearm (.app a) = some k') : LockInv { x with k := k' } := by
  rcases Kernel.rtTimerRearm_cases hk with rfl | ⟨-, hk⟩
  · exact h
  · obtain ⟨hth, -, hm, -⟩ := Kernel.rtTimerStart_frame hk
    refine h.frame hm rfl ?_ ?_ ?_
    · intro u _ hs
      exact (congrArg (fun f => (f u).stat) hth).trans hs
    · intro u hu
      rcases (Kernel.rtTimerStart_mem hk).mp hu with hu | hu
      · cases hu
      · exact hu
    · intro i hi
      show (k'.timer i).activated = true
      rw [Kernel.rtTimerStart_timer hk]
      split
      · rfl
      · next hne =>
        rw [setTimer_timer, if_neg hne]
        exact h.listed i (((Kernel.rtTimerStart_mem hk).mp hi).resolve_left hne)

end LockInv

end OsesProject
