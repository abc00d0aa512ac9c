import OsesProject.Laws.Locks

/-!
# Laws of a thread's actions

What a take, a release and a sleep come to in a state with `LockInv` (`take_held_spec`,
`release_next_spec`, `release_last_spec`, `sleep_spec`), and that they keep it. `LockInv.call`
gathers this with the other calls: the invariant holds after every call.
-/

set_option linter.unusedSectionVars false

namespace OsesProject.LockInv

variable {T M A : Type} [DecidableEq T] [DecidableEq M] [DecidableEq A]
variable {x x' : Threads T M A}

/-- A thread that runs waits for no mutex. -/
theorem running_not_waits (h : LockInv x) {t : T} (hrun : (x.k.thread t).stat = .running) (m : M) :
    t ∉ (x.k.mutex m).suspendThread := by
  intro hw
  have := (h.waits t m hw).2.1
  rw [hrun] at this
  cases this

/-- A thread that runs has no timer running. -/
theorem running_not_sleeps (h : LockInv x) {t : T} (hrun : (x.k.thread t).stat = .running) :
    .thread t ∉ x.k.timerList := by
  intro hmem
  have := (h.sleeps t hmem).2
  rw [hrun] at this
  cases this

/-- What a bracketed program says of its next take. -/
theorem nested_take (h : LockInv x) {t : T} {m : M} {todo : List (Act M)}
    (hpc : x.pc t = .run (.take m :: todo)) :
    m ∉ (x.pc t).stack ∧ stackOf todo = m :: (x.pc t).stack ∧ Nested (stackOf todo) todo := by
  have hn := h.nested t
  rw [hpc] at hn ⊢
  obtain ⟨hm, hn⟩ := hn
  have hs := hn.stackOf_eq
  exact ⟨hm, hs, hs ▸ hn⟩

/-- What a bracketed program says of its next release. -/
theorem nested_release (h : LockInv x) {t : T} {m : M} {todo : List (Act M)}
    (hpc : x.pc t = .run (.release m :: todo)) :
    (x.pc t).stack = m :: stackOf todo ∧ Nested (stackOf todo) todo := by
  have hn := h.nested t
  rw [hpc] at hn ⊢
  exact ⟨rfl, hn.2⟩

/-- A mutex in the program of the thread that is about to take it has not been taken by it. -/
theorem take_not_owner (h : LockInv x) {t : T} {m : M} {todo : List (Act M)}
    (hpc : x.pc t = .run (.take m :: todo)) : (x.k.mutex m).owner ≠ some t := by
  intro hown
  exact (h.nested_take hpc).1 (h.owner_mem t m hown)

theorem take_free (h : LockInv x) {t : T} {m : M} {todo : List (Act M)}
    (hrun : (x.k.thread t).stat = .running) (hpc : x.pc t = .run (.take m :: todo))
    (hown : (x.k.mutex m).owner = none) :
    LockInv ⟨(x.k.rtMutexTake t m).1, Function.update x.pc t (.run todo)⟩ := by
  obtain ⟨hv, hh, hw⟩ := h.free m hown
  obtain ⟨hm, hstk, hn⟩ := h.nested_take hpc
  rw [Kernel.rtMutexTake_free hown hv hh]
  constructor
  case nested =>
    intro u
    by_cases hu : u = t
    · subst hu
      simpa [Pc.stack, Pc.todo] using hn
    · simpa [hu] using h.nested u
  case distinct =>
    intro u
    by_cases hu : u = t
    · subst hu
      simpa [Pc.stack, Pc.todo, hstk] using ⟨hm, h.distinct u⟩
    · simpa [hu] using h.distinct u
  case inTake =>
    intro u n todo' hu
    by_cases hut : u = t
    · subst hut
      simp at hu
    · exact h.inTake u n todo' (by simpa [hut] using hu)
  case owner_mem =>
    intro u n hu
    by_cases hnm : n = m
    · subst hnm
      simp only [setMutex_mutex, if_true, Option.some.injEq] at hu
      subst hu
      simp [Pc.stack, Pc.todo, hstk]
    · simp only [setMutex_mutex, hnm, if_false, setThread_mutex] at hu
      have := h.owner_mem u n hu
      by_cases hut : u = t
      · subst hut
        simpa [Pc.stack, Pc.todo, hstk] using .inr this
      · simpa [hut] using this
  case waits =>
    intro u n hu
    by_cases hnm : n = m
    · subst hnm
      simp [hw] at hu
    · simp only [setMutex_mutex, hnm, if_false, setThread_mutex] at hu
      have hut : u ≠ t := fun he => h.running_not_waits hrun n (he ▸ hu)
      simpa [hut, hnm] using h.waits u n hu
  case nodup =>
    intro n
    by_cases hnm : n = m <;> simp [hnm, h.nodup]
  case free =>
    intro n hn
    by_cases hnm : n = m
    · simp [hnm] at hn
    · simp only [setMutex_mutex, hnm, if_false, setThread_mutex] at hn ⊢
      exact h.free n hn
  case held =>
    intro u n hn
    by_cases hnm : n = m
    · simp [hnm]
    · simp only [setMutex_mutex, hnm, if_false, setThread_mutex] at hn ⊢
      exact h.held u n hn
  case sleeps =>
    intro u hu
    have hut : u ≠ t := fun he => h.running_not_sleeps hrun (he ▸ hu)
    simpa [hut] using h.sleeps u hu
  case listed => exact h.listed

/-- **A take that has to wait.** The thread goes to the end of the list of the mutex and is
suspended; nobody's priority changes but the owner's. -/
theorem take_held_spec (h : LockInv x) {t o : T} {m : M} {todo : List (Act M)}
    (hrun : (x.k.thread t).stat = .running) (hpc : x.pc t = .run (.take m :: todo))
    (hown : (x.k.mutex m).owner = some o) :
    (∀ n, (x.k.rtMutexTake t m).1.mutex n =
      if n = m then { x.k.mutex m with suspendThread := (x.k.mutex m).suspendThread ++ [t] }
      else x.k.mutex n) ∧
    (∀ u, ((x.k.rtMutexTake t m).1.thread u).stat =
      if u = t then .suspend else (x.k.thread u).stat) ∧
    (∀ u, u ≠ o → ((x.k.rtMutexTake t m).1.thread u).currentPriority =
      (x.k.thread u).currentPriority) ∧
    (∀ i ∈ (x.k.rtMutexTake t m).1.timerList, i ∈ x.k.timerList ∧
      (x.k.rtMutexTake t m).1.timer i = x.k.timer i) := by
  have hne := h.take_not_owner hpc
  rw [Kernel.rtMutexTake_held hne (h.held o m hown).1]
  refine ⟨?_, ?_, ?_, ?_⟩
  · intro n
    simp [Kernel.rtIpcListSuspend_mutex]
  · intro u
    by_cases hut : u = t <;> simp [Kernel.rtThreadSuspend_stat, hut, hrun]
  · intro u huo
    simp only [Kernel.rtIpcListSuspend_thread, Kernel.rtThreadSuspend_priority]
    rw [Kernel.inheritPriority_priority]
    · simp only [setThread_thread]
      split
      · next hut => rw [hut]
      · rfl
    · rw [setThread_mutex, hown]
      exact fun he => huo (Option.some.inj he).symm
  · intro i hi
    have hmem : i ∈ x.k.timerList := by simpa using Kernel.rtThreadSuspend_timerList hi
    have hit : i ≠ .thread t := fun he => h.running_not_sleeps hrun (he ▸ hmem)
    refine ⟨hmem, ?_⟩
    rw [Kernel.rtIpcListSuspend_timer, Kernel.rtThreadSuspend_timer hit]
    simp

theorem take_held (h : LockInv x) {t o : T} {m : M} {todo : List (Act M)}
    (hrun : (x.k.thread t).stat = .running) (hpc : x.pc t = .run (.take m :: todo))
    (hown : (x.k.mutex m).owner = some o) :
    LockInv ⟨(x.k.rtMutexTake t m).1, Function.update x.pc t (.inTake m todo)⟩ := by
  obtain ⟨hmutex, hstat, -, hlist⟩ := h.take_held_spec hrun hpc hown
  have hne := h.take_not_owner hpc
  obtain ⟨hm, hstk, hn⟩ := h.nested_take hpc
  constructor
  case nested =>
    intro u
    by_cases hu : u = t
    · subst hu
      simpa [Pc.stack, Pc.todo] using hn
    · simpa [hu] using h.nested u
  case distinct =>
    intro u
    by_cases hu : u = t
    · subst hu
      simpa [Pc.stack, Pc.todo, hstk] using ⟨hm, h.distinct u⟩
    · simpa [hu] using h.distinct u
  case inTake =>
    intro u n todo' hu
    by_cases hut : u = t
    · subst hut
      simp only [Function.update_self, Pc.inTake.injEq] at hu
      obtain ⟨rfl, rfl⟩ := hu
      rw [hstk]
      rfl
    · exact h.inTake u n todo' (by simpa [hut] using hu)
  case owner_mem =>
    intro u n hu
    have hu : (x.k.mutex n).owner = some u := by
      rw [hmutex] at hu
      split at hu
      · next hnm => exact hnm ▸ hu
      · exact hu
    have := h.owner_mem u n hu
    by_cases hut : u = t
    · subst hut
      simpa [Pc.stack, Pc.todo, hstk] using .inr this
    · simpa [hut] using this
  case waits =>
    intro u n hu
    by_cases hut : u = t
    · subst hut
      rw [hmutex] at hu
      split at hu
      · next hnm =>
        subst hnm
        refine ⟨⟨todo, by simp⟩, by rw [hstat, if_pos rfl], ?_⟩
        rw [hmutex, if_pos rfl]
        exact hne
      · exact absurd hu (h.running_not_waits hrun n)
    · simp only [Function.update_of_ne hut, hstat, if_neg hut, hmutex] at hu ⊢
      split at hu
      · next hnm =>
        subst hnm
        simp only [List.mem_append, List.mem_singleton, hut, or_false] at hu
        simpa using h.waits u n hu
      · next hnm => simpa [hnm] using h.waits u n hu
  case nodup =>
    intro n
    rw [hmutex]
    split
    · refine List.nodup_append.mpr ⟨h.nodup m, by simp, ?_⟩
      intro u hu v hv
      simp only [List.mem_singleton] at hv
      rintro rfl
      exact h.running_not_waits hrun m (hv ▸ hu)
    · exact h.nodup n
  case free =>
    intro n hn
    rw [hmutex] at hn ⊢
    split at hn
    · rw [hown] at hn
      cases hn
    · next hnm =>
      rw [if_neg hnm]
      exact h.free n hn
  case held =>
    intro u n hn
    rw [hmutex] at hn ⊢
    split at hn
    · rw [if_pos ‹_›]
      exact h.held u m hn
    · rw [if_neg ‹_›]
      exact h.held u n hn
  case sleeps =>
    intro u hu
    have hmem := (hlist _ hu).1
    have hut : u ≠ t := fun he => h.running_not_sleeps hrun (he ▸ hmem)
    simp only [Function.update_of_ne hut, hstat, if_neg hut]
    exact h.sleeps u hmem
  case listed =>
    intro i hi
    rw [(hlist i hi).2]
    exact h.listed i (hlist i hi).1

/-- **A release with a waiter.** The mutex goes to the first waiter, with the waiter's priority
recorded, and the waiter is ready; the releasing thread gets the priority recorded for it. -/
theorem release_next_spec (h : LockInv x) {t u : T} {m : M} {us : List T}
    (hown : (x.k.mutex m).owner = some t) (hw : (x.k.mutex m).suspendThread = u :: us) :
    (∀ n, (x.k.rtMutexRelease t m).mutex n =
      if n = m then
        { x.k.mutex m with
          suspendThread := us
          owner := some u
          originalPriority := (x.k.thread u).currentPriority }
      else x.k.mutex n) ∧
    (∀ v, v ≠ u → ((x.k.rtMutexRelease t m).thread v).stat = (x.k.thread v).stat) ∧
    (∀ v, ((x.k.rtMutexRelease t m).thread v).currentPriority =
      if v = t then (x.k.mutex m).originalPriority else (x.k.thread v).currentPriority) ∧
    (∀ i ∈ (x.k.rtMutexRelease t m).timerList, i ∈ x.k.timerList ∧
      (x.k.rtMutexRelease t m).timer i = x.k.timer i) := by
  have hu := h.waits u m (by rw [hw]; exact List.mem_cons_self)
  have hut : u ≠ t := fun he => hu.2.2 (he ▸ hown)
  have hnd := h.nodup m
  rw [hw, List.nodup_cons] at hnd
  have hfilter : ∀ n, n ≠ m → (x.k.mutex n).suspendThread.filter (· ≠ u) =
      (x.k.mutex n).suspendThread := by
    intro n hnm
    refine List.filter_eq_self.mpr fun v hv => ?_
    simp only [decide_eq_true_eq]
    rintro rfl
    exact hnm (h.waits_unique hv (by rw [hw]; exact List.mem_cons_self))
  have hus : ∀ v ∈ us, ¬v = u := by
    rintro v hv rfl
    exact hnd.1 hv
  have hsleep : .thread u ∉ x.k.timerList := by
    intro hmem
    obtain ⟨⟨todo, htodo⟩, -⟩ := h.sleeps u hmem
    obtain ⟨⟨todo', htodo'⟩, -⟩ := hu
    rw [htodo] at htodo'
    cases htodo'
  have hhold := (h.held t m hown).2
  have hw' : ((x.k.setMutex m { x.k.mutex m with hold := 0 }).mutex m).suspendThread = u :: us := by
    simpa using hw
  rw [Kernel.rtMutexRelease_owner hown hhold, Kernel.handOver_cons hw' (by simp)]
  refine ⟨?_, ?_, ?_, ?_⟩
  · intro n
    rw [Kernel.rtThreadResume_mutex, if_pos (by simpa using hu.2.1)]
    by_cases hnm : n = m
    · subst hnm
      simpa [Kernel.restorePriority_priority, hut, hw, hhold] using hus
    · simp only [setMutex_mutex, if_neg hnm, Kernel.restorePriority_mutex]
      rw [hfilter n hnm]
  · intro v hvu
    simp [Kernel.rtThreadResume_stat, hvu]
  · intro v
    simp [Kernel.restorePriority_priority]
  · intro i hi
    have hs : (((x.k.setMutex m { x.k.mutex m with hold := 0 }).restorePriority t m).thread u).stat
        = .suspend := by simpa using hu.2.1
    have hmem : i ∈ x.k.timerList := by
      simpa using ((Kernel.rtThreadResume_timerList (by simpa using hs)).mp hi).1
    have hiu : i ≠ .thread u := fun he => hsleep (he ▸ hmem)
    refine ⟨hmem, ?_⟩
    rw [Kernel.rtThreadResume_timer (by simpa using hs), if_neg hiu]
    simp

/-- **A release without a waiter.** The mutex is free; the releasing thread gets the priority
recorded for it. -/
theorem release_last_spec (h : LockInv x) {t : T} {m : M}
    (hown : (x.k.mutex m).owner = some t) (hw : (x.k.mutex m).suspendThread = []) :
    (∀ n, (x.k.rtMutexRelease t m).mutex n =
      if n = m then
        { x.k.mutex m with value := 1, owner := none, originalPriority := 0xff, hold := 0 }
      else x.k.mutex n) ∧
    (∀ v, ((x.k.rtMutexRelease t m).thread v).stat = (x.k.thread v).stat) ∧
    (∀ v, ((x.k.rtMutexRelease t m).thread v).currentPriority =
      if v = t then (x.k.mutex m).originalPriority else (x.k.thread v).currentPriority) ∧
    (x.k.rtMutexRelease t m).timerList = x.k.timerList ∧
    (x.k.rtMutexRelease t m).timer = x.k.timer := by
  obtain ⟨hv, hhold⟩ := h.held t m hown
  rw [Kernel.rtMutexRelease_owner hown hhold, Kernel.handOver_nil (by simpa using hw)
    (by simpa using hv)]
  refine ⟨?_, ?_, ?_, ?_, ?_⟩
  · intro n
    by_cases hnm : n = m <;> simp [hnm]
  · intro v
    simp
  · intro v
    simp [Kernel.restorePriority_priority]
  · simp
  · simp

/-- A thread past its release: the rest of its program, inside the mutexes that are left. -/
private theorem released_nested (h : LockInv x) {t : T} {m : M} {todo : List (Act M)}
    (hpc : x.pc t = .run (.release m :: todo)) (u : T) :
    Nested (Function.update x.pc t (.run todo) u).stack
      (Function.update x.pc t (.run todo) u).todo := by
  by_cases hu : u = t
  · subst hu
    simpa [Pc.stack, Pc.todo] using (h.nested_release hpc).2
  · simpa [hu] using h.nested u

private theorem released_distinct (h : LockInv x) {t : T} {m : M} {todo : List (Act M)}
    (hpc : x.pc t = .run (.release m :: todo)) (u : T) :
    (Function.update x.pc t (.run todo) u).stack.Nodup := by
  by_cases hu : u = t
  · subst hu
    have := h.distinct u
    rw [(h.nested_release hpc).1, List.nodup_cons] at this
    simpa [Pc.stack, Pc.todo] using this.2
  · simpa [hu] using h.distinct u

private theorem run_inTake {t u : T} {m : M} {todo todo' : List (Act M)}
    (hu : Function.update x.pc t (.run todo) u = .inTake m todo') :
    u ≠ t ∧ x.pc u = .inTake m todo' := by
  by_cases hut : u = t
  · subst hut
    simp at hu
  · exact ⟨hut, by simpa [hut] using hu⟩

/-- After its release of `m` a thread has still asked for the other mutexes it owns. -/
private theorem released_owner_mem (h : LockInv x) {t u : T} {m n : M} {todo : List (Act M)}
    (hpc : x.pc t = .run (.release m :: todo)) (hn : (x.k.mutex n).owner = some u)
    (hne : u = t → n ≠ m) : n ∈ (Function.update x.pc t (.run todo) u).stack := by
  have := h.owner_mem u n hn
  by_cases hut : u = t
  · subst hut
    rw [(h.nested_release hpc).1] at this
    simpa [Pc.stack, Pc.todo] using (List.mem_cons.mp this).resolve_left (hne rfl)
  · simpa [hut] using this

theorem release_next (h : LockInv x) {t u : T} {m : M} {us : List T} {todo : List (Act M)}
    (hrun : (x.k.thread t).stat = .running) (hpc : x.pc t = .run (.release m :: todo))
    (hown : (x.k.mutex m).owner = some t) (hw : (x.k.mutex m).suspendThread = u :: us) :
    LockInv ⟨x.k.rtMutexRelease t m, Function.update x.pc t (.run todo)⟩ := by
  obtain ⟨hmutex, hstat, -, hlist⟩ := h.release_next_spec hown hw
  have hu := h.waits u m (by rw [hw]; exact List.mem_cons_self)
  have hut : u ≠ t := fun he => hu.2.2 (he ▸ hown)
  have hnd := h.nodup m
  rw [hw, List.nodup_cons] at hnd
  constructor
  case nested => exact h.released_nested hpc
  case distinct => exact h.released_distinct hpc
  case inTake =>
    intro v n todo' hv
    exact h.inTake v n todo' (run_inTake hv).2
  case owner_mem =>
    intro v n hn
    rw [hmutex] at hn
    split at hn
    · next hnm =>
      cases hn
      obtain ⟨todo', htodo⟩ := hu.1
      have hhead := h.inTake u m todo' htodo
      rw [hnm]
      simp only [Function.update_of_ne hut, htodo]
      exact List.mem_of_mem_head? hhead
    · next hnm => exact h.released_owner_mem hpc hn fun _ => hnm
  case waits =>
    intro v n hv
    have hmem : v ∈ (x.k.mutex n).suspendThread ∧ v ≠ u := by
      rw [hmutex] at hv
      split at hv
      · next hnm =>
        subst hnm
        rw [hw]
        exact ⟨List.mem_cons_of_mem _ hv, ne_of_mem_of_not_mem hv hnd.1⟩
      · next hnm =>
        refine ⟨hv, ?_⟩
        rintro rfl
        exact hnm (h.waits_unique hv (by rw [hw]; exact List.mem_cons_self))
    have hvt : v ≠ t := fun he => h.running_not_waits hrun n (he ▸ hmem.1)
    obtain ⟨hin, hs, hne⟩ := h.waits v n hmem.1
    simp only [Function.update_of_ne hvt, hstat v hmem.2, hmutex]
    refine ⟨hin, hs, ?_⟩
    split
    · exact fun he => hmem.2 (Option.some.inj he).symm
    · exact hne
  case nodup =>
    intro n
    rw [hmutex]
    split
    · exact hnd.2
    · exact h.nodup n
  case free =>
    intro n hn
    rw [hmutex] at hn ⊢
    split at hn
    · cases hn
    · rw [if_neg ‹_›]
      exact h.free n hn
  case held =>
    intro v n hn
    rw [hmutex] at hn ⊢
    split at hn
    · rw [if_pos ‹_›]
      exact h.held t m hown
    · rw [if_neg ‹_›]
      exact h.held v n hn
  case sleeps =>
    intro v hv
    have hmem := (hlist _ hv).1
    have hvt : v ≠ t := fun he => h.running_not_sleeps hrun (he ▸ hmem)
    have hvu : v ≠ u := by
      rintro rfl
      obtain ⟨todo', htodo⟩ := (h.sleeps v hmem).1
      obtain ⟨todo'', htodo'⟩ := hu.1
      rw [htodo] at htodo'
      cases htodo'
    simp only [Function.update_of_ne hvt, hstat v hvu]
    exact h.sleeps v hmem
  case listed =>
    intro i hi
    rw [(hlist i hi).2]
    exact h.listed i (hlist i hi).1

theorem release_last (h : LockInv x) {t : T} {m : M} {todo : List (Act M)}
    (hrun : (x.k.thread t).stat = .running) (hpc : x.pc t = .run (.release m :: todo))
    (hown : (x.k.mutex m).owner = some t) (hw : (x.k.mutex m).suspendThread = []) :
    LockInv ⟨x.k.rtMutexRelease t m, Function.update x.pc t (.run todo)⟩ := by
  obtain ⟨hmutex, hstat, -, hlist, htimer⟩ := h.release_last_spec hown hw
  constructor
  case nested => exact h.released_nested hpc
  case distinct => exact h.released_distinct hpc
  case inTake =>
    intro v n todo' hv
    exact h.inTake v n todo' (run_inTake hv).2
  case owner_mem =>
    intro v n hn
    rw [hmutex] at hn
    split at hn
    · cases hn
    · next hnm => exact h.released_owner_mem hpc hn fun _ => hnm
  case waits =>
    intro v n hv
    rw [hmutex] at hv
    split at hv
    · simp [hw] at hv
    · next hnm =>
      have hvt : v ≠ t := fun he => h.running_not_waits hrun n (he ▸ hv)
      simp only [Function.update_of_ne hvt, hstat v, hmutex, if_neg hnm]
      exact h.waits v n hv
  case nodup =>
    intro n
    rw [hmutex]
    split
    · exact h.nodup m
    · exact h.nodup n
  case free =>
    intro n hn
    rw [hmutex] at hn ⊢
    split at hn
    · rw [if_pos ‹_›]
      exact ⟨rfl, rfl, hw⟩
    · rw [if_neg ‹_›]
      exact h.free n hn
  case held =>
    intro v n hn
    rw [hmutex] at hn ⊢
    split at hn
    · cases hn
    · rw [if_neg ‹_›]
      exact h.held v n hn
  case sleeps =>
    intro v hv
    rw [hlist] at hv
    have hvt : v ≠ t := fun he => h.running_not_sleeps hrun (he ▸ hv)
    simp only [Function.update_of_ne hvt, hstat v]
    exact h.sleeps v hv
  case listed =>
    intro i hi
    rw [hlist] at hi
    rw [htimer]
    exact h.listed i hi

/-- A running thread moves on in its program without touching a mutex or a timer: it releases a
mutex that is not its own, or returns from a take or a sleep. -/
theorem goOn (h : LockInv x) {t : T} {p : Pc M} {k' : Kernel T M A}
    (hrun : (x.k.thread t).stat = .running) (hp : ∀ m todo, p ≠ .inTake m todo)
    (hn : Nested p.stack p.todo) (hd : p.stack.Nodup)
    (hmem : ∀ n, (x.k.mutex n).owner = some t → n ∈ p.stack)
    (hmutex : k'.mutex = x.k.mutex) (hstat : ∀ u, (k'.thread u).stat = (x.k.thread u).stat)
    (htimer : k'.timer = x.k.timer) (hlist : k'.timerList = x.k.timerList) :
    LockInv ⟨k', Function.update x.pc t p⟩ := by
  constructor
  case nested =>
    intro u
    by_cases hu : u = t
    · subst hu
      simpa using hn
    · simpa [hu] using h.nested u
  case distinct =>
    intro u
    by_cases hu : u = t
    · subst hu
      simpa using hd
    · simpa [hu] using h.distinct u
  case inTake =>
    intro u m todo hu
    by_cases hut : u = t
    · subst hut
      simp only [Function.update_self] at hu
      exact absurd hu (hp m todo)
    · simp only [Function.update_of_ne hut] at hu
      exact h.inTake u m todo hu
  case owner_mem =>
    intro u n hu
    rw [hmutex] at hu
    by_cases hut : u = t
    · subst hut
      simpa using hmem n hu
    · simpa [hut] using h.owner_mem u n hu
  case waits =>
    intro u n hu
    simp only [hmutex] at hu ⊢
    have hut : u ≠ t := fun he => h.running_not_waits hrun n (he ▸ hu)
    simp only [Function.update_of_ne hut, hstat]
    exact h.waits u n hu
  case nodup => simpa only [hmutex] using h.nodup
  case free => simpa only [hmutex] using h.free
  case held => simpa only [hmutex] using h.held
  case sleeps =>
    intro u hu
    rw [hlist] at hu
    have hut : u ≠ t := fun he => h.running_not_sleeps hrun (he ▸ hu)
    simp only [Function.update_of_ne hut, hstat]
    exact h.sleeps u hu
  case listed => simpa only [htimer, hlist] using h.listed

/-- **A sleep.** The thread is suspended and its timer runs. -/
theorem sleep_spec (h : LockInv x) {t : T} {tick : Nat} {k' : Kernel T M A}
    (hrun : (x.k.thread t).stat = .running) (hk : x.k.rtThreadSleep t tick = some k') :
    k'.mutex = x.k.mutex ∧
    (∀ u, (k'.thread u).stat = if u = t then .suspend else (x.k.thread u).stat) ∧
    (∀ u, (k'.thread u).currentPriority = (x.k.thread u).currentPriority) ∧
    (∀ i ∈ k'.timerList, (i = .thread t ∨ i ∈ x.k.timerList) ∧ (k'.timer i).activated = true) := by
  unfold Kernel.rtThreadSleep at hk
  obtain ⟨hth, -, hm, -⟩ := Kernel.rtTimerStart_frame hk
  refine ⟨?_, ?_, ?_, ?_⟩
  · rw [hm]
    simp
  · intro u
    rw [hth]
    by_cases hut : u = t <;> simp [Kernel.rtThreadSuspend_stat, hut, hrun]
  · intro u
    rw [hth]
    simp
  · intro i hi
    rw [Kernel.rtTimerStart_timer hk]
    rcases (Kernel.rtTimerStart_mem hk).mp hi with hit | hi
    · exact ⟨.inl hit, by rw [if_pos hit]⟩
    · have hmem : i ∈ x.k.timerList := Kernel.rtThreadSuspend_timerList hi
      have hit : i ≠ .thread t := fun he => h.running_not_sleeps hrun (he ▸ hmem)
      refine ⟨.inr hmem, ?_⟩
      rw [if_neg hit, Kernel.rtTimerSetTime, setTimer_timer, if_neg hit,
        Kernel.rtThreadSuspend_timer hit]
      exact h.listed i hmem

theorem sleep (h : LockInv x) {t : T} {tick : Nat} {todo : List (Act M)} {k' : Kernel T M A}
    (hrun : (x.k.thread t).stat = .running) (hpc : x.pc t = .run (.delay tick :: todo))
    (hk : x.k.rtThreadSleep t tick = some k') :
    LockInv ⟨k', Function.update x.pc t (.inSleep todo)⟩ := by
  obtain ⟨hmutex, hstat, -, hlist⟩ := h.sleep_spec hrun hk
  have hn := h.nested t
  rw [hpc] at hn
  constructor
  case nested =>
    intro u
    by_cases hu : u = t
    · subst hu
      simpa [Pc.stack, Pc.todo, stackOf] using hn.2
    · simpa [hu] using h.nested u
  case distinct =>
    intro u
    by_cases hu : u = t
    · subst hu
      have := h.distinct u
      rw [hpc] at this
      simpa [Pc.stack, Pc.todo, stackOf] using this
    · simpa [hu] using h.distinct u
  case inTake =>
    intro u m todo' hu
    by_cases hut : u = t
    · subst hut
      simp at hu
    · simp only [Function.update_of_ne hut] at hu
      exact h.inTake u m todo' hu
  case owner_mem =>
    intro u n hu
    rw [hmutex] at hu
    have := h.owner_mem u n hu
    by_cases hut : u = t
    · subst hut
      rw [hpc] at this
      simpa [Pc.stack, Pc.todo, stackOf] using this
    · simpa [hut] using this
  case waits =>
    intro u n hu
    simp only [hmutex] at hu ⊢
    have hut : u ≠ t := fun he => h.running_not_waits hrun n (he ▸ hu)
    simp only [Function.update_of_ne hut, hstat, if_neg hut]
    exact h.waits u n hu
  case nodup => simpa only [hmutex] using h.nodup
  case free => simpa only [hmutex] using h.free
  case held => simpa only [hmutex] using h.held
  case sleeps =>
    intro u hu
    by_cases hut : u = t
    · subst hut
      exact ⟨⟨todo, by simp⟩, by rw [hstat, if_pos rfl]⟩
    · have hmem : .thread u ∈ x.k.timerList := by
        refine (hlist _ hu).1.resolve_left fun he => hut ?_
        cases he
        rfl
      simp only [Function.update_of_ne hut, hstat, if_neg hut]
      exact h.sleeps u hmem
  case listed => exact fun i hi => (hlist i hi).2

/-- **An action of a thread keeps the invariant.** -/
theorem act (h : LockInv x) {t : T} {p : Pc M} {k' : Kernel T M A}
    (hrun : (x.k.thread t).stat = .running) (hk : x.k.actStep t (x.pc t) = some (p, k')) :
    LockInv ⟨k', Function.update x.pc t p⟩ := by
  cases hpc : x.pc t with
  | run todo =>
    rw [hpc] at hk
    cases todo with
    | nil => cases hk
    | cons a todo =>
      cases a with
      | take m =>
        cases hown : (x.k.mutex m).owner with
        | none =>
          obtain ⟨hv, hh, -⟩ := h.free m hown
          have hI := h.take_free hrun hpc hown
          simp only [Kernel.actStep, Kernel.rtMutexTake_free hown hv hh] at hk hI
          cases hk
          exact hI
        | some o =>
          have hI := h.take_held hrun hpc hown
          simp only [Kernel.actStep, Kernel.rtMutexTake_held (h.take_not_owner hpc)
            (h.held o m hown).1] at hk hI
          cases hk
          exact hI
      | release m =>
        cases hk
        by_cases hown : (x.k.mutex m).owner = some t
        · cases hw : (x.k.mutex m).suspendThread with
          | nil => exact h.release_last hrun hpc hown hw
          | cons u us => exact h.release_next hrun hpc hown hw
        · obtain ⟨hstk, hn⟩ := h.nested_release hpc
          rw [Kernel.rtMutexRelease_not_owner hown]
          have hd := h.distinct t
          rw [hstk, List.nodup_cons] at hd
          refine h.goOn hrun (by simp) hn hd.2 ?_ rfl ?_ rfl rfl
          · intro n hn
            have := h.owner_mem t n hn
            rw [hstk] at this
            refine (List.mem_cons.mp this).resolve_left ?_
            rintro rfl
            exact hown hn
          · intro u
            by_cases hut : u = t <;> simp [hut]
      | delay tick =>
        simp only [Kernel.actStep, Option.map_eq_some_iff] at hk
        obtain ⟨k'', hk, he⟩ := hk
        cases he
        exact h.sleep hrun hpc hk
  | inTake m todo =>
    rw [hpc] at hk
    cases hk
    have hn := h.nested t
    have hd := h.distinct t
    rw [hpc] at hn hd
    refine h.goOn hrun (by simp) hn hd ?_ rfl (fun _ => rfl) rfl rfl
    intro n hn
    have := h.owner_mem t n hn
    rwa [hpc] at this
  | inSleep todo =>
    rw [hpc] at hk
    cases hk
    have hn := h.nested t
    have hd := h.distinct t
    rw [hpc] at hn hd
    refine h.goOn hrun (by simp) hn hd ?_ ?_ ?_ ?_ ?_
    · intro n hn
      have := h.owner_mem t n hn
      rwa [hpc] at this
    · split <;> rfl
    · intro u
      split
      · by_cases hut : u = t <;> simp [hut]
      · rfl
    · split <;> rfl
    · split <;> rfl

/-- **What an action of `t` comes to**, as far as the mutexes and the priorities go: the place it
leads to and the kernel it leaves. -/
inductive Acted (x : Threads T M A) (t : T) (p : Pc M) (k' : Kernel T M A) : Prop
  /-- A take of a free mutex. -/
  | taken (m : M) (todo : List (Act M)) (hpc : x.pc t = .run (.take m :: todo))
      (hp : p = .run todo) (hown : (x.k.mutex m).owner = none)
      (hmutex : ∀ n, k'.mutex n = if n = m then
          { x.k.mutex m with
            value := 0
            owner := some t
            originalPriority := (x.k.thread t).currentPriority
            hold := 1 }
        else x.k.mutex n)
      (hprio : ∀ u, (k'.thread u).currentPriority = (x.k.thread u).currentPriority)
  /-- A take that has to wait. -/
  | blocked (m : M) (o : T) (todo : List (Act M)) (hpc : x.pc t = .run (.take m :: todo))
      (hp : p = .inTake m todo) (hown : (x.k.mutex m).owner = some o)
      (hmutex : ∀ n, k'.mutex n = if n = m then
          { x.k.mutex m with suspendThread := (x.k.mutex m).suspendThread ++ [t] }
        else x.k.mutex n)
      (hprio : ∀ u, u ≠ o → (k'.thread u).currentPriority = (x.k.thread u).currentPriority)
  /-- A release with a waiter. -/
  | handed (m : M) (u : T) (us : List T) (todo : List (Act M))
      (hpc : x.pc t = .run (.release m :: todo)) (hp : p = .run todo)
      (hown : (x.k.mutex m).owner = some t) (hw : (x.k.mutex m).suspendThread = u :: us)
      (hmutex : ∀ n, k'.mutex n = if n = m then
          { x.k.mutex m with
            suspendThread := us
            owner := some u
            originalPriority := (x.k.thread u).currentPriority }
        else x.k.mutex n)
      (hprio : ∀ v, (k'.thread v).currentPriority =
        if v = t then (x.k.mutex m).originalPriority else (x.k.thread v).currentPriority)
  /-- A release without a waiter. -/
  | freed (m : M) (todo : List (Act M)) (hpc : x.pc t = .run (.release m :: todo))
      (hp : p = .run todo) (hown : (x.k.mutex m).owner = some t)
      (hw : (x.k.mutex m).suspendThread = [])
      (hmutex : ∀ n, k'.mutex n = if n = m then
          { x.k.mutex m with value := 1, owner := none, originalPriority := 0xff, hold := 0 }
        else x.k.mutex n)
      (hprio : ∀ v, (k'.thread v).currentPriority =
        if v = t then (x.k.mutex m).originalPriority else (x.k.thread v).currentPriority)
  /-- A release of a mutex the thread does not own. -/
  | refused (m : M) (todo : List (Act M)) (hpc : x.pc t = .run (.release m :: todo))
      (hp : p = .run todo) (hown : (x.k.mutex m).owner ≠ some t) (hmutex : k'.mutex = x.k.mutex)
      (hprio : ∀ u, (k'.thread u).currentPriority = (x.k.thread u).currentPriority)
  /-- The beginning of a sleep. -/
  | slept (tick : Nat) (todo : List (Act M)) (hpc : x.pc t = .run (.delay tick :: todo))
      (hp : p = .inSleep todo) (hk : x.k.rtThreadSleep t tick = some k')
      (hmutex : k'.mutex = x.k.mutex)
      (hprio : ∀ u, (k'.thread u).currentPriority = (x.k.thread u).currentPriority)
  /-- The return from a take or a sleep. -/
  | returned (hpc : ∀ todo, x.pc t ≠ .run todo) (hp : p = .run (x.pc t).todo)
      (hmutex : k'.mutex = x.k.mutex)
      (hprio : ∀ u, (k'.thread u).currentPriority = (x.k.thread u).currentPriority)

/-- Every action is one of these. -/
theorem acted (h : LockInv x) {t : T} {p : Pc M} {k' : Kernel T M A}
    (hrun : (x.k.thread t).stat = .running) (hk : x.k.actStep t (x.pc t) = some (p, k')) :
    Acted x t p k' := by
  cases hpc : x.pc t with
  | run todo =>
    rw [hpc] at hk
    cases todo with
    | nil => cases hk
    | cons a todo =>
      cases a with
      | take m =>
        cases hown : (x.k.mutex m).owner with
        | none =>
          obtain ⟨hv, hh, -⟩ := h.free m hown
          simp only [Kernel.actStep, Kernel.rtMutexTake_free hown hv hh] at hk
          cases hk
          refine .taken m todo hpc rfl hown (fun n => by simp) fun u => ?_
          by_cases hut : u = t <;> simp [hut]
        | some o =>
          obtain ⟨hmutex, -, hprio, -⟩ := h.take_held_spec hrun hpc hown
          simp only [Kernel.rtMutexTake_held (h.take_not_owner hpc) (h.held o m hown).1]
            at hmutex hprio
          simp only [Kernel.actStep, Kernel.rtMutexTake_held (h.take_not_owner hpc)
            (h.held o m hown).1] at hk
          cases hk
          exact .blocked m o todo hpc rfl hown hmutex hprio
      | release m =>
        cases hk
        by_cases hown : (x.k.mutex m).owner = some t
        · cases hw : (x.k.mutex m).suspendThread with
          | nil =>
            obtain ⟨hmutex, -, hprio, -⟩ := h.release_last_spec hown hw
            exact .freed m todo hpc rfl hown hw hmutex hprio
          | cons u us =>
            obtain ⟨hmutex, -, hprio, -⟩ := h.release_next_spec hown hw
            exact .handed m u us todo hpc rfl hown hw hmutex hprio
        · rw [Kernel.rtMutexRelease_not_owner hown]
          refine .refused m todo hpc rfl hown rfl fun u => ?_
          by_cases hut : u = t <;> simp [hut]
      | delay tick =>
        simp only [Kernel.actStep, Option.map_eq_some_iff] at hk
        obtain ⟨k'', hk, he⟩ := hk
        cases he
        obtain ⟨hmutex, -, hprio, -⟩ := h.sleep_spec hrun hk
        exact .slept tick todo hpc rfl hk hmutex hprio
  | inTake m todo =>
    rw [hpc] at hk
    cases hk
    exact .returned (by simp [hpc]) (by rw [hpc]; rfl) rfl fun _ => rfl
  | inSleep todo =>
    rw [hpc] at hk
    cases hk
    refine .returned (by simp [hpc]) (by rw [hpc]; rfl) ?_ fun u => ?_
    · split <;> rfl
    · split
      · by_cases hut : u = t <;> simp [hut]
      · rfl

/-- **Every call keeps the invariant.** -/
theorem call (h : LockInv x) {c : Call T M A} (hc : x.call c = some x') : LockInv x' := by
  cases c with
  | act t =>
    simp only [Threads.call] at hc
    split at hc
    · next hg =>
      rw [Option.map_eq_some_iff] at hc
      obtain ⟨⟨p, k'⟩, hk, rfl⟩ := hc
      exact h.act hg.2 hk
    · cases hc
  | load t prog =>
    simp only [Threads.call] at hc
    split at hc
    · next hg =>
      cases hc
      exact h.load hg.1 hg.2
    · cases hc
  | resume t =>
    cases hc
    exact h.resume t
  | suspend t =>
    cases hc
    exact h.suspend t
  | startup t =>
    obtain ⟨k', hk, rfl⟩ := Option.map_eq_some_iff.mp hc
    exact h.startup hk
  | exit t =>
    simp only [Threads.call] at hc
    split at hc
    · next hg =>
      cases hc
      exact h.exit t hg.2
    · cases hc
  | control t priority =>
    cases hc
    exact h.control t priority
  | timeout t =>
    simp only [Threads.call] at hc
    split at hc
    · obtain ⟨k', hk, rfl⟩ := Option.map_eq_some_iff.mp hc
      exact h.timeout hk
    · cases hc
  | schedule t =>
    obtain ⟨k', hk, rfl⟩ := Option.map_eq_some_iff.mp hc
    exact h.schedule hk
  | tick =>
    cases hc
    exact h.frame rfl rfl (fun _ _ hs => hs) (fun _ hu => hu) h.listed
  | timerStart a =>
    obtain ⟨k', hk, rfl⟩ := Option.map_eq_some_iff.mp hc
    exact h.timerStart hk
  | timerStop a =>
    cases hc
    exact h.timerStop a
  | timerSetTime a time =>
    cases hc
    exact h.timerSetTime a time
  | timerTakeOff a =>
    cases hc
    exact h.timerTakeOff a
  | timerRearm a =>
    obtain ⟨k', hk, rfl⟩ := Option.map_eq_some_iff.mp hc
    exact h.timerRearm hk

/-! ## Who wakes a thread -/

/-- An action of one thread leaves the state of every other that does not wait for a mutex. -/
theorem act_stat (h : LockInv x) {t u : T} {p : Pc M} {k' : Kernel T M A}
    (hrun : (x.k.thread t).stat = .running) (hk : x.k.actStep t (x.pc t) = some (p, k'))
    (hut : u ≠ t) (hu : ∀ m, u ∉ (x.k.mutex m).suspendThread) :
    (k'.thread u).stat = (x.k.thread u).stat := by
  cases hpc : x.pc t with
  | run todo =>
    rw [hpc] at hk
    cases todo with
    | nil => cases hk
    | cons a todo =>
      cases a with
      | take m =>
        cases hown : (x.k.mutex m).owner with
        | none =>
          obtain ⟨hv, hh, -⟩ := h.free m hown
          simp only [Kernel.actStep, Kernel.rtMutexTake_free hown hv hh] at hk
          cases hk
          simp [hut]
        | some o =>
          have hstat := (h.take_held_spec hrun hpc hown).2.1 u
          simp only [Kernel.rtMutexTake_held (h.take_not_owner hpc) (h.held o m hown).1]
            at hstat
          simp only [Kernel.actStep, Kernel.rtMutexTake_held (h.take_not_owner hpc)
            (h.held o m hown).1] at hk
          cases hk
          rw [hstat, if_neg hut]
      | release m =>
        cases hk
        by_cases hown : (x.k.mutex m).owner = some t
        · cases hw : (x.k.mutex m).suspendThread with
          | nil => exact (h.release_last_spec hown hw).2.1 u
          | cons v vs =>
            refine (h.release_next_spec hown hw).2.1 u ?_
            rintro rfl
            exact hu m (by rw [hw]; exact List.mem_cons_self)
        · rw [Kernel.rtMutexRelease_not_owner hown]
          simp [hut]
      | delay tick =>
        simp only [Kernel.actStep, Option.map_eq_some_iff] at hk
        obtain ⟨k'', hk, he⟩ := hk
        cases he
        rw [(h.sleep_spec hrun hk).2.1, if_neg hut]
  | inTake m todo =>
    rw [hpc] at hk
    cases hk
    rfl
  | inSleep todo =>
    rw [hpc] at hk
    cases hk
    split
    · simp [hut]
    · rfl

/-- The ways a call changes the state of the thread `u`. -/
inductive StatChange (x : Threads T M A) (u : T) : Call T M A → ThreadStat → Prop
  | same (c : Call T M A) : StatChange x u c (x.k.thread u).stat
  | own (stat : ThreadStat) (hs : (x.k.thread u).stat = .running) : StatChange x u (.act u) stat
  | granted (t : T) (m : M) (stat : ThreadStat) (hu : u ∈ (x.k.mutex m).suspendThread) :
      StatChange x u (.act t) stat
  | resumed (stat : ThreadStat) (hs : (x.k.thread u).stat = .suspend) :
      StatChange x u (.resume u) stat
  | suspended (hs : (x.k.thread u).stat = .ready ∨ (x.k.thread u).stat = .running) :
      StatChange x u (.suspend u) .suspend
  | started (hs : (x.k.thread u).stat = .init) :
      StatChange x u (.startup u) (if u = x.k.current then .running else .ready)
  | exited (hs : (x.k.thread u).stat = .running) : StatChange x u (.exit u) .close
  | timedOut (stat : ThreadStat) (hs : (x.k.thread u).stat = .suspend)
      (hu : .thread u ∈ x.k.timerList) : StatChange x u (.timeout u) stat
  | chosen (hs : (x.k.thread u).stat = .ready) : StatChange x u (.schedule u) .running
  | preempted (t : T) (hs : (x.k.thread u).stat = .running) : StatChange x u (.schedule t) .ready

private theorem StatChange.of_eq {u : T} {c : Call T M A} {stat : ThreadStat}
    (h : stat = (x.k.thread u).stat) : StatChange x u c stat := by
  rw [h]
  exact .same c

/-- **Every call changes the state of a thread in one of these ways.** -/
theorem statChange_of_call (h : LockInv x) {c : Call T M A} (hc : x.call c = some x') (u : T) :
    StatChange x u c (x'.k.thread u).stat := by
  cases c with
  | act t =>
    simp only [Threads.call] at hc
    split at hc
    · next hg =>
      obtain ⟨⟨p, k'⟩, hk, rfl⟩ := Option.map_eq_some_iff.mp hc
      by_cases hut : u = t
      · subst hut
        exact .own _ hg.2
      · by_cases hw : ∃ m, u ∈ (x.k.mutex m).suspendThread
        · obtain ⟨m, hm⟩ := hw
          exact .granted t m _ hm
        · exact .of_eq (h.act_stat hg.2 hk hut fun m hm => hw ⟨m, hm⟩)
    · cases hc
  | load t prog =>
    simp only [Threads.call] at hc
    split at hc
    · cases hc
      exact .same _
    · cases hc
  | resume t =>
    cases hc
    by_cases hs : u = t ∧ (x.k.thread t).stat = .suspend
    · obtain ⟨rfl, hs⟩ := hs
      exact .resumed _ hs
    · exact .of_eq (by rw [Kernel.rtThreadResume_stat, if_neg hs])
  | suspend t =>
    cases hc
    show StatChange x u _ ((x.k.rtThreadSuspend t).thread u).stat
    rw [Kernel.rtThreadSuspend_stat]
    split
    · next hs =>
      obtain ⟨rfl, hs⟩ := hs
      exact .suspended hs
    · exact .same _
  | startup t =>
    obtain ⟨k', hk, rfl⟩ := Option.map_eq_some_iff.mp hc
    unfold Kernel.rtThreadStartup at hk
    split at hk
    · next hinit =>
      cases hk
      by_cases hut : u = t
      · subst hut
        show StatChange x u _ (Kernel.thread _ u).stat
        rw [Kernel.rtThreadResume_stat, if_pos (by simp)]
        exact .started hinit
      · exact .of_eq (by simp [Kernel.rtThreadResume_stat, hut])
    · cases hk
  | exit t =>
    simp only [Threads.call] at hc
    split at hc
    · next hg =>
      cases hc
      by_cases hut : u = t
      · subst hut
        have hclose : ((x.k.rtThreadExit u).thread u).stat = .close := by
          simp [Kernel.rtThreadExit]
        show StatChange x u _ ((x.k.rtThreadExit u).thread u).stat
        rw [hclose]
        exact .exited hg.2
      · exact .of_eq (by simp [Kernel.rtThreadExit, hut])
    · cases hc
  | control t priority =>
    cases hc
    exact .of_eq (by simp)
  | timeout t =>
    simp only [Threads.call] at hc
    split at hc
    · next hmem =>
      obtain ⟨k', hk, rfl⟩ := Option.map_eq_some_iff.mp hc
      unfold Kernel.rtThreadTimeout at hk
      split at hk
      · next hs =>
        cases hk
        by_cases hut : u = t
        · subst hut
          exact .timedOut _ (by simpa using hs) hmem
        · exact .of_eq (by simp [Kernel.rtScheduleInsertThread, Kernel.rtListRemoveTlist, hut])
      · cases hk
    · cases hc
  | schedule t =>
    obtain ⟨k', hk, rfl⟩ := Option.map_eq_some_iff.mp hc
    show StatChange x u _ (k'.thread u).stat
    rw [(Kernel.rtScheduleTo_stat hk u).2]
    split
    · next hut =>
      subst hut
      exact .chosen (Kernel.rtScheduleTo_stat hk u).1
    · split
      · next hcur => exact .preempted t hcur.2
      · exact .same _
  | tick =>
    cases hc
    exact .same _
  | timerStart a =>
    obtain ⟨k', hk, rfl⟩ := Option.map_eq_some_iff.mp hc
    exact .of_eq (by rw [(Kernel.rtTimerStart_frame hk).1])
  | timerStop a =>
    cases hc
    exact .of_eq (by simp)
  | timerSetTime a time =>
    cases hc
    exact .same _
  | timerTakeOff a =>
    cases hc
    exact .of_eq (by simp)
  | timerRearm a =>
    obtain ⟨k', hk, rfl⟩ := Option.map_eq_some_iff.mp hc
    exact .of_eq (by rw [(Kernel.rtTimerRearm_frame hk).1])

/-- **A thread suspended outside its programs stays suspended until it is resumed.** -/
theorem stays_suspended (h : LockInv x) {c : Call T M A} (hc : x.call c = some x') {u : T}
    (hs : (x.k.thread u).stat = .suspend) (hpc : x.pc u = .run []) (hres : c ≠ .resume u) :
    (x'.k.thread u).stat = .suspend := by
  have hchange := h.statChange_of_call hc u
  generalize (x'.k.thread u).stat = stat at hchange ⊢
  cases hchange with
  | same => exact hs
  | granted t m _ hm => exact absurd hm (h.not_waits hpc m)
  | resumed => exact absurd rfl hres
  | suspended => rfl
  | timedOut _ _ hmem =>
    obtain ⟨todo, htodo⟩ := (h.sleeps u hmem).1
    rw [hpc] at htodo
    cases htodo
  | own _ hr => rw [hs] at hr; cases hr
  | started hr => rw [hs] at hr; cases hr
  | exited hr => rw [hs] at hr; cases hr
  | chosen hr => rw [hs] at hr; cases hr
  | preempted t hr => rw [hs] at hr; cases hr

/-- **A thread that is not suspended is suspended by nobody but itself and
`rt_thread_suspend`.** -/
theorem stays_awake (h : LockInv x) {c : Call T M A} (hc : x.call c = some x') {u : T}
    (hs : (x.k.thread u).stat ≠ .suspend) (hact : c ≠ .act u) (hsus : c ≠ .suspend u) :
    (x'.k.thread u).stat ≠ .suspend := by
  have hchange := h.statChange_of_call hc u
  generalize (x'.k.thread u).stat = stat at hchange ⊢
  cases hchange with
  | same => exact hs
  | own => exact absurd rfl hact
  | granted t m _ hm => exact absurd (h.waits u m hm).2.1 hs
  | resumed _ hr => exact absurd hr hs
  | suspended => exact absurd rfl hsus
  | timedOut _ hr => exact absurd hr hs
  | started => split <;> simp
  | exited | chosen | preempted => simp

/-- A thread that is neither suspended nor running keeps its state until it is suspended or started,
or the scheduler switches to it. -/
theorem stays_put (h : LockInv x) {c : Call T M A} (hc : x.call c = some x') {u : T}
    (hs : (x.k.thread u).stat ≠ .suspend) (hr : (x.k.thread u).stat ≠ .running)
    (hsus : c ≠ .suspend u) (hstart : c ≠ .startup u) (hsched : c ≠ .schedule u) :
    (x'.k.thread u).stat = (x.k.thread u).stat := by
  have hchange := h.statChange_of_call hc u
  generalize (x'.k.thread u).stat = stat at hchange ⊢
  cases hchange with
  | same => rfl
  | granted t m _ hm => exact absurd (h.waits u m hm).2.1 hs
  | suspended => exact absurd rfl hsus
  | started => exact absurd rfl hstart
  | chosen => exact absurd rfl hsched
  | resumed _ hstat | timedOut _ hstat => exact absurd hstat hs
  | own _ hstat | exited hstat | preempted t hstat => exact absurd hstat hr

end OsesProject.LockInv
