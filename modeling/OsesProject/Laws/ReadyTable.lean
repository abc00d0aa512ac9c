import OsesProject.Kernel.ReadyTable
import OsesProject.Lib.Fifo

/-!
# The ready table refines the threads' states

`Valid c content` is the invariant of the kernel with its lists in memory: the heap holds the lists
`content`, a thread is in the list of its priority exactly when it is ready, the bits of the group
say which of these lists are not empty, and so on. `abs` forgets the lists and the bits. Every
operation of the linked kernel is defined on a valid state, leaves one, and does to what `abs` sees
of it what the operation of `Kernel` does.

Inside an operation a thread is for a while on no list, whatever its status says; `Tables` is
`Valid` up to one such thread.
-/

set_option linter.unusedSectionVars false

namespace OsesProject

/-! ## The lowest bit -/

theorem rtFfs_eq_zero_iff {v : BitVec 32} : rtFfs v = 0 ↔ v = 0 := by
  unfold rtFfs
  constructor
  · intro h
    split at h
    · next hnone =>
      rw [List.find?_eq_none] at hnone
      apply BitVec.eq_of_getLsbD_eq
      intro i hi
      simpa using hnone i (List.mem_range.mpr hi)
    · cases h
  · rintro rfl
    rw [List.find?_eq_none.mpr (by simp)]

/-- The answer is the lowest bit: it is set, and none below it is. -/
theorem rtFfs_eq_succ {v : BitVec 32} {p : Nat} (h : rtFfs v = p + 1) :
    v.getLsbD p = true ∧ ∀ q < p, v.getLsbD q = false := by
  unfold rtFfs at h
  split at h
  · cases h
  · next i hi =>
    cases h
    rw [List.find?_range_eq_some] at hi
    refine ⟨hi.1, fun q hq => ?_⟩
    simpa using hi.2.2 q hq

/-- The bit of a priority. -/
theorem getLsbD_priorityBit {p q : Nat} (hp : p < 32) :
    (1#32 <<< p).getLsbD q = decide (q = p) := by
  rw [BitVec.getLsbD_shiftLeft, BitVec.getLsbD_one]
  by_cases hq : q = p
  · subst hq
    simp [hp]
  · have : ¬ (q < 32 ∧ p ≤ q ∧ q - p = 0) := by omega
    simp only [hq, decide_false, Bool.and_eq_false_iff, Bool.not_eq_false', decide_eq_false_iff_not,
      decide_eq_true_eq]
    omega

/-! ## The lists' pointers -/

section Pointers

variable {ν : Type*} [DecidableEq ν] (h : ν → Links ν) (l n : ν)

theorem rtListRemove_unlinked : Unlinked h (rtListRemove h n) n :=
  ⟨rtListRemove_next h n, rtListRemove_prev h n⟩

theorem rtListInsertBefore_linked : LinkedBefore h (rtListInsertBefore h l n) l n :=
  ⟨rtListInsertBefore_next h l n, rtListInsertBefore_prev h l n⟩

/-- Inserting after a node is inserting before the next one. -/
theorem rtListInsertAfter_linked {h : ν → Links ν} {l n : ν} (w : WellLinked h l) (hne : l ≠ n)
    (hnext : (h l).next ≠ n) : LinkedBefore h (rtListInsertAfter h l n) (h l).next n := by
  constructor
  · intro a
    simp only [rtListInsertAfter, setPrev_next, setNext_next, w.prev_next]
    by_cases hl : a = l
    · subst hl
      simp [hne]
    · simp [hl]
  · intro a
    simp only [rtListInsertAfter, setPrev_prev, setNext_prev, w.prev_next]
    by_cases hn : a = n
    · subst hn
      simp [hnext.symm]
    · simp [hn]

end Pointers

/-! ## What a linked kernel stands for -/

attribute [ext] Kernel

/-- The kernel with the threads and timers of `k` and other mutexes. -/
def Kernel.withMutex {T N M A : Type} (k : Kernel T N A) (mutex : M → Mutex T) : Kernel T M A :=
  ⟨k.thread, k.current, mutex, k.timer, k.timerList, k.tick⟩

namespace LinkedKernel

open RingNode ListId

variable {T M A : Type} [DecidableEq T] [DecidableEq M] [DecidableEq A]

/-- The mutexes with their lists. -/
def mutexes (c : LinkedKernel T M A) (content : ListId M → List T) (m : M) : Mutex T :=
  ⟨content (suspendThread m), (c.mutex m).value, (c.mutex m).originalPriority, (c.mutex m).hold,
    (c.mutex m).owner⟩

/-- What is left of a linked kernel without its lists and bits. -/
def abs (c : LinkedKernel T M A) (content : ListId M → List T) : Kernel T M A :=
  c.objects.withMutex (c.mutexes content)

theorem abs_eq_withMutex (c : LinkedKernel T M A) (content : ListId M → List T) :
    c.abs content = c.objects.withMutex (c.mutexes content) := rfl

/-- The heap and the group agree with the threads' states; the thread `off` is on no list, and
nothing is said about its own state. -/
structure Tables (c : LinkedKernel T M A) (content : ListId M → List T) (off : Option T) :
    Prop where
  rings : Rings c.list content
  off_lists : ∀ t, off = some t → ∀ i, t ∉ content i
  ready : ∀ t, off ≠ some t → ∀ p, t ∈ content (priorityTable p) ↔
    (c.objects.thread t).stat = .ready ∧ (c.objects.thread t).currentPriority = p
  waiting : ∀ m, ∀ t ∈ content (suspendThread m), (c.objects.thread t).stat = .suspend
  closed : ∀ t ∈ content threadDefunct, (c.objects.thread t).stat = .close
  group : ∀ p, c.readyPriorityGroup.getLsbD p = true ↔ content (priorityTable p) ≠ []
  mask : ∀ t, off ≠ some t → (c.objects.thread t).stat ≠ .init →
    (c.sched t).numberMask = 1#32 <<< (c.objects.thread t).currentPriority
  bound : ∀ t, (c.objects.thread t).currentPriority < rtThreadPriorityMax ∧
    (c.objects.thread t).initPriority < rtThreadPriorityMax

/-- A mutex that is not free has an owner, and a priority to give back to it. -/
structure Owned (mx : MutexFields T) : Prop where
  owner : mx.value = 0 → mx.owner ≠ none
  priority : mx.owner ≠ none → mx.originalPriority < rtThreadPriorityMax

/-- The invariant of the linked kernel: its tables are right, the current thread is not in the ready
table, no other thread is running, and every mutex is owned or free. -/
structure Valid (c : LinkedKernel T M A) (content : ListId M → List T) : Prop where
  tables : Tables c content none
  current : (c.objects.thread c.objects.current).stat ≠ .ready
  running : ∀ t, (c.objects.thread t).stat = .running → t = c.objects.current
  owned : ∀ m, Owned (c.mutex m)

namespace Tables

variable {c c' : LinkedKernel T M A} {content : ListId M → List T} {off : Option T} {t u : T}

/-- The tables depend on the lists, the group, and four fields of a thread. -/
theorem congr (h : Tables c content off) (hlist : c'.list = c.list)
    (hgroup : c'.readyPriorityGroup = c.readyPriorityGroup)
    (hthread : ∀ u, off ≠ some u → (c'.objects.thread u).stat = (c.objects.thread u).stat ∧
      (c'.objects.thread u).currentPriority = (c.objects.thread u).currentPriority ∧
      (c'.sched u).numberMask = (c.sched u).numberMask)
    (hbound : ∀ u, (c'.objects.thread u).currentPriority < rtThreadPriorityMax ∧
      (c'.objects.thread u).initPriority < rtThreadPriorityMax) :
    Tables c' content off := by
  have hoff : ∀ {i u}, u ∈ content i → off ≠ some u := fun hu he => h.off_lists _ he _ hu
  constructor
  · rw [hlist]
    exact h.rings
  · exact h.off_lists
  · intro u hu p
    rw [h.ready u hu p, (hthread u hu).1, (hthread u hu).2.1]
  · intro m u hu
    rw [(hthread u (hoff hu)).1]
    exact h.waiting m u hu
  · intro u hu
    rw [(hthread u (hoff hu)).1]
    exact h.closed u hu
  · intro p
    rw [hgroup]
    exact h.group p
  · intro u hu
    rw [(hthread u hu).1, (hthread u hu).2.1, (hthread u hu).2.2]
    exact h.mask u hu
  · exact hbound

/-- A thread that is on no list and not ready is as any other. -/
theorem settle (h : Tables c content (some t)) (hstat : (c.objects.thread t).stat ≠ .ready)
    (hmask : (c.objects.thread t).stat ≠ .init →
      (c.sched t).numberMask = 1#32 <<< (c.objects.thread t).currentPriority) :
    Tables c content none := by
  refine ⟨h.rings, by simp, fun u _ p => ?_, h.waiting, h.closed, h.group, fun u _ hu => ?_,
    h.bound⟩
  · by_cases hut : u = t
    · subst hut
      have := h.off_lists u rfl (priorityTable p)
      simp [this, hstat]
    · exact h.ready u (by simpa using Ne.symm hut) p
  · by_cases hut : u = t
    · subst hut
      exact hmask hu
    · exact h.mask u (by simpa using Ne.symm hut) hu

/-- A thread that is neither ready nor waiting nor closed is on no list. -/
theorem notMem_of_stat (h : Tables c content none)
    (hready : (c.objects.thread t).stat ≠ .ready) (hsuspend : (c.objects.thread t).stat ≠ .suspend)
    (hclose : (c.objects.thread t).stat ≠ .close) (i : ListId M) : t ∉ content i := by
  intro ht
  cases i with
  | priorityTable p => exact hready ((h.ready t (by simp) p).mp ht).1
  | suspendThread m => exact hsuspend (h.waiting m t ht)
  | threadDefunct => exact hclose (h.closed t ht)

/-- Setting a thread that is on no list aside. -/
theorem aside (h : Tables c content none) (ht : ∀ i, t ∉ content i) :
    Tables c content (some t) := by
  refine ⟨h.rings, ?_, fun u _ => h.ready u (by simp), h.waiting, h.closed, h.group,
    fun u _ => h.mask u (by simp), h.bound⟩
  rintro u hu
  cases hu
  exact ht

/-- `rt_list_remove` on a thread that is not ready. -/
theorem listRemove (h : Tables c content none) (ht : (c.objects.thread t).stat ≠ .ready) :
    Tables { c with list := rtListRemove c.list (cell t) }
      (fun i => (content i).filter (· ≠ t)) (some t) := by
  have hp : ∀ p, (content (priorityTable p)).filter (· ≠ t) = content (priorityTable p) := by
    intro p
    refine List.filter_ne_of_notMem fun hmem => ?_
    exact ht ((h.ready t (by simp) p).mp hmem).1
  refine ⟨h.rings.remove (rtListRemove_unlinked c.list (cell t)), ?_, fun u _ p => ?_,
    fun m u hu => ?_, fun u hu => ?_, fun p => ?_, fun u _ => h.mask u (by simp), h.bound⟩
  · rintro u hu i hmem
    cases hu
    simp at hmem
  · simp only [hp]
    exact h.ready u (by simp) p
  · exact h.waiting m u (List.mem_filter.mp hu).1
  · exact h.closed u (List.mem_filter.mp hu).1
  · simp only [hp]
    exact h.group p

end Tables

/-- **`rt_schedule_remove_thread`** takes a thread off whatever list it is on, and clears the bit of
its priority when nobody else of this priority is ready. -/
theorem rtScheduleRemoveThread_spec {c : LinkedKernel T M A} {content : ListId M → List T} {t : T}
    (h : Tables c content none) (ht : (c.objects.thread t).stat ≠ .init) :
    ∃ c', c.rtScheduleRemoveThread t = some c' ∧
      Tables c' (fun i => (content i).filter (· ≠ t)) (some t) ∧
      c'.objects = c.objects ∧ c'.sched = c.sched ∧ c'.mutex = c.mutex := by
  have hrings := h.rings.remove (rtListRemove_unlinked c.list (cell t))
  have hbound := (h.bound t).1
  have hmask := h.mask t (by simp) ht
  -- the list of another priority does not hold the thread
  have hother : ∀ p, p ≠ (c.objects.thread t).currentPriority →
      (content (priorityTable p)).filter (· ≠ t) = content (priorityTable p) := by
    intro p hp
    refine List.filter_ne_of_notMem fun hmem => ?_
    exact hp ((h.ready t (by simp) p).mp hmem).2.symm
  have hgroup : ∀ g : BitVec 32,
      (∀ p, p ≠ (c.objects.thread t).currentPriority →
        g.getLsbD p = c.readyPriorityGroup.getLsbD p) →
      (g.getLsbD (c.objects.thread t).currentPriority = true ↔
        (content (priorityTable (c.objects.thread t).currentPriority)).filter (· ≠ t) ≠ []) →
      Tables ⟨c.objects, c.sched, c.mutex, rtListRemove c.list (cell t), g⟩
        (fun i => (content i).filter (· ≠ t)) (some t) := by
    intro g hg hown
    refine ⟨hrings, ?_, fun u hu p => ?_, fun m u hu => ?_, fun u hu => ?_, fun p => ?_,
      fun u _ => h.mask u (by simp), h.bound⟩
    · rintro u hu i hmem
      cases hu
      simp at hmem
    · rw [List.mem_filter, h.ready u (by simp) p]
      simp only [ne_eq, Option.some.injEq] at hu
      simp [Ne.symm hu]
    · exact h.waiting m u (List.mem_filter.mp hu).1
    · exact h.closed u (List.mem_filter.mp hu).1
    · by_cases hp : p = (c.objects.thread t).currentPriority
      · subst hp
        exact hown
      · rw [hg p hp, hother p hp]
        exact h.group p
  unfold rtScheduleRemoveThread
  simp only [hbound, if_true]
  split
  · next hempty =>
    refine ⟨_, rfl, hgroup _ (fun p hp => ?_) ?_, rfl, rfl, rfl⟩
    · rw [BitVec.getLsbD_and, BitVec.getLsbD_not, hmask, getLsbD_priorityBit hbound]
      by_cases hlt : p < 32
      · simp [hp, hlt]
      · simp [hlt, BitVec.getLsbD_of_ge _ _ (Nat.le_of_not_lt hlt)]
    · rw [rtListIsempty, decide_eq_true_iff, hrings.head_next_eq_iff] at hempty
      rw [BitVec.getLsbD_and, BitVec.getLsbD_not, hmask, getLsbD_priorityBit hbound]
      exact iff_of_false (by simp) (not_not.mpr hempty)
  · next hempty =>
    rw [rtListIsempty, decide_eq_true_iff, hrings.head_next_eq_iff] at hempty
    refine ⟨_, rfl, hgroup _ (fun p _ => rfl) ?_, rfl, rfl, rfl⟩
    rw [h.group]
    refine ⟨fun _ => hempty, fun hne he => hne ?_⟩
    rw [he]
    rfl

/-- **`rt_schedule_insert_thread`** puts a thread that is on no list behind the others of its
priority, and sets the bit of the priority. -/
theorem rtScheduleInsertThread_ready {c : LinkedKernel T M A} {content : ListId M → List T} {t : T}
    (h : Tables c content (some t)) (ht : t ≠ c.objects.current)
    (hmask : (c.sched t).numberMask = 1#32 <<< (c.objects.thread t).currentPriority) :
    ∃ c', c.rtScheduleInsertThread t = some c' ∧
      Tables c' (Function.update content (priorityTable (c.objects.thread t).currentPriority)
        (content (priorityTable (c.objects.thread t).currentPriority) ++ [t])) none ∧
      c'.objects = c.objects.setThread t { c.objects.thread t with stat := .ready } ∧
      c'.sched = c.sched ∧ c'.mutex = c.mutex := by
  have hbound := (h.bound t).1
  have hfresh := h.off_lists t rfl
  have hmem : ∀ i u, u ∈ Function.update content
      (priorityTable (c.objects.thread t).currentPriority)
      (content (priorityTable (c.objects.thread t).currentPriority) ++ [t]) i ↔
        u ∈ content i ∨ i = priorityTable (c.objects.thread t).currentPriority ∧ u = t := by
    intro i u
    rw [Function.update_apply]
    split
    · next hi => simp [hi]
    · next hi => simp [hi]
  unfold rtScheduleInsertThread
  simp only [ht, if_false, hbound, if_true]
  refine ⟨_, rfl, ⟨?_, by simp, fun u _ p => ?_, fun m u hu => ?_, fun u hu => ?_, fun p => ?_,
    fun u _ hu => ?_, fun u => ?_⟩, rfl, rfl, rfl⟩
  · exact h.rings.append hfresh (rtListInsertBefore_linked _ _ _)
  · rw [hmem]
    simp only [setStat, setThread, setThread_thread, priorityTable.injEq]
    by_cases hut : u = t
    · subst hut
      simp only [hfresh, false_or, and_true, if_true, true_and]
      exact eq_comm
    · rw [h.ready u (by simpa using Ne.symm hut) p]
      simp [hut]
  · rw [hmem] at hu
    simp only [reduceCtorEq, false_and, or_false] at hu
    have hut : u ≠ t := ne_of_mem_of_not_mem hu (hfresh _)
    simp only [setStat, setThread, setThread_thread, if_neg hut]
    exact h.waiting m u hu
  · rw [hmem] at hu
    simp only [reduceCtorEq, false_and, or_false] at hu
    have hut : u ≠ t := ne_of_mem_of_not_mem hu (hfresh _)
    simp only [setStat, setThread, setThread_thread, if_neg hut]
    exact h.closed u hu
  · simp only [setStat, setThread]
    rw [BitVec.getLsbD_or, Bool.or_eq_true, h.group, Function.update_apply, hmask,
      getLsbD_priorityBit hbound, decide_eq_true_eq]
    simp only [priorityTable.injEq]
    split
    · next hp => simp [hp]
    · next hp => simp [hp]
  · simp only [setStat, setThread, setThread_thread] at hu ⊢
    by_cases hut : u = t
    · subst hut
      simpa using hmask
    · simp only [if_neg hut] at hu ⊢
      exact h.mask u (by simpa using Ne.symm hut) hu
  · simp only [setStat, setThread, setThread_thread]
    by_cases hut : u = t
    · subst hut
      simpa using h.bound u
    · rw [if_neg hut]
      exact h.bound u

end LinkedKernel

/-! ## The operations -/

namespace Kernel

variable {T N M A : Type} [DecidableEq T] [DecidableEq A] (k : Kernel T N A) (μ : M → Mutex T)

/-- An operation on the timers does not look at the mutexes. -/
theorem withMutex_rtTimerStop (i : TimerId T A) :
    (k.rtTimerStop i).withMutex μ = (k.withMutex μ).rtTimerStop i := by
  unfold rtTimerStop
  show _ = if (k.timer i).activated then _ else _
  split <;> rfl

theorem withMutex_rtThreadSuspend (t : T) :
    (k.rtThreadSuspend t).withMutex μ = (k.withMutex μ).rtThreadSuspend t := by
  unfold rtThreadSuspend
  show (if (k.thread t).stat = .ready ∨ (k.thread t).stat = .running then _ else _ :
    Kernel T N A).withMutex μ = if (k.thread t).stat = .ready ∨ (k.thread t).stat = .running then _
      else _
  split
  · exact withMutex_rtTimerStop _ μ _
  · rfl

/-- Suspending a thread on a mutex, with the mutexes written out. -/
theorem rtIpcListSuspend_eq [DecidableEq M] (k : Kernel T M A) (m : M) (t : T) :
    k.rtIpcListSuspend m t = (k.rtThreadSuspend t).withMutex (Function.update k.mutex m
      { k.mutex m with suspendThread := (k.mutex m).suspendThread ++ [t] }) := by
  unfold rtIpcListSuspend setMutex withMutex
  simp only [rtThreadSuspend_mutex]

theorem rtListRemoveTlist_rtTimerStop (t : T) (i : TimerId T A) :
    (k.rtListRemoveTlist t).rtTimerStop i = (k.rtTimerStop i).rtListRemoveTlist t := by
  unfold rtTimerStop
  show (if (k.timer i).activated then _ else _ : Kernel T N A) =
    (if (k.timer i).activated then _ else _ : Kernel T N A).rtListRemoveTlist t
  split <;> rfl

theorem withMutex_rtTimerTakeOff (i : TimerId T A) :
    (k.rtTimerTakeOff i).withMutex μ = (k.withMutex μ).rtTimerTakeOff i := by
  unfold rtTimerTakeOff
  show (if (k.timer i).periodic then _ else _ : Kernel T N A).withMutex μ =
    if (k.timer i).periodic then _ else _
  split <;> rfl

theorem withMutex_rtTimerStart (i : TimerId T A) :
    (k.rtTimerStart i).map (fun k => k.withMutex μ) = (k.withMutex μ).rtTimerStart i := by
  unfold rtTimerStart
  simp only [withMutex, rtTimerRemove, setTimer_timer, if_true]
  split <;> rfl

theorem withMutex_rtTimerRearm (i : TimerId T A) :
    (k.rtTimerRearm i).map (fun k => k.withMutex μ) = (k.withMutex μ).rtTimerRearm i := by
  unfold rtTimerRearm
  show _ = if (k.timer i).periodic && (k.timer i).activated then _ else _
  split
  · exact withMutex_rtTimerStart _ μ i
  · rfl

end Kernel

namespace LinkedKernel

open RingNode ListId

variable {T M A : Type} [DecidableEq T] [DecidableEq M] [DecidableEq A]
  {c c' : LinkedKernel T M A} {content content' : ListId M → List T} {t : T} {m : M}

/-- An operation keeps the invariant when every thread's status stays, or is of one of three kinds:
neither ready nor running, running for the current thread, ready for another one. -/
theorem Valid.of_stat (h : Valid c content) (tables : Tables c' content' none)
    (hcurrent : c'.objects.current = c.objects.current)
    (hstat : ∀ u, (c'.objects.thread u).stat = (c.objects.thread u).stat ∨
      (c'.objects.thread u).stat ≠ .ready ∧ (c'.objects.thread u).stat ≠ .running ∨
      (c'.objects.thread u).stat = if u = c.objects.current then .running else .ready)
    (howned : ∀ m, Owned (c'.mutex m)) : Valid c' content' := by
  refine ⟨tables, ?_, fun u hu => ?_, howned⟩
  · rw [hcurrent]
    rcases hstat c.objects.current with hs | hs | hs
    · rw [hs]
      exact h.current
    · exact hs.1
    · rw [hs, if_pos rfl]
      simp
  · rw [hcurrent]
    rcases hstat u with hs | hs | hs
    · exact h.running u (hs.symm.trans hu)
    · exact absurd hu hs.2
    · by_contra hne
      rw [if_neg hne, hu] at hs
      cases hs

/-- **`rt_schedule_insert_thread`** on a thread that is on no list: the current thread is marked
running and nothing else, another one joins the list of its priority at the end. -/
theorem rtScheduleInsertThread_spec (h : Tables c content (some t))
    (hmask : (c.sched t).numberMask = 1#32 <<< (c.objects.thread t).currentPriority) :
    ∃ c' content', c.rtScheduleInsertThread t = some c' ∧ Tables c' content' none ∧
      c'.objects = c.objects.rtScheduleInsertThread t ∧ c'.sched = c.sched ∧ c'.mutex = c.mutex ∧
      (∀ m, content' (suspendThread m) = content (suspendThread m)) ∧
      ∀ p, content' (priorityTable p) = content (priorityTable p) ∨
        content' (priorityTable p) = content (priorityTable p) ++ [t] := by
  by_cases ht : t = c.objects.current
  · refine ⟨c.setStat t .running, content, ?_, ?_, ?_, rfl, rfl, fun m => rfl, fun p => .inl rfl⟩
    · rw [rtScheduleInsertThread, if_pos ht]
    · have hoff : Tables (c.setStat t .running) content (some t) := by
        refine h.congr rfl rfl (fun u hu => ?_) (fun u => ?_)
        · have hut : u ≠ t := by
            rintro rfl
            exact hu rfl
          simp [setStat, setThread, hut]
        · simp only [setStat, setThread, setThread_thread]
          split
          · exact h.bound t
          · exact h.bound u
      refine hoff.settle ?_ fun _ => ?_
      · simp [setStat, setThread]
      · simpa [setStat, setThread] using hmask
    · simp [setStat, setThread, Kernel.rtScheduleInsertThread, ht]
  · obtain ⟨c', hc', htables, hobjects, hsched, hmutex⟩ :=
      rtScheduleInsertThread_ready h ht hmask
    refine ⟨c', _, hc', htables, ?_, hsched, hmutex, fun m => ?_, fun p => ?_⟩
    · rw [hobjects, Kernel.rtScheduleInsertThread, if_neg ht]
    · exact Function.update_of_ne (by simp) _ _
    · rw [Function.update_apply]
      split
      · next hp =>
        right
        rw [hp]
      · exact .inl rfl

/-- The result of an operation: it is defined and leaves a valid state, which stands for `k`; the
ready lists change by threads leaving and threads joining at the end, and only the threads `again`
may leave a list and join it again. -/
def Refines (again : T → Prop) (content : ListId M → List T) (r : Option (LinkedKernel T M A))
    (k : Kernel T M A) : Prop :=
  ∃ c' content', r = some c' ∧ Valid c' content' ∧ c'.abs content' = k ∧
    ∀ p, Moved again (content (priorityTable p)) (content' (priorityTable p))

/-- An operation that leaves the lists, the priorities and every status alone. -/
theorem Valid.refines_frame {again : T → Prop} {k : Kernel T M A} (h : Valid c content)
    (hlist : c'.list = c.list) (hgroup : c'.readyPriorityGroup = c.readyPriorityGroup)
    (hcurrent : c'.objects.current = c.objects.current)
    (hthread : ∀ u, (c'.objects.thread u).stat = (c.objects.thread u).stat ∧
      (c'.objects.thread u).currentPriority = (c.objects.thread u).currentPriority ∧
      (c'.sched u).numberMask = (c.sched u).numberMask ∧
      (c'.objects.thread u).initPriority = (c.objects.thread u).initPriority)
    (howned : ∀ m, Owned (c'.mutex m)) (habs : c'.abs content = k) :
    Refines again content (some c') k := by
  refine ⟨c', content, rfl, ?_, habs, fun p => Moved.refl _ _⟩
  refine h.of_stat ?_ hcurrent (fun u => .inl (hthread u).1) howned
  refine h.tables.congr hlist hgroup (fun u _ => ⟨(hthread u).1, (hthread u).2.1,
    (hthread u).2.2.1⟩) fun u => ?_
  rw [(hthread u).2.1, (hthread u).2.2.2]
  exact h.tables.bound u

/-- Suspending a thread that is ready or running takes it off the ready table. -/
theorem rtThreadSuspend_tables (h : Valid c content)
    (ht : (c.objects.thread t).stat = .ready ∨ (c.objects.thread t).stat = .running) :
    ∃ c', c.rtThreadSuspend t = some c' ∧
      Tables c' (fun i => (content i).filter (· ≠ t)) none ∧
      c'.objects = c.objects.rtThreadSuspend t ∧ c'.mutex = c.mutex := by
  have hrun : ¬ ((c.objects.thread t).stat = .running ∧ t ≠ c.objects.current) :=
    fun hr => hr.2 (h.running t hr.1)
  have hinit : (c.objects.thread t).stat ≠ .init := by
    rcases ht with ht | ht <;> simp [ht]
  obtain ⟨c₁, hc₁, htables, hobjects, hsched, hmutex⟩ := rtScheduleRemoveThread_spec h.tables hinit
  have hthread : ∀ u, ((((c₁.setStat t .suspend).onTimers fun k =>
      k.rtTimerStop (.thread t))).objects.thread u) =
        if u = t then { c.objects.thread t with stat := .suspend } else c.objects.thread u := by
    intro u
    simp [onTimers, setStat, setThread, hobjects]
  refine ⟨(c₁.setStat t .suspend).onTimers fun k => k.rtTimerStop (.thread t), ?_, ?_, ?_, hmutex⟩
  · simp [rtThreadSuspend, ht, hrun, hc₁]
  · have hoff : Tables ((c₁.setStat t .suspend).onTimers fun k => k.rtTimerStop (.thread t))
        (fun i => (content i).filter (· ≠ t)) (some t) := by
      refine htables.congr rfl rfl (fun u hu => ?_) fun u => ?_
      · have hut : u ≠ t := by
          rintro rfl
          exact hu rfl
        rw [hthread, if_neg hut, hobjects]
        exact ⟨rfl, rfl, rfl⟩
      · rw [hthread]
        split
        · exact h.tables.bound t
        · exact h.tables.bound u
    refine hoff.settle ?_ fun _ => ?_
    · rw [hthread, if_pos rfl]
      simp
    · rw [hthread, if_pos rfl]
      show (c₁.sched t).numberMask = _
      rw [hsched]
      exact h.tables.mask t (by simp) hinit
  · rw [Kernel.rtThreadSuspend, if_pos ht]
    simp [onTimers, setStat, setThread, hobjects]

/-- **`rt_thread_suspend`** refines. -/
theorem rtThreadSuspend_refines (h : Valid c content) (t : T) :
    Refines (fun _ => False) content (c.rtThreadSuspend t)
      ((c.abs content).rtThreadSuspend t) := by
  by_cases ht : (c.objects.thread t).stat = .ready ∨ (c.objects.thread t).stat = .running
  · obtain ⟨c', hc', htables, hobjects, hmutex⟩ := rtThreadSuspend_tables h ht
    have hwait : ∀ m, (content (suspendThread m)).filter (· ≠ t) = content (suspendThread m) := by
      intro m
      refine List.filter_ne_of_notMem fun hmem => ?_
      have := h.tables.waiting m t hmem
      rcases ht with ht | ht <;> rw [ht] at this <;> cases this
    refine ⟨c', fun i => (content i).filter (· ≠ t), hc', ?_, ?_,
      fun p => Moved.of_sublist List.filter_sublist⟩
    · refine h.of_stat htables ?_ (fun u => ?_) ?_
      · rw [hobjects]
        simp
      · rw [hobjects, Kernel.rtThreadSuspend_stat]
        by_cases hu : u = t
        · rw [if_pos ⟨hu, ht⟩]
          exact .inr (.inl ⟨by simp, by simp⟩)
        · rw [if_neg fun h => hu h.1]
          exact .inl rfl
      · rw [hmutex]
        exact h.owned
    · have hmutexes : c'.mutexes (fun i => (content i).filter (· ≠ t)) = c.mutexes content := by
        funext m
        simp only [mutexes, hwait, hmutex]
      rw [abs, hmutexes, hobjects, Kernel.withMutex_rtThreadSuspend]
      rfl
  · have hcond : ¬ (((c.abs content).thread t).stat = .ready ∨
        ((c.abs content).thread t).stat = .running) := ht
    refine ⟨c, content, ?_, h, ?_, fun p => Moved.refl _ _⟩
    · simp only [rtThreadSuspend, ht, if_false]
    · rw [Kernel.rtThreadSuspend, if_neg hcond]

/-- Putting a suspended thread that is on no list into the ready table: the common end of
`rt_thread_resume` and `rt_thread_timeout`, which take it off the list it waits in first. -/
theorem insert_suspended (h : Valid c content) (ht : (c.objects.thread t).stat = .suspend)
    (c₁ : LinkedKernel T M A) (hlist : c₁.list = rtListRemove c.list (cell t))
    (hgroup : c₁.readyPriorityGroup = c.readyPriorityGroup) (hsched : c₁.sched = c.sched)
    (hmutex : c₁.mutex = c.mutex) (hcurrent : c₁.objects.current = c.objects.current)
    (hthread : ∀ u, (c₁.objects.thread u).stat = (c.objects.thread u).stat ∧
      (c₁.objects.thread u).currentPriority = (c.objects.thread u).currentPriority ∧
      (c₁.objects.thread u).initPriority = (c.objects.thread u).initPriority) :
    Refines (fun _ => False) content (c₁.rtScheduleInsertThread t)
      (((c₁.objects.withMutex (c.mutexes content)).rtListRemoveTlist t).rtScheduleInsertThread
        t) := by
  have hready : (c.objects.thread t).stat ≠ .ready := by
    rw [ht]
    simp
  have hfilter : ∀ p, (content (priorityTable p)).filter (· ≠ t) = content (priorityTable p) := by
    intro p
    refine List.filter_ne_of_notMem fun hmem => ?_
    exact hready ((h.tables.ready t (by simp) p).mp hmem).1
  have hoff : Tables c₁ (fun i => (content i).filter (· ≠ t)) (some t) := by
    refine (h.tables.listRemove hready).congr hlist hgroup (fun u _ => ?_) fun u => ?_
    · exact ⟨(hthread u).1, (hthread u).2.1, by rw [hsched]⟩
    · rw [(hthread u).2.1, (hthread u).2.2]
      exact h.tables.bound u
  have hmask : (c₁.sched t).numberMask = 1#32 <<< (c₁.objects.thread t).currentPriority := by
    rw [hsched, (hthread t).2.1]
    refine h.tables.mask t (by simp) ?_
    rw [ht]
    simp
  obtain ⟨c', content', hc', htables, hobjects, -, hmutex', hwaiting, hqueue⟩ :=
    rtScheduleInsertThread_spec hoff hmask
  refine ⟨c', content', hc', ?_, ?_, fun p => ?_⟩
  · refine h.of_stat htables ?_ (fun u => ?_) fun m => ?_
    · rw [hobjects]
      exact hcurrent
    · rw [hobjects, Kernel.rtScheduleInsertThread, setThread_thread]
      by_cases hu : u = t
      · subst hu
        rw [if_pos rfl, hcurrent]
        exact .inr (.inr rfl)
      · rw [if_neg hu]
        exact .inl (hthread u).1
    · rw [hmutex', hmutex]
      exact h.owned m
  · have hmutexes : c'.mutexes content' = fun m =>
        { c.mutexes content m with
          suspendThread := (c.mutexes content m).suspendThread.filter (· ≠ t) } := by
      funext m
      simp only [mutexes, hwaiting, hmutex', hmutex]
    rw [abs, hmutexes, hobjects]
    rfl
  · have hp := hqueue p
    rw [hfilter] at hp
    rcases hp with hp | hp
    · rw [hp]
      exact Moved.refl _ _
    · rw [hp]
      refine Moved.join (List.Sublist.refl _) fun hmem => ?_
      exact hready ((h.tables.ready t (by simp) p).mp hmem).1

/-- **`rt_thread_resume`** refines: the thread leaves whatever list it waits in. -/
theorem rtThreadResume_refines (h : Valid c content) (t : T) :
    Refines (fun _ => False) content (c.rtThreadResume t) ((c.abs content).rtThreadResume t) := by
  by_cases ht : (c.objects.thread t).stat = .suspend
  · have hcond : ((c.abs content).thread t).stat = .suspend := ht
    have hins := insert_suspended h ht
      (LinkedKernel.onTimers { c with list := rtListRemove c.list (cell t) } fun k =>
        k.rtTimerStop (.thread t)) rfl rfl rfl rfl (by simp [onTimers]) (by simp [onTimers])
    rw [Kernel.rtThreadResume, if_pos hcond, rtThreadResume, if_pos ht,
      Kernel.rtListRemoveTlist_rtTimerStop]
    rw [onTimers, Kernel.withMutex_rtTimerStop] at hins
    exact hins
  · have hcond : ¬ ((c.abs content).thread t).stat = .suspend := ht
    rw [Kernel.rtThreadResume, if_neg hcond, rtThreadResume, if_neg ht]
    exact ⟨c, content, rfl, h, rfl, fun p => Moved.refl _ _⟩

/-- The time-out function of a suspended thread refines. -/
theorem rtThreadTimeout_refines (h : Valid c content) (ht : (c.objects.thread t).stat = .suspend) :
    ∃ k, (c.abs content).rtThreadTimeout t = some k ∧
      Refines (fun _ => False) content (c.rtThreadTimeout t) k := by
  have hcond : ((c.abs content).thread t).stat = .suspend := ht
  rw [Kernel.rtThreadTimeout, if_pos hcond, rtThreadTimeout, if_pos ht]
  refine ⟨_, rfl, ?_⟩
  refine insert_suspended h ht { c.setThread t
    { c.objects.thread t with error := .etimeout } with list := rtListRemove c.list (cell t) }
    rfl rfl rfl rfl rfl fun u => ?_
  simp only [setThread, setThread_thread]
  split
  · next hu =>
    subst hu
    exact ⟨rfl, rfl, rfl⟩
  · exact ⟨rfl, rfl, rfl⟩

/-- Setting the priority of a thread that is not ready, and the bit that stands for it, leaves the
lists as they are. -/
theorem setPriority_valid (h : Valid c content) {priority : Nat}
    (hp : priority < rtThreadPriorityMax) (ht : (c.objects.thread t).stat ≠ .ready) :
    Valid (c.setPriority t priority) content := by
  have hthread : ∀ u, (c.setPriority t priority).objects.thread u =
      if u = t then { c.objects.thread t with currentPriority := priority }
      else c.objects.thread u := by
    intro u
    simp [setPriority, setThread, setSched]
  have hstat : ∀ u, ((c.setPriority t priority).objects.thread u).stat =
      (c.objects.thread u).stat := by
    intro u
    rw [hthread]
    split
    · next hu => rw [hu]
    · rfl
  refine h.of_stat ⟨h.tables.rings, by simp, fun u _ p => ?_, fun m u hu => ?_, fun u hu => ?_,
    h.tables.group, fun u _ hu => ?_, fun u => ?_⟩ rfl (fun u => .inl (hstat u)) h.owned
  · rw [hstat, h.tables.ready u (by simp) p, hthread]
    split
    · next hu =>
      subst hu
      simp [ht]
    · exact Iff.rfl
  · rw [hstat]
    exact h.tables.waiting m u hu
  · rw [hstat]
    exact h.tables.closed u hu
  · rw [hstat] at hu
    rw [hthread]
    by_cases hut : u = t
    · subst hut
      simp [setPriority, setSched]
    · rw [if_neg hut]
      simpa [setPriority, setSched, setThread, hut] using h.tables.mask u (by simp) hu
  · rw [hthread]
    split
    · exact ⟨hp, (h.tables.bound t).2⟩
    · exact h.tables.bound u

/-- **`rt_thread_startup`** refines: the thread gets its first priority and is resumed. -/
theorem rtThreadStartup_refines (h : Valid c content) (ht : (c.objects.thread t).stat = .init) :
    ∃ k, (c.abs content).rtThreadStartup t = some k ∧
      Refines (fun _ => False) content (c.rtThreadStartup t) k := by
  have hcond : ((c.abs content).thread t).stat = .init := ht
  rw [Kernel.rtThreadStartup, if_pos hcond, rtThreadStartup, if_pos ht]
  refine ⟨_, rfl, ?_⟩
  have h₁ := setPriority_valid h (h.tables.bound t).2 (t := t) (by simp [ht])
  have hnone := h.tables.notMem_of_stat (t := t) (by simp [ht]) (by simp [ht]) (by simp [ht])
  generalize hc₁ : c.setPriority t (c.objects.thread t).initPriority = c₁ at h₁
  have hthread : ∀ u, ((c₁.setSched t { c₁.sched t with yield := false }).setStat t
      .suspend).objects.thread u =
        if u = t then { c₁.objects.thread t with stat := .suspend } else c₁.objects.thread u := by
    intro u
    simp [setStat, setThread, setSched]
  have h₂ : Valid ((c₁.setSched t { c₁.sched t with yield := false }).setStat t .suspend)
      content := by
    have hmask : ∀ u, ((c₁.setSched t { c₁.sched t with yield := false }).setStat t
        .suspend).sched u = if u = t then { c₁.sched t with yield := false } else c₁.sched u := by
      intro u
      simp [setStat, setThread, setSched, Function.update_apply]
    refine h₁.of_stat ?_ rfl (fun u => ?_) h₁.owned
    · have hoff : Tables ((c₁.setSched t { c₁.sched t with yield := false }).setStat t .suspend)
          content (some t) := by
        refine (h₁.tables.aside hnone).congr rfl rfl (fun u hu => ?_) fun u => ?_
        · have hut : u ≠ t := by
            rintro rfl
            exact hu rfl
          rw [hthread, hmask, if_neg hut, if_neg hut]
          exact ⟨rfl, rfl, rfl⟩
        · rw [hthread]
          split
          · exact h₁.tables.bound t
          · exact h₁.tables.bound u
      refine hoff.settle ?_ fun _ => ?_
      · rw [hthread, if_pos rfl]
        simp
      · rw [hthread, if_pos rfl, hmask, if_pos rfl, ← hc₁]
        simp [setPriority, setSched, setThread]
    · rw [hthread]
      by_cases hut : u = t
      · rw [if_pos hut]
        exact .inr (.inl ⟨by simp, by simp⟩)
      · rw [if_neg hut]
        exact .inl rfl
  have habs : ((c₁.setSched t { c₁.sched t with yield := false }).setStat t
      .suspend).abs content = (c.abs content).setThread t { (c.abs content).thread t with
        currentPriority := ((c.abs content).thread t).initPriority
        stat := .suspend } := by
    rw [← hc₁]
    simp only [abs, setStat, setSched, setPriority, setThread, Kernel.setThread,
      Kernel.withMutex, Function.update_idem, Function.update_self]
    rfl
  have hres := rtThreadResume_refines h₂ t
  rw [habs] at hres
  exact hres

/-- A thread that is on no list joins a list that is not in the ready table. -/
theorem Tables.enter (h : Tables c content none) {i : ListId M} {ts : List T}
    {list : RingNode (ListId M) T → Links (RingNode (ListId M) T)}
    (hrings : Rings list (Function.update content i ts))
    (hmem : ∀ u, u ∈ ts ↔ u ∈ content i ∨ u = t) (hready : ∀ p, i ≠ priorityTable p)
    (hwaiting : ∀ m, i = suspendThread m → (c.objects.thread t).stat = .suspend)
    (hclosed : i = threadDefunct → (c.objects.thread t).stat = .close) :
    Tables { c with list := list } (Function.update content i ts) none := by
  have hp : ∀ p, Function.update content i ts (priorityTable p) = content (priorityTable p) :=
    fun p => Function.update_of_ne (Ne.symm (hready p)) _ _
  refine ⟨hrings, by simp, fun u _ p => ?_, fun m u hu => ?_, fun u hu => ?_, fun p => ?_, h.mask,
    h.bound⟩
  · rw [hp]
    exact h.ready u (by simp) p
  · rw [Function.update_apply] at hu
    split at hu
    · next hi =>
      rcases (hmem u).mp hu with hu | rfl
      · rw [← hi] at hu
        exact h.waiting m u hu
      · exact hwaiting m hi.symm
    · exact h.waiting m u hu
  · rw [Function.update_apply] at hu
    split at hu
    · next hi =>
      rcases (hmem u).mp hu with hu | rfl
      · rw [← hi] at hu
        exact h.closed u hu
      · exact hclosed hi.symm
    · exact h.closed u hu
  · rw [hp]
    exact h.group p

/-- **`rt_thread_exit`** refines: the thread that runs leaves for good, and the object of a created
thread waits in `rt_thread_defunct`. -/
theorem rtThreadExit_refines (h : Valid c content)
    (ht : (c.objects.thread t).stat = .running) :
    Refines (fun _ => False) content (c.rtThreadExit t) ((c.abs content).rtThreadExit t) := by
  obtain ⟨c₁, hc₁, htables, hobjects, hsched, hmutex⟩ :=
    rtScheduleRemoveThread_spec (t := t) h.tables (by simp [ht])
  have hsame : (fun i => (content i).filter (· ≠ t)) = content := by
    funext i
    refine List.filter_ne_of_notMem ?_
    exact h.tables.notMem_of_stat (by simp [ht]) (by simp [ht]) (by simp [ht]) i
  rw [hsame] at htables
  generalize hc₂ : (((c₁.setStat t .close).setSched t { c₁.sched t with yield := false }).onTimers
    fun k => k.rtTimerDetach (.thread t)) = c₂
  have hthread : ∀ u, c₂.objects.thread u =
      if u = t then { c.objects.thread t with stat := .close } else c.objects.thread u := by
    intro u
    rw [← hc₂]
    simp [onTimers, setStat, setThread, setSched, hobjects]
  have hfields : ∀ u, (c₂.sched u).numberMask = (c.sched u).numberMask := by
    intro u
    rw [← hc₂]
    by_cases hu : u = t
    · subst hu
      simp [onTimers, setStat, setThread, setSched, hsched]
    · simp [onTimers, setStat, setThread, setSched, hsched, hu]
  have hclosed : Tables c₂ content none := by
    have hoff : Tables c₂ content (some t) := by
      refine htables.congr (by rw [← hc₂]; rfl) (by rw [← hc₂]; rfl) (fun u hu => ?_) fun u => ?_
      · have hut : u ≠ t := by
          rintro rfl
          exact hu rfl
        rw [hthread, if_neg hut, hobjects, hfields, hsched]
        exact ⟨rfl, rfl, rfl⟩
      · rw [hthread]
        split
        · exact h.tables.bound t
        · exact h.tables.bound u
    refine hoff.settle ?_ fun _ => ?_
    · rw [hthread, if_pos rfl]
      simp
    · rw [hthread, if_pos rfl, hfields]
      exact h.tables.mask t (by simp) (by simp [ht])
  have hstat : ∀ u, (c₂.objects.thread u).stat = (c.objects.thread u).stat ∨
      (c₂.objects.thread u).stat ≠ .ready ∧ (c₂.objects.thread u).stat ≠ .running ∨
      (c₂.objects.thread u).stat = if u = c.objects.current then .running else .ready := by
    intro u
    rw [hthread]
    by_cases hu : u = t
    · rw [if_pos hu]
      exact .inr (.inl ⟨by simp, by simp⟩)
    · rw [if_neg hu]
      exact .inl rfl
  have hcurrent : c₂.objects.current = c.objects.current := by
    rw [← hc₂]
    show c₁.objects.current = _
    rw [hobjects]
  have howned : ∀ m, Owned (c₂.mutex m) := by
    intro m
    rw [← hc₂]
    show Owned (c₁.mutex m)
    rw [hmutex]
    exact h.owned m
  have habs : c₂.objects.withMutex (c.mutexes content) = (c.abs content).rtThreadExit t := by
    rw [← hc₂]
    simp only [onTimers, setStat, setThread, setSched, hobjects]
    rfl
  have hmutexes : ∀ content' : ListId M → List T, (∀ m, content' (suspendThread m) =
      content (suspendThread m)) → c₂.mutexes content' = c.mutexes content := by
    intro content' hw
    funext m
    have : c₂.mutex = c.mutex := by
      rw [← hc₂]
      exact hmutex
    simp only [mutexes, hw, this]
  have hrun : c.rtThreadExit t = some (if (c₂.sched t).systemobject then c₂
      else { c₂ with list := rtListInsertAfter c₂.list (head threadDefunct) (cell t) }) := by
    rw [rtThreadExit, hc₁, ← hc₂]
    rfl
  rw [hrun]
  split
  · refine ⟨c₂, content, rfl, h.of_stat hclosed hcurrent hstat howned, ?_, fun p => Moved.refl _ _⟩
    rw [abs, hmutexes _ fun m => rfl]
    exact habs
  · have hnone : ∀ i, t ∉ content i := htables.off_lists t rfl
    have hnext : (c₂.list (head threadDefunct)).next ≠ cell t := by
      intro hn
      rw [hclosed.rings.head_next] at hn
      have hmem := hnone threadDefunct
      cases hd : content threadDefunct with
      | nil => simp [hd] at hn
      | cons x xs =>
        rw [hd] at hn hmem
        simp only [List.map_cons, List.headD_cons, RingNode.cell.injEq] at hn
        exact hmem (by simp [hn])
    have hpush := hclosed.rings.push hnone
      (rtListInsertAfter_linked (hclosed.rings.wellLinked_head threadDefunct) (by simp) hnext)
    refine ⟨_, _, rfl, h.of_stat (hclosed.enter (t := t) hpush ?_ ?_ ?_ ?_) hcurrent hstat howned,
      ?_, fun p => ?_⟩
    · intro u
      rw [List.mem_cons]
      exact or_comm
    · simp
    · simp
    · intro _
      rw [hthread, if_pos rfl]
    · show c₂.objects.withMutex (c₂.mutexes _) = _
      rw [hmutexes _ fun m => Function.update_of_ne (by simp) _ _]
      exact habs
    · rw [Function.update_of_ne (by simp)]
      exact Moved.refl _ _

/-- **`rt_thread_control`** with a priority refines. A thread that is ready changes lists, or goes
to the end of its list when it is given the priority it has. -/
theorem rtThreadChangePriority_refines (h : Valid c content) (t : T) {priority : Nat}
    (hp : priority < rtThreadPriorityMax) :
    Refines (fun u => u = t ∧ priority = (c.objects.thread t).currentPriority) content
      (c.rtThreadChangePriority t priority)
      ((c.abs content).rtThreadChangePriority t priority) := by
  rw [rtThreadChangePriority, if_pos hp]
  by_cases ht : (c.objects.thread t).stat = .ready
  · rw [if_pos ht]
    obtain ⟨c₁, hc₁, htables, hobjects, hsched, hmutex⟩ :=
      rtScheduleRemoveThread_spec (t := t) h.tables (by simp [ht])
    rw [hc₁, Option.bind_some]
    have hthread : ∀ u, (c₁.setPriority t priority).objects.thread u =
        if u = t then { c.objects.thread t with currentPriority := priority }
        else c.objects.thread u := by
      intro u
      simp [setPriority, setThread, setSched, hobjects]
    have hoff : Tables (c₁.setPriority t priority) (fun i => (content i).filter (· ≠ t))
        (some t) := by
      refine htables.congr rfl rfl (fun u hu => ?_) fun u => ?_
      · have hut : u ≠ t := by
          rintro rfl
          exact hu rfl
        rw [hthread, if_neg hut, hobjects]
        simp [setPriority, setThread, setSched, hut]
      · rw [hthread]
        split
        · exact ⟨hp, (h.tables.bound t).2⟩
        · exact h.tables.bound u
    have hmask : ((c₁.setPriority t priority).sched t).numberMask =
        1#32 <<< ((c₁.setPriority t priority).objects.thread t).currentPriority := by
      rw [hthread, if_pos rfl]
      simp [setPriority, setSched]
    have hcurrent : t ≠ c.objects.current := by
      rintro rfl
      exact h.current ht
    obtain ⟨c', hc', htables', hobjects', -, hmutex'⟩ :=
      rtScheduleInsertThread_ready hoff (by simpa [setPriority, setThread, setSched, hobjects]
        using hcurrent) hmask
    have hstat : ((c₁.setPriority t priority).objects.thread t).stat = .ready := by
      rw [hthread, if_pos rfl]
      exact ht
    have hobj : c'.objects = c.objects.setThread t
        { c.objects.thread t with currentPriority := priority } := by
      rw [hobjects', hthread, if_pos rfl]
      simp only [setPriority, setThread, setSched, hobjects, Kernel.setThread, Function.update_idem]
      rw [← ht]
    have hprio : ((c₁.setPriority t priority).objects.thread t).currentPriority = priority := by
      rw [hthread, if_pos rfl]
    rw [hprio] at htables'
    refine ⟨c', _, hc', h.of_stat htables' (by rw [hobj]; rfl) (fun u => .inl ?_) fun m => ?_, ?_,
      fun p => ?_⟩
    · rw [hobj, setThread_thread]
      split
      · next hu => rw [hu]
      · rfl
    · rw [hmutex']
      show Owned (c₁.mutex m)
      rw [hmutex]
      exact h.owned m
    · rw [abs, hobj]
      have hmutexes : c'.mutexes (Function.update (fun i => (content i).filter (· ≠ t))
          (priorityTable priority)
          ((content (priorityTable priority)).filter (· ≠ t) ++ [t])) = c.mutexes content := by
        funext m
        have hwait : (content (suspendThread m)).filter (· ≠ t) = content (suspendThread m) := by
          refine List.filter_ne_of_notMem fun hmem => ?_
          have := h.tables.waiting m t hmem
          rw [ht] at this
          cases this
        have hm : c'.mutex = c.mutex := by
          rw [hmutex']
          exact hmutex
        rw [mutexes, hm, Function.update_of_ne (by simp), hwait]
        rfl
      rw [hmutexes]
      rfl
    · rw [Function.update_apply]
      split
      · next hpp =>
        rw [hpp]
        refine Moved.join List.filter_sublist fun hmem => ⟨rfl, ?_⟩
        exact ((h.tables.ready t (by simp) priority).mp hmem).2.symm
      · exact Moved.of_sublist List.filter_sublist
  · rw [if_neg ht]
    exact ⟨_, content, rfl, setPriority_valid h hp ht, rfl, fun p => Moved.refl _ _⟩

/-- Operating the timers alone refines. -/
theorem onTimers_refines {again : T → Prop} (h : Valid c content) {k : Kernel T Empty A}
    (hthread : k.thread = c.objects.thread) (hcurrent : k.current = c.objects.current) :
    Refines again content (some { c with objects := k }) (k.withMutex (c.mutexes content)) :=
  h.refines_frame rfl rfl hcurrent (fun u => by rw [hthread]; exact ⟨rfl, rfl, rfl, rfl⟩) h.owned
    rfl

/-- **`rt_thread_sleep`** refines, and is defined exactly when the interval is short enough. -/
theorem rtThreadSleep_refines (h : Valid c content) (t : T) (tick : Nat) :
    ((c.abs content).rtThreadSleep t tick = none ∧ c.rtThreadSleep t tick = none) ∨
      ∃ k, (c.abs content).rtThreadSleep t tick = some k ∧
        Refines (fun _ => False) content (c.rtThreadSleep t tick) k := by
  obtain ⟨c₁, content₁, hc₁, h₁, habs, hmoved⟩ := rtThreadSuspend_refines h t
  have hstart : (c.abs content).rtThreadSleep t tick =
      ((c₁.objects.rtTimerSetTime (.thread t) tick).rtTimerStart (.thread t)).map fun k =>
        k.withMutex (c₁.mutexes content₁) := by
    rw [Kernel.withMutex_rtTimerStart, Kernel.rtThreadSleep, ← habs]
    rfl
  rw [hstart, rtThreadSleep, hc₁, Option.bind_some]
  cases hk : (c₁.objects.rtTimerSetTime (.thread t) tick).rtTimerStart (.thread t) with
  | none => exact .inl ⟨rfl, rfl⟩
  | some k =>
    right
    obtain ⟨hthread, hcurrent, -, -⟩ := Kernel.rtTimerStart_frame hk
    refine ⟨_, rfl, { c₁ with objects := k }, content₁, rfl, ?_, rfl, hmoved⟩
    refine h₁.of_stat ?_ hcurrent (fun u => .inl ?_) h₁.owned
    · refine h₁.tables.congr rfl rfl (fun u _ => ?_) fun u => ?_
      · show (k.thread u).stat = _ ∧ _
        rw [hthread]
        exact ⟨rfl, rfl, rfl⟩
      · show (k.thread u).currentPriority < _ ∧ _
        rw [hthread]
        exact h₁.tables.bound u
    · show (k.thread u).stat = _
      rw [hthread]
      rfl

theorem mutexes_enqueue (hmutex : c'.mutex = c.mutex) (ts : List T) :
    c'.mutexes (Function.update content (suspendThread m) ts) =
      Function.update (c.mutexes content) m { c.mutexes content m with suspendThread := ts } := by
  funext n
  by_cases hn : n = m
  · subst hn
    simp [mutexes, hmutex]
  · have hne : (suspendThread n : ListId M) ≠ suspendThread m := by simpa using hn
    simp [mutexes, hmutex, hn, hne]

/-- **`rt_ipc_list_suspend`** on the thread that runs: it goes to the end of the mutex's list. -/
theorem rtIpcListSuspend_refines (h : Valid c content)
    (ht : (c.objects.thread t).stat = .running) (m : M) :
    ∃ c' content', c.rtIpcListSuspend m t = some c' ∧ Valid c' content' ∧
      c'.abs content' = (c.abs content).rtIpcListSuspend m t ∧
      ∀ p, content' (priorityTable p) = content (priorityTable p) := by
  obtain ⟨c₁, hc₁, htables, hobjects, hmutex⟩ := rtThreadSuspend_tables (t := t) h (.inr ht)
  have hsame : (fun i => (content i).filter (· ≠ t)) = content := by
    funext i
    refine List.filter_ne_of_notMem ?_
    exact h.tables.notMem_of_stat (by simp [ht]) (by simp [ht]) (by simp [ht]) i
  rw [hsame] at htables
  have hnone : ∀ i, t ∉ content i :=
    h.tables.notMem_of_stat (by simp [ht]) (by simp [ht]) (by simp [ht])
  have hstat : ∀ u, (c₁.objects.thread u).stat =
      if u = t then .suspend else (c.objects.thread u).stat := by
    intro u
    rw [hobjects, Kernel.rtThreadSuspend_stat]
    simp [ht]
  have hrings := htables.rings.append hnone
    (rtListInsertBefore_linked c₁.list (head (suspendThread m)) (cell t))
  refine ⟨{ c₁ with list := rtListInsertBefore c₁.list (head (suspendThread m)) (cell t) },
    Function.update content (suspendThread m) (content (suspendThread m) ++ [t]), ?_, ?_, ?_,
    fun p => Function.update_of_ne (by simp) _ _⟩
  · rw [rtIpcListSuspend, hc₁]
    rfl
  · refine h.of_stat (htables.enter (t := t) hrings ?_ ?_ ?_ ?_) ?_ (fun u => ?_) fun n => ?_
    · intro u
      simp
    · simp
    · intro _ _
      rw [hstat, if_pos rfl]
    · simp
    · show c₁.objects.current = _
      rw [hobjects]
      simp
    · show (c₁.objects.thread u).stat = _ ∨ (c₁.objects.thread u).stat ≠ _ ∧
        (c₁.objects.thread u).stat ≠ _ ∨ (c₁.objects.thread u).stat = _
      rw [hstat]
      split
      · exact .inr (.inl ⟨by simp, by simp⟩)
      · exact .inl rfl
    · show Owned (c₁.mutex n)
      rw [hmutex]
      exact h.owned n
  · rw [abs, mutexes_enqueue (c := c) (by exact hmutex)]
    show c₁.objects.withMutex _ = _
    rw [hobjects, Kernel.rtIpcListSuspend_eq, Kernel.withMutex_rtThreadSuspend,
      Kernel.withMutex_rtThreadSuspend]
    rfl

/-- What the linked kernel sees of a mutex. -/
theorem abs_setMutex (c : LinkedKernel T M A) (content : ListId M → List T) (m : M)
    (mx : MutexFields T) : (c.setMutex m mx).abs content =
    (c.abs content).setMutex m
      ⟨content (suspendThread m), mx.value, mx.originalPriority, mx.hold, mx.owner⟩ := by
  simp only [abs, setMutex, Kernel.withMutex, Kernel.setMutex]
  congr 1
  funext n
  by_cases hn : n = m
  · subst hn
    simp [mutexes]
  · simp [mutexes, hn]

/-- Replacing a mutex's fields leaves the lists alone. -/
theorem setMutex_valid (h : Valid c content) {mx : MutexFields T} (hmx : Owned mx) :
    Valid (c.setMutex m mx) content := by
  refine h.of_stat (h.tables.congr rfl rfl (fun u _ => ⟨rfl, rfl, rfl⟩) h.tables.bound) rfl
    (fun u => .inl rfl) fun n => ?_
  show Owned (Function.update c.mutex m mx n)
  rw [Function.update_apply]
  split
  · exact hmx
  · exact h.owned n

/-- Setting a thread's error code leaves the lists alone. -/
theorem setError_valid (h : Valid c content) (t : T) (e : RtErr) :
    Valid (c.setThread t { c.objects.thread t with error := e }) content := by
  have hthread : ∀ u, (c.setThread t { c.objects.thread t with error := e }).objects.thread u =
      if u = t then { c.objects.thread t with error := e } else c.objects.thread u := by
    intro u
    simp [setThread]
  have hfields : ∀ u,
      ((c.setThread t { c.objects.thread t with error := e }).objects.thread u).stat =
        (c.objects.thread u).stat ∧
      ((c.setThread t { c.objects.thread t with error := e }).objects.thread u).currentPriority =
        (c.objects.thread u).currentPriority ∧
      ((c.setThread t { c.objects.thread t with error := e }).objects.thread u).initPriority =
        (c.objects.thread u).initPriority := by
    intro u
    rw [hthread]
    split
    · next hu =>
      subst hu
      exact ⟨rfl, rfl, rfl⟩
    · exact ⟨rfl, rfl, rfl⟩
  refine h.of_stat (h.tables.congr rfl rfl (fun u _ => ⟨(hfields u).1, (hfields u).2.1, rfl⟩)
    fun u => ?_) rfl (fun u => .inl (hfields u).1) h.owned
  rw [(hfields u).2.1, (hfields u).2.2]
  exact h.tables.bound u

theorem abs_setError (c : LinkedKernel T M A) (content : ListId M → List T) (t : T) (e : RtErr) :
    (c.setThread t { c.objects.thread t with error := e }).abs content =
      (c.abs content).setThread t { (c.abs content).thread t with error := e } := rfl

/-- **`rt_mutex_take`** refines, with the same answer; the owner whose priority it raises changes
lists if it is ready, and never stays in the one it is in. -/
theorem rtMutexTake_refines (h : Valid c content) (ht : (c.objects.thread t).stat = .running)
    (m : M) :
    ∃ c' content', c.rtMutexTake t m = some (c', ((c.abs content).rtMutexTake t m).2) ∧
      Valid c' content' ∧ c'.abs content' = ((c.abs content).rtMutexTake t m).1 ∧
      ∀ p, Moved (fun _ => False) (content (priorityTable p)) (content' (priorityTable p)) := by
  have h₀ := setError_valid h t .eok
  have habs₀ := abs_setError c content t .eok
  have ht₀ : ((c.setThread t { c.objects.thread t with error := .eok }).objects.thread t).stat =
      .running := by
    simp [setThread, ht]
  unfold rtMutexTake Kernel.rtMutexTake
  rw [← habs₀]
  generalize hc₀ : c.setThread t { c.objects.thread t with error := .eok } = c₀ at h₀ ht₀
  have hown := h₀.owned m
  -- the record of the mutex is the same on both sides, apart from its list
  have hmx : (c₀.abs content).mutex m = ⟨content (suspendThread m), (c₀.mutex m).value,
      (c₀.mutex m).originalPriority, (c₀.mutex m).hold, (c₀.mutex m).owner⟩ := rfl
  simp only [hmx]
  by_cases howner : (c₀.mutex m).owner = some t
  · rw [if_pos howner, if_pos howner]
    by_cases hhold : (c₀.mutex m).hold < rtMutexHoldMax
    · rw [if_pos hhold, if_pos hhold]
      refine ⟨_, content, rfl, setMutex_valid h₀ ⟨hown.owner, hown.priority⟩, ?_,
        fun p => Moved.refl _ _⟩
      exact abs_setMutex _ _ _ _
    · rw [if_neg hhold, if_neg hhold]
      exact ⟨_, content, rfl, h₀, rfl, fun p => Moved.refl _ _⟩
  · rw [if_neg howner, if_neg howner]
    by_cases hvalue : 0 < (c₀.mutex m).value
    · rw [if_pos hvalue, if_pos hvalue]
      have hnew : ∀ hold, Owned (T := T) ⟨(c₀.mutex m).value - 1,
          (c₀.objects.thread t).currentPriority, hold, some t⟩ := by
        intro hold
        exact ⟨by simp, fun _ => (h₀.tables.bound t).1⟩
      by_cases hhold : (c₀.mutex m).hold < rtMutexHoldMax
      · rw [if_pos hhold, if_pos hhold]
        refine ⟨_, content, rfl, setMutex_valid h₀ (hnew _), ?_, fun p => Moved.refl _ _⟩
        exact abs_setMutex _ _ _ _
      · rw [if_neg hhold, if_neg hhold]
        refine ⟨_, content, rfl, setMutex_valid h₀ (hnew _), ?_, fun p => Moved.refl _ _⟩
        exact abs_setMutex _ _ _ _
    · rw [if_neg hvalue, if_neg hvalue]
      obtain ⟨o, ho⟩ := Option.ne_none_iff_exists'.mp (hown.owner (by omega))
      have hinherit : Refines (fun _ => False) content (c₀.inheritPriority m t)
          ((c₀.abs content).inheritPriority m t) := by
        have ho' : ((c₀.abs content).mutex m).owner = some o := ho
        unfold inheritPriority Kernel.inheritPriority
        simp only [ho, ho', Option.bind_some]
        show Refines _ _ _ (if (c₀.objects.thread t).currentPriority <
          (c₀.objects.thread o).currentPriority then _ else _)
        split
        · next hlt =>
          obtain ⟨c₁, content₁, hc₁, h₁, habs₁, hmoved₁⟩ :=
            rtThreadChangePriority_refines h₀ o (h₀.tables.bound t).1
          refine ⟨c₁, content₁, hc₁, h₁, habs₁, fun p => (hmoved₁ p).mono ?_⟩
          rintro u ⟨-, he⟩
          exact absurd he (Nat.ne_of_lt hlt)
        · exact ⟨c₀, content, rfl, h₀, rfl, fun p => Moved.refl _ _⟩
      obtain ⟨c₁, content₁, hc₁, h₁, habs₁, hmoved₁⟩ := hinherit
      have ht₁ : (c₁.objects.thread t).stat = .running := by
        have hstat : ((c₁.abs content₁).thread t).stat = ((c₀.abs content).thread t).stat := by
          rw [habs₁, Kernel.inheritPriority_stat]
        exact hstat.trans ht₀
      obtain ⟨c₂, content₂, hc₂, h₂, habs₂, hsame₂⟩ := rtIpcListSuspend_refines h₁ ht₁ m
      refine ⟨c₂, content₂, ?_, h₂, ?_, fun p => ?_⟩
      · rw [hc₁, Option.bind_some, hc₂]
        rfl
      · rw [habs₂, habs₁]
      · rw [hsame₂]
        exact hmoved₁ p

/-- **`rt_mutex_release`** refines, when the thread that runs calls it. -/
theorem rtMutexRelease_refines (h : Valid c content)
    (ht : (c.objects.thread t).stat = .running) (m : M) :
    Refines (fun _ => False) content (c.rtMutexRelease t m)
      ((c.abs content).rtMutexRelease t m) := by
  have hmx : (c.abs content).mutex m = ⟨content (suspendThread m), (c.mutex m).value,
      (c.mutex m).originalPriority, (c.mutex m).hold, (c.mutex m).owner⟩ := rfl
  have hown := h.owned m
  unfold rtMutexRelease Kernel.rtMutexRelease
  simp only [hmx]
  by_cases howner : (c.mutex m).owner = some t
  · rw [if_pos howner, if_pos howner]
    have h₁ : Valid (c.setMutex m { c.mutex m with hold := ((c.mutex m).hold + 255) % 256 })
        content := setMutex_valid h ⟨hown.owner, hown.priority⟩
    have habs₁ := abs_setMutex c content m
      { c.mutex m with hold := ((c.mutex m).hold + 255) % 256 }
    rw [← habs₁]
    generalize hc₁ : c.setMutex m { c.mutex m with hold := ((c.mutex m).hold + 255) % 256 } = c₁
      at h₁
    by_cases hhold : ((c.mutex m).hold + 255) % 256 = 0
    · rw [if_pos hhold, if_pos hhold]
      have ht₁ : (c₁.objects.thread t).stat = .running := by
        rw [← hc₁]
        exact ht
      have hprio₁ : (c₁.mutex m).originalPriority < rtThreadPriorityMax := by
        rw [← hc₁]
        simpa [setMutex] using hown.priority (by rw [howner]; simp)
      have hrestore : ∃ c₂, c₁.restorePriority t m = some c₂ ∧ Valid c₂ content ∧
          c₂.abs content = (c₁.abs content).restorePriority t m := by
        unfold restorePriority Kernel.restorePriority
        show ∃ c₂, _ ∧ _ ∧ _ = if (c₁.mutex m).originalPriority ≠
          (c₁.objects.thread t).currentPriority then _ else _
        split
        · refine ⟨c₁.setPriority t (c₁.mutex m).originalPriority, ?_,
            setPriority_valid h₁ hprio₁ (by simp [ht₁]), rfl⟩
          rw [rtThreadChangePriority, if_pos hprio₁, if_neg (by simp [ht₁])]
        · exact ⟨c₁, rfl, h₁, rfl⟩
      obtain ⟨c₂, hc₂, h₂, habs₂⟩ := hrestore
      rw [hc₂, Option.bind_some, Kernel.handOver, ← habs₂]
      have hmx₂ : (c₂.abs content).mutex m = ⟨content (suspendThread m), (c₂.mutex m).value,
          (c₂.mutex m).originalPriority, (c₂.mutex m).hold, (c₂.mutex m).owner⟩ := rfl
      have hempty : rtListIsempty c₂.list (head (suspendThread m)) = true ↔
          content (suspendThread m) = [] := by
        rw [rtListIsempty, decide_eq_true_iff, h₂.tables.rings.head_next_eq_iff]
      unfold wakeFirst
      simp only [hmx₂]
      cases hw : content (suspendThread m) with
      | nil =>
        rw [if_pos (hempty.mpr hw)]
        split
        · refine ⟨_, content, rfl, setMutex_valid h₂ ⟨by simp, by simp⟩, ?_,
            fun p => Moved.refl _ _⟩
          rw [abs_setMutex, hw]
        · exact ⟨c₂, content, rfl, h₂, rfl, fun p => Moved.refl _ _⟩
      | cons x xs =>
        rw [if_neg (by rw [hempty, hw]; simp), h₂.tables.rings.head_next_cons hw]
        have hnew : ∀ hold, Owned (T := T) ⟨(c₂.mutex m).value,
            (c₂.objects.thread x).currentPriority, hold, some x⟩ := by
          intro hold
          exact ⟨by simp, fun _ => (h₂.tables.bound x).1⟩
        show Refines _ _ (if (c₂.mutex m).hold < rtMutexHoldMax then _ else _)
          (if (c₂.mutex m).hold < rtMutexHoldMax then _ else _)
        by_cases hmax : (c₂.mutex m).hold < rtMutexHoldMax
        · rw [if_pos hmax, if_pos hmax]
          have hres := rtThreadResume_refines (setMutex_valid (m := m) h₂
            (hnew ((c₂.mutex m).hold + 1))) x
          rw [abs_setMutex, hw] at hres
          exact hres
        · rw [if_neg hmax, if_neg hmax]
          refine ⟨_, content, rfl, setMutex_valid h₂ (hnew _), ?_, fun p => Moved.refl _ _⟩
          rw [abs_setMutex, hw]
          rfl
    · rw [if_neg hhold, if_neg hhold]
      exact ⟨c₁, content, rfl, h₁, rfl, fun p => Moved.refl _ _⟩
  · rw [if_neg howner, if_neg howner]
    exact ⟨_, content, rfl, setError_valid h t .error, rfl, fun p => Moved.refl _ _⟩

end LinkedKernel

end OsesProject
