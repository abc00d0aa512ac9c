import OsesProject.Laws.Boot
import OsesProject.Laws.Semaphore

/-!
# The semaphore of the heap

The kernel of the start of the application has a semaphore among its threads (`Kernel.rtSemTake`,
`Kernel.rtSemRelease`); `SemThreads` has one by itself. Each call of the first is a call of the
second (`threads_take`, `threads_release`), so that in every run of the start the semaphore of the
heap is in a state that `SemThreads` reaches (`heapSem_refines`), and the laws of semaphores hold of
it.

The heap's functions run between the two calls. `OneOwner` is what a semaphore of value one keeps
when threads take it and give it back in this way: one thread at most has it. Nobody but the call
that gives it back resumes a thread that waits for it (`step_suspended`), so `main` and the shell
are never inside the heap's functions at once (`heap_exclusive`), and a call of one of them is a
step of its own, as it is taken to be where the heap itself is looked at.
-/

set_option linter.unusedSectionVars false

namespace OsesProject

open Machine Function

/-- Where a thread is, seen from a semaphore. -/
inductive HeldPc
  | outside
  /-- inside `rt_sem_take`, behind its `rt_schedule` -/
  | taking
  /-- between `rt_sem_take` and `rt_sem_release` -/
  | holding
  deriving DecidableEq

namespace Semaphore

variable {T M A : Type} [DecidableEq T] [DecidableEq A] {k k' : Kernel T M A} {sem : Semaphore T}
  {place : T → HeldPc} {list list' : List T} {t : T} {priority : T → ℕ} {acquired : List T}
  {released : ℕ}

/-! ## Two models of one semaphore -/

/-- Where `SemThreads` has a thread, from the list of the semaphore. -/
def semPc (list : List T) (place : T → HeldPc) (t : T) : SemPc :=
  if place t = .taking then if t ∈ list then .suspended false else .resumed false else .outside

/-- The semaphore in `SemThreads`. -/
def threads (sem : Semaphore T) (place : T → HeldPc) (priority : T → ℕ) (acquired : List T)
    (released : ℕ) : SemThreads T :=
  ⟨.fifo, sem.value, sem.suspendThread, priority, semPc sem.suspendThread place, acquired, released⟩

theorem semPc_of_ne (h : place t ≠ .taking) : semPc list place t = .outside := if_neg h

/-- A statement of one thread leaves the others where they are. -/
theorem semPc_update {p : HeldPc} (hlist : ∀ u, u ≠ t → (u ∈ list' ↔ u ∈ list)) :
    semPc list' (update place t p) =
      update (semPc list place) t (semPc list' (update place t p) t) := by
  funext u
  rcases eq_or_ne u t with rfl | hne
  · rw [update_self]
  · rw [update_of_ne hne, semPc, semPc, update_of_ne hne]
    simp only [hlist u hne]

/-- A thread that stays outside is where it was. -/
theorem semPc_update_outside {p : HeldPc} (hfrom : place t ≠ .taking) (hto : p ≠ .taking) :
    semPc list (update place t p) = semPc list place := by
  rw [semPc_update fun _ _ => Iff.rfl, semPc_of_ne (by rwa [update_self]), ← semPc_of_ne hfrom,
    update_eq_self]

/-- **`rt_sem_take`** with `RT_WAITING_FOREVER` is one call in both. -/
theorem threads_take (k : Kernel T M A) (sem : Semaphore T) (priority : T → ℕ) (acquired : List T)
    (released : ℕ) (hout : place t = .outside) :
    ∃ acquired', (sem.threads place priority acquired released).rtSemTake t (-1) =
      (k.rtSemTake sem t).2.1.threads
        (update place t (if (k.rtSemTake sem t).2.2 then .taking else .holding)) priority acquired'
        released := by
  unfold Kernel.rtSemTake SemThreads.rtSemTake
  by_cases hvalue : 0 < sem.value
  · refine ⟨acquired ++ [t], ?_⟩
    have hplace : semPc sem.suspendThread (update place t .holding) =
        semPc sem.suspendThread place := semPc_update_outside (by simp [hout]) (by simp)
    simp [threads, hvalue, hplace]
  · refine ⟨acquired, ?_⟩
    have hplace : semPc (sem.suspendThread ++ [t]) (update place t .taking) =
        update (semPc sem.suspendThread place) t (.suspended false) := by
      have hothers : ∀ u, u ≠ t → (u ∈ sem.suspendThread ++ [t] ↔ u ∈ sem.suspendThread) :=
        fun u hne => by simp [hne]
      rw [semPc_update hothers]
      simp [semPc]
    simp [threads, hvalue, hplace, SemThreads.rtIpcListSuspend]

/-- **`rt_sem_release`** is one call in both. -/
theorem threads_release (k : Kernel T M A) (sem : Semaphore T) (priority : T → ℕ)
    (acquired : List T) (released : ℕ) (hhold : place t = .holding)
    (hnodup : sem.suspendThread.Nodup) (hwaits : ∀ u ∈ sem.suspendThread, place u = .taking) :
    ∃ acquired' released', (sem.threads place priority acquired released).rtSemRelease =
      (k.rtSemRelease sem).2.threads (update place t .outside) priority acquired' released' := by
  have hplace : ∀ list : List T, semPc list (update place t .outside) = semPc list place :=
    fun _ => semPc_update_outside (by simp [hhold]) (by simp)
  obtain ⟨list, value⟩ := sem
  unfold Kernel.rtSemRelease SemThreads.rtSemRelease
  cases list with
  | nil =>
    by_cases hvalue : value < 0xffff
    · exact ⟨acquired, released + 1, by simp [threads, hvalue, rtSemValueMax, hplace]⟩
    · exact ⟨acquired, released, by simp [threads, hvalue, rtSemValueMax, hplace]⟩
  | cons u rest =>
    refine ⟨acquired ++ [u], released + 1, ?_⟩
    have hnext : update (semPc (u :: rest) place) u (.resumed false) = semPc rest place := by
      funext v
      rcases eq_or_ne v u with rfl | hne
      · rw [update_self, semPc, if_pos (hwaits v List.mem_cons_self),
          if_neg (List.nodup_cons.mp hnodup).1]
      · rw [update_of_ne hne, semPc, semPc]
        simp only [List.mem_cons, hne, false_or]
    simp [threads, hplace, hnext]

/-! ## One owner -/

/-- The thread has the semaphore: it is between its calls, or has been resumed inside the first. -/
def Owns (sem : Semaphore T) (place : T → HeldPc) (t : T) : Prop :=
  place t = .holding ∨ place t = .taking ∧ t ∉ sem.suspendThread

/-- **A semaphore of value one has one owner**, and the threads in its list sleep inside
`rt_sem_take`. -/
structure OneOwner (k : Kernel T M A) (sem : Semaphore T) (place : T → HeldPc) : Prop where
  waits : ∀ t ∈ sem.suspendThread, place t = .taking ∧ (k.thread t).stat = .suspend
  nodup : sem.suspendThread.Nodup
  small : sem.value ≤ 1
  free : 0 < sem.value → ∀ t, ¬sem.Owns place t
  one : ∀ t u, sem.Owns place t → sem.Owns place u → t = u

/-- What happens elsewhere leaves the sleepers asleep. -/
theorem OneOwner.congr (h : OneOwner k sem place)
    (hstat : ∀ t ∈ sem.suspendThread,
      (k.thread t).stat = .suspend → (k'.thread t).stat = .suspend) :
    OneOwner k' sem place :=
  ⟨fun t ht => ⟨(h.waits t ht).1, hstat t ht (h.waits t ht).2⟩, h.nodup, h.small, h.free, h.one⟩

/-- A running thread is not in the list. -/
theorem OneOwner.notMem (h : OneOwner k sem place) (hrun : (k.thread t).stat = .running) :
    t ∉ sem.suspendThread := fun hmem => by
  have := (h.waits t hmem).2
  rw [hrun] at this
  cases this

theorem OneOwner.take (h : OneOwner k sem place) (hout : place t = .outside)
    (hrun : (k.thread t).stat = .running) :
    OneOwner (k.rtSemTake sem t).1 (k.rtSemTake sem t).2.1
      (update place t (if (k.rtSemTake sem t).2.2 then .taking else .holding)) := by
  have hnot : t ∉ sem.suspendThread := h.notMem hrun
  have hne : ∀ u ∈ sem.suspendThread, u ≠ t := fun u hu heq => hnot (heq ▸ hu)
  unfold Kernel.rtSemTake
  by_cases hvalue : 0 < sem.value
  · have hsmall := h.small
    have howner : ∀ u, Owns ⟨sem.suspendThread, sem.value - 1⟩ (update place t .holding) u →
        u = t := fun u hu => by
      by_contra hut
      rw [Owns, update_of_ne hut] at hu
      exact h.free hvalue u hu
    simp only [hvalue, if_true, Bool.false_eq_true, if_false]
    refine ⟨fun u hu => ?_, h.nodup, by dsimp only; omega, fun hpos => ?_,
      fun u v hu hv => (howner u hu).trans (howner v hv).symm⟩
    · rw [update_of_ne (hne u hu)]
      exact h.waits u hu
    · dsimp only at hpos
      omega
  · have howner : ∀ u, Owns ⟨sem.suspendThread ++ [t], sem.value⟩ (update place t .taking) u →
        sem.Owns place u := fun u hu => by
      rcases eq_or_ne u t with rfl | hut
      · simp [Owns] at hu
      · simpa [Owns, hut] using hu
    simp only [hvalue, if_false, if_true]
    refine ⟨fun u hu => ?_, ?_, h.small, fun hpos => absurd hpos hvalue,
      fun u v hu hv => h.one u v (howner u hu) (howner v hv)⟩
    · rw [Kernel.rtThreadSuspend_stat]
      rcases List.mem_append.mp hu with hu | hu
      · rw [update_of_ne (hne u hu), if_neg fun hut => hne u hu hut.1]
        exact h.waits u hu
      · rw [List.mem_singleton.mp hu, update_self, if_pos ⟨rfl, .inr hrun⟩]
        exact ⟨rfl, rfl⟩
    · exact List.nodup_append.mpr ⟨h.nodup, List.nodup_singleton t, fun u hu v hv heq =>
        hne u hu (heq.trans (List.mem_singleton.mp hv))⟩

/-- The thread goes on behind `rt_schedule`, with the semaphore. -/
theorem OneOwner.goOn (h : OneOwner k sem place) (htake : place t = .taking)
    (hrun : (k.thread t).stat = .running) : OneOwner k sem (update place t .holding) := by
  have hnot : t ∉ sem.suspendThread := h.notMem hrun
  have howner : ∀ u, sem.Owns (update place t .holding) u → sem.Owns place u := fun u hu => by
    rcases eq_or_ne u t with rfl | hut
    · exact .inr ⟨htake, hnot⟩
    · rwa [Owns, update_of_ne hut] at hu
  refine ⟨fun u hu => ?_, h.nodup, h.small, fun hpos u hu => h.free hpos u (howner u hu),
    fun u v hu hv => h.one u v (howner u hu) (howner v hv)⟩
  have hut : u ≠ t := fun heq => hnot (heq ▸ hu)
  rw [update_of_ne hut]
  exact h.waits u hu

theorem OneOwner.release (h : OneOwner k sem place) (hhold : place t = .holding) :
    OneOwner (k.rtSemRelease sem).1 (k.rtSemRelease sem).2 (update place t .outside) := by
  have hne : ∀ u ∈ sem.suspendThread, u ≠ t := fun u hu heq => by
    have := (h.waits u hu).1
    rw [heq, hhold] at this
    cases this
  have hother : ∀ u, u ≠ t → ¬sem.Owns place u := fun u hut hu =>
    hut (h.one u t hu (.inl hhold))
  have hzero : sem.value = 0 :=
    Nat.eq_zero_of_not_pos fun hpos => h.free hpos t (.inl hhold)
  obtain ⟨list, value⟩ := sem
  obtain rfl : value = 0 := hzero
  unfold Kernel.rtSemRelease
  cases list with
  | nil =>
    have howner : ∀ u, ¬Owns ⟨[], 1⟩ (update place t .outside) u := fun u hu => by
      rcases eq_or_ne u t with rfl | hut
      · simp [Owns] at hu
      · exact hother u hut (by simpa [Owns, hut] using hu)
    show OneOwner k ⟨[], 1⟩ (update place t .outside)
    exact ⟨fun u hu => (List.not_mem_nil hu).elim, List.nodup_nil, Nat.le_refl 1, fun _ => howner,
      fun u _ hu => absurd hu (howner u)⟩
  | cons w rest =>
    -- the first of the list has the semaphore now
    have howner : ∀ u, Owns ⟨rest, 0⟩ (update place t .outside) u → u = w := fun u hu => by
      rcases eq_or_ne u t with rfl | hut
      · simp [Owns] at hu
      · by_contra huw
        apply hother u hut
        simpa [Owns, hut, huw] using hu
    obtain ⟨hfirst, hnodup⟩ := List.nodup_cons.mp h.nodup
    refine ⟨fun u hu => ?_, hnodup, Nat.zero_le 1, fun hpos => absurd hpos (Nat.lt_irrefl 0),
      fun u v hu hv => (howner u hu).trans (howner v hv).symm⟩
    have hmem : u ∈ w :: rest := List.mem_cons_of_mem w hu
    have huw : u ≠ w := fun heq => hfirst (heq ▸ hu)
    dsimp only
    rw [update_of_ne (hne u hmem), Kernel.rtThreadResume_stat, if_neg fun hw => huw hw.1]
    exact h.waits u hmem

end Semaphore

/-! ## The rest of the system -/

section Frame

variable {τ : Type} [DecidableEq τ] {cfg : Config τ} {s s' : State τ} {e : Event τ}

/-- A thread other than the server that sleeps outside its program is woken by no event of the
system. -/
theorem step_suspended (hI : SystemInv s) (h : step cfg s e = some s') {t : Tid} (ht : t ≠ .server)
    (hpc : s.pc t = .run []) (hown : ∀ choice, e ≠ .thread t choice) :
    s'.pc t = .run [] ∧
      ((s.k.thread t).stat = .suspend → (s'.k.thread t).stat = .suspend) := by
  refine (run_invariant (fun x : Threads Tid Lock AppTimer => LockInv x ∧ x.pc t = .run [] ∧
    ((s.k.thread t).stat = .suspend → (x.k.thread t).stat = .suspend)) ?_ ⟨hI.locks, hpc, id⟩
    (step_calls h)).2
  rintro c hc x x' ⟨hL, hpc, hstat⟩ hcall
  have horigin := origin_of_mem hc
  refine ⟨hL.call hcall, (Threads.call_pc_of_ne hcall ?_ ?_).trans hpc, fun hs =>
    hL.stays_suspended hcall (hstat hs) hpc ?_⟩
  · rintro rfl
    obtain ⟨choice, he⟩ := horigin
    exact hown choice he
  · rintro prog rfl
    obtain ⟨choice, he⟩ := horigin
    exact hown choice he
  · rintro rfl
    exact ht horigin.1

/-- The shell has no statement in the system. -/
theorem step_idle (h : step cfg s e = some s') (choice : Nat) : e ≠ .thread .idle choice := by
  rintro rfl
  cases step_cases h with
  | load t _ ht => simp at ht
  | act t _ ht => simp at ht

end Frame

/-! ## The start of the application -/

namespace Boot

/-- Where `main` and the shell are, seen from the heap. -/
def heldPc (b : Boot) : Tid → HeldPc
  | .main =>
    match b.pc with
    | .inSemTake _ => .taking
    | .malloc _ | .semRelease _ _ => .holding
    | _ => .outside
  | .idle =>
    match b.shellPc with
    | .outside => .outside
    | .inSemTake => .taking
    | .inside => .holding
  | _ => .outside

variable {b b' : Boot} {cfg : Config Task} {priority : Tid → ℕ} {t u : Tid} {e : BootEvent}

/-- What holds in every state of every run: one owner, and a state that the semaphore by itself
reaches. -/
structure HeapInv (priority : Tid → ℕ) (b : Boot) : Prop where
  system : SystemInv b.sys
  main : b.pc ≠ .done → b.sys.pc .main = .run []
  shell : b.sys.pc .idle = .run []
  owner : b.heapSem.OneOwner b.sys.k b.heldPc
  reached : ∃ acquired released, Reach SemThreads.step (fun _ _ => True)
    (SemThreads.init .fifo 1 priority) (b.heapSem.threads b.heldPc priority acquired released)

/-- Who is not outside is `main` before it is done, or the shell. -/
theorem heldPc_of_taking (h : b.heldPc t = .taking) : t = .main ∧ b.pc ≠ .done ∨ t = .idle := by
  cases t with
  | main =>
    refine .inl ⟨rfl, fun hdone => ?_⟩
    rw [heldPc, hdone] at h
    cases h
  | idle => exact .inr rfl
  | server | producer | consumer => cases h

/-- An event of the system does not wake those who wait for the semaphore. -/
theorem HeapInv.sys {sys' : State Task} {e : Event Task} (h : b.HeapInv priority)
    (hs : OsesProject.step cfg b.sys e = some sys')
    (hmain : ∀ choice, e = .thread .main choice → b.pc = .done) :
    HeapInv priority { b with sys := sys' } := by
  have hshell := step_suspended h.system hs (t := .idle) (by simp) h.shell (step_idle hs)
  have hbefore : b.pc ≠ .done → sys'.pc .main = .run [] ∧
      ((b.sys.k.thread .main).stat = .suspend → (sys'.k.thread .main).stat = .suspend) :=
    fun hpc => step_suspended h.system hs (by simp) (h.main hpc)
      fun choice he => hpc (hmain choice he)
  refine ⟨h.system.step hs, fun hpc => (hbefore hpc).1, hshell.1,
    h.owner.congr fun t ht hstat => ?_, h.reached⟩
  rcases heldPc_of_taking (h.owner.waits t ht).1 with ⟨rfl, hpc⟩ | rfl
  · exact (hbefore hpc).2 hstat
  · exact hshell.2 hstat

/-- A statement that leaves the semaphore, the system and the places alone. -/
theorem HeapInv.moved (h : b.HeapInv priority) (hsys : b'.sys = b.sys)
    (hsem : b'.heapSem = b.heapSem) (hplace : b'.heldPc = b.heldPc)
    (hdone : b.pc = .done → b'.pc = .done) : b'.HeapInv priority where
  system := hsys ▸ h.system
  main hpc := hsys ▸ h.main (mt hdone hpc)
  shell := hsys ▸ h.shell
  owner := by
    rw [hsys, hsem, hplace]
    exact h.owner
  reached := by
    rw [hsem, hplace]
    exact h.reached

/-- `main` or the shell takes the semaphore, or begins to wait for it. -/
theorem HeapInv.take (h : b.HeapInv priority) (hout : b.heldPc t = .outside)
    (hrun : (b.sys.k.thread t).stat = .running)
    (hsys : b'.sys = { b.sys with k := (b.sys.k.rtSemTake b.heapSem t).1 })
    (hsem : b'.heapSem = (b.sys.k.rtSemTake b.heapSem t).2.1)
    (hplace : b'.heldPc = update b.heldPc t
      (if (b.sys.k.rtSemTake b.heapSem t).2.2 then .taking else .holding))
    (hdone : b.pc = .done → b'.pc = .done) : b'.HeapInv priority where
  system := by
    rw [hsys]
    unfold Kernel.rtSemTake
    split
    · exact h.system
    · exact h.system.call (c := .suspend t) rfl (by simp)
  main hpc := by
    rw [hsys]
    exact h.main (mt hdone hpc)
  shell := by
    rw [hsys]
    exact h.shell
  owner := by
    rw [hsys, hsem, hplace]
    exact h.owner.take hout hrun
  reached := by
    obtain ⟨acquired, released, hreach⟩ := h.reached
    obtain ⟨acquired', htake⟩ :=
      Semaphore.threads_take b.sys.k b.heapSem priority acquired released hout
    refine ⟨acquired', released, ?_⟩
    rw [hsem, hplace, ← htake]
    exact hreach.tail (e := .take t (-1)) trivial
      (if_pos (Semaphore.semPc_of_ne (by rw [hout]; simp)))

/-- `main` or the shell goes on behind `rt_schedule`. -/
theorem HeapInv.goOn (h : b.HeapInv priority) (htake : b.heldPc t = .taking)
    (hrun : (b.sys.k.thread t).stat = .running) (hsys : b'.sys = b.sys)
    (hsem : b'.heapSem = b.heapSem) (hplace : b'.heldPc = update b.heldPc t .holding)
    (hdone : b.pc = .done → b'.pc = .done) : b'.HeapInv priority where
  system := hsys ▸ h.system
  main hpc := hsys ▸ h.main (mt hdone hpc)
  shell := hsys ▸ h.shell
  owner := by
    rw [hsys, hsem, hplace]
    exact h.owner.goOn htake hrun
  reached := by
    obtain ⟨acquired, released, hreach⟩ := h.reached
    have hnot : t ∉ b.heapSem.suspendThread := h.owner.notMem hrun
    have hpc : Semaphore.semPc b.heapSem.suspendThread b.heldPc t = .resumed false := by
      rw [Semaphore.semPc, if_pos htake, if_neg hnot]
    have hout : Semaphore.semPc b.heapSem.suspendThread (update b.heldPc t .holding) =
        update (Semaphore.semPc b.heapSem.suspendThread b.heldPc) t .outside := by
      rw [Semaphore.semPc_update fun _ _ => Iff.rfl, Semaphore.semPc_of_ne (by simp)]
    refine ⟨acquired, released, ?_⟩
    rw [hsem, hplace]
    refine hreach.tail (e := .goOn t) trivial ?_
    simp only [SemThreads.step, Semaphore.threads, hpc, hout]

/-- `main` or the shell gives the semaphore back. -/
theorem HeapInv.release (h : b.HeapInv priority) (hhold : b.heldPc t = .holding)
    (hsys : b'.sys = { b.sys with k := (b.sys.k.rtSemRelease b.heapSem).1 })
    (hsem : b'.heapSem = (b.sys.k.rtSemRelease b.heapSem).2)
    (hplace : b'.heldPc = update b.heldPc t .outside)
    (hdone : b.pc = .done → b'.pc = .done) : b'.HeapInv priority where
  system := by
    rw [hsys]
    unfold Kernel.rtSemRelease
    split
    · next u rest _ => exact h.system.call (c := .resume u) rfl (by simp)
    · split <;> exact h.system
  main hpc := by
    rw [hsys]
    exact h.main (mt hdone hpc)
  shell := by
    rw [hsys]
    exact h.shell
  owner := by
    rw [hsys, hsem, hplace]
    exact h.owner.release hhold
  reached := by
    obtain ⟨acquired, released, hreach⟩ := h.reached
    obtain ⟨acquired', released', hrelease⟩ :=
      Semaphore.threads_release b.sys.k b.heapSem priority acquired released hhold h.owner.nodup
        fun u hu => (h.owner.waits u hu).1
    refine ⟨acquired', released', ?_⟩
    rw [hsem, hplace, ← hrelease]
    exact hreach.tail (e := .release) trivial rfl

/-- A statement of `main` moves `main` only, -/
theorem heldPc_main {p : HeldPc} (hshell : b'.shellPc = b.shellPc) (hp : b'.heldPc .main = p) :
    b'.heldPc = update b.heldPc .main p := by
  refine eq_update_iff.mpr ⟨hp, fun t ht => ?_⟩
  cases t with
  | main => exact absurd rfl ht
  | idle => simp only [heldPc, hshell]
  | server | producer | consumer => rfl

/-- and one of the shell the shell. -/
theorem heldPc_shell {p : HeldPc} (hpc : b'.pc = b.pc) (hp : b'.heldPc .idle = p) :
    b'.heldPc = update b.heldPc .idle p := by
  refine eq_update_iff.mpr ⟨hp, fun t ht => ?_⟩
  cases t with
  | idle => exact absurd rfl ht
  | main => simp only [heldPc, hpc]
  | server | producer | consumer => rfl

/-- A statement of `main`. -/
theorem HeapInv.mainStep {found : Bool} (h : b.HeapInv priority) (hruns : b.Runs .main)
    (hstep : b.mainStep found = some b') : b'.HeapInv priority := by
  have hrun := hruns.2.2
  unfold Boot.mainStep at hstep
  have stays : ∀ {b' : Boot}, b'.shellPc = b.shellPc → b'.heldPc .main = b.heldPc .main →
      b'.heldPc = b.heldPc := fun hshell heq => by
    rw [heldPc_main hshell heq, update_eq_self]
  cases hpc : b.pc with
  | enable x =>
    simp only [hpc] at hstep
    cases hstep
    exact h.moved rfl rfl (stays rfl (by cases x <;> simp [heldPc, hpc])) (by simp [hpc])
  | semTake x =>
    simp only [hpc] at hstep
    cases hstep
    refine h.take (t := .main) (by simp [heldPc, hpc]) hrun rfl rfl ?_ (by simp [hpc])
    refine heldPc_main rfl ?_
    dsimp only [heldPc]
    cases (b.sys.k.rtSemTake b.heapSem .main).2.2 <;> rfl
  | inSemTake x =>
    simp only [hpc] at hstep
    cases hstep
    exact h.goOn (t := .main) (by simp [heldPc, hpc]) hrun rfl rfl (heldPc_main rfl rfl)
      (by simp [hpc])
  | malloc x =>
    simp only [hpc] at hstep
    cases hstep
    exact h.moved rfl rfl (stays rfl (by simp [heldPc, hpc])) (by simp [hpc])
  | semRelease x found =>
    simp only [hpc] at hstep
    cases hstep
    exact h.release (t := .main) (by simp [heldPc, hpc]) rfl rfl (heldPc_main rfl rfl)
      (by simp [hpc])
  | assign x found =>
    simp only [hpc] at hstep
    split at hstep
    · cases hstep
      exact h.moved rfl rfl (stays rfl (by cases x <;> simp [heldPc, hpc])) (by simp [hpc])
    · cases hstep
      exact h.moved rfl rfl (stays rfl (by simp [heldPc, hpc])) (by simp [hpc])
  | failed =>
    simp only [hpc] at hstep
    cases hstep
    have hplace : heldPc { b with
        sys := { b.sys with k := b.sys.k.rtThreadExit .main }, pc := .exited } = b.heldPc :=
      stays rfl (by simp [heldPc, hpc])
    refine ⟨h.system.call (c := .exit .main) (if_pos hruns.2) (by simp),
      fun _ => h.main (by simp [hpc]), h.shell, ?_, ?_⟩
    · rw [hplace]
      refine h.owner.congr fun t ht hstat => ?_
      have hne : t ≠ .main := fun heq => h.owner.notMem hrun (heq ▸ ht)
      simpa [Kernel.rtThreadExit, hne] using hstat
    · rw [hplace]
      exact h.reached
  | exited | done =>
    simp only [hpc] at hstep
    cases hstep

/-- A statement of the shell. -/
theorem HeapInv.shellStep (h : b.HeapInv priority) (hruns : b.Runs .idle) :
    b.shellStep.HeapInv priority := by
  have hrun := hruns.2.2
  unfold Boot.shellStep
  cases hpc : b.shellPc with
  | outside =>
    refine h.take (t := .idle) (by simp [heldPc, hpc]) hrun rfl rfl ?_ id
    refine heldPc_shell rfl ?_
    dsimp only [heldPc]
    cases (b.sys.k.rtSemTake b.heapSem .idle).2.2 <;> rfl
  | inSemTake =>
    exact h.goOn (t := .idle) (by simp [heldPc, hpc]) hrun rfl rfl (heldPc_shell rfl rfl) id
  | inside =>
    exact h.release (t := .idle) (by simp [heldPc, hpc]) rfl rfl (heldPc_shell rfl rfl) id

/-- **Every step keeps it.** -/
theorem HeapInv.step (h : b.HeapInv priority) (hstep : Boot.step cfg b e = some b') :
    b'.HeapInv priority := by
  cases e with
  | sys e =>
    obtain ⟨sys', hs, rfl, hmain⟩ := step_sys hstep
    exact h.sys hs hmain
  | main found =>
    simp only [Boot.step] at hstep
    split at hstep
    · next hruns => exact h.mainStep hruns hstep
    · cases hstep
  | shell =>
    simp only [Boot.step] at hstep
    split at hstep
    · next hruns =>
      cases hstep
      exact h.shellStep hruns
    · cases hstep

theorem start_heapInv (cfg : Config Task) (priority : Tid → ℕ) (tick shell : Nat) (inside : Bool) :
    (start cfg tick shell inside).HeapInv priority where
  system := start_systemInv cfg tick shell inside
  main _ := rfl
  shell := rfl
  owner := by
    have howner : ∀ t, (start cfg tick shell inside).heapSem.Owns
        (start cfg tick shell inside).heldPc t → inside = true ∧ t = .idle := fun t ht => by
      cases inside <;> cases t <;> simp_all [Semaphore.Owns, heldPc, start]
    refine ⟨fun t ht => (List.not_mem_nil ht).elim, List.nodup_nil, ?_, fun hpos t ht => ?_,
      fun t u ht hu => (howner t ht).2.trans (howner u hu).2.symm⟩
    · cases inside
      · exact Nat.le_refl 1
      · exact Nat.zero_le 1
    · rw [(howner t ht).1] at hpos
      exact absurd hpos (Nat.lt_irrefl 0)
  reached := by
    have hplace : Semaphore.semPc [] (start cfg tick shell inside).heldPc = fun _ => .outside := by
      funext t
      cases inside <;> cases t <;> rfl
    cases inside with
    | false =>
      refine ⟨[], 0, ?_⟩
      rw [Semaphore.threads, show (start cfg tick shell false).heapSem.suspendThread = [] from rfl,
        hplace]
      exact .refl
    | true =>
      -- the shell has taken it
      refine ⟨[.idle], 0, ?_⟩
      rw [Semaphore.threads, show (start cfg tick shell true).heapSem.suspendThread = [] from rfl,
        hplace]
      exact .tail (e := .take .idle (-1)) .refl trivial rfl

theorem heapInv_of_reach (priority : Tid → ℕ) {tick shell : Nat} {inside : Bool}
    {ok : Boot → BootEvent → Prop}
    (hreach : Reach (Boot.step cfg) ok (start cfg tick shell inside) b) : b.HeapInv priority :=
  hreach.invariant (HeapInv priority) (start_heapInv cfg priority tick shell inside)
    fun _ _ _ h _ hstep => h.step hstep

end Boot

open Boot in
/-- **The semaphore of the heap is one of `SemThreads`.** In every state of every run of `main`, the
server, the shell, the buttons and the tick interrupt, it is as `rt_sem_take`, `rt_sem_release` and
the threads that go on behind them leave a semaphore that starts with one. -/
theorem heapSem_refines (cfg : Config Task) (priority : Tid → ℕ) (tick shell : Nat) (inside : Bool)
    {ok : Boot → BootEvent → Prop} {b : Boot}
    (hreach : Reach (Boot.step cfg) ok (start cfg tick shell inside) b) :
    ∃ acquired released, Reach SemThreads.step (fun _ _ => True)
      (SemThreads.init .fifo 1 priority) (b.heapSem.threads b.heldPc priority acquired released) :=
  (heapInv_of_reach priority hreach).reached

open Boot in
/-- **`main` and the shell are never inside the heap's functions at once**, in any run: of the
threads that have taken its semaphore and not given it back there is one at most. -/
theorem heap_exclusive (cfg : Config Task) (tick shell : Nat) (inside : Bool)
    {ok : Boot → BootEvent → Prop} {b : Boot}
    (hreach : Reach (Boot.step cfg) ok (start cfg tick shell inside) b) {t u : Tid}
    (ht : b.heapSem.Owns b.heldPc t) (hu : b.heapSem.Owns b.heldPc u) : t = u :=
  (heapInv_of_reach (fun _ => 0) hreach).owner.one t u ht hu

open BootEvent in
/-- The shell is inside `rt_malloc` when `main` takes the semaphore, and gives it back while `main`
waits. -/
def handedOver : List BootEvent :=
  [main true, main true, main true, sys (.switch .idle), shell]

open Boot in
/-- `main` has the semaphore before it goes on, and the shell has it no longer. -/
theorem heap_exclusive_handedOver :
    ∃ b, run (Boot.step (board fun _ => 0)) (start (board fun _ => 0) 0 20 true) handedOver =
        some b ∧
      b.pc = .inSemTake .raw ∧ b.heapSem.Owns b.heldPc .main ∧ ¬b.heapSem.Owns b.heldPc .idle := by
  have hrun : ((run (Boot.step (board fun _ => 0)) (start (board fun _ => 0) 0 20 true)
      handedOver).map fun b => (b.pc, b.heapSem.suspendThread)) = some (.inSemTake .raw, []) := by
    decide +kernel
  obtain ⟨b, hb, hd⟩ := Option.map_eq_some_iff.mp hrun
  obtain ⟨hpc, hlist⟩ := Prod.mk.inj hd
  have hmain : b.heapSem.Owns b.heldPc .main := by
    refine .inr ⟨by simp [heldPc, hpc], ?_⟩
    rw [hlist]
    exact List.not_mem_nil
  have hreach : Reach (Boot.step (board fun _ => 0)) (fun _ _ => True)
      (start (board fun _ => 0) 0 20 true) b :=
    .of_each .refl (Each.of_forall (fun _ _ _ => trivial) _) hb
  refine ⟨b, hb, hpc, hmain, fun hidle => ?_⟩
  have heq := heap_exclusive (board fun _ => 0) 0 20 true hreach hmain hidle
  cases heq

end OsesProject
