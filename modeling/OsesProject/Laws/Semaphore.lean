import OsesProject.Kernel.Semaphore
import OsesProject.Lib.Fifo

/-!
# What a semaphore answers for

In every run, whatever the order of takes, releases and timeouts: the value and the times the
semaphore was given add up to its first value and its releases (`sem_balance`), nobody waits while
the value is not zero, and the list is that of the threads that wait (`sem_no_lost_wakeup`). With
`RT_IPC_FLAG_FIFO` a waiting thread is overtaken by those ahead of it at most (`sem_overtaking`);
with `RT_IPC_FLAG_PRIO` the one resumed first is as urgent as any (`sem_most_urgent`), as long as
nobody changes a priority.
-/

namespace OsesProject

open Machine Function

namespace SemThreads

variable {T : Type} {s s' : SemThreads T} {t : T} {n : ℕ} {e : Event T} {priority : T → ℕ}
  {list : List T} {flag : IpcFlag}

/-! ## The list -/

theorem insertByPriority_perm : (insertByPriority priority t list).Perm (t :: list) := by
  induction list with
  | nil => exact .refl _
  | cons s list ih =>
    rw [insertByPriority]
    split
    · exact .refl _
    · exact (ih.cons s).trans (.swap t s list)

theorem rtIpcListSuspend_perm : (rtIpcListSuspend flag priority list t).Perm (t :: list) := by
  cases flag with
  | fifo => exact List.perm_append_singleton t list
  | prio => exact insertByPriority_perm

/-- A list in the order of priorities stays so. -/
theorem insertByPriority_sorted (hsorted : list.Pairwise fun a b => priority a ≤ priority b) :
    (insertByPriority priority t list).Pairwise fun a b => priority a ≤ priority b := by
  induction list with
  | nil => exact List.pairwise_singleton _ _
  | cons s list ih =>
    obtain ⟨hhead, htail⟩ := List.pairwise_cons.mp hsorted
    rw [insertByPriority]
    split
    · next hlt =>
      refine List.pairwise_cons.mpr ⟨fun b hb => ?_, hsorted⟩
      rcases List.mem_cons.mp hb with rfl | hb
      · exact Nat.le_of_lt hlt
      · exact (Nat.le_of_lt hlt).trans (hhead b hb)
    · next hge =>
      refine List.pairwise_cons.mpr ⟨fun b hb => ?_, ih htail⟩
      rcases List.mem_cons.mp (insertByPriority_perm.subset hb) with rfl | hb
      · exact Nat.le_of_not_lt hge
      · exact hhead b hb

/-! ## The invariant -/

/-- What every state of a run satisfies, from the first value `n` on. -/
structure SemInv (n : ℕ) (s : SemThreads T) : Prop where
  balance : s.value + s.acquired.length = n + s.released
  idle : s.suspendThread ≠ [] → s.value = 0
  nodup : s.suspendThread.Nodup
  waits : ∀ t, t ∈ s.suspendThread ↔ ∃ timer, s.pc t = .suspended timer
  fits : n ≤ 0xffff → s.value ≤ 0xffff

theorem init_semInv (flag : IpcFlag) (n : ℕ) (priority : T → ℕ) :
    SemInv n (init flag n priority) := by
  refine ⟨rfl, fun h => absurd rfl h, List.nodup_nil, fun t => ?_, id⟩
  refine iff_of_false List.not_mem_nil ?_
  rintro ⟨timer, h⟩
  cases h

variable [DecidableEq T]

/-- `rt_sem_take` of a thread that is not in it. -/
theorem SemInv.take (hs : SemInv n s) (ht : s.pc t = .outside) (time : ℤ) :
    SemInv n (s.rtSemTake t time) := by
  have hnot : t ∉ s.suspendThread := fun hmem => by
    obtain ⟨timer, hpc⟩ := (hs.waits t).mp hmem
    rw [ht] at hpc
    cases hpc
  unfold rtSemTake
  split
  · next hvalue =>
    have hbalance := hs.balance
    refine ⟨?_, fun h => ?_, hs.nodup, hs.waits, fun hn => ?_⟩
    · dsimp only
      rw [List.length_append, List.length_singleton]
      omega
    · have := hs.idle h
      omega
    · exact (Nat.sub_le _ _).trans (hs.fits hn)
  · next hvalue =>
    split
    · exact hs
    · refine ⟨hs.balance, fun _ => by dsimp only; omega, ?_, fun v => ?_, hs.fits⟩
      · exact rtIpcListSuspend_perm.nodup_iff.mpr (List.nodup_cons.mpr ⟨hnot, hs.nodup⟩)
      · dsimp only
        rw [rtIpcListSuspend_perm.mem_iff, List.mem_cons, hs.waits]
        rcases eq_or_ne v t with rfl | hne
        · exact iff_of_true (.inl rfl) ⟨_, update_self _ _ _⟩
        · rw [update_of_ne hne]
          exact or_iff_right hne

/-- A thread leaves the list, resumed. -/
theorem SemInv.waits_erase {timedOut : Bool} (hs : SemInv n s) (v : T) :
    v ∈ s.suspendThread.erase t ↔
      ∃ timer, update s.pc t (.resumed timedOut) v = .suspended timer := by
  rw [hs.nodup.mem_erase_iff, hs.waits]
  rcases eq_or_ne v t with rfl | hne
  · refine iff_of_false (fun h => h.1 rfl) ?_
    rintro ⟨timer, h⟩
    rw [update_self] at h
    cases h
  · rw [update_of_ne hne]
    exact and_iff_right hne

theorem SemInv.release (hs : SemInv n s) : SemInv n s.rtSemRelease := by
  have hbalance := hs.balance
  unfold rtSemRelease
  split
  · next t list hlist =>
    have hidle := hs.idle (by rw [hlist]; exact List.cons_ne_nil t list)
    have herase : s.suspendThread.erase t = list := by rw [hlist, List.erase_cons_head]
    refine ⟨?_, fun _ => hidle, ?_, fun v => ?_, hs.fits⟩
    · dsimp only
      rw [List.length_append, List.length_singleton]
      omega
    · exact herase ▸ hs.nodup.erase t
    · exact herase ▸ hs.waits_erase v
  · next hlist =>
    split
    · next hsmall =>
      exact ⟨by dsimp only; omega, fun h => absurd hlist h, hs.nodup, hs.waits, fun _ => hsmall⟩
    · exact hs

theorem SemInv.step (hs : SemInv n s) (h : s.step e = some s') : SemInv n s' := by
  cases e with
  | take t time =>
    rw [SemThreads.step] at h
    split at h
    · next ht =>
      cases h
      exact hs.take ht time
    · cases h
  | release =>
    cases h
    exact hs.release
  | timeout t =>
    rw [SemThreads.step] at h
    split at h
    · cases h
      refine ⟨hs.balance, fun h => hs.idle fun hnil => h ?_, hs.nodup.erase t,
        fun v => hs.waits_erase v, hs.fits⟩
      rw [hnil]
      rfl
    · cases h
  | goOn t =>
    rw [SemThreads.step] at h
    split at h
    · next timedOut hpc =>
      cases h
      refine ⟨hs.balance, hs.idle, hs.nodup, fun v => ?_, hs.fits⟩
      dsimp only
      rw [hs.waits]
      rcases eq_or_ne v t with rfl | hne
      · rw [update_self, hpc]
        constructor <;> (rintro ⟨timer, h⟩; cases h)
      · rw [update_of_ne hne]
    · cases h
  | changePriority t priority =>
    cases h
    exact ⟨hs.balance, hs.idle, hs.nodup, hs.waits, hs.fits⟩

theorem semInv_of_reach {ok : SemThreads T → Event T → Prop}
    (h : Reach step ok (init flag n priority) s) : SemInv n s :=
  h.invariant _ (init_semInv flag n priority) fun _ _ _ hs _ hstep => hs.step hstep

/-- **In every run of a semaphore** its value and the times it was given add up to the first value
and the releases, nobody waits while the value is not zero, and the list is that of the threads that
wait. A semaphore that starts with one is given at most once more than it is released. -/
theorem sem_run_valid {ok : SemThreads T → Event T → Prop}
    (h : Reach step ok (init flag n priority) s) :
    s.value + s.acquired.length = n + s.released ∧ (s.suspendThread ≠ [] → s.value = 0) ∧
      s.suspendThread.Nodup ∧ (∀ t, t ∈ s.suspendThread ↔ ∃ timer, s.pc t = .suspended timer) ∧
      (n ≤ 0xffff → s.value ≤ 0xffff) ∧ (n = 1 → s.acquired.length ≤ s.released + 1) := by
  have hs := semInv_of_reach h
  have hbalance := hs.balance
  exact ⟨hbalance, hs.idle, hs.nodup, hs.waits, hs.fits, fun hn => by omega⟩

/-- Two threads take the semaphore of the heap: the second one waits until it is released. -/
def heapSections : List (Event Bool) := [.take true (-1), .take false (-1), .release]

theorem sem_run_valid_heap :
    ∃ s, run step (init .fifo 1 fun _ => 3) heapSections = some s ∧ s.acquired = [true, false] ∧
      s.acquired.length ≤ s.released + 1 := by
  have hrun : run step (init .fifo 1 fun _ => 3) heapSections = some _ := rfl
  have hreach : Reach step (fun _ _ => True) _ _ :=
    .of_each .refl (Each.of_forall (fun _ _ _ => trivial) _) hrun
  exact ⟨_, hrun, rfl, (sem_run_valid hreach).2.2.2.2.2 rfl⟩

/-! ## The order -/

/-- What a step does to the list: threads leave it, or one joins at the place of its flag. -/
theorem step_list (h : s.step e = some s') :
    s'.flag = s.flag ∧
      (s'.suspendThread.Sublist s.suspendThread ∨ ∃ t, s'.suspendThread =
        rtIpcListSuspend s.flag s.currentPriority s.suspendThread t) ∧
      ((∀ t p, e ≠ .changePriority t p) → s'.currentPriority = s.currentPriority) := by
  cases e with
  | take t time =>
    rw [step] at h
    split at h
    · cases h
      unfold rtSemTake
      split
      · exact ⟨rfl, .inl (.refl _), fun _ => rfl⟩
      · split
        · exact ⟨rfl, .inl (.refl _), fun _ => rfl⟩
        · exact ⟨rfl, .inr ⟨t, rfl⟩, fun _ => rfl⟩
    · cases h
  | release =>
    cases h
    unfold rtSemRelease
    split
    · next t list hlist => exact ⟨rfl, .inl (hlist ▸ List.sublist_cons_self t list), fun _ => rfl⟩
    · split <;> exact ⟨rfl, .inl (.refl _), fun _ => rfl⟩
  | timeout t =>
    rw [step] at h
    split at h <;> cases h
    exact ⟨rfl, .inl List.erase_sublist, fun _ => rfl⟩
  | goOn t =>
    rw [step] at h
    split at h <;> cases h
    exact ⟨rfl, .inl (.refl _), fun _ => rfl⟩
  | changePriority t priority =>
    cases h
    exact ⟨rfl, .inl (.refl _), fun hne => absurd rfl (hne t priority)⟩

/-- While a thread waits, each time the semaphore is given the thread moves up, and it never moves
back. -/
theorem SemInv.moves_up (hs : SemInv n s) (hflag : s.flag = .fifo) (h : s.step e = some s')
    (ht : t ∈ s.suspendThread) (ht' : t ∈ s'.suspendThread) :
    s'.acquired.length + s'.suspendThread.idxOf t ≤
      s.acquired.length + s.suspendThread.idxOf t := by
  have hidle := hs.idle (List.ne_nil_of_mem ht)
  cases e with
  | take u time =>
    rw [SemThreads.step] at h
    split at h
    · cases h
      unfold rtSemTake
      rw [if_neg (by omega), hflag]
      split
      · exact Nat.le_refl _
      · refine Nat.add_le_add_left (Nat.le_of_eq ?_) _
        exact List.idxOf_append_of_mem ht
    · cases h
  | release =>
    cases h
    unfold rtSemRelease at ht' ⊢
    split at ht'
    · next u list hlist =>
      have hnodup := hs.nodup
      rw [hlist] at hnodup
      have hne : u ≠ t := by
        rintro rfl
        exact (List.nodup_cons.mp hnodup).1 ht'
      rw [hlist, List.idxOf_cons_ne _ hne]
      dsimp only
      rw [List.length_append, List.length_singleton]
      omega
    · next hlist =>
      rw [hlist] at ht
      cases ht
  | timeout u =>
    rw [SemThreads.step] at h
    split at h <;> cases h
    exact Nat.add_le_add_left (Moved.idxOf_le_of_sublist List.erase_sublist hs.nodup ht') _
  | goOn u =>
    rw [SemThreads.step] at h
    split at h <;> cases h
    exact Nat.le_refl _
  | changePriority u priority =>
    cases h
    exact Nat.le_refl _

/-- **First come, first served**: with `RT_IPC_FLAG_FIFO`, while a thread waits the semaphore is
given at most as often as there are threads ahead of it. -/
theorem sem_overtaking {ok : SemThreads T → Event T → Prop} {es : List (Event T)}
    (h : Reach step ok (init .fifo n priority) s) (hrun : run step s es = some s')
    (hwaits : Always step (fun s => t ∈ s.suspendThread) s es) :
    s'.acquired.length ≤ s.acquired.length + s.suspendThread.idxOf t := by
  have hs := semInv_of_reach h
  have hflag : s.flag = .fifo := h.invariant (fun s : SemThreads T => s.flag = .fifo) rfl
    fun _ _ _ hx _ hstep => (step_list hstep).1.trans hx
  clear h
  induction es generalizing s with
  | nil =>
    cases hrun
    exact Nat.le_add_right _ _
  | cons e es ih =>
    rw [run_cons, Option.bind_eq_some_iff] at hrun
    obtain ⟨x, hx, hrun⟩ := hrun
    have hrest := ih hrun (hwaits.2 x hx) (hs.step hx) ((step_list hx).1.trans hflag)
    have hfirst := hs.moves_up hflag hx hwaits.1 (hwaits.2 x hx).start
    omega

/-- Three threads wait, the last one first. -/
def waitInLine : List (Event (ℕ)) := [.take 2 (-1), .take 0 (-1), .take 1 (-1)]

theorem sem_overtaking_line :
    ∃ s s', run step (init .fifo 0 fun t : ℕ => t) waitInLine = some s ∧
      run step s [.release, .release] = some s' ∧ s'.acquired = [2, 0] ∧
      s'.acquired.length ≤ s.acquired.length + s.suspendThread.idxOf 1 := by
  have hrun : run step (init .fifo 0 fun t : ℕ => t) waitInLine = some _ := rfl
  have hreach : Reach step (fun _ _ => True) _ _ :=
    .of_each .refl (Each.of_forall (fun _ _ _ => trivial) _) hrun
  have hrun' : run step
      { flag := .fifo, value := 0, suspendThread := [2, 0, 1], currentPriority := fun t : ℕ => t,
        pc := update (update (update (fun _ => .outside) 2 (.suspended false)) 0 (.suspended false))
          1 (.suspended false), acquired := [], released := 0 }
      [.release, .release] = some _ := rfl
  refine ⟨_, _, hrun, hrun', rfl, sem_overtaking hreach hrun' ?_⟩
  refine ⟨by decide, fun x hx => ?_⟩
  cases hx
  refine ⟨by decide, fun x hx => ?_⟩
  cases hx
  show (1 : ℕ) ∈ [1]
  decide

/-- **The most urgent first**: with `RT_IPC_FLAG_PRIO`, when nobody changes a priority, the thread
that a release resumes is as urgent as any that waits. -/
theorem sem_most_urgent (h : Reach step (fun _ e => ∀ t p, e ≠ .changePriority t p)
      (init .prio n priority) s) (hlist : s.suspendThread = t :: list) :
    s.rtSemRelease.acquired = s.acquired ++ [t] ∧ s.rtSemRelease.suspendThread = list ∧
      ∀ u ∈ list, priority t ≤ priority u := by
  have hsorted : s.flag = .prio ∧ s.currentPriority = priority ∧
      s.suspendThread.Pairwise fun a b => priority a ≤ priority b := by
    refine h.invariant (fun s : SemThreads T => s.flag = .prio ∧ s.currentPriority = priority ∧
      s.suspendThread.Pairwise fun a b => priority a ≤ priority b) ⟨rfl, rfl, .nil⟩ ?_
    rintro x e y ⟨hflag, hpriority, hsorted⟩ hok hstep
    obtain ⟨hflag', hlist, hpriority'⟩ := step_list hstep
    refine ⟨hflag'.trans hflag, (hpriority' hok).trans hpriority, ?_⟩
    rcases hlist with hsub | ⟨t, hjoins⟩
    · exact hsorted.sublist hsub
    · rw [hjoins, hflag, hpriority]
      exact insertByPriority_sorted hsorted
  unfold rtSemRelease
  rw [hlist] at hsorted ⊢
  exact ⟨rfl, rfl, (List.pairwise_cons.mp hsorted.2.2).1⟩

theorem sem_most_urgent_line :
    ∃ s : SemThreads (ℕ), run step (init .prio 0 fun t : ℕ => t) waitInLine = some s ∧
      s.suspendThread = [0, 1, 2] ∧ s.rtSemRelease.acquired = [0] := by
  have hrun : run step (init .prio 0 fun t : ℕ => t) waitInLine = some _ := rfl
  have heach : Each step (fun _ e => ∀ t p, e ≠ .changePriority t p)
      (init .prio 0 fun t : ℕ => t) waitInLine := by
    refine Each.of_forall (fun e he _ t p heq => ?_) _
    subst heq
    simp [waitInLine] at he
  exact ⟨_, hrun, rfl, (sem_most_urgent (.of_each .refl heach hrun) rfl).1⟩

end SemThreads

end OsesProject
