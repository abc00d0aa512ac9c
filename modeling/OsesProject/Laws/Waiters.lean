import OsesProject.Laws.Actions
import OsesProject.Laws.Calls
import OsesProject.Lib.Fifo

/-!
# Who gets a mutex next

The list of the threads that wait for a mutex is a queue (`RT_IPC_FLAG_FIFO`): a thread joins it at
the end when its take has to wait, a release gives the mutex to its head, and a thread that is
resumed or timed out leaves it from wherever it stands (`call_waiters`). With the general law of
queues: a waiting thread sees the mutex change hands at most once for each thread ahead of it.
-/

set_option linter.unusedSectionVars false

namespace OsesProject

open Machine

variable {T M A : Type} [DecidableEq T] [DecidableEq M] [DecidableEq A]

namespace Threads

variable {x x' : Threads T M A} {t : T} {m : M}

/-- Whoever is woken, the list loses at most that thread. -/
theorem rtThreadResume_waiters (k : Kernel T M A) (t : T) (m : M) :
    ((k.rtThreadResume t).mutex m).suspendThread.Sublist (k.mutex m).suspendThread := by
  rw [Kernel.rtThreadResume_mutex]
  split
  · exact List.filter_sublist
  · exact List.Sublist.refl _

/-- A call that is no action of a thread lets threads leave the list of a mutex, and none join. -/
theorem call_waiters {c : Call T M A} (hc : x.call c = some x') (hact : ∀ t, c ≠ .act t) (m : M) :
    (x'.k.mutex m).suspendThread.Sublist (x.k.mutex m).suspendThread := by
  have same : ∀ {k' : Kernel T M A}, k'.mutex = x.k.mutex →
      (k'.mutex m).suspendThread.Sublist (x.k.mutex m).suspendThread := by
    intro k' hm
    rw [hm]
  cases c with
  | act t => exact absurd rfl (hact t)
  | load t prog =>
    simp only [call] at hc
    split at hc
    · cases hc
      exact same rfl
    · cases hc
  | resume t =>
    cases hc
    exact rtThreadResume_waiters x.k t m
  | suspend t =>
    cases hc
    exact same (by simp)
  | startup t =>
    obtain ⟨k', hk, rfl⟩ := Option.map_eq_some_iff.mp hc
    unfold Kernel.rtThreadStartup at hk
    split at hk
    · cases hk
      exact rtThreadResume_waiters _ t m
    · cases hk
  | exit t =>
    simp only [call] at hc
    split at hc
    · cases hc
      exact same rfl
    · cases hc
  | control t priority =>
    cases hc
    exact same rfl
  | timeout t =>
    simp only [call] at hc
    split at hc
    · obtain ⟨k', hk, rfl⟩ := Option.map_eq_some_iff.mp hc
      unfold Kernel.rtThreadTimeout at hk
      split at hk
      · cases hk
        simp only [Kernel.rtScheduleInsertThread, Kernel.rtListRemoveTlist, setThread_mutex,
          Kernel.rtTimerTakeOff_mutex]
        exact List.filter_sublist
      · cases hk
    · cases hc
  | schedule t =>
    obtain ⟨k', hk, rfl⟩ := Option.map_eq_some_iff.mp hc
    exact same (Kernel.rtScheduleTo_frame hk).1
  | tick =>
    cases hc
    exact same rfl
  | timerStart a =>
    obtain ⟨k', hk, rfl⟩ := Option.map_eq_some_iff.mp hc
    exact same (Kernel.rtTimerStart_frame hk).2.2.1
  | timerStop a =>
    cases hc
    exact same (by simp)
  | timerSetTime a time =>
    cases hc
    exact same rfl
  | timerTakeOff a =>
    cases hc
    exact same (by simp)
  | timerRearm a =>
    obtain ⟨k', hk, rfl⟩ := Option.map_eq_some_iff.mp hc
    exact same (Kernel.rtTimerRearm_frame hk).2.2.1

/-- What an action of a thread does to the list of a mutex on which somebody waits: the thread joins
it, or its head becomes the owner, or nothing. -/
theorem act_waiters (hI : LockInv x) {p : Pc M} {k' : Kernel T M A} {xs : List T}
    (hrun : (x.k.thread t).stat = .running) (hk : x.k.actStep t (x.pc t) = some (p, k'))
    (hxs : (x.k.mutex m).suspendThread = xs) (hne : xs ≠ []) :
    ((k'.mutex m).owner = (x.k.mutex m).owner ∧
        ((k'.mutex m).suspendThread = xs ∨ (k'.mutex m).suspendThread = xs ++ [t])) ∨
      ∃ u us, xs = u :: us ∧ (k'.mutex m).suspendThread = us := by
  have same : k'.mutex m = x.k.mutex m → ((k'.mutex m).owner = (x.k.mutex m).owner ∧
        ((k'.mutex m).suspendThread = xs ∨ (k'.mutex m).suspendThread = xs ++ [t])) ∨
      ∃ u us, xs = u :: us ∧ (k'.mutex m).suspendThread = us := by
    intro hm
    rw [hm]
    exact .inl ⟨rfl, .inl hxs⟩
  cases hI.acted hrun hk with
  | taken n todo hpc hp hown hmutex _ =>
    by_cases hmn : m = n
    · subst hmn
      exact absurd (hxs.symm.trans (hI.free m hown).2.2) hne
    · exact same (by rw [hmutex, if_neg hmn])
  | blocked n o todo hpc hp hown hmutex _ =>
    by_cases hmn : m = n
    · subst hmn
      rw [hmutex, if_pos rfl]
      exact .inl ⟨rfl, .inr (by rw [hxs])⟩
    · exact same (by rw [hmutex, if_neg hmn])
  | handed n u us todo hpc hp hown hw hmutex _ =>
    by_cases hmn : m = n
    · subst hmn
      rw [hmutex, if_pos rfl]
      exact .inr ⟨u, us, hxs.symm.trans hw, rfl⟩
    · exact same (by rw [hmutex, if_neg hmn])
  | freed n todo hpc hp hown hw hmutex _ =>
    by_cases hmn : m = n
    · subst hmn
      exact absurd (hxs.symm.trans hw) hne
    · exact same (by rw [hmutex, if_neg hmn])
  | refused n todo hpc hp hown hmutex _ => exact same (by rw [hmutex])
  | slept tick todo hpc hp hk' hmutex _ => exact same (by rw [hmutex])
  | returned _ hp hmutex _ => exact same (by rw [hmutex])

/-- The call gives the mutex another owner. -/
def changesHands (m : M) (x : Threads T M A) (c : Call T M A) : Bool :=
  match x.call c with
  | none => false
  | some x' => decide ((x'.k.mutex m).owner ≠ (x.k.mutex m).owner)

/-- **Waiters are served in order.** In every run, while a thread waits for a mutex, the mutex
changes hands at most as many times as there are threads ahead of it on the list: every one of these
gets it once at most, and no thread that asked later. -/
theorem mutex_overtaking {cs : List (Call T M A)} (hI : LockInv x)
    (hrun : run Threads.call x cs = some x')
    (hwaits : Always Threads.call (fun x => t ∈ (x.k.mutex m).suspendThread) x cs) :
    count Threads.call (changesHands m) x cs ≤ (x.k.mutex m).suspendThread.idxOf t := by
  refine And.left (overtaking
    (fun (x : Threads T M A) xs => LockInv x ∧ (x.k.mutex m).suspendThread = xs)
    (fun x _ => (x.k.mutex m).suspendThread ≠ []) (fun _ _ => False)
    (fun x => t ∈ (x.k.mutex m).suspendThread) ?_ ?_ ?_ ⟨hI, rfl⟩ ?_ hrun hwaits
    (by simp))
  · rintro x xs ⟨hI, rfl⟩
    exact hI.nodup m
  · rintro x xs ⟨-, rfl⟩ ht
    exact ht
  · rintro x c x' xs ⟨hI, hxs⟩ hne hc
    refine ⟨_, ⟨hI.call hc, rfl⟩, ?_⟩
    by_cases hact : ∃ u, c = .act u
    · obtain ⟨u, rfl⟩ := hact
      have hcall := hc
      simp only [call] at hcall
      split at hcall
      · next hg =>
        obtain ⟨⟨p, k'⟩, hk, rfl⟩ := Option.map_eq_some_iff.mp hcall
        rw [hxs] at hne
        rcases act_waiters hI hg.2 hk hxs hne with ⟨hown, hlist⟩ | ⟨v, us, rfl, hlist⟩
        · refine ⟨?_, fun hC => ?_⟩
          · rcases hlist with hlist | hlist
            · rw [hlist]
              exact Moved.refl _ _
            · rw [hlist]
              refine Moved.join (List.Sublist.refl _) fun hmem => ?_
              have := (hI.waits u m (hxs ▸ hmem)).2.1
              rw [hg.2] at this
              cases this
          · rw [changesHands, hc] at hC
            exact absurd hown (of_decide_eq_true hC)
        · refine ⟨?_, fun _ => ⟨v, us, rfl, ?_⟩⟩
          · rw [hlist]
            exact Moved.of_sublist (List.sublist_cons_self v us)
          · rw [hlist]
            have hnd := hI.nodup m
            rw [hxs, List.nodup_cons] at hnd
            exact hnd.1
      · cases hcall
    · have hact : ∀ u, c ≠ .act u := fun u hu => hact ⟨u, hu⟩
      refine ⟨?_, fun hC => ?_⟩
      · rw [← hxs]
        exact Moved.of_sublist (call_waiters hc hact m)
      · rw [changesHands, hc] at hC
        exact absurd (call_mutex hc hact m).1 (of_decide_eq_true hC)
  · clear hI hrun
    induction cs generalizing x with
    | nil => trivial
    | cons c cs ih =>
      exact ⟨List.ne_nil_of_mem hwaits.1, fun x₁ hx₁ => ih (hwaits.2 x₁ hx₁)⟩

/-- Two threads, the first one running and the second one ready, and a free mutex. -/
def twoThreads : Threads Bool Unit Unit where
  k :=
    { thread := fun t => ⟨.eok, if t then .ready else .running, 3, 3⟩
      current := false
      mutex := fun _ => ⟨[], 1, 0xff, 0, none⟩
      timer := fun _ => ⟨0, 0, false, false⟩
      timerList := []
      tick := 0 }
  pc := fun _ => .run []

theorem twoThreads_locks : LockInv twoThreads where
  nested := fun _ => rfl
  distinct := fun _ => List.nodup_nil
  inTake := nofun
  owner_mem := nofun
  waits := by simp [twoThreads]
  nodup := fun _ => List.nodup_nil
  free := fun _ _ => ⟨rfl, rfl, rfl⟩
  held := nofun
  sleeps := by simp [twoThreads]
  listed := by simp [twoThreads]

/-- The first thread takes the mutex, and the second one has to wait for it. -/
def secondWaits : List (Call Bool Unit Unit) :=
  [.load false [.take (), .release ()], .load true [.take (), .release ()], .act false,
    .schedule true, .act true]

theorem mutex_overtaking_second : ∃ x, run Threads.call twoThreads secondWaits = some x ∧
    count Threads.call (changesHands ()) x [.schedule false, .tick] ≤
      (x.k.mutex ()).suspendThread.idxOf true := by
  have hrun : run Threads.call twoThreads secondWaits = some _ := rfl
  have hI := run_invariant LockInv (fun _ _ _ _ hx hc => hx.call hc) twoThreads_locks hrun
  refine ⟨_, hrun, mutex_overtaking hI rfl ?_⟩
  refine ⟨List.mem_singleton.mpr rfl, fun x' hx' => ?_⟩
  cases hx'
  refine ⟨List.mem_singleton.mpr rfl, fun x' hx' => ?_⟩
  cases hx'
  exact List.mem_singleton.mpr rfl

end Threads

end OsesProject
