import OsesProject.Laws.Queue
import OsesProject.Laws.Exclusion

/-!
# Mutual exclusion of the shared data

The producer, the consumer and the server's tasks use the readings and the results under
`raw_mutex` and `bench_mutex`. `Exclusive` is kept by every call that resumes no thread inside a
take, and the only thread the application resumes is the server, when its test for an empty queue
succeeds. While the server is inside a task the task is pending, so with the queue in order the
test fails there, and the server is never woken inside `rt_mutex_take`: `sharedData_exclusive`.

With the queue out of order it can be. A task inserted while it is pending stays the first node of
the queue after its removal, pointing at itself; the test then succeeds in the middle of a task, and
the woken server goes on as if it had the mutex (`sharedData_two_inside`).
-/

namespace OsesProject

open Machine

variable {τ : Type} [DecidableEq τ] {cfg : Config τ} {s s' : State τ} {e : Event τ}

/-- With a queue in order the server is outside its tasks when the test for an empty queue
succeeds. -/
theorem QueueInv.idle_of_isempty (hQ : QueueInv s) (hI : SystemInv s) (he : s.isempty = true) :
    s.pc .server = .run [] := by
  refine hI.idle fun n hn => ?_
  exact hQ.pending_of_task hn (hQ.isempty_iff.mp he)

/-- A step keeps mutual exclusion as long as the queue is in order. -/
theorem Exclusive.step (hX : Exclusive s.threads) (hI : SystemInv s) (hQ : QueueInv s)
    (h : OsesProject.step cfg s e = some s') (hper : ¬RunsPeriod s e) :
    Exclusive s'.threads := by
  by_cases hres : ∃ t, .resume t ∈ calls cfg s e
  · -- an insertion into an empty queue: its one call resumes the server, which is idle
    obtain ⟨t, hres⟩ := hres
    obtain ⟨rfl, hempty, hins⟩ := origin_of_mem hres
    have hins := hins.resolve_right hper
    have hrun := step_calls h
    have hcalls : calls cfg s e = [.resume .server] := by
      cases e with
      | press b => simp [calls, hempty]
      | insert a => simp [calls, hempty]
      | _ => exact absurd rfl hins
    rw [hcalls] at hrun
    have hcall : s.threads.call (.resume .server) = some s'.threads := by
      simpa [run_cons] using hrun
    refine hX.call hI.locks hcall ?_
    intro t m todo ht
    cases ht
    show s.pc .server ≠ _
    rw [hQ.idle_of_isempty hI hempty]
    simp
  · refine (run_invariant (fun x => LockInv x ∧ Exclusive x) ?_ ⟨hI.locks, hX⟩
      (step_calls h)).2
    intro c hc x x' hx hcall
    refine ⟨hx.1.call hcall, hx.2.call hx.1 hcall ?_⟩
    rintro t m todo rfl
    exact absurd ⟨t, hc⟩ hres

theorem afterInit_exclusive (cfg : Config τ) (caller tick : Nat) :
    Exclusive (afterInit cfg caller tick).threads where
  inside := by
    intro t m hm
    cases hm
  asked := by
    intro t m todo ht
    cases ht

/-- **The shared data is used by one thread at a time.** In every state reached by a run of the
board whose presses insert no pending task: a thread between the return of its take of a mutex and
its release owns the mutex, so there is at most one; and no insertion whatever wakes the server
while it is inside `rt_mutex_take`. -/
theorem sharedData_exclusive (cfg : Config τ) (caller tick : Nat)
    (hreach : Reach (step cfg) (fun s e => e.OnBoard ∧ InsertsFresh cfg s e)
      (afterInit cfg caller tick) s) :
    (∀ t m, m ∈ (s.pc t).inside → (s.k.mutex m).owner = some t) ∧
    (∀ t u m, m ∈ (s.pc t).inside → m ∈ (s.pc u).inside → t = u) ∧
    (∀ a m todo, s.pc .server = .inTake m todo →
      (s.rtThreadDeferrableInsertTask a).k = s.k) := by
  have hinv := hreach.invariant (fun s => SystemInv s ∧ QueueInv s ∧ Exclusive s.threads)
    ⟨initial_systemInv cfg caller tick _ _, afterInit_queueInv cfg caller tick,
      afterInit_exclusive cfg caller tick⟩ ?_
  · obtain ⟨hI, hQ, hX⟩ := hinv
    refine ⟨hX.inside, fun t u m ht hu => hX.unique ht hu, ?_⟩
    intro a m todo hpc
    have hempty : s.isempty = false := by
      by_contra he
      have := hQ.idle_of_isempty hI (by simpa using he)
      rw [hpc] at this
      cases this
    simp [State.rtThreadDeferrableInsertTask, hempty]
  · rintro s e s' ⟨hI, hQ, hX⟩ ⟨he, hfresh⟩ h
    have hper := hI.not_runsPeriod he
    exact ⟨hI.step h, hQ.step hI h hfresh hper, hX.step hI hQ h hper⟩

/-- The producer's first reading, and a press while it sleeps inside it. -/
theorem sharedData_exclusive_startUp :
    ∃ s, run (step (board fun _ => 0)) (afterInit (board fun _ => 0) mainPriority 0)
        (startUp ++ [.press .raw]) = some s ∧
      .raw ∈ (s.pc .producer).inside ∧ (s.k.mutex .raw).owner = some .producer := by
  have hrun : ((run (step (board fun _ => 0)) (afterInit (board fun _ => 0) mainPriority 0)
      (startUp ++ [.press .raw])).map fun s => decide (.raw ∈ (s.pc .producer).inside)) =
      some true := by decide +kernel
  obtain ⟨s, hs, hin⟩ := Option.map_eq_some_iff.mp hrun
  have hin := of_decide_eq_true hin
  have hreach : Reach (step (board fun _ => 0))
      (fun s e => e.OnBoard ∧ InsertsFresh (board fun _ => 0) s e)
      (afterInit (board fun _ => 0) mainPriority 0) s :=
    Reach.of_each .refl (by decide +kernel) hs
  exact ⟨s, hs, hin, (sharedData_exclusive _ mainPriority 0 hreach).1 .producer .raw hin⟩

open Event in
/-- A run in which the button is pressed three times while the producer is in its reading, and
twice more after the server has run the first of the three tasks. -/
def fivePresses : List (Event Task) :=
  let act (t : Tid) (n : Nat) : List (Event Task) := List.replicate n (thread t 0)
  startUp ++ [press .raw, press .raw, press .raw, switch .server] ++
    -- the server begins the first task and waits for the producer's reading
    act .server 7 ++ [switch .consumer] ++ act .consumer 2 ++ [switch .idle] ++
    (List.replicate 9 [tick, checked]).flatten ++ [tick, expire, switch .producer, checked] ++
    -- the producer hands over, and waits in turn for its next reading
    act .producer 4 ++ [switch .server] ++ act .server 8 ++ [switch .producer] ++
    act .producer 16 ++ [switch .server] ++ act .server 6 ++
    -- the queue tests as empty now: the fourth press makes the server begin the first task again
    [switch .idle, press .raw, switch .server] ++ act .server 7 ++
    -- and the fifth wakes it inside its take
    [press .raw, thread .server 0]

/-- Five presses bring the producer and the server into their critical sections at once. -/
theorem sharedData_two_inside :
    ∃ s, (∀ e ∈ fivePresses, e.OnBoard) ∧
      Each (step (board fun _ => 0)) Scheduled (afterInit (board fun _ => 0) mainPriority 0)
        fivePresses ∧
      run (step (board fun _ => 0)) (afterInit (board fun _ => 0) mainPriority 0) fivePresses =
        some s ∧
      .raw ∈ (s.pc .server).inside ∧ .raw ∈ (s.pc .producer).inside ∧
      (s.k.mutex .raw).owner = some .producer := by
  have hrun : ((run (step (board fun _ => 0)) (afterInit (board fun _ => 0) mainPriority 0)
      fivePresses).map fun s => decide (.raw ∈ (s.pc .server).inside ∧
        .raw ∈ (s.pc .producer).inside ∧ (s.k.mutex .raw).owner = some .producer)) =
      some true := by decide +kernel
  obtain ⟨s, hs, hin⟩ := Option.map_eq_some_iff.mp hrun
  exact ⟨s, by decide, by decide +kernel, hs, of_decide_eq_true hin⟩

end OsesProject
