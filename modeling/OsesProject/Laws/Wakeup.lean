import OsesProject.Laws.Queue

/-!
# No lost wake-up

The server tests for an empty queue, stops its timer and suspends itself in three statements, with
the interrupts enabled. A press that comes after the test finds the queue empty and resumes a
server that is not suspended yet, which is an error that nobody looks at; the server then suspends
itself with a task pending (`wakeup_lost`).

This window is the whole of it. When no insertion falls between the test and the suspension, and
none inserts a pending task, a server that has suspended itself has an empty queue
(`wakeup_not_lost`).
-/

namespace OsesProject

open Machine

variable {τ : Type} [DecidableEq τ] {cfg : Config τ} {s s' : State τ} {e : Event τ}

/-- The server has found the queue empty and not suspended itself yet. -/
def InWindow (s : State τ) : Prop := s.serverPc = .stop ∨ s.serverPc = .suspend

/-- The server has suspended itself in its loop and waits to be resumed. -/
def SelfSuspended (s : State τ) : Prop :=
  (s.serverPc = .clear ∨ s.serverPc = .sched) ∧ (s.k.thread .server).stat = .suspend

instance (s : State τ) : Decidable (SelfSuspended s) := by
  unfold SelfSuspended
  infer_instance

/-- A step that is no replenishment, inserts no pending task, and nothing at all in the window. -/
def KeepsWakeup (cfg : Config τ) (s : State τ) (e : Event τ) : Prop :=
  e ≠ .period ∧ InsertsFresh cfg s e ∧ (InWindow s → insertion cfg s e = none)

instance (s : State τ) : Decidable (InWindow s) := by
  unfold InWindow
  infer_instance

instance (cfg : Config τ) (s : State τ) (e : Event τ) : Decidable (KeepsWakeup cfg s e) := by
  unfold KeepsWakeup
  infer_instance

/-- The queue is empty in the window and while the server is suspended by itself. -/
structure WakeupInv (s : State τ) : Prop where
  system : SystemInv s
  queue : QueueInv s
  initDone : s.mainPc ≠ .startup ∧ s.mainPc ≠ .suspendServer
  window : InWindow s → s.pending = []
  suspended : SelfSuspended s → s.pending = []

/-- The two clauses about the queue after a statement of the server. -/
private theorem WakeupInv.server (hW : WakeupInv s) {choice : Nat}
    (hstep : s.ServerStep cfg choice s') :
    (InWindow s' → s'.pending = []) ∧ (SelfSuspended s' → s'.pending = []) := by
  have out : ∀ {p : ServerPc τ}, p ≠ .stop → p ≠ .suspend → s'.serverPc = p → InWindow s' →
      s'.pending = [] := by
    rintro p h₁ h₂ rfl (h | h)
    · exact absurd h h₁
    · exact absurd h h₂
  have awake : ∀ {p : ServerPc τ}, p ≠ .clear → p ≠ .sched → s'.serverPc = p → SelfSuspended s' →
      s'.pending = [] := by
    rintro p h₁ h₂ rfl ⟨h | h, -⟩
    · exact absurd h h₁
    · exact absurd h h₂
  cases hstep with
  | loop hs =>
    have hne : (if s.active = true then ServerPc.fetch else .start : ServerPc τ) ≠ .stop ∧
        (if s.active = true then ServerPc.fetch else .start : ServerPc τ) ≠ .suspend ∧
        (if s.active = true then ServerPc.fetch else .start : ServerPc τ) ≠ .clear ∧
        (if s.active = true then ServerPc.fetch else .start : ServerPc τ) ≠ .sched := by
      cases s.active <;> simp
    exact ⟨out hne.1 hne.2.1 rfl, awake hne.2.2.1 hne.2.2.2 rfl⟩
  | act n hs => exact ⟨out (by simp) (by simp) hs, awake (by simp) (by simp) hs⟩
  | test hs =>
    refine ⟨fun hwin => hW.queue.isempty_iff.mp ?_, ?_⟩
    · by_contra he
      simp [InWindow, he] at hwin
    · rintro ⟨h, -⟩
      cases he : s.isempty <;> simp [he] at h
  | stop hs => exact ⟨fun _ => hW.window (.inl hs), awake (by simp) (by simp) rfl⟩
  | suspend hs => exact ⟨out (by simp) (by simp) rfl, fun _ => hW.window (.inr hs)⟩
  | clear hs =>
    exact ⟨out (by simp) (by simp) rfl, fun hsus => hW.suspended ⟨.inl hs, hsus.2⟩⟩
  | entry | start | setActive | fetch | call | ret | remove | sched =>
    exact ⟨out (by simp) (by simp) rfl, awake (by simp) (by simp) rfl⟩

/-- One step. -/
theorem WakeupInv.step (hW : WakeupInv s) (h : OsesProject.step cfg s e = some s')
    (hok : KeepsWakeup cfg s e) : WakeupInv s' := by
  obtain ⟨hper, hfresh, hwin⟩ := hok
  have hper : ¬RunsPeriod s e := by
    rintro (he | ⟨-, he⟩)
    · exact hper he
    · exact hW.system.not_expired he
  have clauses : (InWindow s' → s'.pending = []) ∧ (SelfSuspended s' → s'.pending = []) := by
    by_cases hsrv : ∃ choice, e = .thread .server choice
    · obtain ⟨choice, rfl⟩ := hsrv
      cases step_cases h with
      | server _ _ _ _ hstep => exact hW.server hstep
      | load t _ ht => simp at ht
      | act t _ ht => simp at ht
    · have hsrv : ∀ choice, e ≠ .thread .server choice := fun c hc => hsrv ⟨c, hc⟩
      obtain ⟨-, hspc, -, -, hrem⟩ := step_server_frame h hsrv
      cases hins : insertion cfg s e with
      | some a =>
        obtain ⟨-, -, hk⟩ := step_insertion h hins
        refine ⟨fun hw => ?_, ?_⟩
        · rw [InWindow, hspc] at hw
          rw [hwin hw] at hins
          cases hins
        · -- the insertion into an empty queue has resumed the server
          rintro ⟨hpc, hs⟩
          rw [hspc] at hpc
          exfalso
          by_cases hsus : (s.k.thread .server).stat = .suspend
          · have hempty := hW.queue.isempty_iff.mpr (hW.suspended ⟨hpc, hsus⟩)
            rw [hk, if_pos hempty, Kernel.rtThreadResume_stat, if_pos ⟨rfl, hsus⟩] at hs
            split at hs <;> cases hs
          · exact hW.system.stays_awake h hsus hsrv hW.initDone.2 hs
      | none =>
        obtain ⟨-, hin⟩ := step_queue_frame h hins hsrv
        have hpend : s'.pending = s.pending := by
          rw [State.pending, hin, hrem]
          rfl
        rw [hpend]
        refine ⟨fun hw => hW.window (by rwa [InWindow, hspc] at hw), ?_⟩
        rintro ⟨hpc, hs⟩
        rw [hspc] at hpc
        refine hW.suspended ⟨hpc, ?_⟩
        by_contra hsus
        exact hW.system.stays_awake h hsus hsrv hW.initDone.2 hs
  exact ⟨hW.system.step h, hW.queue.step hW.system h hfresh hper, step_initDone h hW.initDone,
    clauses.1, clauses.2⟩

/-- **No lost wake-up.** In every state reached by insertions and statements in any order, none of
the insertions of a pending task or between the server's test for an empty queue and its
`rt_thread_suspend`: when the server is suspended by itself, no task is pending and the list is
empty. -/
theorem wakeup_not_lost (cfg : Config τ) (caller tick : Nat)
    (hreach : Reach (step cfg) (KeepsWakeup cfg) (afterInit cfg caller tick) s)
    (hs : SelfSuspended s) : s.pending = [] ∧ (s.heap .asyncTask).next = .asyncTask := by
  have hW := hreach.invariant WakeupInv
    { system := initial_systemInv cfg caller tick _ _
      queue := afterInit_queueInv cfg caller tick
      initDone := ⟨MainPc.noConfusion, MainPc.noConfusion⟩
      window := by
        rintro (h | h) <;> cases h
      suspended := by
        rintro ⟨h | h, -⟩ <;> cases h }
    fun s e s' hW hok h => hW.step h hok
  have hnil := hW.suspended hs
  refine ⟨hnil, ?_⟩
  have hnext := hW.queue.queue.next_eq
  rw [hnil] at hnext
  exact hnext

open Event in
/-- One press of the second button, and the server's run of its task, up to the test for an empty
queue. -/
def onePress : List (Event Task) :=
  startUp ++ [press .bench, switch .server] ++ List.replicate 17 (thread .server 0)

/-- The server's task after one press, and the server suspended behind it. -/
theorem wakeup_after_onePress :
    ∃ s, run (step (board fun _ => 0)) (afterInit (board fun _ => 0) mainPriority 0)
        (onePress ++ List.replicate 2 (.thread .server 0)) = some s ∧
      SelfSuspended s ∧ s.pending = [] := by
  have hrun : ((run (step (board fun _ => 0)) (afterInit (board fun _ => 0) mainPriority 0)
      (onePress ++ List.replicate 2 (.thread .server 0))).map fun s => decide (SelfSuspended s)) =
      some true := by decide +kernel
  obtain ⟨s, hs, hsus⟩ := Option.map_eq_some_iff.mp hrun
  have hsus := of_decide_eq_true hsus
  have hreach : Reach (step (board fun _ => 0)) (KeepsWakeup (board fun _ => 0))
      (afterInit (board fun _ => 0) mainPriority 0) s :=
    Reach.of_each .refl (by decide +kernel) hs
  exact ⟨s, hs, hsus, (wakeup_not_lost _ mainPriority 0 hreach hsus).1⟩

/-- A press of the first button right after the test: the server suspends itself behind it. -/
theorem wakeup_lost :
    ∃ s, (∀ e ∈ onePress ++ [Event.press .raw, .thread .server 0, .thread .server 0], e.OnBoard) ∧
      Each (step (board fun _ => 0)) Scheduled (afterInit (board fun _ => 0) mainPriority 0)
        (onePress ++ [Event.press .raw, .thread .server 0, .thread .server 0]) ∧
      run (step (board fun _ => 0)) (afterInit (board fun _ => 0) mainPriority 0)
        (onePress ++ [Event.press .raw, .thread .server 0, .thread .server 0]) = some s ∧
      SelfSuspended s ∧ s.pending = [.writeRawMemAsync] := by
  have hrun : ((run (step (board fun _ => 0)) (afterInit (board fun _ => 0) mainPriority 0)
      (onePress ++ [Event.press .raw, .thread .server 0, .thread .server 0])).map fun s =>
        decide (SelfSuspended s ∧ s.pending = [.writeRawMemAsync])) = some true := by decide +kernel
  obtain ⟨s, hs, hsus⟩ := Option.map_eq_some_iff.mp hrun
  exact ⟨s, by decide, by decide +kernel, hs, of_decide_eq_true hsus⟩

end OsesProject
