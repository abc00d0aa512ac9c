import OsesProject.Laws.System
import OsesProject.Laws.Priority
import OsesProject.Application.Procedure

/-!
# How long a demotion lasts

The capacity callback sets the server's current priority. When the server owns no mutex this is its
base priority, and nothing that the threads do with the mutexes changes it until the next period:
`demotion_lasts`. When the server owns a mutex, the priority recorded with the outermost one is its
base priority still, and the release of that mutex puts it back: `demotion_undone`.
-/

set_option linter.unusedSectionVars false

namespace OsesProject

open Machine

variable {τ : Type} [DecidableEq τ] {cfg : Config τ} {s s' : State τ} {e : Event τ}

/-- The mutexes the tasks use: `raw_mutex`, `bench_mutex` and the lock of the SPI bus. -/
def taskLocks : List Lock := [.raw, .bench, .spi]

/-- The server owns none of the mutexes the tasks use. -/
def OwnsNone (s : State τ) : Prop := ∀ m ∈ taskLocks, (s.k.mutex m).owner ≠ some .server

instance (s : State τ) : Decidable (OwnsNone s) := by
  unfold OwnsNone
  infer_instance

/-- While it is demoted the server's base priority is the one the capacity callback set. -/
structure DemotionInv (cfg : Config τ) (s : State τ) : Prop where
  system : SystemInv s
  avoids : .release .i2c ∉ (s.pc .server).todo
  initDone : s.mainPc ≠ .startup ∧ s.mainPc ≠ .suspendServer
  base : s.demoted = true → s.threads.basePriority .server = demotedPriority cfg

/-- A step that executes neither callback keeps the server's base priority. -/
theorem step_basePriority (hI : SystemInv s) (hmain : s.mainPc ≠ .startup)
    (h : step cfg s e = some s') (hcap : ¬RunsCapacity s e) (hper : ¬RunsPeriod s e) :
    s'.threads.basePriority .server = s.threads.basePriority .server := by
  refine (run_invariant (fun x => LockInv x ∧
    x.basePriority .server = s.threads.basePriority .server) ?_ ⟨hI.locks, rfl⟩
    (step_calls h)).2
  intro c hc x x' hx hcall
  have hctl := not_controls_server hc hmain hcap hper
  exact ⟨hx.1.call hcall, (Threads.call_basePriority hx.1 hcall hctl).trans hx.2⟩

/-- The capacity callback makes its priority the base priority of a server that owns no mutex, and
leaves the base priority of another. -/
theorem step_capacity_basePriority (h : step cfg s e = some s') (hcap : RunsCapacity s e) :
    s'.threads.basePriority .server =
      if s.threads.owned .server = [] then demotedPriority cfg
      else s.threads.basePriority .server := by
  obtain ⟨hm, hth, hpc⟩ := step_capacity h hcap
  rw [← Threads.basePriority_control (x := s.threads) (t := Tid.server) (demotedPriority cfg)]
  exact Threads.basePriority_frame hpc (congrFun hm) (congrFun hth _)

namespace DemotionInv

/-- A server that owns none of the mutexes the tasks use owns none at all. -/
theorem owned_eq_nil (hD : DemotionInv cfg s) (hnone : OwnsNone s) :
    s.threads.owned .server = [] := by
  refine Threads.owned_eq_nil fun m hown => ?_
  cases m with
  | i2c => exact hD.avoids (mem_stackOf (hD.system.locks.owner_mem .server .i2c hown))
  | raw => exact hnone .raw (by decide) hown
  | bench => exact hnone .bench (by decide) hown
  | spi => exact hnone .spi (by decide) hown

/-- One step, for tasks that do not use the other bus. -/
theorem step (hD : DemotionInv cfg s) (h : OsesProject.step cfg s e = some s')
    (hbody : ∀ a c, .release .i2c ∉ cfg.body a c)
    (hok : RunsCapacity s e → s.demoted = true ∨ OwnsNone s) : DemotionInv cfg s' := by
  refine ⟨hD.system.step h, ?_, step_initDone h hD.initDone, fun hd => ?_⟩
  · by_cases hsrv : ∃ choice, e = .thread .server choice
    · obtain ⟨choice, rfl⟩ := hsrv
      cases step_cases h with
      | server _ _ _ _ hstep =>
        cases hstep with
        | call a => simpa [Pc.todo] using hbody a choice
        | act n hs hpc hk =>
          simpa using fun hmem => hD.avoids ((Kernel.actStep_todo hk).subset hmem)
        | _ => exact hD.avoids
      | load t _ ht => simp at ht
      | act t _ ht => simp at ht
    · rw [(step_server_frame h fun c hc => hsrv ⟨c, hc⟩).1]
      exact hD.avoids
  · obtain ⟨-, hperiod, hsame⟩ := step_demoted h
    by_cases hcap : RunsCapacity s e
    · rw [step_capacity_basePriority h hcap]
      split
      · rfl
      · next hne =>
        rcases hok hcap with hdem | hnone
        · exact hD.base hdem
        · exact absurd (hD.owned_eq_nil hnone) hne
    · by_cases hper : RunsPeriod s e
      · rw [hperiod hcap hper] at hd
        cases hd
      · rw [step_basePriority hD.system hD.initDone.1 h hcap hper]
        exact hD.base ((hsame hcap hper).symm.trans hd)

end DemotionInv

theorem afterInit_demotionInv (cfg : Config τ) (caller tick : Nat) :
    DemotionInv cfg (afterInit cfg caller tick) where
  system := initial_systemInv cfg caller tick _ _
  avoids := List.not_mem_nil
  initDone := ⟨MainPc.noConfusion, MainPc.noConfusion⟩
  base := by
    intro hd
    cases hd

/-- **A demotion of a server that owns no mutex lasts until the next period.** In every run in
which each execution of the capacity callback finds the server without a mutex, or demoted already:
in every state between such an execution and the next period, when the server owns none of
`raw_mutex`, `bench_mutex` and the SPI bus lock, its priority is the one the callback set. -/
theorem demotion_lasts (capacity period priority : Nat) (memory : Nat → UInt8)
    (caller tick : Nat) {s : State Task}
    (hreach : Reach (step (application capacity period priority memory))
      (fun s e => RunsCapacity s e → s.demoted = true ∨ OwnsNone s)
      (afterInit (application capacity period priority memory) caller tick) s)
    (hd : s.demoted = true) (hnone : OwnsNone s) :
    (s.k.thread .server).currentPriority =
      demotedPriority (application capacity period priority memory) := by
  have hD := hreach.invariant (DemotionInv _) (afterInit_demotionInv _ caller tick)
    fun s e s' hD hok h => hD.step h thdFun_avoids_i2c hok
  rw [← hD.base hd, Threads.basePriority_eq (hD.owned_eq_nil hnone)]
  rfl

open Event in
/-- A press of the second button; the server takes `bench_mutex`, or has not taken it yet, when its
capacity of five ticks is used up. Then the consumer runs until it sleeps, and the server goes on
to the end of its task. -/
def fiveTicks (taken : Bool) : List (Event Task) :=
  startUp ++ [press .bench, switch .server] ++
    List.replicate (if taken then 7 else 6) (thread .server 0) ++
    (List.replicate 4 [tick, checked]).flatten ++ [tick, expire, checked, switch .consumer] ++
    List.replicate 2 (thread .consumer 0) ++ [switch .server] ++
    List.replicate (if taken then 7 else 8) (thread .server 0)

/-- The capacity is used up before the task has taken a mutex: the demotion lasts. -/
theorem demotion_lasts_fiveTicks :
    ∃ s, run (step (application 5 205000 17 fun _ => 31))
        (afterInit (application 5 205000 17 fun _ => 31) mainPriority 0) (fiveTicks false) =
          some s ∧
      s.demoted = true ∧ OwnsNone s ∧ (s.k.thread .server).currentPriority = 31 := by
  have hrun : ((run (step (application 5 205000 17 fun _ => 31))
      (afterInit (application 5 205000 17 fun _ => 31) mainPriority 0) (fiveTicks false)).map
        fun s => decide (s.demoted = true ∧ OwnsNone s)) = some true := by decide +kernel
  obtain ⟨s, hs, hd⟩ := Option.map_eq_some_iff.mp hrun
  obtain ⟨hd, hnone⟩ := of_decide_eq_true hd
  have hreach : Reach (step (application 5 205000 17 fun _ => 31))
      (fun s e => RunsCapacity s e → s.demoted = true ∨ OwnsNone s)
      (afterInit (application 5 205000 17 fun _ => 31) mainPriority 0) s :=
    Reach.of_each .refl (by decide +kernel) hs
  exact ⟨s, hs, hd, hnone, demotion_lasts 5 205000 17 (fun _ => 31) mainPriority 0 hreach hd hnone⟩

/-- The capacity is used up inside `bench_mutex`: the release of the mutex undoes the demotion. -/
theorem demotion_undone :
    ∃ s, (∀ e ∈ fiveTicks true, e.OnBoard) ∧
      Each (step (application 5 205000 17 fun _ => 31)) Scheduled
        (afterInit (application 5 205000 17 fun _ => 31) mainPriority 0) (fiveTicks true) ∧
      run (step (application 5 205000 17 fun _ => 31))
        (afterInit (application 5 205000 17 fun _ => 31) mainPriority 0) (fiveTicks true) =
          some s ∧
      s.demoted = true ∧ OwnsNone s ∧
      demotedPriority (application 5 205000 17 fun _ => 31) = 31 ∧
      (s.k.thread .server).currentPriority = 17 := by
  have hrun : ((run (step (application 5 205000 17 fun _ => 31))
      (afterInit (application 5 205000 17 fun _ => 31) mainPriority 0) (fiveTicks true)).map
        fun s => decide (s.demoted = true ∧ OwnsNone s ∧
          demotedPriority (application 5 205000 17 fun _ => 31) = 31 ∧
          (s.k.thread .server).currentPriority = 17)) = some true := by decide +kernel
  obtain ⟨s, hs, hd⟩ := Option.map_eq_some_iff.mp hrun
  exact ⟨s, by decide, by decide +kernel, hs, of_decide_eq_true hd⟩

end OsesProject
