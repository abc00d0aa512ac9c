import OsesProject.Laws.System
import OsesProject.Laws.Priority
import OsesProject.Laws.Deadlines
import OsesProject.Application.Procedure

/-!
# The budget of the server

Each burst of tasks starts `tim_capacity` with the whole capacity and stops it at its end; the
field `capacity_left` is written and never read. So the ticks of a single burst are bounded by the
capacity, and those of two bursts in one period are not (`budget_exceeded`).

`budget_kept` is the bound with everything it takes besides. A burst begins with the budget unused;
the capacity is positive, and the byte the demotion is read from makes the server give way; the
timer expires while the server owns no mutex whose release would undo the demotion, nobody hands
down a priority to the demoted server, and the period callback does not put back the priority of a
burst whose timer has expired. The invariant is that in a burst that is not demoted the timer runs,
and what the server has used and what the timer has left are together at most the capacity.
-/

set_option linter.unusedSectionVars false

namespace OsesProject

open Machine

variable {τ : Type} [DecidableEq τ] {cfg : Config τ} {s s' : State τ} {e : Event τ}

/-! ## The capacity timer -/

/-- What holds of `tim_capacity` in every state, `inCheck` inside the tick interrupt. -/
structure CapacityTimer (capacity : Nat) (inCheck : Bool) (k : Kernel Tid Lock AppTimer) :
    Prop where
  ordered : Ordered k
  pending : inCheck = false → Pending k
  interval : (k.timer (.app .capacity)).initTick = capacity
  oneShot : (k.timer (.app .capacity)).periodic = false
  left : .app .capacity ∈ k.timerList → k.remaining (.app .capacity) ≤ capacity

/-- One call. -/
theorem CapacityTimer.call {capacity : Nat} {inCheck : Bool} {x x' : Threads Tid Lock AppTimer}
    (hT : CapacityTimer capacity inCheck x.k) (hI : LockInv x) {c : Call Tid Lock AppTimer}
    (hc : x.call c = some x') (hpos : 0 < capacity) (hne : c ≠ .tick)
    (hset : ∀ time, c = .timerSetTime .capacity time → time = capacity)
    (hstart : ∀ a, c = .timerStart a ∨ c = .timerRearm a → a = .capacity) :
    CapacityTimer capacity inCheck x'.k := by
  obtain ⟨hper, hinit⟩ := Threads.call_interval hc AppTimer.capacity
  have hinterval : (x'.k.timer (.app .capacity)).initTick = capacity := by
    rcases hinit with hinit | hinit
    · exact hinit.trans hT.interval
    · exact hset _ hinit
  refine ⟨hT.ordered.call hI hc hne, fun hchk => ?_, hinterval, hper.trans hT.oneShot, ?_⟩
  · refine (hT.pending hchk).call hT.ordered hI hc hne fun a ha => ?_
    rw [hstart a ha, hT.interval]
    exact hpos
  · intro hmem
    rcases Threads.call_timerList hI hc hne with hs | ⟨k, i, hs, hk, hi⟩
    · rw [hs.remaining]
      exact hT.left (hs.sublist.subset hmem)
    · obtain ⟨-, hri, hrj⟩ := (hT.ordered.stops hs).start hk
      by_cases hia : .app .capacity = i
      · subst hia
        rw [hri]
        rcases hi with ⟨⟨t, ht⟩, -⟩ | ⟨a, -, -, hsame⟩
        · cases ht
        · rw [hsame, hT.interval]
      · rw [hrj _ hia, hs.remaining]
        exact hT.left (hs.sublist.subset (((Kernel.rtTimerStart_mem hk).mp hmem).resolve_left hia))

/-- **Every step keeps the law of the capacity timer.** -/
theorem CapacityTimer.step (hT : CapacityTimer cfg.capacity s.inCheck s.k) (hI : SystemInv s)
    (hcap : s.capacity = cfg.capacity) (hpos : 0 < cfg.capacity)
    (h : OsesProject.step cfg s e = some s') : CapacityTimer cfg.capacity s'.inCheck s'.k := by
  by_cases htick : e = .tick
  · subst htick
    cases step_cases h with
    | tick hc =>
      have hp := hT.pending hc
      refine ⟨hT.ordered.tickIncrease hp, (by intro hc; cases hc), hT.interval, hT.oneShot, ?_⟩
      intro hmem
      exact (hp.tick_remaining hmem).le.trans ((Nat.sub_le _ _).trans (hT.left hmem))
  · by_cases hchk : e = .checked
    · subst hchk
      cases step_cases h with
      | checked hc he =>
        exact ⟨hT.ordered, fun _ => hT.ordered.pending he, hT.interval, hT.oneShot, hT.left⟩
    · rw [step_inCheck h htick hchk]
      refine (run_invariant
        (fun x => LockInv x ∧ CapacityTimer cfg.capacity s.inCheck x.k) ?_
        ⟨hI.locks, hT⟩ (step_calls h)).2
      intro c hc x x' hx hcall
      have horigin := origin_of_mem hc
      refine ⟨hx.1.call hcall, hx.2.call hx.1 hcall hpos ?_ ?_ ?_⟩
      · rintro rfl
        exact htick horigin
      · rintro time rfl
        exact horigin.2.1.trans hcap
      · rintro a (rfl | rfl)
        · exact horigin.1
        · cases a with
          | capacity => rfl
          | server => exact absurd horigin.2 hI.not_expired

/-- A step that neither moves the tick counter nor operates `tim_capacity` lets it run on. -/
theorem step_runsOn (h : step cfg s e = some s') (htick : e ≠ .tick)
    (hexp : e = .expire → s.k.rtTimerExpired ≠ some (.app .capacity))
    (hsrv : (∃ choice, e = .thread .server choice) → s.serverPc ≠ .start ∧ s.serverPc ≠ .stop) :
    RunsOn .capacity s.k s'.k := by
  refine run_invariant (fun x => RunsOn .capacity s.k x.k) ?_ ⟨rfl, rfl, id⟩ (step_calls h)
  intro c hc x x' hx hcall
  have horigin := origin_of_mem hc
  have hon := Threads.call_runsOn (a := AppTimer.capacity) hcall ?_
  · exact ⟨hon.tick.trans hx.tick, hon.timeout.trans hx.timeout, fun hm => hon.mem (hx.mem hm)⟩
  cases c with
  | tick => exact fun _ => htick horigin
  | timerStart b => exact fun _ => (hsrv horigin.2.2).1 horigin.2.1
  | timerStop b => exact fun _ => (hsrv horigin.2.2).2 horigin.2.1
  | timerTakeOff b =>
    rintro rfl
    exact hexp horigin.1 horigin.2
  | timerRearm b =>
    rintro rfl
    exact hexp horigin.1 horigin.2
  | _ => exact id

/-! ## The priorities of a demoted server -/

/-- The mutex a thread's next action asks for. -/
def nextTake {M : Type} : Pc M → Option M
  | .run (.take m :: _) => some m
  | _ => none

/-- The event asks for a mutex the server owns. -/
def AsksServer (s : State τ) : Event τ → Prop
  | .thread t _ => ∃ m ∈ nextTake (s.pc t), (s.k.mutex m).owner = some .server
  | _ => False

instance (s : State τ) (e : Event τ) : Decidable (AsksServer s e) := by
  cases e with
  | thread t choice =>
    exact decidable_of_iff
      ((nextTake (s.pc t)).any (fun m => decide ((s.k.mutex m).owner = some .server)) = true)
      (by simp only [Option.any_eq_true, decide_eq_true_eq, AsksServer, Option.mem_def])
  | _ => exact .isFalse id

/-- A bound on the server's priorities is kept by every step that executes no callback and asks for
none of its mutexes. -/
theorem step_floor {b : Nat} (hF : s.threads.Floor .server b) (hI : SystemInv s)
    (hmain : s.mainPc ≠ .startup) (h : step cfg s e = some s') (hcap : ¬RunsCapacity s e)
    (hper : ¬RunsPeriod s e) (hasks : ¬AsksServer s e) : s'.threads.Floor .server b := by
  have hctl (c) (hc : c ∈ calls cfg s e) := not_controls_server hc hmain hcap hper
  by_cases hact : ∃ t, .act t ∈ calls cfg s e
  · obtain ⟨t, hmem⟩ := hact
    obtain ⟨hcalls, choice, rfl⟩ := calls_act hmem
    have hrun := step_calls h
    rw [hcalls, run_cons] at hrun
    obtain ⟨x', hcall, hx'⟩ := Option.bind_eq_some_iff.mp hrun
    cases hx'
    refine hF.call hI.locks hcall (hctl _ hmem) ?_
    rintro u m todo hu hpc hown
    cases hu
    have hpc : s.pc t = .run (.take m :: todo) := hpc
    exact hasks ⟨m, by rw [hpc]; rfl, hown⟩
  · refine (run_invariant (fun x => LockInv x ∧ x.Floor .server b) ?_ ⟨hI.locks, hF⟩
      (step_calls h)).2
    intro c hc x x' hx hcall
    refine ⟨hx.1.call hcall, hx.2.call hx.1 hcall (hctl c hc) ?_⟩
    rintro t m todo rfl
    exact absurd ⟨t, hc⟩ hact

/-! ## Bursts -/

/-- The server is in a burst: from the start of `tim_capacity` to its stop. -/
def InBurst (s : State τ) : Prop :=
  match s.serverPc with
  | .setActive | .fetch | .call _ | .task _ | .remove _ | .test => True
  | .loop => s.active = true
  | _ => False

instance (s : State τ) : Decidable (InBurst s) := by
  unfold InBurst
  split <;> infer_instance

/-- The event is the statement that begins a burst. -/
def BeginsBurst (s : State τ) (e : Event τ) : Prop :=
  s.serverPc = .start ∧ ∃ choice, e = .thread .server choice

instance (s : State τ) (e : Event τ) : Decidable (BeginsBurst s e) := by
  unfold BeginsBurst
  have : Decidable (∃ choice, e = .thread .server choice) := by
    cases e with
    | thread t choice =>
      exact decidable_of_iff (t = .server) ⟨fun ht => ⟨choice, by rw [ht]⟩, fun ⟨_, hc⟩ => by
        cases hc; rfl⟩
    | _ => exact .isFalse fun ⟨_, hc⟩ => nomatch hc
  infer_instance

/-- What a step must not do: begin a burst with some of the budget used, expire inside a mutex of
the server, ask a demoted server for a mutex, or put back the priority of a burst whose timer has
expired. -/
def KeepsBudget (s : State τ) (e : Event τ) : Prop :=
  (BeginsBurst s e → s.used = 0 ∨ s.demoted = true) ∧
  (RunsCapacity s e → s.demoted = true ∨ ∀ m, (s.k.mutex m).owner ≠ some .server) ∧
  (AsksServer s e → s.demoted = false) ∧
  (RunsPeriod s e → InBurst s → .app .capacity ∈ s.k.timerList)

instance (s : State τ) (e : Event τ) : Decidable (KeepsBudget s e) := by
  unfold KeepsBudget
  infer_instance

/-- In a burst of a server that is not demoted, `tim_capacity` runs, and has no more left than the
server has not used. -/
structure BurstInv (cfg : Config τ) (s : State τ) : Prop where
  active : InBurst s → s.serverPc ≠ .setActive → s.active = true
  inactive : s.serverPc = .sched → s.active = false
  left : InBurst s → s.demoted = false → .app .capacity ∈ s.k.timerList ∧
    s.used + s.k.remaining (.app .capacity) ≤ cfg.capacity

/-- The invariant of the runs that keep the budget. -/
structure BudgetInv (cfg : Config τ) (s : State τ) : Prop where
  system : SystemInv s
  initDone : s.mainPc ≠ .startup ∧ s.mainPc ≠ .suspendServer
  capacity : s.capacity = cfg.capacity
  timer : CapacityTimer cfg.capacity s.inCheck s.k
  used : s.used ≤ cfg.capacity
  burst : BurstInv cfg s
  floor : s.demoted = true → s.threads.Floor .server (rtThreadPriorityMax - 1)

/-- Being in a burst is a matter of the server's place and of `active`. -/
theorem inBurst_congr (hpc : s'.serverPc = s.serverPc) (ha : s'.active = s.active) :
    InBurst s' ↔ InBurst s := by
  unfold InBurst
  rw [hpc, ha]

/-- A burst goes on while the timer runs on and nothing more is used. -/
private theorem BurstInv.runsOn (hB : BurstInv cfg s) (hin : InBurst s' → InBurst s)
    (hd : s'.demoted = false → s.demoted = false) (hon : RunsOn .capacity s.k s'.k)
    (hused : s'.used ≤ s.used) (hin' : InBurst s') (hd' : s'.demoted = false) :
    .app .capacity ∈ s'.k.timerList ∧
      s'.used + s'.k.remaining (.app .capacity) ≤ cfg.capacity := by
  obtain ⟨hmem, hle⟩ := hB.left (hin hin') (hd hd')
  refine ⟨hon.mem hmem, ?_⟩
  rw [hon.remaining]
  omega

namespace BudgetInv

/-- A statement of the server. -/
private theorem server (hB : BudgetInv cfg s) {choice : Nat}
    (h : OsesProject.step cfg s (.thread .server choice) = some s')
    (hbegin : s.serverPc = .start → s.used = 0 ∨ s.demoted = true) : BurstInv cfg s' := by
  have hon : s.serverPc ≠ .start → s.serverPc ≠ .stop → RunsOn .capacity s.k s'.k := fun h₁ h₂ =>
    step_runsOn h (by simp) (fun he => by cases he) fun _ => ⟨h₁, h₂⟩
  -- a statement inside the burst, and one that ends outside it
  have inside : InBurst s → s.serverPc ≠ .start → s.serverPc ≠ .stop → s'.demoted = s.demoted →
      s'.used = s.used → s'.serverPc ≠ .sched →
      (s'.active = true ∨ s.serverPc ≠ .setActive ∧ s'.active = s.active) → BurstInv cfg s' := by
    intro hin h₁ h₂ hd hu hsched ha
    refine ⟨fun _ _ => ha.elim id fun ⟨hne, ha⟩ => ha.trans (hB.burst.active hin hne),
      fun hpc => absurd hpc hsched, ?_⟩
    exact hB.burst.runsOn (fun _ => hin) (fun hd' => hd ▸ hd') (hon h₁ h₂) hu.le
  have outside : ¬InBurst s' → (s'.serverPc = .sched → s'.active = false) → BurstInv cfg s' :=
    fun hout hsched => ⟨fun hin => absurd hin hout, hsched, fun hin => absurd hin hout⟩
  cases step_cases h with
  | load t _ ht => simp at ht
  | act t _ ht => simp at ht
  | server _ _ _ _ hstep =>
    cases hstep with
    | entry hs => exact outside (by simp [InBurst]) (by simp)
    | loop hs =>
      by_cases ha : s.active = true
      · refine inside ?_ (by simp [hs]) (by simp [hs]) rfl rfl (by simp [ha]) (.inl ha)
        simpa [InBurst, hs] using ha
      · exact outside (by simp [InBurst, ha]) (by simp [ha])
    | start hs hk =>
      refine ⟨fun _ hne => absurd rfl hne, fun hpc => (by cases hpc), fun _ hd => ?_⟩
      refine ⟨(Kernel.rtTimerStart_mem hk).mpr (.inl rfl), ?_⟩
      have hused : s.used = 0 := by
        refine (hbegin hs).resolve_right fun hdem => ?_
        have hd : s.demoted = false := hd
        rw [hdem] at hd
        cases hd
      have hrem := (hB.timer.ordered.start hk).2.1
      rw [hB.timer.interval] at hrem
      simp only [hrem, hused, Nat.zero_add, Nat.le_refl]
    | setActive hs =>
      exact inside (by simp [InBurst, hs]) (by simp [hs]) (by simp [hs]) rfl rfl (by simp)
        (.inl rfl)
    | fetch hs | call a hs | ret n hs | remove n hs =>
      exact inside (by simp [InBurst, hs]) (by simp [hs]) (by simp [hs]) rfl rfl (by simp)
        (.inr ⟨by simp [hs], rfl⟩)
    | act n hs =>
      exact inside (by simp [InBurst, hs]) (by simp [hs]) (by simp [hs]) rfl rfl (by simp [hs])
        (.inr ⟨by simp [hs], rfl⟩)
    | test hs =>
      refine inside (by simp [InBurst, hs]) (by simp [hs]) (by simp [hs]) rfl rfl ?_
        (.inr ⟨by simp [hs], rfl⟩)
      by_cases hempty : s.isempty = true <;> simp [hempty]
    | stop hs => exact outside (by simp [InBurst]) (by simp)
    | suspend hs => exact outside (by simp [InBurst]) (by simp)
    | clear hs => exact outside (by simp [InBurst]) (fun _ => rfl)
    | sched hs => exact outside (by simp [InBurst, hB.burst.inactive hs]) (by simp)

/-- The tick interrupt takes from the budget of a burst what it takes from the timer. -/
private theorem tick (hB : BudgetInv cfg s) (hc : s.inCheck = false) :
    s.rtTickIncrease.used ≤ cfg.capacity ∧ BurstInv cfg s.rtTickIncrease := by
  have hp := hB.timer.pending hc
  have hleft : InBurst s → s.demoted = false → .app .capacity ∈ s.k.timerList ∧
      s.rtTickIncrease.used + s.rtTickIncrease.k.remaining (.app .capacity) ≤ cfg.capacity := by
    intro hin hd
    obtain ⟨hmem, hle⟩ := hB.burst.left hin hd
    have hrem : s.rtTickIncrease.k.remaining (.app .capacity) =
        s.k.remaining (.app .capacity) - 1 := hp.tick_remaining hmem
    have hpos := hp _ hmem
    refine ⟨hmem, ?_⟩
    rw [hrem, State.rtTickIncrease]
    simp only
    split <;> omega
  refine ⟨?_, hB.burst.active, hB.burst.inactive, hleft⟩
  rw [State.rtTickIncrease]
  simp only
  split
  · next hch =>
    -- a demoted server is not charged
    obtain ⟨-, ⟨n, hpc⟩, hprio⟩ := hch
    have hd : s.demoted = false := by
      by_contra hd
      exact absurd hprio (Nat.not_lt.mpr (hB.floor (by simpa using hd)).current)
    have hin : InBurst s := by simp [InBurst, hpc]
    obtain ⟨hmem, hle⟩ := hB.burst.left hin hd
    have hpos := hp _ hmem
    omega
  · exact hB.used

/-- The bound on the priorities of a demoted server. -/
private theorem floor_step (hB : BudgetInv cfg s) (h : OsesProject.step cfg s e = some s')
    (hok : KeepsBudget s e) (hmem : rtThreadPriorityMax - 1 ≤ demotedPriority cfg)
    (hd : s'.demoted = true) : s'.threads.Floor .server (rtThreadPriorityMax - 1) := by
  obtain ⟨-, hexpires, hasks, -⟩ := hok
  obtain ⟨-, hperiod, hsame⟩ := step_demoted h
  by_cases hcap : RunsCapacity s e
  · obtain ⟨hm, hth, -⟩ := step_capacity h hcap
    refine ⟨?_, fun m hown => ?_⟩
    · show _ ≤ (s'.k.thread .server).currentPriority
      rw [hth, Kernel.rtThreadChangePriority_priority, if_pos rfl]
      exact hmem
    · have hown : (s.k.mutex m).owner = some .server := hm ▸ hown
      show _ ≤ (s'.k.mutex m).originalPriority
      rw [hm]
      exact (hB.floor ((hexpires hcap).resolve_right fun hnone => hnone m hown)).recorded m hown
  · by_cases hper : RunsPeriod s e
    · rw [hperiod hcap hper] at hd
      cases hd
    · have hd : s.demoted = true := (hsame hcap hper).symm.trans hd
      refine step_floor (hB.floor hd) hB.system hB.initDone.1 h hcap hper fun ha => ?_
      rw [hasks ha] at hd
      cases hd

/-- **Every step that keeps the budget keeps the invariant.** -/
theorem step (hB : BudgetInv cfg s) (h : OsesProject.step cfg s e = some s')
    (hok : KeepsBudget s e) (hpos : 0 < cfg.capacity)
    (hmem : rtThreadPriorityMax - 1 ≤ demotedPriority cfg) : BudgetInv cfg s' := by
  have hspent : s'.used ≤ cfg.capacity ∧ BurstInv cfg s' := by
    by_cases htick : e = .tick
    · subst htick
      cases step_cases h with
      | tick hc => exact hB.tick hc
    · obtain ⟨hzero, hsame⟩ := step_used h
      have hle : s'.used ≤ s.used := by
        by_cases hper : RunsPeriod s e
        · simp [hzero hper]
        · exact (hsame hper htick).le
      refine ⟨hle.trans hB.used, ?_⟩
      by_cases hsrv : ∃ choice, e = .thread .server choice
      · obtain ⟨choice, rfl⟩ := hsrv
        exact hB.server h fun hpc => hok.1 ⟨hpc, choice, rfl⟩
      · have hsrv : ∀ choice, e ≠ .thread .server choice := fun c hc => hsrv ⟨c, hc⟩
        obtain ⟨-, hspc, hact, -⟩ := step_server_frame h hsrv
        have hin := inBurst_congr hspc hact
        refine ⟨?_, ?_, ?_⟩
        · rw [hin, hspc, hact]
          exact hB.burst.active
        · rw [hspc, hact]
          exact hB.burst.inactive
        · intro hin' hd'
          obtain ⟨hcapacity, -, hdsame⟩ := step_demoted h
          have hcap : ¬RunsCapacity s e := fun hcap => by
            rw [hcapacity hcap] at hd'
            cases hd'
          have hon : RunsOn .capacity s.k s'.k :=
            step_runsOn h htick (fun he hexp => hcap (.inr ⟨he, hexp⟩)) fun ⟨c, hc⟩ =>
              absurd hc (hsrv c)
          by_cases hper : RunsPeriod s e
          · -- the budget is replenished, and the timer has at most the capacity left
            have hlisted := hok.2.2.2 hper (hin.mp hin')
            refine ⟨hon.mem hlisted, ?_⟩
            rw [hzero hper, hon.remaining, Nat.zero_add]
            exact hB.timer.left hlisted
          · exact hB.burst.runsOn hin.mp (fun hd => hdsame hcap hper ▸ hd) hon hle hin' hd'
  exact
    { system := hB.system.step h
      initDone := step_initDone h hB.initDone
      capacity := (step_const h).2.trans hB.capacity
      timer := hB.timer.step hB.system hB.capacity hpos h
      used := hspent.1
      burst := hspent.2
      floor := hB.floor_step h hok hmem }

end BudgetInv

theorem afterInit_budgetInv (cfg : Config τ) {caller tick : Nat} (htick : tick < 2 ^ 32) :
    BudgetInv cfg (afterInit cfg caller tick) where
  system := initial_systemInv cfg caller tick _ _
  initDone := ⟨MainPc.noConfusion, MainPc.noConfusion⟩
  capacity := rfl
  timer :=
    { ordered := ⟨htick, List.Pairwise.nil, fun _ hi => (by cases hi), fun _ hi => (by cases hi)⟩
      pending := fun _ _ hi => (by cases hi)
      interval := rfl
      oneShot := rfl
      left := fun hi => (by cases hi) }
  used := Nat.zero_le _
  burst := ⟨fun hin => hin.elim, fun hpc => (by cases hpc), fun hin => hin.elim⟩
  floor := fun hd => (by cases hd)

/-- **The budget of the server.** For a positive capacity and a demotion that makes the server give
way, in every run with insertions, tasks, ticks and expiries in any order in which no burst begins
with some of the budget used, the capacity callback finds the server without a mutex or demoted
already, nobody asks a demoted server for a mutex, and the period callback does not come in a burst
whose timer has expired: the ticks for which the server has executed tasks at a priority more urgent
than `RT_THREAD_PRIORITY_MAX - 1` since the last replenishment are at most its capacity. -/
theorem budget_kept (cfg : Config τ) {caller tick : Nat} (htick : tick < 2 ^ 32)
    (hpos : 0 < cfg.capacity) (hmem : rtThreadPriorityMax - 1 ≤ demotedPriority cfg)
    (hreach : Reach (step cfg) KeepsBudget (afterInit cfg caller tick) s) :
    s.used ≤ s.capacity := by
  have hB := hreach.invariant (BudgetInv cfg) (afterInit_budgetInv cfg htick)
    fun s e s' hB hok h => hB.step h hok hpos hmem
  rw [hB.capacity]
  exact hB.used

/-- The board with a capacity of two ticks, and 31 at the address the demotion is read from. -/
def twoTicks : Config Task := application 2 205000 17 fun _ => 31

open Event in
/-- A press of the second button, and the server up to the first statement of its task. -/
def firstBurst : List (Event Task) :=
  startUp ++ [press .bench, switch .server] ++ List.replicate 6 (thread .server 0)

/-- Three ticks in the task: the server is demoted after two, and the third is not charged. -/
theorem budget_kept_oneBurst :
    ∃ s, run (step twoTicks) (afterInit twoTicks mainPriority 0)
        (firstBurst ++ [Event.tick, .checked, .tick, .expire, .checked, .tick]) = some s ∧
      s.demoted = true ∧ s.used = 2 ∧ s.used ≤ s.capacity := by
  have hrun : ((run (step twoTicks) (afterInit twoTicks mainPriority 0)
      (firstBurst ++ [Event.tick, .checked, .tick, .expire, .checked, .tick])).map fun s =>
        decide (s.demoted = true ∧ s.used = 2)) = some true := by decide +kernel
  obtain ⟨s, hs, hd⟩ := Option.map_eq_some_iff.mp hrun
  obtain ⟨hd, hused⟩ := of_decide_eq_true hd
  have hreach : Reach (step twoTicks) KeepsBudget (afterInit twoTicks mainPriority 0) s :=
    Reach.of_each .refl (by decide +kernel) hs
  exact ⟨s, hs, hd, hused, budget_kept twoTicks (by decide) (by decide) (by decide) hreach⟩

open Event in
/-- One tick in the first burst and two in a second one, after the server has suspended itself and
the first button has been pressed. -/
def twoBursts : List (Event Task) :=
  firstBurst ++ [tick, checked] ++ List.replicate 14 (thread .server 0) ++
    [switch .consumer, thread .consumer 0, thread .consumer 0, switch .idle, press .raw,
      switch .server] ++
    List.replicate 6 (thread .server 0) ++ [tick, checked, tick]

/-- The second burst starts the timer with the whole capacity again: three ticks of two. -/
theorem budget_exceeded :
    ∃ s, (∀ e ∈ twoBursts, e.OnBoard) ∧
      Each (step twoTicks) Scheduled (afterInit twoTicks mainPriority 0) twoBursts ∧
      run (step twoTicks) (afterInit twoTicks mainPriority 0) twoBursts = some s ∧
      s.capacity = 2 ∧ s.used = 3 := by
  have hrun : ((run (step twoTicks) (afterInit twoTicks mainPriority 0) twoBursts).map fun s =>
      decide (s.capacity = 2 ∧ s.used = 3)) = some true := by decide +kernel
  obtain ⟨s, hs, hd⟩ := Option.map_eq_some_iff.mp hrun
  exact ⟨s, by decide, by decide +kernel, hs, of_decide_eq_true hd⟩

end OsesProject
