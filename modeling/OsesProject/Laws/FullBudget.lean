import OsesProject.Laws.Budget

/-!
# The budget after a replenishment

`rt_timer_deferrable_period` gives the new budget to `tim_capacity` by `rt_timer_control`, and that
sets the interval of the next start only: a timer that runs is due when it was. What it has left is
the capacity less the ticks since the burst began (`ClockInv`), so the callback leaves a full budget
exactly when the burst began in the present tick (`full_budget_iff`).
-/

set_option linter.unusedSectionVars false

namespace OsesProject

open Machine

variable {τ : Type} [DecidableEq τ] {cfg : Config τ} {s s' : State τ} {e : Event τ}

/-! ## The ticks of a burst -/

/-- The ticks since the last burst began, after one more event. -/
def burstTicks (s : State τ) (e : Event τ) (n : Nat) : Nat :=
  if BeginsBurst s e then 0 else if e = .tick then n + 1 else n

/-- The machine with a count of the ticks since the last burst began. -/
def clocked (cfg : Config τ) (p : State τ × Nat) (e : Event τ) : Option (State τ × Nat) :=
  (step cfg p.1 e).map fun s' => (s', burstTicks p.1 e p.2)

/-- Every run can be counted. -/
theorem clocked_run {es : List (Event τ)} (h : run (step cfg) s es = some s') (n : Nat) :
    ∃ n', run (clocked cfg) (s, n) es = some (s', n') := by
  induction es generalizing s n with
  | nil =>
    cases h
    exact ⟨n, rfl⟩
  | cons e es ih =>
    rw [run_cons, Option.bind_eq_some_iff] at h
    obtain ⟨t, ht, h⟩ := h
    obtain ⟨n', hn'⟩ := ih h (burstTicks s e n)
    refine ⟨n', ?_⟩
    rw [run_cons, clocked, ht]
    exact hn'

/-- A count is of ticks. -/
theorem clocked_le_count {es : List (Event τ)} {n n' : Nat}
    (h : run (clocked cfg) (s, n) es = some (s', n')) : n' ≤ n + es.count .tick := by
  induction es generalizing s n with
  | nil =>
    cases h
    exact Nat.le_refl _
  | cons e es ih =>
    rw [run_cons, Option.bind_eq_some_iff] at h
    obtain ⟨⟨t, m⟩, ht, h⟩ := h
    obtain ⟨u, -, hu⟩ := Option.map_eq_some_iff.mp ht
    cases hu
    have hle := ih h
    rw [List.count_cons]
    unfold burstTicks at hle
    split at hle
    · omega
    · split at hle
      · next htick =>
        subst htick
        simp only [beq_self_eq_true, if_true]
        omega
      · omega

/-- `tim_capacity` does not run, or the ticks it has left and those since it was started are
together the capacity. -/
def Clock (capacity n : Nat) (k : Kernel Tid Lock AppTimer) : Prop :=
  (.app .capacity ∉ k.timerList ∧ (k.timer (.app .capacity)).activated = false) ∨
    (.app .capacity ∈ k.timerList ∧ k.remaining (.app .capacity) + n = capacity)

/-- One call. -/
theorem Clock.call {capacity n : Nat} {x x' : Threads Tid Lock AppTimer}
    (h : Clock capacity n x.k) (hI : LockInv x)
    (hone : (x.k.timer (.app .capacity)).periodic = false) {c : Call Tid Lock AppTimer}
    (hc : x.call c = some x') (htick : c ≠ .tick) (hstart : c ≠ .timerStart .capacity) :
    Clock capacity n x'.k := by
  rcases h with hoff | ⟨hmem, hleft⟩
  · exact .inl (Threads.call_stopped hc hstart hoff)
  · by_cases hop : c.Operates .capacity
    · cases c with
      | tick => exact absurd rfl htick
      | timerStart b =>
        cases hop
        exact absurd rfl hstart
      | timerStop b =>
        cases hop
        cases hc
        left
        constructor
        · intro hm
          exact (Kernel.rtTimerStop_mem.mp hm).2 (hI.listed _ hmem) rfl
        · show ((x.k.rtTimerStop (.app .capacity)).timer (.app .capacity)).activated = false
          rw [Kernel.rtTimerStop_timer, if_pos rfl]
      | timerTakeOff b =>
        cases hop
        cases hc
        left
        constructor
        · intro hm
          exact (Kernel.rtTimerTakeOff_mem.mp hm).2 rfl
        · show ((x.k.rtTimerTakeOff (.app .capacity)).timer (.app .capacity)).activated = false
          rw [Kernel.rtTimerTakeOff_timer, if_pos ⟨rfl, hone⟩]
      | timerRearm b =>
        cases hop
        have hsame : x.k.rtTimerRearm (.app .capacity) = some x.k := by
          simp [Kernel.rtTimerRearm, hone]
        simp only [Threads.call, hsame, Option.map_some] at hc
        cases hc
        exact .inr ⟨hmem, hleft⟩
      | _ => exact absurd hop id
    · have hon := Threads.call_runsOn hc hop
      exact .inr ⟨hon.mem hmem, by rw [hon.remaining]; exact hleft⟩

/-- The invariant of the counted runs. -/
structure ClockInv (cfg : Config τ) (s : State τ) (n : Nat) : Prop where
  system : SystemInv s
  capacity : s.capacity = cfg.capacity
  timer : CapacityTimer cfg.capacity s.inCheck s.k
  clock : Clock cfg.capacity n s.k

/-- What `tim_capacity` has left while it runs. -/
theorem ClockInv.left {n : Nat} (hC : ClockInv cfg s n) (hmem : .app .capacity ∈ s.k.timerList) :
    s.k.remaining (.app .capacity) + n = cfg.capacity :=
  hC.clock.elim (fun hoff => absurd hmem hoff.1) And.right

/-- **Every step keeps the invariant.** -/
theorem ClockInv.step {n : Nat} (hC : ClockInv cfg s n) (hpos : 0 < cfg.capacity)
    (h : OsesProject.step cfg s e = some s') : ClockInv cfg s' (burstTicks s e n) := by
  refine ⟨hC.system.step h, (step_const h).2.trans hC.capacity,
    hC.timer.step hC.system hC.capacity hpos h, ?_⟩
  unfold burstTicks
  split
  · next hbegin =>
    -- the timer is started with the whole capacity
    obtain ⟨hpc, choice, rfl⟩ := hbegin
    cases step_cases h with
    | load t _ ht => simp at ht
    | act t _ ht => simp at ht
    | server _ _ _ _ hstep =>
      cases hstep with
      | start _ hk =>
        obtain ⟨-, hrem, -⟩ := hC.timer.ordered.start hk
        refine .inr ⟨(Kernel.rtTimerStart_mem hk).mpr (.inl rfl), ?_⟩
        rw [Nat.add_zero]
        exact hrem.trans hC.timer.interval
      | entry hs | loop hs | setActive hs | fetch hs | call _ hs | act _ hs | ret _ hs
      | remove _ hs | test hs | stop hs | suspend hs | clear hs | sched hs =>
        rw [hpc] at hs
        cases hs
  · next hbegin =>
    split
    · next htick =>
      subst htick
      cases step_cases h with
      | tick hc =>
        rcases hC.clock with hoff | ⟨hmem, hleft⟩
        · exact .inl hoff
        · have hp := hC.timer.pending hc
          have hpos := hp _ hmem
          have hrem : s.rtTickIncrease.k.remaining (.app .capacity) =
              s.k.remaining (.app .capacity) - 1 := hp.tick_remaining hmem
          refine .inr ⟨hmem, ?_⟩
          omega
    · next htick =>
      refine (run_invariant (fun x => LockInv x ∧
        (x.k.timer (.app AppTimer.capacity)).periodic = false ∧ Clock cfg.capacity n x.k) ?_
        ⟨hC.system.locks, hC.timer.oneShot, hC.clock⟩ (step_calls h)).2.2
      rintro c hc x x' ⟨hI, hone, hx⟩ hcall
      have horigin := origin_of_mem hc
      refine ⟨hI.call hcall, (Threads.call_interval hcall _).1.trans hone,
        hx.call hI hone hcall ?_ ?_⟩
      · rintro rfl
        exact htick horigin
      · rintro rfl
        exact hbegin horigin.2

/-- The invariant holds in every counted run. -/
theorem clockInv_of_run {caller tick : Nat} (htick : tick < 2 ^ 32) (hpos : 0 < cfg.capacity)
    {es : List (Event τ)} {n : Nat}
    (hrun : run (clocked cfg) (afterInit cfg caller tick, 0) es = some (s, n)) :
    ClockInv cfg s n := by
  have hB : BudgetInv cfg (afterInit cfg caller tick) := afterInit_budgetInv cfg htick
  refine run_invariant (fun p => ClockInv cfg p.1 p.2) ?_
    ⟨hB.system, hB.capacity, hB.timer, .inl ⟨List.not_mem_nil, rfl⟩⟩ hrun
  rintro e - ⟨s, n⟩ p' hC h
  obtain ⟨s', hs, rfl⟩ := Option.map_eq_some_iff.mp h
  exact hC.step hpos hs

/-! ## The expiry of the timer -/

/-- A timer that is due has nothing left. -/
theorem Ordered.remaining_expired {k : Kernel Tid Lock AppTimer} (h : Ordered k)
    {i : TimerId Tid AppTimer} (he : k.rtTimerExpired = some i) : k.remaining i = 0 := by
  have hmem := Kernel.rtTimerExpired_mem he
  unfold Kernel.rtTimerExpired at he
  split at he
  · cases he
  · split at he
    · next hdue =>
      cases he
      exact (tickSub_due h.tick (h.range _ hmem) (h.bound _ hmem)).mp hdue
    · cases he

/-- `rt_timer_deferrable_capacity` can be executed as the time-out function of its timer. -/
def CanExpire (cfg : Config τ) (s : State τ) : Prop :=
  s.k.rtTimerExpired = some (.app .capacity) ∧ (step cfg s .expire).isSome

/-- Inside the tick interrupt the threads' timers that are due expire one after the other, until
`tim_capacity` does or none is due any more. -/
theorem ClockInv.check {n : Nat} (hC : ClockInv cfg s n) (hpos : 0 < cfg.capacity)
    (hchk : s.inCheck = true) (hmem : .app .capacity ∈ s.k.timerList) :
    ∃ es s', (∀ e ∈ es, e = .expire) ∧ run (OsesProject.step cfg) s es = some s' ∧
      ClockInv cfg s' n ∧ s'.inCheck = true ∧ .app .capacity ∈ s'.k.timerList ∧
      (CanExpire cfg s' ∨ s'.k.rtTimerExpired = none) := by
  -- by induction on the length of the list: the timer that expires leaves it
  induction hlen : s.k.timerList.length using Nat.strong_induction_on generalizing s with
  | _ len ih =>
    subst hlen
    cases hexp : s.k.rtTimerExpired with
    | none => exact ⟨[], s, by simp, rfl, hC, hchk, hmem, .inr hexp⟩
    | some i =>
      cases i with
      | app a =>
        cases a with
        | server => exact absurd hexp hC.system.not_expired
        | capacity =>
          refine ⟨[], s, by simp, rfl, hC, hchk, hmem, .inl ⟨hexp, ?_⟩⟩
          have hone : (s.k.timer (.app .capacity)).periodic = false := hC.timer.oneShot
          simp [OsesProject.step, hchk, State.rtTimerCheck, hexp, Kernel.rtTimerRearm,
            State.rtTimerDeferrableCapacity, State.rtThreadControl,
            Kernel.rtThreadChangePriority, Kernel.rtTimerTakeOff_timer, hone]
      | thread t =>
        have hlisted := Kernel.rtTimerExpired_mem hexp
        obtain ⟨k, hk⟩ : ∃ k, (s.k.rtTimerTakeOff (.thread t)).rtThreadTimeout t = some k := by
          have hsusp : (s.k.thread t).stat = .suspend := (hC.system.locks.sleeps t hlisted).2
          simp [Kernel.rtThreadTimeout, hsusp]
        have hstep : OsesProject.step cfg s .expire = some { s with k := k } := by
          simp [OsesProject.step, hchk, State.rtTimerCheck, hexp, hk]
        have hlist : k.timerList = (s.k.rtTimerTakeOff (.thread t)).timerList := by
          unfold Kernel.rtThreadTimeout at hk
          split at hk
          · cases hk
            rfl
          · cases hk
        have hidle : ¬∃ choice, (Event.expire : Event τ) = .thread .server choice := by
          rintro ⟨_, h⟩
          cases h
        have hon := step_runsOn hstep (by simp) (fun _ => by rw [hexp]; simp)
          fun h => absurd h hidle
        have hshort : k.timerList.length < s.k.timerList.length := by
          rw [hlist]
          refine Nat.lt_of_le_of_ne (TimersLe.takeOff s.k t).sublist.length_le fun hlen => ?_
          have hsame := (TimersLe.takeOff s.k t).sublist.eq_of_length hlen
          rw [← hsame] at hlisted
          exact (Kernel.rtTimerTakeOff_mem.mp hlisted).2 rfl
        have hC' : ClockInv cfg { s with k := k } n := by
          simpa [burstTicks, BeginsBurst] using hC.step hpos hstep
        obtain ⟨es, s', hes, hrun, h⟩ := ih k.timerList.length hshort hC' hchk (hon.mem hmem) rfl
        refine ⟨.expire :: es, s', by simpa using hes, ?_, h⟩
        rw [run_cons, hstep]
        exact hrun

/-- Outside the tick interrupt the next one takes a tick from what the timer has left. -/
theorem ClockInv.tick {n : Nat} (hC : ClockInv cfg s n) (hpos : 0 < cfg.capacity)
    (hchk : s.inCheck = false) (hmem : .app .capacity ∈ s.k.timerList) :
    OsesProject.step cfg s .tick = some s.rtTickIncrease ∧
      ClockInv cfg s.rtTickIncrease (n + 1) ∧
      s.rtTickIncrease.k.remaining (.app .capacity) + 1 = s.k.remaining (.app .capacity) := by
  have hstep : OsesProject.step cfg s .tick = some s.rtTickIncrease := by
    simp [OsesProject.step, hchk]
  have hC' : ClockInv cfg s.rtTickIncrease (n + 1) := by
    simpa [burstTicks, BeginsBurst] using hC.step hpos hstep
  have hp := hC.timer.pending hchk
  have hrem : s.rtTickIncrease.k.remaining (.app .capacity) =
      s.k.remaining (.app .capacity) - 1 := hp.tick_remaining hmem
  have hpos := hp _ hmem
  exact ⟨hstep, hC', by omega⟩

/-- **The timer expires when the ticks it has left are over.** -/
theorem ClockInv.expires {n : Nat} (hC : ClockInv cfg s n) (hpos : 0 < cfg.capacity)
    (hmem : .app .capacity ∈ s.k.timerList) :
    ∃ es s', (∀ e ∈ es, e.OnBoard) ∧ run (OsesProject.step cfg) s es = some s' ∧
      es.count .tick = s.k.remaining (.app .capacity) ∧ CanExpire cfg s' := by
  -- by induction on the ticks left
  have hend : ∀ {s n}, ClockInv cfg s n → CanExpire cfg s → s.k.remaining (.app .capacity) = 0 :=
    fun hC hexp => hC.timer.ordered.remaining_expired hexp.1
  have hsame : ∀ {s s' n}, ClockInv cfg s n → ClockInv cfg s' n →
      .app .capacity ∈ s.k.timerList → .app .capacity ∈ s'.k.timerList →
      s'.k.remaining (.app .capacity) = s.k.remaining (.app .capacity) := by
    intro s s' n hC hC' hmem hmem'
    have := hC.left hmem
    have := hC'.left hmem'
    omega
  induction hr : s.k.remaining (.app .capacity) generalizing s n with
  | zero =>
    have hchk : s.inCheck = true := by
      by_contra hchk
      have := hC.timer.pending (by simpa using hchk) _ hmem
      omega
    obtain ⟨es, s', hes, hrun, hC', -, hmem', hexp⟩ := hC.check hpos hchk hmem
    refine ⟨es, s', fun e he => by rw [hes e he]; trivial, hrun, ?_, ?_⟩
    · rw [List.count_eq_zero]
      intro hmem
      cases hes _ hmem
    · refine hexp.resolve_right fun hnone => ?_
      have := hC'.timer.ordered.pending hnone _ hmem'
      rw [hsame hC hC' hmem hmem'] at this
      omega
  | succ r ih =>
    -- from outside the interrupt: one tick, and the induction hypothesis
    have outside : ∀ {s : State τ}, ClockInv cfg s n → s.inCheck = false →
        .app .capacity ∈ s.k.timerList → s.k.remaining (.app .capacity) = r + 1 →
        ∃ es s', (∀ e ∈ es, e.OnBoard) ∧ run (OsesProject.step cfg) s es = some s' ∧
          es.count .tick = r + 1 ∧ CanExpire cfg s' := by
      intro s hC hchk hmem hr
      obtain ⟨hstep, hC', hrem⟩ := hC.tick hpos hchk hmem
      obtain ⟨es, s', hes, hrun, hcount, hexp⟩ := ih hC' hmem (by omega)
      refine ⟨.tick :: es, s', by simpa [Event.OnBoard] using hes, ?_, by simp [hcount], hexp⟩
      rw [run_cons, hstep]
      exact hrun
    cases hchk : s.inCheck with
    | false => exact outside hC hchk hmem hr
    | true =>
      obtain ⟨es, s', hes, hrun, hC', hchk', hmem', hexp⟩ := hC.check hpos hchk hmem
      have hr' := hsame hC hC' hmem hmem'
      have hnone := hexp.resolve_left fun hexp => by
        have := hend hC' hexp
        omega
      have hstep : OsesProject.step cfg s' .checked = some { s' with inCheck := false } := by
        simp [OsesProject.step, hchk', hnone]
      have hC'' : ClockInv cfg { s' with inCheck := false } n := by
        simpa [burstTicks, BeginsBurst] using hC'.step hpos hstep
      obtain ⟨fs, s'', hfs, hrun', hcount, hexp⟩ := outside hC'' rfl hmem' (hr'.trans hr)
      refine ⟨es ++ .checked :: fs, s'', ?_, ?_, ?_, hexp⟩
      · intro e he
        rcases List.mem_append.mp he with he | he
        · rw [hes e he]
          trivial
        · rcases List.mem_cons.mp he with rfl | he
          · trivial
          · exact hfs e he
      · rw [run_append, hrun, Option.bind_some, run_cons, hstep]
        exact hrun'
      · have hzero : es.count .tick = 0 := by
          rw [List.count_eq_zero]
          intro hmem
          cases hes _ hmem
        simp [hzero, hcount]

/-! ## The replenishment -/

/-- On the board `rt_timer_deferrable_capacity` is next executed when at least the capacity has
passed. -/
def LastsCapacity (cfg : Config τ) (s : State τ) : Prop :=
  ∀ es s', (∀ e ∈ es, e.OnBoard) → run (step cfg) s es = some s' → CanExpire cfg s' →
    s.capacity ≤ es.count .tick

/-- **When a replenishment gives a full budget.** For a positive capacity, every start of the tick
counter and every state of every run in which `tim_capacity` runs, `n` ticks after the burst began:
the period callback leaves `tim_capacity` the ticks it writes to `capacity_left` if and only if `n`
is 0, and if and only if `n` is 0 the capacity callback comes no earlier than the capacity after
it. -/
theorem full_budget_iff (cfg : Config τ) {caller tick : Nat} (htick : tick < 2 ^ 32)
    (hpos : 0 < cfg.capacity) {es : List (Event τ)} {n : Nat}
    (hrun : run (clocked cfg) (afterInit cfg caller tick, 0) es = some (s, n))
    (hact : (s.k.timer (.app .capacity)).activated = true) :
    ((s.rtTimerDeferrablePeriod cfg.memory).k.remaining (.app .capacity) =
        (s.rtTimerDeferrablePeriod cfg.memory).capacityLeft ↔ n = 0) ∧
      (LastsCapacity cfg (s.rtTimerDeferrablePeriod cfg.memory) ↔ n = 0) := by
  have hC := clockInv_of_run htick hpos hrun
  have hstep : step cfg s .period = some (s.rtTimerDeferrablePeriod cfg.memory) := rfl
  have hC' : ClockInv cfg (s.rtTimerDeferrablePeriod cfg.memory) n := by
    simpa [burstTicks, BeginsBurst] using hC.step hpos hstep
  have hmem : .app .capacity ∈ s.k.timerList := by
    rcases hC.clock with ⟨-, hoff⟩ | ⟨hmem, -⟩
    · rw [hoff] at hact
      cases hact
    · exact hmem
  -- the callback lets the timer run on
  have hidle : ¬∃ choice, (Event.period : Event τ) = .thread .server choice := by
    rintro ⟨_, h⟩
    cases h
  have hon := step_runsOn hstep (by simp) (fun h => by cases h) fun h => absurd h hidle
  have hmem' := hon.mem hmem
  have hleft := hC'.left hmem'
  constructor
  · have hcap : (s.rtTimerDeferrablePeriod cfg.memory).capacityLeft = cfg.capacity := hC.capacity
    rw [hcap]
    omega
  · constructor
    · intro hlasts
      obtain ⟨fs, s', hfs, hrun', hcount, hexp⟩ := hC'.expires hpos hmem'
      have hle := hlasts fs s' hfs hrun' hexp
      rw [hC'.capacity, hcount] at hle
      omega
    · rintro rfl fs s' - hrun' hexp
      obtain ⟨n', hn'⟩ := clocked_run hrun' 0
      have hC'' : ClockInv cfg s' n' := by
        have hwhole : run (clocked cfg) (afterInit cfg caller tick, 0) (es ++ .period :: fs) =
            some (s', n') := by
          rw [run_append, hrun, Option.bind_some, run_cons, clocked, hstep]
          simpa [burstTicks, BeginsBurst] using hn'
        exact clockInv_of_run htick hpos hwhole
      have hzero := hC''.timer.ordered.remaining_expired hexp.1
      have hleft' := hC''.left (Kernel.rtTimerExpired_mem hexp.1)
      have hcount := clocked_le_count hn'
      rw [hC'.capacity]
      omega

/-- The callback in the tick in which the burst has begun: two ticks are left of two. -/
theorem full_budget_firstBurst :
    ∃ s, run (clocked twoTicks) (afterInit twoTicks mainPriority 0, 0) firstBurst = some (s, 0) ∧
      (s.rtTimerDeferrablePeriod twoTicks.memory).k.remaining (.app .capacity) =
        (s.rtTimerDeferrablePeriod twoTicks.memory).capacityLeft ∧
      LastsCapacity twoTicks (s.rtTimerDeferrablePeriod twoTicks.memory) := by
  have hrun : ((run (clocked twoTicks) (afterInit twoTicks mainPriority 0, 0) firstBurst).map
      fun p => (p.2, (p.1.k.timer (.app .capacity)).activated)) = some (0, true) := by
    decide +kernel
  obtain ⟨⟨s, n⟩, hs, hd⟩ := Option.map_eq_some_iff.mp hrun
  obtain ⟨hn, hact⟩ := Prod.mk.inj hd
  cases hn
  obtain ⟨hleft, hlasts⟩ := full_budget_iff twoTicks (by decide) (by decide) hs hact
  exact ⟨s, hs, hleft.mpr rfl, hlasts.mpr rfl⟩

/-- The callback one tick after the burst has begun: one tick is left of two, and after it the
capacity callback comes. -/
theorem full_budget_lost :
    ∃ s s', (∀ e ∈ firstBurst ++ [Event.tick, .checked], e.OnBoard) ∧
      Each (step twoTicks) Scheduled (afterInit twoTicks mainPriority 0)
        (firstBurst ++ [Event.tick, .checked]) ∧
      run (step twoTicks) (afterInit twoTicks mainPriority 0)
        (firstBurst ++ [Event.tick, .checked]) =
        some s ∧
      (s.k.timer (.app .capacity)).activated = true ∧ s.isempty = false ∧
      (s.rtTimerDeferrablePeriod twoTicks.memory).capacityLeft = 2 ∧
      (s.rtTimerDeferrablePeriod twoTicks.memory).k.remaining (.app .capacity) = 1 ∧
      run (step twoTicks) (s.rtTimerDeferrablePeriod twoTicks.memory) [.tick] = some s' ∧
      CanExpire twoTicks s' := by
  have hrun : ((run (step twoTicks) (afterInit twoTicks mainPriority 0)
      (firstBurst ++ [Event.tick, .checked])).bind fun s =>
        (run (step twoTicks) (s.rtTimerDeferrablePeriod twoTicks.memory) [.tick]).map fun s' =>
          decide ((s.k.timer (.app .capacity)).activated = true ∧ s.isempty = false ∧
            (s.rtTimerDeferrablePeriod twoTicks.memory).capacityLeft = 2 ∧
            (s.rtTimerDeferrablePeriod twoTicks.memory).k.remaining (.app .capacity) = 1 ∧
            s'.k.rtTimerExpired = some (.app .capacity) ∧
            (step twoTicks s' .expire).isSome)) = some true := by decide +kernel
  obtain ⟨s, hs, hrun⟩ := Option.bind_eq_some_iff.mp hrun
  obtain ⟨s', hs', hd⟩ := Option.map_eq_some_iff.mp hrun
  obtain ⟨hact, hempty, hleft, hrem, hexp⟩ := of_decide_eq_true hd
  exact ⟨s, s', by decide, by decide +kernel, hs, hact, hempty, hleft, hrem, hs', hexp⟩

end OsesProject
