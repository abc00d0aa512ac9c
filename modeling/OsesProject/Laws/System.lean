import OsesProject.Application.System
import OsesProject.Laws.Actions
import OsesProject.Laws.Calls
import OsesProject.Laws.Timers

/-!
# Laws of every run of the system

`SystemInv` holds in every state that any run reaches, whatever the order of events: the laws of
the mutexes (`LockInv`), the server's program of kernel calls is empty outside its tasks, and
`tim_server` is never started. Nothing here depends on the queue.

The other laws say which events make which kernel calls (`origin_of_mem`) and what an event leaves
alone (`step_server_frame`, `step_queue_frame`). Together they give the one fact about waking that
the laws of the queue rest on, `SystemInv.stays_suspended`.
-/

set_option linter.unusedSectionVars false

namespace OsesProject

open Machine

variable {τ : Type} [DecidableEq τ]

/-! ## Kinds of events -/

/-- The task an event inserts, if it inserts one. -/
def insertion (cfg : Config τ) (s : State τ) : Event τ → Option τ
  | .press b => some (cfg.task b (s.RWn b))
  | .insert a => some a
  | _ => none

/-- The event executes `rt_timer_deferrable_period`. -/
def RunsPeriod (s : State τ) (e : Event τ) : Prop :=
  e = .period ∨ e = .expire ∧ s.k.rtTimerExpired = some (.app .server)

/-- The event executes `rt_timer_deferrable_capacity`. -/
def RunsCapacity (s : State τ) (e : Event τ) : Prop :=
  e = .capacity ∨ e = .expire ∧ s.k.rtTimerExpired = some (.app .capacity)

instance (s : State τ) (e : Event τ) : Decidable (RunsPeriod s e) := by
  unfold RunsPeriod
  infer_instance

instance (s : State τ) (e : Event τ) : Decidable (RunsCapacity s e) := by
  unfold RunsCapacity
  infer_instance

variable {cfg : Config τ} {s s' : State τ} {e : Event τ}

/-- Which events make a call, and with which arguments. -/
def Origin (cfg : Config τ) (s : State τ) (e : Event τ) : Call Tid Lock AppTimer → Prop
  | .act t => ∃ choice, e = .thread t choice
  | .load t _ => ∃ choice, e = .thread t choice
  | .resume t => t = .server ∧ s.isempty = true ∧ (insertion cfg s e ≠ none ∨ RunsPeriod s e)
  | .suspend t => t = .server ∧ ((∃ choice, e = .thread .server choice) ∨
      s.mainPc = .suspendServer ∧ ∃ choice, e = .thread .main choice)
  | .startup t => (∃ choice, e = .thread .main choice) ∧
      (t = .server ∧ s.mainPc = .startup ∨ t = .producer ∨ t = .consumer)
  | .exit t => t = .main
  | .control t priority => t = .server ∧ (RunsPeriod s e ∧ priority = s.priority ∨
      RunsCapacity s e ∧ priority = (cfg.memory (rtThreadPriorityMax - 1)).toNat)
  | .timeout t => s.k.rtTimerExpired = some (.thread t)
  | .schedule t => e = .switch t
  | .tick => e = .tick
  | .timerStart a => a = .capacity ∧ s.serverPc = .start ∧ ∃ choice, e = .thread .server choice
  | .timerStop a => a = .capacity ∧ s.serverPc = .stop ∧ ∃ choice, e = .thread .server choice
  | .timerSetTime a time => a = .capacity ∧ time = s.capacity ∧ RunsPeriod s e
  | .timerTakeOff a => e = .expire ∧ s.k.rtTimerExpired = some (.app a)
  | .timerRearm a => e = .expire ∧ s.k.rtTimerExpired = some (.app a)

private theorem origin_period {c : Call Tid Lock AppTimer} (hper : RunsPeriod s e)
    (h : c ∈ periodCalls s) : Origin cfg s e c := by
  unfold periodCalls at h
  rcases List.mem_append.mp h with h | h
  · split at h
    · next hempty =>
      cases List.mem_singleton.mp h
      exact ⟨rfl, hempty, .inr hper⟩
    · cases h
  · simp only [List.mem_cons, List.not_mem_nil, or_false] at h
    rcases h with rfl | rfl
    · exact ⟨rfl, .inl ⟨hper, rfl⟩⟩
    · exact ⟨rfl, rfl, hper⟩

private theorem origin_insertion {c : Call Tid Lock AppTimer} (hins : insertion cfg s e ≠ none)
    (h : c ∈ if s.isempty then [Call.resume Tid.server] else []) : Origin cfg s e c := by
  split at h
  · next hempty =>
    cases List.mem_singleton.mp h
    exact ⟨rfl, hempty, .inl hins⟩
  · cases h

private theorem origin_server {c : Call Tid Lock AppTimer} {choice : Nat}
    (h : c ∈ serverCalls cfg choice s) : Origin cfg s (.thread .server choice) c := by
  unfold serverCalls at h
  split at h
  · next hpc =>
    cases List.mem_singleton.mp h
    exact ⟨rfl, hpc, choice, rfl⟩
  · cases List.mem_singleton.mp h
    exact ⟨choice, rfl⟩
  · split at h
    · cases h
    · cases List.mem_singleton.mp h
      exact ⟨choice, rfl⟩
  · next hpc =>
    cases List.mem_singleton.mp h
    exact ⟨rfl, hpc, choice, rfl⟩
  · cases List.mem_singleton.mp h
    exact ⟨rfl, .inl ⟨choice, rfl⟩⟩
  · cases h

private theorem origin_main {c : Call Tid Lock AppTimer} {choice : Nat} (h : c ∈ mainCalls s) :
    Origin cfg s (.thread .main choice) c := by
  unfold mainCalls at h
  cases hpc : s.mainPc with
  | done =>
    rw [hpc] at h
    cases h
  | startup =>
    rw [hpc] at h
    cases List.mem_singleton.mp h
    exact ⟨⟨choice, rfl⟩, .inl ⟨rfl, hpc⟩⟩
  | suspendServer =>
    rw [hpc] at h
    cases List.mem_singleton.mp h
    exact ⟨rfl, .inr ⟨hpc, choice, rfl⟩⟩
  | startProducer =>
    rw [hpc] at h
    cases List.mem_singleton.mp h
    exact ⟨⟨choice, rfl⟩, .inr (.inl rfl)⟩
  | startConsumer =>
    rw [hpc] at h
    cases List.mem_singleton.mp h
    exact ⟨⟨choice, rfl⟩, .inr (.inr rfl)⟩
  | exit =>
    rw [hpc] at h
    cases List.mem_singleton.mp h
    exact rfl

/-- **Where the calls of an event come from.** -/
theorem origin_of_mem {c : Call Tid Lock AppTimer} (h : c ∈ calls cfg s e) : Origin cfg s e c := by
  cases e with
  | press b => exact origin_insertion (by simp [insertion]) h
  | insert a => exact origin_insertion (by simp [insertion]) h
  | thread t choice =>
    cases t with
    | server => exact origin_server h
    | main => exact origin_main h
    | producer | consumer | idle =>
      simp only [calls] at h
      split at h
      · cases List.mem_singleton.mp h
        exact ⟨choice, rfl⟩
      · cases List.mem_singleton.mp h
        exact ⟨choice, rfl⟩
  | switch t =>
    cases List.mem_singleton.mp h
    exact rfl
  | tick =>
    cases List.mem_singleton.mp h
    exact rfl
  | checked => cases h
  | capacity =>
    cases List.mem_singleton.mp h
    exact ⟨rfl, .inr ⟨.inl rfl, rfl⟩⟩
  | period => exact origin_period (.inl rfl) h
  | expire =>
    simp only [calls] at h
    split at h
    · cases h
    · next t he =>
      cases List.mem_singleton.mp h
      exact he
    · next he =>
      simp only [capacityCalls, List.cons_append, List.nil_append, List.mem_cons,
        List.not_mem_nil, or_false] at h
      rcases h with rfl | rfl | rfl
      · exact ⟨rfl, he⟩
      · exact ⟨rfl, .inr ⟨.inr ⟨rfl, he⟩, rfl⟩⟩
      · exact ⟨rfl, he⟩
    · next he =>
      simp only [List.cons_append, List.mem_cons, List.mem_append, List.not_mem_nil,
        or_false] at h
      rcases h with rfl | h | rfl
      · exact ⟨rfl, he⟩
      · exact origin_period (.inr ⟨rfl, he⟩) h
      · exact ⟨rfl, he⟩

/-! ## What the events leave alone -/

/-- An event that is no statement of the server leaves the server where it is. -/
theorem step_server_frame (h : step cfg s e = some s')
    (hsrv : ∀ choice, e ≠ .thread .server choice) :
    s'.pc .server = s.pc .server ∧ s'.serverPc = s.serverPc ∧ s'.active = s.active ∧
      s'.ran = s.ran ∧ s'.removed = s.removed := by
  cases step_cases h with
  | server choice => exact absurd rfl (hsrv choice)
  | load t choice ht =>
    rcases ht with rfl | rfl <;> exact ⟨by simp, rfl, rfl, rfl, rfl⟩
  | act t choice ht =>
    rcases ht with rfl | rfl <;> exact ⟨by simp, rfl, rfl, rfl, rfl⟩
  | _ => exact ⟨rfl, rfl, rfl, rfl, rfl⟩

/-- An event that is neither an insertion nor a statement of the server leaves the queue alone. -/
theorem step_queue_frame (h : step cfg s e = some s') (hins : insertion cfg s e = none)
    (hsrv : ∀ choice, e ≠ .thread .server choice) :
    s'.heap = s.heap ∧ s'.inserted = s.inserted := by
  cases step_cases h with
  | server choice => exact absurd rfl (hsrv choice)
  | press b => cases hins
  | insert a => cases hins
  | _ => exact ⟨rfl, rfl⟩

/-- An insertion puts its task behind the others. -/
theorem step_insertion (h : step cfg s e = some s') {a : τ} (hins : insertion cfg s e = some a) :
    s'.heap = rtListInsertBefore (rtListInit s.heap (.tlist a)) .asyncTask (.tlist a) ∧
      s'.inserted = s.inserted ++ [a] ∧
      s'.k = if s.isempty then s.k.rtThreadResume .server else s.k := by
  cases step_cases h with
  | press b =>
    cases hins
    exact ⟨rfl, rfl, rfl⟩
  | insert a =>
    cases hins
    exact ⟨rfl, rfl, rfl⟩
  | _ => cases hins

/-- No step sets the fields `priority` and `capacity` of the server's record. -/
theorem step_const (h : step cfg s e = some s') :
    s'.priority = s.priority ∧ s'.capacity = s.capacity := by
  cases step_cases h with
  | server choice _ _ _ hstep => cases hstep <;> exact ⟨rfl, rfl⟩
  | _ => exact ⟨rfl, rfl⟩

/-- The server counts as demoted from its capacity callback to its period callback. -/
theorem step_demoted (h : step cfg s e = some s') :
    (RunsCapacity s e → s'.demoted = true) ∧
    (¬RunsCapacity s e → RunsPeriod s e → s'.demoted = false) ∧
    (¬RunsCapacity s e → ¬RunsPeriod s e → s'.demoted = s.demoted) := by
  have quiet : e ≠ .capacity → e ≠ .period → e ≠ .expire →
      s'.demoted = s.demoted → (RunsCapacity s e → s'.demoted = true) ∧
      (¬RunsCapacity s e → RunsPeriod s e → s'.demoted = false) ∧
      (¬RunsCapacity s e → ¬RunsPeriod s e → s'.demoted = s.demoted) := by
    intro h₁ h₂ h₃ hsame
    refine ⟨?_, ?_, fun _ _ => hsame⟩
    · rintro (he | ⟨he, -⟩)
      · exact absurd he h₁
      · exact absurd he h₃
    · rintro _ (he | ⟨he, -⟩)
      · exact absurd he h₂
      · exact absurd he h₃
  cases step_cases h with
  | server choice _ _ _ hstep =>
    cases hstep <;> exact quiet (by simp) (by simp) (by simp) rfl
  | timeout t _ he =>
    refine ⟨?_, ?_, fun _ _ => rfl⟩
    · rintro (h | ⟨-, h⟩)
      · cases h
      · rw [he] at h
        cases h
    · rintro _ (h | ⟨-, h⟩)
      · cases h
      · rw [he] at h
        cases h
  | capacityExpired _ he =>
    have hcap : RunsCapacity s (.expire : Event τ) := .inr ⟨rfl, he⟩
    exact ⟨fun _ => rfl, fun hn => absurd hcap hn, fun hn => absurd hcap hn⟩
  | serverExpired _ he =>
    refine ⟨?_, fun _ _ => rfl, fun _ hn => absurd (.inr ⟨rfl, he⟩) hn⟩
    rintro (h | ⟨-, h⟩)
    · cases h
    · rw [he] at h
      cases h
  | period =>
    refine ⟨?_, fun _ _ => rfl, fun _ hn => absurd (.inl rfl) hn⟩
    rintro (h | ⟨h, -⟩) <;> cases h
  | capacity =>
    have hcap : RunsCapacity s (.capacity : Event τ) := .inl rfl
    exact ⟨fun _ => rfl, fun hn => absurd hcap hn, fun hn => absurd hcap hn⟩
  | _ => exact quiet (by simp) (by simp) (by simp) rfl

/-- The priority the capacity callback sets. -/
def demotedPriority (cfg : Config τ) : Nat := (cfg.memory (rtThreadPriorityMax - 1)).toNat

theorem RunsCapacity.not_runsPeriod (h : RunsCapacity s e) : ¬RunsPeriod s e := by
  rcases h with rfl | ⟨rfl, he⟩
  · rintro (h | ⟨h, -⟩) <;> cases h
  · rintro (h | ⟨-, h⟩)
    · cases h
    · rw [he] at h
      cases h

/-- The capacity callback sets the server's priority, and leaves the mutexes and the programs. -/
theorem step_capacity (h : step cfg s e = some s') (hcap : RunsCapacity s e) :
    s'.k.mutex = s.k.mutex ∧
      s'.k.thread = (s.k.rtThreadChangePriority .server (demotedPriority cfg)).thread ∧
      s'.pc = s.pc := by
  cases step_cases h with
  | capacity => exact ⟨rfl, rfl, rfl⟩
  | capacityExpired _ he hk =>
    -- taking the timer off and starting it again changes no thread and no mutex
    obtain ⟨hth, -, hm, -⟩ := Kernel.rtTimerRearm_frame hk
    refine ⟨hm.trans ?_, hth.trans (funext fun t => ?_), rfl⟩
    · simp [State.rtTimerDeferrableCapacity, State.rtThreadControl]
    · simp [State.rtTimerDeferrableCapacity, State.rtThreadControl, State.deref,
        Kernel.rtThreadChangePriority_thread, demotedPriority]
  | serverExpired _ he => exact absurd (.inr ⟨rfl, he⟩) hcap.not_runsPeriod
  | timeout t _ he =>
    rcases hcap with hcap | ⟨-, hcap⟩
    · cases hcap
    · rw [he] at hcap
      cases hcap
  | _ => rcases hcap with hcap | ⟨hcap, -⟩ <;> cases hcap

/-- The ticks the server has used are counted by the tick interrupt, and forgotten by the period
callback. -/
theorem step_used (h : step cfg s e = some s') :
    (RunsPeriod s e → s'.used = 0) ∧ (¬RunsPeriod s e → e ≠ .tick → s'.used = s.used) := by
  have quiet : ∀ {e' : Event τ}, e' ≠ .period → e' ≠ .expire → s'.used = s.used →
      (RunsPeriod s e' → s'.used = 0) ∧ (¬RunsPeriod s e' → e' ≠ .tick → s'.used = s.used) := by
    intro e' h₁ h₂ hsame
    refine ⟨?_, fun _ _ => hsame⟩
    rintro (he | ⟨he, -⟩)
    · exact absurd he h₁
    · exact absurd he h₂
  cases step_cases h with
  | server choice _ _ _ hstep => cases hstep <;> exact quiet (by simp) (by simp) rfl
  | tick =>
    refine ⟨?_, fun _ hne => absurd rfl hne⟩
    rintro (he | ⟨he, -⟩) <;> cases he
  | timeout t _ he =>
    refine ⟨?_, fun _ _ => rfl⟩
    rintro (h | ⟨-, h⟩)
    · cases h
    · rw [he] at h
      cases h
  | capacityExpired _ he =>
    exact ⟨fun hp => absurd hp (RunsCapacity.not_runsPeriod (.inr ⟨rfl, he⟩)), fun _ _ => rfl⟩
  | serverExpired _ he => exact ⟨fun _ => rfl, fun hn => absurd (.inr ⟨rfl, he⟩) hn⟩
  | period => exact ⟨fun _ => rfl, fun hn => absurd (.inl rfl) hn⟩
  | _ => exact quiet (by simp) (by simp) rfl

/-- The tick interrupt is entered by the tick and left by the end of its check. -/
theorem step_inCheck (h : step cfg s e = some s') (htick : e ≠ .tick) (hchk : e ≠ .checked) :
    s'.inCheck = s.inCheck := by
  cases step_cases h with
  | server choice _ _ _ hstep => cases hstep <;> rfl
  | tick => exact absurd rfl htick
  | checked => exact absurd rfl hchk
  | _ => rfl

/-- An event that executes neither callback gives the server no priority of its own. -/
theorem not_controls_server {c : Call Tid Lock AppTimer} (hc : c ∈ calls cfg s e)
    (hmain : s.mainPc ≠ .startup) (hcap : ¬RunsCapacity s e) (hper : ¬RunsPeriod s e) :
    ¬c.Controls .server := by
  have horigin := origin_of_mem hc
  cases c with
  | control t priority =>
    intro _
    rcases horigin.2 with ⟨hp, -⟩ | ⟨hp, -⟩
    · exact hper hp
    · exact hcap hp
  | startup t =>
    rintro rfl
    rcases horigin.2 with ⟨-, hpc⟩ | ht | ht
    · exact hmain hpc
    · cases ht
    · cases ht
  | _ => exact id

/-- The action of a thread is the only call of its event. -/
theorem calls_act {t : Tid} (h : .act t ∈ calls cfg s e) :
    calls cfg s e = [.act t] ∧ ∃ choice, e = .thread t choice := by
  obtain ⟨choice, rfl⟩ : ∃ choice, e = .thread t choice := origin_of_mem h
  refine ⟨?_, choice, rfl⟩
  cases t with
  | server =>
    simp only [calls, serverCalls] at h ⊢
    split at h
    case h_3 =>
      split at h
      · cases h
      · next hpc => rw [if_neg hpc]
    all_goals simp at h
  | main =>
    simp only [calls, mainCalls] at h
    split at h <;> simp at h
  | producer | consumer | idle =>
    simp only [calls] at h ⊢
    split at h
    · simp at h
    · next hpc => rw [if_neg hpc]

/-! ## The invariant of every run -/

/-- What holds in every state of every run. -/
structure SystemInv (s : State τ) : Prop where
  locks : LockInv s.threads
  idle : (∀ n, s.serverPc ≠ .task n) → s.pc .server = .run []
  noReplenishment : .app .server ∉ s.k.timerList ∧ (s.k.timer (.app .server)).activated = false

theorem initial_lockInv (cfg : Config τ) (caller tick : Nat) (stat : ThreadStat)
    (mainPc : MainPc) : LockInv (initial cfg caller tick stat mainPc).threads where
  nested := fun _ => rfl
  distinct := fun _ => List.nodup_nil
  inTake := by simp [initial, State.threads]
  owner_mem := by simp [initial, State.threads]
  waits := by simp [initial, State.threads]
  nodup := fun _ => List.nodup_nil
  free := fun _ _ => ⟨rfl, rfl, rfl⟩
  held := by simp [initial, State.threads]
  sleeps := by simp [initial, State.threads]
  listed := by simp [initial, State.threads]

theorem initial_systemInv (cfg : Config τ) (caller tick : Nat) (stat : ThreadStat)
    (mainPc : MainPc) : SystemInv (initial cfg caller tick stat mainPc) where
  locks := initial_lockInv cfg caller tick stat mainPc
  idle := fun _ => rfl
  noReplenishment := ⟨List.not_mem_nil, rfl⟩

/-- Every step keeps the laws of the mutexes. -/
theorem step_lockInv (hI : LockInv s.threads) (h : step cfg s e = some s') :
    LockInv s'.threads :=
  run_invariant LockInv (fun _ _ _ _ hx hc => hx.call hc) hI (step_calls h)

/-- **Every step keeps the invariant of every run.** -/
theorem SystemInv.step (hI : SystemInv s) (h : step cfg s e = some s') : SystemInv s' where
  locks := step_lockInv hI.locks h
  idle := by
    by_cases hsrv : ∃ choice, e = .thread .server choice
    · obtain ⟨choice, rfl⟩ := hsrv
      cases step_cases h with
      | server _ _ _ _ hstep =>
        cases hstep with
        | call a => exact fun hn => absurd rfl (hn (.tlist a))
        | act n hs => exact fun hn => absurd hs (hn n)
        | ret n _ hpc => exact fun _ => hpc
        | remove n hs => exact fun _ => hI.idle (by simp [hs])
        | _ hs => exact fun _ => hI.idle (by simp [hs])
      | load t _ ht => simp at ht
      | act t _ ht => simp at ht
    · have hsrv : ∀ choice, e ≠ .thread .server choice := fun c hc => hsrv ⟨c, hc⟩
      obtain ⟨hpc, hspc, -⟩ := step_server_frame h hsrv
      rw [hpc, hspc]
      exact hI.idle
  noReplenishment := by
    refine run_invariant
      (fun x : Threads Tid Lock AppTimer => .app .server ∉ x.k.timerList ∧
        (x.k.timer (.app .server)).activated = false) ?_ hI.noReplenishment (step_calls h)
    intro c hc x x' hx hcall
    refine Threads.call_stopped hcall ?_ hx
    rintro rfl
    cases (origin_of_mem hc).1

/-- `tim_server` never expires. -/
theorem SystemInv.not_expired (hI : SystemInv s) :
    s.k.rtTimerExpired ≠ some (.app .server) :=
  fun he => hI.noReplenishment.1 (Kernel.rtTimerExpired_mem he)

/-- On the board `rt_timer_deferrable_period` is never executed. -/
theorem SystemInv.not_runsPeriod (hI : SystemInv s) (he : e.OnBoard) : ¬RunsPeriod s e := by
  rintro (rfl | ⟨-, hexp⟩)
  · exact he
  · exact hI.not_expired hexp

/-- **A suspended server outside its tasks is woken by nobody but an insertion into an empty queue
and `rt_timer_deferrable_period`.** -/
theorem SystemInv.stays_suspended (hI : SystemInv s) (h : OsesProject.step cfg s e = some s')
    (hs : (s.k.thread .server).stat = .suspend) (hpc : s.pc .server = .run [])
    (hsrv : ∀ choice, e ≠ .thread .server choice)
    (hres : s.isempty = true → insertion cfg s e = none ∧ ¬RunsPeriod s e) :
    (s'.k.thread .server).stat = .suspend := by
  have hrun := run_invariant
    (fun x : Threads Tid Lock AppTimer => LockInv x ∧ (x.k.thread .server).stat = .suspend ∧
      x.pc .server = .run []) ?_ ⟨hI.locks, hs, hpc⟩ (step_calls h)
  · exact hrun.2.1
  · intro c hc x x' hx hcall
    obtain ⟨hL, hs, hpc⟩ := hx
    have hne : c ≠ .resume .server := by
      rintro rfl
      obtain ⟨-, hempty, hor⟩ := origin_of_mem hc
      obtain ⟨hins, hper⟩ := hres hempty
      exact hor.elim (fun hne => hne hins) hper
    refine ⟨hL.call hcall, hL.stays_suspended hcall hs hpc hne, ?_⟩
    refine (Threads.call_pc_of_ne hcall ?_ ?_).trans hpc
    · rintro rfl
      obtain ⟨choice, he⟩ := origin_of_mem hc
      exact hsrv choice he
    · rintro prog rfl
      obtain ⟨choice, he⟩ := origin_of_mem hc
      exact hsrv choice he

/-- A server that is not suspended is suspended by its own statements and by `main`'s only. -/
theorem SystemInv.stays_awake (hI : SystemInv s) (h : OsesProject.step cfg s e = some s')
    (hs : (s.k.thread .server).stat ≠ .suspend) (hsrv : ∀ choice, e ≠ .thread .server choice)
    (hmain : s.mainPc ≠ .suspendServer) : (s'.k.thread .server).stat ≠ .suspend := by
  refine (run_invariant
    (fun x : Threads Tid Lock AppTimer => LockInv x ∧ (x.k.thread .server).stat ≠ .suspend) ?_
    ⟨hI.locks, hs⟩ (step_calls h)).2
  intro c hc x x' hx hcall
  refine ⟨hx.1.call hcall, hx.1.stays_awake hcall hx.2 ?_ ?_⟩
  · rintro rfl
    obtain ⟨choice, he⟩ := origin_of_mem hc
    exact hsrv choice he
  · rintro rfl
    obtain ⟨-, ⟨choice, he⟩ | ⟨hm, -⟩⟩ := origin_of_mem hc
    · exact hsrv choice he
    · exact hmain hm

/-- A server that is neither suspended nor running keeps its state until the scheduler switches to
it, `main`'s own statements apart. -/
theorem SystemInv.stays_put (hI : SystemInv s) (h : OsesProject.step cfg s e = some s')
    (hs : (s.k.thread .server).stat ≠ .suspend) (hr : (s.k.thread .server).stat ≠ .running)
    (hsrv : ∀ choice, e ≠ .thread .server choice) (hmain : ∀ choice, e ≠ .thread .main choice)
    (hsw : e ≠ .switch .server) : (s'.k.thread .server).stat = (s.k.thread .server).stat := by
  refine (run_invariant
    (fun x : Threads Tid Lock AppTimer => LockInv x ∧
      (x.k.thread .server).stat = (s.k.thread .server).stat) ?_ ⟨hI.locks, rfl⟩ (step_calls h)).2
  intro c hc x x' hx hcall
  refine ⟨hx.1.call hcall, (hx.1.stays_put hcall ?_ ?_ ?_ ?_ ?_).trans hx.2⟩
  · exact hx.2 ▸ hs
  · exact hx.2 ▸ hr
  · rintro rfl
    obtain ⟨-, ⟨choice, he⟩ | ⟨-, choice, he⟩⟩ := origin_of_mem hc
    · exact hsrv choice he
    · exact hmain choice he
  · rintro rfl
    obtain ⟨⟨choice, he⟩, -⟩ := origin_of_mem hc
    exact hmain choice he
  · rintro rfl
    exact hsw (origin_of_mem hc)

/-- `main` is moved on by its own statements only. -/
theorem step_mainPc (h : step cfg s e = some s') (hmain : ∀ choice, e ≠ .thread .main choice) :
    s'.mainPc = s.mainPc := by
  cases step_cases h with
  | server choice _ _ _ hstep => cases hstep <;> rfl
  | main choice => exact absurd rfl (hmain choice)
  | _ => rfl

/-- Once `rt_thread_deferrable_init` has returned, `main` does not suspend the server again. -/
theorem step_initDone (h : step cfg s e = some s')
    (hmain : s.mainPc ≠ .startup ∧ s.mainPc ≠ .suspendServer) :
    s'.mainPc ≠ .startup ∧ s'.mainPc ≠ .suspendServer := by
  cases step_cases h with
  | server choice _ _ _ hstep => cases hstep <;> exact hmain
  | main choice _ _ _ hstep =>
    unfold State.mainStep at hstep
    cases hpc : s.mainPc with
    | startup => exact absurd hpc hmain.1
    | suspendServer => exact absurd hpc hmain.2
    | startProducer | startConsumer =>
      simp only [hpc] at hstep
      obtain ⟨k, -, he⟩ := Option.map_eq_some_iff.mp hstep
      have := congrArg State.mainPc he
      simp only at this ⊢
      rw [← this]
      decide
    | exit =>
      simp only [hpc] at hstep
      have := congrArg State.mainPc (Option.some.inj hstep)
      simp only at this ⊢
      rw [← this]
      decide
    | done => simp [hpc] at hstep
  | _ => exact hmain

end OsesProject
