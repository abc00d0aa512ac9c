import OsesProject.Application.Boot
import OsesProject.Laws.Budget

/-!
# Tasks and mutexes while the system starts

`main` enables the buttons before it creates the mutexes, and is more urgent than the server. While
it does not wait, the server does not run (`WindowInv`); when it waits for the semaphore of the
heap, the server runs the tasks that have been inserted, with the mutexes there are. So no task
finds its mutex missing if a button whose mutex is missing has not been pressed when `main` waits
(`no_null_mutex`), and one does otherwise (`null_mutex_taken`).

The server runs nothing but what has been inserted, whatever has become of its list (`Sourced`).
-/

set_option linter.unusedSectionVars false

namespace OsesProject

open Machine

/-! ## What the server runs has been inserted -/

section Links

variable {ν : Type*} [DecidableEq ν] {P : ν → Prop} {h : ν → Links ν} {l n : ν}

/-- Every pointer of the heap leads to a node of the kind `P`. -/
def LinksIn (P : ν → Prop) (h : ν → Links ν) : Prop := ∀ n, P (h n).next ∧ P (h n).prev

theorem LinksIn.setNext (hP : LinksIn P h) (hn : P n) : LinksIn P (setNext h l n) := by
  intro a
  rw [setNext_next, setNext_prev]
  split
  · exact ⟨hn, (hP a).2⟩
  · exact hP a

theorem LinksIn.setPrev (hP : LinksIn P h) (hn : P n) : LinksIn P (setPrev h l n) := by
  intro a
  rw [setPrev_next, setPrev_prev]
  split
  · exact ⟨(hP a).1, hn⟩
  · exact hP a

theorem LinksIn.rtListInit (hP : LinksIn P h) (hl : P l) : LinksIn P (rtListInit h l) :=
  (hP.setPrev hl).setNext hl

theorem LinksIn.rtListInsertBefore (hP : LinksIn P h) (hl : P l) (hn : P n) :
    LinksIn P (rtListInsertBefore h l n) := by
  have h₁ : LinksIn P (OsesProject.setNext h (h l).prev n) := hP.setNext hn
  exact ((h₁.setPrev (h₁ l).2).setPrev hn).setNext hl

theorem LinksIn.rtListRemove (hP : LinksIn P h) (hn : P n) : LinksIn P (rtListRemove h n) := by
  have h₁ : LinksIn P (OsesProject.setPrev h (h n).next (h n).prev) := hP.setPrev (hP n).2
  have h₂ := h₁.setNext (l := (OsesProject.setPrev h (h n).next (h n).prev n).prev) (h₁ n).1
  exact (h₂.setPrev hn).setNext hn

end Links

section Sourced

variable {τ : Type} [DecidableEq τ] {cfg : Config τ} {s s' : State τ} {e : Event τ}

/-- The node is not the one of a task that has not been inserted. -/
def OfInserted (inserted : List τ) (n : Ptr τ) : Prop := ∀ a, n = .tlist a → a ∈ inserted

theorem OfInserted.mono {inserted inserted' : List τ} (hsub : inserted ⊆ inserted') {n : Ptr τ}
    (h : OfInserted inserted n) : OfInserted inserted' n := fun a ha => hsub (h a ha)

/-- What the server has to do comes from tasks that have been inserted. -/
structure Sourced (cfg : Config τ) (s : State τ) : Prop where
  links : LinksIn (OfInserted s.inserted) s.heap
  place : ∀ n, s.serverPc = .call n ∨ s.serverPc = .task n ∨ s.serverPc = .remove n →
    OfInserted s.inserted n
  takes : ∀ m, .take m ∈ (s.pc .server).todo →
    ∃ a ∈ s.inserted, ∃ choice, .take m ∈ cfg.body a choice

/-- **Every step keeps it.** -/
theorem Sourced.step (hS : Sourced cfg s) (h : OsesProject.step cfg s e = some s') :
    Sourced cfg s' := by
  by_cases hsrv : ∃ choice, e = .thread .server choice
  · obtain ⟨choice, rfl⟩ := hsrv
    have elsewhere : ∀ {pc : ServerPc τ}, (∀ n, pc ≠ .call n ∧ pc ≠ .task n ∧ pc ≠ .remove n) →
        ∀ n, pc = .call n ∨ pc = .task n ∨ pc = .remove n → OfInserted s.inserted n := by
      rintro pc hpc n (h | h | h)
      · exact absurd h (hpc n).1
      · exact absurd h (hpc n).2.1
      · exact absurd h (hpc n).2.2
    cases step_cases h with
    | load t _ ht => simp at ht
    | act t _ ht => simp at ht
    | server _ _ _ _ hstep =>
      cases hstep with
      | fetch hs =>
        refine ⟨hS.links, ?_, hS.takes⟩
        rintro n (hn | hn | hn)
        · cases hn
          exact (hS.links _).1
        · cases hn
        · cases hn
      | call a hs =>
        have ha : a ∈ s.inserted := hS.place _ (.inl hs) a rfl
        refine ⟨hS.links, ?_, ?_⟩
        · rintro n (hn | hn | hn)
          · cases hn
          · cases hn
            exact hS.place _ (.inl hs)
          · cases hn
        · intro m hm
          exact ⟨a, ha, choice, by simpa [Pc.todo] using hm⟩
      | act n hs hpc hk =>
        refine ⟨hS.links, hS.place, fun m hm => hS.takes m ?_⟩
        exact (Kernel.actStep_todo hk).subset (by simpa using hm)
      | ret n hs =>
        refine ⟨hS.links, ?_, hS.takes⟩
        rintro n' (hn | hn | hn)
        · cases hn
        · cases hn
        · cases hn
          exact hS.place _ (.inr (.inl hs))
      | remove n hs =>
        exact ⟨hS.links.rtListRemove (hS.place _ (.inr (.inr hs))), elsewhere (by simp), hS.takes⟩
      | loop hs =>
        refine ⟨hS.links, elsewhere ?_, hS.takes⟩
        intro n
        split <;> simp
      | test hs =>
        refine ⟨hS.links, elsewhere ?_, hS.takes⟩
        intro n
        split <;> simp
      | entry hs | start hs | setActive hs | stop hs | suspend hs | clear hs | sched hs =>
        exact ⟨hS.links, elsewhere (by simp), hS.takes⟩
  · have hsrv : ∀ choice, e ≠ .thread .server choice := fun c hc => hsrv ⟨c, hc⟩
    obtain ⟨hpc, hspc, -⟩ := step_server_frame h hsrv
    cases hins : insertion cfg s e with
    | none =>
      obtain ⟨hheap, hinserted⟩ := step_queue_frame h hins hsrv
      refine ⟨?_, ?_, ?_⟩
      · rw [hheap, hinserted]
        exact hS.links
      · rw [hspc, hinserted]
        exact hS.place
      · rw [hpc, hinserted]
        exact hS.takes
    | some a =>
      obtain ⟨hheap, hinserted, -⟩ := step_insertion h hins
      have hsub : s.inserted ⊆ s'.inserted := by
        rw [hinserted]
        exact List.subset_append_left _ _
      have hknown : OfInserted s'.inserted (.tlist a) := by
        intro b hb
        cases hb
        rw [hinserted]
        exact List.mem_append_right _ List.mem_cons_self
      have hlinks : LinksIn (OfInserted s'.inserted) s.heap := fun n =>
        ⟨(hS.links n).1.mono hsub, (hS.links n).2.mono hsub⟩
      refine ⟨?_, ?_, ?_⟩
      · rw [hheap]
        exact (hlinks.rtListInit hknown).rtListInsertBefore (fun b hb => by cases hb) hknown
      · intro n hn
        rw [hspc] at hn
        exact (hS.place n hn).mono hsub
      · intro m hm
        rw [hpc] at hm
        obtain ⟨b, hb, hbody⟩ := hS.takes m hm
        exact ⟨b, hsub hb, hbody⟩

end Sourced

/-! ## `main` while others run -/

section Frame

variable {τ : Type} [DecidableEq τ] {cfg : Config τ} {s s' : State τ} {e : Event τ}

/-- A call that is no action and begins no program keeps the laws of every run. -/
theorem SystemInv.call (hI : SystemInv s) {c : Call Tid Lock AppTimer}
    {k : Kernel Tid Lock AppTimer} (hc : s.threads.call c = some ⟨k, s.pc⟩)
    (hne : c ≠ .timerStart .server) : SystemInv { s with k := k } where
  locks := hI.locks.call hc
  idle := hI.idle
  noReplenishment := Threads.call_stopped hc hne hI.noReplenishment

/-- A thread ends by a statement of `main` only. -/
theorem calls_exit {t : Tid} (h : .exit t ∈ calls cfg s e) :
    ∃ choice, e = .thread .main choice := by
  cases e with
  | thread u choice =>
    cases u with
    | main => exact ⟨choice, rfl⟩
    | server =>
      simp only [calls, serverCalls] at h
      split at h
      case h_3 => split at h <;> simp at h
      all_goals simp at h
    | producer | consumer | idle =>
      simp only [calls] at h
      split at h <;> simp at h
  | press b | insert a =>
    simp only [calls] at h
    split at h <;> simp at h
  | expire =>
    simp only [calls] at h
    split at h
    case h_4 => simp [periodCalls] at h
    all_goals simp [capacityCalls] at h
  | period => simp [calls, periodCalls] at h
  | switch t | tick | checked | capacity => simp [calls, capacityCalls] at h

/-- What an event leaves to `main`, when it is no statement of its own. -/
theorem step_main_frame (hI : SystemInv s) (h : step cfg s e = some s')
    (hpc : s.pc .main = .run []) (hmain : ∀ choice, e ≠ .thread .main choice) :
    s'.pc .main = .run [] ∧
      (s'.k.thread .main).currentPriority = (s.k.thread .main).currentPriority ∧
      ((∀ t, e ≠ .switch t) →
        (s'.k.thread .main).stat = (s.k.thread .main).stat ∧ s'.k.current = s.k.current) := by
  have hinv := run_invariant (fun x => LockInv x ∧ x.pc Tid.main = .run [] ∧
    (x.k.thread .main).currentPriority = (s.k.thread .main).currentPriority ∧
    ((∀ t, e ≠ .switch t) →
      (x.k.thread .main).stat = (s.k.thread .main).stat ∧ x.k.current = s.k.current)) ?_
    ⟨hI.locks, hpc, rfl, fun _ => ⟨rfl, rfl⟩⟩ (step_calls h)
  · exact hinv.2
  · rintro c hc x x' ⟨hL, hpc, hprio, hstat⟩ hcall
    have horigin := origin_of_mem hc
    have hact : c ≠ .act Tid.main := by
      rintro rfl
      obtain ⟨choice, he⟩ := horigin
      exact hmain choice he
    have hpc' : x'.pc .main = .run [] := by
      refine (Threads.call_pc_of_ne hcall hact ?_).trans hpc
      rintro prog rfl
      obtain ⟨choice, he⟩ := horigin
      exact hmain choice he
    refine ⟨hL.call hcall, hpc',
      (Threads.call_priority_idle hL hcall hpc hpc' ?_).trans hprio, fun hsw => ?_⟩
    · cases c with
      | control t priority =>
        rintro rfl
        cases horigin.1
      | startup t =>
        rintro rfl
        obtain ⟨⟨choice, he⟩, -⟩ := horigin
        exact hmain choice he
      | _ => exact id
    · have hchange := hL.statChange_of_call hcall Tid.main
      obtain ⟨hst, hcur⟩ := hstat hsw
      refine ⟨?_, (Threads.call_current hcall ?_).trans hcur⟩
      · rw [← hst]
        generalize (x'.k.thread .main).stat = stat at hchange ⊢
        cases hchange with
        | same => rfl
        | own => exact absurd rfl hact
        | granted t m _ hm => exact absurd hm (hL.not_waits hpc m)
        | resumed => cases horigin.1
        | suspended => cases horigin.1
        | started =>
          obtain ⟨⟨choice, he⟩, -⟩ := horigin
          exact absurd he (hmain choice)
        | exited =>
          obtain ⟨choice, he⟩ := calls_exit hc
          exact absurd he (hmain choice)
        | timedOut _ _ hmem =>
          obtain ⟨todo, htodo⟩ := (hL.sleeps .main hmem).1
          rw [hpc] at htodo
          cases htodo
        | chosen => exact absurd horigin (hsw _)
        | preempted t => exact absurd horigin (hsw _)
      · rintro t rfl
        exact hsw t horigin

end Frame

/-! ## The window -/

/-- The button a task belongs to. -/
def Task.button : Task → Button
  | .writeRawMemAsync | .readRawMemAsync => .raw
  | .writeBenchMemAsync | .readBenchMemAsync => .bench

/-- A task takes the lock of the bus and the mutex of its button. -/
theorem thdFun_take {a : Task} {polls : Nat} {m : Lock} (h : .take m ∈ thdFun a polls) :
    m = .spi ∨ m = a.button.lock := by
  have htransfers : ∀ {n}, .take m ∈ transfers .spi n → m = .spi := by
    intro n hmem
    simp only [transfers, List.mem_flatten, List.mem_replicate] at hmem
    obtain ⟨l, ⟨-, rfl⟩, hmem⟩ := hmem
    simpa using hmem
  have hwrite : ∀ {lock}, .take m ∈ writeMemAsync lock polls → m = .spi ∨ m = lock := by
    intro lock hmem
    simp only [writeMemAsync, List.mem_append, List.mem_cons, Act.take.injEq, reduceCtorEq,
      List.not_mem_nil, or_false] at hmem
    rcases hmem with hmem | hmem | hmem
    · split at hmem
      · cases hmem
      · exact .inl (htransfers hmem)
    · exact .inr hmem
    · exact .inl (htransfers hmem)
  have hread : ∀ {lock}, .take m ∈ readMemAsync lock → m = .spi ∨ m = lock := by
    intro lock hmem
    simp only [readMemAsync, List.mem_append, List.mem_cons, Act.take.injEq, reduceCtorEq,
      List.not_mem_nil, or_false] at hmem
    rcases hmem with hmem | hmem
    · exact .inr hmem
    · exact .inl (htransfers hmem)
  cases a with
  | writeRawMemAsync | writeBenchMemAsync => exact hwrite h
  | readRawMemAsync | readBenchMemAsync => exact hread h

namespace Boot

/-- `main` waits for the semaphore of the heap. -/
def MainWaits (s : Boot) : Prop := (s.sys.k.thread .main).stat = .suspend

/-- Every task that has been inserted has its mutex. -/
def HasMutexes (s : Boot) : Prop := ∀ a ∈ s.sys.inserted, s.mutex a.button = true

/-- What a step must not do: let `main` wait when a task without its mutex has been inserted, insert
one while `main` waits, make the server as urgent as `main` before there are both mutexes, or find
no memory for them. -/
def Covered (cfg : Config Task) (s : Boot) : BootEvent → Prop
  | .sys e => (∀ b, e = .press b → s.MainWaits → s.mutex b = true) ∧
      (RunsCapacity s.sys e → mainPriority < demotedPriority cfg ∨ ∀ b, s.mutex b = true)
  | .main found => (∀ b, s.pc = .malloc b → found = true) ∧
      ((∃ b, s.pc = .semTake b) → s.heapSem.value = 0 → s.HasMutexes)
  | .shell => True

/-- The scheduler's choice, and the events of the board. -/
def Allowed (s : Boot) : BootEvent → Prop
  | .sys e => e.OnBoard ∧ Scheduled s.sys e
  | _ => True

instance (s : Boot) : Decidable s.MainWaits := by
  unfold MainWaits
  infer_instance

instance (s : Boot) : Decidable s.HasMutexes := by
  unfold HasMutexes
  infer_instance

instance (cfg : Config Task) (s : Boot) (e : BootEvent) : Decidable (Covered cfg s e) := by
  cases e <;> unfold Covered <;> infer_instance

instance (s : Boot) (e : BootEvent) : Decidable (Allowed s e) := by
  cases e <;> unfold Allowed <;> infer_instance

/-- While a mutex is missing: `main` is more urgent than the server, which runs only when `main`
waits, and then every task inserted has its mutex. -/
structure WindowInv (s : Boot) : Prop where
  mainPc : s.sys.mainPc = .startProducer
  idle : s.sys.pc .main = .run []
  priority : (s.sys.k.thread .main).currentPriority = mainPriority
  floor : s.sys.threads.Floor .server (mainPriority + 1)
  others : (s.sys.k.thread .producer).stat = .init ∧ (s.sys.k.thread .consumer).stat = .init
  stat : s.MainWaits ∨ (s.sys.k.thread .main).stat = .ready ∨
    (s.sys.k.thread .main).stat = .running ∧ s.sys.k.current = .main
  server : s.sys.k.current = .server → s.MainWaits
  tasks : s.MainWaits → s.HasMutexes

variable {cfg : Config Task} {s : Boot} {sys' : State Task} {e : Event Task}

/-- The switch the scheduler makes. -/
private theorem WindowInv.switch (hW : WindowInv s) {t : Tid}
    {k : Kernel Tid Lock AppTimer} (hk : s.sys.k.rtScheduleTo t = some k)
    (hpick : s.sys.k.RtSchedulePicks t) :
    (((k.thread .main).stat = .suspend ↔ s.MainWaits)) ∧
      ((k.thread .main).stat = .suspend ∨ (k.thread .main).stat = .ready ∨
        (k.thread .main).stat = .running ∧ k.current = .main) ∧
      (k.current = .server → s.MainWaits) := by
  have hcur : k.current = t := by
    unfold Kernel.rtScheduleTo at hk
    split at hk
    · cases hk
      rfl
    · cases hk
  obtain ⟨hready, hstat⟩ := Kernel.rtScheduleTo_stat hk .main
  refine ⟨(Kernel.rtScheduleTo_frame hk).2.2.2 .main, ?_, ?_⟩
  · rw [hcur, hstat]
    by_cases ht : Tid.main = t
    · rw [if_pos ht]
      exact .inr (.inr ⟨rfl, ht.symm⟩)
    · rw [if_neg ht]
      rcases hW.stat with h | h | ⟨h, hc⟩
      · have h : (s.sys.k.thread .main).stat = .suspend := h
        simp [h]
      · simp [h]
      · simp [h, hc]
  · rw [hcur]
    rintro rfl
    have hfloor : mainPriority + 1 ≤ (s.sys.k.thread .server).currentPriority := hW.floor.current
    have hprio := hW.priority
    rcases hW.stat with h | h | ⟨h, hc⟩
    · exact h
    · have := hpick.1 .main h
      omega
    · have := hpick.2 (by rw [hc]; exact h)
      rw [hc] at this
      omega

/-- A thread that has not been started is not, but by a statement of `main`. -/
private theorem stays_init (hI : SystemInv s.sys)
    (h : OsesProject.step cfg s.sys e = some sys') (hmain : ∀ choice, e ≠ .thread .main choice)
    {u : Tid} (hu : (s.sys.k.thread u).stat = .init) : (sys'.k.thread u).stat = .init := by
  refine (run_invariant (fun x => LockInv x ∧ (x.k.thread u).stat = .init) ?_ ⟨hI.locks, hu⟩
    (step_calls h)).2
  rintro c hc x x' ⟨hL, hu⟩ hcall
  refine ⟨hL.call hcall, ?_⟩
  have hchange := hL.statChange_of_call hcall u
  generalize (x'.k.thread u).stat = stat at hchange ⊢
  cases hchange with
  | same => exact hu
  | started =>
    obtain ⟨⟨choice, he⟩, -⟩ := origin_of_mem hc
    exact absurd he (hmain choice)
  | granted t m _ hm =>
    have := (hL.waits u m hm).2.1
    rw [hu] at this
    cases this
  | suspended hs => rw [hu] at hs; simp at hs
  | own _ hs | resumed _ hs | timedOut _ hs | exited hs | chosen hs | preempted t hs =>
    rw [hu] at hs
    cases hs

/-- In the window nobody asks for a mutex of the server. -/
private theorem WindowInv.not_asksServer (hW : WindowInv s) (hI : SystemInv s.sys)
    (h : OsesProject.step cfg s.sys e = some sys') : ¬AsksServer s.sys e := by
  have hstarted : ∀ {t : Tid}, (s.sys.k.thread t).stat = .init →
      (s.sys.k.thread t).stat ≠ .running := by
    intro t hinit hrun
    rw [hinit] at hrun
    cases hrun
  cases e with
  | thread t choice =>
    rintro ⟨m, hm, hown⟩
    cases step_cases h with
    | server _ _ _ _ _ =>
      -- the server takes no mutex twice
      have hpc : ∃ todo, s.sys.pc .server = .run (.take m :: todo) := by
        cases hpc : s.sys.pc .server with
        | run todo =>
          rw [hpc] at hm
          cases todo with
          | nil => cases hm
          | cons a todo =>
            cases a with
            | take n =>
              cases hm
              exact ⟨todo, rfl⟩
            | release n | delay n => cases hm
        | inTake n todo | inSleep todo =>
          rw [hpc] at hm
          cases hm
      obtain ⟨todo, hpc⟩ := hpc
      exact (hI.locks.nested_take hpc).1 (hI.locks.owner_mem _ _ hown)
    | main _ _ _ _ _ =>
      rw [hW.idle] at hm
      cases hm
    | load t _ ht _ _ hrun =>
      rcases ht with rfl | rfl
      · exact hstarted hW.others.1 hrun
      · exact hstarted hW.others.2 hrun
    | act t _ ht _ _ hrun =>
      rcases ht with rfl | rfl
      · exact hstarted hW.others.1 hrun
      · exact hstarted hW.others.2 hrun
  | _ => exact id

/-- An event of the system. -/
theorem WindowInv.sys (hW : WindowInv s) (hI : SystemInv s.sys) (hmiss : ∃ b, s.mutex b = false)
    (h : OsesProject.step cfg s.sys e = some sys') (hmain : ∀ choice, e ≠ .thread .main choice)
    (hallowed : Allowed s (.sys e)) (hcov : Covered cfg s (.sys e))
    (htask : ∀ b d, (cfg.task b d).button = b) : WindowInv { s with sys := sys' } := by
  obtain ⟨hboard, hsched⟩ := hallowed
  obtain ⟨hidle, hprio, hquiet⟩ := step_main_frame hI h hW.idle hmain
  have hfloor : sys'.threads.Floor .server (mainPriority + 1) := by
    by_cases hcap : RunsCapacity s.sys e
    · obtain ⟨hm, hth, -⟩ := step_capacity h hcap
      have hlow : mainPriority < demotedPriority cfg := by
        refine (hcov.2 hcap).resolve_right fun hall => ?_
        obtain ⟨b, hb⟩ := hmiss
        rw [hall b] at hb
        cases hb
      refine ⟨?_, fun m hown => ?_⟩
      · show _ ≤ (sys'.k.thread .server).currentPriority
        rw [hth, Kernel.rtThreadChangePriority_priority, if_pos rfl]
        exact hlow
      · have hown : (s.sys.k.mutex m).owner = some .server := hm ▸ hown
        show _ ≤ (sys'.k.mutex m).originalPriority
        rw [hm]
        exact hW.floor.recorded m hown
    · exact step_floor hW.floor hI (by rw [hW.mainPc]; simp) h hcap (hI.not_runsPeriod hboard)
        (hW.not_asksServer hI h)
  -- what is inserted while `main` waits has its mutex
  have hinserted : s.MainWaits → ∀ a ∈ sys'.inserted, s.mutex a.button = true := by
    intro hwait a ha
    cases step_cases h with
    | press b =>
      rcases List.mem_append.mp ha with ha | ha
      · exact hW.tasks hwait a ha
      · rw [List.mem_singleton.mp ha, htask]
        exact hcov.1 b rfl hwait
    | insert a => exact absurd hboard id
    | server _ _ _ _ hstep => cases hstep <;> exact hW.tasks hwait a ha
    | _ => exact hW.tasks hwait a ha
  have hstat : ((sys'.k.thread .main).stat = .suspend ↔ s.MainWaits) ∧
      ((sys'.k.thread .main).stat = .suspend ∨ (sys'.k.thread .main).stat = .ready ∨
        (sys'.k.thread .main).stat = .running ∧ sys'.k.current = .main) ∧
      (sys'.k.current = .server → s.MainWaits) := by
    by_cases hsw : ∃ t, e = .switch t
    · obtain ⟨t, rfl⟩ := hsw
      cases step_cases h with
      | switch _ hk => exact hW.switch hk hsched
    · obtain ⟨hst, hcur⟩ := hquiet fun t ht => hsw ⟨t, ht⟩
      rw [hst, hcur]
      exact ⟨Iff.rfl, hW.stat, hW.server⟩
  exact
    { mainPc := (step_mainPc h hmain).trans hW.mainPc
      idle := hidle
      priority := hprio.trans hW.priority
      floor := hfloor
      others := ⟨stays_init hI h hmain hW.others.1, stays_init hI h hmain hW.others.2⟩
      stat := hstat.2.1
      server := fun hc => hstat.1.mpr (hstat.2.2 hc)
      tasks := fun hwait => hinserted (hstat.1.mp hwait) }

/-- A call on the threads `main` and the shell that is no action: what it leaves alone. -/
private theorem WindowInv.call (hW : WindowInv s) (hI : SystemInv s.sys)
    {c : Call Tid Lock AppTimer} {k : Kernel Tid Lock AppTimer} {u : Tid}
    (hc : s.sys.threads.call c = some ⟨k, s.sys.pc⟩) (hu : u = .main ∨ u = .idle)
    (hkind : c = .suspend u ∨ c = .resume u) :
    (k.thread .main).currentPriority = mainPriority ∧
      (⟨k, s.sys.pc⟩ : Threads Tid Lock AppTimer).Floor .server (mainPriority + 1) ∧
      ((k.thread .producer).stat = .init ∧ (k.thread .consumer).stat = .init) ∧
      k.current = s.sys.k.current := by
  have hctl : ∀ v, ¬c.Controls v := by
    rcases hkind with rfl | rfl <;> exact fun _ => id
  have hnew : ∀ v, v ≠ u → (s.sys.k.thread v).stat = .init → (k.thread v).stat = .init := by
    intro v hv hinit
    have hstat := hI.locks.stays_put hc (u := v) ?_ ?_ ?_ ?_ ?_
    · exact hstat.trans hinit
    · exact fun hs => by rw [show (s.sys.k.thread v).stat = .suspend from hs] at hinit; cases hinit
    · exact fun hs => by rw [show (s.sys.k.thread v).stat = .running from hs] at hinit; cases hinit
    · rcases hkind with rfl | rfl
      · exact fun he => hv (by cases he; rfl)
      · simp
    · rcases hkind with rfl | rfl <;> simp
    · rcases hkind with rfl | rfl <;> simp
  refine ⟨?_, ?_, ⟨hnew _ ?_ hW.others.1, hnew _ ?_ hW.others.2⟩, ?_⟩
  · exact (Threads.call_priority_idle hI.locks hc hW.idle hW.idle (hctl .main)).trans hW.priority
  · refine hW.floor.call hI.locks hc (hctl .server) ?_
    rintro t m todo rfl
    rcases hkind with h | h <;> cases h
  · rcases hu with rfl | rfl <;> simp
  · rcases hu with rfl | rfl <;> simp
  · refine Threads.call_current hc fun t ht => ?_
    rcases hkind with rfl | rfl <;> cases ht

/-- `main` or the shell is suspended by its own statement. -/
theorem WindowInv.suspend (hW : WindowInv s) (hI : SystemInv s.sys) {u : Tid}
    (hu : u = .main ∨ u = .idle) (hcur : s.sys.k.current = u)
    (htasks : u = .main → s.HasMutexes) :
    WindowInv { s with sys := { s.sys with k := s.sys.k.rtThreadSuspend u } } := by
  obtain ⟨hprio, hfloor, hothers, hcur'⟩ := hW.call hI (c := .suspend u) rfl hu (.inl rfl)
  have hserver : s.sys.k.current ≠ .server := by
    rw [hcur]
    rcases hu with rfl | rfl <;> simp
  have hstat := Kernel.rtThreadSuspend_stat s.sys.k u .main
  rcases hu with rfl | rfl
  · have hwait : ((s.sys.k.rtThreadSuspend .main).thread .main).stat = .suspend := by
      rw [hstat]
      rcases hW.stat with h | h | ⟨h, -⟩
      · have h : (s.sys.k.thread .main).stat = .suspend := h
        simp [h]
      · simp [h]
      · simp [h]
    exact ⟨hW.mainPc, hW.idle, hprio, hfloor, hothers, .inl hwait,
      fun hc => absurd (hcur'.symm.trans hc) hserver, fun _ => htasks rfl⟩
  · rw [if_neg (by simp)] at hstat
    refine ⟨hW.mainPc, hW.idle, hprio, hfloor, hothers, ?_,
      fun hc => absurd (hcur'.symm.trans hc) hserver,
      fun hwait => hW.tasks (hstat.symm.trans hwait)⟩
    show ((s.sys.k.rtThreadSuspend .idle).thread .main).stat = .suspend ∨
      ((s.sys.k.rtThreadSuspend .idle).thread .main).stat = .ready ∨
      ((s.sys.k.rtThreadSuspend .idle).thread .main).stat = .running ∧
        (s.sys.k.rtThreadSuspend .idle).current = .main
    rw [hstat, Kernel.rtThreadSuspend_current]
    exact hW.stat

/-- `main` or the shell is resumed, by a statement of `main` or of the shell. -/
theorem WindowInv.resume (hW : WindowInv s) (hI : SystemInv s.sys) {u : Tid}
    (hu : u = .main ∨ u = .idle) (hserver : s.sys.k.current ≠ .server) :
    WindowInv { s with sys := { s.sys with k := s.sys.k.rtThreadResume u } } := by
  obtain ⟨hprio, hfloor, hothers, hcur'⟩ := hW.call hI (c := .resume u) rfl hu (.inr rfl)
  have hstat := Kernel.rtThreadResume_stat s.sys.k u .main
  refine ⟨hW.mainPc, hW.idle, hprio, hfloor, hothers, ?_,
    fun hc => absurd (hcur'.symm.trans hc) hserver, fun hwait => ?_⟩
  · show ((s.sys.k.rtThreadResume u).thread .main).stat = .suspend ∨
      ((s.sys.k.rtThreadResume u).thread .main).stat = .ready ∨
      ((s.sys.k.rtThreadResume u).thread .main).stat = .running ∧
        (s.sys.k.rtThreadResume u).current = .main
    rw [hstat, Kernel.rtThreadResume_current]
    split
    · next hg =>
      obtain ⟨rfl, -⟩ := hg
      split
      · next hc => exact .inr (.inr ⟨rfl, hc.symm⟩)
      · exact .inr (.inl rfl)
    · exact hW.stat
  · have hwait : ((s.sys.k.rtThreadResume u).thread .main).stat = .suspend := hwait
    rw [hstat] at hwait
    split at hwait
    · split at hwait <;> cases hwait
    · exact hW.tasks hwait

/-- The window is a matter of the system, and of the mutexes there are. -/
theorem WindowInv.congr {s' : Boot} (hW : WindowInv s) (hsys : s'.sys = s.sys)
    (hmutex : ∀ b, s.mutex b = true → s'.mutex b = true) : WindowInv s' := by
  cases s'
  cases hsys
  exact ⟨hW.mainPc, hW.idle, hW.priority, hW.floor, hW.others, hW.stat, hW.server,
    fun hwait a ha => hmutex _ (hW.tasks hwait a ha)⟩

/-! ## Every run -/

/-- The mutexes there are when `main` is at a statement. -/
def created : BootPc → Button → Bool
  | .semTake .bench, .raw | .inSemTake .bench, .raw | .malloc .bench, .raw
  | .semRelease .bench _, .raw | .assign .bench _, .raw | .done, _ => true
  | _, _ => false

/-- `main` has found memory so far. -/
def Found : BootPc → Prop
  | .semRelease _ found | .assign _ found => found = true
  | .failed | .exited => False
  | _ => True

/-- What holds in every state of every run that is covered. -/
structure BootInv (cfg : Config Task) (s : Boot) : Prop where
  system : SystemInv s.sys
  sourced : Sourced cfg s.sys
  found : Found s.pc
  mutex : ∀ b, s.mutex b = created s.pc b
  waiters : ∀ t ∈ s.heapSem.suspendThread, t = .main ∨ t = .idle
  window : s.pc ≠ .done → WindowInv s

/-- A mutex is missing until `main` is done with both. -/
private theorem BootInv.missing (hB : BootInv cfg s) (hpc : s.pc ≠ .done) :
    ∃ b, s.mutex b = false := by
  refine ⟨.bench, ?_⟩
  rw [hB.mutex]
  cases h : s.pc with
  | done => exact absurd h hpc
  | failed | exited => rfl
  | enable b | semTake b | inSemTake b | malloc b | semRelease b | assign b => cases b <;> rfl

/-- An event of the system happens to the system alone; `main` has its own statements until it is
done with the mutexes. -/
theorem step_sys {s' : Boot} (h : Boot.step cfg s (.sys e) = some s') :
    ∃ sys', OsesProject.step cfg s.sys e = some sys' ∧ s' = { s with sys := sys' } ∧
      ∀ choice, e = .thread .main choice → s.pc = .done := by
  have plain : ∀ {e : Event Task}, (∀ choice, e ≠ .thread .main choice) →
      ((OsesProject.step cfg s.sys e).map fun sys => { s with sys := sys }) = some s' →
      ∃ sys', OsesProject.step cfg s.sys e = some sys' ∧ s' = { s with sys := sys' } ∧
        ∀ choice, e = .thread .main choice → s.pc = .done := by
    intro e hmain h
    obtain ⟨sys', hs, rfl⟩ := Option.map_eq_some_iff.mp h
    exact ⟨sys', hs, rfl, fun choice he => absurd he (hmain choice)⟩
  cases e with
  | press b =>
    simp only [Boot.step] at h
    split at h
    · exact plain (by simp) h
    · cases h
  | thread t choice =>
    cases t with
    | main =>
      simp only [Boot.step] at h
      split at h
      · next hdone =>
        obtain ⟨sys', hs, rfl⟩ := Option.map_eq_some_iff.mp h
        exact ⟨sys', hs, rfl, fun _ _ => hdone⟩
      · cases h
    | server | producer | consumer | idle => exact plain (by simp) h
  | insert a | switch t | tick | expire | checked | period | capacity => exact plain (by simp) h

/-- What the semaphore of the heap does to the invariant: a take, -/
private theorem BootInv.semTake (hB : BootInv cfg s) {u : Tid} (hu : u = .main ∨ u = .idle)
    (hcur : s.sys.k.current = u)
    (htasks : u = .main → s.pc ≠ .done → s.heapSem.value = 0 → s.HasMutexes) :
    BootInv cfg { s with
      sys := { s.sys with k := (s.sys.k.rtSemTake s.heapSem u).1 }
      heapSem := (s.sys.k.rtSemTake s.heapSem u).2.1 } := by
  unfold Kernel.rtSemTake
  split
  · exact ⟨hB.system, hB.sourced, hB.found, hB.mutex, hB.waiters,
      fun hpc => (hB.window hpc).congr rfl fun _ => id⟩
  · next hval =>
    refine ⟨hB.system.call (c := .suspend u) rfl (by simp), ?_, hB.found, hB.mutex, ?_, ?_⟩
    · exact ⟨hB.sourced.links, hB.sourced.place, hB.sourced.takes⟩
    · intro t ht
      rcases List.mem_append.mp ht with ht | ht
      · exact hB.waiters t ht
      · cases List.mem_singleton.mp ht
        exact hu
    · intro hpc
      exact ((hB.window hpc).suspend hB.system hu hcur fun hm => htasks hm hpc (by omega)).congr
        rfl fun _ => id

/-- and a release. -/
private theorem BootInv.semRelease (hB : BootInv cfg s) (hserver : s.sys.k.current ≠ .server) :
    BootInv cfg { s with
      sys := { s.sys with k := (s.sys.k.rtSemRelease s.heapSem).1 }
      heapSem := (s.sys.k.rtSemRelease s.heapSem).2 } := by
  unfold Kernel.rtSemRelease
  split
  · next t rest hlist =>
    have ht := hB.waiters t (by rw [hlist]; exact List.mem_cons_self)
    refine ⟨hB.system.call (c := .resume t) rfl (by simp), ?_, hB.found, hB.mutex, ?_, ?_⟩
    · exact ⟨hB.sourced.links, hB.sourced.place, hB.sourced.takes⟩
    · intro u hu
      exact hB.waiters u (by rw [hlist]; exact List.mem_cons_of_mem _ hu)
    · intro hpc
      exact ((hB.window hpc).resume hB.system ht hserver).congr rfl fun _ => id
  · split
    · exact ⟨hB.system, hB.sourced, hB.found, hB.mutex, hB.waiters,
        fun hpc => (hB.window hpc).congr rfl fun _ => id⟩
    · exact hB

/-- A statement that moves `main` on: what the new place has to fit. -/
private theorem BootInv.moved (hB : BootInv cfg s) {s' : Boot} (hsys : s'.sys = s.sys)
    (hsem : s'.heapSem = s.heapSem) (hfound : Found s'.pc)
    (hmutex : ∀ b, s'.mutex b = created s'.pc b)
    (hmono : ∀ b, s.mutex b = true → s'.mutex b = true) (hpc : s.pc ≠ .done) : BootInv cfg s' where
  system := hsys ▸ hB.system
  sourced := hsys ▸ hB.sourced
  found := hfound
  mutex := hmutex
  waiters := hsem ▸ hB.waiters
  window := fun _ => (hB.window hpc).congr hsys hmono

/-- A statement of `main`. -/
private theorem BootInv.main {s' : Boot} {found : Bool} (hB : BootInv cfg s)
    (hruns : s.Runs .main) (hcov : Covered cfg s (.main found))
    (h : s.mainStep found = some s') : BootInv cfg s' := by
  have hserver : s.sys.k.current ≠ .server := by
    rw [hruns.2.1]
    simp
  have hmutex := hB.mutex
  have hfound := hB.found
  unfold mainStep at h
  cases hpc : s.pc with
  | enable b =>
    simp only [hpc] at h hmutex
    cases h
    cases b <;> exact hB.moved rfl rfl trivial hmutex (fun _ => id) (by simp [hpc])
  | semTake b =>
    simp only [hpc] at h hmutex
    cases h
    have htake := hB.semTake (.inl rfl) hruns.2.1 fun _ _ => hcov.2 ⟨b, hpc⟩
    refine htake.moved rfl rfl ?_ ?_ (fun _ => id) (by simp [hpc])
    · dsimp only
      split <;> trivial
    · intro b'
      rw [hmutex]
      dsimp only
      split <;> cases b <;> cases b' <;> rfl
  | inSemTake b =>
    simp only [hpc] at h hmutex
    cases h
    refine hB.moved rfl rfl trivial ?_ (fun _ => id) (by simp [hpc])
    intro b'
    rw [hmutex]
    cases b <;> cases b' <;> rfl
  | malloc b =>
    simp only [hpc] at h hmutex
    cases h
    refine hB.moved rfl rfl (hcov.1 b hpc) ?_ (fun _ => id) (by simp [hpc])
    intro b'
    rw [hmutex]
    cases b <;> cases b' <;> rfl
  | semRelease b found =>
    simp only [hpc] at h hmutex hfound
    cases h
    refine (hB.semRelease hserver).moved rfl rfl hfound ?_ (fun _ => id) (by simp [hpc])
    intro b'
    rw [hmutex]
    cases b <;> cases b' <;> rfl
  | assign b found =>
    simp only [hpc] at h hmutex hfound
    have hfound : found = true := hfound
    rw [if_pos hfound] at h
    cases h
    refine hB.moved rfl rfl ?_ ?_ ?_ (by simp [hpc])
    · cases b <;> trivial
    · intro b'
      by_cases hb : b' = b
      · subst hb
        cases b' <;> simp [created]
      · simp only [Function.update_of_ne hb, hmutex]
        cases b <;> cases b' <;> first | rfl | exact absurd rfl hb
    · intro b' hb'
      by_cases hb : b' = b
      · simp [hb]
      · simpa [hb] using hb'
  | failed | exited =>
    rw [hpc] at hfound
    exact absurd hfound id
  | done => simp [hpc] at h

/-- A statement of the shell. -/
private theorem BootInv.shell (hB : BootInv cfg s) (hruns : s.Runs .idle) :
    BootInv cfg s.shellStep := by
  have hserver : s.sys.k.current ≠ .server := by
    rw [hruns.2.1]
    simp
  have moved : ∀ {s : Boot} (pc : ShellPc), BootInv cfg s → BootInv cfg { s with shellPc := pc } :=
    fun _ hB => ⟨hB.system, hB.sourced, hB.found, hB.mutex, hB.waiters,
      fun hpc => (hB.window hpc).congr rfl fun _ => id⟩
  unfold shellStep
  split
  · exact moved _ (hB.semTake (.inr rfl) hruns.2.1 fun h => by cases h)
  · exact moved _ hB
  · exact moved _ (hB.semRelease hserver)

/-- **Every step keeps the invariant.** -/
theorem BootInv.step {s' : Boot} {e : BootEvent} (hB : BootInv cfg s)
    (h : Boot.step cfg s e = some s') (hallowed : Allowed s e) (hcov : Covered cfg s e)
    (htask : ∀ b d, (cfg.task b d).button = b) : BootInv cfg s' := by
  cases e with
  | sys e =>
    obtain ⟨sys', hs, rfl, hmain⟩ := step_sys h
    refine ⟨hB.system.step hs, hB.sourced.step hs, hB.found, hB.mutex, hB.waiters, fun hpc => ?_⟩
    exact (hB.window hpc).sys hB.system (hB.missing hpc) hs
      (fun choice he => hpc (hmain choice he)) hallowed hcov htask
  | main found =>
    simp only [Boot.step] at h
    split at h
    · next hruns => exact hB.main hruns hcov h
    · cases h
  | shell =>
    simp only [Boot.step] at h
    split at h
    · next hruns =>
      cases h
      exact hB.shell hruns
    · cases h

theorem start_systemInv (cfg : Config Task) (tick shell : Nat) (inside : Bool) :
    SystemInv (start cfg tick shell inside).sys where
  locks := (initial_lockInv cfg mainPriority tick .suspend .startProducer).frame rfl rfl
    (fun t ht => absurd rfl ht) (fun t ht => ht) (fun i hi => by cases hi)
  idle := fun _ => rfl
  noReplenishment := ⟨List.not_mem_nil, rfl⟩

theorem start_bootInv (cfg : Config Task) (tick shell : Nat) (inside : Bool)
    (hprio : mainPriority < cfg.priority) : BootInv cfg (start cfg tick shell inside) where
  system := start_systemInv cfg tick shell inside
  sourced :=
    { links := by
        intro n
        rw [start]
        simp only [afterInit, initial, rtListInit_next, rtListInit_prev]
        constructor
        · intro a ha
          split at ha <;> cases ha
        · intro a ha
          split at ha <;> cases ha
      place := by
        rintro n (h | h | h) <;> cases h
      takes := by
        intro m hm
        cases hm }
  found := trivial
  mutex := fun b => by cases b <;> rfl
  waiters := fun t ht => by cases ht
  window := fun _ =>
    { mainPc := rfl
      idle := rfl
      priority := rfl
      floor := ⟨hprio, fun m hown => by cases hown⟩
      others := ⟨rfl, rfl⟩
      stat := .inr (.inr ⟨rfl, rfl⟩)
      server := fun h => by cases h
      tasks := fun h => by cases h }

end Boot

open Boot in
/-- **No task runs before its mutex exists.** In every run of `main`, the server, the shell, the
buttons and the tick interrupt that the scheduler allows, from the return of
`rt_thread_deferrable_init` on, with the shell inside `rt_malloc` then or not: if `main` does not
wait for the semaphore of the heap while a task without its mutex is in the queue, the server is not
made as urgent as `main` before both mutexes exist, and there is memory for them, then no task calls
`rt_mutex_take` with a null pointer. -/
theorem no_null_mutex (memory : Nat → UInt8) (tick shell : Nat) (inside : Bool) {s : Boot}
    (hreach : Reach (Boot.step (board memory))
      (fun s e => Allowed s e ∧ Covered (board memory) s e)
      (start (board memory) tick shell inside) s) : ¬s.TakesNull := by
  have hB := hreach.invariant (BootInv (board memory))
    (start_bootInv (board memory) tick shell inside (show mainPriority < 17 by decide))
    fun s e s' hB hok h =>
      hB.step h hok.1 hok.2 fun b d => by cases b <;> cases d <;> rfl
  rintro ⟨hcur, -, b, todo, hpc, hmiss⟩
  have hwindow : s.pc ≠ .done := by
    intro hdone
    rw [hB.mutex, hdone] at hmiss
    cases b <;> cases hmiss
  have hW := hB.window hwindow
  obtain ⟨a, ha, choice, hbody⟩ := hB.sourced.takes b.lock (by rw [hpc]; exact List.mem_cons_self)
  have hmutex := hW.tasks (hW.server hcur) a ha
  -- the mutex asked for is the one of the task's own button
  have hbutton : b = a.button := by
    rcases thdFun_take hbody with h | h
    · cases b <;> cases h
    · revert h
      cases b <;> cases a.button <;> simp [Button.lock]
  rw [hbutton, hmutex] at hmiss
  cases hmiss

open BootEvent in
/-- `main` waits for the shell before any button is pressed, and goes on to its end; the first
button is pressed then, and the server begins its task. -/
def bootWithoutPress : List BootEvent :=
  [main true, main true, main true, sys (.switch .idle), shell, sys (.switch .main)] ++
    List.replicate 8 (main true) ++ [sys (.press .raw), sys (.thread .main 0)] ++
    sys (.switch .producer) :: List.replicate 17 (sys (.thread .producer 0)) ++
    [sys (.switch .main), sys (.thread .main 0), sys (.thread .main 0), sys (.switch .server)] ++
    List.replicate 6 (sys (.thread .server 0))

open Boot in
/-- The task then takes a mutex that exists. -/
theorem no_null_mutex_bootWithoutPress :
    ∃ s, run (Boot.step (board fun _ => 0)) (start (board fun _ => 0) 0 20 true)
        bootWithoutPress = some s ∧
      nextTake (s.sys.pc .server) = some .raw ∧ s.mutex .raw = true ∧ ¬s.TakesNull := by
  have hrun : ((run (Boot.step (board fun _ => 0)) (start (board fun _ => 0) 0 20 true)
      bootWithoutPress).map fun s => (nextTake (s.sys.pc .server), s.mutex .raw)) =
        some (some .raw, true) := by decide +kernel
  obtain ⟨s, hs, hd⟩ := Option.map_eq_some_iff.mp hrun
  obtain ⟨htake, hmutex⟩ := Prod.mk.inj hd
  exact ⟨s, hs, htake, hmutex, no_null_mutex (fun _ => 0) 0 20 true
    (Reach.of_each .refl (by decide +kernel) hs)⟩

open BootEvent in
/-- The first button is pressed as soon as it is enabled, and `main` waits for the shell in its
first `rt_mutex_create`. -/
def bootWithPress : List BootEvent :=
  [main true, sys (.press .raw), main true, main true, sys (.switch .server)] ++
    List.replicate 6 (sys (.thread .server 0))

open Boot in
/-- The server runs the task, and `raw_mutex` is null. -/
theorem null_mutex_taken :
    ∃ s, Each (Boot.step (board fun _ => 0)) Allowed (start (board fun _ => 0) 0 20 true)
        bootWithPress ∧
      run (Boot.step (board fun _ => 0)) (start (board fun _ => 0) 0 20 true) bootWithPress =
        some s ∧ s.TakesNull := by
  have hrun : ((run (Boot.step (board fun _ => 0)) (start (board fun _ => 0) 0 20 true)
      bootWithPress).map fun s => (s.sys.k.current, (s.sys.k.thread .server).stat,
        decide (s.sys.pc .server = .run (thdFun .writeRawMemAsync 0)), s.mutex .raw)) =
        some (.server, .running, true, false) := by decide +kernel
  obtain ⟨s, hs, hd⟩ := Option.map_eq_some_iff.mp hrun
  simp only [Prod.mk.injEq, decide_eq_true_eq] at hd
  obtain ⟨hcur, hstat, hpc, hmutex⟩ := hd
  exact ⟨s, by decide +kernel, hs, hcur, hstat, .raw, _, hpc, hmutex⟩

end OsesProject
