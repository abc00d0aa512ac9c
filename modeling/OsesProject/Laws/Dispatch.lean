import OsesProject.Laws.System
import OsesProject.Application.Procedure

/-!
# The server dispatches tasks only

The loop of the server takes the first node of the queue without testing for an empty one, and
relies on not being woken then. It is made ready in three places: at its start, by an insertion and
by `rt_timer_deferrable_period`.

The laws here hold for every order of insertions, of pending tasks too, after which the queue may
be out of order. What remains of it is `ListInv`: the pointers lead to the list head and to tasks
that have been inserted, and the head points at itself forwards exactly when it does so backwards.
With it an insertion never leaves the head pointing at itself, and so `dispatches_tasks`: when the
scheduler does not switch to the server before `rt_thread_deferrable_init` has returned, and the
period callback finds no suspended server behind an empty queue, the server never calls through the
list head. Both are needed: a caller less urgent than the server is preempted by it
(`dispatches_head_at_start`), and the callback resumes the server because the queue is empty
(`dispatches_head_after_period`).
-/

set_option linter.unusedSectionVars false

namespace OsesProject

open Machine

variable {τ : Type} [DecidableEq τ] {cfg : Config τ} {s s' : State τ} {e : Event τ}

/-! ## Pointers after any insertions and removals -/

/-- The list head and the nodes of the given tasks. -/
def Known (as : List τ) (n : Ptr τ) : Prop := n = .asyncTask ∨ ∃ a ∈ as, n = .tlist a

/-- The pointers of known nodes lead to known nodes, and the head points at itself both ways or
neither way. -/
structure ListInv (h : Ptr τ → Links (Ptr τ)) (as : List τ) : Prop where
  next : ∀ n, Known as n → Known as (h n).next
  prev : ∀ n, Known as n → Known as (h n).prev
  head : (h .asyncTask).next = .asyncTask ↔ (h .asyncTask).prev = .asyncTask

variable {h : Ptr τ → Links (Ptr τ)} {as : List τ}

theorem Known.append {n : Ptr τ} (hn : Known as n) (a : τ) : Known (as ++ [a]) n :=
  hn.imp_right fun ⟨b, hb, he⟩ => ⟨b, List.mem_append_left _ hb, he⟩

/-- The first node after an insertion. -/
theorem insert_next (h : Ptr τ → Links (Ptr τ)) (a : τ) :
    (rtListInsertBefore (rtListInit h (.tlist a)) .asyncTask (.tlist a) .asyncTask).next =
      if (h .asyncTask).prev = .asyncTask then .tlist a else (h .asyncTask).next := by
  have hprev : (rtListInit h (.tlist a) .asyncTask).prev = (h .asyncTask).prev := by
    rw [rtListInit_prev, if_neg (by simp)]
  have hnext : (rtListInit h (.tlist a) .asyncTask).next = (h .asyncTask).next := by
    rw [rtListInit_next, if_neg (by simp)]
  rw [rtListInsertBefore_next, hprev, hnext, if_neg (by simp)]
  by_cases hself : (h .asyncTask).prev = .asyncTask
  · rw [if_pos hself.symm, if_pos hself]
  · rw [if_neg fun he => hself he.symm, if_neg hself]

/-- After an insertion the list head does not point at itself. -/
theorem insert_next_ne (hL : ListInv h as) (a : τ) :
    (rtListInsertBefore (rtListInit h (.tlist a)) .asyncTask (.tlist a) .asyncTask).next ≠
      .asyncTask := by
  rw [insert_next]
  split
  · simp
  · next hne => exact fun hself => hne (hL.head.mp hself)

/-- An insertion leaves the first node alone when there is one. -/
theorem insert_next_eq (hL : ListInv h as) (a : τ) (hne : (h .asyncTask).next ≠ .asyncTask) :
    (rtListInsertBefore (rtListInit h (.tlist a)) .asyncTask (.tlist a) .asyncTask).next =
      (h .asyncTask).next := by
  rw [insert_next, if_neg fun hself => hne (hL.head.mpr hself)]

theorem ListInv.insert (hL : ListInv h as) (a : τ) :
    ListInv (rtListInsertBefore (rtListInit h (.tlist a)) .asyncTask (.tlist a)) (as ++ [a]) where
  next := by
    intro n hn
    rw [rtListInsertBefore_next]
    split
    · exact .inl rfl
    · next hna =>
      split
      · exact .inr ⟨a, by simp, rfl⟩
      · rw [rtListInit_next, if_neg hna]
        refine (hL.next n (hn.imp_right ?_)).append a
        rintro ⟨b, hb, rfl⟩
        refine ⟨b, (List.mem_append.mp hb).resolve_right fun hba => hna ?_, rfl⟩
        rw [List.mem_singleton.mp hba]
  prev := by
    intro n hn
    rw [rtListInsertBefore_prev]
    split
    · exact .inr ⟨a, by simp, rfl⟩
    · split
      · rw [rtListInit_prev, if_neg (by simp)]
        exact (hL.prev _ (.inl rfl)).append a
      · next hna =>
        rw [rtListInit_prev, if_neg hna]
        refine (hL.prev n (hn.imp_right ?_)).append a
        rintro ⟨b, hb, rfl⟩
        refine ⟨b, (List.mem_append.mp hb).resolve_right fun hba => hna ?_, rfl⟩
        rw [List.mem_singleton.mp hba]
  head := by
    have hne := insert_next_ne hL a
    constructor
    · intro hself
      exact absurd hself hne
    · intro hself
      rw [rtListInsertBefore_prev, if_pos rfl] at hself
      cases hself

/-- The first node can be removed, in whatever order the queue is. -/
theorem ListInv.remove (hL : ListInv h as) {a : τ} (ha : a ∈ as)
    (hfirst : (h .asyncTask).next = .tlist a) : ListInv (rtListRemove h (.tlist a)) as where
  next := by
    intro n hn
    rw [rtListRemove_next]
    split
    · exact .inr ⟨a, ha, rfl⟩
    · split
      · exact hL.next _ (.inr ⟨a, ha, rfl⟩)
      · exact hL.next n hn
  prev := by
    intro n hn
    rw [rtListRemove_prev]
    split
    · exact .inr ⟨a, ha, rfl⟩
    · split
      · exact hL.prev _ (.inr ⟨a, ha, rfl⟩)
      · exact hL.prev n hn
  head := by
    have hprev : (h .asyncTask).prev ≠ .asyncTask := by
      intro hself
      rw [hL.head.mpr hself] at hfirst
      cases hfirst
    have hnext' : (rtListRemove h (.tlist a) .asyncTask).next =
        if (h (.tlist a)).prev = .asyncTask then (h (.tlist a)).next else .tlist a := by
      rw [rtListRemove_next, if_neg (by simp), hfirst]
      by_cases hp : (h (.tlist a)).prev = .asyncTask
      · rw [if_pos hp.symm, if_pos hp]
      · rw [if_neg fun he => hp he.symm, if_neg hp]
    have hprev' : (rtListRemove h (.tlist a) .asyncTask).prev =
        if (h (.tlist a)).next = .asyncTask then (h (.tlist a)).prev else (h .asyncTask).prev := by
      rw [rtListRemove_prev, if_neg (by simp)]
      by_cases hn : (h (.tlist a)).next = .asyncTask
      · rw [if_pos hn.symm, if_pos hn]
      · rw [if_neg fun he => hn he.symm, if_neg hn]
    rw [hnext', hprev']
    by_cases hp : (h (.tlist a)).prev = .asyncTask <;>
      by_cases hn : (h (.tlist a)).next = .asyncTask <;> simp [hp, hn, hprev]

/-! ## The server never fetches the list head -/

/-- The queue's first node is the list head: no task is in front. -/
def HeadOnly (s : State τ) : Prop := (s.heap .asyncTask).next = .asyncTask

instance (s : State τ) : Decidable (HeadOnly s) := by
  unfold HeadOnly
  infer_instance

/-- `rt_thread_deferrable_init` has not returned. -/
def InInit (s : State τ) : Prop := s.mainPc = .startup ∨ s.mainPc = .suspendServer

instance (s : State τ) : Decidable (InInit s) := by
  unfold InInit
  infer_instance

/-- The scheduler does not switch to the server before `rt_thread_deferrable_init` has returned,
and `rt_timer_deferrable_period` does not find an empty queue behind a suspended server. -/
def KeepsDispatch (s : State τ) (e : Event τ) : Prop :=
  (InInit s → e ≠ .switch .server) ∧
    (RunsPeriod s e → HeadOnly s → (s.k.thread .server).stat ≠ .suspend)

instance (s : State τ) (e : Event τ) : Decidable (KeepsDispatch s e) := by
  unfold KeepsDispatch
  infer_instance

/-- What holds of the queue at each place of the server: a task is in front from the top of the
loop to the removal, the one that is called, and so it is when the server is woken to go there. -/
def QueueAt (s : State τ) : ServerPc τ → Prop
  | .entry | .clear | .sched => ¬InInit s → (s.k.thread .server).stat ≠ .suspend → ¬HeadOnly s
  | .loop | .start | .setActive | .fetch => ¬HeadOnly s
  | .call n | .task n | .remove n => (s.heap .asyncTask).next = n ∧ n ≠ .asyncTask
  | .test | .stop | .suspend => True

/-- The invariant of the runs in which the server dispatches tasks only. -/
structure DispatchInv (s : State τ) : Prop where
  system : SystemInv s
  list : ListInv s.heap s.inserted
  init : InInit s → s.serverPc = .entry ∧ (s.k.thread .server).stat ≠ .running ∧
    (s.k.thread .server).stat ≠ .suspend ∧
    (s.mainPc = .suspendServer → (s.k.thread .server).stat = .ready)
  queue : QueueAt s s.serverPc

namespace DispatchInv

/-- A node in front of the queue is that of a task inserted. -/
theorem task_of_ne (hD : DispatchInv s) (hne : ¬HeadOnly s) :
    ∃ a ∈ s.inserted, (s.heap .asyncTask).next = .tlist a :=
  (hD.list.next _ (.inl rfl)).resolve_left hne

/-- A statement of the server, after `rt_thread_deferrable_init`. -/
private theorem server (hD : DispatchInv s) {choice : Nat}
    (hrun : (s.k.thread .server).stat = .running ∨ s.serverPc = .clear)
    (hstep : s.ServerStep cfg choice s') :
    ¬InInit s ∧ s'.mainPc = s.mainPc ∧ ListInv s'.heap s'.inserted ∧ QueueAt s' s'.serverPc := by
  have hdone : ¬InInit s := by
    intro hin
    obtain ⟨hentry, hne, -⟩ := hD.init hin
    rcases hrun with hr | hr
    · exact hne hr
    · rw [hentry] at hr
      cases hr
  have hawake : s.serverPc ≠ .clear → (s.k.thread .server).stat ≠ .suspend := by
    intro hpc
    rw [hrun.resolve_right hpc]
    simp
  have hq := hD.queue
  refine ⟨hdone, ?_⟩
  cases hstep with
  | entry hs =>
    rw [hs] at hq
    exact ⟨rfl, hD.list, hq hdone (hawake (by simp [hs]))⟩
  | loop hs =>
    rw [hs] at hq
    refine ⟨rfl, hD.list, ?_⟩
    cases s.active with
    | true => exact hq
    | false => exact hq
  | start hs | setActive hs =>
    rw [hs] at hq
    exact ⟨rfl, hD.list, hq⟩
  | fetch hs =>
    rw [hs] at hq
    exact ⟨rfl, hD.list, rfl, hq⟩
  | call a hs =>
    rw [hs] at hq
    exact ⟨rfl, hD.list, hq⟩
  | act n hs =>
    rw [hs] at hq
    refine ⟨rfl, hD.list, ?_⟩
    show QueueAt _ s.serverPc
    rw [hs]
    exact hq
  | ret n hs =>
    rw [hs] at hq
    exact ⟨rfl, hD.list, hq⟩
  | remove n hs =>
    rw [hs] at hq
    obtain ⟨a, ha, hna⟩ := hD.task_of_ne (fun hself => hq.2 (hq.1.symm.trans hself))
    have hn : n = .tlist a := hq.1.symm.trans hna
    subst hn
    exact ⟨rfl, hD.list.remove ha hna, trivial⟩
  | test hs =>
    refine ⟨rfl, hD.list, ?_⟩
    cases hempty : s.isempty with
    | true => trivial
    | false =>
      -- an empty queue passes the test on its head
      intro hself
      simp only [State.isempty, rtListIsempty, decide_eq_false_iff_not] at hempty
      rw [HeadOnly] at hself
      exact hempty (by rw [hself]; exact hself)
  | stop hs => exact ⟨rfl, hD.list, trivial⟩
  | suspend hs =>
    refine ⟨rfl, hD.list, fun _ hne => absurd ?_ hne⟩
    show ((s.k.rtThreadSuspend .server).thread .server).stat = .suspend
    rw [Kernel.rtThreadSuspend_stat, if_pos]
    exact ⟨rfl, .inr (hrun.resolve_right (by simp [hs]))⟩
  | clear hs =>
    rw [hs] at hq
    exact ⟨rfl, hD.list, hq⟩
  | sched hs =>
    rw [hs] at hq
    exact ⟨rfl, hD.list, hq hdone (hawake (by simp [hs]))⟩

/-- `rt_thread_deferrable_init` leaves the server ready after its first statement and suspended
after its second. -/
private theorem main (hD : DispatchInv s) (hin : InInit s) {choice : Nat}
    (h : OsesProject.step cfg s (.thread .main choice) = some s') :
    s'.mainPc = .suspendServer ∧ (s'.k.thread .server).stat = .ready ∨
      ¬InInit s' ∧ (s'.k.thread .server).stat = .suspend := by
  obtain ⟨-, -, -, hready⟩ := hD.init hin
  cases step_cases h with
  | load t _ ht => simp at ht
  | act t _ ht => simp at ht
  | main _ _ hcur hrun hstep =>
    unfold State.mainStep at hstep
    rcases hin with hpc | hpc
    · simp only [hpc] at hstep
      obtain ⟨k, hk, he⟩ := Option.map_eq_some_iff.mp hstep
      rw [← he]
      refine .inl ⟨rfl, ?_⟩
      unfold Kernel.rtThreadStartup at hk
      split at hk
      · cases hk
        rw [Kernel.rtThreadResume_stat, if_pos (by simp), if_neg]
        show ¬Tid.server = s.k.current
        simp [hcur]
      · cases hk
    · simp only [hpc] at hstep
      rw [← Option.some.inj hstep]
      refine .inr ⟨by simp [InInit], ?_⟩
      show ((s.k.rtThreadSuspend .server).thread .server).stat = .suspend
      rw [Kernel.rtThreadSuspend_stat, if_pos ⟨rfl, .inl (hready hpc)⟩]

/-- What holds at the places that depend on the first node only is kept with it; at the others the
server must not have been woken behind an empty queue. -/
private theorem queueAt_of_same (hD : DispatchInv s) (hspc : s'.serverPc = s.serverPc)
    (hnext : (s'.heap .asyncTask).next = (s.heap .asyncTask).next)
    (hwoken : s.pc .server = .run [] → ¬InInit s' → (s'.k.thread .server).stat ≠ .suspend →
      HeadOnly s → ¬InInit s ∧ (s.k.thread .server).stat ≠ .suspend) :
    QueueAt s' s'.serverPc := by
  have hq := hD.queue
  have hidle := hD.system.idle
  rw [hspc]
  cases hpc : s.serverPc with
  | entry | clear | sched =>
    rw [hpc] at hq hidle
    intro hin hne hself
    rw [HeadOnly, hnext] at hself
    obtain ⟨hin, hne⟩ := hwoken (hidle (by simp)) hin hne hself
    exact hq hin hne hself
  | loop | start | setActive | fetch =>
    rw [hpc] at hq
    simpa only [QueueAt, HeadOnly, hnext] using hq
  | call n | task n | remove n =>
    rw [hpc] at hq
    simpa only [QueueAt, hnext] using hq
  | test | stop | suspend => trivial

/-- **Every step keeps the invariant.** -/
theorem step (hD : DispatchInv s) (h : OsesProject.step cfg s e = some s')
    (hok : KeepsDispatch s e) : DispatchInv s' := by
  by_cases hsrv : ∃ choice, e = .thread .server choice
  · obtain ⟨choice, rfl⟩ := hsrv
    cases hcases : step_cases h with
    | load t _ ht => simp at ht
    | act t _ ht => simp at ht
    | server _ _ _ hrun hstep =>
      obtain ⟨hdone, hmain, hlist, hqueue⟩ := hD.server hrun hstep
      refine ⟨hD.system.step h, hlist, fun hin => absurd ?_ hdone, hqueue⟩
      rwa [InInit, hmain] at hin
  · have hsrv : ∀ choice, e ≠ .thread .server choice := fun c hc => hsrv ⟨c, hc⟩
    obtain ⟨-, hspc, -⟩ := step_server_frame h hsrv
    have hinit : InInit s' → s'.serverPc = .entry ∧ (s'.k.thread .server).stat ≠ .running ∧
        (s'.k.thread .server).stat ≠ .suspend ∧
        (s'.mainPc = .suspendServer → (s'.k.thread .server).stat = .ready) := by
      intro hin'
      have hin : InInit s := by
        by_contra hin
        rw [InInit, not_or] at hin
        exact hin'.elim (step_initDone h hin).1 (step_initDone h hin).2
      obtain ⟨hentry, hr, hs, hready⟩ := hD.init hin
      refine ⟨hspc.trans hentry, ?_⟩
      by_cases hmain : ∃ choice, e = .thread .main choice
      · obtain ⟨choice, rfl⟩ := hmain
        obtain ⟨-, hst⟩ := (hD.main hin h).resolve_right fun hc => hc.1 hin'
        rw [hst]
        simp
      · have hmain : ∀ choice, e ≠ .thread .main choice := fun c hc => hmain ⟨c, hc⟩
        rw [hD.system.stays_put h hs hr hsrv hmain (hok.1 hin), step_mainPc h hmain]
        exact ⟨hr, hs, hready⟩
    cases hins : insertion cfg s e with
    | some a =>
      obtain ⟨hheap, hinserted, -⟩ := step_insertion h hins
      have hlist : ListInv s'.heap s'.inserted := by
        rw [hheap, hinserted]
        exact hD.list.insert a
      refine ⟨hD.system.step h, hlist, hinit, ?_⟩
      by_cases hself : HeadOnly s
      · have hne : ¬HeadOnly s' := by
          rw [HeadOnly, hheap]
          exact insert_next_ne hD.list a
        have hq := hD.queue
        rw [hspc]
        cases hpc : s.serverPc with
        | entry | clear | sched => exact fun _ _ => hne
        | loop | start | setActive | fetch => exact hne
        | call n | task n | remove n =>
          rw [hpc] at hq
          exact absurd (hq.1.symm.trans hself) hq.2
        | test | stop | suspend => trivial
      · refine hD.queueAt_of_same hspc ?_ fun _ _ _ hc => absurd hc hself
        rw [hheap]
        exact insert_next_eq hD.list a hself
    | none =>
      obtain ⟨hheap, hinserted⟩ := step_queue_frame h hins hsrv
      have hlist : ListInv s'.heap s'.inserted := by
        rw [hheap, hinserted]
        exact hD.list
      refine ⟨hD.system.step h, hlist, hinit, ?_⟩
      refine hD.queueAt_of_same hspc (by rw [hheap]) ?_
      intro hidle hin' hne hself
      have hin : ¬InInit s := by
        intro hin
        by_cases hmain : ∃ choice, e = .thread .main choice
        · obtain ⟨choice, rfl⟩ := hmain
          rcases hD.main hin h with hc | hc
          · exact hin' (.inr hc.1)
          · exact hne hc.2
        · rw [InInit, step_mainPc h fun c hc => hmain ⟨c, hc⟩] at hin'
          exact hin' hin
      refine ⟨hin, fun hs => hne ?_⟩
      exact hD.system.stays_suspended h hs hidle hsrv fun _ => ⟨hins, fun hper =>
        hok.2 hper hself hs⟩

end DispatchInv

/-- The server is about to evaluate `rt_list_entry(asyncTask.next)`, or to call through the node it
got from it. -/
def Dispatching (s : State τ) : Prop := s.serverPc = .fetch ∨ ∃ n, s.serverPc = .call n

/-- **The server dispatches tasks only.** In every run from the start of
`rt_thread_deferrable_init` on, with insertions, callbacks and statements in any order, in which
the scheduler does not switch to the server before the function has returned and the period
callback does not find an empty queue behind a suspended server: whenever the server fetches a node
or calls through it, the first node of the queue, which is the one it calls through, is that of a
task inserted. -/
theorem dispatches_tasks (cfg : Config τ) (caller tick : Nat)
    (hreach : Reach (step cfg) KeepsDispatch (beforeStartup cfg caller tick) s)
    (hs : Dispatching s) :
    ∃ a ∈ s.inserted, (s.heap .asyncTask).next = .tlist a ∧
      ∀ n, s.serverPc = .call n → n = .tlist a := by
  have hD := hreach.invariant DispatchInv
    { system := initial_systemInv cfg caller tick _ _
      list :=
        { next := by
            rintro n (rfl | ⟨a, ha, -⟩)
            · exact .inl (by simp [initial, rtListInit_next])
            · cases ha
          prev := by
            rintro n (rfl | ⟨a, ha, -⟩)
            · exact .inl (by simp [initial, rtListInit_prev])
            · cases ha
          head := by simp [initial, rtListInit_next, rtListInit_prev] }
      init := fun _ => ⟨rfl, by simp [initial]⟩
      queue := fun hin => absurd (.inl rfl) hin }
    fun s e s' hD hok h => hD.step h hok
  have hq := hD.queue
  rcases hs with hpc | ⟨n, hpc⟩
  · rw [hpc] at hq
    obtain ⟨a, ha, hnext⟩ := hD.task_of_ne hq
    refine ⟨a, ha, hnext, fun n hn => ?_⟩
    rw [hpc] at hn
    cases hn
  · rw [hpc] at hq
    obtain ⟨a, ha, hnext⟩ := hD.task_of_ne fun hself => hq.2 (hq.1.symm.trans hself)
    refine ⟨a, ha, hnext, fun n' hn => ?_⟩
    rw [hpc] at hn
    cases hn
    exact hq.1.symm.trans hnext

open Event in
/-- The run of `main` from the start of `rt_thread_deferrable_init` on, a press, and the server up
to its call. -/
def firstDispatch : List (Event Task) :=
  [thread .main 0, thread .main 0] ++ startUp ++ [press .raw, switch .server] ++
    List.replicate 5 (thread .server 0)

/-- The first dispatch on the board is that of the task inserted. -/
theorem dispatches_first_press :
    ∃ s, run (step (board fun _ => 0)) (beforeStartup (board fun _ => 0) mainPriority 0)
        firstDispatch = some s ∧
      Dispatching s ∧ ∃ a ∈ s.inserted, (s.heap .asyncTask).next = .tlist a := by
  have hrun : ((run (step (board fun _ => 0)) (beforeStartup (board fun _ => 0) mainPriority 0)
      firstDispatch).map fun s => decide (s.serverPc = .call (.tlist .writeRawMemAsync))) =
      some true := by decide +kernel
  obtain ⟨s, hs, hpc⟩ := Option.map_eq_some_iff.mp hrun
  have hreach : Reach (step (board fun _ => 0)) KeepsDispatch
      (beforeStartup (board fun _ => 0) mainPriority 0) s :=
    Reach.of_each .refl (by decide +kernel) hs
  have hdisp : Dispatching s := .inr ⟨_, of_decide_eq_true hpc⟩
  obtain ⟨a, ha, hnext, -⟩ := dispatches_tasks _ mainPriority 0 hreach hdisp
  exact ⟨s, hs, hdisp, a, ha, hnext⟩

open Event in
/-- The server preempts a caller of `rt_thread_deferrable_init` that is less urgent. -/
def preemptedInit : List (Event Task) :=
  [thread .main 0, switch .server] ++ List.replicate 5 (thread .server 0)

/-- Called by a thread of priority 20, `rt_thread_deferrable_init` with the priority of the board is
preempted by the server before it suspends it, and the server calls through the list head. -/
theorem dispatches_head_at_start :
    ∃ s, (∀ e ∈ preemptedInit, e.OnBoard) ∧
      Each (step (board fun _ => 0)) Scheduled (beforeStartup (board fun _ => 0) 20 0)
        preemptedInit ∧
      run (step (board fun _ => 0)) (beforeStartup (board fun _ => 0) 20 0) preemptedInit =
        some s ∧
      s.serverPc = .call .asyncTask ∧ (s.heap .asyncTask).next = .asyncTask := by
  have hrun : ((run (step (board fun _ => 0)) (beforeStartup (board fun _ => 0) 20 0)
      preemptedInit).map fun s => decide (s.serverPc = .call .asyncTask ∧
        (s.heap .asyncTask).next = .asyncTask)) = some true := by decide +kernel
  obtain ⟨s, hs, hpc⟩ := Option.map_eq_some_iff.mp hrun
  exact ⟨s, by decide, by decide +kernel, hs, of_decide_eq_true hpc⟩

open Event in
/-- The period callback after the start-up, and the server that it wakes. -/
def wokenByPeriod : List (Event Task) :=
  [thread .main 0, thread .main 0] ++ startUp ++ [period, switch .server] ++
    List.replicate 5 (thread .server 0)

/-- `rt_timer_deferrable_period` resumes the server when no task has been inserted, and the server
calls through the list head. -/
theorem dispatches_head_after_period :
    ∃ s, Each (step (board fun _ => 0)) Scheduled
        (beforeStartup (board fun _ => 0) mainPriority 0) wokenByPeriod ∧
      run (step (board fun _ => 0)) (beforeStartup (board fun _ => 0) mainPriority 0)
        wokenByPeriod = some s ∧
      s.serverPc = .call .asyncTask ∧ s.inserted = [] := by
  have hrun : ((run (step (board fun _ => 0)) (beforeStartup (board fun _ => 0) mainPriority 0)
      wokenByPeriod).map fun s => decide (s.serverPc = .call .asyncTask ∧ s.inserted = [])) =
      some true := by decide +kernel
  obtain ⟨s, hs, hpc⟩ := Option.map_eq_some_iff.mp hrun
  exact ⟨s, by decide +kernel, hs, of_decide_eq_true hpc⟩

end OsesProject
