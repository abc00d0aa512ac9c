import OsesProject.Laws.System
import OsesProject.Application.Procedure

/-!
# Laws of the server's queue

`Fifo` is what the queue is for: the tasks run so far are the first of those inserted, in their
order; the list is well formed and holds exactly the tasks not yet removed; and the test for an
empty queue, which the code makes on the first node instead of on the list, says whether one is
pending.

An insertion initialises the node of its task again, whether or not it is still linked. As long as
no task is inserted that is pending, every step keeps `QueueInv`, which is `Fifo` with the server's
place in its loop (`QueueInv.step`). The node of a task being run is linked until the task has
returned, so a task counts as pending while it runs. `fifo_always_iff` is exact: along a run of the
board `Fifo` holds throughout if and only if no press inserts a pending task.
-/

set_option linter.unusedSectionVars false

namespace OsesProject

open Machine

variable {τ : Type} [DecidableEq τ]

/-- The queue is first in, first out: none lost, none run twice, none out of order. -/
def Fifo (s : State τ) : Prop :=
  s.ran <+: s.inserted ∧ CircularList s.heap .asyncTask (s.pending.map .tlist) ∧
    (s.isempty = true ↔ s.pending = [])

/-- No event of the board inserts a task that is pending. -/
def InsertsFresh (cfg : Config τ) (s : State τ) (e : Event τ) : Prop :=
  ∀ a, insertion cfg s e = some a → a ∉ s.pending

instance (cfg : Config τ) (s : State τ) (e : Event τ) : Decidable (InsertsFresh cfg s e) :=
  match h : insertion cfg s e with
  | none => .isTrue (by simp [InsertsFresh, h])
  | some a => decidable_of_iff (a ∉ s.pending) (by simp [InsertsFresh, h])

/-- What the server's place says of the tasks run and pending. Where it is about to use the queue
one is pending; a thread that waits in `rt_schedule` is ready only if one is. -/
def InOrder (s : State τ) : Prop :=
  match s.serverPc with
  | .entry | .clear | .sched =>
    s.ran ++ s.pending = s.inserted ∧ ((s.k.thread .server).stat ≠ .suspend → s.pending ≠ [])
  | .loop | .start | .setActive | .fetch => s.ran ++ s.pending = s.inserted ∧ s.pending ≠ []
  | .call n => s.ran ++ s.pending = s.inserted ∧ ∃ a as, s.pending = a :: as ∧ n = .tlist a
  | .task n | .remove n => ∃ a as, s.pending = a :: as ∧ n = .tlist a ∧ s.ran ++ as = s.inserted
  | .test | .stop | .suspend => s.ran ++ s.pending = s.inserted

/-- The queue is well formed, and the server's place agrees with it. -/
structure QueueInv (s : State τ) : Prop where
  queue : CircularList s.heap .asyncTask (s.pending.map .tlist)
  removed_le : s.removed ≤ s.inserted.length
  inOrder : InOrder s

variable {cfg : Config τ} {s s' : State τ} {e : Event τ}

namespace QueueInv

/-- The test for an empty queue. -/
theorem isempty_iff (hQ : QueueInv s) : s.isempty = true ↔ s.pending = [] := by
  rw [State.isempty, rtListIsempty_next hQ.queue, List.map_eq_nil_iff]

theorem fifo (hQ : QueueInv s) : Fifo s := by
  refine ⟨?_, hQ.queue, hQ.isempty_iff⟩
  have h := hQ.inOrder
  unfold InOrder at h
  split at h
  · exact ⟨_, h.1⟩
  · exact ⟨_, h.1⟩
  · exact ⟨_, h.1⟩
  · exact ⟨_, h.1⟩
  · exact ⟨_, h.1⟩
  · exact ⟨_, h.1⟩
  · exact ⟨_, h.1⟩
  · exact ⟨_, h.1⟩
  · obtain ⟨a, as, -, -, h⟩ := h
    exact ⟨_, h⟩
  · obtain ⟨a, as, -, -, h⟩ := h
    exact ⟨_, h⟩
  · exact ⟨_, h⟩
  · exact ⟨_, h⟩
  · exact ⟨_, h⟩

/-- The task that is run is pending. -/
theorem pending_of_task (hQ : QueueInv s) {n : Ptr τ} (hn : s.serverPc = .task n) :
    s.pending ≠ [] := by
  have h := hQ.inOrder
  simp only [InOrder, hn] at h
  obtain ⟨a, as, h, -⟩ := h
  simp [h]

/-! ## One step -/

/-- An insertion of a task that is not pending appends it. -/
private theorem insert (hQ : QueueInv s) {a : τ} (ha : a ∉ s.pending)
    (hheap : s'.heap = rtListInsertBefore (rtListInit s.heap (.tlist a)) .asyncTask (.tlist a))
    (hins : s'.inserted = s.inserted ++ [a]) (hrem : s'.removed = s.removed)
    (hran : s'.ran = s.ran) (hpc : s'.serverPc = s.serverPc) : QueueInv s' := by
  have hpend : s'.pending = s.pending ++ [a] := by
    rw [State.pending, hins, hrem, List.drop_append_of_le_length hQ.removed_le]
    rfl
  refine ⟨?_, ?_, ?_⟩
  · rw [hpend, List.map_append, hheap]
    exact rtListInsertBefore_snoc hQ.queue (by simpa using ha)
  · rw [hrem, hins, List.length_append]
    exact Nat.le_add_right_of_le hQ.removed_le
  · have happ : s.ran ++ s.pending = s.inserted → s'.ran ++ s'.pending = s'.inserted := by
      intro h
      rw [hran, hpend, hins, ← List.append_assoc, h]
    have hne : s'.pending ≠ [] := by simp [hpend]
    have h := hQ.inOrder
    unfold InOrder at h ⊢
    rw [hpc]
    cases hs : s.serverPc with
    | entry | clear | sched =>
      simp only [hs] at h ⊢
      exact ⟨happ h.1, fun _ => hne⟩
    | loop | start | setActive | fetch =>
      simp only [hs] at h ⊢
      exact ⟨happ h.1, hne⟩
    | call n =>
      simp only [hs] at h ⊢
      obtain ⟨h, b, bs, hb, rfl⟩ := h
      exact ⟨happ h, b, bs ++ [a], by rw [hpend, hb]; rfl, rfl⟩
    | task n | remove n =>
      simp only [hs] at h ⊢
      obtain ⟨b, bs, hb, rfl, h⟩ := h
      refine ⟨b, bs ++ [a], by rw [hpend, hb]; rfl, rfl, ?_⟩
      rw [hran, hins, ← List.append_assoc, h]
    | test | stop | suspend =>
      simp only [hs] at h ⊢
      exact happ h

/-- A statement of the server. -/
private theorem server (hQ : QueueInv s) {choice : Nat}
    (hrun : (s.k.thread .server).stat = .running ∨ s.serverPc = .clear)
    (hstep : s.ServerStep cfg choice s') : QueueInv s' := by
  have h := hQ.inOrder
  have running : s.serverPc ≠ .clear → (s.k.thread .server).stat ≠ .suspend := by
    intro hne
    rw [hrun.resolve_right hne]
    decide
  cases hstep with
  | entry hs =>
    simp only [InOrder, hs] at h
    exact ⟨hQ.queue, hQ.removed_le, h.1, h.2 (running (by simp [hs]))⟩
  | loop hs =>
    simp only [InOrder, hs] at h
    refine ⟨hQ.queue, hQ.removed_le, ?_⟩
    unfold InOrder
    simp only
    cases s.active <;> exact h
  | start hs =>
    simp only [InOrder, hs] at h
    exact ⟨hQ.queue, hQ.removed_le, h⟩
  | setActive hs =>
    simp only [InOrder, hs] at h
    exact ⟨hQ.queue, hQ.removed_le, h⟩
  | fetch hs =>
    simp only [InOrder, hs] at h
    refine ⟨hQ.queue, hQ.removed_le, h.1, ?_⟩
    have hnext := hQ.queue.next_eq
    cases hp : s.pending with
    | nil => exact absurd hp h.2
    | cons a as =>
      refine ⟨a, as, hp, ?_⟩
      rw [hnext, hp]
      rfl
  | call a hs =>
    simp only [InOrder, hs] at h
    obtain ⟨happ, b, bs, hb, he⟩ := h
    cases he
    refine ⟨hQ.queue, hQ.removed_le, a, bs, hb, rfl, ?_⟩
    show s.ran ++ [a] ++ bs = s.inserted
    rw [List.append_assoc, List.singleton_append, ← hb, happ]
  | act n hs =>
    refine ⟨hQ.queue, hQ.removed_le, ?_⟩
    simp only [InOrder, hs] at h ⊢
    exact h
  | ret n hs =>
    simp only [InOrder, hs] at h
    exact ⟨hQ.queue, hQ.removed_le, h⟩
  | remove n hs =>
    simp only [InOrder, hs] at h
    obtain ⟨a, as, ha, rfl, happ⟩ := h
    have hpend : s.inserted.drop (s.removed + 1) = as := by
      rw [← List.drop_drop, show s.inserted.drop s.removed = a :: as from ha]
      rfl
    refine ⟨?_, ?_, ?_⟩
    · have hq := hQ.queue
      rw [ha, List.map_cons] at hq
      show CircularList (rtListRemove s.heap (.tlist a)) .asyncTask
        ((s.inserted.drop (s.removed + 1)).map .tlist)
      rw [hpend]
      exact rtListRemove_tail hq
    · by_contra hlt
      have hlt : s.inserted.length < s.removed + 1 := by simpa using hlt
      have hnil : s.pending = [] := List.drop_eq_nil_of_le (by omega)
      rw [ha] at hnil
      cases hnil
    · show s.ran ++ s.inserted.drop (s.removed + 1) = s.inserted
      rw [hpend]
      exact happ
  | test hs =>
    simp only [InOrder, hs] at h
    refine ⟨hQ.queue, hQ.removed_le, ?_⟩
    unfold InOrder
    simp only
    cases he : s.isempty with
    | true => exact h
    | false =>
      refine ⟨h, fun hnil => ?_⟩
      have := hQ.isempty_iff.mpr hnil
      rw [he] at this
      cases this
  | stop hs =>
    simp only [InOrder, hs] at h
    exact ⟨hQ.queue, hQ.removed_le, h⟩
  | suspend hs =>
    simp only [InOrder, hs] at h
    refine ⟨hQ.queue, hQ.removed_le, h, fun hne => absurd ?_ hne⟩
    have hr := hrun.resolve_right (by simp [hs])
    simp [Kernel.rtThreadSuspend_stat, hr]
  | clear hs =>
    simp only [InOrder, hs] at h
    exact ⟨hQ.queue, hQ.removed_le, h⟩
  | sched hs =>
    simp only [InOrder, hs] at h
    exact ⟨hQ.queue, hQ.removed_le, h.1, h.2 (running (by simp [hs]))⟩

/-- **A step that inserts no pending task, and is no replenishment, keeps the queue in order.** -/
theorem step (hQ : QueueInv s) (hI : SystemInv s) (h : OsesProject.step cfg s e = some s')
    (hfresh : InsertsFresh cfg s e) (hper : ¬RunsPeriod s e) : QueueInv s' := by
  by_cases hsrv : ∃ choice, e = .thread .server choice
  · obtain ⟨choice, rfl⟩ := hsrv
    cases step_cases h with
    | server _ _ _ hrun hstep => exact hQ.server hrun hstep
    | load t _ ht => simp at ht
    | act t _ ht => simp at ht
  · have hsrv : ∀ choice, e ≠ .thread .server choice := fun c hc => hsrv ⟨c, hc⟩
    obtain ⟨-, hspc, -, hran, hrem⟩ := step_server_frame h hsrv
    cases hins : insertion cfg s e with
    | some a =>
      obtain ⟨hheap, hin, -⟩ := step_insertion h hins
      exact hQ.insert (hfresh a hins) hheap hin hrem hran hspc
    | none =>
      obtain ⟨hheap, hin⟩ := step_queue_frame h hins hsrv
      have hpend : s'.pending = s.pending := by
        rw [State.pending, hin, hrem]
        rfl
      refine ⟨by rw [hheap, hpend]; exact hQ.queue, by rw [hrem, hin]; exact hQ.removed_le, ?_⟩
      -- only the server's state can have changed, and it wakes in `rt_schedule` only by a resume
      have hwake : (∀ n, s.serverPc ≠ .task n) → (s'.k.thread .server).stat ≠ .suspend →
          (s.k.thread .server).stat ≠ .suspend := by
        intro hn hne hs
        exact hne (hI.stays_suspended h hs (hI.idle hn) hsrv fun _ => ⟨hins, hper⟩)
      have ho := hQ.inOrder
      unfold InOrder at ho ⊢
      rw [hspc, hpend, hran, hin]
      cases hs : s.serverPc with
      | entry | clear | sched =>
        simp only [hs] at ho ⊢
        exact ⟨ho.1, fun hne => ho.2 (hwake (by simp [hs]) hne)⟩
      | _ =>
        simp only [hs] at ho ⊢
        exact ho

end QueueInv

theorem afterInit_queueInv (cfg : Config τ) (caller tick : Nat) :
    QueueInv (afterInit cfg caller tick) where
  queue := rtListInit_nil _ _
  removed_le := Nat.le_refl 0
  inOrder := ⟨rfl, fun hne => absurd rfl hne⟩

/-! ## Whole runs -/

/-- Inserting a pending task leaves no well-formed queue. -/
theorem not_fifo_of_pending (hQ : QueueInv s) (h : step cfg s e = some s') {a : τ}
    (hins : insertion cfg s e = some a) (ha : a ∈ s.pending) : ¬Fifo s' := by
  rintro ⟨-, hqueue, -⟩
  have hsrv : ∀ choice, e ≠ .thread .server choice := by
    rintro choice rfl
    cases hins
  obtain ⟨-, hin, -⟩ := step_insertion h hins
  obtain ⟨-, -, -, -, hrem⟩ := step_server_frame h hsrv
  have hpend : s'.pending = s.pending ++ [a] := by
    rw [State.pending, hin, hrem, List.drop_append_of_le_length hQ.removed_le]
    rfl
  have hnd := (List.nodup_cons.mp hqueue.nodup).2
  rw [hpend, List.map_append, List.nodup_append] at hnd
  exact hnd.2.2 _ (List.mem_map_of_mem ha) _ (by simp) rfl

/-- **The queue is first in, first out exactly along the runs that insert no pending task.** For
every run of the board from the state `rt_thread_deferrable_init` leaves, with presses between any
two statements of the server: `Fifo` holds in every state of the run if and only if every press
inserts a task that is not pending. -/
theorem fifo_always_iff (cfg : Config τ) (caller tick : Nat) {es : List (Event τ)}
    (hes : ∀ e ∈ es, e.OnBoard)
    (hrun : run (step cfg) (afterInit cfg caller tick) es = some s') :
    Always (step cfg) Fifo (afterInit cfg caller tick) es ↔
      Each (step cfg) (InsertsFresh cfg) (afterInit cfg caller tick) es := by
  refine always_iff_each (I := fun s => SystemInv s ∧ QueueInv s) (fun s hs => hs.2.fifo)
    ?_ ?_ ⟨initial_systemInv cfg caller tick _ _, afterInit_queueInv cfg caller tick⟩ hes hrun
  · intro s e s' hs he hC h
    exact ⟨hs.1.step h, hs.2.step hs.1 h hC (hs.1.not_runsPeriod he)⟩
  · intro s e s' hs he hC h
    simp only [InsertsFresh, not_forall, not_not] at hC
    obtain ⟨a, hins, ha⟩ := hC
    exact not_fifo_of_pending hs.2 h hins ha

open Event in
/-- A press of each button, the second one while the server runs the task of the first, and the
server as far as into the second task. -/
def bothButtons : List (Event Task) :=
  startUp ++ [press .bench, switch .server] ++ List.replicate 6 (thread .server 0) ++
    [press .raw] ++ List.replicate 14 (thread .server 0)

/-- The tasks are run in the order of the presses. -/
theorem fifo_bothButtons :
    ∃ s, run (step (board fun _ => 0)) (afterInit (board fun _ => 0) mainPriority 0) bothButtons =
        some s ∧ s.ran = [.writeBenchMemAsync, .writeRawMemAsync] ∧
      Always (step (board fun _ => 0)) Fifo (afterInit (board fun _ => 0) mainPriority 0)
        bothButtons := by
  have hrun : ((run (step (board fun _ => 0)) (afterInit (board fun _ => 0) mainPriority 0)
      bothButtons).map fun s => s.ran) = some [.writeBenchMemAsync, .writeRawMemAsync] := by
    decide +kernel
  obtain ⟨s, hs, hran⟩ := Option.map_eq_some_iff.mp hrun
  exact ⟨s, hs, hran, (fifo_always_iff (board fun _ => 0) mainPriority 0 (by decide) hs).mpr
    (by decide +kernel)⟩

/-- Three presses of the first button before the server has run: the third inserts the task of the
first again. -/
theorem fifo_three_presses :
    ¬∀ (es : List (Event Task)) (s : State Task), (∀ e ∈ es, e.OnBoard) →
      run (step (board fun _ => 0)) (afterInit (board fun _ => 0) mainPriority 0) es = some s →
      Fifo s := by
  intro hall
  obtain ⟨s, hs⟩ : ∃ s, run (step (board fun _ => 0)) (afterInit (board fun _ => 0) mainPriority 0)
      [.press .raw, .press .raw, .press .raw] = some s := ⟨_, rfl⟩
  obtain ⟨-, hqueue, -⟩ := hall _ s (by decide) hs
  have hpend : s.pending = [.writeRawMemAsync, .readRawMemAsync, .writeRawMemAsync] := by
    cases hs
    rfl
  have hnd := hqueue.nodup
  rw [hpend] at hnd
  revert hnd
  decide

end OsesProject
