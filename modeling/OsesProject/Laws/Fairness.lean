import OsesProject.Laws.LinkedRuns
import Mathlib.Algebra.GroupWithZero.Nat
import Mathlib.Data.List.Rotate

/-!
# Whose turn it is

What the order in the ready table comes to, over runs of the linked kernel. After a call of
`rt_schedule` a most urgent thread runs (`linked_most_urgent`). Threads of one priority are served
in the order in which they became ready: a ready thread is overtaken by nobody of its priority who
came later (`linked_overtaking`, from the general law of queues). And when nothing but ticks
happens, the threads of the most urgent priority take turns, each for the ticks it has left
(`linked_round_robin`).
-/

set_option linter.unusedSectionVars false

namespace OsesProject

open Machine

variable {T M A : Type} [DecidableEq T] [DecidableEq M] [DecidableEq A]

namespace LinkedThreads

open RingNode ListId LinkedKernel

variable {x x' x'' : LinkedThreads T M A} {content content' : ListId M → List T}

/-- No ready thread is more urgent than the thread that runs; when any is ready, one runs. -/
def MostUrgent (c : LinkedKernel T M A) : Prop :=
  ∀ u, (c.objects.thread u).stat = .ready →
    (c.objects.thread c.objects.current).stat = .running ∧
      (c.objects.thread c.objects.current).currentPriority ≤ (c.objects.thread u).currentPriority

/-- After `rt_schedule` a most urgent thread runs. -/
theorem rtSchedule_most_urgent {c c' : LinkedKernel T M A} (h : Valid c content)
    (hc : c.rtSchedule = some c') : MostUrgent c' := by
  obtain ⟨c'', hc'', -, hkeep | ⟨content', t, us, hs⟩⟩ := rtSchedule_cases h
  · cases hc''.symm.trans hc
    have hthread : c'.objects.thread = c.objects.thread := (congrArg Kernel.thread hkeep.abs_eq :)
    have hcurrent : c'.objects.current = c.objects.current :=
      (congrArg Kernel.current hkeep.abs_eq :)
    intro u hu
    rw [hthread] at hu
    rw [hthread, hcurrent]
    rcases hkeep.best with hnil | ⟨hrun, t, us, p, hh, hle⟩
    · have hmem := (h.tables.ready u (by simp) _).mpr ⟨hu, rfl⟩
      rw [hnil] at hmem
      cases hmem
    · refine ⟨hrun, le_trans ?_ (h.tables.highest_le hh hu)⟩
      rcases hle with hlt | ⟨heq, -⟩
      · exact hlt.le
      · exact heq.le
  · cases hc''.symm.trans hc
    have hto := hs.scheduleTo
    have hstat := Kernel.rtScheduleTo_stat hto
    have hprio := Kernel.rtScheduleTo_priority hto
    have hpicks := hs.picks h
    intro u hu
    rw [hs.current_eq h]
    have hut := hstat u
    have htt := (hstat t).2
    rw [if_pos rfl] at htt
    refine ⟨htt, ?_⟩
    show ((c'.abs content').thread t).currentPriority ≤ ((c'.abs content').thread u).currentPriority
    rw [hprio t, hprio u]
    have hu' : ((c'.abs content').thread u).stat = .ready := hu
    rw [hut.2] at hu'
    split at hu'
    · cases hu'
    · split at hu'
      · next huc =>
        rw [huc.1]
        exact hpicks.2 (huc.1 ▸ huc.2)
      · exact hpicks.1 u hu'

/-- **After every call of `rt_schedule` in a run a most urgent thread runs**, of its own accord or
by `rt_thread_yield`. -/
theorem linked_most_urgent {es : List (KernelEvent T M A)} (h : Valid x.c content)
    (hes : ∀ e ∈ es, e.InRange) (hrun : run step x es = some x') {e : KernelEvent T M A}
    (he : e = .schedule ∨ e = .yield) (hstep : x'.step e = some x'') : MostUrgent x''.c := by
  have hvalid : ∃ content', Valid x'.c content' := by
    refine run_invariant (fun x : LinkedThreads T M A => ∃ content, Valid x.c content) ?_
      ⟨content, h⟩ hrun
    rintro e he x x' ⟨content, h⟩ hstep
    obtain ⟨content', fs, hs⟩ := stepped h (hes e he) hstep
    exact ⟨content', hs.valid⟩
  obtain ⟨content', h'⟩ := hvalid
  rcases he with rfl | rfl
  · simp only [step, Option.map_eq_some_iff] at hstep
    obtain ⟨c, hc, rfl⟩ := hstep
    exact rtSchedule_most_urgent h' hc
  · simp only [step] at hstep
    split at hstep
    · rw [Option.map_eq_some_iff] at hstep
      obtain ⟨c, hc, rfl⟩ := hstep
      exact rtSchedule_most_urgent (askYield_valid h') hc
    · cases hstep

theorem linked_most_urgent_pair : ∃ x' x'', run step pair yieldTwice = some x' ∧
    x'.step .schedule = some x'' ∧ MostUrgent x''.c := by
  have hrun : run step pair yieldTwice = some _ := rfl
  exact ⟨_, _, hrun, rfl, linked_most_urgent pair_valid (by decide) hrun (.inl rfl) rfl⟩

/-! ## First in, first out -/

/-- The step gives the processor to a thread of priority `p` that did not have it. -/
def dispatches (p : Nat) (x : LinkedThreads T M A) (e : KernelEvent T M A) : Bool :=
  match x.step e with
  | none => false
  | some x' => decide (x'.c.objects.current ≠ x.c.objects.current ∧
      (x.c.objects.thread x'.c.objects.current).currentPriority = p)

/-- **Bounded overtaking.** While a thread stays ready and nobody sets its priority, the processor
goes to threads of its priority at most as often as there are threads ahead of it in its list, and
to none but these: every one of them once, and no thread that came later. -/
theorem linked_overtaking {es : List (KernelEvent T M A)} {t : T} {p : Nat}
    (h : Valid x.c content) (hes : ∀ e ∈ es, e.InRange) (hrun : run step x es = some x')
    (hready : Always step (fun x => (x.c.objects.thread t).stat = .ready ∧
      (x.c.objects.thread t).currentPriority = p) x es)
    (hset : ∀ e ∈ es, ∀ priority, e ≠ .call (.control t priority)) :
    count step (dispatches p) x es ≤ (content (priorityTable p)).idxOf t ∧
      Each step (fun x e => dispatches p x e = true → ∃ x', x.step e = some x' ∧
        x'.c.objects.current ∈
          (content (priorityTable p)).take ((content (priorityTable p)).idxOf t)) x es := by
  have hrange : Each step (fun _ e => e.InRange) x es := Each.of_forall (fun e he _ => hes e he) x
  have hserved := overtaking
    (fun x xs => ∃ content, Valid x.c content ∧ content (priorityTable p) = xs)
    (fun _ e => e.InRange) (fun e => e.Requeues)
    (fun x => (x.c.objects.thread t).stat = .ready ∧
      (x.c.objects.thread t).currentPriority = p)
    (t := t) (C := dispatches p) ?_ ?_ ?_ ⟨content, h, rfl⟩ hrange hrun hready ?_
  · refine ⟨hserved.1, (hserved.2.and hrange).imp ?_⟩
    rintro x e ⟨hahead, he⟩ hd
    obtain ⟨u, us, ⟨content', h, hu⟩, hmem⟩ := hahead hd
    have hdispatch := hd
    rw [dispatches] at hd
    split at hd
    · cases hd
    · next x' hstep =>
      obtain ⟨hne, hp⟩ := of_decide_eq_true hd
      obtain ⟨_, _, hs⟩ := stepped h he hstep
      obtain ⟨us', hus, -⟩ := hs.dispatch hne
      rw [hp, hu] at hus
      exact ⟨x', hstep, (List.cons.inj hus).1 ▸ hmem⟩
  · rintro x xs ⟨content, h, rfl⟩
    exact h.tables.rings.nodup _
  · rintro x xs ⟨content, h, rfl⟩ ht
    exact (h.tables.ready t (by simp) p).mpr ht
  · rintro x e x' xs ⟨content, h, rfl⟩ he hstep
    obtain ⟨content', fs, hs⟩ := stepped h he hstep
    refine ⟨_, ⟨content', hs.valid, rfl⟩, hs.moved p, fun hd => ?_⟩
    rw [dispatches, hstep] at hd
    obtain ⟨hne, hp⟩ := of_decide_eq_true hd
    obtain ⟨us, hus, hnot⟩ := hs.dispatch hne
    rw [hp] at hus
    exact ⟨_, us, hus, hnot p⟩
  · rintro e he ⟨priority, hp⟩
    exact hset e he priority hp

/-- The two threads of `pair` once the second one is started: it is alone in its list. -/
theorem pair_started : ∃ x content, run step pair [.call (.startup true)] = some x ∧
    Valid x.c content ∧ content (priorityTable 3) = [true] ∧
      ∀ q ≠ 3, content (priorityTable q) = [] := by
  have hstep : pair.step (.call (.startup true)) = some _ := rfl
  obtain ⟨content, fs, hs⟩ := stepped pair_valid (by decide) hstep
  refine ⟨_, content, rfl, hs.valid, ?_, fun q hq => ?_⟩
  · refine List.perm_singleton.mp ((List.perm_ext_iff_of_nodup
      (hs.valid.tables.rings.nodup _) (by simp)).mpr fun u => ?_)
    rw [hs.valid.tables.ready u (by simp)]
    cases u <;> decide
  · refine List.eq_nil_iff_forall_not_mem.mpr fun u hu => ?_
    have := ((hs.valid.tables.ready u (by simp) q).mp hu).2
    cases u <;> exact hq this.symm

theorem linked_overtaking_pair : ∃ (x : LinkedThreads Bool Unit Unit) (content : _),
    Valid x.c content ∧
    count step (dispatches 3) x [.schedule, .tickIncrease] ≤
      (content (priorityTable 3)).idxOf true := by
  obtain ⟨x, content, hx, hvalid, -, -⟩ := pair_started
  cases hx
  refine ⟨_, content, hvalid, (linked_overtaking hvalid (by decide) rfl ?_ (by simp)).1⟩
  refine ⟨⟨rfl, rfl⟩, fun x' hx' => ?_⟩
  cases hx'
  refine ⟨⟨rfl, rfl⟩, fun x' hx' => ?_⟩
  cases hx'
  exact ⟨rfl, rfl⟩

/-! ## Taking turns -/

/-- The ticks a thread has left, and the ticks of its full slice. -/
def remaining (x : LinkedThreads T M A) (t : T) : Nat := (x.c.sched t).remainingTick.toNat

def slice (x : LinkedThreads T M A) (t : T) : Nat := (x.c.sched t).initTick.toNat

/-- The thread at the head of `queue` runs, the others are ready behind it at its priority `p`, and
no more urgent thread is ready. -/
structure InTurn (x : LinkedThreads T M A) (content : ListId M → List T) (p : Nat)
    (queue : List T) : Prop where
  valid : Valid x.c content
  running : (x.c.objects.thread x.c.objects.current).stat = .running
  priority : (x.c.objects.thread x.c.objects.current).currentPriority = p
  above : ∀ q < p, content (priorityTable q) = []
  queue : queue = x.c.objects.current :: content (priorityTable p)

/-- A tick that does not use the slice up. -/
theorem InTurn.tick {p : Nat} {queue : List T} (h : InTurn x content p queue)
    (hr : remaining x x.c.objects.current ≠ 0) (hr1 : remaining x x.c.objects.current ≠ 1) :
    ∃ x', x.step .tickIncrease = some x' ∧ InTurn x' content p queue ∧
      x'.c.objects.current = x.c.objects.current ∧ ∀ u, slice x' u = slice x u ∧ remaining x' u =
        if u = x.c.objects.current then remaining x u - 1 else remaining x u := by
  have hfields : ∀ u, x.c.countTick.sched u = if u = x.c.objects.current then
      { x.c.sched u with remainingTick := (x.c.sched u).remainingTick - 1 } else x.c.sched u := by
    intro u
    simp only [countTick, setSched, onTimers, Function.update_apply]
    split
    · next hu => rw [hu]
    · rfl
  unfold remaining at hr hr1
  have hone : (x.c.sched x.c.objects.current).remainingTick - 1 ≠ 0 := by
    intro he
    bv_omega
  have hcond : ¬ (x.c.countTick.sched x.c.countTick.objects.current).remainingTick = 0 := by
    show ¬ (x.c.countTick.sched x.c.objects.current).remainingTick = 0
    rw [hfields, if_pos rfl]
    exact hone
  refine ⟨⟨x.c.countTick, x.pc⟩, ?_, ⟨countTick_valid h.valid, h.running, h.priority, h.above,
    h.queue⟩, rfl, fun u => ?_⟩
  · simp only [step, rtTickIncrease, if_neg hcond, Option.map_some]
  · simp only [slice, remaining, hfields]
    split
    · next hu =>
      subst hu
      refine ⟨rfl, ?_⟩
      bv_omega
    · exact ⟨rfl, rfl⟩

/-- The tick that uses the slice up: the head of the queue goes to its end with a full slice. -/
theorem InTurn.lastTick {p : Nat} {a : T} {rest : List T} (h : InTurn x content p (a :: rest))
    (hr : remaining x a = 1) :
    ∃ x' content', x.step .tickIncrease = some x' ∧ InTurn x' content' p (rest ++ [a]) ∧
      ∀ u, slice x' u = slice x u ∧
        remaining x' u = if u = a then slice x a else remaining x u := by
  obtain ⟨rfl, hrest⟩ := List.cons.inj h.queue
  have hone : (x.c.sched x.c.objects.current).remainingTick = 1 := by
    apply BitVec.eq_of_toNat_eq
    exact hr
  generalize hc : x.c.countTick.askYield = c
  have hvalid : Valid c content := by
    rw [← hc]
    exact askYield_valid (countTick_valid h.valid)
  have hobjects : c.objects.thread = x.c.objects.thread ∧
      c.objects.current = x.c.objects.current := by
    rw [← hc]
    exact ⟨rfl, rfl⟩
  have hfields : ∀ u, (c.sched u).initTick = (x.c.sched u).initTick ∧ (c.sched u).remainingTick =
      if u = x.c.objects.current then (x.c.sched u).initTick
      else (x.c.sched u).remainingTick := by
    intro u
    rw [← hc]
    by_cases hu : u = x.c.objects.current
    · simp [askYield, countTick, setSched, onTimers, hu]
    · simp [askYield, countTick, setSched, onTimers, hu]
  have hyield : (c.sched c.objects.current).yield = true := by
    rw [← hc]
    simp [askYield, setSched]
  have hstep : x.step .tickIncrease = c.rtSchedule.map fun c => ⟨c, x.pc⟩ := by
    have hcond : (x.c.countTick.sched x.c.countTick.objects.current).remainingTick = 0 := by
      show (x.c.countTick.sched x.c.objects.current).remainingTick = 0
      simp [countTick, setSched, hone]
    simp only [step, rtTickIncrease, if_pos hcond, hc]
  obtain ⟨c', hc', hticks, hcases⟩ := rtSchedule_cases hvalid
  have hfields' : ∀ u, slice ⟨c', x.pc⟩ u = slice x u ∧ remaining ⟨c', x.pc⟩ u =
      if u = x.c.objects.current then slice x x.c.objects.current else remaining x u := by
    intro u
    refine ⟨?_, ?_⟩
    · simp only [slice, (hticks u).2, (hfields u).1]
    simp only [slice, remaining, (hticks u).1, (hfields u).2]
    split
    · next hu => rw [hu]
    · rfl
  have hrun : (c.objects.thread c.objects.current).stat = .running := by
    rw [hobjects.1, hobjects.2]
    exact h.running
  have hprio : (c.objects.thread c.objects.current).currentPriority = p := by
    rw [hobjects.1, hobjects.2]
    exact h.priority
  rw [hstep, hc', Option.map_some]
  rcases hcases with hkeep | ⟨content', t, us, hs⟩
  · -- nobody else of this priority is ready
    have hthread : c'.objects.thread = c.objects.thread :=
      (congrArg Kernel.thread hkeep.abs_eq :)
    have hcurrent : c'.objects.current = c.objects.current :=
      (congrArg Kernel.current hkeep.abs_eq :)
    have hnil : content (priorityTable p) = [] := by
      rcases hkeep.best with hnil | ⟨-, t, us, q, hh, hle⟩
      · exact hnil p
      · rcases hle with hlt | ⟨-, hno⟩
        · exact hh.above p (hprio ▸ hlt)
        · rw [hyield] at hno
          cases hno
    rw [hnil] at hrest
    subst hrest
    refine ⟨⟨c', x.pc⟩, content, rfl, ⟨hkeep.valid, ?_, ?_, h.above, ?_⟩, hfields'⟩
    · rw [hthread, hcurrent]
      exact hrun
    · rw [hthread, hcurrent]
      exact hprio
    · rw [hnil, hcurrent, hobjects.2]
      rfl
  · have hcur : c'.objects.current = t := hs.current_eq hvalid
    have hge : p ≤ (c.objects.thread t).currentPriority := by
      by_contra hlt
      have := h.above _ (Nat.lt_of_not_le hlt)
      rw [hs.highest.head] at this
      cases this
    have hteq : (c.objects.thread t).currentPriority = p := by
      refine le_antisymm ?_ hge
      rcases hs.gives_way hrun with hlt | ⟨heq, -⟩
      · exact (hprio ▸ hlt).le
      · exact (hprio ▸ heq).le
    have hhead := hs.highest.head
    rw [hteq, ← hrest] at hhead
    have htus : t ∉ us := by
      have hnd := hvalid.tables.rings.nodup (priorityTable p)
      rw [← hrest, hhead, List.nodup_cons] at hnd
      exact hnd.1
    have hta : x.c.objects.current ≠ t := by
      rintro rfl
      have hready := (hvalid.tables.ready x.c.objects.current (by simp) p).mp
        (by rw [← hrest, hhead]; exact List.mem_cons_self)
      rw [← hobjects.2, hrun] at hready
      cases hready.1
    have hstat := (Kernel.rtScheduleTo_stat hs.scheduleTo t).2
    rw [if_pos rfl] at hstat
    have hprio' := Kernel.rtScheduleTo_priority hs.scheduleTo t
    refine ⟨⟨c', x.pc⟩, content', rfl, ⟨hs.valid, ?_, ?_, fun q hq => ?_, ?_⟩, hfields'⟩
    · show (c'.objects.thread c'.objects.current).stat = _
      rw [hcur]
      exact hstat
    · show (c'.objects.thread c'.objects.current).currentPriority = _
      rw [hcur]
      exact hprio'.trans hteq
    · rw [hs.lists, switched, h.above q hq, if_neg fun hc => ?_]
      · rfl
      · exact absurd (hc.2.symm.trans hprio) (Nat.ne_of_lt hq)
    · rw [hs.lists, switched, if_pos ⟨hrun, hprio⟩, ← hrest, hhead, hobjects.2]
      show t :: us ++ [x.c.objects.current] = c'.objects.current :: _
      rw [hcur, List.cons_append, List.filter_cons_of_neg (by simp), List.filter_append,
        List.filter_ne_of_notMem htus, List.filter_cons_of_pos (by simpa using hta)]
      rfl

/-- The step finds the thread `u` running. -/
def runs (u : T) (x : LinkedThreads T M A) (_ : KernelEvent T M A) : Bool :=
  decide (x.c.objects.current = u)

/-- One slice: the head of the queue runs for the ticks it has left, and goes to the end. -/
theorem InTurn.turn {p n : Nat} {a : T} {rest : List T} (h : InTurn x content p (a :: rest))
    (hr : remaining x a = n + 1) :
    ∃ x' content', run step x (List.replicate (n + 1) .tickIncrease) = some x' ∧
      InTurn x' content' p (rest ++ [a]) ∧
      (∀ u, slice x' u = slice x u ∧ remaining x' u = if u = a then slice x a else remaining x u) ∧
      ∀ u, count step (runs u) x (List.replicate (n + 1) .tickIncrease) =
        if u = a then n + 1 else 0 := by
  have ha : x.c.objects.current = a := (List.cons.inj h.queue).1.symm
  induction n generalizing x with
  | zero =>
    obtain ⟨x', content', hx', h', hfields⟩ := h.lastTick hr
    refine ⟨x', content', ?_, h', hfields, fun u => ?_⟩
    · rw [List.replicate_succ, run_cons, hx']
      rfl
    · rw [List.replicate_succ]
      simp only [count, runs, ha, hx', List.replicate_zero, decide_eq_true_eq, Nat.add_zero]
      simp only [eq_comm]
  | succ n ih =>
    obtain ⟨x₁, hx₁, h₁, hcur₁, hfields₁⟩ := h.tick (by rw [ha]; omega) (by rw [ha]; omega)
    have hr₁ : remaining x₁ a = n + 1 := by
      rw [(hfields₁ a).2, if_pos ha.symm, hr]
      rfl
    obtain ⟨x', content', hrun, h', hfields, hcount⟩ := ih h₁ hr₁ (hcur₁.trans ha)
    refine ⟨x', content', ?_, h', fun u => ⟨?_, ?_⟩, fun u => ?_⟩
    · rw [List.replicate_succ, run_cons, hx₁, Option.bind_some, hrun]
    · rw [(hfields u).1, (hfields₁ u).1]
    · rw [(hfields u).2, (hfields₁ a).1, (hfields₁ u).2]
      split
      · rfl
      · next hu => rw [if_neg (by rw [ha]; exact hu)]
    · rw [List.replicate_succ]
      simp only [count, hx₁, hcount u]
      simp only [runs, ha, decide_eq_true_eq]
      by_cases hu : u = a
      · rw [if_pos hu.symm, if_pos hu, if_pos hu]
        omega
      · rw [if_neg (Ne.symm hu), if_neg hu, if_neg hu]

/-- **Round robin.** When nothing but ticks happens, the threads of the most urgent priority take
turns in the order of their list: over the ticks that the first `k` of them have left, each of these
runs for exactly the ticks it has left, nobody else runs, and they are then behind the others with
full slices. -/
theorem linked_round_robin {p k : Nat} {queue : List T} (h : InTurn x content p queue)
    (hr : ∀ u ∈ queue.take k, remaining x u ≠ 0) (hk : k ≤ queue.length) :
    ∃ x' content', run step x (List.replicate ((queue.take k).map (remaining x)).sum
        .tickIncrease) = some x' ∧ InTurn x' content' p (queue.rotate k) ∧
      (∀ u, slice x' u = slice x u ∧
        remaining x' u = if u ∈ queue.take k then slice x u else remaining x u) ∧
      ∀ u, count step (runs u) x (List.replicate ((queue.take k).map (remaining x)).sum
        .tickIncrease) = if u ∈ queue.take k then remaining x u else 0 := by
  induction k generalizing x content queue with
  | zero =>
    refine ⟨x, content, rfl, by simpa using h, fun u => ?_, fun u => ?_⟩
    · simp
    · simp [count]
  | succ k ih =>
    cases queue with
    | nil => cases hk
    | cons a rest =>
      obtain ⟨n, hn⟩ := Nat.exists_eq_succ_of_ne_zero (hr a List.mem_cons_self)
      obtain ⟨x₁, content₁, hrun₁, h₁, hfields₁, hcount₁⟩ := h.turn hn
      have hnd : a ∉ rest := by
        obtain ⟨ha, hrest⟩ := List.cons.inj h.queue
        intro hmem
        rw [hrest] at hmem
        have := ((h.valid.tables.ready a (by simp) p).mp hmem).1
        rw [ha, h.running] at this
        cases this
      have hlen : k ≤ rest.length := Nat.le_of_succ_le_succ hk
      have htake : (rest ++ [a]).take k = rest.take k := List.take_append_of_le_length hlen
      have hne : ∀ u ∈ rest.take k, u ≠ a := by
        rintro u hu rfl
        exact hnd (List.mem_of_mem_take hu)
      have hleft : ∀ u ∈ rest.take k, remaining x₁ u = remaining x u := by
        intro u hu
        rw [(hfields₁ u).2, if_neg (hne u hu)]
      -- the others' turns, from the state after the first one
      obtain ⟨x', content', hrun, h', hfields, hcount⟩ := ih h₁ (by
        intro u hu
        rw [htake] at hu
        rw [hleft u hu]
        exact hr u (List.mem_cons_of_mem _ hu)) (by simp; omega)
      rw [htake] at hrun hfields hcount
      rw [List.map_congr_left hleft] at hrun hcount
      have hsplit : List.replicate (((a :: rest).take (k + 1)).map (remaining x)).sum
            (KernelEvent.tickIncrease : KernelEvent T M A) =
          List.replicate (n + 1) .tickIncrease ++
            List.replicate ((rest.take k).map (remaining x)).sum .tickIncrease := by
        rw [List.take_succ_cons, List.map_cons, List.sum_cons, hn, List.replicate_add]
      rw [hsplit]
      refine ⟨x', content', ?_, ?_, fun u => ⟨?_, ?_⟩, fun u => ?_⟩
      · rw [run_append, hrun₁, Option.bind_some, hrun]
      · rw [List.rotate_cons_succ]
        exact h'
      · rw [(hfields u).1, (hfields₁ u).1]
      · rw [(hfields u).2, (hfields₁ u).1, (hfields₁ u).2, List.take_succ_cons]
        by_cases hu : u = a
        · subst hu
          simp
        · simp [hu]
      · rw [count_append hrun₁, hcount₁, hcount, List.take_succ_cons]
        by_cases hu : u = a
        · subst hu
          have hout : u ∉ rest.take k := fun hmem => hne u hmem rfl
          simp [hout, hn]
        · by_cases hmem : u ∈ rest.take k
          · simp [hu, hmem, hleft u hmem]
          · simp [hu, hmem]

theorem linked_round_robin_pair : ∃ x content,
    InTurn (T := Bool) (M := Unit) (A := Unit) x content 3 [false, true] ∧
    ∃ x' content', run step x (List.replicate (([false, true].take 2).map (remaining x)).sum
        .tickIncrease) = some x' ∧ InTurn x' content' 3 ([false, true].rotate 2) ∧
      (∀ u, slice x' u = slice x u ∧
        remaining x' u = if u ∈ [false, true].take 2 then slice x u else remaining x u) ∧
      ∀ u, count step (runs u) x (List.replicate
        (([false, true].take 2).map (remaining x)).sum .tickIncrease) =
          if u ∈ [false, true].take 2 then remaining x u else 0 := by
  obtain ⟨x, content, hx, hvalid, hthree, hother⟩ := pair_started
  cases hx
  have hturn : InTurn (A := Unit) _ content 3 [false, true] :=
    ⟨hvalid, rfl, rfl, fun q hq => hother q (Nat.ne_of_lt hq), by rw [hthree]; rfl⟩
  refine ⟨_, content, hturn, linked_round_robin hturn ?_ (by decide)⟩
  decide

end LinkedThreads

end OsesProject
