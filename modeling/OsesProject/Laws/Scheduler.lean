import OsesProject.Laws.ReadyTable

/-!
# What `rt_schedule` chooses

`rtSchedule_cases` says in one place what a call of `rt_schedule` can do from a valid state: nothing
is ready and nothing changes, or the current thread goes on, or the head of the first list that is
not empty takes over and the thread it takes over from joins the end of its own list. From it: the
thread that runs afterwards is one of the most urgent (`rtSchedule_most_urgent`), and every run of
the linked kernel is a run of `Threads.call` in which the scheduler's open choice is made as
`Kernel.RtSchedulePicks` says (`linked_run_refines`).
-/

set_option linter.unusedSectionVars false

namespace OsesProject

namespace LinkedKernel

open RingNode ListId

variable {T M A : Type} [DecidableEq T] [DecidableEq M] [DecidableEq A]
  {c c' : LinkedKernel T M A} {content content' : ListId M → List T} {t : T} {us : List T}
  {p : Nat}

/-- `t` is at the head of the first ready list that is not empty, `p`, with `us` behind it. -/
structure Highest (content : ListId M → List T) (t : T) (us : List T) (p : Nat) : Prop where
  head : content (priorityTable p) = t :: us
  above : ∀ q < p, content (priorityTable q) = []

theorem Tables.highest_stat (h : Tables c content none) (hh : Highest content t us p) :
    (c.objects.thread t).stat = .ready ∧ (c.objects.thread t).currentPriority = p := by
  refine (h.ready t (by simp) p).mp ?_
  rw [hh.head]
  exact List.mem_cons_self

/-- Every ready thread is at most as urgent as the first list. -/
theorem Tables.highest_le (h : Tables c content none) (hh : Highest content t us p) {u : T}
    (hu : (c.objects.thread u).stat = .ready) : p ≤ (c.objects.thread u).currentPriority := by
  by_contra hlt
  have hmem := (h.ready u (by simp) _).mpr ⟨hu, rfl⟩
  rw [hh.above _ (Nat.lt_of_not_le hlt)] at hmem
  cases hmem

/-- The group is zero exactly when no thread is ready. -/
theorem Tables.group_eq_zero (h : Tables c content none) :
    c.readyPriorityGroup = 0 ↔ ∀ p, content (priorityTable p) = [] := by
  constructor
  · intro hg p
    by_contra hne
    have := (h.group p).mpr hne
    simp [hg] at this
  · intro hnil
    apply BitVec.eq_of_getLsbD_eq
    intro i _
    have hbit : c.readyPriorityGroup.getLsbD i = false := by
      rw [← Bool.not_eq_true, h.group, hnil]
      simp
    simp [hbit]

/-- **`_get_highest_priority_thread`** finds the head of the first list that is not empty. -/
theorem getHighestPriorityThread_spec (h : Tables c content none)
    (hg : c.readyPriorityGroup ≠ 0) :
    ∃ t us p, c.getHighestPriorityThread = some (t, p) ∧ Highest content t us p := by
  unfold getHighestPriorityThread
  cases hf : rtFfs c.readyPriorityGroup with
  | zero => exact absurd (rtFfs_eq_zero_iff.mp hf) hg
  | succ p =>
    obtain ⟨hset, hbelow⟩ := rtFfs_eq_succ hf
    cases hc : content (priorityTable p) with
    | nil => exact absurd hc ((h.group p).mp hset)
    | cons t us =>
      refine ⟨t, us, p, ?_, hc, fun q hq => ?_⟩
      · simp only [h.rings.head_next_cons hc]
      · by_contra hne
        have := (h.group q).mpr hne
        rw [hbelow q hq] at this
        cases this

/-- Going on with the thread that runs changes nothing. -/
theorem keepCurrent_spec (h : Valid c content)
    (hrun : (c.objects.thread c.objects.current).stat = .running) :
    ∃ c', c.keepCurrent = some c' ∧ Valid c' content ∧ c'.abs content = c.abs content ∧
      c'.sched = c.sched := by
  obtain ⟨c₁, hc₁, htables, hobjects, hsched, hmutex⟩ :=
    rtScheduleRemoveThread_spec (t := c.objects.current) h.tables (by simp [hrun])
  have hsame : (fun i => (content i).filter (· ≠ c.objects.current)) = content := by
    funext i
    refine List.filter_ne_of_notMem ?_
    exact h.tables.notMem_of_stat (by simp [hrun]) (by simp [hrun]) (by simp [hrun]) i
  rw [hsame] at htables
  have hset : (c₁.setStat c.objects.current .running).objects = c.objects := by
    simp only [setStat, setThread, hobjects, Kernel.setThread]
    rw [← hrun, Function.update_eq_self]
  refine ⟨c₁.setStat c.objects.current .running, ?_, ?_, ?_, hsched⟩
  · rw [keepCurrent, hc₁, Option.map_some, hobjects]
  · refine h.of_stat ?_ (by rw [hset]) (fun u => .inl (by rw [hset])) fun m => ?_
    · have hoff : Tables (c₁.setStat c.objects.current .running) content
          (some c.objects.current) := by
        refine htables.congr rfl rfl (fun u _ => ?_) fun u => ?_
        · rw [hset, hobjects]
          exact ⟨rfl, rfl, rfl⟩
        · rw [hset]
          exact h.tables.bound u
      refine hoff.settle ?_ fun _ => ?_
      · rw [hset, hrun]
        simp
      · show (c₁.sched _).numberMask = _
        rw [hset, hsched]
        exact h.tables.mask _ (by simp) (by simp [hrun])
    · show Owned (c₁.mutex m)
      rw [hmutex]
      exact h.owned m
  · have hm : (c₁.setStat c.objects.current .running).mutexes content = c.mutexes content := by
      funext m
      simp only [mutexes, setStat, setThread, hmutex]
    rw [abs, hset, hm]
    rfl

/-- The ready lists after a switch to `t`: the current thread joins the list of its priority when it
was running, and `t` leaves. -/
def switched (c : LinkedKernel T M A) (content : ListId M → List T) (t : T) (p : Nat) : List T :=
  ((content (priorityTable p)) ++
    if (c.objects.thread c.objects.current).stat = .running ∧
        (c.objects.thread c.objects.current).currentPriority = p then [c.objects.current]
    else []).filter (· ≠ t)

/-- Switching to the head of the first list. -/
theorem switchTo_spec (h : Valid c content) (hh : Highest content t us p) :
    ∃ c' content',
      c.switchTo t (decide ((c.objects.thread c.objects.current).stat = .running)) = some c' ∧
      Valid c' content' ∧ (c.abs content).rtScheduleTo t = some (c'.abs content') ∧
      c'.sched = c.sched ∧ ∀ q, content' (priorityTable q) = c.switched content t q := by
  obtain ⟨hstat, hprio⟩ := h.tables.highest_stat hh
  have hne : t ≠ c.objects.current := by
    rintro rfl
    exact h.current hstat
  generalize hc₀ : { c with objects := { c.objects with current := t } } = c₀
  have hthread₀ : c₀.objects.thread = c.objects.thread := by rw [← hc₀]
  have hsched₀ : c₀.sched = c.sched := by rw [← hc₀]
  have htables₀ : Tables c₀ content none := by
    refine h.tables.congr (by rw [← hc₀]) (by rw [← hc₀]) (fun u _ => ?_) fun u => ?_
    · rw [hthread₀, hsched₀]
      exact ⟨rfl, rfl, rfl⟩
    · rw [hthread₀]
      exact h.tables.bound u
  -- the thread that is left goes back to the table when it was running
  have hinsert : ∃ c₁ content₁, (if decide ((c.objects.thread c.objects.current).stat = .running)
        then c₀.rtScheduleInsertThread c.objects.current else some c₀) = some c₁ ∧
      Tables c₁ content₁ none ∧ c₁.sched = c.sched ∧ c₁.mutex = c.mutex ∧
      c₁.objects = (if (c.objects.thread c.objects.current).stat = .running then
        c₀.objects.setThread c.objects.current
          { c.objects.thread c.objects.current with stat := .ready } else c₀.objects) ∧
      (∀ m, content₁ (suspendThread m) = content (suspendThread m)) ∧
      ∀ q, content₁ (priorityTable q) = content (priorityTable q) ++
        if (c.objects.thread c.objects.current).stat = .running ∧
          (c.objects.thread c.objects.current).currentPriority = q then [c.objects.current]
        else [] := by
    by_cases hrun : (c.objects.thread c.objects.current).stat = .running
    · have hnone : ∀ i, c.objects.current ∉ content i :=
        h.tables.notMem_of_stat (by simp [hrun]) (by simp [hrun]) (by simp [hrun])
      obtain ⟨c₁, hc₁, htables₁, hobjects₁, hsched₁, hmutex₁⟩ :=
        rtScheduleInsertThread_ready (htables₀.aside hnone) (by rw [← hc₀]; exact Ne.symm hne)
          (by rw [hsched₀, hthread₀]; exact h.tables.mask _ (by simp) (by simp [hrun]))
      refine ⟨c₁, _, ?_, htables₁, by rw [hsched₁, hsched₀], ?_, ?_, fun m => ?_, fun q => ?_⟩
      · rw [if_pos (by simp [hrun])]
        exact hc₁
      · rw [hmutex₁, ← hc₀]
      · rw [if_pos hrun, hobjects₁, hthread₀]
      · exact Function.update_of_ne (by simp) _ _
      · rw [Function.update_apply, hthread₀]
        by_cases hq : (c.objects.thread c.objects.current).currentPriority = q
        · rw [if_pos (by rw [hq]), if_pos ⟨hrun, hq⟩, hq]
        · rw [if_neg (by simpa using Ne.symm hq), if_neg fun hc => hq hc.2, List.append_nil]
    · refine ⟨c₀, content, ?_, htables₀, hsched₀, by rw [← hc₀], ?_, fun m => rfl, fun q => ?_⟩
      · rw [if_neg (by simp [hrun])]
      · rw [if_neg hrun]
      · rw [if_neg fun hc => hrun hc.1, List.append_nil]
  obtain ⟨c₁, content₁, hc₁, htables₁, hsched₁, hmutex₁, hobjects₁, hwait₁, hlists₁⟩ := hinsert
  have hcur₁ : c₁.objects.current = t := by
    rw [hobjects₁]
    split
    · rw [← hc₀]
      rfl
    · rw [← hc₀]
  have hthread₁ : ∀ u, c₁.objects.thread u =
      if u = c.objects.current ∧ (c.objects.thread c.objects.current).stat = .running then
        { c.objects.thread c.objects.current with stat := .ready }
      else c.objects.thread u := by
    intro u
    rw [hobjects₁]
    by_cases hrun : (c.objects.thread c.objects.current).stat = .running
    · rw [if_pos hrun, setThread_thread, hthread₀]
      simp only [hrun, and_true]
    · rw [if_neg hrun, if_neg fun hc => hrun hc.2, hthread₀]
  have ht₁ : c₁.objects.thread t = c.objects.thread t := by
    rw [hthread₁, if_neg fun hc => hne hc.1]
  obtain ⟨c₂, hc₂, htables₂, hobjects₂, hsched₂, hmutex₂⟩ :=
    rtScheduleRemoveThread_spec (t := t) htables₁ (by rw [ht₁, hstat]; simp)
  have hthread' : ∀ u, (c₂.setStat t .running).objects.thread u =
      if u = t then { c.objects.thread t with stat := .running } else c₁.objects.thread u := by
    intro u
    simp [setStat, setThread, hobjects₂, ht₁]
  refine ⟨c₂.setStat t .running, fun i => (content₁ i).filter (· ≠ t), ?_, ⟨?_, ?_, ?_, ?_⟩, ?_,
    ?_, fun q => ?_⟩
  · unfold switchTo
    simp only [hc₀, hc₁, Option.bind_some, hc₂, Option.map_some]
  · have hoff : Tables (c₂.setStat t .running) (fun i => (content₁ i).filter (· ≠ t)) (some t) := by
      refine htables₂.congr rfl rfl (fun u hu => ?_) fun u => ?_
      · have hut : u ≠ t := by
          rintro rfl
          exact hu rfl
        rw [hthread', if_neg hut, hobjects₂]
        exact ⟨rfl, rfl, rfl⟩
      · rw [hthread']
        split
        · exact h.tables.bound t
        · exact htables₁.bound u
    refine hoff.settle ?_ fun _ => ?_
    · rw [hthread', if_pos rfl]
      simp
    · rw [hthread', if_pos rfl]
      show (c₂.sched t).numberMask = _
      rw [hsched₂, hsched₁]
      exact h.tables.mask t (by simp) (by simp [hstat])
  · have hcur' : (c₂.setStat t .running).objects.current = t := by
      show c₂.objects.current = t
      rw [hobjects₂, hcur₁]
    rw [hcur', hthread', if_pos rfl]
    simp
  · intro u hu
    show u = c₂.objects.current
    rw [hobjects₂, hcur₁]
    by_contra hut
    rw [hthread', if_neg hut, hthread₁] at hu
    split at hu
    · cases hu
    · next hn =>
      have huc := h.running u hu
      exact hn ⟨huc, huc ▸ hu⟩
  · intro m
    show Owned (c₂.mutex m)
    rw [hmutex₂, hmutex₁]
    exact h.owned m
  · have hcond : t ≠ (c.abs content).current ∧ ((c.abs content).thread t).stat = .ready :=
      ⟨hne, hstat⟩
    rw [Kernel.rtScheduleTo, if_pos hcond, Option.some_inj, eq_comm]
    have hmutexes : (c₂.setStat t .running).mutexes (fun i => (content₁ i).filter (· ≠ t)) =
        c.mutexes content := by
      funext m
      have hwait : (content (suspendThread m)).filter (· ≠ t) = content (suspendThread m) := by
        refine List.filter_ne_of_notMem fun hmem => ?_
        have := h.tables.waiting m t hmem
        rw [hstat] at this
        cases this
      simp only [mutexes, setStat, setThread, hwait₁, hwait, hmutex₂, hmutex₁]
    rw [abs, hmutexes]
    simp only [setStat, setThread, hobjects₂, hobjects₁]
    by_cases hrun : (c.objects.thread c.objects.current).stat = .running
    · have hrun' : ((c.abs content).thread (c.abs content).current).stat = .running := hrun
      simp only [if_pos hrun, hrun', if_true, ← hc₀]
      rfl
    · have hrun' : ¬ ((c.abs content).thread (c.abs content).current).stat = .running := hrun
      simp only [if_neg hrun, hrun', if_false, ← hc₀]
      rfl
  · show (c₂.setStat t .running).sched = _
    exact hsched₂.trans hsched₁
  · show (content₁ (priorityTable q)).filter (· ≠ t) = _
    rw [hlists₁]
    rfl

/-- The scheduler's fields of the current thread, its yield bit taken away. -/
theorem setSched_valid (h : Valid c content) {s : SchedFields}
    (hmask : s.numberMask = (c.sched t).numberMask) : Valid (c.setSched t s) content := by
  refine h.of_stat (h.tables.congr rfl rfl (fun u _ => ⟨rfl, rfl, ?_⟩) h.tables.bound) rfl
    (fun u => .inl rfl) h.owned
  show (Function.update c.sched t s u).numberMask = _
  rw [Function.update_apply]
  split
  · next hu => rw [hu, hmask]
  · rfl

theorem askYield_valid (h : Valid c content) : Valid c.askYield content := setSched_valid h rfl

/-- Counting a tick leaves the lists alone. -/
theorem countTick_valid (h : Valid c content) : Valid c.countTick content := by
  refine setSched_valid ?_ rfl
  exact h.of_stat (h.tables.congr rfl rfl (fun u _ => ⟨rfl, rfl, rfl⟩) h.tables.bound) rfl
    (fun u => .inl rfl) h.owned

/-- A call of `rt_schedule` that lets the thread run that runs: nothing is ready, or it is more
urgent than all that is, or as urgent and has not been asked to yield. -/
structure Keeps (c c' : LinkedKernel T M A) (content : ListId M → List T) : Prop where
  valid : Valid c' content
  abs_eq : c'.abs content = c.abs content
  best : (∀ p, content (priorityTable p) = []) ∨
    (c.objects.thread c.objects.current).stat = .running ∧ ∃ t us p, Highest content t us p ∧
      ((c.objects.thread c.objects.current).currentPriority < p ∨
        (c.objects.thread c.objects.current).currentPriority = p ∧
          (c.sched c.objects.current).yield = false)

/-- A call of `rt_schedule` that switches to `t`: `t` is at the head of the first list, and the
thread that ran is less urgent, or as urgent and asked to yield, or did not run any more. -/
structure Switches (c c' : LinkedKernel T M A) (content content' : ListId M → List T) (t : T)
    (us : List T) : Prop where
  valid : Valid c' content'
  scheduleTo : (c.abs content).rtScheduleTo t = some (c'.abs content')
  highest : Highest content t us (c.objects.thread t).currentPriority
  gives_way : (c.objects.thread c.objects.current).stat = .running →
    (c.objects.thread t).currentPriority < (c.objects.thread c.objects.current).currentPriority ∨
      (c.objects.thread t).currentPriority =
          (c.objects.thread c.objects.current).currentPriority ∧
        (c.sched c.objects.current).yield = true
  lists : ∀ q, content' (priorityTable q) = c.switched content t q

/-- **What `rt_schedule` does**, from a valid state. The slices of the threads stay as they are. -/
theorem rtSchedule_cases (h : Valid c content) :
    ∃ c', c.rtSchedule = some c' ∧ (∀ u, (c'.sched u).remainingTick = (c.sched u).remainingTick ∧
        (c'.sched u).initTick = (c.sched u).initTick) ∧
      (Keeps c c' content ∨ ∃ content' t us, Switches c c' content content' t us) := by
  by_cases hg : c.readyPriorityGroup = 0
  · refine ⟨c, ?_, fun u => ⟨rfl, rfl⟩, .inl ⟨h, rfl, .inl (h.tables.group_eq_zero.mp hg)⟩⟩
    rw [rtSchedule, if_pos hg]
  · obtain ⟨t, us, p, hget, hh⟩ := getHighestPriorityThread_spec h.tables hg
    obtain ⟨hstat, hprio⟩ := h.tables.highest_stat hh
    have hne : t ≠ c.objects.current := by
      rintro rfl
      exact h.current hstat
    unfold rtSchedule
    rw [if_neg hg, hget, Option.bind_some]
    simp only
    by_cases hrun : (c.objects.thread c.objects.current).stat = .running
    · simp only [hrun, if_true]
      generalize hc₀ : c.setSched c.objects.current
        { c.sched c.objects.current with yield := false } = c₀
      have h₀ : Valid c₀ content := by
        rw [← hc₀]
        exact setSched_valid h rfl
      have hobjects₀ : c₀.objects = c.objects := by rw [← hc₀]; rfl
      have hmutex₀ : c₀.mutex = c.mutex := by rw [← hc₀]; rfl
      have habs₀ : c₀.abs content = c.abs content := by rw [← hc₀]; rfl
      have hticks₀ : ∀ u, (c₀.sched u).remainingTick = (c.sched u).remainingTick ∧
          (c₀.sched u).initTick = (c.sched u).initTick := by
        intro u
        rw [← hc₀]
        by_cases hu : u = c.objects.current
        · simp [setSched, hu]
        · simp [setSched, hu]
      -- the thread goes on
      have hkeep : (c.objects.thread c.objects.current).currentPriority < p ∨
          (c.objects.thread c.objects.current).currentPriority = p ∧
            (c.sched c.objects.current).yield = false →
          ∃ c', c₀.keepCurrent = some c' ∧ (∀ u, (c'.sched u).remainingTick =
            (c.sched u).remainingTick ∧ (c'.sched u).initTick = (c.sched u).initTick) ∧
          (Keeps c c' content ∨ ∃ content' t us, Switches c c' content content' t us) := by
        intro hle
        obtain ⟨c', hc', h', habs', hsched'⟩ := keepCurrent_spec h₀ (by rw [hobjects₀]; exact hrun)
        refine ⟨c', hc', fun u => ?_, .inl ⟨h', habs'.trans habs₀, .inr ⟨hrun, t, us, p, hh, hle⟩⟩⟩
        rw [hsched']
        exact hticks₀ u
      by_cases hlt : (c.objects.thread c.objects.current).currentPriority < p
      · rw [if_pos hlt]
        exact hkeep (.inl hlt)
      · rw [if_neg hlt]
        by_cases heq : (c.objects.thread c.objects.current).currentPriority = p ∧
            (c.sched c.objects.current).yield = false
        · rw [if_pos heq]
          exact hkeep (.inr heq)
        · rw [if_neg heq, if_pos hne]
          obtain ⟨c', content', hc', h', hto, hsched', hlists⟩ := switchTo_spec h₀ hh
          rw [hobjects₀] at hc'
          simp only [hrun, decide_true] at hc'
          refine ⟨c', hc', fun u => ?_,
            .inr ⟨content', t, us, h', ?_, ?_, fun _ => ?_, fun q => ?_⟩⟩
          · rw [hsched']
            exact hticks₀ u
          · rw [← habs₀]
            exact hto
          · rw [hprio]
            exact hh
          · rw [hprio]
            rcases Nat.lt_or_eq_of_le (Nat.le_of_not_lt hlt) with hlt' | heq'
            · exact .inl hlt'
            · refine .inr ⟨heq', ?_⟩
              rw [← Bool.not_eq_false]
              exact fun hy => heq ⟨heq'.symm, hy⟩
          · rw [hlists]
            unfold switched
            rw [hobjects₀]
    · simp only [hrun, if_false, hne, ne_eq, not_false_eq_true, if_true]
      obtain ⟨c', content', hc', h', hto, hsched', hlists⟩ := switchTo_spec h hh
      simp only [hrun, decide_false] at hc'
      refine ⟨c', hc', fun u => ?_, .inr ⟨content', t, us, h', hto, ?_, fun hr => absurd hr hrun,
        hlists⟩⟩
      · rw [hsched']
        exact ⟨rfl, rfl⟩
      · rw [hprio]
        exact hh

namespace Switches

variable (h : Valid c content) (s : Switches c c' content content' t us)
include h s

/-- The choice is the one the threads' states leave open. -/
theorem picks : (c.abs content).RtSchedulePicks t := by
  constructor
  · intro u hu
    exact h.tables.highest_le s.highest hu
  · intro hrun
    rcases s.gives_way hrun with hlt | ⟨heq, -⟩
    · exact hlt.le
    · exact heq.le

/-- The thread that is chosen leaves its list, and the others stay in order. -/
theorem moved (q : Nat) : Moved (fun _ => False) (content (priorityTable q))
    (content' (priorityTable q)) := by
  rw [s.lists, switched]
  split
  · next hc =>
    refine Moved.trans_sublist (Moved.join (List.Sublist.refl _) fun hmem => ?_)
      List.filter_sublist
    exact h.current ((h.tables.ready _ (by simp) q).mp hmem).1
  · rw [List.append_nil]
    exact Moved.of_sublist List.filter_sublist

theorem notMem (q : Nat) : t ∉ content' (priorityTable q) := by
  rw [s.lists, switched, List.mem_filter]
  simp

theorem current_eq : c'.objects.current = t := by
  have := s.scheduleTo
  unfold Kernel.rtScheduleTo at this
  split at this
  · have hc := congrArg Kernel.current (Option.some.inj this)
    exact hc.symm
  · cases this

end Switches

end LinkedKernel

end OsesProject
