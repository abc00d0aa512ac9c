import OsesProject.Laws.Timers
import OsesProject.Laws.Actions

/-!
# The timer list is in the order of the time-outs

`rt_timer_check` looks at the first timer of the list only, and stops at one that is not due. It
misses none, because the list is kept in the order of the ticks that remain (`Ordered`), and these
are less than half the range of the tick counter, so that the comparisons modulo `2 ^ 32` are those
of numbers. Between two tick interrupts every timer on the list has at least one tick left
(`Pending`), one interrupt takes one tick from each (`Pending.tick_remaining`), and the interrupt
ends only when nobody has none left (`Ordered.pending`). So an application timer expires exactly
when the ticks it has been started with are over.
-/

set_option linter.unusedSectionVars false

namespace OsesProject

variable {T M A : Type} [DecidableEq T] [DecidableEq M] [DecidableEq A]

/-- The ticks that remain until a timer is due. -/
def Kernel.remaining (k : Kernel T M A) (i : TimerId T A) : Nat :=
  tickSub (k.timer i).timeoutTick k.tick

/-- The timer list is in the order of the ticks that remain. -/
structure Ordered (k : Kernel T M A) : Prop where
  tick : k.tick < 2 ^ 32
  sorted : k.timerList.Pairwise fun i j => k.remaining i ≤ k.remaining j
  bound : ∀ i ∈ k.timerList, k.remaining i < rtTickMax / 2
  range : ∀ i ∈ k.timerList, (k.timer i).timeoutTick < 2 ^ 32

/-- No timer on the list is due. -/
def Pending (k : Kernel T M A) : Prop := ∀ i ∈ k.timerList, 0 < k.remaining i

variable {k k' : Kernel T M A} {i : TimerId T A}

/-- Timers may have been stopped, and nothing else has happened to the list. -/
structure Stops (k k' : Kernel T M A) : Prop where
  tick : k'.tick = k.tick
  sublist : k'.timerList.Sublist k.timerList
  timeout : ∀ i, (k'.timer i).timeoutTick = (k.timer i).timeoutTick

theorem TimersLe.stops (h : TimersLe k k') : Stops k k' := ⟨h.tick, h.sublist, h.timeout⟩

theorem Stops.remaining (h : Stops k k') (i : TimerId T A) : k'.remaining i = k.remaining i := by
  rw [Kernel.remaining, h.tick, h.timeout]
  rfl

theorem Stops.pending (h : Stops k k') (hp : Pending k) : Pending k' := by
  intro i hi
  rw [h.remaining]
  exact hp i (h.sublist.subset hi)

/-! ## Ticks modulo `2 ^ 32` -/

/-- Where a timer stands to one that is started now with the interval `b`: the comparison
`rt_timer_start` makes modulo `2 ^ 32` is the one of the ticks that remain. -/
theorem tickSub_start {tick timeout b : Nat} (htick : tick < 2 ^ 32) (hb : b < rtTickMax / 2)
    (ha : tickSub timeout tick < rtTickMax / 2) :
    (tickSub timeout ((tick + b) % 2 ^ 32) = 0 → tickSub timeout tick = b) ∧
    (0 < tickSub timeout ((tick + b) % 2 ^ 32) →
      tickSub timeout ((tick + b) % 2 ^ 32) < rtTickMax / 2 → b < tickSub timeout tick) ∧
    (rtTickMax / 2 ≤ tickSub timeout ((tick + b) % 2 ^ 32) → tickSub timeout tick < b) := by
  unfold tickSub rtTickMax at *
  omega

/-- A timer started now has its interval left. -/
theorem tickSub_interval {tick b : Nat} (htick : tick < 2 ^ 32) (hb : b < rtTickMax / 2) :
    tickSub ((tick + b) % 2 ^ 32) tick = b := by
  unfold tickSub
  unfold rtTickMax at hb
  omega

/-- One tick takes one from what remains. -/
theorem tickSub_tick {timeout tick : Nat} (h : 0 < tickSub timeout tick) :
    tickSub timeout ((tick + 1) % 2 ^ 32) = tickSub timeout tick - 1 := by
  unfold tickSub at h ⊢
  omega

/-- A timer is due when nothing remains. -/
theorem tickSub_due {timeout tick : Nat} (htick : tick < 2 ^ 32) (hto : timeout < 2 ^ 32)
    (h : tickSub timeout tick < rtTickMax / 2) :
    tickSub tick timeout < rtTickMax / 2 ↔ tickSub timeout tick = 0 := by
  unfold tickSub rtTickMax at *
  omega

/-! ## One operation -/

/-- Where every timer of a list has less than half the range left and the list is in order, a timer
started now with the interval `b` is put in its place. -/
theorem pairwise_rtTimerInsert {f : TimerId T A → Timer} {l : List (TimerId T A)} {tick b : Nat}
    (htick : tick < 2 ^ 32) (hb : b < rtTickMax / 2)
    (hi : (f i).timeoutTick = (tick + b) % 2 ^ 32)
    (bound : ∀ j ∈ l, tickSub (f j).timeoutTick tick < rtTickMax / 2)
    (sorted : l.Pairwise fun j j' =>
      tickSub (f j).timeoutTick tick ≤ tickSub (f j').timeoutTick tick) :
    (Kernel.rtTimerInsert f i l).Pairwise fun j j' =>
      tickSub (f j).timeoutTick tick ≤ tickSub (f j').timeoutTick tick := by
  have hself : tickSub (f i).timeoutTick tick = b := by
    rw [hi]
    exact tickSub_interval htick hb
  induction l with
  | nil => exact List.pairwise_singleton _ _
  | cons y ys ih =>
    obtain ⟨hy, hys⟩ := List.pairwise_cons.mp sorted
    have hcmp := tickSub_start htick hb (bound y List.mem_cons_self)
    rw [← hi, ← hself] at hcmp
    obtain ⟨heq, hlt, hgt⟩ := hcmp
    have ih := ih (fun j hj => bound j (List.mem_cons_of_mem _ hj)) hys
    -- `y` stays in front when it is due no later
    have behind : tickSub (f y).timeoutTick tick ≤ tickSub (f i).timeoutTick tick →
        (y :: Kernel.rtTimerInsert f i ys).Pairwise fun j j' =>
          tickSub (f j).timeoutTick tick ≤ tickSub (f j').timeoutTick tick := by
      intro hle
      refine List.pairwise_cons.mpr ⟨fun j hj => ?_, ih⟩
      rcases (Kernel.mem_rtTimerInsert f ys).mp hj with rfl | hj
      · exact hle
      · exact hy j hj
    rw [Kernel.rtTimerInsert]
    split
    · next h0 => exact behind (Nat.le_of_eq (heq h0))
    · next h0 =>
      split
      · next h1 =>
        have hiy := hlt (Nat.pos_of_ne_zero h0) h1
        refine List.pairwise_cons.mpr ⟨fun j hj => ?_, sorted⟩
        rcases List.mem_cons.mp hj with rfl | hj
        · exact Nat.le_of_lt hiy
        · exact Nat.le_trans (Nat.le_of_lt hiy) (hy j hj)
      · next h1 => exact behind (Nat.le_of_lt (hgt (Nat.le_of_not_lt h1)))

/-- One tick takes one from what each timer has left. -/
theorem Pending.tick_remaining (hp : Pending k) (hi : i ∈ k.timerList) :
    ({ k with tick := (k.tick + 1) % 2 ^ 32 } : Kernel T M A).remaining i = k.remaining i - 1 :=
  tickSub_tick (hp i hi)

namespace Ordered

/-- Stopping timers keeps the order. -/
theorem stops (h : Ordered k) (hs : Stops k k') : Ordered k' where
  tick := hs.tick ▸ h.tick
  sorted := by
    simp only [hs.remaining]
    exact h.sorted.sublist hs.sublist
  bound := by
    intro i hi
    rw [hs.remaining]
    exact h.bound i (hs.sublist.subset hi)
  range := by
    intro i hi
    rw [hs.timeout]
    exact h.range i (hs.sublist.subset hi)

/-- A timer that is started takes its place, with its interval left; the others keep what they
have left. -/
theorem start (h : Ordered k) (hk : k.rtTimerStart i = some k') :
    Ordered k' ∧ k'.remaining i = (k.timer i).initTick ∧
      ∀ j, j ≠ i → k'.remaining j = k.remaining j := by
  have htick := (Kernel.rtTimerStart_frame hk).2.2.2
  have hself : (k'.timer i).timeoutTick = (k.tick + (k.timer i).initTick) % 2 ^ 32 := by
    rw [Kernel.rtTimerStart_timer hk, if_pos rfl]
  have hother : ∀ j, j ≠ i → k'.timer j = k.timer j := by
    intro j hj
    rw [Kernel.rtTimerStart_timer hk, if_neg hj]
  have hinit := Kernel.rtTimerStart_initTick hk
  have hri : k'.remaining i = (k.timer i).initTick := by
    rw [Kernel.remaining, htick, hself]
    exact tickSub_interval h.tick hinit
  have hrj : ∀ j, j ≠ i → k'.remaining j = k.remaining j := by
    intro j hj
    rw [Kernel.remaining, htick, hother j hj]
    rfl
  have hmem : ∀ j ∈ k'.timerList, j ≠ i → j ∈ k.timerList := fun j hj hne =>
    ((Kernel.rtTimerStart_mem hk).mp hj).resolve_left hne
  refine ⟨⟨htick ▸ h.tick, ?_, ?_, ?_⟩, hri, hrj⟩
  · obtain ⟨f, hf, hlist⟩ := Kernel.rtTimerStart_list hk
    have hsorted := pairwise_rtTimerInsert (i := i) (f := f)
      (l := k.timerList.filter (· ≠ i)) h.tick hinit ((hf i).trans hself) ?_ ?_
    · rw [hlist]
      simpa only [Kernel.remaining, htick, ← hf] using hsorted
    · intro j hj
      have hj := List.mem_filter.mp hj
      have hne : j ≠ i := by simpa using hj.2
      rw [hf, hother j hne]
      exact h.bound j hj.1
    · refine (h.sorted.sublist List.filter_sublist).imp_of_mem fun {j j'} hj hj' hle => ?_
      have hne : j ≠ i := by simpa using (List.mem_filter.mp hj).2
      have hne' : j' ≠ i := by simpa using (List.mem_filter.mp hj').2
      rw [hf, hf, hother j hne, hother j' hne']
      exact hle
  · intro j hj
    by_cases hne : j = i
    · rw [hne, hri]
      exact hinit
    · rw [hrj j hne]
      exact h.bound j (hmem j hj hne)
  · intro j hj
    by_cases hne : j = i
    · rw [hne, hself]
      exact Nat.mod_lt _ (by decide)
    · rw [hother j hne]
      exact h.range j (hmem j hj hne)

/-- The tick counter moves on when no timer is due. -/
theorem tickIncrease (h : Ordered k) (hp : Pending k) :
    Ordered { k with tick := (k.tick + 1) % 2 ^ 32 } where
  tick := Nat.mod_lt _ (by decide)
  sorted := by
    refine h.sorted.imp_of_mem fun {i j} hi hj hij => ?_
    rw [hp.tick_remaining hi, hp.tick_remaining hj]
    exact Nat.sub_le_sub_right hij 1
  bound := by
    intro i hi
    rw [hp.tick_remaining hi]
    exact Nat.lt_of_le_of_lt (Nat.sub_le _ _) (h.bound i hi)
  range := h.range

/-- When the first timer is not due, none is. -/
theorem pending (h : Ordered k) (hnone : k.rtTimerExpired = none) : Pending k := by
  unfold Kernel.rtTimerExpired at hnone
  cases hl : k.timerList with
  | nil =>
    intro i hi
    rw [hl] at hi
    cases hi
  | cons j js =>
    have hj : j ∈ k.timerList := by
      rw [hl]
      exact List.mem_cons_self
    have hfirst : 0 < k.remaining j := by
      simp only [hl] at hnone
      split at hnone
      · cases hnone
      · next hdue =>
        rw [tickSub_due h.tick (h.range j hj) (h.bound j hj)] at hdue
        exact Nat.pos_of_ne_zero hdue
    intro i hi
    have hsorted := h.sorted
    rw [hl] at hi hsorted
    rcases List.mem_cons.mp hi with rfl | hi
    · exact hfirst
    · exact Nat.lt_of_lt_of_le hfirst (List.rel_of_pairwise_cons hsorted hi)

end Ordered

/-! ## One call -/

variable {x x' : Threads T M A} {c : Call T M A}

/-- What a call other than the tick does to the timer list: it stops timers, or it stops some and
starts one, a thread's with a positive interval or an application's. -/
theorem Threads.call_timerList (hI : LockInv x) (hc : x.call c = some x') (hne : c ≠ .tick) :
    Stops x.k x'.k ∨ ∃ k i, Stops x.k k ∧ k.rtTimerStart i = some x'.k ∧
      ((∃ t, i = .thread t) ∧ 0 < (k.timer i).initTick ∨
        ∃ a, i = .app a ∧ (c = .timerStart a ∨ c = .timerRearm a) ∧
          (k.timer i).initTick = (x.k.timer i).initTick) := by
  by_cases happ : c.OnTimers
  · cases c with
    | tick => exact absurd rfl hne
    | timerStart a =>
      obtain ⟨k', hk, rfl⟩ := Option.map_eq_some_iff.mp hc
      exact .inr ⟨x.k, .app a, (TimersLe.refl _).stops, hk, .inr ⟨a, rfl, .inl rfl, rfl⟩⟩
    | timerStop a =>
      cases hc
      refine .inl ⟨by simp, ?_, fun i => ?_⟩
      · show (x.k.rtTimerStop (.app a)).timerList.Sublist _
        unfold Kernel.rtTimerStop
        split
        · exact List.filter_sublist
        · exact List.Sublist.refl _
      · show ((x.k.rtTimerStop (.app a)).timer i).timeoutTick = _
        rw [Kernel.rtTimerStop_timer]
        split
        · next hi => rw [hi]
        · rfl
    | timerSetTime a time =>
      cases hc
      refine .inl ⟨rfl, List.Sublist.refl _, fun i => ?_⟩
      by_cases hi : i = .app a <;> simp [Kernel.rtTimerSetTime, hi]
    | timerTakeOff a =>
      cases hc
      refine .inl ⟨?_, ?_, fun i => ?_⟩
      · simp only [Kernel.rtTimerTakeOff]
        split <;> rfl
      · simp only [Kernel.rtTimerTakeOff]
        split <;> exact List.filter_sublist
      · show ((x.k.rtTimerTakeOff (.app a)).timer i).timeoutTick = _
        rw [Kernel.rtTimerTakeOff_timer]
        split
        · next hi => rw [hi.1]
        · rfl
    | timerRearm a =>
      obtain ⟨k', hk, rfl⟩ := Option.map_eq_some_iff.mp hc
      rcases Kernel.rtTimerRearm_cases hk with rfl | ⟨-, hk⟩
      · exact .inl (TimersLe.refl _).stops
      · have hs : Stops x.k
            (x.k.setTimer (.app a) { x.k.timer (.app a) with activated := false }) := by
          refine ⟨rfl, List.Sublist.refl _, fun i => ?_⟩
          by_cases hi : i = .app a <;> simp [hi]
        exact .inr ⟨_, .app a, hs, hk, .inr ⟨a, rfl, .inr rfl, by simp⟩⟩
    | _ => exact absurd happ id
  · rcases Threads.call_timers hc happ with hle | ⟨t, tick, todo, hpc, hle, hk⟩
    · exact .inl hle.stops
    · refine .inr ⟨_, .thread t, hle.stops, hk, .inl ⟨⟨t, rfl⟩, ?_⟩⟩
      -- a bracketed program never sleeps for no time
      have hnested := hI.nested t
      rw [hpc] at hnested
      have hpos : 0 < tick := hnested.1
      simpa [Kernel.rtTimerSetTime] using hpos

/-- Every call but the tick keeps the order. -/
theorem Ordered.call (h : Ordered x.k) (hI : LockInv x) (hc : x.call c = some x')
    (hne : c ≠ .tick) : Ordered x'.k := by
  rcases Threads.call_timerList hI hc hne with hs | ⟨k, i, hs, hk, -⟩
  · exact h.stops hs
  · exact ((h.stops hs).start hk).1

/-- Every call but the tick leaves no timer due, when the application's are started with a positive
interval. -/
theorem Pending.call (hp : Pending x.k) (h : Ordered x.k) (hI : LockInv x)
    (hc : x.call c = some x') (hne : c ≠ .tick)
    (hpos : ∀ a, c = .timerStart a ∨ c = .timerRearm a → 0 < (x.k.timer (.app a)).initTick) :
    Pending x'.k := by
  rcases Threads.call_timerList hI hc hne with hs | ⟨k, i, hs, hk, hinit⟩
  · exact hs.pending hp
  · obtain ⟨-, hri, hrj⟩ := (h.stops hs).start hk
    intro j hj
    by_cases hji : j = i
    · rw [hji, hri]
      rcases hinit with ⟨-, hpos⟩ | ⟨a, rfl, hca, hsame⟩
      · exact hpos
      · rw [hsame]
        exact hpos a hca
    · rw [hrj j hji]
      exact hs.pending hp j (((Kernel.rtTimerStart_mem hk).mp hj).resolve_left hji)

/-- The call operates the timer `a`, or moves the tick counter. -/
def Call.Operates : Call T M A → A → Prop
  | .tick, _ => True
  | .timerStart b, a | .timerStop b, a | .timerTakeOff b, a | .timerRearm b, a => a = b
  | _, _ => False

/-- An application timer runs on: it is due when it was, and on the list if it was. -/
structure RunsOn (a : A) (k k' : Kernel T M A) : Prop where
  tick : k'.tick = k.tick
  timeout : (k'.timer (.app a)).timeoutTick = (k.timer (.app a)).timeoutTick
  mem : .app a ∈ k.timerList → .app a ∈ k'.timerList

theorem RunsOn.remaining {a : A} (h : RunsOn a k k') :
    k'.remaining (.app a) = k.remaining (.app a) := by
  rw [Kernel.remaining, h.tick, h.timeout]
  rfl

/-- **A timer that nobody operates runs on.** -/
theorem Threads.call_runsOn {a : A} (hc : x.call c = some x') (hop : ¬c.Operates a) :
    RunsOn a x.k x'.k := by
  have started : ∀ {k k' : Kernel T M A} {i : TimerId T A}, i ≠ .app a →
      k.rtTimerStart i = some k' → RunsOn a k k' := by
    intro k k' i hi hk
    refine ⟨(Kernel.rtTimerStart_frame hk).2.2.2, ?_, fun ha => ?_⟩
    · rw [Kernel.rtTimerStart_timer hk, if_neg hi.symm]
    · exact (Kernel.rtTimerStart_mem hk).mpr (.inr ha)
  by_cases happ : c.OnTimers
  · cases c with
    | tick => exact absurd trivial hop
    | timerStart b =>
      obtain ⟨k', hk, rfl⟩ := Option.map_eq_some_iff.mp hc
      have hab : a ≠ b := hop
      exact started (by simpa using hab.symm) hk
    | timerStop b =>
      cases hc
      have hab : a ≠ b := hop
      refine ⟨by simp, ?_, fun ha => Kernel.rtTimerStop_mem.mpr ⟨ha, fun _ => by simpa using hab⟩⟩
      show ((x.k.rtTimerStop (.app b)).timer (.app a)).timeoutTick = _
      rw [Kernel.rtTimerStop_timer, if_neg (by simpa using hab)]
    | timerSetTime b time =>
      cases hc
      refine ⟨rfl, ?_, fun ha => ha⟩
      by_cases hab : (.app a : TimerId T A) = .app b <;> simp [Kernel.rtTimerSetTime, hab]
    | timerTakeOff b =>
      cases hc
      have hab : a ≠ b := hop
      refine ⟨?_, ?_, fun ha => Kernel.rtTimerTakeOff_mem.mpr ⟨ha, by simpa using hab⟩⟩
      · simp only [Kernel.rtTimerTakeOff]
        split <;> rfl
      · show ((x.k.rtTimerTakeOff (.app b)).timer (.app a)).timeoutTick = _
        rw [Kernel.rtTimerTakeOff_timer, if_neg (by simp [hab])]
    | timerRearm b =>
      obtain ⟨k', hk, rfl⟩ := Option.map_eq_some_iff.mp hc
      have hab : a ≠ b := hop
      rcases Kernel.rtTimerRearm_cases hk with rfl | ⟨-, hk⟩
      · exact ⟨rfl, rfl, fun ha => ha⟩
      · obtain ⟨htick, htimeout, hmem⟩ := started (by simpa using hab.symm) hk
        exact ⟨htick, by simpa [hab] using htimeout, hmem⟩
    | _ => exact absurd happ id
  · rcases Threads.call_timers hc happ with hle | ⟨t, tick, todo, -, hle, hk⟩
    · exact ⟨hle.tick, hle.timeout _, hle.mem a⟩
    · obtain ⟨htick, htimeout, hmem⟩ := started (by simp) hk
      exact ⟨htick.trans hle.tick, htimeout.trans (hle.timeout _), fun ha => hmem (hle.mem a ha)⟩

/-- Only `rt_timer_control` sets the interval of an application's timer, and nothing changes whether
it is periodic. -/
theorem Threads.call_interval (hc : x.call c = some x') (a : A) :
    (x'.k.timer (.app a)).periodic = (x.k.timer (.app a)).periodic ∧
      ((x'.k.timer (.app a)).initTick = (x.k.timer (.app a)).initTick ∨
        c = .timerSetTime a (x'.k.timer (.app a)).initTick) := by
  have started : ∀ {k k' : Kernel T M A} {i : TimerId T A}, k.rtTimerStart i = some k' →
      (k'.timer (.app a)).periodic = (k.timer (.app a)).periodic ∧
        (k'.timer (.app a)).initTick = (k.timer (.app a)).initTick := by
    intro k k' i hk
    rw [Kernel.rtTimerStart_timer hk]
    split
    · next hi =>
      subst hi
      exact ⟨rfl, rfl⟩
    · exact ⟨rfl, rfl⟩
  by_cases happ : c.OnTimers
  · cases c with
    | tick =>
      cases hc
      exact ⟨rfl, .inl rfl⟩
    | timerStart b =>
      obtain ⟨k', hk, rfl⟩ := Option.map_eq_some_iff.mp hc
      exact ⟨(started hk).1, .inl (started hk).2⟩
    | timerStop b =>
      cases hc
      simp only [Kernel.rtTimerStop_timer]
      split
      · next hi =>
        rw [hi]
        exact ⟨rfl, .inl rfl⟩
      · exact ⟨rfl, .inl rfl⟩
    | timerSetTime b time =>
      cases hc
      by_cases hab : a = b
      · subst hab
        simp [Kernel.rtTimerSetTime]
      · simp [Kernel.rtTimerSetTime, hab]
    | timerTakeOff b =>
      cases hc
      simp only [Kernel.rtTimerTakeOff_timer]
      split
      · next hi =>
        rw [hi.1]
        exact ⟨rfl, .inl rfl⟩
      · exact ⟨rfl, .inl rfl⟩
    | timerRearm b =>
      obtain ⟨k', hk, rfl⟩ := Option.map_eq_some_iff.mp hc
      rcases Kernel.rtTimerRearm_cases hk with rfl | ⟨-, hk⟩
      · exact ⟨rfl, .inl rfl⟩
      · obtain ⟨hp, hi⟩ := started hk
        by_cases hab : a = b
        · subst hab
          exact ⟨by simpa using hp, .inl (by simpa using hi)⟩
        · exact ⟨by simpa [hab] using hp, .inl (by simpa [hab] using hi)⟩
    | _ => exact absurd happ id
  · rcases Threads.call_timers hc happ with hle | ⟨t, tick, todo, -, hle, hk⟩
    · rw [hle.app]
      exact ⟨rfl, .inl rfl⟩
    · rw [(started hk).1, (started hk).2, hle.app]
      exact ⟨rfl, .inl rfl⟩

end OsesProject
