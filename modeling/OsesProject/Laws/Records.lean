import OsesProject.Laws.Benchmark

/-!
# What the benchmark reads and stores

The records of the machine say what a call of `init_xeno` has read and stored. `Recorded` ties them
to the arrays and to `results`: an entry of a record has a moment in the past of the run in which
the consumer reads the sample from the array, or has `results` filled, for this reading of this
call. A moment is known by the calls made before it and by the index `i`. The first record of all is
the one the machine starts with, of no call.

With it the refinement is one of the arrays and of `results` (`benchmark_refines`).
-/

set_option linter.unusedSectionVars false

namespace OsesProject

open Flow Machine

variable {F : Type} [LinearOrder F] [Add F] [Sub F] [Mul F] [Div F] [Neg F] [OfScientific F]
  [∀ n, OfNat F n]

/-- The consumer is between two calls of `init_xeno`. -/
def XenoPc.Between {F : Type} : XenoPc F → Prop
  | .delay _ | .inSleep | .chooseEngine => True
  | _ => False

namespace Xeno

variable {m : Utilities F} {s₀ s s' : Xeno F} {es : List (XenoEvent F)} {e : XenoEvent F}

/-! ## The moments of a run -/

/-- In the run the consumer makes the statement at `pc` in the state `s`, for reading `j` of the
call of `init_xeno` that comes after the calls `older`. -/
structure Makes (m : Utilities F) (s₀ : Xeno F) (es : List (XenoEvent F)) (older : List (XenoRun F))
    (j : Nat) (pc : XenoPc F) (s : Xeno F) : Prop where
  passes : ∃ engine chosen, Passes (Xeno.step m) s₀ es s (.consumer engine chosen)
  place : s.pc = pc
  calls : s.finished = older
  index : s.i = j

/-- The reading is what the arrays hold at its index when the consumer reads them. -/
structure Taken (m : Utilities F) (s₀ : Xeno F) (es : List (XenoEvent F)) (older : List (XenoRun F))
    (j : Nat) (x : Reading F) : Prop where
  acc : ∃ s, Makes m s₀ es older j .readAcc s ∧ x.u0d = s.accV j
  baro : ∃ s, Makes m s₀ es older j .readBaro s ∧ x.altd = s.baroV j
  gyro : ∃ s, Makes m s₀ es older j .readGyro s ∧ x.throtl = s.gyroV j

/-- The record of a call tells what the run has done: with which engine and globals it began, what
each reading was, and what `results` held when the consumer was done with it. -/
structure Told (m : Utilities F) (s₀ : Xeno F) (es : List (XenoEvent F)) (older : List (XenoRun F))
    (r : XenoRun F) : Prop where
  begun : ∃ s chosen, Passes (Xeno.step m) s₀ es s (.consumer r.engine chosen) ∧
    s.pc = .chooseEngine ∧ s.present :: s.finished = older ∧ s.g = r.globals
  taken : ∀ j x, r.readings[j]? = some x → Taken m s₀ es older j x
  stored : ∀ j v, r.stored[j]? = some v → ∃ s, Visits (Xeno.step m) s₀ es s ∧
    s.pc = .releaseBench ∧ s.finished = older ∧ s.i = j ∧ List.ofFn s.results = v

theorem Makes.append {older : List (XenoRun F)} {j : Nat} {pc : XenoPc F}
    (h : Makes m s₀ es older j pc s) (fs : List (XenoEvent F)) :
    Makes m s₀ (es ++ fs) older j pc s := by
  obtain ⟨⟨engine, chosen, hpasses⟩, hplace, hcalls, hindex⟩ := h
  exact ⟨⟨engine, chosen, hpasses.append fs⟩, hplace, hcalls, hindex⟩

theorem Taken.append {older : List (XenoRun F)} {j : Nat} {x : Reading F}
    (h : Taken m s₀ es older j x) (fs : List (XenoEvent F)) :
    Taken m s₀ (es ++ fs) older j x := by
  obtain ⟨⟨sa, ha, hacc⟩, ⟨sb, hb, hbaro⟩, ⟨sg, hg, hgyro⟩⟩ := h
  exact ⟨⟨sa, ha.append fs, hacc⟩, ⟨sb, hb.append fs, hbaro⟩, ⟨sg, hg.append fs, hgyro⟩⟩

theorem Told.append {older : List (XenoRun F)} {r : XenoRun F} (h : Told m s₀ es older r)
    (fs : List (XenoEvent F)) : Told m s₀ (es ++ fs) older r := by
  obtain ⟨⟨s, chosen, hpasses, hbegun⟩, htaken, hstored⟩ := h
  refine ⟨⟨s, chosen, hpasses.append fs, hbegun⟩, fun j x hx => (htaken j x hx).append fs,
    fun j v hv => ?_⟩
  obtain ⟨s, hvisits, hs⟩ := hstored j v hv
  exact ⟨s, hvisits.append fs, hs⟩

/-- The entry behind the last. -/
theorem eq_of_getElem?_snoc {α : Type} {xs : List α} {x y : α} {j : Nat}
    (h : (xs ++ [x])[j]? = some y) : xs[j]? = some y ∨ j = xs.length ∧ y = x := by
  rcases Nat.lt_trichotomy j xs.length with hlt | rfl | hgt
  · exact .inl (by rwa [List.getElem?_append_left hlt] at h)
  · simp only [List.getElem?_concat_length, Option.some.injEq] at h
    exact .inr ⟨rfl, h.symm⟩
  · rw [List.getElem?_eq_none (by simp; omega)] at h
    cases h

/-! ## The records -/

/-- How many readings there are and how many results, wherever the consumer is. -/
def Tally (s : Xeno F) : Prop :=
  match s.pc with
  | .delay _ | .inSleep | .chooseEngine =>
    s.finished ≠ [] → s.present.readings.length = numReadings
  | .defaultParam _ =>
    s.i = 0 ∧ s.present.readings.length = 0 ∧ s.present.stored.length = 0
  | .takeRaw | .tookRaw | .readAcc | .readBaro | .readGyro =>
    s.i < numReadings ∧ s.present.readings.length = s.i ∧ s.present.stored.length = s.i
  | .releaseRaw | .create _ | .startup _ | .schedule _ | .takeBench | .tookBench | .store _ =>
    s.i < numReadings ∧ s.present.readings.length = s.i + 1 ∧ s.present.stored.length = s.i
  | .releaseBench =>
    s.i < numReadings ∧ s.present.readings.length = s.i + 1 ∧
      s.present.stored.length = s.i + 1

/-- What the records have to do with the past of the run. -/
structure Recorded (m : Utilities F) (s₀ : Xeno F) (es : List (XenoEvent F)) (s : Xeno F) :
    Prop where
  tally : s.Tally
  /-- the results of the last reading stay where they are up to the next ones -/
  results : (∀ j, s.pc ≠ .store j) → ∀ v ∈ s.present.stored.getLast?, List.ofFn s.results = v
  present : s.finished ≠ [] → Told m s₀ es s.finished s.present
  finished : ∀ newer r older, s.finished = newer ++ r :: older → older ≠ [] →
    Told m s₀ es older r ∧ r.readings.length = numReadings
  /-- what has been read of the reading that is being taken -/
  acc : s.pc = .readBaro ∨ s.pc = .readGyro →
    ∃ s', Makes m s₀ es s.finished s.i .readAcc s' ∧ s.snapshot.u0d = s'.accV s.i
  baro : s.pc = .readGyro →
    ∃ s', Makes m s₀ es s.finished s.i .readBaro s' ∧ s.snapshot.altd = s'.baroV s.i

namespace Recorded

/-- The finished calls stay as they are. -/
theorem finished_append (h : Recorded m s₀ es s) (fs : List (XenoEvent F)) :
    ∀ newer r older, s.finished = newer ++ r :: older → older ≠ [] →
      Told m s₀ (es ++ fs) older r ∧ r.readings.length = numReadings := by
  intro newer r older hr holder
  obtain ⟨htold, hfull⟩ := h.finished newer r older hr holder
  exact ⟨htold.append fs, hfull⟩

/-- A step that records nothing. -/
theorem keep (h : Recorded m s₀ es s) (e : XenoEvent F) (htally : s'.Tally)
    (hpresent : s'.present = s.present) (hfinished : s'.finished = s.finished)
    (hresults : s'.results = s.results)
    (hpc : s'.pc = s.pc ∧ s'.snapshot = s.snapshot ∧ s'.i = s.i ∨
      (∀ j, s.pc ≠ .store j) ∧ s'.pc ≠ .readBaro ∧ s'.pc ≠ .readGyro) :
    Recorded m s₀ (es ++ [e]) s' := by
  refine ⟨htally, fun hstore => ?_, fun hne => ?_, ?_, fun hread => ?_, fun hread => ?_⟩
  · rw [hpresent, hresults]
    rcases hpc with ⟨hpc, -, -⟩ | ⟨hpc, -⟩
    · exact h.results (hpc ▸ hstore)
    · exact h.results hpc
  · rw [hpresent, hfinished]
    exact (h.present (hfinished ▸ hne)).append [e]
  · rw [hfinished]
    exact h.finished_append [e]
  · rcases hpc with ⟨hpc, hsnapshot, hi⟩ | ⟨-, hbaro, hgyro⟩
    · obtain ⟨s₁, hs₁, hacc⟩ := h.acc (hpc ▸ hread)
      rw [hfinished, hi, hsnapshot]
      exact ⟨s₁, hs₁.append [e], hacc⟩
    · exact absurd hread (by simp [hbaro, hgyro])
  · rcases hpc with ⟨hpc, hsnapshot, hi⟩ | ⟨-, -, hgyro⟩
    · obtain ⟨s₁, hs₁, hbaro⟩ := h.baro (hpc ▸ hread)
      rw [hfinished, hi, hsnapshot]
      exact ⟨s₁, hs₁.append [e], hbaro⟩
    · exact absurd hread hgyro

/-- The consumer begins a call of `init_xeno`. -/
theorem begin_call (h : Recorded m s₀ es s) {engine : Engine} {chosen : Option Worker}
    (hnow : Passes (Xeno.step m) s₀ (es ++ [e]) s (.consumer engine chosen))
    (hpc : s.pc = .chooseEngine) :
    Recorded m s₀ (es ++ [e]) { s with
      pc := .defaultParam defaultParam
      engine := engine
      i := 0
      present := ⟨engine, s.g, [], []⟩
      finished := s.present :: s.finished } := by
  have htally := h.tally
  simp only [Tally, hpc] at htally
  refine ⟨⟨rfl, rfl, rfl⟩, fun _ v hv => ?_, fun _ => ?_, ?_, fun hread => ?_, fun hread => ?_⟩
  · cases hv
  · refine ⟨⟨s, chosen, hnow, hpc, rfl, rfl⟩, fun j x hx => ?_, fun j v hv => ?_⟩
    · simp at hx
    · simp at hv
  · intro newer r older hr holder
    cases newer with
    | nil =>
      obtain ⟨rfl, rfl⟩ := List.cons_eq_cons.mp hr
      exact ⟨(h.present holder).append [e], htally holder⟩
    | cons _ newer =>
      obtain ⟨-, hr⟩ := List.cons_eq_cons.mp hr
      exact h.finished_append [e] newer r older hr holder
  · rcases hread with hread | hread <;> cases hread
  · cases hread

/-- The consumer has read the last of the three samples. -/
theorem take_reading (h : Recorded m s₀ es s) {x : Reading F}
    (hx : Taken m s₀ (es ++ [e]) s.finished s.i x) (hpc : s.pc = .readGyro)
    (hpresent : s'.present = { s.present with readings := s.present.readings ++ [x] })
    (hfinished : s'.finished = s.finished) (hresults : s'.results = s.results)
    (hi : s'.i = s.i) (hpc' : s'.pc = .releaseRaw) : Recorded m s₀ (es ++ [e]) s' := by
  have htally := h.tally
  simp only [Tally, hpc] at htally
  obtain ⟨hlt, hreadings, hstored⟩ := htally
  refine ⟨?_, fun _ => ?_, fun hne => ?_, ?_, fun hread => ?_, fun hread => ?_⟩
  · simp [Tally, hpc', hi, hpresent, hlt, hreadings, hstored]
  · rw [hpresent, hresults]
    exact h.results (by simp [hpc])
  · rw [hfinished] at hne ⊢
    rw [hpresent]
    have htold := (h.present hne).append [e]
    refine ⟨htold.begun, fun j y hy => ?_, htold.stored⟩
    rcases eq_of_getElem?_snoc hy with hy | ⟨rfl, rfl⟩
    · exact htold.taken j y hy
    · rw [hreadings]
      exact hx
  · rw [hfinished]
    exact h.finished_append [e]
  · simp [hpc'] at hread
  · simp [hpc'] at hread

/-- The consumer has stored the last of the results. -/
theorem store_last (h : Recorded m s₀ es s) {j : Fin 14} (hpc : s.pc = .store j)
    (hnext : Machine.run (Xeno.step m) s₀ (es ++ [e]) = some s')
    (hpresent : s'.present =
      { s.present with stored := s.present.stored ++ [List.ofFn s'.results] })
    (hfinished : s'.finished = s.finished) (hi : s'.i = s.i) (hpc' : s'.pc = .releaseBench) :
    Recorded m s₀ (es ++ [e]) s' := by
  have htally := h.tally
  simp only [Tally, hpc] at htally
  obtain ⟨hlt, hreadings, hstored⟩ := htally
  refine ⟨?_, fun _ v hv => ?_, fun hne => ?_, ?_, fun hread => ?_, fun hread => ?_⟩
  · simp [Tally, hpc', hi, hpresent, hlt, hreadings, hstored]
  · rw [hpresent] at hv
    simpa using hv
  · rw [hfinished] at hne ⊢
    rw [hpresent]
    have htold := (h.present hne).append [e]
    refine ⟨htold.begun, htold.taken, fun k v hv => ?_⟩
    rcases eq_of_getElem?_snoc hv with hv | ⟨rfl, rfl⟩
    · exact htold.stored k v hv
    · exact ⟨s', visits_last hnext, hpc', hfinished, hi.trans hstored.symm, rfl⟩
  · rw [hfinished]
    exact h.finished_append [e]
  · simp [hpc'] at hread
  · simp [hpc'] at hread

/-- A statement of the consumer. -/
theorem consumer (h : Recorded m s₀ es s) (hrun : Machine.run (Xeno.step m) s₀ es = some s)
    {engine : Engine} {chosen : Option Worker}
    (hnext : Machine.run (Xeno.step m) s₀ (es ++ [.consumer engine chosen]) = some s')
    (hstep : s.consumerStep m engine chosen = some s') :
    Recorded m s₀ (es ++ [.consumer engine chosen]) s' := by
  have hnow := passes_last hrun (.consumer engine chosen)
  have hmakes : Makes m s₀ (es ++ [.consumer engine chosen]) s.finished s.i s.pc s :=
    ⟨⟨engine, chosen, hnow⟩, rfl, rfl, rfl⟩
  have htally := h.tally
  -- the statements that record nothing and read nothing
  have hgo : ∀ {cs pc}, s.goOn cs pc = some s' → (∀ y, Tally { s with x := y, pc := pc }) →
      (∀ j, s.pc ≠ .store j) → pc ≠ .readBaro → pc ≠ .readGyro →
      Recorded m s₀ (es ++ [.consumer engine chosen]) s' := by
    intro cs pc hgo ht hstore hbaro hgyro
    obtain ⟨y, -, rfl⟩ := Option.map_eq_some_iff.mp hgo
    exact h.keep _ (ht y) rfl rfl rfl (.inr ⟨hstore, hbaro, hgyro⟩)
  have hreturned : ∀ {pc}, s.returned pc = some s' → (∀ y, Tally { s with x := y, pc := pc }) →
      (∀ j, s.pc ≠ .store j) → pc ≠ .readBaro → pc ≠ .readGyro →
      Recorded m s₀ (es ++ [.consumer engine chosen]) s' := by
    intro pc hret
    unfold returned at hret
    split at hret <;> exact hgo hret
  unfold consumerStep at hstep
  unfold Tally at htally
  cases hpc : s.pc with
  | delay tick =>
    simp only [hpc] at hstep htally
    exact hgo hstep (fun _ => htally) (by simp [hpc]) (by simp) (by simp)
  | inSleep =>
    simp only [hpc] at hstep htally
    exact hgo hstep (fun _ => htally) (by simp [hpc]) (by simp) (by simp)
  | chooseEngine =>
    simp only [hpc] at hstep
    cases hstep
    exact h.begin_call hnow hpc
  | defaultParam todo =>
    simp only [hpc] at hstep htally
    obtain ⟨hi, hreadings, hstored⟩ := htally
    cases todo with
    | nil =>
      cases hstep
      refine h.keep _ ?_ rfl rfl rfl (.inr ⟨by simp [hpc], by simp, by simp⟩)
      simp [Tally, hi, hreadings, hstored, numReadings]
    | cons st todo =>
      cases hstep
      exact h.keep _ ⟨hi, hreadings, hstored⟩ rfl rfl rfl
        (.inr ⟨by simp [hpc], by simp, by simp⟩)
  | takeRaw =>
    simp only [hpc] at hstep htally
    exact hgo hstep (fun _ => htally) (by simp [hpc]) (by simp) (by simp)
  | tookRaw =>
    simp only [hpc] at hstep htally
    exact hreturned hstep (fun _ => htally) (by simp [hpc]) (by simp) (by simp)
  | readAcc =>
    simp only [hpc] at hstep htally
    cases hstep
    exact ⟨htally, fun _ => h.results (by simp [hpc]), fun hne => (h.present hne).append _,
      h.finished_append _, fun _ => ⟨s, hpc ▸ hmakes, rfl⟩, fun hread => by cases hread⟩
  | readBaro =>
    simp only [hpc] at hstep htally
    cases hstep
    obtain ⟨s₁, hs₁, hacc⟩ := h.acc (.inl hpc)
    exact ⟨htally, fun _ => h.results (by simp [hpc]), fun hne => (h.present hne).append _,
      h.finished_append _, fun _ => ⟨s₁, hs₁.append _, hacc⟩, fun _ => ⟨s, hpc ▸ hmakes, rfl⟩⟩
  | readGyro =>
    simp only [hpc] at hstep
    cases hstep
    obtain ⟨sa, ha, hacc⟩ := h.acc (.inr hpc)
    obtain ⟨sb, hb, hbaro⟩ := h.baro hpc
    have htaken : Taken m s₀ (es ++ [.consumer engine chosen]) s.finished s.i
        { s.snapshot with throtl := s.gyroV s.i } :=
      ⟨⟨sa, ha.append _, hacc⟩, ⟨sb, hb.append _, hbaro⟩, ⟨s, hpc ▸ hmakes, rfl⟩⟩
    exact h.take_reading htaken hpc rfl rfl rfl rfl rfl
  | releaseRaw =>
    simp only [hpc] at hstep htally
    exact hgo hstep (fun _ => htally) (by simp [hpc]) (by simp) (by simp)
  | create p =>
    simp only [hpc] at hstep htally
    obtain ⟨r, -, rfl⟩ := Option.map_eq_some_iff.mp hstep
    cases p <;> exact h.keep _ htally rfl rfl rfl (.inr ⟨by simp [hpc], by simp [Stage.next?],
      by simp [Stage.next?]⟩)
  | startup p =>
    simp only [hpc] at hstep htally
    exact hgo hstep (fun _ => htally) (by simp [hpc]) (by simp) (by simp)
  | schedule p =>
    simp only [hpc] at hstep htally
    cases chosen with
    | none =>
      simp only at hstep
      split at hstep
      · cases p <;> exact hgo hstep (fun _ => htally) (by simp [hpc]) (by simp [Stage.next?])
          (by simp [Stage.next?])
      · cases hstep
    | some t =>
      simp only at hstep
      split at hstep
      · cases p <;> exact hgo hstep (fun _ => htally) (by simp [hpc]) (by simp [Stage.next?])
          (by simp [Stage.next?])
      · cases hstep
  | takeBench =>
    simp only [hpc] at hstep htally
    exact hgo hstep (fun _ => htally) (by simp [hpc]) (by simp) (by simp)
  | tookBench =>
    simp only [hpc] at hstep htally
    exact hreturned hstep (fun _ => htally) (by simp [hpc]) (by simp) (by simp)
  | store j =>
    simp only [hpc] at hstep htally
    split at hstep
    · next hj =>
      cases hstep
      refine ⟨htally, fun hstore => absurd rfl (hstore ⟨j + 1, hj⟩), ?_, h.finished_append _,
        fun hread => ?_, fun hread => ?_⟩
      · exact fun hne => (h.present hne).append _
      · rcases hread with hread | hread <;> cases hread
      · cases hread
    · cases hstep
      exact h.store_last hpc hnext rfl rfl rfl rfl
  | releaseBench =>
    simp only [hpc] at hstep htally
    obtain ⟨hlt, hreadings, hstored⟩ := htally
    obtain ⟨y, -, rfl⟩ := Option.map_eq_some_iff.mp hstep
    by_cases hi : s.i + 1 < numReadings
    · simp only [hi, if_true]
      exact h.keep _ ⟨hi, hreadings, hstored⟩ rfl rfl rfl
        (.inr ⟨by simp [hpc], by simp, by simp⟩)
    · simp only [hi, if_false]
      have hfull : s.present.readings.length = numReadings := by omega
      exact h.keep _ (fun _ => hfull) rfl rfl rfl (.inr ⟨by simp [hpc], by simp, by simp⟩)

/-- **Every event keeps the records true.** -/
theorem step (h : Recorded m s₀ es s) (hrun : Machine.run (Xeno.step m) s₀ es = some s)
    (hstep : Xeno.step m s e = some s') : Recorded m s₀ (es ++ [e]) s' := by
  have hnext : Machine.run (Xeno.step m) s₀ (es ++ [e]) = some s' := by
    rw [run_append, hrun, Option.bind_some, run_cons, hstep]
    rfl
  have hkeep : s'.present = s.present → s'.finished = s.finished → s'.results = s.results →
      s'.pc = s.pc → s'.snapshot = s.snapshot → s'.i = s.i → Recorded m s₀ (es ++ [e]) s' := by
    intro hpresent hfinished hresults hpc hsnapshot hi
    have htally := h.tally
    refine h.keep e ?_ hpresent hfinished hresults (.inl ⟨hpc, hsnapshot, hi⟩)
    unfold Tally at htally ⊢
    rw [hpc, hpresent, hfinished, hi]
    exact htally
  cases e with
  | consumer engine chosen =>
    simp only [Xeno.step] at hstep
    split at hstep
    · exact h.consumer hrun hnext hstep
    · cases hstep
  | stage p =>
    simp only [Xeno.step] at hstep
    split at hstep
    · unfold stageStep at hstep
      split at hstep
      · obtain ⟨y, -, rfl⟩ := Option.map_eq_some_iff.mp hstep
        exact hkeep rfl rfl rfl rfl rfl rfl
      · cases hstep
        exact hkeep rfl rfl rfl rfl rfl rfl
    · cases hstep
  | other c =>
    simp only [Xeno.step] at hstep
    split at hstep
    · obtain ⟨y, -, rfl⟩ := Option.map_eq_some_iff.mp hstep
      exact hkeep rfl rfl rfl rfl rfl rfl
    · cases hstep
  | switch t =>
    simp only [Xeno.step] at hstep
    split at hstep
    · obtain ⟨y, -, rfl⟩ := Option.map_eq_some_iff.mp hstep
      exact hkeep rfl rfl rfl rfl rfl rfl
    · cases hstep
  | sample accV baroV gyroV =>
    cases hstep
    exact hkeep rfl rfl rfl rfl rfl rfl

/-- A call that has ended has taken all its readings. -/
theorem full (h : Recorded m s₀ es s) (hpc : s.pc.Between) (hcall : s.finished ≠ []) :
    s.present.readings.length = numReadings := by
  have htally := h.tally
  unfold Tally at htally
  cases hs : s.pc with
  | delay | inSleep | chooseEngine =>
    simp only [hs] at htally
    exact htally hcall
  | _ =>
    rw [hs] at hpc
    exact hpc.elim

/-- The state it starts from: no call has been made. -/
theorem start (m : Utilities F) (cfg : Config Task) (tick : Nat) (engine : Engine) (g : Var → F)
    (results : Fin 14 → F) (accV baroV gyroV : Nat → F) :
    Recorded m (Xeno.start cfg tick engine g results accV baroV gyroV) []
      (Xeno.start cfg tick engine g results accV baroV gyroV) := by
  refine ⟨fun hne => absurd rfl hne, fun _ v hv => ?_, fun hne => absurd rfl hne, ?_,
    fun hread => ?_, fun hread => ?_⟩
  · cases hv
  · intro newer r older hr
    cases newer <;> cases hr
  · rcases hread with hread | hread <;> cases hread
  · cases hread

end Recorded

end Xeno

/-! ## The refinement -/

/-- A call that has ended has stored its results for every reading. -/
theorem Xeno.Inv.complete {m : Utilities F} {s : Xeno F} (h : s.Inv m) (hpc : s.pc.Between) :
    s.present.Complete m := by
  have hdata := h.data
  unfold Xeno.Data at hdata
  cases hs : s.pc with
  | delay | inSleep | chooseEngine =>
    rw [hs] at hdata
    exact hdata
  | _ =>
    rw [hs] at hpc
    exact hpc.elim

/-- **The threaded benchmark refines the one without threads.** In every run, whatever the other
threads and the interrupts do and however the scheduler switches, take any call of `init_xeno`, made
after the calls `older`. It has begun with the engine and the globals that its record names; reading
`j` of it is `(acc_v[j], baro_v[j], gyro_v[j])` when the consumer reads them with `i = j`; what it
has stored for it is what is in `results[0..13]` when the consumer is done storing, with `i = j`.
And the vectors stored are those of `deduceInputs`, `getThermo`, `getGeo` and `calcPerf` run one
after the other on its readings: a prefix of them while the call goes on, and all of them, one for
each of the readings it takes, when it has ended. Outside of the stores `results` holds the last of
them. When `init_xeno` initialises one of the four threads, the one before has exited, and the
assertions of `rt_thread_init` hold. -/
theorem benchmark_refines (m : Utilities F) (cfg : Config Task) (tick : Nat) (engine : Engine)
    (g : Var → F) (results : Fin 14 → F) (accV baroV gyroV : Nat → F) (es : List (XenoEvent F))
    (s : Xeno F)
    (h : run (Xeno.step m) (Xeno.start cfg tick engine g results accV baroV gyroV) es = some s) :
    (∀ newer r older, s.present :: s.finished = newer ++ r :: older → older ≠ [] →
      Xeno.Told m (Xeno.start cfg tick engine g results accV baroV gyroV) es older r ∧
      r.stored <+: sequential m r.engine (exec defaultParam r.globals) r.readings ∧
      (newer ≠ [] ∨ s.pc.Between → r.readings.length = numReadings ∧
        r.stored = sequential m r.engine (exec defaultParam r.globals) r.readings)) ∧
    ((∀ j, s.pc ≠ .store j) →
      ∀ v ∈ s.present.stored.getLast?, List.ofFn s.results = v) ∧
    (∀ p, s.pc = .create p → s.Exited p ∧
      (s.x.k.rtThreadInit s.objects (.stage p) p.priority).isSome) := by
  have hinv : s.Inv m := run_invariant (Xeno.Inv m) (fun _ _ _ _ hs hstep => hs.step hstep)
    (Xeno.Inv.start cfg tick engine g results accV baroV gyroV) h
  have hrecorded := run_history
    (Xeno.Recorded m (Xeno.start cfg tick engine g results accV baroV gyroV))
    (Xeno.Recorded.start m cfg tick engine g results accV baroV gyroV)
    (fun _ _ _ _ hrun hs hstep => hs.step hrun hstep) h
  refine ⟨fun newer r older hr holder => ?_, hrecorded.results, fun p hp => ?_⟩
  · have hprefix := hinv.stored_prefix r (by rw [hr]; simp)
    cases newer with
    | nil =>
      obtain ⟨rfl, rfl⟩ := List.cons_eq_cons.mp hr
      refine ⟨hrecorded.present holder, hprefix, fun hend => ?_⟩
      have hbetween := hend.resolve_left fun hne => hne rfl
      exact ⟨hrecorded.full hbetween holder, hinv.complete hbetween⟩
    | cons _ newer =>
      obtain ⟨-, hr⟩ := List.cons_eq_cons.mp hr
      obtain ⟨htold, hfull⟩ := hrecorded.finished newer r older hr holder
      exact ⟨htold, hprefix, fun _ => ⟨hfull, hinv.finished r (by rw [hr]; simp)⟩⟩
  · have hexited : s.Exited p := by
      apply (hinv.stages.stages p).absent
      rw [hp]
      exact le_rfl
    refine ⟨hexited, ?_⟩
    have hprio : p.priority < rtThreadPriorityMax := by
      cases p <;> decide
    simp [Kernel.rtThreadInit, rtObjectInit, hexited.1, hexited.2.1, hprio]

section FirstReading

/-- Whole numbers, the decimals cut off. -/
local instance wholeScientific : OfScientific Int :=
  ⟨fun n negative e => if negative then n / Nat.pow 10 e else n * Nat.pow 10 e⟩

/-- Utilities on whole numbers. -/
def wholeUtilities : Utilities Int where
  sqroot x := x
  fpow _ _ := 1
  expo _ := 1
  getMach _ _ _ := 1
  getRayleighLoss _ _ _ := 1
  toInt x := x

open XenoEvent in
/-- The consumer starts a thread of the pipeline, which takes `n` steps to its end. -/
def stageEvents (p : Stage) (n : Nat) : List (XenoEvent Int) :=
  consumer .turbojet none :: consumer .turbojet (some (.stage p)) ::
    List.replicate n (stage p) ++ [switch .consumer]

open XenoEvent in
/-- `main` starts the consumer and ends, and the consumer goes through its first reading. -/
def firstReading : List (XenoEvent Int) :=
  [other (.startup .consumer), other (.exit (.sys .main)), switch .consumer,
    consumer .turbojet none, switch (.sys .idle), other (.timeout .consumer),
    switch .consumer] ++
  List.replicate 168 (consumer .turbojet none) ++
  stageEvents .deduceInputs 21 ++ stageEvents .getThermo 64 ++ stageEvents .getGeo 27 ++
  stageEvents .calcPerf 36 ++ List.replicate 16 (consumer .turbojet none)

/-- The first reading is of the samples 3, 5 and 7, and its results are stored. -/
theorem benchmark_refines_firstReading :
    ∃ s x v, run (Xeno.step wholeUtilities) (Xeno.start (board fun _ => 0) 0 .turbojet (fun _ => 0)
        (fun _ => 0) (fun _ => 3) (fun _ => 5) (fun _ => 7)) firstReading = some s ∧
      s.present.readings = [x] ∧ s.present.stored = [v] ∧
      Xeno.Taken wholeUtilities (Xeno.start (board fun _ => 0) 0 .turbojet (fun _ => 0)
        (fun _ => 0) (fun _ => 3) (fun _ => 5) (fun _ => 7)) firstReading s.finished 0 x ∧
      s.present.stored <+: sequential wholeUtilities s.present.engine
        (exec defaultParam s.present.globals) s.present.readings := by
  have hlengths : (run (Xeno.step wholeUtilities) (Xeno.start (board fun _ => 0) 0 .turbojet
      (fun _ => 0) (fun _ => 0) (fun _ => 3) (fun _ => 5) (fun _ => 7)) firstReading).map
      (fun s => (s.present.readings.length, s.present.stored.length, s.finished.length)) =
        some (1, 1, 1) := by decide +kernel
  obtain ⟨s, hs, hlengths⟩ := Option.map_eq_some_iff.mp hlengths
  simp only [Prod.mk.injEq] at hlengths
  obtain ⟨x, hx⟩ := List.length_eq_one_iff.mp hlengths.1
  obtain ⟨v, hv⟩ := List.length_eq_one_iff.mp hlengths.2.1
  have hcall : s.finished ≠ [] := List.ne_nil_of_length_pos (by omega)
  obtain ⟨htold, hprefix, -⟩ :=
    (benchmark_refines wholeUtilities _ _ _ _ _ _ _ _ _ s hs).1 [] s.present s.finished rfl hcall
  exact ⟨s, x, v, hs, hx, hv, htold.taken 0 x (by rw [hx]; rfl), hprefix⟩

end FirstReading

end OsesProject
