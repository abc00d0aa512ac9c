import Mathlib.Data.List.Infix

/-!
# Runs of a labelled machine

A machine is a partial step function `step : σ → ε → Option σ`: at a state, an event either has
one successor or cannot happen. A run is a list of events; `run step s es` is the state it ends
in, when every event of it can happen in its turn.

Two notions are stated over it. `Reach step ok s₀ s`: a run from `s₀` ends in `s`, and every step
of it meets the condition `ok` on the state before the step and the event. `Always step P s es`:
the property `P` holds in every state the run visits, its first and its last one included, and
`Each step C s es` is the same for a condition on the steps. The rules the invariants of a
development are proved with are `run_invariant`, `Reach.invariant`, `always_iff_each` and
`each_congr`.

The past of a run is what its prefixes come to: `Visits` and `Passes` name a state in it, and
`run_history` is the rule for what a state has to do with its past.
-/

namespace Machine

variable {σ ε : Type*} {step : σ → ε → Option σ}

/-- The state a run ends in; `none` when some event of it cannot happen in its turn. -/
def run (step : σ → ε → Option σ) : σ → List ε → Option σ
  | s, [] => some s
  | s, e :: es => (step s e).bind fun s' => run step s' es

@[simp] theorem run_nil (s : σ) : run step s [] = some s := rfl

theorem run_cons (s : σ) (e : ε) (es : List ε) :
    run step s (e :: es) = (step s e).bind fun s' => run step s' es := rfl

theorem run_append (s : σ) (es fs : List ε) :
    run step s (es ++ fs) = (run step s es).bind fun s' => run step s' fs := by
  induction es generalizing s with
  | nil => rfl
  | cons e es ih =>
    simp only [List.cons_append, run_cons]
    cases step s e with
    | none => rfl
    | some s' => exact ih s'

/-- What each event of a run keeps, the run keeps. -/
theorem run_invariant (I : σ → Prop) {s s' : σ} {es : List ε}
    (keeps : ∀ e ∈ es, ∀ s s', I s → step s e = some s' → I s') (hI : I s)
    (hrun : run step s es = some s') : I s' := by
  induction es generalizing s with
  | nil =>
    cases hrun
    exact hI
  | cons e es ih =>
    rw [run_cons, Option.bind_eq_some_iff] at hrun
    obtain ⟨t, ht, hrun⟩ := hrun
    exact ih (fun f hf => keeps f (List.mem_cons_of_mem _ hf))
      (keeps e List.mem_cons_self s t hI ht) hrun

/-- The run comes to the state `s`. -/
def Visits (step : σ → ε → Option σ) (s₀ : σ) (es : List ε) (s : σ) : Prop :=
  ∃ past, past <+: es ∧ run step s₀ past = some s

/-- The run comes to the state `s` and goes on with `e`. -/
def Passes (step : σ → ε → Option σ) (s₀ : σ) (es : List ε) (s : σ) (e : ε) : Prop :=
  ∃ past, past ++ [e] <+: es ∧ run step s₀ past = some s

theorem Visits.append {s₀ s : σ} {es : List ε} (h : Visits step s₀ es s) (fs : List ε) :
    Visits step s₀ (es ++ fs) s := by
  obtain ⟨past, hpast, hs⟩ := h
  exact ⟨past, hpast.trans (List.prefix_append es fs), hs⟩

theorem Passes.append {s₀ s : σ} {es : List ε} {e : ε} (h : Passes step s₀ es s e)
    (fs : List ε) : Passes step s₀ (es ++ fs) s e := by
  obtain ⟨past, hpast, hs⟩ := h
  exact ⟨past, hpast.trans (List.prefix_append es fs), hs⟩

theorem visits_last {s₀ s : σ} {es : List ε} (h : run step s₀ es = some s) :
    Visits step s₀ es s := ⟨es, List.prefix_rfl, h⟩

theorem passes_last {s₀ s : σ} {es : List ε} (h : run step s₀ es = some s) (e : ε) :
    Passes step s₀ (es ++ [e]) s e := ⟨es, List.prefix_rfl, h⟩

/-- The history rule: what holds of the start and an empty past, and is kept when an event is added
to the past, holds of the end of a run and its events. -/
theorem run_history (I : List ε → σ → Prop) {s₀ s : σ} {es : List ε} (start : I [] s₀)
    (keeps : ∀ es s e s', run step s₀ es = some s → I es s → step s e = some s' → I (es ++ [e]) s')
    (h : run step s₀ es = some s) : I es s := by
  induction es using List.reverseRecOn generalizing s with
  | nil =>
    cases h
    exact start
  | append_singleton es e ih =>
    rw [run_append, Option.bind_eq_some_iff] at h
    obtain ⟨t, ht, hstep⟩ := h
    rw [run_cons] at hstep
    obtain ⟨s', hs', hend⟩ := Option.bind_eq_some_iff.mp hstep
    cases hend
    exact keeps es t e s ht (ih ht) hs'

/-- The states that runs from `s₀` reach when every step meets `ok`. -/
inductive Reach (step : σ → ε → Option σ) (ok : σ → ε → Prop) (s₀ : σ) : σ → Prop
  | refl : Reach step ok s₀ s₀
  | tail {s s' : σ} {e : ε} : Reach step ok s₀ s → ok s e → step s e = some s' →
      Reach step ok s₀ s'

/-- The invariant rule: what holds at the start and is kept by every step that meets `ok` holds
in every state reached. -/
theorem Reach.invariant {ok : σ → ε → Prop} {s₀ s : σ} (I : σ → Prop) (start : I s₀)
    (keeps : ∀ s e s', I s → ok s e → step s e = some s' → I s') (h : Reach step ok s₀ s) :
    I s := by
  induction h with
  | refl => exact start
  | tail _ hok hstep ih => exact keeps _ _ _ ih hok hstep

/-- A weaker condition on the steps reaches at least as much. -/
theorem Reach.mono {ok ok' : σ → ε → Prop} {s₀ s : σ} (hsub : ∀ s e, ok s e → ok' s e)
    (h : Reach step ok s₀ s) : Reach step ok' s₀ s := by
  induction h with
  | refl => exact .refl
  | tail _ hok hstep ih => exact .tail ih (hsub _ _ hok) hstep

/-- `P` holds in every state the run visits. -/
def Always (step : σ → ε → Option σ) (P : σ → Prop) : σ → List ε → Prop
  | s, [] => P s
  | s, e :: es => P s ∧ ∀ s', step s e = some s' → Always step P s' es

/-- `C` holds of every step the run takes. -/
def Each (step : σ → ε → Option σ) (C : σ → ε → Prop) : σ → List ε → Prop
  | _, [] => True
  | s, e :: es => C s e ∧ ∀ s', step s e = some s' → Each step C s' es

instance Each.decidable {C : σ → ε → Prop} [∀ s e, Decidable (C s e)] :
    ∀ (s : σ) (es : List ε), Decidable (Each step C s es)
  | _, [] => .isTrue trivial
  | s, e :: es =>
    match h : step s e with
    | none => decidable_of_iff (C s e) ⟨fun hC => ⟨hC, by simp [h]⟩, And.left⟩
    | some s' =>
      have : Decidable (Each step C s' es) := Each.decidable s' es
      decidable_of_iff (C s e ∧ Each step C s' es) (by simp [Each, h])

theorem Always.start {P : σ → Prop} {s : σ} {es : List ε} (h : Always step P s es) : P s := by
  cases es with
  | nil => exact h
  | cons e es => exact h.1

/-- A run each of whose steps is allowed reaches its last state. -/
theorem Reach.of_each {ok : σ → ε → Prop} {s₀ s s' : σ} {es : List ε} (hs : Reach step ok s₀ s)
    (hok : Each step ok s es) (hrun : run step s es = some s') : Reach step ok s₀ s' := by
  induction es generalizing s with
  | nil =>
    cases hrun
    exact hs
  | cons e es ih =>
    rw [run_cons, Option.bind_eq_some_iff] at hrun
    obtain ⟨t, ht, hrun⟩ := hrun
    exact ih (.tail hs hok.1 ht) (hok.2 t ht) hrun

/-- The exact rule, for runs of `allowed` events: when a step from a state with `I` keeps `I` if it
meets `C` and breaks `P` if it does not, and `I` gives `P`, a run from a state with `I` keeps `P`
throughout exactly when each of its steps meets `C`. -/
theorem always_iff_each {P I : σ → Prop} {C : σ → ε → Prop} {allowed : ε → Prop}
    (holds : ∀ s, I s → P s)
    (keeps : ∀ s e s', I s → allowed e → C s e → step s e = some s' → I s')
    (breaks : ∀ s e s', I s → allowed e → ¬ C s e → step s e = some s' → ¬ P s')
    {s s' : σ} {es : List ε} (hI : I s) (hes : ∀ e ∈ es, allowed e)
    (hrun : run step s es = some s') : Always step P s es ↔ Each step C s es := by
  induction es generalizing s with
  | nil => exact ⟨fun _ => trivial, fun _ => holds s hI⟩
  | cons e es ih =>
    rw [run_cons, Option.bind_eq_some_iff] at hrun
    obtain ⟨t, ht, hrun⟩ := hrun
    have he := hes e List.mem_cons_self
    have ih := fun hC : C s e =>
      ih (keeps s e t hI he hC ht) (fun f hf => hes f (List.mem_cons_of_mem _ hf)) hrun
    constructor
    · rintro ⟨_, hrest⟩
      have hC : C s e := by
        by_contra hC
        exact breaks s e t hI he hC ht (hrest t ht).start
      refine ⟨hC, fun u hu => ?_⟩
      cases ht.symm.trans hu
      exact (ih hC).mp (hrest t ht)
    · rintro ⟨hC, hrest⟩
      refine ⟨holds s hI, fun u hu => ?_⟩
      cases ht.symm.trans hu
      exact (ih hC).mpr (hrest t ht)

/-- Two conditions on the steps that agree where an invariant holds agree on runs. -/
theorem each_congr {I : σ → Prop} {C D : σ → ε → Prop}
    (keeps : ∀ s e s', I s → step s e = some s' → I s') (agree : ∀ s e, I s → (C s e ↔ D s e))
    {s : σ} {es : List ε} (hI : I s) : Each step C s es ↔ Each step D s es := by
  induction es generalizing s with
  | nil => exact Iff.rfl
  | cons e es ih =>
    refine and_congr (agree s e hI) (forall_congr' fun s' => ?_)
    exact imp_congr_right fun hs' => ih (keeps s e s' hI hs')

/-- A condition that the events meet in every state holds of each step. -/
theorem Each.of_forall {C : σ → ε → Prop} {es : List ε} (h : ∀ e ∈ es, ∀ s, C s e) (s : σ) :
    Each step C s es := by
  induction es generalizing s with
  | nil => trivial
  | cons e es ih =>
    exact ⟨h e List.mem_cons_self s, fun s' _ =>
      ih (fun f hf => h f (List.mem_cons_of_mem _ hf)) s'⟩

/-- What follows of every step from the condition that every step meets. -/
theorem Each.imp {C D : σ → ε → Prop} {s : σ} {es : List ε} (h : Each step C s es)
    (himp : ∀ s e, C s e → D s e) : Each step D s es := by
  induction es generalizing s with
  | nil => trivial
  | cons e es ih => exact ⟨himp s e h.1, fun s' hs' => ih (h.2 s' hs')⟩

/-- Two conditions that every step meets. -/
theorem Each.and {C D : σ → ε → Prop} {s : σ} {es : List ε} (h : Each step C s es)
    (h' : Each step D s es) : Each step (fun s e => C s e ∧ D s e) s es := by
  induction es generalizing s with
  | nil => trivial
  | cons e es ih => exact ⟨⟨h.1, h'.1⟩, fun s' hs' => ih (h.2 s' hs') (h'.2 s' hs')⟩

/-- A condition on the steps of a run, and on those of a run that goes on where it ends. -/
theorem Each.append {C : σ → ε → Prop} {s s' : σ} {es fs : List ε} (h : Each step C s es)
    (hrun : run step s es = some s') (h' : Each step C s' fs) : Each step C s (es ++ fs) := by
  induction es generalizing s with
  | nil =>
    cases hrun
    exact h'
  | cons e es ih =>
    rw [run_cons, Option.bind_eq_some_iff] at hrun
    obtain ⟨t, ht, hrun⟩ := hrun
    refine ⟨h.1, fun u hu => ?_⟩
    cases ht.symm.trans hu
    exact ih (h.2 t ht) hrun

/-- A condition on the events alone holds of each step of a machine that never stops exactly when it
holds of each event. -/
theorem each_iff_forall_mem {C : ε → Prop} (total : ∀ s e, (step s e).isSome) (s : σ)
    (es : List ε) :
    Each step (fun _ => C) s es ↔ ∀ e ∈ es, C e := by
  induction es generalizing s with
  | nil => exact ⟨fun _ _ he => absurd he List.not_mem_nil, fun _ => trivial⟩
  | cons e es ih =>
    obtain ⟨t, ht⟩ := Option.isSome_iff_exists.mp (total s e)
    rw [List.forall_mem_cons]
    refine and_congr_right fun _ => ?_
    exact ⟨fun h => (ih t).mp (h t ht), fun h s' _ => (ih s').mpr h⟩

end Machine
