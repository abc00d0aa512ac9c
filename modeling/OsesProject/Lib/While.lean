import Mathlib.Logic.Function.Iterate

/-!
# Loops with a test

`while (test) body` on states of any type. `run` takes a bound on the number of turns and gives
nothing when the loop is not over by then. `Leaves test body s k`: from `s`, the loop takes `k`
turns and leaves. What a loop does is said by the number of its turns: it ends in the state after so
many turns of its body (`Leaves.run_eq`).

`runM` is the same for a body that may be undefined: it also gives nothing when a turn is not
defined. `runT` is the same for a test that may be undefined (`DefinedLeaves`, `runT_eq_some_iff`).
`Returns f a`: a function with such a bound returns `a`, once the bound is large enough.
-/

namespace While

variable {σ : Type*} {test : σ → Prop} [DecidablePred test] {body : σ → σ} {s t : σ} {k n : ℕ}

/-- The state in which the loop leaves, when it takes fewer turns than the bound. -/
def run (test : σ → Prop) [DecidablePred test] (body : σ → σ) : ℕ → σ → Option σ
  | 0, _ => none
  | n + 1, s => if test s then run test body n (body s) else some s

/-- The loop takes `k` turns and leaves. -/
def Leaves (test : σ → Prop) (body : σ → σ) (s : σ) (k : ℕ) : Prop :=
  (∀ j < k, test (body^[j] s)) ∧ ¬test (body^[k] s)

omit [DecidablePred test] in
theorem leaves_zero (h : ¬test s) : Leaves test body s 0 :=
  ⟨fun _ hj => absurd hj (Nat.not_lt_zero _), h⟩

omit [DecidablePred test] in
theorem leaves_succ_iff : Leaves test body s (k + 1) ↔ test s ∧ Leaves test body (body s) k := by
  constructor
  · rintro ⟨hall, hend⟩
    exact ⟨hall 0 (Nat.succ_pos k), fun j hj => hall (j + 1) (Nat.succ_lt_succ hj), hend⟩
  · rintro ⟨hs, hall, hend⟩
    refine ⟨fun j hj => ?_, hend⟩
    cases j with
    | zero => exact hs
    | succ j => exact hall j (Nat.lt_of_succ_lt_succ hj)

/-- A loop that leaves within the bound ends in the state after its turns. -/
theorem Leaves.run_eq (h : Leaves test body s k) (hk : k < n) :
    run test body n s = some (body^[k] s) := by
  induction n generalizing s k with
  | zero => exact absurd hk (Nat.not_lt_zero k)
  | succ n ih =>
    cases k with
    | zero => exact if_neg h.2
    | succ k =>
      obtain ⟨hs, hrest⟩ := leaves_succ_iff.mp h
      exact (if_pos hs).trans (ih hrest (Nat.lt_of_succ_lt_succ hk))

/-- A loop whose test fails after some number of turns leaves by then. -/
theorem exists_leaves (h : ¬test (body^[n] s)) : ∃ k ≤ n, Leaves test body s k := by
  induction n generalizing s with
  | zero => exact ⟨0, Nat.le_refl 0, leaves_zero h⟩
  | succ n ih =>
    by_cases hs : test s
    · obtain ⟨k, hk, hleaves⟩ := ih (s := body s) h
      exact ⟨k + 1, Nat.succ_le_succ hk, leaves_succ_iff.mpr ⟨hs, hleaves⟩⟩
    · exact ⟨0, Nat.zero_le _, leaves_zero hs⟩

/-! ## Bodies that may be undefined -/

/-- The state in which the loop leaves, when it takes fewer turns than the bound and all of them are
defined. -/
def runM (test : σ → Prop) [DecidablePred test] (body : σ → Option σ) : ℕ → σ → Option σ
  | 0, _ => none
  | n + 1, s => if test s then (body s).bind (runM test body n) else some s

variable {turn : σ → Option σ} {orbit : ℕ → σ}

/-- Along an orbit whose turns lead to the next state when they are defined, the loop ends in `t`
within the bound exactly when `t` is the first state at which the test fails, the turns before it
being defined. -/
theorem runM_eq_some_iff (hturn : ∀ j t, turn (orbit j) = some t → orbit (j + 1) = t) :
    runM test turn n (orbit 0) = some t ↔
      ∃ k < n, (∀ j < k, test (orbit j)) ∧ ¬test (orbit k) ∧
        (∀ j < k, turn (orbit j) = some (orbit (j + 1))) ∧ orbit k = t := by
  induction n generalizing orbit with
  | zero => simp [runM]
  | succ n ih =>
    -- the rest of the loop starts at the second state of the orbit
    have hrest := @ih (fun j => orbit (j + 1)) fun j => hturn (j + 1)
    rw [runM]
    split
    · next hs =>
      constructor
      · intro h
        obtain ⟨s', hs', hrun⟩ := Option.bind_eq_some_iff.mp h
        obtain rfl := hturn 0 s' hs'
        obtain ⟨k, hk, htest, hlast, hdefined, ht⟩ := hrest.mp hrun
        refine ⟨k + 1, Nat.succ_lt_succ hk, fun j hj => ?_, hlast, fun j hj => ?_, ht⟩
        · cases j with
          | zero => exact hs
          | succ j => exact htest j (Nat.lt_of_succ_lt_succ hj)
        · cases j with
          | zero => exact hs'
          | succ j => exact hdefined j (Nat.lt_of_succ_lt_succ hj)
      · rintro ⟨k, hk, htest, hlast, hdefined, ht⟩
        cases k with
        | zero => exact absurd hs hlast
        | succ k =>
          rw [hdefined 0 (Nat.succ_pos k), Option.bind_some]
          refine hrest.mpr ⟨k, Nat.lt_of_succ_lt_succ hk, fun j hj => ?_, hlast, fun j hj => ?_, ht⟩
          · exact htest (j + 1) (Nat.succ_lt_succ hj)
          · exact hdefined (j + 1) (Nat.succ_lt_succ hj)
    · next hs =>
      constructor
      · intro h
        refine ⟨0, Nat.succ_pos n, fun j hj => ?_, hs, fun j hj => ?_, Option.some.inj h⟩
        · exact absurd hj (Nat.not_lt_zero j)
        · exact absurd hj (Nat.not_lt_zero j)
      · rintro ⟨k, -, htest, -, -, ht⟩
        cases k with
        | zero => exact congrArg some ht
        | succ k => exact absurd (htest 0 (Nat.succ_pos k)) hs

/-! ## Tests that may be undefined -/

section
variable {check : σ → Option Bool}

/-- The state in which the loop leaves, when it takes fewer turns than the bound and every test it
makes is defined. -/
def runT (check : σ → Option Bool) (body : σ → σ) : ℕ → σ → Option σ
  | 0, _ => none
  | n + 1, s => (check s).bind fun b => if b then runT check body n (body s) else some s

/-- The loop takes `k` turns and leaves, and every test it makes is defined. -/
def DefinedLeaves (check : σ → Option Bool) (body : σ → σ) (s : σ) (k : ℕ) : Prop :=
  (∀ j < k, check (body^[j] s) = some true) ∧ check (body^[k] s) = some false

theorem definedLeaves_zero (h : check s = some false) : DefinedLeaves check body s 0 :=
  ⟨fun _ hj => absurd hj (Nat.not_lt_zero _), h⟩

theorem definedLeaves_succ_iff :
    DefinedLeaves check body s (k + 1) ↔
      check s = some true ∧ DefinedLeaves check body (body s) k := by
  constructor
  · rintro ⟨hall, hend⟩
    exact ⟨hall 0 (Nat.succ_pos k), fun j hj => hall (j + 1) (Nat.succ_lt_succ hj), hend⟩
  · rintro ⟨hs, hall, hend⟩
    refine ⟨fun j hj => ?_, hend⟩
    cases j with
    | zero => exact hs
    | succ j => exact hall j (Nat.lt_of_succ_lt_succ hj)

/-- A loop leaves after one number of turns only. -/
theorem DefinedLeaves.unique {j : ℕ} (hj : DefinedLeaves check body s j)
    (hk : DefinedLeaves check body s k) : j = k := by
  rcases Nat.lt_trichotomy j k with h | h | h
  · exact absurd ((hk.1 j h).symm.trans hj.2) (by decide)
  · exact h
  · exact absurd ((hj.1 k h).symm.trans hk.2) (by decide)

/-- The loop ends in `t` within the bound exactly when `t` is the state after its turns, with every
test on the way defined. -/
theorem runT_eq_some_iff :
    runT check body n s = some t ↔ ∃ k < n, DefinedLeaves check body s k ∧ body^[k] s = t := by
  induction n generalizing s with
  | zero => simp [runT]
  | succ n ih =>
    rw [runT, Option.bind_eq_some_iff]
    constructor
    · rintro ⟨b, hb, ht⟩
      cases b with
      | true =>
        obtain ⟨k, hk, hleaves, hend⟩ := ih.mp ht
        exact ⟨k + 1, Nat.succ_lt_succ hk, definedLeaves_succ_iff.mpr ⟨hb, hleaves⟩, hend⟩
      | false => exact ⟨0, Nat.succ_pos n, definedLeaves_zero hb, Option.some.inj ht⟩
    · rintro ⟨k, hk, hleaves, hend⟩
      cases k with
      | zero => exact ⟨false, hleaves.2, congrArg some hend⟩
      | succ k =>
        obtain ⟨hs, hrest⟩ := definedLeaves_succ_iff.mp hleaves
        exact ⟨true, hs, ih.mpr ⟨k, Nat.lt_of_succ_lt_succ hk, hrest, hend⟩⟩

end

end While

/-! ## Functions with a bound -/

/-- With a large enough bound the function returns `a`. -/
def Returns {α : Type*} (f : ℕ → Option α) (a : α) : Prop := ∃ n, ∀ m ≥ n, f m = some a

namespace Returns

variable {α β : Type*} {f : ℕ → Option α} {a : α} {b : β}

theorem exists_eq (h : Returns f a) : ∃ n, f n = some a := by
  obtain ⟨n, hn⟩ := h
  exact ⟨n, hn n (Nat.le_refl n)⟩

theorem exists_succ_eq (h : Returns f a) : ∃ n, f (n + 1) = some a := by
  obtain ⟨n, hn⟩ := h
  exact ⟨n, hn (n + 1) (Nat.le_succ n)⟩

/-- A function that gives nothing for any bound does not return. -/
theorem not_of_forall_none (h : ∀ n, f n = none) : ¬Returns f a := by
  intro hreturns
  obtain ⟨n, hn⟩ := hreturns.exists_eq
  rw [h n] at hn
  cases hn

theorem const (a : α) : Returns (fun _ => some a) a := ⟨0, fun _ _ => rfl⟩

theorem map (h : Returns f a) (g : α → β) : Returns (fun n => (f n).map g) (g a) := by
  obtain ⟨n, hn⟩ := h
  exact ⟨n, fun m hm => congrArg (Option.map g) (hn m hm)⟩

theorem bind {g : α → ℕ → Option β} (h : Returns f a) (h' : Returns (g a) b) :
    Returns (fun n => (f n).bind fun a => g a n) b := by
  obtain ⟨n, hn⟩ := h
  obtain ⟨n', hn'⟩ := h'
  refine ⟨max n n', fun m hm => ?_⟩
  show (f m).bind _ = some b
  rw [hn m (Nat.le_trans (Nat.le_max_left n n') hm), Option.bind_some]
  exact hn' m (Nat.le_trans (Nat.le_max_right n n') hm)

/-- The bound of a recursive function counts down. -/
theorem of_succ (h : Returns (fun n => f (n + 1)) a) : Returns f a := by
  obtain ⟨n, hn⟩ := h
  refine ⟨n + 1, fun m hm => ?_⟩
  obtain ⟨m, rfl⟩ := Nat.exists_eq_add_one_of_ne_zero
    (Nat.ne_of_gt (Nat.lt_of_lt_of_le n.succ_pos hm))
  exact hn m (Nat.le_of_succ_le_succ hm)

end Returns

/-- A loop with all its turns defined, up to the first state of the orbit at which the test fails,
returns that state. -/
theorem While.returns_runM {σ : Type*} {test : σ → Prop} [DecidablePred test]
    {turn : σ → Option σ} {orbit : ℕ → σ} {k : ℕ}
    (hturn : ∀ j t, turn (orbit j) = some t → orbit (j + 1) = t) (htest : ∀ j < k, test (orbit j))
    (hlast : ¬test (orbit k)) (hdefined : ∀ j < k, turn (orbit j) = some (orbit (j + 1))) :
    Returns (fun n => While.runM test turn n (orbit 0)) (orbit k) :=
  ⟨k + 1, fun _ hm =>
    (While.runM_eq_some_iff hturn).mpr ⟨k, hm, htest, hlast, hdefined, rfl⟩⟩
