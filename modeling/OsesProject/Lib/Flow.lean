import Mathlib.Logic.Function.Basic
import Mathlib.Data.List.Basic

/-!
# What two runs of a program agree on

A program on global variables is a list of statements, of the kinds `assign` and `cond`. `exec` runs
it, and `next` does its next assignment or test only (`exec_next`). Two stores are `Similar Q A`
when each gives every variable a value that `Q` admits, and they agree on the variables of the list
`A`. `Secure Q A ss B`: from stores similar on `A` the program leads to stores similar on `B`, so
that what it puts in the variables of `B` depends on those of `A` and on what `Q` says, and on
nothing else.

The rules are one for each kind of statement, with more for a condition: one whose outcome `Q`
decides (`Secure.cond_true`, `Secure.cond_false`), one that guards assignments to one variable
(`Secure.assignIf`, `Secure.assignIfElse`), and one that may go differently in the two runs but
matters to nobody (`Secure.ignore`). A secure program keeps `Q` (`Secure.keeps`).
-/

set_option linter.unusedSectionVars false

namespace Flow

variable {V F : Type*} [DecidableEq V]

/-- A statement: an assignment or a condition. -/
inductive Stmt (V F : Type*)
  | assign (v : V) (e : (V → F) → F)
  | ite (c : (V → F) → Bool) (ts es : List (Stmt V F))

export Stmt (assign)

/-- `if (c) { ts } else { es }` -/
def cond (c : (V → F) → Prop) [DecidablePred c] (ts es : List (Stmt V F)) : Stmt V F :=
  .ite (fun g => decide (c g)) ts es

mutual

/-- A statement, from its beginning to its end. -/
def Stmt.exec : Stmt V F → (V → F) → V → F
  | .assign v e, g => Function.update g v (e g)
  | .ite c ts es, g => if c g then Flow.exec ts g else Flow.exec es g

/-- Statements one after the other. -/
def exec : List (Stmt V F) → (V → F) → V → F
  | [], g => g
  | s :: ss, g => exec ss (s.exec g)

end

/-- One assignment or one test, and what is left to do. -/
def next : List (Stmt V F) → (V → F) → List (Stmt V F) × (V → F)
  | [], g => ([], g)
  | .assign v e :: ss, g => (ss, Function.update g v (e g))
  | .ite c ts es :: ss, g => ((if c g then ts else es) ++ ss, g)

@[simp] theorem exec_nil (g : V → F) : exec [] g = g := rfl

theorem exec_cons (s : Stmt V F) (ss : List (Stmt V F)) (g : V → F) :
    exec (s :: ss) g = exec ss (s.exec g) := rfl

theorem exec_append (ss ts : List (Stmt V F)) (g : V → F) :
    exec (ss ++ ts) g = exec ts (exec ss g) := by
  induction ss generalizing g with
  | nil => rfl
  | cons s ss ih => rw [List.cons_append, exec_cons, exec_cons, ih]

/-- What is left to do leads to where the whole led. -/
theorem exec_next (ss : List (Stmt V F)) (g : V → F) :
    exec (next ss g).1 (next ss g).2 = exec ss g := by
  cases ss with
  | nil => rfl
  | cons s ss =>
    cases s with
    | assign v e => rfl
    | ite c ts es =>
      rw [next, exec_append, exec_cons, Stmt.exec]
      split <;> rfl

section Cond

variable {c : (V → F) → Prop} [DecidablePred c] {ts es ss : List (Stmt V F)} {g : V → F}

theorem exec_cond_true (h : c g) : exec (cond c ts es :: ss) g = exec (ts ++ ss) g := by
  rw [exec_cons, cond, Stmt.exec, decide_eq_true h, exec_append]
  rfl

theorem exec_cond_false (h : ¬c g) : exec (cond c ts es :: ss) g = exec (es ++ ss) g := by
  rw [exec_cons, cond, Stmt.exec, decide_eq_false h, exec_append]
  rfl

/-- A guarded assignment is an assignment. -/
theorem exec_cond_assign (v : V) (e : (V → F) → F) :
    exec (cond c [assign v e] [] :: ss) g =
      exec (assign v (fun g => if c g then e g else g v) :: ss) g := by
  by_cases h : c g
  · rw [exec_cond_true h]
    simp [exec_cons, Stmt.exec, h]
  · rw [exec_cond_false h]
    simp [exec_cons, Stmt.exec, h]

/-- Two assignments to one variable are an assignment. -/
theorem exec_cond_assign_else (v : V) (e e' : (V → F) → F) :
    exec (cond c [assign v e] [assign v e'] :: ss) g =
      exec (assign v (fun g => if c g then e g else e' g) :: ss) g := by
  by_cases h : c g
  · rw [exec_cond_true h]
    simp [exec_cons, Stmt.exec, h]
  · rw [exec_cond_false h]
    simp [exec_cons, Stmt.exec, h]

end Cond

/-! ## What a program assigns -/

mutual

/-- Every value the statement assigns, on the branches it takes, has the property. -/
def Stmt.Yields (P : F → Prop) : Stmt V F → (V → F) → Prop
  | .assign _ e, g => P (e g)
  | .ite c ts es, g => if c g then Flow.Yields P ts g else Flow.Yields P es g

/-- Every value the statements assign, on the branches they take, has the property. -/
def Yields (P : F → Prop) : List (Stmt V F) → (V → F) → Prop
  | [], _ => True
  | s :: ss, g => s.Yields P g ∧ Yields P ss (s.exec g)

end

theorem yields_append {P : F → Prop} (ss ts : List (Stmt V F)) (g : V → F) :
    Yields P (ss ++ ts) g ↔ Yields P ss g ∧ Yields P ts (exec ss g) := by
  induction ss generalizing g with
  | nil => exact ⟨fun h => ⟨trivial, h⟩, And.right⟩
  | cons s ss ih =>
    rw [List.cons_append, Yields, Yields, ih, and_assoc]
    rfl

mutual

/-- A statement keeps a property of all values if it yields only such values. -/
theorem Stmt.Yields.exec {P : F → Prop} : ∀ {s : Stmt V F} {g : V → F}, s.Yields P g →
    (∀ v, P (g v)) → ∀ v, P (s.exec g v)
  | .assign w e, g, h, hg, v => by
    rw [Stmt.exec]
    by_cases hvw : v = w
    · rw [hvw, Function.update_self]
      exact h
    · rw [Function.update_of_ne hvw]
      exact hg v
  | .ite c ts es, g, h, hg, v => by
    rw [Stmt.Yields] at h
    rw [Stmt.exec]
    split at h
    · next hc =>
      rw [if_pos hc]
      exact Yields.exec h hg v
    · next hc =>
      rw [if_neg hc]
      exact Yields.exec h hg v

/-- Statements keep a property of all values if they yield only such values. -/
theorem Yields.exec {P : F → Prop} : ∀ {ss : List (Stmt V F)} {g : V → F}, Yields P ss g →
    (∀ v, P (g v)) → ∀ v, P (Flow.exec ss g v)
  | [], _, _, hg, v => hg v
  | _ :: _, _, h, hg, v => Yields.exec h.2 (h.1.exec hg) v

end

mutual

/-- The variables a statement assigns, on some branch. -/
def Stmt.writes : Stmt V F → List V
  | .assign v _ => [v]
  | .ite _ ts es => Flow.writes ts ++ Flow.writes es

/-- The variables statements assign, on some branch. -/
def writes : List (Stmt V F) → List V
  | [] => []
  | s :: ss => s.writes ++ writes ss

end

mutual

theorem Stmt.exec_frame : ∀ {s : Stmt V F} (g : V → F) {v : V}, v ∉ s.writes → s.exec g v = g v
  | .assign w e, g, v, hv => by
    have hvw : v ≠ w := fun h => hv (List.mem_singleton.mpr h)
    rw [Stmt.exec, Function.update_of_ne hvw]
  | .ite c ts es, g, v, hv => by
    rw [Stmt.writes, List.mem_append, not_or] at hv
    rw [Stmt.exec]
    split
    · exact exec_frame g hv.1
    · exact exec_frame g hv.2

/-- A variable that is not assigned keeps its value. -/
theorem exec_frame : ∀ {ss : List (Stmt V F)} (g : V → F) {v : V}, v ∉ writes ss →
    Flow.exec ss g v = g v
  | [], _, _, _ => rfl
  | s :: ss, g, v, hv => by
    rw [writes, List.mem_append, not_or] at hv
    exact (exec_frame (s.exec g) hv.2).trans (Stmt.exec_frame g hv.1)

end

/-- Both stores have admitted values, and they agree on `A`. -/
structure Similar (Q : V → F → Prop) (A : List V) (s t : V → F) : Prop where
  left : ∀ v, Q v (s v)
  right : ∀ v, Q v (t v)
  agree : ∀ v ∈ A, s v = t v

/-- The program leads from stores that are similar on `A` to stores that are similar on `B`. -/
structure Secure (Q : V → F → Prop) (A : List V) (ss : List (Stmt V F)) (B : List V) : Prop where
  similar : ∀ s t, Similar Q A s t → Similar Q B (exec ss s) (exec ss t)

variable {Q : V → F → Prop} {A A' B : List V} {ss ts es : List (Stmt V F)} {s t : V → F}

theorem Similar.mono (h : Similar Q A s t) (hsub : B ⊆ A) : Similar Q B s t :=
  ⟨h.left, h.right, fun v hv => h.agree v (hsub hv)⟩

/-- An assignment of values that agree. -/
theorem Similar.assign (h : Similar Q A s t) {v : V} {x y : F} (hx : Q v x) (hxy : x = y) :
    Similar Q (v :: A) (Function.update s v x) (Function.update t v y) := by
  subst hxy
  refine ⟨fun w => ?_, fun w => ?_, fun w hw => ?_⟩
  · by_cases hwv : w = v
    · subst hwv
      simpa using hx
    · simpa [hwv] using h.left w
  · by_cases hwv : w = v
    · subst hwv
      simpa using hx
    · simpa [hwv] using h.right w
  · by_cases hwv : w = v
    · subst hwv
      simp
    · simpa [hwv] using h.agree w ((List.mem_cons.mp hw).resolve_left hwv)

namespace Secure

theorem nil (hsub : B ⊆ A) : Secure Q A [] B := ⟨fun _ _ h => h.mono hsub⟩

theorem append (h : Secure Q A ss A') (h' : Secure Q A' ts B) : Secure Q A (ss ++ ts) B := by
  refine ⟨fun s t hst => ?_⟩
  rw [exec_append, exec_append]
  exact h'.similar _ _ (h.similar s t hst)

/-- `Q` admits the value of the expression, and the expression reads what agrees. -/
theorem assign {v : V} {e : (V → F) → F} (hQ : ∀ s, (∀ w, Q w (s w)) → Q v (e s))
    (he : ∀ s t, Similar Q A s t → e s = e t) (h : Secure Q (v :: A) ss B) :
    Secure Q A (Flow.assign v e :: ss) B :=
  ⟨fun s t hst => h.similar _ _ (hst.assign (hQ s hst.left) (he s t hst))⟩

section Cond

variable {c : (V → F) → Prop} [DecidablePred c]

/-- A condition that guards a single assignment. -/
theorem assignIf {v : V} {e : (V → F) → F}
    (hQ : ∀ s, (∀ w, Q w (s w)) → Q v (if c s then e s else s v))
    (he : ∀ s t, Similar Q A s t → (if c s then e s else s v) = if c t then e t else t v)
    (h : Secure Q (v :: A) ss B) : Secure Q A (Flow.cond c [Flow.assign v e] [] :: ss) B := by
  refine ⟨fun s t hst => ?_⟩
  rw [exec_cond_assign, exec_cond_assign]
  exact (assign hQ he h).similar s t hst

/-- A condition that chooses between two assignments to one variable. -/
theorem assignIfElse {v : V} {e e' : (V → F) → F}
    (hQ : ∀ s, (∀ w, Q w (s w)) → Q v (if c s then e s else e' s))
    (he : ∀ s t, Similar Q A s t → (if c s then e s else e' s) = if c t then e t else e' t)
    (h : Secure Q (v :: A) ss B) :
    Secure Q A (Flow.cond c [Flow.assign v e] [Flow.assign v e'] :: ss) B := by
  refine ⟨fun s t hst => ?_⟩
  rw [exec_cond_assign_else, exec_cond_assign_else]
  exact (assign hQ he h).similar s t hst

/-- The condition reads what agrees. -/
theorem cond (A' : List V) (hc : ∀ s t, Similar Q A s t → (c s ↔ c t)) (ht : Secure Q A ts A')
    (he : Secure Q A es A') (h : Secure Q A' ss B) : Secure Q A (Flow.cond c ts es :: ss) B := by
  refine ⟨fun s t hst => ?_⟩
  by_cases hs : c s
  · rw [exec_cond_true hs, exec_cond_true ((hc s t hst).mp hs)]
    exact (ht.append h).similar s t hst
  · rw [exec_cond_false hs, exec_cond_false fun hct => hs ((hc s t hst).mpr hct)]
    exact (he.append h).similar s t hst

/-- The branches change nothing that has to agree later, or assign it in agreement. -/
theorem cond_same (hc : ∀ s t, Similar Q A s t → (c s ↔ c t)) (ht : Secure Q A ts A)
    (he : Secure Q A es A) (h : Secure Q A ss B) : Secure Q A (Flow.cond c ts es :: ss) B :=
  cond A hc ht he h

/-- `Q` makes the condition true. -/
theorem cond_true (hc : ∀ s, (∀ w, Q w (s w)) → c s) (h : Secure Q A (ts ++ ss) B) :
    Secure Q A (Flow.cond c ts es :: ss) B := by
  refine ⟨fun s t hst => ?_⟩
  rw [exec_cond_true (hc s hst.left), exec_cond_true (hc t hst.right)]
  exact h.similar s t hst

/-- `Q` makes the condition false. -/
theorem cond_false (hc : ∀ s, (∀ w, Q w (s w)) → ¬c s) (h : Secure Q A (es ++ ss) B) :
    Secure Q A (Flow.cond c ts es :: ss) B := by
  refine ⟨fun s t hst => ?_⟩
  rw [exec_cond_false (hc s hst.left), exec_cond_false (hc t hst.right)]
  exact h.similar s t hst

/-- The two runs may go differently, and differ in a variable that need not agree. -/
theorem ignore {v : V} {e : (V → F) → F} (hQ : ∀ x, Q v x) (hv : v ∉ A)
    (h : Secure Q A ss B) : Secure Q A (Flow.cond c [Flow.assign v e] [] :: ss) B := by
  refine ⟨fun s t hst => ?_⟩
  have hother : ∀ {s : V → F} {x : F}, (∀ w, Q w (s w)) → ∀ w, Q w (Function.update s v x w) := by
    intro s x hs w
    by_cases hwv : w = v
    · subst hwv
      exact hQ _
    · simpa [hwv] using hs w
  rw [exec_cond_assign, exec_cond_assign]
  refine h.similar _ _ ⟨hother hst.left, hother hst.right, fun w hw => ?_⟩
  have hwv : w ≠ v := fun hwv => hv (hwv ▸ hw)
  simpa [Stmt.exec, hwv] using hst.agree w hw

end Cond

/-- A secure program keeps what `Q` says. -/
theorem keeps (h : Secure Q A ss B) (hs : ∀ v, Q v (s v)) (v : V) : Q v (exec ss s v) :=
  (h.similar s s ⟨hs, hs, fun _ _ => rfl⟩).left v

end Secure

end Flow
