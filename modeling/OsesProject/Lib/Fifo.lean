import OsesProject.Lib.Run
import Mathlib.Data.List.Nodup

/-!
# First in, first out

A queue that changes by elements leaving it, from any place, and by elements joining at its end.
`Moved again xs ys` says this of two states of one queue; `again` are the elements that may leave
and join in one change.

`overtaking` is what such a queue is used for. In a run of a machine that serves its queue at the
head, an element that stays in the queue and never joins again sees at most as many services as it
has elements ahead of it, and services of these only: those behind it, and those that join later,
are never served before it.
-/

variable {τ : Type*}

/-- `ys` is `xs` with some elements gone and others added at the end; an added one that was in `xs`
is one of `again`. -/
def Moved (again : τ → Prop) (xs ys : List τ) : Prop :=
  ∃ zs ts, zs.Sublist xs ∧ ys = zs ++ ts ∧ ∀ u ∈ ts, u ∈ xs → again u

namespace Moved

variable {again : τ → Prop} {xs ys zs : List τ} {t u : τ}

theorem refl (again : τ → Prop) (xs : List τ) : Moved again xs xs :=
  ⟨xs, [], List.Sublist.refl xs, (List.append_nil xs).symm, by simp⟩

theorem of_sublist (h : ys.Sublist xs) : Moved again xs ys :=
  ⟨ys, [], h, (List.append_nil ys).symm, by simp⟩

/-- Some leave, and one joins. -/
theorem join (h : zs.Sublist xs) (hu : u ∈ xs → again u) : Moved again xs (zs ++ [u]) := by
  refine ⟨zs, [u], h, rfl, ?_⟩
  intro v hv
  rw [List.mem_singleton] at hv
  subst hv
  exact hu

theorem mono {again' : τ → Prop} (hsub : ∀ u, again u → again' u) (h : Moved again xs ys) :
    Moved again' xs ys := by
  obtain ⟨zs, ts, hzs, rfl, hts⟩ := h
  exact ⟨zs, ts, hzs, rfl, fun u hu hx => hsub u (hts u hu hx)⟩

/-- After a change more elements may leave. -/
theorem trans_sublist (h : Moved again xs ys) (hs : zs.Sublist ys) : Moved again xs zs := by
  obtain ⟨ws, ts, hws, rfl, hts⟩ := h
  obtain ⟨ws', ts', rfl, hws', hts'⟩ := List.sublist_append_iff.mp hs
  exact ⟨ws', ts', hws'.trans hws, rfl, fun u hu => hts u (hts'.subset hu)⟩

variable [DecidableEq τ]

/-- Who is ahead of an element in a queue from which others leave. -/
theorem take_sublist_of_sublist (hs : zs.Sublist xs) (hnd : xs.Nodup) (ht : t ∈ zs) :
    (zs.take (zs.idxOf t)).Sublist (xs.take (xs.idxOf t)) := by
  induction hs with
  | slnil => cases ht
  | cons a hs ih =>
    rw [List.nodup_cons] at hnd
    have hne : a ≠ t := by
      rintro rfl
      exact hnd.1 (hs.subset ht)
    rw [List.idxOf_cons_ne _ hne, List.take_succ_cons]
    exact (ih hnd.2 ht).cons a
  | cons_cons a hs ih =>
    rw [List.nodup_cons] at hnd
    by_cases hat : a = t
    · subst hat
      rw [List.idxOf_cons_self, List.take_zero]
      exact List.nil_sublist _
    · rw [List.idxOf_cons_ne _ hat, List.idxOf_cons_ne _ hat, List.take_succ_cons,
        List.take_succ_cons]
      exact (ih hnd.2 ((List.mem_cons.mp ht).resolve_left (Ne.symm hat))).cons_cons a

/-- The place of an element in a queue from which others leave. -/
theorem idxOf_le_of_sublist (hs : zs.Sublist xs) (hnd : xs.Nodup) (ht : t ∈ zs) :
    zs.idxOf t ≤ xs.idxOf t := by
  have hle := (take_sublist_of_sublist hs hnd ht).length_le
  have hz := List.idxOf_lt_length_of_mem ht
  have hx := List.idxOf_lt_length_of_mem (hs.subset ht)
  rwa [List.length_take_of_le hz.le, List.length_take_of_le hx.le] at hle

omit [DecidableEq τ] in
/-- An element that stays is one of those that were there and stay. -/
theorem exists_kept (h : Moved again xs ys) (hx : t ∈ xs) (hy : t ∈ ys) (hagain : ¬ again t) :
    ∃ zs ts, zs.Sublist xs ∧ ys = zs ++ ts ∧ t ∈ zs := by
  obtain ⟨zs, ts, hzs, rfl, hts⟩ := h
  exact ⟨zs, ts, hzs, rfl,
    (List.mem_append.mp hy).resolve_right fun ht => hagain (hts t ht hx)⟩

/-- Nobody comes ahead of an element that stays. -/
theorem take_sublist (h : Moved again xs ys) (hnd : xs.Nodup) (hx : t ∈ xs) (hy : t ∈ ys)
    (hagain : ¬ again t) : (ys.take (ys.idxOf t)).Sublist (xs.take (xs.idxOf t)) := by
  obtain ⟨zs, ts, hzs, rfl, htz⟩ := h.exists_kept hx hy hagain
  rw [List.idxOf_append_of_mem htz, List.take_append_of_le_length List.idxOf_le_length]
  exact take_sublist_of_sublist hzs hnd htz

/-- An element that stays does not move back. -/
theorem idxOf_le (h : Moved again xs ys) (hnd : xs.Nodup) (hx : t ∈ xs) (hy : t ∈ ys)
    (hagain : ¬ again t) : ys.idxOf t ≤ xs.idxOf t := by
  obtain ⟨zs, ts, hzs, rfl, htz⟩ := h.exists_kept hx hy hagain
  rw [List.idxOf_append_of_mem htz]
  exact idxOf_le_of_sublist hzs hnd htz

/-- An element that stays when the head leaves moves up. -/
theorem idxOf_lt (h : Moved again (u :: xs) ys) (hnd : (u :: xs).Nodup) (hu : u ∉ ys)
    (hx : t ∈ u :: xs) (hy : t ∈ ys) (hagain : ¬ again t) :
    ys.idxOf t < (u :: xs).idxOf t := by
  obtain ⟨zs, ts, hzs, rfl, htz⟩ := h.exists_kept hx hy hagain
  have hut : u ≠ t := by
    rintro rfl
    exact hu hy
  have hsub : zs.Sublist xs := by
    cases hzs with
    | cons a hs => exact hs
    | cons_cons a hs => exact absurd (by simp) hu
  rw [List.idxOf_append_of_mem htz, List.idxOf_cons_ne _ hut]
  exact Nat.lt_succ_of_le (idxOf_le_of_sublist hsub (List.nodup_cons.mp hnd).2 htz)

end Moved

namespace Machine

variable {σ ε : Type*} {step : σ → ε → Option σ}

/-- How many steps of a run are `C`. -/
def count (step : σ → ε → Option σ) (C : σ → ε → Bool) : σ → List ε → Nat
  | _, [] => 0
  | s, e :: es =>
    (if C s e then 1 else 0) +
      match step s e with
      | none => 0
      | some s' => count step C s' es

theorem count_append {C : σ → ε → Bool} {s s' : σ} {es fs : List ε}
    (hrun : run step s es = some s') :
    count step C s (es ++ fs) = count step C s es + count step C s' fs := by
  induction es generalizing s with
  | nil =>
    cases hrun
    exact (Nat.zero_add _).symm
  | cons e es ih =>
    rw [run_cons, Option.bind_eq_some_iff] at hrun
    obtain ⟨s₁, hs₁, hrun⟩ := hrun
    simp only [List.cons_append, count, hs₁]
    rw [ih hrun, Nat.add_assoc]

/-- **Bounded overtaking.** `Q s xs` says that `xs` is the queue in the state `s`, and `C` are the
steps that serve it: they take its head away. Along a run the services are at most as many as the
places ahead of an element that is in the queue all the time and never joins again, and each is of
one that was ahead of it. -/
theorem overtaking [DecidableEq τ] (Q : σ → List τ → Prop) (ok : σ → ε → Prop)
    (again : ε → τ → Prop) (here : σ → Prop) {C : σ → ε → Bool} {t : τ}
    (nodup : ∀ s xs, Q s xs → xs.Nodup)
    (mem : ∀ s xs, Q s xs → here s → t ∈ xs)
    (moved : ∀ s e s' xs, Q s xs → ok s e → step s e = some s' → ∃ ys, Q s' ys ∧
      Moved (again e) xs ys ∧ (C s e = true → ∃ u us, xs = u :: us ∧ u ∉ ys))
    {s s' : σ} {es : List ε} {xs : List τ} (hQ : Q s xs) (hok : Each step ok s es)
    (hrun : run step s es = some s') (hhere : Always step here s es)
    (hagain : ∀ e ∈ es, ¬ again e t) :
    count step C s es ≤ xs.idxOf t ∧
      Each step (fun s e => C s e = true → ∃ u us, Q s (u :: us) ∧
        u ∈ xs.take (xs.idxOf t)) s es := by
  induction es generalizing s xs with
  | nil => exact ⟨Nat.zero_le _, trivial⟩
  | cons e es ih =>
    rw [run_cons, Option.bind_eq_some_iff] at hrun
    obtain ⟨s₁, hs₁, hrun⟩ := hrun
    obtain ⟨ys, hys, hmoved, hserved⟩ := moved s e s₁ xs hQ hok.1 hs₁
    obtain ⟨hcount, heach⟩ := ih hys (hok.2 s₁ hs₁) hrun (hhere.2 s₁ hs₁)
      fun f hf => hagain f (List.mem_cons_of_mem _ hf)
    have hx := mem s xs hQ hhere.1
    have hy := mem s₁ ys hys (hhere.2 s₁ hs₁).start
    have hnot := hagain e List.mem_cons_self
    have hahead := hmoved.take_sublist (nodup s xs hQ) hx hy hnot
    refine ⟨?_, fun hC => ?_, fun s₂ hs₂ => ?_⟩
    · simp only [count, hs₁]
      split
      · next hC =>
        obtain ⟨u, us, rfl, hu⟩ := hserved hC
        have := hmoved.idxOf_lt (nodup s _ hQ) hu hx hy hnot
        omega
      · have := hmoved.idxOf_le (nodup s xs hQ) hx hy hnot
        omega
    · obtain ⟨u, us, rfl, hu⟩ := hserved hC
      refine ⟨u, us, hQ, ?_⟩
      have hut : u ≠ t := by
        rintro rfl
        exact hu hy
      rw [List.idxOf_cons_ne _ hut, List.take_succ_cons]
      exact List.mem_cons_self
    · cases hs₁.symm.trans hs₂
      refine heach.imp fun s e hC hserves => ?_
      obtain ⟨u, us, hQu, hu⟩ := hC hserves
      exact ⟨u, us, hQu, hahead.subset hu⟩

end Machine
