import OsesProject.Application.XenoJetBench

/-!
# Every reading stands for itself

The globals of the benchmark outlive a reading. `Default` says what `defaultParam` gives them and no
reading takes away: most of its parameters keep their value, and the efficiencies keep the value
that the clamps of `getThermo` and `calcPerf` make of it. The four functions of the pipeline are
then secure, one after the other: each puts into the variables named after it what the reading and
the defaults determine. So do the results, and the globals carry nothing from one reading to the
next (`readings_independent`).
-/

set_option linter.unusedSectionVars false

namespace OsesProject

open Flow

variable {F : Type} [LinearOrder F] [Add F] [Sub F] [Mul F] [Div F] [Neg F] [OfScientific F]
  [∀ n, OfNat F n] (m : Utilities F)

/-- The clamp `if (y < lo) y = lo`. -/
def raised (lo y : F) : F := if y < lo then lo else y

theorem raised_raised (lo y : F) : raised lo (raised lo y) = raised lo y := by
  unfold raised
  split
  · exact ite_self lo
  · rfl

/-- What holds of a global from `defaultParam` on. -/
def Default : Var → F → Prop
  | .gama, y => y = 1.4
  | .tt4, y | .tt7, y => y = 2500
  | .p3p2d, y => y = 8.0
  | .p3fp2d, y => y = 2.0
  | .byprat, y => y = 1.0
  | .abflag, y | .arsched, y => y = 0
  | .fhv, y => y = 18600
  | .a2, y | .acore, y | .afan, y => y = 2.0
  | .dfan, y | .dcomp, y => y = 293.02
  | .dburner, y | .dturbin, y | .dnozl, y => y = 515.2
  | .prat 4, y | .eta 13, y => y = 1.0
  | .eta 3, y | .eta 5, y => raised 0.5 y = raised 0.5 1.0
  | .eta 4, y | .eta 7, y => raised 0.8 y = raised 0.8 1.0
  | _, _ => True

/-- The globals that keep the value `defaultParam` gives them. -/
def constants : List Var :=
  [.gama, .tt4, .tt7, .p3p2d, .p3fp2d, .byprat, .abflag, .arsched, .fhv, .a2, .acore, .afan, .dfan,
    .dcomp, .dburner, .dturbin, .dnozl, .prat 4, .eta 13]

/-- Two stores with the defaults agree on the constants. -/
theorem constants_agree {s t : Var → F} (hs : ∀ v, Default v (s v)) (ht : ∀ v, Default v (t v))
    {v : Var} (hv : v ∈ constants) : s v = t v := by
  have hsv := hs v
  have htv := ht v
  simp only [constants, List.mem_cons, List.not_mem_nil, or_false] at hv
  rcases hv with rfl | rfl | rfl | rfl | rfl | rfl | rfl | rfl | rfl | rfl | rfl | rfl | rfl | rfl |
    rfl | rfl | rfl | rfl | rfl
  all_goals exact Eq.trans hsv (Eq.symm htv)

set_option maxRecDepth 8000 in
/-- Whatever the globals were, `defaultParam` gives them their defaults. -/
theorem default_defaultParam (g : Var → F) (v : Var) : Default v (exec defaultParam g v) := by
  unfold Default
  split
  all_goals trivial

variable {A B : List Var} {ss : List (Stmt Var F)}

/-- Raising a variable of which only the raised value is known to be the same. -/
theorem raise_secure {v : Var} {lo : F}
    (hv : ∀ y : F, Default v y ↔ raised lo y = raised lo 1.0)
    (h : Secure Default (v :: A) ss B) :
    Secure Default A (cond (fun g => g v < lo) [assign v fun _ => lo] [] :: ss) B := by
  refine Secure.assignIf ?_ ?_ h
  · intro s hs
    apply (hv _).mpr
    exact (raised_raised lo (s v)).trans ((hv _).mp (hs v))
  · intro s t hst
    exact ((hv _).mp (hst.left v)).trans ((hv _).mp (hst.right v)).symm

/-! What the parts of the pipeline leave for those after them. -/

section Known

open Var

/-- The inputs of a reading, and the constants. -/
def given : List Var := [u0d, altd, throtl] ++ constants

/-- After `deduceInputs`. -/
def deduced : List Var :=
  [Rgas, ts0, ps0, u0, fsmach, tt 0, pt 0, tsout, psout] ++ given

/-- After the inlet of `getThermo`. -/
def inducted : List Var :=
  [prat 2, eta 3, eta 5, trat 7, prat 7, tt 2, pt 2, gam 2, cp 2] ++ deduced

/-- After the turbojet or the turbofan. -/
def driven : List Var :=
  [prat 3, prat 5, prat 13, prat 15, trat 3, trat 4, trat 5, trat 13, trat 15, tt 3, tt 5,
    tt 13, pt 13, tt 15, pt 15] ++ inducted

/-- After `getThermo`. -/
def heated : List Var := [epr, etr] ++ driven

/-- After `getGeo`. -/
def sized : List Var := [a8, lcomp, lburn, lturb, lnoz, ncomp, nturb] ++ heated

/-- After the thrusts of `calcPerf`. -/
def thrusts : List Var := [cp3, cpe, eta 4, eair, fnet, fnlb, fglb, drlb] ++ sized

end Known

/-- The variables that the results are made of. -/
def reported : List Var :=
  [.u0d, .altd, .throtl, .fsmach, .psout, .tsout, .fnlb, .fglb, .drlb, .flflo, .sfc, .eair, .weight]

/-- A range of the atmosphere: the temperature depends on the altitude, the pressure on both. -/
theorem range_secure {e e' : (Var → F) → F} (halt : .alt ∈ A)
    (he : ∀ s t : Var → F, s .alt = t .alt → e s = e t)
    (he' : ∀ s t : Var → F, s .alt = t .alt → s .ts0 = t .ts0 → e' s = e' t)
    (h : Secure Default (.ps0 :: .ts0 :: A) ss B) :
    Secure Default A (assign .ts0 e :: assign .ps0 e' :: ss) B := by
  refine Secure.assign (fun _ _ => trivial) (fun s t hst => he s t (hst.agree _ halt)) ?_
  refine Secure.assign (fun _ _ => trivial) (fun s t hst => ?_) h
  exact he' s t (hst.agree _ (List.mem_cons_of_mem _ halt)) (hst.agree _ List.mem_cons_self)

/-- A later range that the altitude is in as well. -/
theorem laterRange_secure {c : (Var → F) → Prop} [DecidablePred c] {e e' : (Var → F) → F}
    (hc : ∀ s t : Var → F, s .alt = t .alt → (c s ↔ c t)) (halt : .alt ∈ A)
    (he : ∀ s t : Var → F, s .alt = t .alt → e s = e t)
    (he' : ∀ s t : Var → F, s .alt = t .alt → s .ts0 = t .ts0 → e' s = e' t)
    (h : Secure Default (.ps0 :: .ts0 :: A) ss B) :
    Secure Default (.ps0 :: .ts0 :: A) (cond c [assign .ts0 e, assign .ps0 e'] [] :: ss) B := by
  have hsub {A : List Var} : A ⊆ Var.ps0 :: Var.ts0 :: A :=
    fun _ hv => List.mem_cons_of_mem _ (List.mem_cons_of_mem _ hv)
  refine Secure.cond_same (fun s t hst => hc s t (hst.agree _ (hsub halt))) ?_ ?_ h
  · exact range_secure (hsub halt) he he' (Secure.nil hsub)
  · exact Secure.nil (List.Subset.refl _)

/-- Every altitude is in one of the three ranges, so the atmosphere is always assigned. -/
theorem atmosphere_secure (halt : .alt ∈ A) :
    Secure Default A (atmosphere m) (.ps0 :: .ts0 :: A) := by
  refine ⟨fun s t hst => ?_⟩
  have hst' : s .alt = t .alt := hst.agree _ halt
  unfold atmosphere
  by_cases h₁ : s .alt < 36152
  · rw [exec_cond_true h₁, exec_cond_true (hst' ▸ h₁)]
    refine (range_secure halt ?_ ?_ (laterRange_secure ?_ halt ?_ ?_
      (laterRange_secure ?_ halt ?_ ?_ (Secure.nil (List.Subset.refl _))))).similar s t hst
    all_goals grind
  · rw [exec_cond_false h₁, exec_cond_false (hst' ▸ h₁), List.nil_append]
    by_cases h₂ : 36152 ≤ s .alt ∧ s .alt ≤ 82345
    · rw [exec_cond_true h₂, exec_cond_true (hst' ▸ h₂)]
      refine (range_secure halt ?_ ?_
        (laterRange_secure ?_ halt ?_ ?_ (Secure.nil (List.Subset.refl _)))).similar s t hst
      all_goals grind
    · have h₃ : 82345 ≤ s .alt := (le_total _ _).resolve_right fun h => h₂ ⟨not_lt.mp h₁, h⟩
      rw [exec_cond_false h₂, exec_cond_false (hst' ▸ h₂), List.nil_append, exec_cond_true h₃,
        exec_cond_true (hst' ▸ h₃)]
      refine (range_secure halt ?_ ?_ (Secure.nil (List.Subset.refl _))).similar s t hst
      all_goals grind

theorem deduceInputs_secure : Secure Default given (deduceInputs m) deduced := by
  unfold deduceInputs freeStream
  repeat' first
    | refine Secure.assign (fun _ _ => trivial)
        (fun s t h => by simp (disch := decide) only [h.agree]) ?_
    | exact Secure.nil (by decide)
    | refine Secure.assignIfElse (fun _ _ => trivial)
        (fun s t h => by simp (disch := decide) only [h.agree]) ?_
    | apply Secure.append (atmosphere_secure m (by decide))

theorem inlet_secure : Secure Default deduced (inlet m) inducted := by
  unfold inlet
  repeat' first
    | refine Secure.assign (fun _ _ => trivial)
        (fun s t h => by simp (disch := decide) only [h.agree]) ?_
    | exact Secure.nil (by decide)
    | refine Secure.assignIfElse (fun _ _ => trivial)
        (fun s t h => by simp (disch := decide) only [h.agree]) ?_
    | refine raise_secure (fun _ => Iff.rfl) ?_

theorem turbojet_secure : Secure Default inducted (turbojet m) driven := by
  unfold turbojet
  repeat' first
    | refine Secure.assign (fun _ _ => trivial)
        (fun s t h => by simp (disch := decide) only [h.agree]) ?_
    | exact Secure.nil (by decide)
    | refine Secure.assignIf (fun _ _ => trivial)
        (fun s t h => by simp (disch := decide) only [h.agree]) ?_

theorem turbofan_secure : Secure Default inducted (turbofan m) driven := by
  unfold turbofan
  repeat' first
    | refine Secure.assign (fun _ _ => trivial)
        (fun s t h => by simp (disch := decide) only [h.agree]) ?_
    | exact Secure.nil (by decide)
    | refine Secure.assignIf (fun _ _ => trivial)
        (fun s t h => by simp (disch := decide) only [h.agree]) ?_

theorem nozzle_secure : Secure Default driven (nozzle m) heated := by
  unfold nozzle
  repeat' first
    | refine Secure.assign (fun _ _ => trivial)
        (fun s t h => by simp (disch := decide) only [h.agree]) ?_
    | exact Secure.nil (by decide)
    | refine Secure.cond_false (fun s hs => (hs .abflag).symm ▸ lt_irrefl _) ?_

theorem getThermo_secure (engine : Engine) :
    Secure Default deduced (getThermo m engine) heated := by
  have hengine : Secure Default inducted
      [cond (fun _ => engine.number ≤ 2) (turbojet m) [],
        cond (fun _ => engine.number = 3) (turbofan m) []] driven := by
    cases engine with
    | turbojet | afterburner =>
      apply Secure.cond_true (fun _ _ => by decide)
      apply Secure.append (turbojet_secure m)
      apply Secure.cond_false (fun _ _ => by decide)
      exact Secure.nil (List.Subset.refl _)
    | turbofan =>
      apply Secure.cond_false (fun _ _ => by decide)
      apply Secure.cond_true (fun _ _ => by decide)
      apply Secure.append (turbofan_secure m)
      exact Secure.nil (List.Subset.refl _)
  exact ((inlet_secure m).append hengine).append (nozzle_secure m)

-- `a8rat` has the value of the last reading when it is compared, and a new one right after, since
-- `arsched` is 0.
theorem getGeo_secure (engine : Engine) : Secure Default heated (getGeo m engine) sized := by
  unfold getGeo
  apply Secure.cond_false
  · intro s hs
    have hafan : s .afan = 2.0 := hs .afan
    have hacore : s .acore = 2.0 := hs .acore
    rw [hafan, hacore]
    exact lt_irrefl _
  repeat' first
    | refine Secure.assign (fun _ _ => trivial)
        (fun s t h => by simp (disch := decide) only [h.agree]) ?_
    | exact Secure.nil (List.Subset.refl _)
    | exact Secure.nil (by decide)
    | refine Secure.cond_true (fun s hs => hs .arsched) ?_
    | refine Secure.ignore (fun _ => trivial) (by decide) ?_
    | refine Secure.cond_same (fun s t h => by simp (disch := decide) only [h.agree]) ?_ ?_ ?_

theorem thrust_secure (engine : Engine) : Secure Default sized (thrust m engine) thrusts := by
  unfold thrust fanThrust
  repeat' first
    | refine Secure.assign (fun _ _ => trivial)
        (fun s t h => by simp (disch := decide) only [h.agree]) ?_
    | exact Secure.nil (List.Subset.refl _)
    | exact Secure.nil (by decide)
    | refine Secure.assignIfElse (fun _ _ => trivial)
        (fun s t h => by simp (disch := decide) only [h.agree]) ?_
    | refine raise_secure (fun _ => Iff.rfl) ?_
    | refine Secure.cond_same (fun _ _ _ => Iff.rfl) ?_ ?_ ?_

theorem fuelAndWeight_secure (engine : Engine) :
    Secure Default thrusts (fuelAndWeight m engine) reported := by
  unfold fuelAndWeight
  refine Secure.assign (fun _ _ => trivial)
    (fun s t h => by simp (disch := decide) only [h.agree]) ?_
  refine Secure.cond ([.sfc, .flflo] ++ thrusts)
    (fun s t h => by simp (disch := decide) only [h.agree]) ?_ ?_ ?_
  · repeat' first
      | refine Secure.assign (fun _ _ => trivial)
          (fun s t h => by simp (disch := decide) only [h.agree]) ?_
      | exact Secure.nil (List.Subset.refl _)
      | exact Secure.nil (by decide)
      | refine Secure.cond_same (fun s t h => by simp (disch := decide) only [h.agree]) ?_ ?_ ?_
  · repeat' first
      | refine Secure.assign (fun _ _ => trivial) (fun _ _ _ => rfl) ?_
      | exact Secure.nil (by decide)
  · cases engine
    all_goals repeat' first
      | refine Secure.assign (fun _ _ => trivial)
          (fun s t h => by simp (disch := decide) only [h.agree]) ?_
      | exact Secure.nil (by decide)
      | refine Secure.cond_true (fun _ _ => by decide) ?_
      | refine Secure.cond_false (fun _ _ => by decide) ?_

theorem pipeline_secure (engine : Engine) : Secure Default given (pipeline m engine) reported :=
  (((deduceInputs_secure m).append (getThermo_secure m engine)).append
    (getGeo_secure m engine)).append
      ((thrust_secure m engine).append (fuelAndWeight_secure m engine))

theorem takeInputs_secure (x : Reading F) : Secure Default constants (takeInputs x) given := by
  unfold takeInputs
  repeat' first
    | refine Secure.assign (fun _ _ => trivial) (fun _ _ _ => rfl) ?_
    | exact Secure.nil (by decide)

/-- A reading determines its results. -/
theorem evaluate_secure (engine : Engine) (x : Reading F) :
    Secure Default [] (evaluate m engine x) reported := by
  refine ⟨fun s t hst => ?_⟩
  apply ((takeInputs_secure x).append (pipeline_secure m engine)).similar
  exact ⟨hst.left, hst.right, fun v hv => constants_agree hst.left hst.right hv⟩

theorem benchResults_congr {s t : Var → F} (h : Similar Default reported s t) :
    benchResults s = benchResults t := by
  unfold benchResults
  simp (disch := decide) only [h.agree]

/-- The defaults last through any readings. -/
theorem evaluations_default (engine : Engine) (xs : List (Reading F)) {g : Var → F}
    (hg : ∀ v, Default v (g v)) (v : Var) :
    Default v (exec (xs.flatMap (evaluate m engine)) g v) := by
  induction xs generalizing g with
  | nil => exact hg v
  | cons x xs ih =>
    rw [List.flatMap_cons, exec_append]
    exact ih ((evaluate_secure m engine x).keeps hg)

/-- **Every reading stands for itself**: the results of the last of any readings are those of that
reading alone, whatever the globals were before `defaultParam`. -/
theorem readings_independent (engine : Engine) (g g' : Var → F) (xs : List (Reading F))
    (x : Reading F) :
    benchResults (exec (defaultParam ++ (xs ++ [x]).flatMap (evaluate m engine)) g) =
      benchResults (exec (defaultParam ++ evaluate m engine x) g') := by
  rw [exec_append, exec_append, List.flatMap_append, exec_append, List.flatMap_singleton]
  apply benchResults_congr
  apply (evaluate_secure m engine x).similar
  exact ⟨evaluations_default m engine xs (default_defaultParam g), default_defaultParam g', by simp⟩

end OsesProject
