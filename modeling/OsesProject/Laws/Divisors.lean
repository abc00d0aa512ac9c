import OsesProject.Laws.XenoJetBench
import OsesProject.Lib.Checked
import Mathlib.Tactic.Linarith
import Mathlib.Tactic.NormNum
import Mathlib.Tactic.Positivity
import Mathlib.Tactic.FieldSimp
import Mathlib.Tactic.Ring

/-!
# Which divisors of the benchmark are zero

The benchmark is run in the numbers that remember a division by zero (`Checked`): no divisor of a
run is zero if every value assigned on its way, and every result, is defined (`NoZeroDivisor`).

For no reading does that hold with all functions `sqroot`, `fpow` and `expo` that are positive on
positive arguments (`divisor_zero`). At the throttle zero the temperature of station 4 is zero, and
the functions do not matter. At any other throttle there are functions, positive everywhere, with
which the burner adds no heat while the thrust is positive: the fuel flow is zero then, and the
specific impulse is divided by it.
-/

set_option linter.unusedSectionVars false

namespace OsesProject

open Flow

/-! ## The equations of the functions

What a function leaves in the variables that matter here, in terms of the store before it and of the
store after it. -/

section Equations
variable {F : Type} [LinearOrder F] [Add F] [Sub F] [Mul F] [Div F] [Neg F] [OfScientific F]
  [∀ n, OfNat F n] (m : Utilities F) (engine : Engine) (g : Var → F)

theorem atmosphere_low (h₁ : g .alt < 36152) (h₂ : ¬(36152 ≤ g .alt ∧ g .alt ≤ 82345))
    (h₃ : ¬82345 ≤ g .alt) :
    let f := exec (atmosphere m) g
    f .ts0 = 518.6 - 3.56 * g .alt / 1000 ∧ f .ps0 = 2116 * m.fpow (f .ts0 / 518.6) 5.256 := by
  unfold atmosphere
  rw [exec_cond_true h₁, List.cons_append, exec_cons, List.cons_append, exec_cons, List.nil_append,
    exec_cond_false h₂, List.nil_append, exec_cond_false h₃]
  exact ⟨rfl, rfl⟩

theorem atmosphere_middle (h₁ : ¬g .alt < 36152) (h₂ : 36152 ≤ g .alt ∧ g .alt ≤ 82345)
    (h₃ : ¬82345 ≤ g .alt) :
    let f := exec (atmosphere m) g
    f .ts0 = 389.98 ∧ f .ps0 = 2116 * 0.2236 * m.expo ((36000 - g .alt) / (53.35 * 389.98)) := by
  unfold atmosphere
  rw [exec_cond_false h₁, List.nil_append, exec_cond_true h₂, List.cons_append, exec_cons,
    List.cons_append, exec_cons, List.nil_append, exec_cond_false h₃]
  exact ⟨rfl, rfl⟩

theorem atmosphere_high (h₁ : ¬g .alt < 36152) (h₃ : 82345 ≤ g .alt) :
    let f := exec (atmosphere m) g
    f .ts0 = 389.98 + 1.645 * (g .alt - 82345) / 1000 ∧
      f .ps0 = 2116 * 0.02456 * m.fpow (f .ts0 / 389.98) (-11.388) := by
  unfold atmosphere
  rw [exec_cond_false h₁, List.nil_append]
  by_cases h₂ : 36152 ≤ g .alt ∧ g .alt ≤ 82345
  · rw [exec_cond_true h₂, List.cons_append, exec_cons, List.cons_append, exec_cons,
      List.nil_append, exec_cond_true h₃]
    exact ⟨rfl, rfl⟩
  · rw [exec_cond_false h₂, List.nil_append, exec_cond_true h₃]
    exact ⟨rfl, rfl⟩

theorem freeStream_equations :
    let f := exec (freeStream m) g
    f .a0 = m.sqroot (g .gama * g .Rgas * g .ts0) ∧ f .u0 = g .u0d * 5280 / 3600 ∧
      f .fsmach = f .u0 / f .a0 ∧
      f (.tt 0) = g .ts0 * (1.0 + 0.5 * (g .gama - 1.0) * f .fsmach * f .fsmach) ∧
      f (.pt 0) = g .ps0 * m.fpow (f (.tt 0) / g .ts0) (g .gama / (g .gama - 1.0)) / 144 ∧
      f .ps0 = g .ps0 / 144 := by
  unfold freeStream
  rw [exec_cons, exec_cons, exec_cons, exec_cons, exec_cond_assign_else]
  exact ⟨rfl, rfl, rfl, rfl, rfl, rfl⟩

theorem inlet_equations :
    let f := exec (inlet m) g
    f (.prat 2) = (if 1.0 < g .fsmach then 1.0 - 0.075 * m.fpow (g .fsmach - 1.0) 1.35 else 1.0) ∧
      f (.eta 3) = raised 0.5 (g (.eta 3)) ∧ f (.trat 7) = 1.0 ∧ f (.tt 2) = g (.tt 0) ∧
      f (.cp 2) = getCp (g (.tt 0)) ∧ f (.pt 2) = g (.pt 0) * f (.prat 2) := by
  unfold inlet
  rw [exec_cond_assign_else, exec_cons, exec_cons, exec_cond_assign, exec_cons, exec_cond_assign]
  exact ⟨rfl, rfl, rfl, rfl, rfl, rfl⟩

theorem turbojet_equations :
    let f := exec (turbojet m) g
    f (.prat 3) = raised 0.5 (g .p3p2d) ∧
      f .delhc = g (.cp 2) * g (.tt 2) / g (.eta 3) *
        (m.fpow (f (.prat 3)) ((g (.gam 2) - 1.0) / g (.gam 2)) - 1.0) ∧
      f .deltc = f .delhc / g (.cp 2) ∧ f (.tt 3) = g (.tt 2) + f .deltc ∧
      f (.tt 4) = g .tt4 * g .throtl / 100.0 ∧ f (.trat 4) = f (.tt 4) / f (.tt 3) ∧
      f (.trat 5) = f (.tt 5) / f (.tt 4) := by
  unfold turbojet
  rw [exec_cons, exec_cond_assign]
  exact ⟨rfl, rfl, rfl, rfl, rfl, rfl, rfl⟩

theorem turbofan_equations :
    let f := exec (turbofan m) g
    f (.prat 13) = raised 0.5 (g .p3fp2d) ∧
      f .delhf = g (.cp 2) * g (.tt 2) / g (.eta 13) *
        (m.fpow (f (.prat 13)) ((g (.gam 2) - 1.0) / g (.gam 2)) - 1.0) ∧
      f .deltf = f .delhf / g (.cp 2) ∧ f (.tt 13) = g (.tt 2) + f .deltf ∧
      f (.pt 13) = g (.pt 2) * f (.prat 13) ∧ f (.prat 3) = raised 0.5 (g .p3p2d) ∧
      f .delhc = f (.cp 13) * f (.tt 13) / g (.eta 3) *
        (m.fpow (f (.prat 3)) ((f (.gam 13) - 1.0) / f (.gam 13)) - 1.0) ∧
      f .deltc = f .delhc / f (.cp 13) ∧ f (.tt 3) = f (.tt 13) + f .deltc ∧
      f (.tt 4) = g .tt4 * g .throtl / 100.0 ∧ f (.trat 4) = f (.tt 4) / f (.tt 3) ∧
      f (.trat 5) = f (.tt 5) / f (.tt 4) := by
  unfold turbofan
  rw [exec_cons, exec_cond_assign, exec_cons, exec_cons, exec_cons, exec_cons, exec_cons,
    exec_cons, exec_cons, exec_cons, exec_cons, exec_cond_assign]
  exact ⟨rfl, rfl, rfl, rfl, rfl, rfl, rfl, rfl, rfl, rfl, rfl, rfl⟩

/-- The afterburner is off. -/
theorem nozzle_trat7 (h : ¬0 < g .abflag) : exec (nozzle m) g (.trat 7) = g (.trat 7) := by
  unfold nozzle
  rw [exec_cons, exec_cons, exec_cons, exec_cons, exec_cons, exec_cons, exec_cons,
    exec_cond_false h]
  rfl

theorem nozzle_frame :
    ∀ v ∈ [Var.trat 4, .u0, .ps0, .pt 13], exec (nozzle m) g v = g v := by
  intro v hv
  apply exec_frame
  exact (of_decide_eq_true rfl :
    ∀ v ∈ [Var.trat 4, .u0, .ps0, .pt 13], v ∉ writes (nozzle m)) v hv

theorem getGeo_frame :
    ∀ v ∈ [Var.trat 7, .trat 4, .u0, .ps0, .pt 13], exec (getGeo m engine) g v = g v := by
  intro v hv
  apply exec_frame
  exact (of_decide_eq_true rfl :
    ∀ v ∈ [Var.trat 7, .trat 4, .u0, .ps0, .pt 13], v ∉ writes (getGeo m engine)) v hv

theorem thrust_frame : ∀ v ∈ [Var.trat 7, .trat 4], exec (thrust m engine) g v = g v := by
  intro v hv
  apply exec_frame
  exact (of_decide_eq_true rfl : ∀ v ∈ [Var.trat 7, .trat 4], v ∉ writes (thrust m engine)) v hv

/-- What the thrust of every engine is made of. -/
def CoreThrust (f : Var → F) : Prop :=
  f .g0 = 32.2 ∧
    f .eair = getAir m 1.0 (f .game) * 144 * g .a8 * f (.pt 8) / 14.7 /
      m.sqroot (g .etr * g (.tt 0) / 518) ∧
    f .npr = f (.pt 8) / g .ps0 ∧ (∃ y, f .uexit = m.sqroot y) ∧
    f .pexit = (if f .npr ≤ 1.893 then g .ps0 else 0.52828 * f (.pt 8)) ∧
    f .fnet = f .fgros - f .dram

theorem thrust_equations (h : engine.number ≠ 3) :
    let f := exec (thrust m engine) g
    CoreThrust m g f ∧
      f .fgros = (f .uexit + (f .pexit - g .ps0) * 144 * g .a8 / f .eair) / f .g0 ∧
      f .dram = g .u0 / f .g0 := by
  unfold thrust
  rw [exec_cons, exec_cons, exec_cons, exec_cons, exec_cons, exec_cons, exec_cond_assign, exec_cons,
    exec_cond_assign, exec_cons, exec_cons, exec_cons, exec_cons, exec_cons, exec_cons,
    exec_cond_assign_else, exec_cons, exec_cons, exec_cond_false h, List.nil_append, exec_cons,
    exec_cond_false h, List.nil_append, exec_cond_assign_else]
  exact ⟨⟨rfl, rfl, rfl, ⟨_, rfl⟩, rfl, rfl⟩, rfl, rfl⟩

theorem fanThrust_equations (h : engine.number = 3) :
    let f := exec (thrust m engine) g
    CoreThrust m g f ∧
      f .snpr = g (.pt 13) / g .ps0 ∧ (∃ y, f .ues = m.sqroot y) ∧
      f .pfexit = (if f .snpr ≤ 1.893 then g .ps0 else 0.52828 * g (.pt 13)) ∧
      f .fgros = (f .uexit + (f .pexit - g .ps0) * 144 * g .a8 / f .eair) / f .g0 +
        (g .byprat * f .ues + (f .pfexit - g .ps0) * 144 * g .byprat * g .acore / f .eair) /
          f .g0 ∧
      f .dram = g .u0 / f .g0 + g .u0 * g .byprat / f .g0 := by
  unfold thrust fanThrust
  rw [exec_cons, exec_cons, exec_cons, exec_cons, exec_cons, exec_cons, exec_cond_assign, exec_cons,
    exec_cond_assign, exec_cons, exec_cons, exec_cons, exec_cons, exec_cons, exec_cons,
    exec_cond_assign_else, exec_cons, exec_cons, exec_cond_true h, List.cons_append, exec_cons,
    List.cons_append, exec_cons, List.cons_append, exec_cons, List.cons_append, exec_cons,
    List.cons_append, exec_cond_assign_else, exec_cons, List.cons_append, exec_cons,
    List.nil_append, exec_cons, exec_cond_true h, List.cons_append, exec_cons, List.nil_append,
    exec_cond_assign_else]
  exact ⟨⟨rfl, rfl, rfl, ⟨_, rfl⟩, rfl, rfl⟩, rfl, ⟨_, rfl⟩, rfl, rfl, rfl⟩

/-- The fuel, when the net thrust is positive. -/
theorem fuel_equations (h : 0.0 < g .fnet) :
    let f := exec (fuelAndWeight m engine) g
    f .fa =
        (g (.trat 4) - 1.0) / (g (.eta 4) * g .fhv / (g .cp3 * g (.tt 3)) - g (.trat 4)) +
        (g (.trat 7) - 1.0) / (g .fhv / (g .cpe * g (.tt 15)) - g (.trat 7)) ∧
      f .sfc = (if 3600 * f .fa / g .fnet < 0 then 0.0 else 3600 * f .fa / g .fnet) ∧
      f .flflo = f .sfc * g .fnlb ∧ f .isp = g .fnlb / f .flflo * 3600 := by
  unfold fuelAndWeight
  rw [exec_cons, exec_cond_true h, List.cons_append, exec_cons, List.cons_append, exec_cond_assign]
  cases engine <;> exact ⟨rfl, rfl, rfl, rfl⟩

end Equations

/-! ## Runs that remember a division by zero -/

open Checked

variable {K : Type} [Field K] [LinearOrder K] [IsStrictOrderedRing K]

/-- The utilities, where they are given numbers. -/
def Utilities.checked (m : Utilities K) : Utilities (Checked K) where
  sqroot := map m.sqroot
  fpow := map₂ m.fpow
  expo := map m.expo
  getMach := fun n => map₂ (m.getMach n)
  getRayleighLoss := map₃ m.getRayleighLoss
  toInt := map m.toInt

/-- A reading has numbers. -/
def Reading.checked (x : Reading K) : Reading (Checked K) := ⟨ok x.u0d, ok x.altd, ok x.throtl⟩

/-- No divisor of `defaultParam`, of the four functions for a reading and of the results is zero,
whatever the globals were. -/
def NoZeroDivisor (engine : Engine) (m : Utilities K) (x : Reading K) : Prop :=
  ∀ g : Var → K,
    Yields Defined (defaultParam ++ evaluate m.checked engine x.checked) (fun v => ok (g v)) ∧
      ∀ r ∈ benchResults
        (exec (defaultParam ++ evaluate m.checked engine x.checked) fun v => ok (g v)), r.Defined

/-- A store with the defaults and with numbers only. -/
structure Sound (s : Var → Checked K) : Prop where
  default : ∀ v, Default v (s v)
  defined : ∀ v, (s v).Defined

/-- A secure function that divides by nothing that is zero leaves such a store. -/
theorem Sound.exec {s : Var → Checked K} (h : Sound s) {ss : List (Stmt Var (Checked K))}
    {A B : List Var} (hsec : Secure Default A ss B) (hy : Yields Defined ss s) :
    Sound (exec ss s) :=
  ⟨hsec.keeps h.default, hy.exec h.defined⟩

/-- The number a variable has. -/
theorem Sound.value {s : Var → Checked K} (h : Sound s) (v : Var) : ∃ a, s v = ok a := h.defined v

/-! ## The atmosphere -/

/-- The temperature of the atmosphere at an altitude. -/
def temperature (alt : K) : K :=
  if alt < 36152 then 518.6 - 3.56 * alt / 1000
  else if alt < 82345 then 389.98
  else 389.98 + 1.645 * (alt - 82345) / 1000

theorem temperature_pos (alt : K) : 0 < temperature alt := by
  unfold temperature
  split
  · next h =>
    have : 3.56 * alt / 1000 < 518 := by
      rw [div_lt_iff₀ (by norm_num)]
      norm_num
      linarith
    norm_num at this ⊢
    linarith
  · split
    · norm_num
    · next h =>
      have : 0 ≤ 1.645 * (alt - 82345) / 1000 := by
        apply div_nonneg (mul_nonneg (by norm_num) _) (by norm_num)
        linarith
      norm_num at this ⊢
      linarith

/-- Functions that are positive, whatever their arguments are. -/
structure EverywherePositive (m : Utilities K) : Prop where
  sqroot : ∀ x, 0 < m.sqroot x
  fpow : ∀ x y, 0 < m.fpow x y
  expo : ∀ x, 0 < m.expo x

/-- The atmosphere has a positive temperature and a positive pressure. -/
theorem atmosphere_values {m : Utilities K} (hm : EverywherePositive m) {g : Var → Checked K}
    {alt : K} (halt : g .alt = ok alt) :
    exec (atmosphere m.checked) g .ts0 = ok (temperature alt) ∧
      ∃ p, 0 < p ∧ exec (atmosphere m.checked) g .ps0 = ok p := by
  have hlt (n : ℕ) [n.AtLeastTwo] : g .alt < OfNat.ofNat n ↔ alt < OfNat.ofNat n := by
    rw [halt, ofNat_eq, ok_lt_ok]
  have hge (n : ℕ) [n.AtLeastTwo] : OfNat.ofNat n ≤ g .alt ↔ OfNat.ofNat n ≤ alt := by
    rw [halt, ofNat_eq, ok_le_ok]
  rw [temperature]
  rcases lt_or_ge alt 36152 with h₁ | h₁
  · have h₃ : alt < 82345 := by linarith
    obtain ⟨hts0, hps0⟩ := atmosphere_low m.checked g ((hlt _).mpr h₁)
      (fun h => absurd ((hge _).mp h.1) (not_le.mpr h₁))
      (fun h => absurd ((hge _).mp h) (not_le.mpr h₃))
    have hts0 : exec (atmosphere m.checked) g .ts0 = ok (518.6 - 3.56 * alt / 1000) := by
      rw [hts0, halt]
      simp (disch := norm_num) only [ok_mul_ok, ok_sub_ok, ok_div_ok, ofScientific_eq, ofNat_eq]
    rw [if_pos h₁]
    refine ⟨hts0, 2116 * m.fpow ((518.6 - 3.56 * alt / 1000) / 518.6) 5.256,
      mul_pos (by norm_num) (hm.fpow _ _), ?_⟩
    rw [hps0, hts0, ofScientific_eq, ofScientific_eq, ok_div_ok (by norm_num)]
    rfl
  · rw [if_neg (not_lt.mpr h₁)]
    have h₁' : ¬g .alt < 36152 := fun h => absurd ((hlt _).mp h) (not_lt.mpr h₁)
    rcases lt_or_ge alt 82345 with h₃ | h₃
    · obtain ⟨hts0, hps0⟩ := atmosphere_middle m.checked g h₁'
        ⟨(hge _).mpr h₁, by rw [halt, ofNat_eq, ok_le_ok]; exact h₃.le⟩
        (fun h => absurd ((hge _).mp h) (not_le.mpr h₃))
      rw [if_pos h₃]
      refine ⟨hts0, 2116 * 0.2236 * m.expo ((36000 - alt) / (53.35 * 389.98)),
        mul_pos (by norm_num) (hm.expo _), ?_⟩
      rw [hps0, halt]
      simp (disch := norm_num) only [ok_mul_ok, ok_sub_ok, ok_div_ok, ofScientific_eq, ofNat_eq]
      rfl
    · obtain ⟨hts0, hps0⟩ := atmosphere_high m.checked g h₁' ((hge _).mpr h₃)
      have hts0 : exec (atmosphere m.checked) g .ts0 =
          ok (389.98 + 1.645 * (alt - 82345) / 1000) := by
        rw [hts0, halt]
        simp (disch := norm_num) only [ok_mul_ok, ok_sub_ok, ok_add_ok, ok_div_ok, ofScientific_eq,
          ofNat_eq]
      rw [if_neg (not_lt.mpr h₃)]
      refine ⟨hts0,
        2116 * 0.02456 * m.fpow ((389.98 + 1.645 * (alt - 82345) / 1000) / 389.98) (-11.388),
        mul_pos (by norm_num) (hm.fpow _ _), ?_⟩
      rw [hps0, hts0, ofScientific_eq, ofScientific_eq, ofScientific_eq, ok_div_ok (by norm_num)]
      rfl

/-! ## The functions with which the burner adds no heat -/

/-- Constant functions, but for one value of `fpow`, which is the temperature ratio of the
compressor: its pressure ratio is 8. -/
structure Rigged (S P : K) (m : Utilities K) : Prop where
  sqroot : ∀ x, m.sqroot x = S
  fpow : ∀ x y, m.fpow x y = if x = 8 then P else 0.9
  expo : ∀ x, m.expo x = 1

variable {S P : K} {m : Utilities K} {s : Var → Checked K}

theorem Rigged.positive (hm : Rigged S P m) (hS : 0 < S) (hP : 0 < P) : EverywherePositive m where
  sqroot := fun x => by
    rw [hm.sqroot]
    exact hS
  fpow := fun x y => by
    rw [hm.fpow]
    split
    · exact hP
    · norm_num
  expo := fun x => by
    rw [hm.expo]
    exact one_pos

/-- The stagnation temperature. -/
def stagnation (alt mach : K) : K := temperature alt * (1.0 + 0.5 * (1.4 - 1.0) * mach * mach)

theorem stagnation_pos (alt mach : K) : 0 < stagnation alt mach := by
  have : 0 ≤ 0.5 * (1.4 - 1.0) * mach * mach := by
    rw [mul_assoc]
    exact mul_nonneg (by norm_num) (mul_self_nonneg mach)
  apply mul_pos (temperature_pos alt)
  norm_num at this ⊢
  linarith

/-- The speed in feet per second. -/
def speed (u0d : K) : K := u0d * 5280 / 3600

/-- What `deduceInputs` gives, for a subsonic speed. -/
theorem deduceInputs_values {u0d alt : K} (hm : Rigged S P m) (hS : 0 < S) (hP : 0 < P)
    (hu : 0 ≤ speed u0d) (hlt : speed u0d < S) (h : Sound s) (hu0d : s .u0d = ok u0d)
    (haltd : s .altd = ok alt) :
    let t := exec (deduceInputs m.checked) s
    t .u0 = ok (speed u0d) ∧ t .fsmach = ok (speed u0d / S) ∧
      t (.tt 0) = ok (stagnation alt (speed u0d / S)) ∧
      ∃ p, 0 < p ∧ t .ps0 = ok p ∧ t (.pt 0) = ok (0.9 * p) := by
  intro t
  let s₁ := exec [assign .Rgas (fun _ => 1718), assign .alt (fun g => g .altd)] s
  let s₂ := exec (atmosphere m.checked) s₁
  have ht : t = exec (freeStream m.checked) s₂ := exec_append (atmosphere m.checked) _ s₁
  have hgama : s₂ .gama = ok 1.4 :=
    (exec_frame s₁ (of_decide_eq_true rfl)).trans (h.default .gama)
  have hRgas : s₂ .Rgas = ok 1718 := exec_frame s₁ (of_decide_eq_true rfl)
  have hu0d : s₂ .u0d = ok u0d := (exec_frame s₁ (of_decide_eq_true rfl)).trans hu0d
  have hatmosphere : s₂ .ts0 = ok (temperature alt) ∧ ∃ p, 0 < p ∧ s₂ .ps0 = ok p :=
    atmosphere_values (hm.positive hS hP) haltd
  obtain ⟨hts0, p, hp, hps0⟩ := hatmosphere
  have hτ := temperature_pos alt
  obtain ⟨ea0, eu0, efsmach, ett0, ept0, eps0⟩ := freeStream_equations m.checked s₂
  rw [← ht] at ea0 eu0 efsmach ett0 ept0 eps0
  have ha0 : t .a0 = ok S := by
    rw [ea0, hgama, hRgas, hts0]
    exact congrArg ok (hm.sqroot _)
  have hu0 : t .u0 = ok (speed u0d) := by
    rw [eu0, hu0d]
    simp (disch := norm_num) only [ok_mul_ok, ok_div_ok, ofNat_eq, speed]
  have hmach : t .fsmach = ok (speed u0d / S) := by
    rw [efsmach, hu0, ha0, ok_div_ok hS.ne']
  have htt0 : t (.tt 0) = ok (stagnation alt (speed u0d / S)) := by
    rw [ett0, hts0, hgama, hmach]
    rfl
  refine ⟨hu0, hmach, htt0, p / 144, by positivity, ?_, ?_⟩
  · rw [eps0, hps0, ofNat_eq, ok_div_ok (by norm_num)]
  · -- the ratio of the temperatures is not the pressure ratio of the compressor
    have hratio : stagnation alt (speed u0d / S) / temperature alt ≠ 8 := by
      rw [stagnation, mul_div_cancel_left₀ _ hτ.ne']
      have h0 : 0 ≤ speed u0d / S := div_nonneg hu hS.le
      have h1 : speed u0d / S < 1 := (div_lt_one hS).mpr hlt
      intro heq
      norm_num at heq
      nlinarith
    have hgamma : (s₂ .gama / (s₂ .gama - 1.0)) = ok (1.4 / (1.4 - 1.0)) := by
      rw [hgama]
      exact ok_div_ok (by norm_num)
    have hfpow : m.checked.fpow (t (.tt 0) / s₂ .ts0) (s₂ .gama / (s₂ .gama - 1.0)) = ok 0.9 := by
      rw [htt0, hts0, hgamma, ok_div_ok hτ.ne']
      exact congrArg ok ((hm.fpow _ _).trans (if_neg hratio))
    rw [ept0, hps0, hfpow, ok_mul_ok, ofNat_eq, ok_div_ok (by norm_num), mul_comm, mul_div_assoc]

/-- The efficiency of the compressor is one. -/
theorem raised_eta3 {y : Checked K} (h : raised 0.5 y = raised 0.5 1.0) :
    raised 0.5 y = ok 1.0 := by
  rw [h, raised, if_neg]
  · rfl
  · rw [ofScientific_eq, ofScientific_eq, ok_lt_ok]
    norm_num

/-- What the inlet gives, for a subsonic speed. -/
theorem inlet_values {mach θ q : K} (hmach : mach < 1) (h : Sound s) (hfsmach : s .fsmach = ok mach)
    (htt0 : s (.tt 0) = ok θ) (hpt0 : s (.pt 0) = ok q) :
    let t := exec (inlet m.checked) s
    t (.tt 2) = ok θ ∧ t (.eta 3) = ok 1.0 ∧ t (.trat 7) = ok 1.0 ∧ t (.pt 2) = ok q := by
  intro t
  obtain ⟨eprat2, eeta3, etrat7, ett2, -, ept2⟩ := inlet_equations m.checked s
  have hsub : ¬(1.0 : Checked K) < s .fsmach := by
    rw [hfsmach, ofScientific_eq, ok_lt_ok]
    norm_num
    exact hmach.le
  rw [if_neg hsub] at eprat2
  refine ⟨ett2.trans htt0, eeta3.trans (raised_eta3 (h.default (.eta 3))), etrat7, ?_⟩
  rw [eprat2, hpt0, ofScientific_eq, ok_mul_ok] at ept2
  refine ept2.trans (congrArg ok ?_)
  norm_num

/-- The temperature behind a compressor or a fan with the temperature ratio `r`. -/
theorem temperature_behind {w : Checked K} {c θ h d r : K} (hw : ∀ a, w = ok a → a = r)
    (hh : ok c * ok θ / ok 1.0 * (w - 1.0) = ok h) (hd : ok h / ok c = ok d) : θ + d = θ * r := by
  obtain ⟨a, b, ha, hb, rfl⟩ := mul_eq_ok.mp hh
  obtain ⟨r', one, hr', hone, rfl⟩ := sub_eq_ok.mp hb
  obtain rfl := hw r' hr'
  obtain ⟨h', c', hh', hc', hc, rfl⟩ := div_eq_ok.mp hd
  cases hh'
  cases hc'
  cases hone
  rw [ok_mul_ok, ok_div_ok (by norm_num), ok_inj] at ha
  rw [← ha]
  field_simp
  norm_num

/-- The burner adds no heat: what it burns to is the temperature behind the compressor. -/
theorem trat4_eq_one {T x : K} (hT : 0 < T) (hx : x = 25 * T) :
    (2500 * ok T / 100.0 : Checked K) / ok x = ok 1 := by
  subst hx
  rw [ofNat_eq, ofScientific_eq, ok_mul_ok, ok_div_ok (by norm_num), ok_div_ok (by positivity),
    ok_inj, div_eq_one_iff_eq (by positivity)]
  norm_num
  ring

/-- What `fpow` makes of the pressure ratio of the compressor. -/
theorem Rigged.fpow_eight (hm : Rigged S P m) {x y : Checked K} (hx : x = ok 8.0) (a : K)
    (h : m.checked.fpow x y = ok a) : a = P := by
  subst hx
  obtain ⟨b, c, hb, -, rfl⟩ := map₂_eq_ok.mp h
  cases hb
  rw [hm.fpow, if_pos (by norm_num)]

/-- What `fpow` makes of the pressure ratio of the fan. -/
theorem Rigged.fpow_two (hm : Rigged S P m) {x y : Checked K} (hx : x = ok 2.0) (a : K)
    (h : m.checked.fpow x y = ok a) : a = 0.9 := by
  subst hx
  obtain ⟨b, c, hb, -, rfl⟩ := map₂_eq_ok.mp h
  cases hb
  rw [hm.fpow, if_neg (by norm_num)]

/-- The clamp leaves a pressure ratio of two or more as it is. -/
theorem raised_ratio {x : K} (hx : 2 ≤ x) : raised 0.5 (ok x) = ok x := by
  rw [raised, if_neg]
  rw [ofScientific_eq, ok_lt_ok]
  norm_num
  linarith

/-- The turbojet's burner adds no heat when the ratio of the compressor takes the air to its
temperature. -/
theorem turbojet_values {θ T : K} (hm : Rigged S P m) (hT : 0 < T) (hP : θ * P = 25 * T)
    (h : Sound s) (ht : ∀ v, (exec (turbojet m.checked) s v).Defined) (htt2 : s (.tt 2) = ok θ)
    (heta3 : s (.eta 3) = ok 1.0) (hthrotl : s .throtl = ok T) :
    exec (turbojet m.checked) s (.trat 4) = ok 1 := by
  obtain ⟨eprat3, edelhc, edeltc, ett3, ett4, etrat4, -⟩ := turbojet_equations m.checked s
  obtain ⟨c, hcp2⟩ := h.value (.cp 2)
  obtain ⟨e, hdelhc⟩ := ht .delhc
  obtain ⟨d, hdeltc⟩ := ht .deltc
  have hp3p2d : s .p3p2d = ok 8.0 := h.default .p3p2d
  have htt4 : s .tt4 = 2500 := h.default .tt4
  rw [hp3p2d, raised_ratio (by norm_num)] at eprat3
  rw [hdelhc, hcp2, htt2, heta3] at edelhc
  rw [hdeltc, hdelhc, hcp2] at edeltc
  have htt3 : θ + d = 25 * T := by
    rw [temperature_behind (hm.fpow_eight eprat3) edelhc.symm edeltc.symm, hP]
  rw [etrat4, ett4, ett3, htt2, hdeltc, htt4, hthrotl, ok_add_ok]
  exact trat4_eq_one hT htt3

/-- The turbofan's burner likewise, with the fan before the compressor. -/
theorem turbofan_values {θ T q : K} (hm : Rigged S P m) (hT : 0 < T) (hP : θ * 0.9 * P = 25 * T)
    (h : Sound s) (ht : ∀ v, (exec (turbofan m.checked) s v).Defined) (htt2 : s (.tt 2) = ok θ)
    (heta3 : s (.eta 3) = ok 1.0) (hthrotl : s .throtl = ok T) (hpt2 : s (.pt 2) = ok q) :
    exec (turbofan m.checked) s (.trat 4) = ok 1 ∧
      exec (turbofan m.checked) s (.pt 13) = ok (q * 2.0) := by
  obtain ⟨eprat13, edelhf, edeltf, ett13, ept13, eprat3, edelhc, edeltc, ett3, ett4, etrat4, -⟩ :=
    turbofan_equations m.checked s
  obtain ⟨c, hcp2⟩ := h.value (.cp 2)
  obtain ⟨e, hdelhf⟩ := ht .delhf
  obtain ⟨d, hdeltf⟩ := ht .deltf
  obtain ⟨c', hcp13⟩ := ht (.cp 13)
  obtain ⟨e', hdelhc⟩ := ht .delhc
  obtain ⟨d', hdeltc⟩ := ht .deltc
  have hp3fp2d : s .p3fp2d = ok 2.0 := h.default .p3fp2d
  have hp3p2d : s .p3p2d = ok 8.0 := h.default .p3p2d
  have heta13 : s (.eta 13) = ok 1.0 := h.default (.eta 13)
  have htt4 : s .tt4 = 2500 := h.default .tt4
  rw [hp3fp2d, raised_ratio (by norm_num)] at eprat13
  rw [hp3p2d, raised_ratio (by norm_num)] at eprat3
  rw [hdelhf, hcp2, htt2, heta13] at edelhf
  rw [hdeltf, hdelhf, hcp2] at edeltf
  rw [htt2, hdeltf, ok_add_ok, temperature_behind (hm.fpow_two eprat13) edelhf.symm edeltf.symm]
    at ett13
  rw [hdelhc, hcp13, ett13, heta3] at edelhc
  rw [hdeltc, hdelhc, hcp13] at edeltc
  have htt3 : θ * 0.9 + d' = 25 * T := by
    rw [temperature_behind (hm.fpow_eight eprat3) edelhc.symm edeltc.symm, hP]
  refine ⟨?_, ?_⟩
  · rw [etrat4, ett4, ett3, ett13, hdeltc, htt4, hthrotl, ok_add_ok]
    exact trat4_eq_one hT htt3
  · rw [ept13, eprat13, hpt2, ok_mul_ok]

/-! ## The thrust -/

variable {f : Var → Checked K}

/-- The choked airflow is positive. -/
theorem getAir_pos (hm : EverywherePositive m) {y : Checked K} {a : K}
    (h : getAir m.checked 1.0 y = ok a) : 0 < a := by
  obtain ⟨b, c, hb, hc, -, rfl⟩ := div_eq_ok.mp h
  obtain ⟨b₁, b₂, hb₁, hb₂, rfl⟩ := mul_eq_ok.mp hb
  obtain ⟨b₃, b₄, hb₃, hb₄, rfl⟩ := mul_eq_ok.mp hb₁
  obtain ⟨z, -, rfl⟩ := map_eq_ok.mp hb₄
  obtain ⟨c₁, c₂, -, -, rfl⟩ := map₂_eq_ok.mp hc
  cases hb₂
  cases hb₃
  exact div_pos (mul_pos (mul_pos (by norm_num) (hm.sqroot z)) (by norm_num)) (hm.fpow c₁ c₂)

/-- The square roots are all the same. -/
theorem Rigged.sqroot_eq (hm : Rigged S P m) {x : Checked K} {a : K}
    (h : ∃ y, x = m.checked.sqroot y) (hx : x = ok a) : a = S := by
  obtain ⟨y, rfl⟩ := h
  obtain ⟨b, -, rfl⟩ := map_eq_ok.mp hx
  exact hm.sqroot b

/-- The area of the nozzle and the airflow have one sign. -/
theorem area_div_airflow_nonneg {γ p8 r : K} (hγ : 0 < γ) (hp8 : 0 < p8) (hr : 0 < r) (a : K) :
    0 ≤ a / (γ * 144 * a * p8 / 14.7 / r) := by
  have hfactor : γ * 144 * a * p8 / 14.7 / r = a * (γ * 144 * p8 / 14.7 / r) := by ring
  rw [hfactor]
  rcases eq_or_ne a 0 with rfl | ha
  · rw [zero_div]
  · rw [div_mul_cancel_left₀ ha]
    positivity

/-- The pressure of the exit adds to the thrust. -/
theorem exit_nonneg (hm : EverywherePositive m) (hcore : CoreThrust m.checked s f)
    (hs : ∀ v, (s v).Defined) (hf : ∀ v, (f v).Defined) {p : K} (hp : 0 < p)
    (hps0 : s .ps0 = ok p) {x : K}
    (hx : (f .pexit - s .ps0) * 144 * s .a8 / f .eair = ok x) : 0 ≤ x := by
  obtain ⟨-, eeair, enpr, -, epexit, -⟩ := hcore
  obtain ⟨n, hn⟩ := hf .npr
  obtain ⟨p8, hp8⟩ := hf (.pt 8)
  obtain ⟨pe, hpe⟩ := hf .pexit
  obtain ⟨e, he⟩ := hf .eair
  obtain ⟨a, ha⟩ := hs .a8
  rw [hn, hp8, hps0, ok_div_ok hp.ne', ok_inj] at enpr
  rw [hpe, hn, hps0, hp8, ofScientific_eq, ofScientific_eq, ok_mul_ok] at epexit
  rw [hpe, hps0, ha, he, ofNat_eq, ok_sub_ok, ok_mul_ok, ok_mul_ok] at hx
  obtain ⟨x', e', hx', he', hne, rfl⟩ := div_eq_ok.mp hx
  cases hx'
  cases he'
  split at epexit
  · -- the nozzle is not choked
    cases epexit
    rw [sub_self, zero_mul, zero_mul, zero_div]
  · next hchoked =>
    have hpe' : pe = 0.52828 * p8 := ok.inj epexit
    rw [ok_le_ok, not_le, enpr, lt_div_iff₀ hp] at hchoked
    have hp8pos : 0 < p8 := lt_trans (mul_pos (by norm_num) hp) hchoked
    have hgain : 0 ≤ pe - p := by
      rw [hpe']
      norm_num at hchoked ⊢
      linarith
    rw [he, ha, hp8] at eeair
    obtain ⟨b, r, hb, hr, -, rfl⟩ := div_eq_ok.mp eeair.symm
    obtain ⟨z, -, rfl⟩ := map_eq_ok.mp hr
    obtain ⟨b₁, b₂, hb₁, hb₂, -, rfl⟩ := div_eq_ok.mp hb
    cases hb₂
    obtain ⟨b₃, b₄, hb₃, hb₄, rfl⟩ := mul_eq_ok.mp hb₁
    cases hb₄
    obtain ⟨b₅, b₆, hb₅, hb₆, rfl⟩ := mul_eq_ok.mp hb₃
    cases hb₆
    obtain ⟨γ, b₇, hγ, hb₇, rfl⟩ := mul_eq_ok.mp hb₅
    rw [ofNat_eq] at hb₇
    cases hb₇
    have hsign := area_div_airflow_nonneg (getAir_pos hm hγ) hp8pos (hm.sqroot z) a
    rw [mul_div_assoc]
    exact mul_nonneg (mul_nonneg hgain (by norm_num)) hsign

/-- The core alone has at least the thrust of the speed of its exit. -/
theorem coreThrust_ge (hm : Rigged S P m) (hS : 0 < S) (hP : 0 < P)
    (hcore : CoreThrust m.checked s f) (hs : ∀ v, (s v).Defined) (hf : ∀ v, (f v).Defined) {p : K}
    (hp : 0 < p) (hps0 : s .ps0 = ok p) {a : K}
    (ha : (f .uexit + (f .pexit - s .ps0) * 144 * s .a8 / f .eair) / f .g0 = ok a) :
    S / 32.2 ≤ a := by
  have hexit {x : K} := exit_nonneg (x := x) (hm.positive hS hP) hcore hs hf hp hps0
  obtain ⟨eg0, -, -, euexit, -, -⟩ := hcore
  obtain ⟨c, d, hc, hd, -, rfl⟩ := div_eq_ok.mp ha
  obtain ⟨e, x, he, hx, rfl⟩ := add_eq_ok.mp hc
  obtain rfl : e = S := hm.sqroot_eq euexit he
  rw [eg0, ofScientific_eq, ok_inj] at hd
  have hxpos := hexit hx
  rw [← hd]
  apply div_le_div_of_nonneg_right _ (by norm_num)
  linarith

/-- The net thrust of a turbojet is positive. -/
theorem thrust_pos {engine : Engine} (hengine : engine.number ≠ 3) (hm : Rigged S P m) (hS : 0 < S)
    (hP : 0 < P) (hs : Sound s) (hf : ∀ v, (exec (thrust m.checked engine) s v).Defined) {p u : K}
    (hp : 0 < p) (hps0 : s .ps0 = ok p) (hu0 : s .u0 = ok u) (hu : u < S) :
    ∃ k, 0 < k ∧ exec (thrust m.checked engine) s .fnet = ok k := by
  obtain ⟨hcore, efgros, edram⟩ := thrust_equations m.checked engine s hengine
  have hge {a : K} := coreThrust_ge (a := a) hm hS hP hcore hs.defined hf hp hps0
  obtain ⟨eg0, -, -, -, -, efnet⟩ := hcore
  obtain ⟨k, hk⟩ := hf .fnet
  refine ⟨k, ?_, hk⟩
  rw [efgros, edram, hk] at efnet
  obtain ⟨a, b, ha, hb, rfl⟩ := sub_eq_ok.mp efnet.symm
  rw [hu0, eg0, ofScientific_eq, ok_div_ok (by norm_num), ok_inj] at hb
  have hlt : u / 32.2 < S / 32.2 := div_lt_div_of_pos_right hu (by norm_num)
  linarith [hge ha]

/-- The net thrust of a turbofan is positive. -/
theorem fanThrust_pos {engine : Engine} (hengine : engine.number = 3) (hm : Rigged S P m)
    (hS : 0 < S) (hP : 0 < P) (hs : Sound s)
    (hf : ∀ v, (exec (thrust m.checked engine) s v).Defined) {p u : K} (hp : 0 < p)
    (hps0 : s .ps0 = ok p) (hpt13 : s (.pt 13) = ok (0.9 * p * 2.0)) (hu0 : s .u0 = ok u)
    (hu : u < S) : ∃ k, 0 < k ∧ exec (thrust m.checked engine) s .fnet = ok k := by
  obtain ⟨hcore, esnpr, eues, epfexit, efgros, edram⟩ :=
    fanThrust_equations m.checked engine s hengine
  have hge {a : K} := coreThrust_ge (a := a) hm hS hP hcore hs.defined hf hp hps0
  obtain ⟨eg0, -, -, -, -, efnet⟩ := hcore
  obtain ⟨k, hk⟩ := hf .fnet
  obtain ⟨r, hr⟩ := hf .ues
  obtain rfl : r = S := hm.sqroot_eq eues hr
  have hbyprat : s .byprat = ok 1.0 := hs.default .byprat
  -- the nozzle of the fan is not choked
  have hpfexit : exec (thrust m.checked engine) s .pfexit = ok p := by
    rw [epfexit, if_pos, hps0]
    rw [esnpr, hpt13, hps0, ok_div_ok hp.ne', ofScientific_eq, ok_le_ok, div_le_iff₀ hp]
    norm_num
    linarith
  refine ⟨k, ?_, hk⟩
  rw [efgros, edram, hk] at efnet
  obtain ⟨a, b, ha, hb, rfl⟩ := sub_eq_ok.mp efnet.symm
  obtain ⟨core, fan, hcore, hfan, rfl⟩ := add_eq_ok.mp ha
  rw [hu0, eg0, hbyprat, ofScientific_eq, ok_mul_ok, ok_div_ok (by norm_num),
    ok_div_ok (by norm_num), ok_add_ok, ok_inj] at hb
  rw [hr, hpfexit, hps0, eg0, hbyprat, ofScientific_eq, ofNat_eq, ok_sub_ok, ok_mul_ok, ok_mul_ok,
    ok_mul_ok, sub_self, zero_mul, zero_mul] at hfan
  have hfan_eq : fan = r / 32.2 := by
    obtain ⟨c, d, hc, hd, -, rfl⟩ := div_eq_ok.mp hfan
    obtain ⟨e, y, he, hy, rfl⟩ := add_eq_ok.mp hc
    obtain ⟨v, w, hv, -, -, rfl⟩ := div_eq_ok.mp hy
    obtain ⟨v₁, v₂, hv₁, -, rfl⟩ := mul_eq_ok.mp hv
    cases hd
    cases he
    cases hv₁
    norm_num
  have hlt : u / 32.2 < r / 32.2 := div_lt_div_of_pos_right hu (by norm_num)
  rw [← hb, hfan_eq]
  norm_num at hlt ⊢
  have := hge hcore
  norm_num at this
  linarith

/-! ## The fuel -/

/-- The branch of `calcPerf` for a positive net thrust is taken. -/
theorem fnet_gt_zero {k : K} (hk : 0 < k) (hfnet : s .fnet = ok k) :
    (0.0 : Checked K) < s .fnet := by
  rw [hfnet, ofScientific_eq, ok_lt_ok]
  norm_num
  exact hk

/-- **The specific impulse without fuel.** With any functions: when the net thrust is positive and
the fuel-air ratio is not, the fuel flow is zero and the specific impulse is divided by it. -/
theorem isp_undefined {engine : Engine} {k a : K} (hs : ∀ v, (s v).Defined) (hk : 0 < k)
    (hfnet : s .fnet = ok k) (hfa : exec (fuelAndWeight m.checked engine) s .fa = ok a)
    (ha : a ≤ 0) : ¬(exec (fuelAndWeight m.checked engine) s .isp).Defined := by
  obtain ⟨-, esfc, eflflo, eisp⟩ := fuel_equations m.checked engine s (fnet_gt_zero hk hfnet)
  obtain ⟨b, hfnlb⟩ := hs .fnlb
  have hsfc : exec (fuelAndWeight m.checked engine) s .sfc = ok 0 := by
    rw [esfc, hfa, hfnet, ofNat_eq, ok_mul_ok, ok_div_ok hk.ne', zero_eq]
    rcases ha.lt_or_eq with hneg | rfl
    · have hclamped : 3600 * a / k < 0 :=
        div_neg_of_neg_of_pos (mul_neg_of_pos_of_neg (by norm_num) hneg) hk
      rw [if_pos (ok_lt_ok.mpr hclamped), ofScientific_eq]
      norm_num
    · rw [mul_zero, zero_div, if_neg (lt_irrefl _)]
  rw [eisp, eflflo, hsfc, hfnlb, ok_mul_ok, zero_mul, div_zero_eq]
  exact not_defined_undefined

/-- A burner that adds no heat takes no fuel. -/
theorem fa_eq_zero {engine : Engine} {k : K} (hk : 0 < k) (hfnet : s .fnet = ok k)
    (htrat4 : s (.trat 4) = ok 1) (htrat7 : s (.trat 7) = ok 1.0) {a : K}
    (hfa : exec (fuelAndWeight m.checked engine) s .fa = ok a) : a = 0 := by
  obtain ⟨efa, -⟩ := fuel_equations m.checked engine s (fnet_gt_zero hk hfnet)
  rw [hfa, htrat4, htrat7] at efa
  obtain ⟨a₁, a₂, ha₁, ha₂, rfl⟩ := add_eq_ok.mp efa.symm
  obtain ⟨b, c, hb, -, -, rfl⟩ := div_eq_ok.mp ha₁
  obtain ⟨b', c', hb', -, -, rfl⟩ := div_eq_ok.mp ha₂
  cases hb
  cases hb'
  norm_num

/-! ## A whole reading -/

/-- The store before `deduceInputs`. -/
def readingStart (x : Reading K) (g : Var → K) : Var → Checked K :=
  exec (takeInputs x.checked) (exec defaultParam fun v => ok (g v))

/-- The part of `getThermo` for the engine. -/
def engineThermo (engine : Engine) (m : Utilities K) : List (Stmt Var (Checked K)) :=
  match engine with
  | .turbojet | .afterburner => turbojet m.checked
  | .turbofan => turbofan m.checked

theorem engineThermo_eq (engine : Engine) (m : Utilities K) (s : Var → Checked K) :
    let both := [cond (fun _ => engine.number ≤ 2) (turbojet m.checked) [],
      cond (fun _ => engine.number = 3) (turbofan m.checked) []]
    exec both s = exec (engineThermo engine m) s ∧
      (Yields Defined both s → Yields Defined (engineThermo engine m) s) := by
  cases engine with
  | turbojet | afterburner => exact ⟨rfl, fun h => h.1⟩
  | turbofan => exact ⟨rfl, fun h => h.2.1⟩

theorem engineThermo_secure (engine : Engine) (m : Utilities K) :
    Secure Default inducted (engineThermo engine m) driven := by
  cases engine with
  | turbojet | afterburner => exact turbojet_secure m.checked
  | turbofan => exact turbofan_secure m.checked

/-- The stores between the functions of a reading that divides by nothing that is zero. -/
theorem stages_sound {engine : Engine} {x : Reading K} {g : Var → K}
    (h : Yields Defined (defaultParam ++ evaluate m.checked engine x.checked) fun v => ok (g v)) :
    let s₁ := readingStart x g
    let s₂ := exec (deduceInputs m.checked) s₁
    let s₃ := exec (inlet m.checked) s₂
    let s₄ := exec (engineThermo engine m) s₃
    let s₅ := exec (nozzle m.checked) s₄
    let s₆ := exec (getGeo m.checked engine) s₅
    let s₇ := exec (thrust m.checked engine) s₆
    Sound s₁ ∧ Sound s₂ ∧ Sound s₃ ∧ Sound s₄ ∧ Sound s₅ ∧ Sound s₆ ∧ Sound s₇ ∧
      ∀ v, (exec (fuelAndWeight m.checked engine) s₇ v).Defined := by
  intro s₁ s₂ s₃ s₄ s₅ s₆ s₇
  simp only [evaluate, pipeline, getThermo, calcPerf, yields_append, exec_append] at h
  obtain ⟨h₀, h₁, ⟨⟨h₂, ⟨h₃, h₄⟩, h₅⟩, h₆⟩, h₇, h₈⟩ := h
  have hs₀ : Sound (exec defaultParam fun v => ok (g v)) :=
    ⟨default_defaultParam _, h₀.exec fun v => defined_ok (g v)⟩
  have hs₁ : Sound s₁ := hs₀.exec (takeInputs_secure x.checked) h₁
  have hs₂ : Sound s₂ := hs₁.exec (deduceInputs_secure m.checked) h₂
  have hs₃ : Sound s₃ := hs₂.exec (inlet_secure m.checked) h₃
  have hs₄ : Sound s₄ :=
    hs₃.exec (engineThermo_secure engine m) ((engineThermo_eq engine m s₃).2 h₄)
  rw [(engineThermo_eq engine m _).1] at h₅ h₆ h₇ h₈
  have hs₅ : Sound s₅ := hs₄.exec (nozzle_secure m.checked) h₅
  have hs₆ : Sound s₆ := hs₅.exec (getGeo_secure m.checked engine) h₆
  have hs₇ : Sound s₇ := hs₆.exec (thrust_secure m.checked engine) h₇
  exact ⟨hs₁, hs₂, hs₃, hs₄, hs₅, hs₆, hs₇, h₈.exec hs₇.defined⟩

/-- The throttle is that of the reading until the burner takes it. -/
theorem throtl_kept (m : Utilities K) (x : Reading K) (g : Var → K) :
    exec (inlet m.checked) (exec (deduceInputs m.checked) (readingStart x g)) .throtl =
      ok x.throtl :=
  (exec_frame _ (of_decide_eq_true rfl)).trans (exec_frame _ (of_decide_eq_true rfl))

/-- At the throttle zero the temperature of station 4 is zero, and that of station 5 is divided by
it. -/
theorem not_noZeroDivisor_of_throtl_zero (engine : Engine) (m : Utilities K) {x : Reading K}
    (hx : x.throtl = 0) : ¬NoZeroDivisor engine m x := by
  intro h
  obtain ⟨-, -, hs₃, hs₄, -⟩ := stages_sound (h fun _ => 0).1
  have hthrotl := throtl_kept m x fun _ => 0
  have hstation : ∀ s : Var → Checked K,
      exec (engineThermo engine m) s (.tt 4) = s .tt4 * s .throtl / 100.0 ∧
        exec (engineThermo engine m) s (.trat 5) =
          exec (engineThermo engine m) s (.tt 5) / exec (engineThermo engine m) s (.tt 4) := by
    intro s
    cases engine with
    | turbojet | afterburner =>
      obtain ⟨-, -, -, -, ett4, -, etrat5⟩ := turbojet_equations m.checked s
      exact ⟨ett4, etrat5⟩
    | turbofan =>
      obtain ⟨-, -, -, -, -, -, -, -, -, ett4, -, etrat5⟩ := turbofan_equations m.checked s
      exact ⟨ett4, etrat5⟩
  obtain ⟨ett4, etrat5⟩ := hstation (exec (inlet m.checked) (exec (deduceInputs m.checked)
    (readingStart x fun _ => 0)))
  have htt4 := hs₃.default .tt4
  rw [show _ = (2500 : Checked K) from htt4, hthrotl, hx, ofNat_eq, ofScientific_eq, ok_mul_ok,
    ok_div_ok (by norm_num), mul_zero, zero_div] at ett4
  obtain ⟨a, ha⟩ := hs₄.value (.trat 5)
  rw [ha, ett4, div_zero_eq] at etrat5
  cases etrat5

/-- The temperature in front of the compressor that is heated by the ratio `P`. -/
def Engine.heats (engine : Engine) (θ P : K) : K :=
  match engine with
  | .turbojet | .afterburner => θ * P
  | .turbofan => θ * 0.9 * P

/-- What the engine's part of `getThermo` gives: a burner that adds no heat, and for a turbofan the
pressure behind the fan. -/
theorem engineThermo_values {engine : Engine} {θ T q : K} (hm : Rigged S P m) (hT : 0 < T)
    (hheats : engine.heats θ P = 25 * T) (h : Sound s)
    (ht : ∀ v, (exec (engineThermo engine m) s v).Defined) (htt2 : s (.tt 2) = ok θ)
    (heta3 : s (.eta 3) = ok 1.0) (hthrotl : s .throtl = ok T) (hpt2 : s (.pt 2) = ok q) :
    exec (engineThermo engine m) s (.trat 4) = ok 1 ∧
      (engine.number = 3 → exec (engineThermo engine m) s (.pt 13) = ok (q * 2.0)) := by
  cases engine with
  | turbojet | afterburner =>
    refine ⟨turbojet_values hm hT hheats h ht htt2 heta3 hthrotl, fun hn => ?_⟩
    cases hn
  | turbofan =>
    obtain ⟨htrat4, hpt13⟩ := turbofan_values hm hT hheats h ht htt2 heta3 hthrotl hpt2
    exact ⟨htrat4, fun _ => hpt13⟩

theorem engineThermo_frame (engine : Engine) (m : Utilities K) (s : Var → Checked K) :
    ∀ v ∈ [Var.trat 7, .u0, .ps0], exec (engineThermo engine m) s v = s v := by
  intro v hv
  apply exec_frame
  cases engine with
  | turbojet | afterburner =>
    exact (of_decide_eq_true rfl :
      ∀ v ∈ [Var.trat 7, .u0, .ps0], v ∉ writes (turbojet m.checked)) v hv
  | turbofan =>
    exact (of_decide_eq_true rfl :
      ∀ v ∈ [Var.trat 7, .u0, .ps0], v ∉ writes (turbofan m.checked)) v hv

/-- With functions for which the compressor heats the air to the temperature of the burner, the
specific impulse is divided by zero. -/
theorem rigged_divides {engine : Engine} {x : Reading K} (hm : Rigged S P m) (hS : 0 < S)
    (hP : 0 < P) (hu : 0 ≤ speed x.u0d) (hlt : speed x.u0d < S) (hT : 0 < x.throtl)
    (hheats : engine.heats (stagnation x.altd (speed x.u0d / S)) P = 25 * x.throtl) :
    ¬NoZeroDivisor engine m x := by
  intro h
  obtain ⟨hs₁, hs₂, hs₃, hs₄, hs₅, hs₆, hs₇, hs₈⟩ := stages_sound (h fun _ => 0).1
  have hthrotl := throtl_kept m x fun _ => 0
  obtain ⟨hu0, hmach, htt0, p, hp, hps0, hpt0⟩ :=
    deduceInputs_values hm hS hP hu hlt hs₁ rfl rfl
  generalize exec (deduceInputs m.checked) _ = s₂ at *
  -- the inlet
  have hvalues := inlet_values (m := m) ((div_lt_one hS).mpr hlt) hs₂ hmach htt0 hpt0
  obtain ⟨htt2, heta3, htrat7, hpt2⟩ := hvalues
  have hu0 : exec (inlet m.checked) s₂ .u0 = ok _ :=
    (exec_frame s₂ (of_decide_eq_true rfl)).trans hu0
  have hps0 : exec (inlet m.checked) s₂ .ps0 = ok _ :=
    (exec_frame s₂ (of_decide_eq_true rfl)).trans hps0
  generalize exec (inlet m.checked) _ = s₃ at *
  -- the engine
  obtain ⟨htrat4, hpt13⟩ :=
    engineThermo_values hm hT hheats hs₃ hs₄.defined htt2 heta3 hthrotl hpt2
  have hu0 := (engineThermo_frame engine m s₃ _ (by decide)).trans hu0
  have hps0 := (engineThermo_frame engine m s₃ _ (by decide)).trans hps0
  have htrat7 := (engineThermo_frame engine m s₃ _ (by decide)).trans htrat7
  generalize exec (engineThermo engine m) _ = s₄ at *
  -- the nozzle and the geometry
  have hoff : ¬0 < s₄ .abflag := by
    rw [show s₄ .abflag = 0 from hs₄.default .abflag]
    exact lt_irrefl _
  have htrat7 := (getGeo_frame m.checked engine _ _ (by decide)).trans
    ((nozzle_trat7 m.checked s₄ hoff).trans htrat7)
  have hkept (v : Var) (hv : v ∈ [Var.trat 4, .u0, .ps0, .pt 13]) :
      exec (getGeo m.checked engine) (exec (nozzle m.checked) s₄) v = s₄ v :=
    (getGeo_frame m.checked engine _ v (List.mem_cons_of_mem _ hv)).trans
      (nozzle_frame m.checked s₄ v hv)
  have htrat4 := (hkept _ (by decide)).trans htrat4
  have hu0 := (hkept _ (by decide)).trans hu0
  have hps0 := (hkept _ (by decide)).trans hps0
  have hpt13 (hn : engine.number = 3) := (hkept _ (by decide)).trans (hpt13 hn)
  generalize exec (getGeo m.checked engine) _ = s₆ at *
  -- the thrust
  have hthrust : ∃ k, 0 < k ∧ exec (thrust m.checked engine) s₆ .fnet = ok k := by
    by_cases hn : engine.number = 3
    · exact fanThrust_pos hn hm hS hP hs₆ hs₇.defined hp hps0 (hpt13 hn) hu0 hlt
    · exact thrust_pos hn hm hS hP hs₆ hs₇.defined hp hps0 hu0 hlt
  obtain ⟨k, hk, hfnet⟩ := hthrust
  have htrat4 := (thrust_frame m.checked engine s₆ _ (by decide)).trans htrat4
  have htrat7 := (thrust_frame m.checked engine s₆ _ (by decide)).trans htrat7
  -- the fuel
  obtain ⟨a, hfa⟩ := hs₈ .fa
  have ha := fa_eq_zero hk hfnet htrat4 htrat7 hfa
  exact isp_undefined hs₇.defined hk hfnet hfa ha.le (hs₈ .isp)

/-- The functions are positive on positive arguments. -/
structure PositiveOnPositive (sqroot : K → K) (fpow : K → K → K) (expo : K → K) : Prop where
  sqroot_pos : ∀ a, 0 < a → 0 < sqroot a
  fpow_pos : ∀ a b, 0 < a → 0 < fpow a b
  expo_pos : ∀ a, 0 < a → 0 < expo a

/-- The ratio that takes the air to the temperature of the burner. -/
def Engine.ratio (engine : Engine) (θ T : K) : K :=
  match engine with
  | .turbojet | .afterburner => 25 * T / θ
  | .turbofan => 25 * T / (θ * 0.9)

theorem Engine.ratio_pos (engine : Engine) {θ T : K} (hθ : 0 < θ) (hT : 0 < T) :
    0 < engine.ratio θ T := by
  cases engine <;> exact div_pos (mul_pos (by norm_num) hT) (by positivity)

theorem Engine.heats_ratio (engine : Engine) {θ : K} (hθ : 0 < θ) (T : K) :
    engine.heats θ (engine.ratio θ T) = 25 * T := by
  cases engine <;> exact mul_div_cancel₀ _ (by positivity)

/-- **Every reading meets a zero divisor.** For each engine and every reading, at any altitude,
there are functions `sqroot`, `fpow` and `expo`, positive on positive arguments, with which a
divisor of the reading is zero, whatever the other utilities are; and at the throttle zero so it is
with any functions. -/
theorem divisor_zero (engine : Engine) (x : Reading K) (hu0d : 0 ≤ x.u0d)
    (hthrotl : 0 ≤ x.throtl) :
    (∃ sqroot fpow expo, PositiveOnPositive sqroot fpow expo ∧
      ∀ getMach getRayleighLoss toInt,
        ¬NoZeroDivisor engine ⟨sqroot, fpow, expo, getMach, getRayleighLoss, toInt⟩ x) ∧
      (x.throtl = 0 → ∀ m, ¬NoZeroDivisor engine m x) := by
  refine ⟨?_, fun hzero m => not_noZeroDivisor_of_throtl_zero engine m hzero⟩
  have hu : 0 ≤ speed x.u0d := div_nonneg (mul_nonneg hu0d (by norm_num)) (by norm_num)
  have hS : 0 < speed x.u0d + 1 := by linarith
  have hθ := stagnation_pos x.altd (speed x.u0d / (speed x.u0d + 1))
  rcases hthrotl.eq_or_lt with hzero | hT
  · refine ⟨fun _ => 1, fun _ _ => 1, fun _ => 1, ⟨fun _ _ => one_pos, fun _ _ _ => one_pos,
      fun _ _ => one_pos⟩, fun _ _ _ => ?_⟩
    exact not_noZeroDivisor_of_throtl_zero engine _ hzero.symm
  · let P := engine.ratio (stagnation x.altd (speed x.u0d / (speed x.u0d + 1))) x.throtl
    have hP : 0 < P := engine.ratio_pos hθ hT
    refine ⟨fun _ => speed x.u0d + 1, fun a _ => if a = 8 then P else 0.9, fun _ => 1,
      ⟨fun _ _ => hS, fun a _ _ => ?_, fun _ _ => one_pos⟩, fun _ _ _ => ?_⟩
    · split
      · exact hP
      · norm_num
    · exact rigged_divides ⟨fun _ => rfl, fun _ _ => rfl, fun _ => rfl⟩ hS hP hu (lt_add_one _) hT
        (engine.heats_ratio hθ x.throtl)

/-- A reading at full throttle on the ground. -/
theorem divisor_zero_full_throttle :
    ∃ sqroot fpow expo, PositiveOnPositive sqroot fpow expo ∧
      ∀ getMach getRayleighLoss toInt,
        ¬NoZeroDivisor (K := ℚ) .turbofan ⟨sqroot, fpow, expo, getMach, getRayleighLoss, toInt⟩
          ⟨0, 0, 100⟩ :=
  (divisor_zero .turbofan ⟨0, 0, 100⟩ (by norm_num) (by norm_num)).1

/-- The arrays hold zeros before the first samples: with the readings zero, functions that are
positive everywhere do not help. -/
theorem zero_reading_divides :
    PositiveOnPositive (K := ℚ) (fun _ => 1) (fun _ _ => 1) (fun _ => 1) ∧
      ¬NoZeroDivisor (K := ℚ) .turbojet
        ⟨fun _ => 1, fun _ _ => 1, fun _ => 1, fun _ _ _ => 1, fun _ _ _ => 1, fun a => a⟩
        ⟨0, 0, 0⟩ :=
  ⟨⟨fun _ _ => one_pos, fun _ _ _ => one_pos, fun _ _ => one_pos⟩,
    not_noZeroDivisor_of_throtl_zero .turbojet _ rfl⟩

end OsesProject
