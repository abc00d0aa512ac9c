import OsesProject.Laws.Sampling
import OsesProject.Application.Producer
import Mathlib.Tactic.Ring
import Mathlib.Tactic.LinearCombination
import Mathlib.Data.Rat.Floor

/-!
# Which pressures are compensated

The fine temperature of the driver is zero in every state of every run, since no critical section
changes it (`step_tFineF`). So the pressure stored is the formula with zero in place of the fine
temperature, and it is that of the iteration's own temperature exactly when the two agree
(`pressures_compensated_iff`).

They agree when the fine temperature of the iteration is zero (`compensated_of_fine_zero`).
Otherwise they agree only by the numbers of the calibration: the formula depends on the fine
temperature through a divisor and a quotient, of which the pressure is a quadratic function, and the
two pressures are equal when the quotients are, or when they are the two places where that function
has one value.
-/

namespace OsesProject

open Machine

variable {k : Calibrated} {s s' : Producer}

/-! ## The formula -/

/-- `v_x1` when it is tested: what the formula divides by. -/
def divisor (cal : CalParam) (tFineF : ℚ) : ℚ :=
  let x := tFineF / 2 - 64000
  (1 + (float16 cal.digP3 * x * x / 524288 + float16 cal.digP2 * x) / 524288 / 32768) *
    floatU16 cal.digP1

/-- `p` after the division. -/
def quotient (cal : CalParam) (tFineF : ℚ) (UP : Nat) : ℚ :=
  let x := tFineF / 2 - 64000
  let y := (x * x * float16 cal.digP6 / 32768 + x * float16 cal.digP5 * 2) / 4 +
    float16 cal.digP4 * 65536
  (1048576 - (UP : ℚ) - y / 4096) * 6250 / divisor cal tFineF

/-- The pressure of a quotient. -/
def polish (cal : CalParam) (q : ℚ) : ℚ :=
  q + (float16 cal.digP9 * q * q / 2147483648 + q * float16 cal.digP8 / 32768 +
    float16 cal.digP7) / 16

theorem bmp280CalcPf_eq (toUInt32 : ℚ → UInt32) (cal : CalParam) (tFineF : ℚ) (UP : Nat) :
    bmp280CalcPf toUInt32 cal tFineF UP =
      if toUInt32 (divisor cal tFineF) = 0 then 0 else polish cal (quotient cal tFineF UP) := rfl

/-- Two quotients of one pressure. -/
def SamePressure (cal : CalParam) (q r : ℚ) : Prop :=
  q = r ∨ 2 ^ 35 + 2 ^ 16 * float16 cal.digP8 + float16 cal.digP9 * (q + r) = 0

theorem polish_eq_iff (cal : CalParam) (q r : ℚ) :
    polish cal q = polish cal r ↔ SamePressure cal q r := by
  have hfactor : polish cal q - polish cal r =
      (q - r) * (2 ^ 35 + 2 ^ 16 * float16 cal.digP8 + float16 cal.digP9 * (q + r)) / 2 ^ 35 := by
    rw [polish, polish]
    ring
  rw [← sub_eq_zero, hfactor, div_eq_zero_iff, mul_eq_zero, sub_eq_zero, SamePressure]
  exact or_iff_left (by norm_num)

/-- The readings for which the fine temperature makes no difference: it is zero
(`unaffected_of_fine_zero`), or the formula happens to have one value at zero and at it. -/
def Unaffected (k : Calibrated) (UT UP : Nat) : Prop :=
  let fine := (bmp280CalcTf k.cal UT).2
  if k.toUInt32 (divisor k.cal 0) = 0 then
    k.toUInt32 (divisor k.cal fine) = 0 ∨ polish k.cal (quotient k.cal fine UP) = 0
  else if k.toUInt32 (divisor k.cal fine) = 0 then
    polish k.cal (quotient k.cal 0 UP) = 0
  else
    SamePressure k.cal (quotient k.cal 0 UP) (quotient k.cal fine UP)

/-- The formula with zero is the formula with the fine temperature of the readings. -/
theorem calcPf_zero_eq_iff (k : Calibrated) (UT UP : Nat) :
    bmp280CalcPf k.toUInt32 k.cal 0 UP =
      bmp280CalcPf k.toUInt32 k.cal (bmp280CalcTf k.cal UT).2 UP ↔ Unaffected k UT UP := by
  rw [bmp280CalcPf_eq, bmp280CalcPf_eq, Unaffected]
  split
  · split
    · next hfine => exact ⟨fun _ => .inl hfine, fun _ => rfl⟩
    · next hfine => exact ⟨fun h => .inr h.symm, fun h => (h.resolve_left hfine).symm⟩
  · split
    · exact Iff.rfl
    · exact polish_eq_iff _ _ _

/-- Readings whose fine temperature is zero are among them. -/
theorem unaffected_of_fine_zero {UT : Nat} (UP : Nat) (h : (bmp280CalcTf k.cal UT).2 = 0) :
    Unaffected k UT UP := by
  apply (calcPf_zero_eq_iff k UT UP).mp
  rw [h]

/-! ## Runs -/

/-- No critical section changes the fine temperature. -/
theorem step_tFineF {e : SamplingEvent} (hs : s.step k e = some s') : s'.tFineF = s.tFineF := by
  cases e <;> cases hs <;> rfl

/-- The pressure an iteration stores, when the barometer has data, is compensated with the
temperature it has read. -/
def Compensated (k : Calibrated) (s : Producer) (e : SamplingEvent) : Prop :=
  ∀ o s', e = .produce o → s.step k e = some s' →
    (bmp280ReadUTP o).1 ≠ bmp280NoData → (bmp280ReadUTP o).2 ≠ bmp280NoData →
      (s'.sampling.baroV s.sampling.currRead).value =
        bmp280CalcPf k.toUInt32 k.cal (bmp280CalcTf k.cal (bmp280ReadUTP o).1).2
          (bmp280ReadUTP o).2

/-- An iteration with data for which the fine temperature makes no difference. -/
def UnaffectedEvent (k : Calibrated) (e : SamplingEvent) : Prop :=
  ∀ o, e = .produce o →
    (bmp280ReadUTP o).1 ≠ bmp280NoData → (bmp280ReadUTP o).2 ≠ bmp280NoData →
      Unaffected k (bmp280ReadUTP o).1 (bmp280ReadUTP o).2

/-- **One iteration.** -/
theorem compensated_iff (h : s.tFineF = 0) (e : SamplingEvent) :
    Compensated k s e ↔ UnaffectedEvent k e := by
  refine forall_congr' fun o => ?_
  constructor
  · rintro hcomp rfl hUT hUP
    have hstored := hcomp _ rfl rfl hUT hUP
    rw [produce_baroV, if_pos ⟨rfl, hUT, hUP⟩] at hstored
    apply (calcPf_zero_eq_iff k _ _).mp
    rwa [Producer.math, h] at hstored
  · rintro hevent s' rfl hs hUT hUP
    cases hs
    rw [produce_baroV, if_pos ⟨rfl, hUT, hUP⟩, Producer.math, h]
    exact (calcPf_zero_eq_iff k _ _).mpr (hevent rfl hUT hUP)

/-- An iteration whose own fine temperature is zero stores a compensated pressure. -/
theorem compensated_of_fine_zero (h : s.tFineF = 0) {e : SamplingEvent}
    (hfine : ∀ o, e = .produce o → (bmp280CalcTf k.cal (bmp280ReadUTP o).1).2 = 0) :
    Compensated k s e :=
  (compensated_iff h e).mpr fun o he _ _ => unaffected_of_fine_zero _ (hfine o he)

/-- **Which pressures are compensated.** For every calibration and every run of iterations, with any
outcomes of the sensors, and of snapshots: each pressure stored in an iteration with data is that of
the formula with the fine temperature of the iteration's own reading if and only if the readings of
each iteration with data are such that the fine temperature makes no difference. It makes none when
it is zero (`unaffected_of_fine_zero`); when it is not, the two values of the formula have to agree
(`Unaffected`). -/
theorem pressures_compensated_iff (k : Calibrated) (es : List SamplingEvent) :
    Each (Producer.step k) (Compensated k) Producer.start es ↔ ∀ e ∈ es, UnaffectedEvent k e := by
  have hcongr : Each (Producer.step k) (Compensated k) Producer.start es ↔
      Each (Producer.step k) (fun _ => UnaffectedEvent k) Producer.start es :=
    each_congr (I := fun s => s.tFineF = 0) (fun _ _ _ h hs => (step_tFineF hs).trans h)
      (fun _ e h => compensated_iff h e) rfl
  rw [hcongr]
  apply each_iff_forall_mem
  intro s e
  cases e <;> rfl

/-- A calibration, with the conversion of the numbers that fit. -/
def sampleCalibration : Calibrated where
  cal := ⟨27504, 26435, -1000, 36477, -10685, 3024, 2855, 140, -7, 15500, -14600, 6000⟩
  toUInt32 := fun x => UInt32.ofNat ⌊x⌋.toNat
  sqroot := fun x => x

/-- A reading at 25 degrees. -/
def warmReading : Outcome where
  accWrite := true
  accRead := true
  accBuffer := fun _ => 0
  gyroWrite := true
  gyroRead := true
  gyroBuffer := fun _ => 0
  baroRead := true
  baroBuffer := fun i => [0x65, 0x5A, 0xC0, 0x7E, 0xED, 0x00, 0, 0].getD i 0

/-- The first pressure is not compensated: the formula has the fine temperature zero in it. -/
theorem first_pressure_uncompensated :
    ¬Each (Producer.step sampleCalibration) (Compensated sampleCalibration) Producer.start
      [.produce warmReading] := by
  intro h
  have hstored := h.1 _ _ rfl rfl (by decide) (by decide)
  exact absurd hstored (by decide +kernel)

end OsesProject
