import OsesProject.Application.Sampling
import OsesProject.Peripherals.Bmp280

/-!
# The arithmetic of the producer

The critical sections of `Sampling` with the arithmetic of the barometer in rational numbers.
`t_fine_f` is a static variable of `BMP280.c`, zero at the start. `producer_entry` calls
`BMP280_CalcPf` alone; no function of the application calls `BMP280_CalcTf` or `BMP280_CalcT`.
-/

namespace OsesProject

/-- What the formulas are computed with: the calibration, the conversion to `rt_uint32_t`, and
`sqroot`. -/
structure Calibrated where
  cal : CalParam
  toUInt32 : ℚ → UInt32
  sqroot : Int → ℚ

/-- The arrays, and the static variable of the driver. -/
structure Producer where
  sampling : Sampling ℚ
  tFineF : ℚ

namespace Producer

/-- Static objects are zero. -/
def start : Producer := ⟨Sampling.start, 0⟩

/-- The arithmetic of an iteration: `BMP280_CalcPf` takes `t_fine_f` as it is. -/
def math (k : Calibrated) (s : Producer) : SensorMath ℚ :=
  ⟨k.sqroot, bmp280CalcPf k.toUInt32 k.cal s.tFineF⟩

/-- One critical section. -/
def step (k : Calibrated) (s : Producer) : SamplingEvent → Option Producer
  | .produce o => some { s with sampling := s.sampling.produce (s.math k) o }
  | .snapshot => some { s with sampling := s.sampling.snapshot }

end Producer

end OsesProject
