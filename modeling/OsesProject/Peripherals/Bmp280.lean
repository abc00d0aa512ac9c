import OsesProject.Peripherals.I2c
import Mathlib.Algebra.Field.Rat

/-!
# The barometer

`BMP280.c`: the setters of the five fields of `ctrl_meas` and `config`, and the formulas of the
temperature and the pressure.

A setter reads the register, replaces the bits of its field and writes the register back.
`__reg_read` gives what its variable holds after the transfer, which is the zero it began with when
no byte has come; its callers are not told.

The formulas are those of `BMP280_CALC_TYPE` 2, in rational numbers. `BMP280_CalcTf` leaves the fine
temperature in `t_fine_f`, where `BMP280_CalcPf` takes it from.
-/

namespace OsesProject

/-! ## The registers -/

/-- `__reg_write`: a failure is printed. -/
def regWrite (d : RegisterFile) (reg value : UInt8) (fate : Fate) : RegisterFile :=
  (i2cBitXfer d [(⟨.wr, [reg, value]⟩, fate)]).1

/-- `__reg_read`: `value` after the transfer, whatever has become of it. -/
def regRead (d : RegisterFile) (reg : UInt8) (address byte : Fate) : RegisterFile × UInt8 :=
  let (d, bufs, _) := i2cBitXfer d [(⟨.wr, [reg]⟩, address), (⟨.rd, [0]⟩, byte)]
  match bufs with
  | [_, [value]] => (d, value)
  | _ => (d, 0)

/-- `BMP280_REG_CTRL_MEAS`. -/
def bmp280RegCtrlMeas : UInt8 := 0xF4

/-- `BMP280_REG_CONFIG`. -/
def bmp280RegConfig : UInt8 := 0xF5

/-- `BMP280_OSRS_T_MSK`. -/
def bmp280OsrsTMsk : UInt8 := 0xE0

/-- `BMP280_OSRS_P_MSK`. -/
def bmp280OsrsPMsk : UInt8 := 0x1C

/-- `BMP280_MODE_MSK`. -/
def bmp280ModeMsk : UInt8 := 0x03

/-- `BMP280_STBY_MSK`. -/
def bmp280StbyMsk : UInt8 := 0xE0

/-- `BMP280_FILTER_MSK`. -/
def bmp280FilterMsk : UInt8 := 0x1C

/-- What becomes of the messages of a setter: the two of its reading and that of its writing. -/
structure SetterFates where
  address : Fate
  byte : Fate
  write : Fate
  deriving DecidableEq, Repr

/-- What the setters share: the bits of `mask` in `reg`. -/
def setField (reg mask : UInt8) (d : RegisterFile) (arg : UInt8) (fates : SetterFates) :
    RegisterFile :=
  let arg := arg &&& mask
  let (d, value) := regRead d reg fates.address fates.byte
  regWrite d reg ((value &&& ~~~mask) ||| arg) fates.write

/-- `BMP280_SetMode`. -/
def bmp280SetMode : RegisterFile → UInt8 → SetterFates → RegisterFile :=
  setField bmp280RegCtrlMeas bmp280ModeMsk

/-- `BMP280_SetFilter`. -/
def bmp280SetFilter : RegisterFile → UInt8 → SetterFates → RegisterFile :=
  setField bmp280RegConfig bmp280FilterMsk

/-- `BMP280_SetStandby`. -/
def bmp280SetStandby : RegisterFile → UInt8 → SetterFates → RegisterFile :=
  setField bmp280RegConfig bmp280StbyMsk

/-- `BMP280_SetOSRST`. -/
def bmp280SetOSRST : RegisterFile → UInt8 → SetterFates → RegisterFile :=
  setField bmp280RegCtrlMeas bmp280OsrsTMsk

/-- `BMP280_SetOSRSP`. -/
def bmp280SetOSRSP : RegisterFile → UInt8 → SetterFates → RegisterFile :=
  setField bmp280RegCtrlMeas bmp280OsrsPMsk

/-- The five setters. -/
inductive Setter
  | mode
  | filter
  | standby
  | osrst
  | osrsp
  deriving DecidableEq, Repr

namespace Setter

/-- The register of the field. -/
def reg : Setter → UInt8
  | mode | osrst | osrsp => bmp280RegCtrlMeas
  | filter | standby => bmp280RegConfig

/-- The bits of the field. -/
def mask : Setter → UInt8
  | mode => bmp280ModeMsk
  | filter => bmp280FilterMsk
  | standby => bmp280StbyMsk
  | osrst => bmp280OsrsTMsk
  | osrsp => bmp280OsrsPMsk

/-- The function. -/
def set : Setter → RegisterFile → UInt8 → SetterFates → RegisterFile
  | mode => bmp280SetMode
  | filter => bmp280SetFilter
  | standby => bmp280SetStandby
  | osrst => bmp280SetOSRST
  | osrsp => bmp280SetOSRSP

end Setter

/-- A call of a setter, with what becomes of its messages. -/
structure SetterCall where
  setter : Setter
  arg : UInt8
  fates : SetterFates
  deriving DecidableEq, Repr

/-- One call. -/
def SetterCall.step (d : RegisterFile) (c : SetterCall) : Option RegisterFile :=
  some (c.setter.set d c.arg c.fates)

/-! ## The formulas -/

/-- `struct BMP280_cal_param_t`. -/
structure CalParam where
  digT1 : UInt16
  digT2 : Int16
  digT3 : Int16
  digP1 : UInt16
  digP2 : Int16
  digP3 : Int16
  digP4 : Int16
  digP5 : Int16
  digP6 : Int16
  digP7 : Int16
  digP8 : Int16
  digP9 : Int16

/-- An `int16_t` made a float. -/
def float16 (x : Int16) : ℚ := x.toInt

/-- A `uint16_t` made a float. -/
def floatU16 (x : UInt16) : ℚ := x.toNat

/-- `BMP280_CalcTf`: the temperature, and `t_fine_f` after the call. -/
def bmp280CalcTf (cal : CalParam) (UT : Nat) : ℚ × ℚ :=
  let vX1 := ((UT : ℚ) / 16384 - floatU16 cal.digT1 / 1024) * float16 cal.digT2
  let vX2 := (UT : ℚ) / 131072 - floatU16 cal.digT1 / 8192
  let vX2 := (vX2 * vX2) * float16 cal.digT3
  let tFineF := vX1 + vX2
  ((vX1 + vX2) / 5120, tFineF)

/-- `BMP280_CalcPf` with `t_fine_f`. `toUInt32` is the conversion of a float to `rt_uint32_t`, which
the language leaves open for the numbers that do not fit. -/
def bmp280CalcPf (toUInt32 : ℚ → UInt32) (cal : CalParam) (tFineF : ℚ) (UP : Nat) : ℚ :=
  let vX1 := tFineF / 2 - 64000
  let vX2 := vX1 * vX1 * float16 cal.digP6 / 32768
  let vX2 := vX2 + vX1 * float16 cal.digP5 * 2
  let vX2 := vX2 / 4 + float16 cal.digP4 * 65536
  let vX1 := (float16 cal.digP3 * vX1 * vX1 / 524288 + float16 cal.digP2 * vX1) / 524288
  let vX1 := (1 + vX1 / 32768) * floatU16 cal.digP1
  let p := 1048576 - (UP : ℚ)
  if toUInt32 vX1 = 0 then
    0
  else
    let p := (p - vX2 / 4096) * 6250 / vX1
    let vX1 := float16 cal.digP9 * p * p / 2147483648
    let vX2 := p * float16 cal.digP8 / 32768
    p + (vX1 + vX2 + float16 cal.digP7) / 16

end OsesProject
