import OsesProject.Lib.Run
import OsesProject.Application.Procedure
import OsesProject.Peripherals.Mpu6050

/-!
# The readings of the producer and the snapshots of the consumer

`producer_entry` and the reading part of `init_xeno`, critical section by critical section of
`raw_mutex`. What an iteration gets from the sensors is its `Outcome`: which transfers on the bus
return the number of their messages, and what the buffers hold after them, whether they do or not.

`mpu6050_read_raw` prints that a transfer has failed and goes on with the buffer, a local array that
nothing initialises. `BMP280_Read_UTP` answers a failed transfer with the values for no data, and
the producer stores no pressure then; acceleration and rotation are stored by that time. Its
temperature is used by nobody and is left out.

A value in the arrays has with it where it comes from, which no function reads: it is the initial
zero, or it was measured in an iteration, or it was made of a buffer no sensor has filled.
-/

namespace OsesProject

/-- What an iteration of the producer gets from the sensors. -/
structure Outcome where
  /-- the transfers of `mpu6050_read_raw` for the acceleration -/
  accWrite : Bool
  accRead : Bool
  accBuffer : Fin 6 → UInt8
  /-- the transfers of `mpu6050_read_raw` for the rotation -/
  gyroWrite : Bool
  gyroRead : Bool
  gyroBuffer : Fin 6 → UInt8
  /-- the transfer of `BMP280_Read_UTP` -/
  baroRead : Bool
  baroBuffer : Fin 8 → UInt8

/-- `mpu6050_read_raw`: the acceleration and the rotation. -/
def mpu6050ReadRaw (o : Outcome) : (Fin 3 → Int) × (Fin 3 → Int) :=
  (Mpu6050.axes (List.ofFn o.accBuffer), Mpu6050.axes (List.ofFn o.gyroBuffer))

/-- `BMP280_NO_TEMPERATURE` and `BMP280_NO_PRESSURE`. -/
def bmp280NoData : Nat := 0x80000

/-- `(buf[0] << 12) | (buf[1] << 4) | (buf[2] >> 4)`. -/
def raw20 (msb lsb xlsb : UInt8) : Nat :=
  msb.toNat * 2 ^ 12 + lsb.toNat * 2 ^ 4 + xlsb.toNat / 2 ^ 4

/-- `BMP280_Read_UTP`: `UT` and `UP`. -/
def bmp280ReadUTP (o : Outcome) : Nat × Nat :=
  if o.baroRead then
    (raw20 (o.baroBuffer 3) (o.baroBuffer 4) (o.baroBuffer 5),
      raw20 (o.baroBuffer 0) (o.baroBuffer 1) (o.baroBuffer 2))
  else
    (bmp280NoData, bmp280NoData)

/-- The arithmetic of the readings: `sqroot` of an integer made a float, and `BMP280_CalcPf`. -/
structure SensorMath (F : Type) where
  sqroot : Int → F
  bmp280CalcPf : Nat → F

/-- The modulus of a vector: `sqroot((float)(v[0] * v[0] + v[1] * v[1] + v[2] * v[2]))`. -/
def SensorMath.modulus {F : Type} (f : SensorMath F) (v : Fin 3 → Int) : F :=
  f.sqroot (v 0 * v 0 + v 1 * v 1 + v 2 * v 2)

/-- The value of an `int` expression; `none` when it does not fit, which the language leaves
undefined. -/
def int32 (x : Int) : Option Int := if -0x80000000 ≤ x ∧ x ≤ 0x7FFFFFFF then some x else none

theorem int32_eq_some_iff {n m : Int} :
    int32 n = some m ↔ (-0x80000000 ≤ n ∧ n ≤ 0x7FFFFFFF) ∧ m = n := by
  rw [int32]
  split
  · next h => simp [h, eq_comm]
  · next h => simp [h]

/-- `v[0] * v[0] + v[1] * v[1] + v[2] * v[2]`, the argument of `sqroot`, as the `int` expression it
is. -/
def sumOfSquares (v : Fin 3 → Int) : Option Int := do
  let x ← int32 (v 0 * v 0)
  let y ← int32 (v 1 * v 1)
  let xy ← int32 (x + y)
  let z ← int32 (v 2 * v 2)
  int32 (xy + z)

/-- Where a value comes from. -/
inductive Provenance
  | initial
  | measured (iteration : Nat)
  | unmeasured
  deriving DecidableEq, Repr

/-- A value with its provenance. -/
structure Stamped (F : Type) where
  value : F
  provenance : Provenance

/-- The arrays, and the globals of the snapshot. -/
structure Sampling (F : Type) where
  /-- the outcomes of the iterations, the last one first -/
  history : List Outcome
  accV : Nat → Stamped F
  baroV : Nat → Stamped F
  gyroV : Nat → Stamped F
  /-- how many snapshots there have been -/
  snapshots : Nat
  u0d : Stamped F
  altd : Stamped F
  throtl : Stamped F

/-- A critical section of the producer or of the consumer. -/
inductive SamplingEvent
  | produce (o : Outcome)
  | snapshot

namespace Sampling

variable {F : Type}

/-- Static objects are zero. -/
def start [Zero F] : Sampling F where
  history := []
  accV := fun _ => ⟨0, .initial⟩
  baroV := fun _ => ⟨0, .initial⟩
  gyroV := fun _ => ⟨0, .initial⟩
  snapshots := 0
  u0d := ⟨0, .initial⟩
  altd := ⟨0, .initial⟩
  throtl := ⟨0, .initial⟩

/-- `curr_read` of the next iteration. -/
def currRead (s : Sampling F) : Nat := s.history.length % numReadings

/-- `i` of the next snapshot. -/
def index (s : Sampling F) : Nat := s.snapshots % numReadings

/-- One iteration of `producer_entry` inside `raw_mutex`. -/
def produce (f : SensorMath F) (s : Sampling F) (o : Outcome) : Sampling F :=
  let n := s.history.length
  let stamp (ok : Bool) : Provenance := if ok then .measured n else .unmeasured
  let (acc, gyro) := mpu6050ReadRaw o
  let accV := Function.update s.accV s.currRead
    ⟨f.modulus acc, stamp (o.accWrite && o.accRead)⟩
  let gyroV := Function.update s.gyroV s.currRead
    ⟨f.modulus gyro, stamp (o.gyroWrite && o.gyroRead)⟩
  let (UT, UP) := bmp280ReadUTP o
  let baroV :=
    if UT = bmp280NoData then
      s.baroV
    else if UP = bmp280NoData then
      s.baroV
    else
      Function.update s.baroV s.currRead ⟨f.bmp280CalcPf UP, .measured n⟩
  { s with history := o :: s.history, accV := accV, gyroV := gyroV, baroV := baroV }

/-- The snapshot of `init_xeno` inside `raw_mutex`. -/
def snapshot (s : Sampling F) : Sampling F :=
  { s with
    u0d := s.accV s.index
    altd := s.baroV s.index
    throtl := s.gyroV s.index
    snapshots := s.snapshots + 1 }

/-- One critical section. -/
def step (f : SensorMath F) (s : Sampling F) : SamplingEvent → Option (Sampling F)
  | .produce o => some (s.produce f o)
  | .snapshot => some s.snapshot

end Sampling

end OsesProject
