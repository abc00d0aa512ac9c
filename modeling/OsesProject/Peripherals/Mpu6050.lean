import OsesProject.Peripherals.I2c

/-!
# The motion sensor

`mpu6050_read_raw` with its transfers. It has one buffer of six bytes on the stack, which nothing
initialises: the number of a register is put into its first byte and written to the sensor, and the
answer is read into the same bytes, three times over. A transfer that fails is printed, and the
buffer is decoded as it is.
-/

namespace OsesProject.Mpu6050

/-- What becomes of the six transfers. -/
structure RawFates where
  accWrite : Fate
  accRead : Fate
  gyroWrite : Fate
  gyroRead : Fate
  tempWrite : Fate
  tempRead : Fate
  deriving DecidableEq, Repr

/-- The outputs of `mpu6050_read_raw`. -/
structure Motion where
  accel : Fin 3 → Int
  gyro : Fin 3 → Int
  temp : Int

/-- Two bytes: `high << 8 | low` as an `int16_t`. -/
def int16 (high low : UInt8) : Int := Int.bmod (high.toNat * 256 + low.toNat) (2 ^ 16)

/-- The three axes of a buffer: `msgs.buf[i * 2] << 8 | msgs.buf[(i * 2) + 1]`. -/
def axes (buffer : List UInt8) (i : Fin 3) : Int :=
  int16 (buffer.getD (i * 2) 0) (buffer.getD (i * 2 + 1) 0)

/-- The number of a register written from the buffer, and `len` bytes read into it. -/
def readRegisters (reg : UInt8) (len : Nat) (d : RegisterFile) (buffer : List UInt8)
    (write read : Fate) : RegisterFile × List UInt8 :=
  let buffer := buffer.set 0 reg
  let (d, _, _) := i2cBitXfer d [(⟨.wr, buffer.take 1⟩, write)]
  let (d, bufs, _) := i2cBitXfer d [(⟨.rd, buffer.take len⟩, read)]
  (d, bufs.flatten ++ buffer.drop len)

/-- The sensor and the buffer when the acceleration is decoded. -/
def accelBuffer (d : RegisterFile) (buffer : List UInt8) (t : RawFates) :
    RegisterFile × List UInt8 :=
  readRegisters 0x3B 6 d buffer t.accWrite t.accRead

/-- The sensor and the buffer when the rotation is decoded. -/
def gyroBuffer (d : RegisterFile) (buffer : List UInt8) (t : RawFates) :
    RegisterFile × List UInt8 :=
  let (d, buffer) := accelBuffer d buffer t
  readRegisters 0x43 6 d buffer t.gyroWrite t.gyroRead

/-- The sensor and the buffer when the temperature is decoded. -/
def tempBuffer (d : RegisterFile) (buffer : List UInt8) (t : RawFates) :
    RegisterFile × List UInt8 :=
  let (d, buffer) := gyroBuffer d buffer t
  readRegisters 0x41 2 d buffer t.tempWrite t.tempRead

/-- `mpu6050_read_raw`. -/
def readRaw (d : RegisterFile) (buffer : List UInt8) (t : RawFates) : Motion where
  accel := axes (accelBuffer d buffer t).2
  gyro := axes (gyroBuffer d buffer t).2
  temp := int16 ((tempBuffer d buffer t).2.getD 0 0) ((tempBuffer d buffer t).2.getD 1 0)

end OsesProject.Mpu6050
