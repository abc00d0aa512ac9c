import Mathlib.Logic.Function.Basic
import Mathlib.Algebra.Order.Group.Nat

/-!
# Transfers on the I2C bus

`i2c_bit_xfer` and a slave that is a file of registers, as both sensors are: a message written to it
begins with the number of a register and goes on with the values for that register and the next
ones; a message read from it has the registers from the one it stands at. The number moves on with
each byte.

The line decides what becomes of a message (`Fate`). The driver leaves the loop at the first message
that fails, and the buffers keep what they have received until then. A message written in vain
changes nothing in the slave.
-/

namespace OsesProject

/-- What becomes of a message on the line. It stops when the address is not acknowledged, when a
byte cannot be read or sent, and when the answer to a byte times out. -/
inductive Fate
  | done
  /-- it fails when so many bytes have been received -/
  | stops (received : Nat)
  deriving DecidableEq, Repr

/-- How many bytes of a message of the length `n` have been received. -/
def Fate.received (n : Nat) : Fate → Nat
  | .done => n
  | .stops k => min k n

/-- A slave that is a file of registers. -/
structure RegisterFile where
  regs : UInt8 → UInt8
  /-- the register it stands at -/
  pointer : UInt8

namespace RegisterFile

/-- The bytes of a message that is written. -/
def write (d : RegisterFile) : List UInt8 → RegisterFile
  | [] => d
  | reg :: values =>
    values.foldl
      (fun d value => ⟨Function.update d.regs d.pointer value, d.pointer + 1⟩) ⟨d.regs, reg⟩

/-- The next bytes the slave has for a reader, and the slave after them. -/
def read (d : RegisterFile) : Nat → List UInt8 × RegisterFile
  | 0 => ([], d)
  | n + 1 =>
    let (bytes, d') := (⟨d.regs, d.pointer + 1⟩ : RegisterFile).read n
    (d.regs d.pointer :: bytes, d')

end RegisterFile

/-- `flags` of a message: `RT_I2C_WR` or `RT_I2C_RD`. -/
inductive I2cFlags
  | wr
  | rd
  deriving DecidableEq, Repr

/-- `struct rt_i2c_msg`: the buffer has as many bytes as `len`. -/
structure I2cMsg where
  flags : I2cFlags
  buf : List UInt8

/-- `i2c_recv_bytes`: the bytes received go to the beginning of the buffer. -/
def i2cRecvBytes (d : RegisterFile) (buf : List UInt8) (fate : Fate) :
    RegisterFile × List UInt8 :=
  let k := fate.received buf.length
  let (bytes, d') := d.read k
  (d', bytes ++ buf.drop k)

/-- One turn of the loop of `i2c_bit_xfer`: the slave and the buffer after it. -/
def i2cMessage (d : RegisterFile) (msg : I2cMsg) (fate : Fate) : RegisterFile × List UInt8 :=
  match msg.flags with
  | .rd => i2cRecvBytes d msg.buf fate
  | .wr => (if fate = .done then d.write msg.buf else d, msg.buf)

/-- `i2c_bit_xfer`: the slave, the buffers and whether all messages have passed, which is whether
the result is their number. -/
def i2cBitXfer (d : RegisterFile) : List (I2cMsg × Fate) → RegisterFile × List (List UInt8) × Bool
  | [] => (d, [], true)
  | (msg, fate) :: msgs =>
    let (d, buf) := i2cMessage d msg fate
    if fate = .done then
      let (d, bufs, ok) := i2cBitXfer d msgs
      (d, buf :: bufs, ok)
    else
      (d, buf :: msgs.map fun m => m.1.buf, false)

/-! ## What the slave gives -/

namespace RegisterFile

@[simp] theorem write_one (d : RegisterFile) (reg : UInt8) : d.write [reg] = ⟨d.regs, reg⟩ := rfl

theorem read_fst_length (d : RegisterFile) (n : Nat) : (d.read n).1.length = n := by
  induction n generalizing d with
  | zero => rfl
  | succ n ih =>
    show (((⟨d.regs, d.pointer + 1⟩ : RegisterFile).read n).1).length + 1 = n + 1
    rw [ih]

/-- Reading changes no register, and moves the slave on by a register a byte. -/
theorem read_snd (d : RegisterFile) (n : Nat) :
    (d.read n).2 = ⟨d.regs, d.pointer + UInt8.ofNat n⟩ := by
  induction n generalizing d with
  | zero =>
    show d = ⟨d.regs, d.pointer + 0⟩
    rw [UInt8.add_zero]
  | succ n ih =>
    refine (ih _).trans ?_
    rw [UInt8.add_assoc, Nat.add_comm n 1, UInt8.ofNat_add]
    rfl

/-- The byte `i` of a reading is the register `i` places on. -/
theorem read_get (d : RegisterFile) {n i : Nat} (hi : i < n) :
    (d.read n).1[i]? = some (d.regs (d.pointer + UInt8.ofNat i)) := by
  induction n generalizing d i with
  | zero => exact absurd hi (Nat.not_lt_zero i)
  | succ n ih =>
    cases i with
    | zero =>
      show some (d.regs d.pointer) = _
      rw [show UInt8.ofNat 0 = 0 from rfl, UInt8.add_zero]
    | succ i =>
      refine (ih (⟨d.regs, d.pointer + 1⟩ : RegisterFile) (Nat.lt_of_succ_lt_succ hi)).trans ?_
      rw [UInt8.add_assoc, Nat.add_comm i 1, UInt8.ofNat_add]
      rfl

end RegisterFile

@[simp] theorem Fate.received_le (n : Nat) (fate : Fate) : fate.received n ≤ n := by
  cases fate with
  | done => exact Nat.le_refl n
  | stops k => exact Nat.min_le_right k n

end OsesProject
