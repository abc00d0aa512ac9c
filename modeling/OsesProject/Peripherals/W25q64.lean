import OsesProject.Lib.NorFlash

/-!
# The flash driver (`w25q64.c`)

The driver over a bus: `bus c msgs` is one call of `rt_spi_transfer_message` with the messages
`msgs`, in the state `c` of whatever is at the other end, with the bytes that end up in the receive
buffers. The functions are the ones of the source, message by message.

`Chip` is what is at the other end: a memory of `2 ^ 23` byte cells in pages of 256. A command is
what is sent while the chip is selected; it takes its three address bytes most significant first and
ignores address bit 23. Programming and erasing need the write enable latch, and have finished
before the next command is sent. `control_pageProgram`, `control_chipErase` and `control_readData`
say what the driver's functions come to on this chip.
-/

namespace OsesProject

/-- The instructions of `w25q64.h`. -/
inductive Instr
  | writeEnable
  | writeDisable
  | readSr1
  | readSr2
  | writeSr
  | pageProgram
  | sectorErase
  | blockErase
  | dblockErase
  | chipErase
  | readData
  | jedecId
  | resetEnable
  | reset
  deriving DecidableEq, Repr

namespace Instr

/-- The byte an instruction is sent as. -/
def opcode : Instr → UInt8
  | writeEnable => 0x06
  | writeDisable => 0x04
  | readSr1 => 0x05
  | readSr2 => 0x35
  | writeSr => 0x01
  | pageProgram => 0x02
  | sectorErase => 0x20
  | blockErase => 0x52
  | dblockErase => 0xd8
  | chipErase => 0x60
  | readData => 0x03
  | jedecId => 0x9f
  | resetEnable => 0x66
  | reset => 0x99

/-- The instruction a byte stands for. -/
def ofOpcode (b : UInt8) : Option Instr :=
  [writeEnable, writeDisable, readSr1, readSr2, writeSr, pageProgram, sectorErase, blockErase,
    dblockErase, chipErase, readData, jedecId, resetEnable, reset].find? fun i => i.opcode = b

@[simp] theorem ofOpcode_opcode (i : Instr) : ofOpcode i.opcode = some i := by
  cases i <;> rfl

end Instr

/-- `struct rt_spi_message`: the bytes of `send_buf`, none when it is null, the number of bytes
for `recv_buf`, and whether the chip is selected before and deselected after. -/
structure SpiMessage where
  send : List UInt8
  recv : Nat
  csTake : Bool
  csRelease : Bool
  deriving DecidableEq, Repr

/-! ## The driver -/

section Driver

variable {σ : Type} (bus : σ → List SpiMessage → σ × List UInt8)

/-- `w25q64_getJEDEC`. -/
def w25q64GetJEDEC (c : σ) : σ × List UInt8 :=
  bus c [⟨[Instr.jedecId.opcode], 0, true, false⟩, ⟨[], 3, false, true⟩]

/-- `w25q64_getSR`. The byte is received into the parameter `data` itself, not into what it points
to, and so the caller gets nothing. -/
def w25q64GetSR (c : σ) (instr : Instr) : σ :=
  (bus c [⟨[instr.opcode], 0, true, false⟩, ⟨[], 1, false, true⟩]).1

/-- `w25q64_writeSR`. -/
def w25q64WriteSR (c : σ) (data : List UInt8) : σ :=
  let c := (bus c [⟨[Instr.writeEnable.opcode], 0, true, true⟩]).1
  let c := (bus c [⟨[Instr.writeSr.opcode], 0, true, false⟩, ⟨data.take 2, 0, false, true⟩]).1
  (bus c [⟨[Instr.writeDisable.opcode], 0, true, true⟩]).1

/-- The loop that waits for the end of an erase, `do { ... } while (buf & 0x1);`, for the first poll
and up to `polls` further ones; `none` when the chip is busy still. -/
def w25q64Wait : Nat → σ → Option σ
  | polls, c =>
    let r := bus c [⟨[Instr.readSr1.opcode], 0, true, false⟩, ⟨[], 1, false, true⟩]
    if r.2.headD 0 &&& 0x1 = 0 then
      some r.1
    else
      match polls with
      | 0 => none
      | polls + 1 => w25q64Wait polls r.1

/-- `w25q64_erase`. -/
def w25q64Erase (polls : Nat) (c : σ) : Option σ :=
  let c := (bus c [⟨[Instr.writeEnable.opcode], 0, true, true⟩]).1
  let c := (bus c [⟨[Instr.chipErase.opcode], 0, true, true⟩]).1
  (w25q64Wait bus polls c).map fun c =>
    (bus c [⟨[Instr.writeDisable.opcode], 0, true, true⟩]).1

/-- `w25q64_erase_part`. The transfer starts with the second message, the address; the instruction
is not sent. -/
def w25q64ErasePart (polls : Nat) (c : σ) (addr : List UInt8) : Option σ :=
  let c := (bus c [⟨[Instr.writeEnable.opcode], 0, true, true⟩]).1
  let c := (bus c [⟨addr, 0, false, true⟩]).1
  (w25q64Wait bus polls c).map fun c =>
    (bus c [⟨[Instr.writeDisable.opcode], 0, true, true⟩]).1

/-- `w25q64_write`. -/
def w25q64Write (c : σ) (addr : List UInt8) (dlen : UInt8) (data : List UInt8) : σ :=
  let c := (bus c [⟨[Instr.writeEnable.opcode], 0, true, true⟩]).1
  let c := (bus c [⟨[Instr.pageProgram.opcode], 0, true, false⟩, ⟨addr, 0, false, false⟩,
    ⟨data.take dlen.toNat, 0, false, true⟩]).1
  (bus c [⟨[Instr.writeDisable.opcode], 0, true, true⟩]).1

/-- `w25q64_read`. -/
def w25q64Read (c : σ) (addr : List UInt8) (dlen : UInt8) : σ × List UInt8 :=
  bus c [⟨[Instr.readData.opcode], 0, true, false⟩, ⟨addr, 0, false, false⟩,
    ⟨[], dlen.toNat, false, true⟩]

/-- `w25q64_reset`. -/
def w25q64Reset (c : σ) : σ :=
  let c := (bus c [⟨[Instr.resetEnable.opcode], 0, true, true⟩]).1
  (bus c [⟨[Instr.reset.opcode], 0, true, true⟩]).1

/-- `w25q64_control`, with what it puts into the caller's buffer. A null `addr` or `data` is the
empty list. -/
def w25q64Control (polls : Nat) (c : σ) (instr : Instr) (addr : List UInt8) (dlen : UInt8)
    (data : List UInt8) : Option (σ × List UInt8) :=
  match instr with
  | .readSr1 | .readSr2 => some (w25q64GetSR bus c instr, [])
  | .writeSr => some (w25q64WriteSR bus c data, [])
  | .pageProgram => some (w25q64Write bus c addr dlen data, [])
  | .sectorErase | .blockErase | .dblockErase =>
    (w25q64ErasePart bus polls c addr).map fun c => (c, [])
  | .chipErase => (w25q64Erase bus polls c).map fun c => (c, [])
  | .readData => some (w25q64Read bus c addr dlen)
  | .jedecId => some (w25q64GetJEDEC bus c)
  | .reset => some (w25q64Reset bus c, [])
  | .writeEnable | .writeDisable | .resetEnable => some (c, [])

end Driver

/-! ## The chip -/

/-- The number of cells of the chip. -/
def chipSize : Nat := 2 ^ 23

/-- The size of a page. -/
def pageSize : Nat := 256

/-- The chip: its cells, and the write enable latch. -/
structure Chip where
  cells : Nat → UInt8
  wel : Bool

namespace Chip

/-- The address three bytes stand for, the most significant first; bit 23 is ignored. -/
def address (a b c : UInt8) : Nat := (a.toNat * 65536 + b.toNat * 256 + c.toNat) % chipSize

/-- One command: the bytes sent while the chip is selected, and the number of bytes then read. -/
def execute (c : Chip) (sent : List UInt8) (recv : Nat) : Chip × List UInt8 :=
  match sent with
  | [] => (c, [])
  | op :: args =>
    match Instr.ofOpcode op, args with
    | some .writeEnable, [] => ({ c with wel := true }, [])
    | some .writeDisable, [] => ({ c with wel := false }, [])
    | some .readSr1, [] => (c, List.replicate recv (if c.wel then 0x2 else 0x0))
    | some .pageProgram, x :: y :: z :: data =>
      if c.wel then
        (⟨NorFlash.program pageSize c.cells (address x y z) data, false⟩, [])
      else
        (c, [])
    | some .chipErase, [] => if c.wel then (⟨NorFlash.erased, false⟩, []) else (c, [])
    | some .readData, [x, y, z] => (c, NorFlash.read chipSize c.cells (address x y z) recv)
    | _, _ => (c, [])

/-- One call of `rt_spi_transfer_message`: a chip that is not selected takes no command. -/
def transfer (c : Chip) (msgs : List SpiMessage) : Chip × List UInt8 :=
  match msgs with
  | [] => (c, [])
  | msg :: _ =>
    if msg.csTake then
      c.execute (msgs.flatMap SpiMessage.send) (msgs.map SpiMessage.recv).sum
    else
      (c, [])

variable (polls : Nat) (c : Chip) (x y z : UInt8) (dlen : UInt8) (data : List UInt8)

/-- `w25q64_control(PAGE_PROGRAM, ...)` programs the data. -/
theorem control_pageProgram :
    w25q64Control transfer polls c .pageProgram [x, y, z] dlen data =
      some (⟨NorFlash.program pageSize c.cells (address x y z) (data.take dlen.toNat), false⟩,
        []) := by
  simp [w25q64Control, w25q64Write, transfer, execute]

/-- The loop ends with its first poll: no command is in progress. -/
theorem w25q64Wait_eq : w25q64Wait transfer polls c = some c := by
  have hidle : (if c.wel then (0x2 : UInt8) else 0x0) &&& 0x1 = 0 := by
    cases c.wel <;> rfl
  cases polls <;> simp [w25q64Wait, transfer, execute, hidle]

/-- `w25q64_control(CHIP_ERASE, ...)` erases the chip, with the first poll of its loop. -/
theorem control_chipErase :
    w25q64Control transfer polls c .chipErase [] 0 [] = some (⟨NorFlash.erased, false⟩, []) := by
  simp [w25q64Control, w25q64Erase, w25q64Wait_eq, transfer, execute]

/-- `w25q64_control(READ_DATA, ...)` reads. -/
theorem control_readData :
    w25q64Control transfer polls c .readData [x, y, z] dlen [] =
      some (c, NorFlash.read chipSize c.cells (address x y z) dlen.toNat) := by
  simp [w25q64Control, w25q64Read, transfer, execute]

end Chip

end OsesProject
