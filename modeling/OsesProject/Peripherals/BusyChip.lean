import OsesProject.Lib.Run
import OsesProject.Peripherals.W25q64

/-!
# The flash chip while it writes

`BusyChip` is the chip with what `Chip` leaves out: programming, erasing and writing the status
register take their time. A command that starts one of them makes the chip busy for as many further
commands as the one who runs the system says, and the write enable latch is cleared when it is done.
A busy chip answers the reads of its status registers and ignores every other command; an idle one
ignores a command that writes when the latch is clear.

The field `received` records the history and is read by no function: the commands in their order,
and in which state of the chip each has been received.
-/

namespace OsesProject

/-- A command the chip has received, and whether it was busy and the latch was set. -/
structure Received where
  instr : Instr
  busy : Bool
  wel : Bool
  deriving DecidableEq, Repr

/-- The chip: for how many further commands it is busy, and the write enable latch. -/
structure BusyChip where
  busy : Nat
  wel : Bool
  received : List Received
  deriving DecidableEq, Repr

/-- The commands that write. -/
def Instr.writes : Instr → Bool
  | .writeSr | .pageProgram | .sectorErase | .blockErase | .dblockErase | .chipErase => true
  | _ => false

namespace BusyChip

/-- The chip is busy for `n` further commands; with none it is done. -/
def waiting (c : BusyChip) (n : Nat) : BusyChip :=
  { c with busy := n, wel := if n = 0 then false else c.wel }

/-- One command; a write that it starts takes the time of `time` further commands. -/
def receive (time : Nat) (c : BusyChip) (instr : Instr) : BusyChip :=
  let c' := { c with received := c.received ++ [⟨instr, decide (0 < c.busy), c.wel⟩] }
  if 0 < c.busy then
    c'.waiting (c.busy - 1)
  else if instr.writes then
    if c.wel then c'.waiting time else c'
  else
    match instr with
    | .writeEnable => { c' with wel := true }
    | .writeDisable => { c' with wel := false }
    | _ => c'

/-- The first status register: bit 0 is `BUSY`, bit 1 the latch. -/
def sr1 (c : BusyChip) : UInt8 :=
  (if 0 < c.busy then 0x1 else 0x0) ||| (if c.wel then 0x2 else 0x0)

/-- One command, with the bytes that are read: the status register, or what does not matter here. -/
def execute (time : Nat) (c : BusyChip) (sent : List UInt8) (recv : Nat) : BusyChip × List UInt8 :=
  match sent with
  | [] => (c, [])
  | op :: _ =>
    match Instr.ofOpcode op with
    | none => (c, [])
    | some instr =>
      (c.receive time instr, List.replicate recv (if instr = .readSr1 then c.sr1 else 0xff))

/-- One call of `rt_spi_transfer_message`: a chip that is not selected takes no command. -/
def transfer (time : Nat) (c : BusyChip) (msgs : List SpiMessage) : BusyChip × List UInt8 :=
  match msgs with
  | [] => (c, [])
  | msg :: _ =>
    if msg.csTake then
      c.execute time (msgs.flatMap SpiMessage.send) (msgs.map SpiMessage.recv).sum
    else
      (c, [])

/-- The chip with nothing to do. -/
def idle : BusyChip := ⟨0, false, []⟩

end BusyChip

/-- A call of `w25q64_control`, and how long a write that it starts takes. -/
structure FlashCall where
  instr : Instr
  addr : List UInt8
  dlen : UInt8
  data : List UInt8
  time : Nat
  deriving DecidableEq, Repr

/-- One call of `w25q64_control`. A loop that waits for the chip polls it at most once for each
command it is busy for, and once more. -/
def flashStep (c : BusyChip) (e : FlashCall) : Option BusyChip :=
  (w25q64Control (BusyChip.transfer e.time) (c.busy + e.time) c e.instr e.addr e.dlen e.data).map
    Prod.fst

/-- The chip acts on the command: it is idle for a read of data, and for a write the latch is set
besides. -/
def Received.Accepted (r : Received) : Prop :=
  (r.instr = .readData → r.busy = false) ∧ (r.instr.writes = true → r.busy = false ∧ r.wel = true)

/-- Every command has been accepted. -/
def BusyChip.AllAccepted (c : BusyChip) : Prop := ∀ r ∈ c.received, r.Accepted

/-- The calls that send a command that reads data or writes. `w25q64_erase_part` sends none: its
instruction is not in the transfer. -/
def FlashCall.needsIdle (e : FlashCall) : Bool :=
  match e.instr with
  | .readData | .pageProgram | .writeSr | .chipErase => true
  | _ => false

/-- The call comes when the write before it is done, if it needs that. -/
def FlashCall.InTime (c : BusyChip) (e : FlashCall) : Prop := e.needsIdle = true → c.busy = 0

instance (r : Received) : Decidable r.Accepted := by
  unfold Received.Accepted
  infer_instance

instance (c : BusyChip) : Decidable c.AllAccepted := by
  unfold BusyChip.AllAccepted
  infer_instance

instance (c : BusyChip) (e : FlashCall) : Decidable (e.InTime c) := by
  unfold FlashCall.InTime
  infer_instance

end OsesProject
