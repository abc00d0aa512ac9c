import OsesProject.Peripherals.Spi

/-!
# Where the bytes read go

The functions of `w25q64.c` that read, with the addresses of their receive buffers: `spixfer` stores
what it receives through the `recv_buf` of the message. A byte that is stored is in the memory and
in `stored`, the history of the addresses that received bytes have been stored at, which no function
reads.
-/

namespace OsesProject

/-- A message with the address of its receive buffer, unless that is null. -/
structure BufferedMessage extends SpiMessage where
  recvBuf : Option Nat

/-- The memory, and where received bytes have been stored. -/
structure Memory where
  bytes : Nat → UInt8
  stored : List Nat

/-- Bytes stored from the address `p` on. -/
def Memory.store (mem : Memory) : Nat → List UInt8 → Memory
  | _, [] => mem
  | p, b :: bs =>
    Memory.store ⟨Function.update mem.bytes p b, mem.stored ++ [p]⟩ (p + 1) bs

section Bus

variable {σ : Type} (d : Serial.Device σ UInt8) (o : Transfers)

/-- `spixfer` with the receive buffer in memory. -/
def spixferInto (s : SpiLine σ) (mem : Memory) (msg : BufferedMessage) :
    SpiLine σ × Memory × Nat :=
  let (s', received, length) := spixfer d o s msg.toSpiMessage
  (s', match msg.recvBuf with
    | none => mem
    | some p => mem.store p received, length)

/-- `rt_spi_transfer_message` with the receive buffers in memory. -/
def rtSpiTransferMessageInto :
    SpiLine σ → Memory → List BufferedMessage → SpiLine σ × Memory
  | s, mem, [] => (s, mem)
  | s, mem, msg :: msgs =>
    match spixferInto d o s mem msg with
    | (s', mem', 0) => (s', mem')
    | (s', mem', _ + 1) => rtSpiTransferMessageInto s' mem' msgs

end Bus

/-- The pointers of a call that reads: the caller's buffer, the value of the parameter `data`; and
the parameter itself, an object of the function that is called. -/
structure ReadPointers where
  data : Nat
  param : Nat
  apart : param ≠ data

/-- The messages of `w25q64_getJEDEC`: `msg2.recv_buf = data`. -/
def w25q64GetJEDECMessages (p : ReadPointers) : List BufferedMessage :=
  [⟨⟨[Instr.jedecId.opcode], 0, true, false⟩, none⟩, ⟨⟨[], 3, false, true⟩, some p.data⟩]

/-- The messages of `w25q64_getSR`: `msg2.recv_buf = &data`. -/
def w25q64GetSRMessages (p : ReadPointers) (instr : Instr) : List BufferedMessage :=
  [⟨⟨[instr.opcode], 0, true, false⟩, none⟩, ⟨⟨[], 1, false, true⟩, some p.param⟩]

/-- The messages of `w25q64_read`: `msg3.recv_buf = data`. -/
def w25q64ReadMessages (p : ReadPointers) (addr : List UInt8) (dlen : UInt8) :
    List BufferedMessage :=
  [⟨⟨[Instr.readData.opcode], 0, true, false⟩, none⟩, ⟨⟨addr, 0, false, false⟩, none⟩,
    ⟨⟨[], dlen.toNat, false, true⟩, some p.data⟩]

/-- The instructions that read. -/
inductive ReadInstr
  | readSr1
  | readSr2
  | jedecId
  | readData
  deriving DecidableEq, Repr

namespace ReadInstr

/-- The instruction of `w25q64_control`. -/
def instr : ReadInstr → Instr
  | readSr1 => .readSr1
  | readSr2 => .readSr2
  | jedecId => .jedecId
  | readData => .readData

/-- The number of bytes that are read. -/
def length (dlen : UInt8) : ReadInstr → Nat
  | readSr1 | readSr2 => 1
  | jedecId => 3
  | readData => dlen.toNat

/-- The command bytes. -/
def command (addr : List UInt8) : ReadInstr → List UInt8
  | readData => Instr.readData.opcode :: addr
  | i => [i.instr.opcode]

/-- The messages that `w25q64_control` transfers. -/
def messages (p : ReadPointers) (addr : List UInt8) (dlen : UInt8) :
    ReadInstr → List BufferedMessage
  | readSr1 => w25q64GetSRMessages p .readSr1
  | readSr2 => w25q64GetSRMessages p .readSr2
  | jedecId => w25q64GetJEDECMessages p
  | readData => w25q64ReadMessages p addr dlen

end ReadInstr

end OsesProject
