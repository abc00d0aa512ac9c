import OsesProject.Application.Procedure
import OsesProject.Peripherals.W25q64
import Mathlib.Data.List.FinRange
import Mathlib.Data.Rat.Defs

/-!
# The flash log (`procedure.c`)

The four task functions that write and read the records on the flash. The two logs differ in where
they begin and end and in the length of a record (`Log`), and in what is written; a cursor of 32
bits moves on by one record at each write. The cursors are `addr` and `addr_bench`. What a function
does on the chip is the calls of `w25q64_control` it makes (`Command`).

The values come from arrays of `float`s that other threads fill, so each write has their content at
the time as its argument. `float` is a type `F` with the two conversions the encoder uses. The
functions run one after the other, in the server's thread; their mutexes are in
`Application.Procedure`.

The read functions print what they have read, value by value (`decode`); here a `float` is a
rational number, and `truncate` is its conversion to a signed integer.

The field `written` records the history and is read by no function: what has been written, in
order, and with which address.
-/

namespace OsesProject

/-- The conversions of a `float` to integers. -/
structure Conversion (F : Type) where
  toUint8 : F → UInt8
  toUint32 : F → UInt32

instance : NeZero numReadings := ⟨by decide⟩

/-- The two logs. -/
inductive Log
  | raw
  | bench
  deriving DecidableEq, Repr

namespace Log

/-- Where the log begins. -/
def first : Log → UInt32
  | raw => 0x00
  | bench => 0x800000

/-- From where on the log begins again. -/
def limit : Log → UInt32
  | raw => 0x7FFFF4
  | bench => 0xFFFFC8

/-- The length of a record. -/
def dlen : Log → UInt8
  | raw => 12
  | bench => 0x38

/-- How far the cursor moves on. -/
def stride : Log → UInt32
  | raw => 12
  | bench => 0x38

end Log

/-- A record that has been written, with its address. -/
structure Record where
  log : Log
  addr : UInt32
  data : List UInt8
  deriving DecidableEq, Repr

/-- The chip and the static variables of the functions. -/
structure FlashLog where
  chip : Chip
  /-- `addr` and `addr_bench` -/
  cursor : Log → UInt32
  /-- `i` of `write_raw_mem_async` -/
  i : Fin numReadings
  written : List Record

/-- The address bytes of a command, `addr8`. -/
def addr8 (addr : UInt32) : List UInt8 :=
  [addr.toUInt8, (addr >>> 8).toUInt8, (addr >>> 16).toUInt8]

/-- The four bytes of a value. -/
def encode {F : Type} (conv : Conversion F) (v : F) : List UInt8 :=
  [conv.toUint8 v, (conv.toUint32 v >>> 8).toUInt8, (conv.toUint32 v >>> 16).toUInt8,
    (conv.toUint32 v >>> 24).toUInt8]

/-- A call of `w25q64_control`. -/
structure Command where
  instr : Instr
  addr : List UInt8
  dlen : UInt8
  data : List UInt8
  deriving DecidableEq, Repr

/-- Calls of `w25q64_control` one after the other, with what the last one puts into the caller's
buffer. -/
def Chip.control (polls : Nat) (c : Chip) (cmds : List Command) : Option (Chip × List UInt8) :=
  cmds.foldlM (fun r cmd =>
    w25q64Control Chip.transfer polls r.1 cmd.instr cmd.addr cmd.dlen cmd.data) (c, [])

namespace FlashLog

variable {F : Type} (conv : Conversion F) (polls : Nat)

/-- The chip is erased, and the cursors are at their initial values. -/
def start : FlashLog := ⟨⟨NorFlash.erased, false⟩, Log.first, 0, []⟩

/-- The write begins the log again, and erases the chip. -/
def Wraps (s : FlashLog) (log : Log) : Prop := log.limit ≤ s.cursor log

instance (s : FlashLog) (log : Log) : Decidable (s.Wraps log) := by
  unfold Wraps
  infer_instance

/-- `if (addr >= 0x7FFFF4) { w25q64_control(CHIP_ERASE, RT_NULL, 0, RT_NULL); addr = 0x00; }`: the
call it makes, and the cursor after it. -/
def wrap (s : FlashLog) (log : Log) : List Command × UInt32 :=
  if s.Wraps log then ([⟨.chipErase, [], 0, []⟩], log.first) else ([], s.cursor log)

/-- The calls of a write of `data` to a log. -/
def writeCommands (s : FlashLog) (log : Log) (data : List UInt8) : List Command :=
  (s.wrap log).1 ++ [⟨.pageProgram, addr8 (s.wrap log).2, log.dlen, data⟩]

/-- A write of `data` to a log. -/
def writeMemAsync (s : FlashLog) (log : Log) (data : List UInt8) : Option FlashLog :=
  let addr := (s.wrap log).2
  (s.chip.control polls (s.writeCommands log data)).map fun r =>
    { s with
      chip := r.1
      cursor := Function.update s.cursor log (addr + log.stride)
      written := s.written ++ [⟨log, addr, data⟩] }

/-- The call of a read of the last record of a log. -/
def readCommands (s : FlashLog) (log : Log) : List Command :=
  [⟨.readData, addr8 (s.cursor log - log.stride), log.dlen, []⟩]

/-- A read of the last record of a log, with what it gets. -/
def readMemAsync (s : FlashLog) (log : Log) : Option (FlashLog × List UInt8) :=
  (s.chip.control polls (s.readCommands log)).map fun r => ({ s with chip := r.1 }, r.2)

/-- `write_raw_mem_async`. -/
def writeRawMemAsync (s : FlashLog) (accV gyroV baroV : Fin numReadings → F) : Option FlashLog :=
  (s.writeMemAsync polls .raw
    (encode conv (accV s.i) ++ encode conv (gyroV s.i) ++ encode conv (baroV s.i))).map fun s =>
      { s with i := s.i + 1 }

/-- `write_bench_mem_async`. -/
def writeBenchMemAsync (s : FlashLog) (results : Fin 14 → F) : Option FlashLog :=
  s.writeMemAsync polls .bench ((List.finRange 14).flatMap fun j => encode conv (results j))

/-- `read_raw_mem_async`. -/
def readRawMemAsync (s : FlashLog) : Option (FlashLog × List UInt8) := s.readMemAsync polls .raw

/-- `read_bench_mem_async`. -/
def readBenchMemAsync (s : FlashLog) : Option (FlashLog × List UInt8) :=
  s.readMemAsync polls .bench

end FlashLog

/-- The conversion of a number to an integer, toward zero. -/
def truncate (v : ℚ) : ℤ := v.num.tdiv v.den

/-- `(int)b << k`, in 32 bits. -/
def shifted (b : UInt8) (k : Nat) : ℤ := Int.bmod (b.toNat * 2 ^ k) (2 ^ 32)

/-- The loop of `read_raw_mem_async` and `read_bench_mem_async` that puts the values together again
and prints them, one for every four bytes. -/
def decode : List UInt8 → List ℤ
  | a :: b :: c :: d :: rd =>
    truncate ((a.toNat : ℚ) + shifted b 8 + shifted c 16 + shifted d 24) :: decode rd
  | _ => []

/-- A call of one of the four functions. -/
inductive LogOp (F : Type)
  | writeRaw (accV gyroV baroV : Fin numReadings → F)
  | readRaw
  | writeBench (results : Fin 14 → F)
  | readBench

/-- The log a call writes to, if it writes. -/
def LogOp.writes {F : Type} : LogOp F → Option Log
  | .writeRaw _ _ _ => some .raw
  | .writeBench _ => some .bench
  | .readRaw | .readBench => none

/-- The log a call reads from, if it reads. -/
def LogOp.reads {F : Type} : LogOp F → Option Log
  | .readRaw => some .raw
  | .readBench => some .bench
  | .writeRaw _ _ _ | .writeBench _ => none

/-- The calls of `w25q64_control` that a call makes. -/
def LogOp.commands {F : Type} (conv : Conversion F) (s : FlashLog) : LogOp F → List Command
  | .writeRaw accV gyroV baroV => s.writeCommands .raw
      (encode conv (accV s.i) ++ encode conv (gyroV s.i) ++ encode conv (baroV s.i))
  | .readRaw => s.readCommands .raw
  | .writeBench results =>
    s.writeCommands .bench ((List.finRange 14).flatMap fun j => encode conv (results j))
  | .readBench => s.readCommands .bench

/-- One call. -/
def logStep {F : Type} (conv : Conversion F) (polls : Nat) (s : FlashLog) :
    LogOp F → Option FlashLog
  | .writeRaw accV gyroV baroV => s.writeRawMemAsync conv polls accV gyroV baroV
  | .readRaw => (s.readRawMemAsync polls).map Prod.fst
  | .writeBench results => s.writeBenchMemAsync conv polls results
  | .readBench => (s.readBenchMemAsync polls).map Prod.fst

/-- What a call gets: the bytes read, if it reads. -/
def LogOp.gets {F : Type} (polls : Nat) (s : FlashLog) : LogOp F → Option (List UInt8)
  | .readRaw => (s.readRawMemAsync polls).map Prod.snd
  | .readBench => (s.readBenchMemAsync polls).map Prod.snd
  | .writeRaw _ _ _ | .writeBench _ => some []

/-- The call begins its log again and erases the chip. -/
def Erases {F : Type} (s : FlashLog) (op : LogOp F) : Prop :=
  ∃ log ∈ op.writes, s.Wraps log

end OsesProject
