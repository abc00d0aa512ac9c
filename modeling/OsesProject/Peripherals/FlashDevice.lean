import OsesProject.Peripherals.Spi

/-!
# The flash chip on its select line

`Flash` is the chip as the bus sees it: it takes the bytes of a frame one by one, answers them, and
carries the command out when it is released. Besides what `Chip` has, it erases sectors and blocks,
and a write takes its time as in `BusyChip`. A command is carried out only when its frame is
complete, and a write only with the latch set.
-/

namespace OsesProject

/-- The chip: its cells, the write enable latch, for how many further commands it is busy, and the
frame so far. -/
structure Flash where
  cells : Nat → UInt8
  wel : Bool
  busy : Nat
  frame : List UInt8

/-- The number of cells that an instruction erases around its address. -/
def Instr.erases : Instr → Option Nat
  | .sectorErase => some 4096
  | .blockErase => some 32768
  | .dblockErase => some 65536
  | _ => none

namespace Flash

/-- A write that takes the time of `time` further commands; with none it is done. -/
def write (time : Nat) (c : Flash) (cells : Nat → UInt8) : Flash :=
  { c with cells := cells, busy := time, wel := if time = 0 then false else c.wel }

/-- The end of a frame. -/
def execute (time : Nat) (c : Flash) : Flash :=
  if 0 < c.busy then
    { c with busy := c.busy - 1, wel := if c.busy = 1 then false else c.wel }
  else
    match c.frame with
    | [] => c
    | op :: args =>
      match Instr.ofOpcode op, args with
      | some .writeEnable, [] => { c with wel := true }
      | some .writeDisable, [] => { c with wel := false }
      | some .pageProgram, x :: y :: z :: data =>
        if c.wel then
          c.write time (NorFlash.program pageSize c.cells (Chip.address x y z) data)
        else
          c
      | some .chipErase, [] => if c.wel then c.write time NorFlash.erased else c
      | some instr, [x, y, z] =>
        match instr.erases with
        | some block =>
          if c.wel then
            c.write time (NorFlash.eraseBlock block c.cells (Chip.address x y z))
          else
            c
        | none => c
      | _, _ => c

/-- The answer to the next byte. -/
def answer (c : Flash) : UInt8 :=
  match c.frame with
  | [] => 0xff
  | op :: args =>
    match Instr.ofOpcode op, args with
    | some .readSr1, _ => (if 0 < c.busy then 0x1 else 0x0) ||| (if c.wel then 0x2 else 0x0)
    | some .readData, x :: y :: z :: read =>
      if 0 < c.busy then 0xff else c.cells ((Chip.address x y z + read.length) % chipSize)
    | _, _ => 0xff

/-- The chip as a device. -/
def device (time : Nat) : Serial.Device Flash UInt8 where
  select c := { c with frame := [] }
  shift c b := ({ c with frame := c.frame ++ [b] }, c.answer)
  release c := { c.execute time with frame := [] }

end Flash

end OsesProject
