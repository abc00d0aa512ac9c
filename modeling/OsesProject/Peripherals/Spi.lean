import OsesProject.Lib.SerialDevice
import OsesProject.Peripherals.W25q64

/-!
# The SPI bus (`spi_core.c`, `drv_spi.c`)

`rt_spi_transfer_message` hands the messages of a chain to `spixfer` one by one, and stops at the
first one that fails. `spixfer` asserts the select line before a message with `cs_take` and releases
it after one with `cs_release`, whether the transfer has failed or not. The words that go over the
bus while the line is asserted reach the device, those of a receive message being the `0xff` that
`spixfer` fills the buffer with; they reach nobody while it is not.

The messages of the driver have at most 255 bytes, so that the loop of `spixfer` makes one round,
and none for a message without bytes. The bus has one device, which stays its owner.
-/

namespace OsesProject

/-- How the transfers go, counted from the first: `HAL_OK`, or an error after a number of bytes. And
what is in the receive buffers of the messages behind one that fails. -/
structure Transfers where
  error : Nat → Option Nat
  stale : Nat → Nat → UInt8

/-- Every transfer succeeds. -/
def Transfers.fine : Transfers := ⟨fun _ => none, fun _ _ => 0⟩

/-- The device, whether its select line is asserted, and how many messages there have been. -/
structure SpiLine (σ : Type) where
  device : σ
  selected : Bool
  count : Nat

/-- `length` of a message. -/
def SpiMessage.length (msg : SpiMessage) : Nat := msg.send.length + msg.recv

/-- The bytes of a message on the bus. -/
def SpiMessage.wire (msg : SpiMessage) : List UInt8 := msg.send ++ List.replicate msg.recv 0xff

section Bus

variable {σ : Type} (d : Serial.Device σ UInt8) (o : Transfers)

/-- `HAL_GPIO_WritePin(..., GPIO_PIN_RESET)`. -/
def SpiLine.take (s : SpiLine σ) : SpiLine σ :=
  if s.selected then s else { s with device := d.select s.device, selected := true }

/-- `HAL_GPIO_WritePin(..., GPIO_PIN_SET)`. -/
def SpiLine.release (s : SpiLine σ) : SpiLine σ :=
  if s.selected then { s with device := d.release s.device, selected := false } else s

/-- `HAL_SPI_Transmit` or `HAL_SPI_Receive`, with what the receive buffer holds afterwards. -/
def SpiLine.exchange (s : SpiLine σ) (msg : SpiMessage) : SpiLine σ × List UInt8 :=
  let moved := match o.error s.count with
    | none => msg.wire
    | some n => msg.wire.take n
  let (device, answers) :=
    if s.selected then d.shifts s.device moved else (s.device, List.replicate moved.length 0xff)
  ({ s with device := device },
    (answers ++ List.replicate (msg.length - answers.length) 0xff).drop msg.send.length)

/-- `spixfer`, with what the receive buffer holds and the length it returns. -/
def spixfer (s : SpiLine σ) (msg : SpiMessage) : SpiLine σ × List UInt8 × Nat :=
  let s₁ := if msg.csTake then s.take d else s
  let (s₂, received) := if msg.length = 0 then (s₁, []) else s₁.exchange d o msg
  let s₃ := if msg.csRelease then s₂.release d else s₂
  ({ s₃ with count := s.count + 1 }, received,
    match o.error s.count with
    | none => msg.length
    | some _ => 0)

/-- `rt_spi_transfer_message`, with what the receive buffers of the chain hold. -/
def rtSpiTransferMessage : SpiLine σ → List SpiMessage → SpiLine σ × List UInt8
  | s, [] => (s, [])
  | s, msg :: msgs =>
    match spixfer d o s msg with
    | (s', received, 0) =>
      (s', received ++ (List.range (msgs.map SpiMessage.recv).sum).map (o.stale s.count))
    | (s', received, _ + 1) =>
      let (s'', rest) := rtSpiTransferMessage s' msgs
      (s'', received ++ rest)

end Bus

end OsesProject
