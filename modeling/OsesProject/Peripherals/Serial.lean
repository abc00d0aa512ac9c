import Mathlib.Logic.Function.Basic
import Mathlib.Data.Nat.Notation

/-!
# Receiving on the serial line

The software fifo of a serial device that is open with `RT_DEVICE_FLAG_INT_RX`, as the one of the
shell is: the interrupt puts bytes into it, and a thread reads them. Interrupts are off for one byte
at a time on either side, so a byte put or read is one step.

The indices have sixteen bits, as `config.bufsz` has: the sums below do not wrap.
-/

namespace OsesProject

open Function

/-- `struct rt_serial_rx_fifo`. -/
structure RxFifo where
  buffer : ℕ → UInt8
  putIndex : ℕ
  getIndex : ℕ
  isFull : Bool

namespace RxFifo

/-- The fifo after `rt_serial_open`. -/
def opened : RxFifo := ⟨fun _ => 0, 0, 0, false⟩

variable (bufsz : ℕ)

/-- One turn of the loop of `rt_hw_serial_isr`, for `RT_SERIAL_EVENT_RX_IND`. -/
def receive (f : RxFifo) (ch : UInt8) : RxFifo :=
  let buffer := update f.buffer f.putIndex ch
  let put := f.putIndex + 1
  let put := if bufsz ≤ put then 0 else put
  -- the next position is the read index: the oldest byte goes
  if put = f.getIndex then
    let get := f.getIndex + 1
    let get := if bufsz ≤ get then 0 else get
    { buffer := buffer, putIndex := put, getIndex := get, isFull := true }
  else
    { f with buffer := buffer, putIndex := put }

/-- The length that `rx_indicate` is called with. -/
def rxLength (f : RxFifo) : ℕ :=
  if f.getIndex ≤ f.putIndex then f.putIndex - f.getIndex
  else bufsz - (f.getIndex - f.putIndex)

/-- `rt_hw_serial_isr` for `RT_SERIAL_EVENT_RX_IND`, when the device has the bytes `chars`, and the
length it indicates. -/
def rtHwSerialIsr (f : RxFifo) (chars : List UInt8) : RxFifo × Option ℕ :=
  let f := chars.foldl (receive bufsz) f
  (f, if f.rxLength bufsz = 0 then none else some (f.rxLength bufsz))

/-- One turn of the loop of `_serial_int_rx`; there may be no data. -/
def readChar (f : RxFifo) : Option (UInt8 × RxFifo) :=
  if f.getIndex = f.putIndex ∧ f.isFull = false then
    none
  else
    let get := f.getIndex + 1
    let get := if bufsz ≤ get then 0 else get
    some (f.buffer f.getIndex, { f with getIndex := get, isFull := false })

/-- `_serial_int_rx`, when nothing interrupts it. -/
def serialIntRx : ℕ → RxFifo → List UInt8 × RxFifo
  | 0, f => ([], f)
  | length + 1, f =>
    match f.readChar bufsz with
    | none => ([], f)
    | some (ch, f) => (ch :: (serialIntRx length f).1, (serialIntRx length f).2)

/-- `_serial_fifo_calc_recved_len`. -/
def serialFifoCalcRecvedLen (f : RxFifo) : ℕ :=
  if f.putIndex = f.getIndex then
    if f.isFull = false then 0 else bufsz
  else if f.getIndex < f.putIndex then
    f.putIndex - f.getIndex
  else
    bufsz - (f.getIndex - f.putIndex)

end RxFifo

end OsesProject
