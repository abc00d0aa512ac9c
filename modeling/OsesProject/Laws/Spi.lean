import OsesProject.Peripherals.FlashDevice
import OsesProject.Peripherals.ReadBuffers

/-!
# What the flash driver's messages come to on the bus

Three things that depend on how a chain of messages becomes frames. A chain that stops before its
last message leaves the chip selected, and the functions that read have no further message that
would release it (`chipSelect_released_iff`). `w25q64_erase_part` starts its transfer with the
second message of the chain, so that the instruction is not sent and nothing is erased
(`erasePart_erases_iff`). And `w25q64_getSR` receives into its own parameter, not into the caller's
buffer (`read_delivers_iff`).

On chains that go through, `Chip.transfer` is what the bus does with the chip
(`Flash.control_chip`).
-/

namespace OsesProject

variable {σ : Type} {d : Serial.Device σ UInt8} {o : Transfers} {s s' : SpiLine σ}

/-! ## The select line -/

@[simp] theorem SpiLine.take_selected (s : SpiLine σ) : (s.take d).selected = true := by
  unfold SpiLine.take
  split
  · assumption
  · rfl

@[simp] theorem SpiLine.release_selected (s : SpiLine σ) : (s.release d).selected = false := by
  unfold SpiLine.release
  split
  · rfl
  · next h => exact Bool.eq_false_iff.mpr h

@[simp] theorem SpiLine.exchange_selected (s : SpiLine σ) (msg : SpiMessage) :
    (s.exchange d o msg).1.selected = s.selected := rfl

/-- The select line after a message, whether its transfer has failed or not. -/
theorem spixfer_selected (s : SpiLine σ) (msg : SpiMessage) :
    (spixfer d o s msg).1.selected = (!msg.csRelease && (msg.csTake || s.selected)) := by
  unfold spixfer
  cases msg.csRelease <;> cases msg.csTake <;> by_cases hlen : msg.length = 0 <;> simp [hlen]

@[simp] theorem spixfer_count (s : SpiLine σ) (msg : SpiMessage) :
    (spixfer d o s msg).1.count = s.count + 1 := rfl

/-- `spixfer` returns the length of the message, or 0 for an error. -/
theorem spixfer_length (s : SpiLine σ) (msg : SpiMessage) :
    (spixfer d o s msg).2.2 = if o.error s.count = none then msg.length else 0 := by
  unfold spixfer
  cases o.error s.count <;> rfl

/-- A chain ends with the message that fails. -/
theorem transfer_stops {msg : SpiMessage} (h : (spixfer d o s msg).2.2 = 0)
    (msgs : List SpiMessage) :
    (rtSpiTransferMessage d o s (msg :: msgs)).1 = (spixfer d o s msg).1 := by
  rw [rtSpiTransferMessage]
  split
  · next heq => rw [heq]
  · next heq =>
    rw [heq] at h
    cases h

/-- And goes on behind one that does not. -/
theorem transfer_goes {msg : SpiMessage} (h : (spixfer d o s msg).2.2 ≠ 0)
    (msgs : List SpiMessage) :
    rtSpiTransferMessage d o s (msg :: msgs) =
      ((rtSpiTransferMessage d o (spixfer d o s msg).1 msgs).1,
        (spixfer d o s msg).2.1 ++ (rtSpiTransferMessage d o (spixfer d o s msg).1 msgs).2) := by
  rw [rtSpiTransferMessage]
  split
  · next heq =>
    rw [heq] at h
    exact absurd rfl h
  · next heq => rw [heq]

/-- The last message of a chain releases the chip, if there is nothing before it that fails. -/
theorem transfer_last (s : SpiLine σ) (bs : List UInt8) (n : Nat) (take : Bool) :
    (rtSpiTransferMessage d o s [⟨bs, n, take, true⟩]).1.selected = false := by
  have hsel := spixfer_selected (d := d) (o := o) s ⟨bs, n, take, true⟩
  by_cases h : (spixfer d o s ⟨bs, n, take, true⟩).2.2 = 0
  · rw [transfer_stops h, hsel]
    rfl
  · rw [transfer_goes h]
    exact hsel

/-- The first messages of a chain leave it selected: it is released after all of them exactly when
this one goes through and the rest of the chain releases it. -/
theorem transfer_cons {bs : List UInt8} {take : Bool} (hbs : bs ≠ [])
    (hsel : (take || s.selected) = true) (msgs : List SpiMessage) :
    (rtSpiTransferMessage d o s (⟨bs, 0, take, false⟩ :: msgs)).1.selected = false ↔
      o.error s.count = none ∧
        (rtSpiTransferMessage d o (spixfer d o s ⟨bs, 0, take, false⟩).1 msgs).1.selected =
          false := by
  have hafter := spixfer_selected (d := d) (o := o) s ⟨bs, 0, take, false⟩
  have hlen := spixfer_length (d := d) (o := o) s ⟨bs, 0, take, false⟩
  cases herr : o.error s.count with
  | none =>
    have hne : (spixfer d o s ⟨bs, 0, take, false⟩).2.2 ≠ 0 := by
      rw [hlen, if_pos herr]
      simpa [SpiMessage.length] using hbs
    rw [transfer_goes hne]
    simp
  | some n =>
    have hzero : (spixfer d o s ⟨bs, 0, take, false⟩).2.2 = 0 := by
      rw [hlen, if_neg (by rw [herr]; simp)]
    rw [transfer_stops hzero, hafter, hsel]
    simp

/-- The messages of a call before its last one, where no other follows. -/
def Instr.opening : Instr → Nat
  | .readSr1 | .readSr2 | .jedecId => 1
  | .readData => 2
  | _ => 0

/-- **When a call leaves the chip released.** For every call of `w25q64_control` that returns, with
any outcomes of its transfers: the select line is released at its end if and only if no message of a
reading instruction before its last one fails. -/
theorem chipSelect_released_iff (d : Serial.Device σ UInt8) (o : Transfers) (polls : Nat)
    (s : SpiLine σ) (hs : s.selected = false) (instr : Instr) (x y z dlen : UInt8)
    (data : List UInt8) {s' : SpiLine σ} {out : List UInt8}
    (h : w25q64Control (rtSpiTransferMessage d o) polls s instr [x, y, z] dlen data =
      some (s', out)) :
    s'.selected = false ↔ ∀ i < instr.opening, o.error (s.count + i) = none := by
  have hpair : ∀ op : UInt8, ∀ n : Nat,
      (rtSpiTransferMessage d o s [⟨[op], 0, true, false⟩, ⟨[], n, false, true⟩]).1.selected =
        false ↔ o.error s.count = none := by
    intro op n
    rw [transfer_cons (by simp) rfl]
    exact and_iff_left (transfer_last _ _ _ _)
  cases instr with
  | readSr1 | readSr2 =>
    cases h
    simpa [Instr.opening, w25q64GetSR] using hpair _ _
  | jedecId =>
    obtain rfl : (w25q64GetJEDEC (rtSpiTransferMessage d o) s).1 = s' :=
      congrArg Prod.fst (Option.some.inj h)
    simpa [Instr.opening, w25q64GetJEDEC] using hpair _ _
  | readData =>
    obtain rfl : (w25q64Read (rtSpiTransferMessage d o) s [x, y, z] dlen).1 = s' :=
      congrArg Prod.fst (Option.some.inj h)
    have hsel : ((spixfer d o s ⟨[Instr.readData.opcode], 0, true, false⟩).1).selected = true := by
      rw [spixfer_selected]
      rfl
    have hall : (∀ i < Instr.readData.opening, o.error (s.count + i) = none) ↔
        o.error s.count = none ∧ o.error (s.count + 1) = none := by
      constructor
      · exact fun h => ⟨h 0 (by decide), h 1 (by decide)⟩
      · rintro ⟨h0, h1⟩ i hi
        have hi : i < 2 := hi
        obtain rfl | rfl : i = 0 ∨ i = 1 := by omega
        · exact h0
        · exact h1
    rw [hall, w25q64Read, transfer_cons (by simp) rfl,
      transfer_cons (by simp) (by simpa using hsel)]
    rw [spixfer_count, and_iff_left (transfer_last _ _ _ _)]
  | writeSr | pageProgram | reset =>
    cases h
    simpa [Instr.opening, w25q64WriteSR, w25q64Write, w25q64Reset] using transfer_last _ _ _ _
  | sectorErase | blockErase | dblockErase | chipErase =>
    obtain ⟨c, hc, hout⟩ := Option.map_eq_some_iff.mp h
    obtain ⟨c', -, rfl⟩ := Option.map_eq_some_iff.mp hc
    cases hout
    simpa [Instr.opening] using transfer_last _ _ _ _
  | writeEnable | writeDisable | resetEnable =>
    cases h
    simpa [Instr.opening] using hs

/-- The message number `n` fails. -/
def Transfers.failing (n : Nat) : Transfers :=
  ⟨fun i => if i = n then some 0 else none, fun _ _ => 0⟩

/-- A chip that is not selected, with zero in every cell. -/
def SpiLine.released : SpiLine Flash := ⟨⟨fun _ => 0, false, 0, []⟩, false, 0⟩

/-- A read of data releases the chip when its last message fails, and does not when the one before
it does. -/
theorem chipSelect_released_readData :
    (∃ s' out, w25q64Control (rtSpiTransferMessage (Flash.device 0) (.failing 2)) 0 .released
      .readData [0, 0, 0] 1 [] = some (s', out) ∧ s'.selected = false) ∧
    ∃ s' out, w25q64Control (rtSpiTransferMessage (Flash.device 0) (.failing 1)) 0 .released
      .readData [0, 0, 0] 1 [] = some (s', out) ∧ s'.selected ≠ false := by
  refine ⟨⟨_, _, rfl, ?_⟩, ⟨_, _, rfl, ?_⟩⟩
  · exact (chipSelect_released_iff (Flash.device 0) (.failing 2) 0 .released rfl .readData 0 0 0 1
      [] rfl).mpr (by decide)
  · exact mt (chipSelect_released_iff (Flash.device 0) (.failing 1) 0 .released rfl .readData 0 0 0
      1 [] rfl).mp (by decide)

/-- A read of data whose first message fails: the chip is left selected. -/
theorem chipSelect_stuck :
    ∃ s' out, w25q64Control (rtSpiTransferMessage (Flash.device 0)
        (.failing 0)) 0 .released .readData [0, 0, 0] 1 [] = some (s', out) ∧
      s'.selected = true :=
  ⟨_, _, rfl, rfl⟩

/-! ## Chains that go through -/

section Fine

/-- The bytes of a message reach a chip that is selected. -/
theorem spixfer_fine (msg : SpiMessage) (hsel : s.selected = true) (htake : msg.csTake = false) :
    spixfer d .fine s msg =
      (let s' : SpiLine σ := ⟨(d.shifts s.device msg.wire).1, true, s.count + 1⟩
       if msg.csRelease then { s' with device := d.release s'.device, selected := false } else s',
        (d.shifts s.device msg.wire).2.drop msg.send.length, msg.length) := by
  have hwire : msg.wire.length = msg.length := by simp [SpiMessage.wire, SpiMessage.length]
  by_cases hlen : msg.length = 0
  · have hnil : msg.wire = [] := List.length_eq_zero_iff.mp (hwire.trans hlen)
    cases hrel : msg.csRelease <;>
      simp [spixfer, Transfers.fine, htake, hlen, hnil, hrel, hsel, SpiLine.release]
  · cases hrel : msg.csRelease <;>
      simp [spixfer, SpiLine.exchange, Transfers.fine, htake, hlen, hrel, hsel, SpiLine.release,
        hwire]

/-- A message that selects the chip first. -/
theorem spixfer_take (msg : SpiMessage) (hsel : s.selected = false) (htake : msg.csTake = true) :
    spixfer d o s msg =
      spixfer d o { s with device := d.select s.device, selected := true }
        { msg with csTake := false } := by
  simp [spixfer, SpiLine.take, hsel, htake, SpiMessage.length, SpiLine.exchange, SpiMessage.wire]

theorem transfer_take (hsel : s.selected = false) (bs : List UInt8) (n : Nat) (rel : Bool)
    (msgs : List SpiMessage) :
    rtSpiTransferMessage d o s (⟨bs, n, true, rel⟩ :: msgs) =
      rtSpiTransferMessage d o { s with device := d.select s.device, selected := true }
        (⟨bs, n, false, rel⟩ :: msgs) := by
  rw [rtSpiTransferMessage, spixfer_take _ hsel rfl, rtSpiTransferMessage]

/-- A message inside a frame. -/
theorem transfer_fine_cons (hsel : s.selected = true) {bs : List UInt8} (hbs : bs ≠ [])
    (msgs : List SpiMessage) :
    rtSpiTransferMessage d .fine s (⟨bs, 0, false, false⟩ :: msgs) =
      rtSpiTransferMessage d .fine ⟨(d.shifts s.device bs).1, true, s.count + 1⟩ msgs := by
  have hx := spixfer_fine (d := d) ⟨bs, 0, false, false⟩ hsel rfl
  simp only [SpiMessage.wire, List.replicate_zero, List.append_nil, Bool.false_eq_true,
    if_false] at hx
  have hnone : (d.shifts s.device bs).2.drop bs.length = [] :=
    List.drop_of_length_le (d.length_shifts _ _).le
  rw [transfer_goes, hx, hnone]
  · rfl
  · rw [hx]
    simpa [SpiMessage.length] using hbs

/-- The last message of a frame. -/
theorem transfer_fine_last (hsel : s.selected = true) (bs : List UInt8) (n : Nat) :
    rtSpiTransferMessage d .fine s [⟨bs, n, false, true⟩] =
      (⟨d.release (d.shifts s.device (bs ++ List.replicate n 0xff)).1, false, s.count + 1⟩,
        (d.shifts s.device (bs ++ List.replicate n 0xff)).2.drop bs.length) := by
  have hx := spixfer_fine (d := d) ⟨bs, n, false, true⟩ hsel rfl
  simp only [SpiMessage.wire, if_true] at hx
  rw [rtSpiTransferMessage, hx]
  cases hlen : (⟨bs, n, false, true⟩ : SpiMessage).length with
  | zero => simp
  | succ n => simp [rtSpiTransferMessage]

/-- A command of one message. -/
theorem transfer_fine_single (hsel : s.selected = false) (bs : List UInt8) (n : Nat) :
    rtSpiTransferMessage d .fine s [⟨bs, n, true, true⟩] =
      (⟨d.release (d.shifts (d.select s.device) (bs ++ List.replicate n 0xff)).1, false,
        s.count + 1⟩,
        (d.shifts (d.select s.device) (bs ++ List.replicate n 0xff)).2.drop bs.length) := by
  rw [transfer_take hsel, transfer_fine_last rfl]

/-- A command, and its answer in a message of its own. -/
theorem transfer_fine_pair (hsel : s.selected = false) {bs : List UInt8} (hbs : bs ≠ [])
    (bs' : List UInt8) (n : Nat) :
    rtSpiTransferMessage d .fine s [⟨bs, 0, true, false⟩, ⟨bs', n, false, true⟩] =
      (let c := (d.shifts (d.select s.device) bs).1
       let r := d.shifts c (bs' ++ List.replicate n 0xff)
       (⟨d.release r.1, false, s.count + 2⟩, r.2.drop bs'.length)) := by
  rw [transfer_take hsel, transfer_fine_cons rfl hbs, transfer_fine_last rfl]

/-- A command in two messages, and its data or answer in a third. -/
theorem transfer_fine_triple (hsel : s.selected = false) {bs bs' : List UInt8} (hbs : bs ≠ [])
    (hbs' : bs' ≠ []) (bs'' : List UInt8) (n : Nat) :
    rtSpiTransferMessage d .fine s
        [⟨bs, 0, true, false⟩, ⟨bs', 0, false, false⟩, ⟨bs'', n, false, true⟩] =
      (let c := (d.shifts (d.select s.device) (bs ++ bs')).1
       let r := d.shifts c (bs'' ++ List.replicate n 0xff)
       (⟨d.release r.1, false, s.count + 3⟩, r.2.drop bs''.length)) := by
  rw [transfer_take hsel, transfer_fine_cons rfl hbs, transfer_fine_cons rfl hbs',
    transfer_fine_last rfl, d.shifts_append (d.select s.device) bs bs']

/-- A message that nobody has selected the chip for reaches nobody. -/
theorem transfer_fine_deselected (hsel : s.selected = false) (bs : List UInt8) :
    (rtSpiTransferMessage d .fine s [⟨bs, 0, false, true⟩]).1 =
      { s with count := s.count + 1 } := by
  have hx : (spixfer d .fine s ⟨bs, 0, false, true⟩).1 = { s with count := s.count + 1 } := by
    by_cases hbs : bs = []
    · simp [spixfer, SpiMessage.length, hbs, SpiLine.release, hsel]
    · simp [spixfer, SpiMessage.length, SpiLine.exchange, hbs, SpiLine.release, hsel]
  by_cases h : (spixfer d .fine s ⟨bs, 0, false, true⟩).2.2 = 0
  · rw [transfer_stops h, hx]
  · rw [transfer_goes h, hx]
    rfl

end Fine

/-! ## Sectors and blocks -/

/-- What `w25q64_control` is to do with one of the instructions that erase a part: the sector or
block with the address is erased and nothing else, and the chip is idle with its latch clear. -/
def ErasesPart (block : Nat) (addr : Nat) (c c' : Flash) : Prop :=
  c'.cells = NorFlash.eraseBlock block c.cells addr ∧ c'.busy = 0 ∧ c'.wel = false

namespace Flash

variable {time polls n : Nat} {c : Flash}

/-- The write enable latch of an idle chip follows the commands. -/
theorem transfer_writeEnable (hidle : c.busy = 0) (n : Nat) :
    (rtSpiTransferMessage (device time) .fine ⟨c, false, n⟩
      [⟨[Instr.writeEnable.opcode], 0, true, true⟩]).1 =
      ⟨{ c with wel := true, frame := [] }, false, n + 1⟩ := by
  rw [transfer_fine_single rfl]
  simp [device, execute, hidle]

theorem transfer_writeDisable (time : Nat) (hidle : c.busy = 0) (n : Nat) :
    (rtSpiTransferMessage (device time) .fine ⟨c, false, n⟩
      [⟨[Instr.writeDisable.opcode], 0, true, true⟩]).1 =
      ⟨{ c with wel := false, frame := [] }, false, n + 1⟩ := by
  rw [transfer_fine_single rfl]
  simp [device, execute, hidle]

/-- An idle chip ends the loop with its first poll. -/
theorem w25q64Wait_idle (time : Nat) (hidle : c.busy = 0) (polls n : Nat) :
    w25q64Wait (rtSpiTransferMessage (device time) .fine) polls ⟨c, false, n⟩ =
      some ⟨{ c with frame := [] }, false, n + 2⟩ := by
  have hstatus : (if c.wel = true then (0x2 : UInt8) else 0x0) &&& 0x1 = 0 := by
    cases c.wel <;> rfl
  unfold w25q64Wait
  rw [transfer_fine_pair rfl (by simp)]
  simp [device, execute, answer, hidle, hstatus]

/-- `w25q64_erase_part` sets the latch, polls the chip and clears the latch. -/
theorem erasePart_eq (hidle : c.busy = 0) (x y z : UInt8) (polls n : Nat) :
    w25q64ErasePart (rtSpiTransferMessage (device time) .fine) polls ⟨c, false, n⟩ [x, y, z] =
      some ⟨{ c with wel := false, frame := [] }, false, n + 5⟩ := by
  have hwait := w25q64Wait_idle time (c := { c with wel := true, frame := [] }) hidle polls (n + 2)
  have hdisable := transfer_writeDisable time (c := { c with wel := true, frame := [] })
    hidle (n + 4)
  simp only [w25q64ErasePart]
  rw [transfer_writeEnable hidle, transfer_fine_deselected rfl, hwait, Option.map_some, hdisable]

end Flash

open Flash in
/-- **When a part is erased.** For every content of an idle chip, every address and every time an
erase takes, `w25q64_control` with one of the three instructions returns, and what it is to do is
done if and only if the sector or block was blank before. -/
theorem erasePart_erases_iff (time polls n : Nat) (c : Flash) (hidle : c.busy = 0) (instr : Instr)
    (block : Nat) (hinstr : instr.erases = some block) (x y z dlen : UInt8) (data : List UInt8) :
    (∃ c' m out, w25q64Control (rtSpiTransferMessage (device time) .fine) polls ⟨c, false, n⟩ instr
        [x, y, z] dlen data = some (⟨c', false, m⟩, out) ∧
      ErasesPart block (Chip.address x y z) c c') ↔
      ∀ a, a / block = Chip.address x y z / block → c.cells a = 0xff := by
  have hcontrol : w25q64Control (rtSpiTransferMessage (device time) .fine) polls ⟨c, false, n⟩ instr
      [x, y, z] dlen data = some (⟨{ c with wel := false, frame := [] }, false, n + 5⟩, []) := by
    cases instr with
    | sectorErase | blockErase | dblockErase =>
      rw [w25q64Control, erasePart_eq hidle, Option.map_some]
    | _ => cases hinstr
  rw [hcontrol, ← NorFlash.eq_eraseBlock_iff]
  constructor
  · rintro ⟨c', m, out, hc', hcells, -⟩
    cases hc'
    exact hcells
  · intro h
    exact ⟨_, _, _, rfl, h, hidle, rfl⟩

/-- A sector of a blank chip. -/
theorem erasePart_erases_blank :
    ∃ c' m out, w25q64Control (rtSpiTransferMessage (Flash.device 3) .fine) 0
        ⟨⟨NorFlash.erased, false, 0, []⟩, false, 0⟩ .sectorErase [0, 0x10, 0] 0 [] =
          some (⟨c', false, m⟩, out) ∧
      ErasesPart 4096 (Chip.address 0 0x10 0) ⟨NorFlash.erased, false, 0, []⟩ c' :=
  (erasePart_erases_iff 3 0 0 _ rfl .sectorErase 4096 rfl 0 0x10 0 0 []).mpr fun _ _ => rfl

/-- The first sector of a chip with no bit set is as it was before. -/
theorem erasePart_erases_nothing :
    ∃ c' m out, w25q64Control (rtSpiTransferMessage (Flash.device 3) .fine) 0
        .released .sectorErase [0, 0, 0] 0 [] = some (⟨c', false, m⟩, out) ∧
      c'.cells 0 = 0 ∧ ¬ErasesPart 4096 (Chip.address 0 0 0) ⟨fun _ => 0, false, 0, []⟩ c' := by
  refine ⟨_, _, _, rfl, rfl, fun h => ?_⟩
  have hzero : (0 : UInt8) = NorFlash.eraseBlock 4096 (fun _ => 0) (Chip.address 0 0 0) 0 :=
    congrFun h.1 0
  revert hzero
  decide

/-! ## The chip of the logs -/

namespace Flash

variable {c : Flash} {x y z : UInt8}

/-- What `Chip` keeps of the chip. -/
def chip (c : Flash) : Chip := ⟨c.cells, c.wel⟩

/-- The answers to a read of data are the cells one after the other. -/
theorem shifts_readData (time : Nat) (read : List UInt8) (hidle : c.busy = 0)
    (hframe : c.frame = Instr.readData.opcode :: x :: y :: z :: read) (n : Nat) :
    ((device time).shifts c (List.replicate n 0xff)).2 =
      NorFlash.read chipSize c.cells (Chip.address x y z + read.length) n := by
  induction n generalizing c read with
  | zero => rfl
  | succ n ih =>
    have hanswer : c.answer = c.cells ((Chip.address x y z + read.length) % chipSize) := by
      simp [answer, hframe, hidle]
    have hrest := ih (c := { c with frame := c.frame ++ [0xff] }) (read ++ [0xff]) hidle
      (by rw [hframe]; rfl)
    rw [List.replicate_succ, Serial.Device.shifts_cons, NorFlash.read, List.range_succ_eq_map,
      List.map_cons, List.map_map]
    refine congrArg₂ List.cons hanswer (hrest.trans ?_)
    simp [NorFlash.read, Function.comp_def, Nat.add_assoc, Nat.add_comm 1]

/-- The bytes of a frame are kept until its end. -/
theorem shifts_frame (time : Nat) (c : Flash) (bs : List UInt8) :
    ((device time).shifts c bs).1 = { c with frame := c.frame ++ bs } := by
  induction bs generalizing c with
  | nil => simp
  | cons b bs ih =>
    rw [Serial.Device.shifts_cons]
    refine (ih _).trans ?_
    simp [device]

theorem transfer_pageProgram (hidle : c.busy = 0) (hwel : c.wel = true) (data : List UInt8)
    (n : Nat) :
    (rtSpiTransferMessage (device 0) .fine ⟨c, false, n⟩
      [⟨[Instr.pageProgram.opcode], 0, true, false⟩, ⟨[x, y, z], 0, false, false⟩,
        ⟨data, 0, false, true⟩]).1 =
      ⟨{ c with
        cells := NorFlash.program pageSize c.cells (Chip.address x y z) data
        wel := false
        frame := [] }, false, n + 3⟩ := by
  rw [transfer_fine_triple rfl (by simp) (by simp)]
  simp only [shifts_frame]
  simp [device, execute, write, hidle, hwel]

theorem transfer_chipErase (hidle : c.busy = 0) (hwel : c.wel = true) (n : Nat) :
    (rtSpiTransferMessage (device 0) .fine ⟨c, false, n⟩
      [⟨[Instr.chipErase.opcode], 0, true, true⟩]).1 =
      ⟨{ c with cells := NorFlash.erased, wel := false, frame := [] }, false, n + 1⟩ := by
  rw [transfer_fine_single rfl]
  simp [device, execute, write, hidle, hwel]

/-- The end of a read changes nothing. -/
theorem execute_readData (time : Nat) (hidle : c.busy = 0) (args : List UInt8) :
    execute time { c with frame := Instr.readData.opcode :: args } =
      { c with frame := Instr.readData.opcode :: args } := by
  unfold execute
  rw [if_neg (by show ¬0 < c.busy; omega)]
  rcases args with _ | ⟨x, _ | ⟨y, _ | ⟨z, _ | ⟨b, args⟩⟩⟩⟩ <;> rfl

theorem transfer_readData (hidle : c.busy = 0) (m n : Nat) :
    rtSpiTransferMessage (device 0) .fine ⟨c, false, n⟩
      [⟨[Instr.readData.opcode], 0, true, false⟩, ⟨[x, y, z], 0, false, false⟩,
        ⟨[], m, false, true⟩] =
      (⟨{ c with frame := [] }, false, n + 3⟩,
        NorFlash.read chipSize c.cells (Chip.address x y z) m) := by
  have hread := shifts_readData 0 (c := { c with frame := [Instr.readData.opcode, x, y, z] }) []
    hidle rfl m
  rw [transfer_fine_triple rfl (by simp) (by simp)]
  simp only [shifts_frame]
  refine Prod.ext ?_ (hread.trans (by simp))
  have hend := execute_readData 0 hidle (x :: y :: z :: List.replicate m 0xff)
  simp [device, hend]

/-- **`Chip` is what the driver sees of the chip** in the calls of the logs: on an idle chip whose
writes are done before the next command, `w25q64_control` does by way of the bus what it does with
`Chip.transfer`. -/
theorem control_chip (hidle : c.busy = 0) {instr : Instr}
    (hinstr : instr = .pageProgram ∨ instr = .chipErase ∨ instr = .readData) (polls n : Nat)
    (dlen : UInt8) (data : List UInt8) :
    (w25q64Control (rtSpiTransferMessage (device 0) .fine) polls ⟨c, false, n⟩ instr [x, y, z] dlen
        data).map (fun r => (r.1.device.chip, r.2)) =
      w25q64Control Chip.transfer polls c.chip instr [x, y, z] dlen data := by
  obtain rfl | rfl | rfl := hinstr
  · rw [Chip.control_pageProgram]
    simp only [w25q64Control, w25q64Write]
    rw [transfer_writeEnable hidle, transfer_pageProgram (by exact hidle) rfl,
      transfer_writeDisable 0 (by exact hidle)]
    rfl
  · have hwait := w25q64Wait_idle 0
      (c := { c with cells := NorFlash.erased, wel := false, frame := [] })
      hidle polls (n + 2)
    have herase : w25q64Control Chip.transfer polls c.chip .chipErase [x, y, z] dlen data =
        some (⟨NorFlash.erased, false⟩, []) := Chip.control_chipErase polls c.chip
    rw [herase]
    simp only [w25q64Control, w25q64Erase]
    rw [transfer_writeEnable hidle, transfer_chipErase (by exact hidle) rfl, hwait, Option.map_some,
      transfer_writeDisable 0 (by exact hidle)]
    rfl
  · simp only [w25q64Control, w25q64Read]
    rw [transfer_readData hidle]
    simp [Chip.transfer, Chip.execute, chip]

end Flash

/-! ## The buffers of the reads -/

theorem Memory.store_stored (mem : Memory) (p : Nat) (bs : List UInt8) :
    (mem.store p bs).stored = mem.stored ++ (List.range bs.length).map (p + ·) := by
  induction bs generalizing mem p with
  | nil => simp [Memory.store]
  | cons b bs ih =>
    rw [Memory.store, ih, List.length_cons, List.range_succ_eq_map, List.map_cons, List.map_map]
    simp [Function.comp_def, Nat.add_assoc, Nat.add_comm 1]

/-- A store leaves what is below it. -/
theorem Memory.store_below (mem : Memory) {p a : Nat} (h : a < p) (bs : List UInt8) :
    (mem.store p bs).bytes a = mem.bytes a := by
  induction bs generalizing mem p with
  | nil => rfl
  | cons b bs ih =>
    rw [Memory.store, ih _ (by omega)]
    exact Function.update_of_ne (by omega) _ _

/-- The bytes stored are in their order from the address on. -/
theorem Memory.store_bytes (mem : Memory) (p : Nat) {bs : List UInt8} {i : Nat} {b : UInt8}
    (h : bs[i]? = some b) : (mem.store p bs).bytes (p + i) = b := by
  induction bs generalizing mem p i with
  | nil => cases h
  | cons b' bs ih =>
    cases i with
    | zero =>
      cases h
      rw [Memory.store, Nat.add_zero, Memory.store_below _ (by omega)]
      exact Function.update_self _ _ _
    | succ i =>
      have hrest : bs[i]? = some b := by simpa using h
      rw [Memory.store, Nat.add_comm i 1, ← Nat.add_assoc]
      exact ih _ _ hrest

/-- All bytes are stored from the address on. -/
theorem Memory.store_within (mem : Memory) (p : Nat) (bs : List UInt8) :
    ∃ stores, (mem.store p bs).stored = mem.stored ++ stores ∧
      ∀ a ∈ stores, p ≤ a ∧ a < p + bs.length := by
  refine ⟨_, mem.store_stored p bs, fun a ha => ?_⟩
  obtain ⟨i, hi, rfl⟩ := List.mem_map.mp ha
  exact ⟨Nat.le_add_right p i, Nat.add_lt_add_left (List.mem_range.mp hi) p⟩

/-- A byte is stored at the address, if there is one. -/
theorem Memory.mem_of_store (mem : Memory) (p : Nat) {bs : List UInt8} (hbs : bs ≠ [])
    {stores : List Nat} (h : (mem.store p bs).stored = mem.stored ++ stores) : p ∈ stores := by
  rw [mem.store_stored p bs, List.append_cancel_left_eq] at h
  rw [← h]
  exact List.mem_map.mpr ⟨0, List.mem_range.mpr (List.length_pos_iff.mpr hbs), rfl⟩

/-- With its buffers or without them, a chain does the same on the bus. -/
theorem transferInto_line (s : SpiLine σ) (mem : Memory) (msgs : List BufferedMessage) :
    (rtSpiTransferMessageInto d o s mem msgs).1 =
      (rtSpiTransferMessage d o s (msgs.map BufferedMessage.toSpiMessage)).1 := by
  induction msgs generalizing s mem with
  | nil => rfl
  | cons msg msgs ih =>
    rw [rtSpiTransferMessageInto, List.map_cons, rtSpiTransferMessage, spixferInto]
    rcases spixfer d o s msg.toSpiMessage with ⟨s₁, received, length⟩
    cases length with
    | zero => rfl
    | succ n => exact ih _ _

/-- The messages are those that `w25q64_control` transfers. -/
theorem control_messages (bus : σ → List SpiMessage → σ × List UInt8) (polls : Nat) (c : σ)
    (i : ReadInstr) (p : ReadPointers) (addr : List UInt8) (dlen : UInt8) (data : List UInt8) :
    (w25q64Control bus polls c i.instr addr dlen data).map Prod.fst =
      some (bus c ((i.messages p addr dlen).map BufferedMessage.toSpiMessage)).1 := by
  cases i <;> rfl

theorem transferInto_goes {msg : SpiMessage} (h : (spixfer d o s msg).2.2 ≠ 0) (mem : Memory)
    (msgs : List BufferedMessage) :
    rtSpiTransferMessageInto d o s mem (⟨msg, none⟩ :: msgs) =
      rtSpiTransferMessageInto d o (spixfer d o s msg).1 mem msgs := by
  rw [rtSpiTransferMessageInto]
  simp only [spixferInto]
  cases hn : (spixfer d o s msg).2.2 with
  | zero => exact absurd hn h
  | succ n => rfl

theorem transferInto_last (s : SpiLine σ) (mem : Memory) (msg : SpiMessage) (p : Nat) :
    (rtSpiTransferMessageInto d o s mem [⟨msg, some p⟩]).2 =
      mem.store p (spixfer d o s msg).2.1 := by
  rw [rtSpiTransferMessageInto]
  simp only [spixferInto]
  cases (spixfer d o s msg).2.2 with
  | zero => rfl
  | succ n => rfl

/-- What the chip sends after the command bytes of a read. -/
def ReadInstr.answers (d : Serial.Device σ UInt8) (s : SpiLine σ) (addr : List UInt8)
    (dlen : UInt8) (i : ReadInstr) : List UInt8 :=
  (d.shifts (d.select s.device) (i.command addr ++ List.replicate (i.length dlen) 0xff)).2.drop
    (i.command addr).length

/-- Where a read puts what the chip sends. -/
def ReadInstr.buffer (p : ReadPointers) : ReadInstr → Nat
  | .readSr1 | .readSr2 => p.param
  | .jedecId | .readData => p.data

/-- **A read stores what the chip sends**, all of it and in its order, from the address on that its
last message has. -/
theorem read_stores (hsel : s.selected = false) (mem : Memory) (i : ReadInstr) (p : ReadPointers)
    (x y z dlen : UInt8) :
    (rtSpiTransferMessageInto d .fine s mem (i.messages p [x, y, z] dlen)).2 =
      mem.store (i.buffer p) (i.answers d s [x, y, z] dlen) := by
  -- the command byte selects the chip and reaches it
  have hopen : ∀ (op : UInt8) (msgs : List BufferedMessage),
      rtSpiTransferMessageInto d .fine s mem (⟨⟨[op], 0, true, false⟩, none⟩ :: msgs) =
        rtSpiTransferMessageInto d .fine
          ⟨(d.shifts (d.select s.device) [op]).1, true, s.count + 1⟩ mem msgs := by
    intro op msgs
    have hx := (spixfer_take (d := d) (o := .fine) ⟨[op], 0, true, false⟩ hsel rfl).trans
      (spixfer_fine _ rfl rfl)
    rw [transferInto_goes (by rw [hx]; simp [SpiMessage.length]), hx]
    rfl
  have hlast : ∀ (s : SpiLine σ) (q n : Nat), s.selected = true →
      (rtSpiTransferMessageInto d .fine s mem [⟨⟨[], n, false, true⟩, some q⟩]).2 =
        mem.store q (d.shifts s.device (List.replicate n 0xff)).2 := by
    intro s q n hs
    rw [transferInto_last, spixfer_fine _ hs rfl]
    rfl
  unfold ReadInstr.answers
  rw [d.drop_shifts_append]
  cases i with
  | readSr1 | readSr2 | jedecId => exact (hopen _ _ ▸ hlast _ _ _ rfl)
  | readData =>
    have haddr : spixfer d .fine ⟨(d.shifts (d.select s.device) [Instr.readData.opcode]).1, true,
        s.count + 1⟩ ⟨[x, y, z], 0, false, false⟩ =
          (⟨(d.shifts (d.shifts (d.select s.device) [Instr.readData.opcode]).1 [x, y, z]).1, true,
            s.count + 2⟩, [], 3) := by
      rw [spixfer_fine _ rfl rfl]
      simp [SpiMessage.wire, SpiMessage.length]
    show (rtSpiTransferMessageInto d .fine s mem (w25q64ReadMessages p [x, y, z] dlen)).2 = _
    unfold w25q64ReadMessages
    rw [hopen, transferInto_goes (by rw [haddr]; simp), haddr, hlast _ _ _ rfl]
    rfl

/-- What a read is to do: the caller's buffer holds what the chip has sent, and no received byte has
been stored anywhere else. -/
def Delivers (d : Serial.Device σ UInt8) (s : SpiLine σ) (mem : Memory) (i : ReadInstr)
    (p : ReadPointers) (addr : List UInt8) (dlen : UInt8) : Prop :=
  let mem' := (rtSpiTransferMessageInto d .fine s mem (i.messages p addr dlen)).2
  (∀ (j : Nat) (b : UInt8), (i.answers d s addr dlen)[j]? = some b → mem'.bytes (p.data + j) = b) ∧
    ∃ stores, mem'.stored = mem.stored ++ stores ∧
      ∀ a ∈ stores, p.data ≤ a ∧ a < p.data + i.length dlen

/-- **Which reads deliver what the chip sent.** For every device, whatever it answers, every
address, every length and every memory: a read delivers if and only if it is one of the
identification or of data; the status registers are not delivered. -/
theorem read_delivers_iff (d : Serial.Device σ UInt8) (s : SpiLine σ) (hsel : s.selected = false)
    (mem : Memory) (i : ReadInstr) (p : ReadPointers) (x y z dlen : UInt8) :
    Delivers d s mem i p [x, y, z] dlen ↔ i = .jedecId ∨ i = .readData := by
  have hlen : (i.answers d s [x, y, z] dlen).length = i.length dlen := by
    simp [ReadInstr.answers]
  unfold Delivers
  rw [read_stores hsel, ← hlen]
  cases i with
  | readSr1 | readSr2 =>
    refine iff_of_false ?_ (by simp)
    rintro ⟨-, stores, hstored, hall⟩
    have hparam := hall _ (mem.mem_of_store p.param (List.ne_nil_of_length_eq_add_one hlen) hstored)
    have hapart := p.apart
    rw [hlen] at hparam
    have hone : p.data ≤ p.param ∧ p.param < p.data + 1 := hparam
    omega
  | jedecId | readData =>
    refine iff_of_true ⟨fun j b hb => ?_, mem.store_within p.data _⟩ (by simp)
    exact mem.store_bytes p.data hb

/-- Two cells of a chip, read into a memory of zeros. -/
theorem read_delivers_data :
    Delivers (Flash.device 0) ⟨⟨fun a => a.toUInt8, false, 0, []⟩, false, 0⟩
      ⟨fun _ => 0, []⟩ .readData ⟨100, 200, by decide⟩ [0, 0, 7] 2 :=
  (read_delivers_iff (Flash.device 0) _ rfl _ .readData ⟨100, 200, by decide⟩ 0 0 7 2).mpr
    (.inr rfl)

/-- The status register of a chip whose latch is set: the caller's buffer is as it was, and the byte
is in the parameter. -/
theorem readSr1_not_delivered :
    ¬Delivers (Flash.device 0) ⟨⟨fun _ => 0, true, 0, []⟩, false, 0⟩
      ⟨fun _ => 0, []⟩ .readSr1 ⟨100, 200, by decide⟩ [0, 0, 0] 0 := by
  intro h
  have hbyte := h.1 0 0x2 rfl
  revert hbyte
  decide

end OsesProject
