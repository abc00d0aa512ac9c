import OsesProject.Peripherals.Mpu6050
import OsesProject.Application.Sampling

/-!
# Which samples of the motion sensor are its own

The buffer of a reading has the registers it asked for in its first bytes, as many as came, and
behind them what it held before (`readRegisters_getD`). What it asked for is its own register only
if the number was written; if not, the sensor goes on from where it stands. So each output is that
of its own registers exactly when every number is written and every byte comes, but for the first
number, which need not be written when the sensor stands there already (`samples_genuine_iff`).
-/

namespace OsesProject.Mpu6050

variable {d : RegisterFile} {buffer : List UInt8} {t : RawFates}

/-! ## Bytes and values -/

theorem int16_emod (a b : UInt8) : int16 a b % 65536 = (a.toNat : Int) * 256 + b.toNat := by
  have ha := a.toNat_lt
  have hb := b.toNat_lt
  have hmod : int16 a b % 65536 = ((a.toNat : Int) * 256 + b.toNat) % 65536 := Int.bmod_emod
  omega

/-- The value tells its bytes. -/
theorem int16_inj {a b a' b' : UInt8} : int16 a b = int16 a' b' ↔ a = a' ∧ b = b' := by
  constructor
  · intro h
    have hb := b.toNat_lt
    have hb' := b'.toNat_lt
    have hbytes := int16_emod a b
    rw [h, int16_emod] at hbytes
    exact ⟨UInt8.toNat_inj.mp (by omega), UInt8.toNat_inj.mp (by omega)⟩
  · rintro ⟨rfl, rfl⟩
    rfl

/-- The first `len` bytes of a buffer are the registers from `reg` on. -/
def Holds (buffer : List UInt8) (regs : UInt8 → UInt8) (reg : UInt8) (len : Nat) : Prop :=
  ∀ i < len, buffer.getD i 0 = regs (reg + UInt8.ofNat i)

/-- The values of three axes in the registers from `reg` on: big-endian, in two's complement. -/
def axesAt (regs : UInt8 → UInt8) (reg : UInt8) (i : Fin 3) : Int :=
  int16 (regs (reg + UInt8.ofNat (i * 2))) (regs (reg + UInt8.ofNat (i * 2 + 1)))

theorem axes_eq_iff (buffer : List UInt8) (regs : UInt8 → UInt8) (reg : UInt8) :
    axes buffer = axesAt regs reg ↔ Holds buffer regs reg 6 := by
  constructor
  · intro h i hi
    obtain ⟨heven, hodd⟩ := int16_inj.mp (congrFun h ⟨i / 2, by omega⟩)
    dsimp only at heven hodd
    rcases Nat.mod_two_eq_zero_or_one i with hmod | hmod
    · rwa [show i / 2 * 2 = i by omega] at heven
    · rwa [show i / 2 * 2 + 1 = i by omega] at hodd
  · intro h
    funext i
    exact int16_inj.mpr ⟨h _ (by omega), h _ (by omega)⟩

/-! ## One reading -/

/-- The register the sensor stands at when it is read. -/
def startOf (d : RegisterFile) (reg : UInt8) (write : Fate) : UInt8 :=
  if write = .done then reg else d.pointer

variable {reg : UInt8} {len : Nat} {write read : Fate}

theorem xfer_write (d : RegisterFile) (reg : UInt8) (write : Fate) :
    (i2cBitXfer d [(⟨.wr, [reg]⟩, write)]).1 = ⟨d.regs, startOf d reg write⟩ := by
  cases write <;> rfl

theorem xfer_read (d : RegisterFile) (buf : List UInt8) (read : Fate) :
    (i2cBitXfer d [(⟨.rd, buf⟩, read)]).1 = (d.read (read.received buf.length)).2 ∧
      (i2cBitXfer d [(⟨.rd, buf⟩, read)]).2.1.flatten =
        (d.read (read.received buf.length)).1 ++ buf.drop (read.received buf.length) := by
  cases read <;> exact ⟨rfl, List.append_nil _⟩

/-- A reading in terms of the sensor: its registers come into the first bytes of the buffer. -/
theorem readRegisters_eq (hbuffer : buffer.length = 6) (hlen : len ≤ 6) :
    readRegisters reg len d buffer write read =
      let r := (⟨d.regs, startOf d reg write⟩ : RegisterFile).read (read.received len)
      (r.2, r.1 ++ (buffer.set 0 reg).drop (read.received len)) := by
  have htake : (buffer.set 0 reg).take 1 = [reg] := by
    cases buffer with
    | nil => cases hbuffer
    | cons b bs => rfl
  have hlength : ((buffer.set 0 reg).take len).length = len := by
    rw [List.length_take, List.length_set, hbuffer]
    exact Nat.min_eq_left hlen
  obtain ⟨hdevice, hbytes⟩ :=
    xfer_read ⟨d.regs, startOf d reg write⟩ ((buffer.set 0 reg).take len) read
  rw [hlength] at hdevice hbytes
  rw [readRegisters, htake]
  refine Prod.ext ?_ ?_
  · show (i2cBitXfer (i2cBitXfer d [(⟨.wr, [reg]⟩, write)]).1 _).1 = _
    rw [xfer_write, hdevice]
  · show (i2cBitXfer (i2cBitXfer d [(⟨.wr, [reg]⟩, write)]).1 _).2.1.flatten ++ _ = _
    rw [xfer_write, hbytes, List.append_assoc]
    congr 1
    rw [← List.drop_append_of_le_length (by rw [hlength]; exact read.received_le len),
      List.take_append_drop]

/-- The sensor after a reading: its registers are the same, and it stands behind the bytes that
came. -/
theorem readRegisters_device (hbuffer : buffer.length = 6) (hlen : len ≤ 6) :
    (readRegisters reg len d buffer write read).1 =
      ⟨d.regs, startOf d reg write + UInt8.ofNat (read.received len)⟩ := by
  rw [readRegisters_eq hbuffer hlen]
  exact RegisterFile.read_snd _ _

theorem readRegisters_length (hbuffer : buffer.length = 6) (hlen : len ≤ 6) :
    (readRegisters reg len d buffer write read).2.length = 6 := by
  have hle := read.received_le len
  rw [readRegisters_eq hbuffer hlen]
  show (_ ++ _ : List UInt8).length = 6
  rw [List.length_append, RegisterFile.read_fst_length, List.length_drop, List.length_set, hbuffer]
  omega

/-- The buffer after a reading: the bytes that came, and what it held before. -/
theorem readRegisters_getD (hbuffer : buffer.length = 6) (hlen : len ≤ 6) (i : Nat) :
    (readRegisters reg len d buffer write read).2.getD i 0 =
      if i < read.received len then d.regs (startOf d reg write + UInt8.ofNat i)
      else (buffer.set 0 reg).getD i 0 := by
  rw [readRegisters_eq hbuffer hlen]
  show (_ ++ _ : List UInt8).getD i 0 = _
  rw [List.getD_eq_getElem?_getD, List.getElem?_append, RegisterFile.read_fst_length]
  split
  · next hi => rw [RegisterFile.read_get _ hi, Option.getD_some]
  · next hi =>
    rw [List.getElem?_drop, List.getD_eq_getElem?_getD]
    congr 2
    omega

/-- A reading from its own register whose bytes all came holds what it asked for. -/
theorem readRegisters_holds (hbuffer : buffer.length = 6) (hlen : len ≤ 6)
    (hstart : startOf d reg write = reg) (hread : read.received len = len) :
    Holds (readRegisters reg len d buffer write read).2 d.regs reg len := by
  intro i hi
  rw [readRegisters_getD hbuffer hlen, if_pos (by omega), hstart]

/-- If a byte is missing, the last one is what the buffer held before. -/
theorem last_of_missing {regs : UInt8 → UInt8} (len : Nat) (hbuffer : buffer.length = 6)
    (hlen : len + 2 ≤ 6) (hread : read.received (len + 2) ≠ len + 2)
    (h : Holds (readRegisters reg (len + 2) d buffer write read).2 regs reg (len + 2)) :
    buffer.getD (len + 1) 0 = regs (reg + UInt8.ofNat (len + 1)) := by
  have hle := read.received_le (len + 2)
  have hlast := h (len + 1) (Nat.lt_succ_self _)
  rw [readRegisters_getD hbuffer hlen, if_neg (by omega), List.getD_eq_getElem?_getD,
    List.getElem?_set_ne (Nat.succ_ne_zero len).symm] at hlast
  rwa [List.getD_eq_getElem?_getD]

/-- Registers with a one in a single place. -/
def only (reg r : UInt8) : UInt8 := if r = reg then 1 else 0

/-- A sensor with a one in the register has been read from there if the reading holds it. -/
theorem startOf_eq_of_holds (len : Nat) (hbuffer : buffer.length = 6) (hlen : len + 1 ≤ 6)
    (hread : read.received (len + 1) = len + 1) (hregs : d.regs = only reg)
    (h : Holds (readRegisters reg (len + 1) d buffer write read).2 (only reg) reg (len + 1)) :
    startOf d reg write = reg := by
  have hfirst := h 0 (Nat.succ_pos len)
  rw [readRegisters_getD hbuffer hlen, if_pos (by omega), show UInt8.ofNat 0 = 0 from rfl,
    UInt8.add_zero, UInt8.add_zero, hregs] at hfirst
  by_contra hne
  have hzero : only reg (startOf d reg write) = 0 := if_neg hne
  have hone : only reg reg = 1 := if_pos rfl
  exact absurd (hzero.symm.trans (hfirst.trans hone)) (by decide)

/-! ## The call -/

/-- Each output is that of its own registers, or as it was before the call. -/
def Genuine (out old : Motion) (regs : UInt8 → UInt8) : Prop :=
  (out.accel = axesAt regs 0x3B ∨ out.accel = old.accel) ∧
    (out.gyro = axesAt regs 0x43 ∨ out.gyro = old.gyro) ∧
    (out.temp = int16 (regs 0x41) (regs 0x42) ∨ out.temp = old.temp)

/-- The registers of the acceleration. -/
def accelRegs : List UInt8 := [0x3B, 0x3C, 0x3D, 0x3E, 0x3F, 0x40]

/-- No call with these fates fabricates a sample: each output is genuine, whatever the registers,
the stack and the outputs held before, and the rotation and the temperature do not depend on the
acceleration. -/
def NeverFabricates (pointer : UInt8) (t : RawFates) : Prop :=
  (∀ regs buffer old, buffer.length = 6 →
    Genuine (readRaw ⟨regs, pointer⟩ buffer t) old regs) ∧
  ∀ regs regs' buffer, buffer.length = 6 → (∀ r, r ∉ accelRegs → regs r = regs' r) →
    (readRaw ⟨regs, pointer⟩ buffer t).gyro = (readRaw ⟨regs', pointer⟩ buffer t).gyro ∧
      (readRaw ⟨regs, pointer⟩ buffer t).temp = (readRaw ⟨regs', pointer⟩ buffer t).temp

/-- Every number is written and every byte comes. -/
structure Answered (pointer : UInt8) (t : RawFates) : Prop where
  accWrite : t.accWrite = .done ∨ pointer = 0x3B
  accRead : t.accRead.received 6 = 6
  gyroWrite : t.gyroWrite = .done
  gyroRead : t.gyroRead.received 6 = 6
  tempWrite : t.tempWrite = .done
  tempRead : t.tempRead.received 2 = 2

theorem temp_eq_iff (buffer : List UInt8) (regs : UInt8 → UInt8) :
    int16 (buffer.getD 0 0) (buffer.getD 1 0) = int16 (regs 0x41) (regs 0x42) ↔
      Holds buffer regs 0x41 2 := by
  have hfirst : (0x41 : UInt8) + UInt8.ofNat 0 = 0x41 := by decide
  have hsecond : (0x41 : UInt8) + UInt8.ofNat 1 = 0x42 := by decide
  rw [int16_inj, ← hsecond]
  nth_rewrite 1 [← hfirst]
  constructor
  · rintro ⟨h0, h1⟩ i hi
    match i with
    | 0 => exact h0
    | 1 => exact h1
  · intro h
    exact ⟨h 0 (by omega), h 1 (by omega)⟩

theorem readRaw_accel : (readRaw d buffer t).accel = axes (accelBuffer d buffer t).2 := by
  rw [readRaw]

theorem readRaw_gyro : (readRaw d buffer t).gyro = axes (gyroBuffer d buffer t).2 := by
  rw [readRaw]

theorem readRaw_temp : (readRaw d buffer t).temp =
    int16 ((tempBuffer d buffer t).2.getD 0 0) ((tempBuffer d buffer t).2.getD 1 0) := by
  rw [readRaw]

/-- The outputs are genuine whatever they were before exactly when the three buffers hold the
registers. -/
theorem genuine_iff_holds (d : RegisterFile) (buffer : List UInt8) (t : RawFates) :
    (∀ old, Genuine (readRaw d buffer t) old d.regs) ↔
      Holds (accelBuffer d buffer t).2 d.regs 0x3B 6 ∧
        Holds (gyroBuffer d buffer t).2 d.regs 0x43 6 ∧
        Holds (tempBuffer d buffer t).2 d.regs 0x41 2 := by
  rw [← axes_eq_iff, ← axes_eq_iff, ← temp_eq_iff, ← readRaw_accel, ← readRaw_gyro, ← readRaw_temp]
  constructor
  · intro h
    -- other values before the call than the ones after it
    have hother := h ⟨fun i => (readRaw d buffer t).accel i + 1,
      fun i => (readRaw d buffer t).gyro i + 1, (readRaw d buffer t).temp + 1⟩
    obtain ⟨haccel, hgyro, htemp⟩ := hother
    refine ⟨haccel.resolve_right ?_, hgyro.resolve_right ?_, htemp.resolve_right ?_⟩
    · exact fun heq => (Int.lt_succ _).ne (congrFun heq 0)
    · exact fun heq => (Int.lt_succ _).ne (congrFun heq 0)
    · exact (Int.lt_succ _).ne
  · rintro ⟨haccel, hgyro, htemp⟩ old
    exact ⟨.inl haccel, .inl hgyro, .inl htemp⟩

/-! ## What the sensor and the buffer are between the readings -/

theorem accelBuffer_length (hbuffer : buffer.length = 6) :
    (accelBuffer d buffer t).2.length = 6 :=
  readRegisters_length hbuffer (Nat.le_refl 6)

theorem gyroBuffer_length (hbuffer : buffer.length = 6) : (gyroBuffer d buffer t).2.length = 6 :=
  readRegisters_length (accelBuffer_length hbuffer) (Nat.le_refl 6)

theorem accelBuffer_device (hbuffer : buffer.length = 6) :
    (accelBuffer d buffer t).1 =
      ⟨d.regs, startOf d 0x3B t.accWrite + UInt8.ofNat (t.accRead.received 6)⟩ :=
  readRegisters_device hbuffer (Nat.le_refl 6)

theorem gyroBuffer_device (hbuffer : buffer.length = 6) :
    (gyroBuffer d buffer t).1 =
      ⟨d.regs, startOf (accelBuffer d buffer t).1 0x43 t.gyroWrite +
        UInt8.ofNat (t.gyroRead.received 6)⟩ := by
  rw [gyroBuffer, readRegisters_device (accelBuffer_length hbuffer) (Nat.le_refl 6),
    accelBuffer_device hbuffer]

variable {pointer : UInt8} {regs : UInt8 → UInt8}

theorem startOf_eq_iff {r : UInt8} : startOf d r write = r ↔ write = .done ∨ d.pointer = r := by
  rw [startOf]
  split
  · next hdone => exact ⟨fun _ => .inl hdone, fun _ => rfl⟩
  · next hdone => exact ⟨.inr, fun h => h.resolve_left hdone⟩

theorem accelBuffer_holds (hbuffer : buffer.length = 6)
    (hstart : startOf d 0x3B t.accWrite = 0x3B) (hread : t.accRead.received 6 = 6) :
    Holds (accelBuffer d buffer t).2 d.regs 0x3B 6 :=
  readRegisters_holds hbuffer (Nat.le_refl 6) hstart hread

theorem gyroBuffer_holds (hbuffer : buffer.length = 6) (hwrite : t.gyroWrite = .done)
    (hread : t.gyroRead.received 6 = 6) : Holds (gyroBuffer d buffer t).2 d.regs 0x43 6 := by
  have hregs : (accelBuffer d buffer t).1.regs = d.regs := by rw [accelBuffer_device hbuffer]
  rw [← hregs]
  exact readRegisters_holds (accelBuffer_length hbuffer) (Nat.le_refl 6)
    (startOf_eq_iff.mpr (.inl hwrite)) hread

theorem tempBuffer_holds (hbuffer : buffer.length = 6) (hwrite : t.tempWrite = .done)
    (hread : t.tempRead.received 2 = 2) : Holds (tempBuffer d buffer t).2 d.regs 0x41 2 := by
  have hregs : (gyroBuffer d buffer t).1.regs = d.regs := by rw [gyroBuffer_device hbuffer]
  rw [← hregs]
  exact readRegisters_holds (gyroBuffer_length hbuffer) (by omega)
    (startOf_eq_iff.mpr (.inl hwrite)) hread

/-- With every number written and every byte there, the three buffers hold the registers. -/
theorem Answered.holds (h : Answered pointer t) (regs : UInt8 → UInt8)
    (hbuffer : buffer.length = 6) :
    Holds (accelBuffer ⟨regs, pointer⟩ buffer t).2 regs 0x3B 6 ∧
      Holds (gyroBuffer ⟨regs, pointer⟩ buffer t).2 regs 0x43 6 ∧
      Holds (tempBuffer ⟨regs, pointer⟩ buffer t).2 regs 0x41 2 :=
  ⟨accelBuffer_holds hbuffer (startOf_eq_iff.mpr h.accWrite) h.accRead,
    gyroBuffer_holds hbuffer h.gyroWrite h.gyroRead,
    tempBuffer_holds hbuffer h.tempWrite h.tempRead⟩

/-- The other way: registers with a single one in them, and a buffer with a one at its end, show
which number was not written and which byte did not come. -/
theorem answered_of_holds (h : ∀ regs buffer, buffer.length = 6 →
      Holds (accelBuffer ⟨regs, pointer⟩ buffer t).2 regs 0x3B 6 ∧
        Holds (gyroBuffer ⟨regs, pointer⟩ buffer t).2 regs 0x43 6 ∧
        Holds (tempBuffer ⟨regs, pointer⟩ buffer t).2 regs 0x41 2) :
    Answered pointer t := by
  let stack : List UInt8 := [0, 0, 0, 0, 0, 1]
  have hbuffer : stack.length = 6 := rfl
  -- the acceleration
  have haccRead : t.accRead.received 6 = 6 := by
    by_contra hread
    have hlast := last_of_missing 4 hbuffer (Nat.le_refl 6) hread (h (fun _ => 0) _ hbuffer).1
    exact absurd hlast (by decide)
  have haccWrite : t.accWrite = .done ∨ pointer = 0x3B :=
    startOf_eq_iff.mp
      (startOf_eq_of_holds 5 hbuffer (Nat.le_refl 6) haccRead rfl (h (only 0x3B) _ hbuffer).1)
  have haccStart (regs : UInt8 → UInt8) : startOf ⟨regs, pointer⟩ 0x3B t.accWrite = 0x3B :=
    startOf_eq_iff.mpr haccWrite
  have haccDevice (regs : UInt8 → UInt8) :
      (accelBuffer ⟨regs, pointer⟩ stack t).1 = ⟨regs, 0x41⟩ := by
    rw [accelBuffer_device hbuffer, haccStart, haccRead]
    rfl
  -- the rotation, for which the buffer has the acceleration in it
  have hgyroRead : t.gyroRead.received 6 = 6 := by
    by_contra hread
    have hlast : (accelBuffer ⟨only 0x48, pointer⟩ stack t).2.getD 5 0 = only 0x48 0x48 :=
      last_of_missing 4 (accelBuffer_length hbuffer) (Nat.le_refl 6) hread
        (h (only 0x48) _ hbuffer).2.1
    have hbyte : (accelBuffer ⟨only 0x48, pointer⟩ stack t).2.getD 5 0 = only 0x48 0x40 :=
      accelBuffer_holds hbuffer (haccStart _) haccRead 5 (by omega)
    exact absurd (hbyte.symm.trans hlast) (by decide)
  have hgyroStart :
      startOf (accelBuffer ⟨only 0x43, pointer⟩ stack t).1 0x43 t.gyroWrite = 0x43 :=
    startOf_eq_of_holds 5 (accelBuffer_length hbuffer) (Nat.le_refl 6) hgyroRead
      (by rw [haccDevice]) (h (only 0x43) _ hbuffer).2.1
  have hgyroWrite : t.gyroWrite = .done := by
    rw [haccDevice] at hgyroStart
    exact (startOf_eq_iff.mp hgyroStart).resolve_right fun hp : (0x41 : UInt8) = 0x43 =>
      absurd hp (by decide)
  -- the temperature, for which the buffer has the rotation in it
  have hgyroDevice (regs : UInt8 → UInt8) :
      (gyroBuffer ⟨regs, pointer⟩ stack t).1 = ⟨regs, 0x49⟩ := by
    rw [gyroBuffer_device hbuffer, startOf_eq_iff.mpr (.inl hgyroWrite), hgyroRead]
    rfl
  have htempRead : t.tempRead.received 2 = 2 := by
    by_contra hread
    have hlast : (gyroBuffer ⟨only 0x42, pointer⟩ stack t).2.getD 1 0 = only 0x42 0x42 :=
      last_of_missing 0 (gyroBuffer_length hbuffer) (by omega) hread (h (only 0x42) _ hbuffer).2.2
    have hbyte : (gyroBuffer ⟨only 0x42, pointer⟩ stack t).2.getD 1 0 = only 0x42 0x44 :=
      gyroBuffer_holds hbuffer hgyroWrite hgyroRead 1 (by omega)
    exact absurd (hbyte.symm.trans hlast) (by decide)
  have htempStart :
      startOf (gyroBuffer ⟨only 0x41, pointer⟩ stack t).1 0x41 t.tempWrite = 0x41 :=
    startOf_eq_of_holds 1 (gyroBuffer_length hbuffer) (by omega) htempRead
      (by rw [hgyroDevice]) (h (only 0x41) _ hbuffer).2.2
  have htempWrite : t.tempWrite = .done := by
    rw [hgyroDevice] at htempStart
    exact (startOf_eq_iff.mp htempStart).resolve_right fun hp : (0x49 : UInt8) = 0x41 =>
      absurd hp (by decide)
  exact ⟨haccWrite, haccRead, hgyroWrite, hgyroRead, htempWrite, htempRead⟩

/-- **Which calls fabricate nothing.** For every register the sensor stands at and all that can
become of the six transfers: whatever the registers, the stack and the outputs hold, each output of
`mpu6050_read_raw` is the value of its own registers or unchanged, and the rotation and the
temperature do not depend on the acceleration, if and only if every number of a register is written
and every byte of an answer comes, where the first number need not be written to a sensor that
stands there. -/
theorem samples_genuine_iff (pointer : UInt8) (t : RawFates) :
    NeverFabricates pointer t ↔ Answered pointer t := by
  constructor
  · intro h
    apply answered_of_holds
    intro regs buffer hbuffer
    exact (genuine_iff_holds ⟨regs, pointer⟩ buffer t).mp fun old => h.1 regs buffer old hbuffer
  · intro h
    refine ⟨?_, ?_⟩
    · intro regs buffer old hbuffer
      exact (genuine_iff_holds ⟨regs, pointer⟩ buffer t).mpr (h.holds regs hbuffer) old
    · intro regs regs' buffer hbuffer hagree
      obtain ⟨-, hgyro, htemp⟩ := h.holds regs hbuffer
      obtain ⟨-, hgyro', htemp'⟩ := h.holds regs' hbuffer
      refine ⟨?_, ?_⟩
      · rw [readRaw_gyro, readRaw_gyro, (axes_eq_iff _ _ _).mpr hgyro,
          (axes_eq_iff _ _ _).mpr hgyro']
        funext i
        exact int16_inj.mpr ⟨hagree _ (by revert i; decide), hagree _ (by revert i; decide)⟩
      · rw [readRaw_temp, readRaw_temp, (temp_eq_iff _ _).mpr htemp, (temp_eq_iff _ _).mpr htemp',
          hagree _ (by decide), hagree _ (by decide)]

/-- The number of the rotation is not written: the sensor goes on from the temperature, and the
rotation is made of other registers. -/
theorem sample_fabricated :
    ¬NeverFabricates 0 ⟨.done, .done, .stops 0, .done, .done, .done⟩ := by
  intro h
  have hgenuine := (h.1 (only 0x43) [0, 0, 0, 0, 0, 0] ⟨fun _ => 7, fun _ => 7, 7⟩ rfl).2.1
  rcases hgenuine with hown | hold
  · exact absurd (congrFun hown 0) (by decide)
  · exact absurd (congrFun hold 0) (by decide)

/-! ## The outcome of an iteration -/

/-- The outcome of an iteration of the producer in which the sensor is read so. -/
def outcome (d : RegisterFile) (buffer : List UInt8) (t : RawFates) (baroRead : Bool)
    (baroBuffer : Fin 8 → UInt8) : Outcome where
  accWrite := t.accWrite = .done
  accRead := t.accRead = .done
  accBuffer := fun i => (accelBuffer d buffer t).2.getD i 0
  gyroWrite := t.gyroWrite = .done
  gyroRead := t.gyroRead = .done
  gyroBuffer := fun i => (gyroBuffer d buffer t).2.getD i 0
  baroRead := baroRead
  baroBuffer := baroBuffer

/-- The axes are those of the first six bytes. -/
theorem axes_ofFn (buffer : List UInt8) :
    axes (List.ofFn fun i : Fin 6 => buffer.getD i 0) = axes buffer := by
  funext i
  unfold axes
  have hbyte : ∀ j < 6, (List.ofFn fun i : Fin 6 => buffer.getD i 0).getD j 0 = buffer.getD j 0 :=
    fun j hj => by
      rw [List.getD_eq_getElem?_getD, List.getElem?_ofFn, dif_pos hj, Option.getD_some]
  rw [hbyte _ (by omega), hbyte _ (by omega)]

/-- The producer's model of the call has the outputs of this one. -/
theorem mpu6050ReadRaw_outcome (d : RegisterFile) (buffer : List UInt8) (t : RawFates)
    (baroRead : Bool) (baroBuffer : Fin 8 → UInt8) :
    mpu6050ReadRaw (outcome d buffer t baroRead baroBuffer) =
      ((readRaw d buffer t).accel, (readRaw d buffer t).gyro) := by
  rw [mpu6050ReadRaw, readRaw_accel, readRaw_gyro]
  exact congrArg₂ Prod.mk (axes_ofFn _) (axes_ofFn _)

end OsesProject.Mpu6050
