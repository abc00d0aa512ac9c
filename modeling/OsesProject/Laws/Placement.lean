import OsesProject.Laws.Wraparound

/-!
# The cursors, and the cells they stand for

The cursor of a log runs through its own half of the logical addresses: every record is programmed
in it, the records since the log last began again one behind the other, the read goes to the latest
of them, and no sum or difference of 32 bits wraps around. `cursor_invariant` says so of the address
bytes that `w25q64_control` is called with.

The cells are another matter. The bytes of the cursor arrive in the wrong order, and a page program
does not go on into the next page. So a record lies in the cells its cursor stands for exactly when
the low byte of the cursor equals its high byte and the record fits in the rest of its page
(`record_lands_iff`); for the second raw record this is not so (`record_misplaced`).
-/

namespace OsesProject

open Machine NorFlash

variable {F : Type} {conv : Conversion F} {polls : Nat} {s s' : FlashLog} {op : LogOp F}
  {log : Log}

/-! ## The cursors -/

/-- Where the half of a log ends. -/
def Log.bound : Log → Nat
  | .raw => 0x800000
  | .bench => 0x1000000

/-- A record before the end of its log lies in the half of the log. -/
theorem Log.fits {addr : UInt32} (h : addr < log.limit) :
    addr.toNat + log.dlen.toNat ≤ log.bound := by
  have h := UInt32.lt_iff_toNat_lt.mp h
  cases log with
  | raw =>
    simp only [Log.limit, Log.dlen, Log.bound, UInt32.reduceToNat, UInt8.reduceToNat] at h ⊢
    omega
  | bench =>
    simp only [Log.limit, Log.dlen, Log.bound, UInt32.reduceToNat, UInt8.reduceToNat] at h ⊢
    omega

theorem Log.stride_eq (log : Log) : log.stride.toNat = log.dlen.toNat := by
  cases log <;> rfl

/-- A call programs a record of the log at `a`, after an erase if it begins its log again. -/
def LogOp.ProgramsAt (conv : Conversion F) (s : FlashLog) (op : LogOp F) (log : Log) (a : UInt32) :
    Prop :=
  ∃ data : List UInt8, data.length = log.dlen.toNat ∧
    op.commands conv s = (if s.Wraps log then [⟨.chipErase, [], 0, []⟩] else []) ++
      [⟨.pageProgram, addr8 a, log.dlen, data⟩]

/-- A call reads a record of the log at `a`. -/
def LogOp.ReadsAt (conv : Conversion F) (s : FlashLog) (op : LogOp F) (log : Log) (a : UInt32) :
    Prop :=
  op.commands conv s = [⟨.readData, addr8 a, log.dlen, []⟩]

theorem programsAt_of_writes (conv : Conversion F) (s : FlashLog) (h : log ∈ op.writes) :
    op.ProgramsAt conv s log (s.wrap log).2 := by
  have hwrite (data : List UInt8) : s.writeCommands log data =
      (if s.Wraps log then [⟨.chipErase, [], 0, []⟩] else []) ++
        [⟨.pageProgram, addr8 (s.wrap log).2, log.dlen, data⟩] := by
    rw [FlashLog.writeCommands]
    congr 1
    unfold FlashLog.wrap
    split <;> rfl
  cases op with
  | writeRaw accV gyroV baroV =>
    cases h
    exact ⟨_, by simp [encode_length, Log.dlen], hwrite _⟩
  | writeBench results =>
    cases h
    exact ⟨_, by simp [List.length_flatMap, encode_length, Log.dlen], hwrite _⟩
  | readRaw | readBench => cases h

theorem readsAt_of_reads (conv : Conversion F) (s : FlashLog) (h : log ∈ op.reads) :
    op.ReadsAt conv s log (s.cursor log - log.stride) := by
  cases op with
  | readRaw | readBench =>
    cases h
    rfl
  | writeRaw | writeBench => cases h

theorem logStep_of_reads (conv : Conversion F) (polls : Nat) (s : FlashLog) {log : Log}
    (h : log ∈ op.reads) : logStep conv polls s op = some s := by
  have hread : s.readMemAsync polls log = some (s, _) := s.readMemAsync_eq log
  cases op with
  | readRaw | readBench =>
    cases h
    exact congrArg (Option.map Prod.fst) hread
  | writeRaw | writeBench => cases h

/-- **A call is its commands**: what it does to the chip and what it gets are what its calls of
`w25q64_control` do and get. -/
theorem control_commands (conv : Conversion F) (polls : Nat) (s : FlashLog) (op : LogOp F) :
    ∃ s' rd, logStep conv polls s op = some s' ∧ op.gets polls s = some rd ∧
      s.chip.control polls (op.commands conv s) = some (s'.chip, rd) := by
  have hread (log : Log) (hgets : op.gets polls s = (s.readMemAsync polls log).map Prod.snd)
      (hreads : log ∈ op.reads) (hcommands : op.commands conv s = s.readCommands log) :
      ∃ s' rd, logStep conv polls s op = some s' ∧ op.gets polls s = some rd ∧
        s.chip.control polls (op.commands conv s) = some (s'.chip, rd) := by
    have hcontrol : s.readMemAsync polls log = some (s, _) := s.readMemAsync_eq log
    rw [FlashLog.readMemAsync, Option.map_eq_some_iff] at hcontrol
    obtain ⟨⟨chip, rd⟩, hcontrol, hs⟩ := hcontrol
    have hchip : chip = s.chip := congrArg (fun r => r.1.chip) hs
    subst hchip
    refine ⟨s, rd, logStep_of_reads conv polls s hreads, ?_, hcommands ▸ hcontrol⟩
    rw [hgets, FlashLog.readMemAsync, hcontrol]
    rfl
  cases op with
  | writeRaw accV gyroV baroV =>
    exact ⟨_, _, logStep_writeRaw s accV gyroV baroV, rfl,
      FlashLog.control_writeCommands (by simp [encode_length, Log.dlen])⟩
  | writeBench results =>
    exact ⟨_, _, logStep_writeBench s results, rfl, FlashLog.control_writeCommands
      (by simp [List.length_flatMap, encode_length, Log.dlen])⟩
  | readRaw => exact hread .raw rfl rfl rfl
  | readBench => exact hread .bench rfl rfl rfl

/-- What a call does to the cursor of a log. -/
theorem cursor_step (h : logStep conv polls s op = some s') (log : Log) :
    log ∈ op.writes ∧ s'.cursor log = (s.wrap log).2 + log.stride ∨
      log ∉ op.writes ∧ s'.cursor log = s.cursor log := by
  rcases logStep_cases h with ⟨hnone, rfl⟩ | ⟨log', data, i, hwrites, -, rfl⟩
  · exact .inr ⟨by simp [hnone], rfl⟩
  · by_cases hl : log = log'
    · subst hl
      exact .inl ⟨hwrites, by simp [FlashLog.stored, s.wrap_snd]⟩
    · exact .inr ⟨by simpa [hwrites] using Ne.symm hl, cursor_of_ne hl s data⟩

/-- The address a write programs at lies in its log, and the cursor behind it does not wrap
around. -/
theorem CursorInv.wrap_bounds (hC : CursorInv s) (log : Log) :
    log.first ≤ (s.wrap log).2 ∧ (s.wrap log).2.toNat + log.dlen.toNat ≤ log.bound ∧
      ((s.wrap log).2 + log.stride).toNat = (s.wrap log).2.toNat + log.stride.toNat := by
  obtain ⟨k, hk, hlt⟩ := hC.wrapped log
  rw [s.wrap_snd]
  refine ⟨?_, Log.fits hlt, Log.add_stride hlt⟩
  rw [UInt32.le_iff_toNat_le, hk]
  exact Nat.le_add_right _ _

/-- While a log does not begin again, its cursor does not go back. -/
theorem le_cursor_of_reach {n : Nat} (hC : CursorInv s) (hn : n ≤ (s.cursor log).toNat)
    (hreach : Reach (logStep conv polls) (fun s op => log ∈ op.writes → ¬s.Wraps log) s s') :
    n ≤ (s'.cursor log).toNat ∧ CursorInv s' := by
  refine hreach.invariant (fun s => n ≤ (s.cursor log).toNat ∧ CursorInv s) ⟨hn, hC⟩ ?_
  rintro s op s' ⟨hn, hC⟩ hok hstep
  refine ⟨?_, hC.step hstep⟩
  rcases cursor_step hstep log with ⟨hwrites, hcursor⟩ | ⟨-, hcursor⟩
  · have hsame : (s.wrap log).2 = s.cursor log := by
      rw [FlashLog.wrap, if_neg (hok hwrites)]
    rw [hcursor, (hC.wrap_bounds log).2.2, hsame]
    exact hn.trans (Nat.le_add_right _ _)
  · rw [hcursor]
    exact hn

/-- While a log is not written, its cursor stays. -/
theorem cursor_of_reach
    (hreach : Reach (logStep conv polls) (fun _ op => log ∉ op.writes) s s') :
    s'.cursor log = s.cursor log := by
  refine hreach.invariant (fun s' => s'.cursor log = s.cursor log) rfl ?_
  intro s' op s'' hsame hok hstep
  rcases cursor_step hstep log with ⟨hwrites, -⟩ | ⟨-, hcursor⟩
  · exact absurd hwrites hok
  · exact hcursor.trans hsame

/-- **The cursors of the two logs.** In every state reached, a call does what its calls of
`w25q64_control` do and gets what they get. A write makes one of `PAGE_PROGRAM`, after one of
`CHIP_ERASE` if it begins its log again; with the address bytes `a` it has, the record lies in the
half of the log, and the sum that moves the cursor on does not wrap around. The writes to the log
behind it, up to the one that begins the log again, program behind this record. And a read of the
log, up to the next write to it, makes one call of `READ_DATA` with the same `a`, a difference that
does not wrap around. -/
theorem cursor_invariant (conv : Conversion F) (polls : Nat)
    (hreach : Reach (logStep conv polls) (fun _ _ => True) FlashLog.start s) (op : LogOp F) :
    ∃ s' rd, logStep conv polls s op = some s' ∧ op.gets polls s = some rd ∧
      s.chip.control polls (op.commands conv s) = some (s'.chip, rd) ∧
      ∀ log ∈ op.writes, ∃ a, op.ProgramsAt conv s log a ∧
        log.first ≤ a ∧ a.toNat + log.dlen.toNat ≤ log.bound ∧
        (a + log.stride).toNat = a.toNat + log.stride.toNat ∧
        (∀ s₁, Reach (logStep conv polls) (fun s op => log ∈ op.writes → ¬s.Wraps log) s' s₁ →
          ∀ op₁ : LogOp F, log ∈ op₁.writes → ¬s₁.Wraps log → ∃ b, op₁.ProgramsAt conv s₁ log b ∧
            a.toNat + log.dlen.toNat ≤ b.toNat ∧ b.toNat + log.dlen.toNat ≤ log.bound) ∧
        (∀ s₁, Reach (logStep conv polls) (fun _ op => log ∉ op.writes) s' s₁ →
          ∀ op₁ : LogOp F, log ∈ op₁.reads →
            op₁.ReadsAt conv s₁ log a ∧ log.stride ≤ s₁.cursor log) := by
  have hC := cursorInv_of_reach hreach
  obtain ⟨s', rd, hstep, hgets, hcontrol⟩ := control_commands conv polls s op
  refine ⟨s', rd, hstep, hgets, hcontrol, fun log hwrites => ?_⟩
  obtain ⟨hfirst, hbound, hadd⟩ := hC.wrap_bounds log
  have hcursor : s'.cursor log = (s.wrap log).2 + log.stride := by
    rcases cursor_step hstep log with ⟨-, h⟩ | ⟨h, -⟩
    · exact h
    · exact absurd hwrites h
  refine ⟨_, programsAt_of_writes conv s hwrites, hfirst, hbound, hadd, ?_, ?_⟩
  · intro s₁ hreach₁ op₁ hwrites₁ hwrap₁
    have hbehind : (s.wrap log).2.toNat + log.dlen.toNat ≤ (s'.cursor log).toNat := by
      rw [hcursor, hadd, log.stride_eq]
    obtain ⟨hle, hC₁⟩ := le_cursor_of_reach (hC.step hstep) hbehind hreach₁
    have hsame : (s₁.wrap log).2 = s₁.cursor log := by rw [FlashLog.wrap, if_neg hwrap₁]
    exact ⟨_, programsAt_of_writes conv s₁ hwrites₁, hsame ▸ hle, (hC₁.wrap_bounds log).2.1⟩
  · intro s₁ hreach₁ op₁ hreads
    have hsame : s₁.cursor log = (s.wrap log).2 + log.stride :=
      (cursor_of_reach hreach₁).trans hcursor
    have hback : s₁.cursor log - log.stride = (s.wrap log).2 := by
      rw [hsame, UInt32.add_sub_cancel]
    refine ⟨hback ▸ readsAt_of_reads conv s₁ hreads, ?_⟩
    rw [UInt32.le_iff_toNat_le, hsame, hadd]
    exact Nat.le_add_left _ _

/-- A raw record, read back, and a second one behind it. -/
theorem cursor_invariant_two :
    ∃ s, logStep wholeNumbers 0 FlashLog.start (writeValue 1) = some s ∧
      logStep wholeNumbers 0 s .readRaw = some s ∧ ∃ a b,
        (writeValue 1).ProgramsAt wholeNumbers FlashLog.start .raw a ∧
        LogOp.readRaw.ReadsAt wholeNumbers s .raw a ∧
        (writeValue 3).ProgramsAt wholeNumbers s .raw b ∧ a.toNat + 12 ≤ b.toNat := by
  obtain ⟨s, -, hwrite, -, -, hall⟩ := cursor_invariant wholeNumbers 0 .refl (writeValue 1)
  obtain ⟨a, hfirst, -, -, -, hnext, hread⟩ := hall .raw rfl
  have hstep : logStep wholeNumbers 0 s .readRaw = some s :=
    logStep_of_reads wholeNumbers 0 s (show Log.raw ∈ LogOp.readRaw.reads from rfl)
  have hwrap : ¬s.Wraps .raw := by
    have hrun : ((logStep wholeNumbers 0 FlashLog.start (writeValue 1)).map fun s =>
        decide (s.Wraps .raw)) = some false := by decide +kernel
    rw [hwrite] at hrun
    simpa using hrun
  obtain ⟨b, hsecond, hle, -⟩ :=
    hnext s (.tail .refl (fun h => by cases h) hstep) (writeValue 3) rfl hwrap
  exact ⟨s, hwrite, hstep, a, b, hfirst, (hread s .refl .readRaw rfl).1, hsecond, hle⟩

/-! ## The cells -/

/-- A write with the cursor at `addr` ANDs byte `i` into the cell `addr + i` and changes no other
cell, and the read that follows gets these cells, whatever the chip holds and the record is. The
cells are numbered modulo the size of the chip. -/
def Lands (polls : Nat) (log : Log) (addr : UInt32) : Prop :=
  ∀ (s : FlashLog) (data : List UInt8), s.cursor log = addr → ¬s.Wraps log →
    data.length = log.dlen.toNat → ∃ s', s.writeMemAsync polls log data = some s' ∧
      (∀ i b, data[i]? = some b → s'.chip.cells ((addr.toNat + i) % chipSize) =
        s.chip.cells ((addr.toNat + i) % chipSize) &&& b) ∧
      (∀ c, (∀ i < data.length, c ≠ (addr.toNat + i) % chipSize) →
        s'.chip.cells c = s.chip.cells c) ∧
      s'.readMemAsync polls log =
        some (s', NorFlash.read chipSize s'.chip.cells addr.toNat log.dlen.toNat)

/-- The chip takes the address that the cursor stands for, and the record fits in the rest of its
page. -/
def Straight (log : Log) (addr : UInt32) : Prop :=
  addr.toNat % 256 = addr.toNat / 65536 ∧ addr.toNat % 256 + log.dlen.toNat ≤ 256

/-- A logical address in bytes, without bit 23. -/
theorem mod_chipSize (n : Nat) :
    n % chipSize = n / 65536 % 128 * 65536 + n / 256 % 256 * 256 + n % 256 := by
  rw [chipSize]
  omega

/-- A straight cursor is the address that the chip takes. -/
theorem Straight.chipAddr_eq {addr : UInt32} (h : Straight log addr) :
    chipAddr addr = addr.toNat % chipSize := by
  have hlow : addr.toNat % 128 = addr.toNat / 65536 % 128 := by
    rw [← h.1]
    omega
  have hhigh : addr.toNat / 65536 % 256 = addr.toNat % 256 := by
    rw [← h.1, Nat.mod_mod]
  rw [OsesProject.chipAddr_eq, mod_chipSize, hlow, hhigh]
  omega

/-- The cells of a record whose cursor is straight. -/
theorem Straight.slot_eq {addr : UInt32} (h : Straight log addr) {i : Nat}
    (hi : i < log.dlen.toNat) :
    slot pageSize (chipAddr addr) i = (addr.toNat + i) % chipSize := by
  have hpage := h.2
  rw [slot_eq_add, h.chipAddr_eq, chipSize]
  · omega
  · rw [h.chipAddr_eq, chipSize, pageSize]
    omega

/-- A straight cursor puts its record where it belongs. -/
theorem Straight.lands {addr : UInt32} (h : Straight log addr) (polls : Nat) :
    Lands polls log addr := by
  intro s data hcursor hwrap hlen
  have hpage : data.length ≤ pageSize := by
    rw [hlen]
    cases log <;> decide
  refine ⟨_, FlashLog.writeMemAsync_eq hlen, ?_, ?_, ?_⟩
  · intro i b hb
    have hi : i < log.dlen.toNat := hlen ▸ (List.getElem?_eq_some_iff.mp hb).1
    rw [← h.slot_eq hi, FlashLog.wrapped, if_neg hwrap, FlashLog.stored, hcursor]
    exact program_slot (e := ⟨chipAddr addr, data⟩) hpage hb
  · intro c hc
    rw [FlashLog.wrapped, if_neg hwrap, FlashLog.stored, hcursor]
    refine program_of_not_mem (e := ⟨chipAddr addr, data⟩) fun hmem => ?_
    obtain ⟨i, hi, he⟩ := Entry.mem_slots.mp hmem
    refine hc i hi ?_
    rw [← h.slot_eq (hlen ▸ hi)]
    exact he.symm
  · have hback : ((s.wrapped log).stored log data).cursor log - log.stride = addr := by
      rw [FlashLog.wrapped, if_neg hwrap]
      simp [FlashLog.stored, hcursor]
    rw [FlashLog.readMemAsync_eq, hback, h.chipAddr_eq]
    simp [NorFlash.read, Nat.mod_add_mod]

/-- A record of one zero byte in ones shows where the byte goes. -/
theorem Lands.slot_eq {addr : UInt32} (h : Lands polls log addr) (hlt : addr < log.limit) {j : Nat}
    (hj : j < log.dlen.toNat) :
    slot pageSize (chipAddr addr) j = (addr.toNat + j) % chipSize := by
  let data : List UInt8 := (List.replicate log.dlen.toNat 0xff).set j 0
  have hlen : data.length = log.dlen.toNat := by simp [data]
  have hpage : data.length ≤ pageSize := by
    rw [hlen]
    cases log <;> decide
  have hzero : data[j]? = some 0 := by simp [data, hj]
  let s : FlashLog := { FlashLog.start with cursor := fun _ => addr }
  have hwrap : ¬s.Wraps log := by simpa [FlashLog.Wraps, s] using hlt
  obtain ⟨s', hwrite, hcell, -⟩ := h s data rfl hwrap hlen
  rw [FlashLog.writeMemAsync_eq hlen, FlashLog.wrapped, if_neg hwrap] at hwrite
  cases hwrite
  have hcell : program pageSize erased (chipAddr addr) data ((addr.toNat + j) % chipSize) =
      0xff &&& 0 := hcell j 0 hzero
  -- every other cell has all its bits set
  by_contra hne
  by_cases hmem : (addr.toNat + j) % chipSize ∈ Entry.slots pageSize ⟨chipAddr addr, data⟩
  · obtain ⟨i, hi, he⟩ := Entry.mem_slots.mp hmem
    have he : slot pageSize (chipAddr addr) i = (addr.toNat + j) % chipSize := he
    have hij : i ≠ j := by
      rintro rfl
      exact hne he
    have hone : data[i]? = some 0xff := by
      have hi : i < log.dlen.toNat := hlen ▸ hi
      simp [data, hij.symm, hi]
    have hslot := program_slot (m := erased) (e := ⟨chipAddr addr, data⟩) hpage hone
    rw [← he, hslot] at hcell
    change (0xff : UInt8) &&& 0xff = 0xff &&& 0 at hcell
    exact absurd hcell (by decide)
  · rw [program_of_not_mem (e := ⟨chipAddr addr, data⟩) hmem] at hcell
    change (0xff : UInt8) = 0xff &&& 0 at hcell
    exact absurd hcell (by decide)

/-- A byte of a program that goes to its own cell has not wrapped around in the page. -/
theorem lt_page_of_slot {n d : Nat} (hd : d < pageSize)
    (h : slot pageSize (n % chipSize) d = (n + d) % chipSize) : n % pageSize + d < pageSize := by
  rw [slot, pageSize, chipSize] at h
  rw [pageSize] at hd ⊢
  have hmod : (n + d) % 2 ^ 23 = (n % 2 ^ 23 + d) % 2 ^ 23 := by omega
  have hlt : n % 2 ^ 23 < 2 ^ 23 := by omega
  have hsame : n % 2 ^ 23 % 256 = n % 256 := by omega
  rw [hmod] at h
  rw [← hsame]
  generalize n % 2 ^ 23 = a at *
  omega

/-- A cursor that puts its record where it belongs is straight. -/
theorem Lands.straight {addr : UInt32} (h : Lands polls log addr) (hlt : addr < log.limit) :
    Straight log addr := by
  have hbound := UInt32.lt_iff_toNat_lt.mp hlt
  have hlast : log.dlen.toNat - 1 < log.dlen.toNat := by cases log <;> decide
  have hpage : log.dlen.toNat - 1 < pageSize := by cases log <;> decide
  have hfirst : chipAddr addr = addr.toNat % chipSize := by
    have hslot := h.slot_eq hlt (Nat.lt_of_le_of_lt (Nat.zero_le _) hlast)
    have hmod : chipAddr addr % pageSize + 0 < pageSize := by
      rw [Nat.add_zero]
      exact Nat.mod_lt _ (by decide)
    rwa [slot_eq_add hmod, Nat.add_zero, Nat.add_zero] at hslot
  have hend := h.slot_eq hlt hlast
  rw [hfirst] at hend
  have hfit := lt_page_of_slot hpage hend
  have hhigh : addr.toNat / 65536 < 256 := by
    cases log <;> simp only [Log.limit, UInt32.reduceToNat] at hbound <;> omega
  have hbyte : addr.toNat / 65536 % 256 = addr.toNat % 256 := by
    have hlow : addr.toNat % 256 < 256 := Nat.mod_lt _ (by decide)
    rw [chipAddr_eq, mod_chipSize, Nat.mod_eq_of_lt hhigh] at hfirst
    rw [Nat.mod_eq_of_lt hhigh]
    generalize addr.toNat % 256 = low at *
    generalize addr.toNat / 65536 = high at *
    omega
  rw [pageSize] at hfit
  refine ⟨by rw [← hbyte, Nat.mod_eq_of_lt hhigh], ?_⟩
  omega

/-- **Where a record lands.** For every value that a cursor takes in a run, a record written with it
lies in the cells the cursor stands for and is read from them if and only if the low byte of the
cursor equals its high byte and the record fits in the rest of its page of 256 cells. -/
theorem record_lands_iff (conv : Conversion F) (polls : Nat)
    (hreach : Reach (logStep conv polls) (fun _ _ => True) FlashLog.start s) (log : Log) :
    Lands polls log ((s.wrapped log).cursor log) ↔
      Straight log ((s.wrapped log).cursor log) := by
  obtain ⟨-, -, hlt⟩ := (cursorInv_of_reach hreach).wrapped log
  exact ⟨fun h => h.straight hlt, fun h => h.lands polls⟩

/-- The raw record behind the first 21867, at `0x040104`, lands where it belongs. -/
theorem record_lands_straight :
    ∃ s, run (logStep wholeNumbers 0) FlashLog.start (List.replicate 21867 (writeValue 1)) =
        some s ∧
      (s.wrapped .raw).cursor .raw = 0x040104 ∧
      Lands 0 .raw ((s.wrapped .raw).cursor .raw) := by
  obtain ⟨s, hrun, heach, hc, -⟩ :=
    run_writeValue (s := FlashLog.start) (m := 0) (n := 21867) wholeNumbers 0 1 rfl (by decide)
  have hcursor : s.cursor .raw = 0x040104 := UInt32.toNat_inj.mp hc
  have hwrap : ¬s.Wraps .raw := by
    rw [FlashLog.Wraps, hcursor]
    decide
  have hsame : (s.wrapped .raw).cursor .raw = 0x040104 := by
    rw [FlashLog.wrapped, if_neg hwrap, hcursor]
  have hstraight : Straight .raw 0x040104 := ⟨rfl, by decide⟩
  have hreach := (Reach.of_each .refl heach hrun).mono fun _ _ _ => trivial
  exact ⟨s, hrun, hsame, (record_lands_iff wholeNumbers 0 hreach .raw).mpr (hsame ▸ hstraight)⟩

/-- The second raw record does not: its cursor is 12, and its first byte is programmed into the
cell `0x0c0000`. -/
theorem record_misplaced :
    ∃ s, run (logStep wholeNumbers 0) FlashLog.start [writeValue 1] = some s ∧
      (s.wrapped .raw).cursor .raw = 12 ∧ ¬Lands 0 .raw ((s.wrapped .raw).cursor .raw) := by
  obtain ⟨s, hs⟩ : ∃ s, run (logStep wholeNumbers 0) FlashLog.start [writeValue 1] = some s := by
    rw [← Option.isSome_iff_exists]
    decide +kernel
  have hcursor : ((run (logStep wholeNumbers 0) FlashLog.start [writeValue 1]).map fun s =>
      (s.wrapped .raw).cursor .raw) = some 12 := by decide +kernel
  rw [hs, Option.map_some, Option.some.injEq] at hcursor
  refine ⟨s, hs, hcursor, fun h => ?_⟩
  rw [hcursor] at h
  have hslot := h.slot_eq (by decide) (show 0 < Log.raw.dlen.toNat by decide)
  exact absurd hslot (by decide)

end OsesProject
