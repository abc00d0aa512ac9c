import OsesProject.Peripherals.BusyChip

/-!
# Every command finds the chip ready

`w25q64_erase` and `w25q64_erase_part` poll the chip until it is idle; `w25q64_write` and
`w25q64_writeSR` leave it busy, and none of the functions looks before its first command. So the
commands of a run are all accepted exactly when each call that reads data or writes comes after the
write before it is done (`commands_accepted_iff`). The loops end for every busy time, and each call
returns.
-/

namespace OsesProject

open Machine

variable {time polls : Nat} {c c' : BusyChip} {e : FlashCall} {instr : Instr}

namespace BusyChip

/-- A transfer that selects the chip is one command. -/
@[simp] theorem transfer_command (time : Nat) (c : BusyChip) (instr : Instr) (recv : Nat)
    (rel : Bool) (msgs : List SpiMessage) :
    (transfer time c (⟨[instr.opcode], recv, true, rel⟩ :: msgs)).1 = c.receive time instr := by
  simp [transfer, execute]

/-- Bytes on the bus do not reach a chip that is not selected. -/
@[simp] theorem transfer_deselected (time : Nat) (c : BusyChip) (sent : List UInt8) (recv : Nat)
    (rel : Bool) (msgs : List SpiMessage) :
    (transfer time c (⟨sent, recv, false, rel⟩ :: msgs)).1 = c := rfl

theorem receive_received (time : Nat) (c : BusyChip) (instr : Instr) :
    (c.receive time instr).received =
      c.received ++ [⟨instr, decide (0 < c.busy), c.wel⟩] := by
  unfold receive waiting
  simp only
  split
  · rfl
  · split
    · split <;> rfl
    · cases instr <;> rfl

/-- A busy chip ignores a command; the last one it is busy for clears the latch. -/
theorem receive_busy (time : Nat) (instr : Instr) (h : 0 < c.busy) :
    (c.receive time instr).busy = c.busy - 1 ∧
      ((c.receive time instr).busy = 0 → (c.receive time instr).wel = false) := by
  unfold receive waiting
  simp only [if_pos h]
  exact ⟨trivial, fun h0 => if_pos h0⟩

/-- A command that starts no write makes the chip no busier. -/
theorem receive_busy_le (h : instr.writes = false) : (c.receive time instr).busy ≤ c.busy := by
  unfold receive waiting
  simp only [h, Bool.false_eq_true, if_false]
  split
  · exact Nat.sub_le _ _
  · cases instr <;> exact Nat.le_refl _

/-- A write makes it busy for its own time. -/
theorem receive_busy_le_max (c : BusyChip) (time : Nat) (instr : Instr) :
    (c.receive time instr).busy ≤ max c.busy time := by
  cases h : instr.writes with
  | false => exact (receive_busy_le h).trans (Nat.le_max_left _ _)
  | true =>
    unfold receive waiting
    simp only [h, if_true]
    split
    · exact (Nat.sub_le _ _).trans (Nat.le_max_left _ _)
    · split
      · exact Nat.le_max_right _ _
      · exact Nat.le_max_left _ _

/-- An idle chip sets its latch. -/
theorem receive_writeEnable (time : Nat) (h : c.busy = 0) :
    (c.receive time .writeEnable).busy = 0 ∧ (c.receive time .writeEnable).wel = true := by
  simp [receive, h, Instr.writes]

/-- A command is accepted into the history when the chip acts on it. -/
theorem accepted_receive_iff :
    (c.receive time instr).AllAccepted ↔
      c.AllAccepted ∧ Received.Accepted ⟨instr, decide (0 < c.busy), c.wel⟩ := by
  unfold AllAccepted
  rw [receive_received]
  simp [List.mem_append, or_imp, forall_and]

/-- The chip acts on a command that neither reads data nor writes in any state. -/
theorem accepted_other_iff (hread : instr ≠ .readData) (hwrite : instr.writes = false) :
    (c.receive time instr).AllAccepted ↔ c.AllAccepted := by
  rw [accepted_receive_iff, and_iff_left_iff_imp]
  intro _
  exact ⟨fun h => absurd h hread, fun h => by rw [hwrite] at h; cases h⟩

/-- The chip acts on a read of data when it is idle. -/
theorem accepted_readData_iff :
    (c.receive time .readData).AllAccepted ↔ c.AllAccepted ∧ c.busy = 0 := by
  rw [accepted_receive_iff]
  refine and_congr_right fun _ => ⟨fun h => ?_, fun h => ⟨fun _ => by simp [h], fun hw => ?_⟩⟩
  · simpa using h.1 rfl
  · cases hw

/-- The chip acts on a write behind a `WRITE_ENABLE` when it is idle before the two of them. -/
theorem accepted_write_iff (hwrite : instr.writes = true) :
    ((c.receive time .writeEnable).receive time instr).AllAccepted ↔
      c.AllAccepted ∧ c.busy = 0 := by
  have hread : instr ≠ .readData := by
    rintro rfl
    cases hwrite
  rw [accepted_receive_iff, accepted_other_iff (by decide) rfl]
  refine and_congr_right fun _ => ⟨fun h => ?_, fun h => ⟨fun hr => absurd hr hread, fun _ => ?_⟩⟩
  · by_contra hb
    -- the latch is not set: the chip has ignored the `WRITE_ENABLE`
    obtain ⟨hone, hclear⟩ := receive_busy time .writeEnable (Nat.pos_of_ne_zero hb)
    obtain ⟨hidle, hset⟩ := h.2 hwrite
    have hidle : (c.receive time .writeEnable).busy = 0 := by simpa using hidle
    rw [hclear hidle] at hset
    cases hset
  · obtain ⟨hidle, hset⟩ := receive_writeEnable time h
    exact ⟨by simp [hidle], hset⟩

/-! ## The loop that waits -/

theorem sr1_idle (h : c.busy = 0) : c.sr1 &&& 0x1 = 0 := by
  unfold sr1
  rw [h]
  cases c.wel <;> rfl

theorem sr1_busy (h : 0 < c.busy) : c.sr1 &&& 0x1 ≠ 0 := by
  unfold sr1
  rw [if_pos h]
  cases c.wel <;> decide

/-- **The loop that waits for the chip ends**, after at most one poll for each command that the chip
is busy for. -/
theorem w25q64Wait_returns (time : Nat) (hle : c.busy ≤ polls) :
    ∃ c', w25q64Wait (transfer time) polls c = some c' ∧ (c'.AllAccepted ↔ c.AllAccepted) := by
  induction polls generalizing c with
  | zero =>
    refine ⟨c.receive time .readSr1, ?_, accepted_other_iff (by decide) rfl⟩
    simp [w25q64Wait, transfer, execute, sr1_idle (Nat.le_zero.mp hle)]
  | succ polls ih =>
    by_cases hb : c.busy = 0
    · refine ⟨c.receive time .readSr1, ?_, accepted_other_iff (by decide) rfl⟩
      simp [w25q64Wait, transfer, execute, sr1_idle hb]
    · have hpos := Nat.pos_of_ne_zero hb
      have hone := (receive_busy time .readSr1 hpos).1
      obtain ⟨c', hc', hA⟩ := ih (c := c.receive time .readSr1) (by omega)
      refine ⟨c', ?_, hA.trans (accepted_other_iff (by decide) rfl)⟩
      rw [← hc', w25q64Wait]
      simp [transfer, execute, sr1_busy hpos]

end BusyChip

open BusyChip

/-- **What a call does**: it returns, and all commands are accepted after it exactly when they were
before and the call has come in time. -/
theorem flashStep_returns (c : BusyChip) (e : FlashCall) :
    ∃ c', flashStep c e = some c' ∧ (c'.AllAccepted ↔ c.AllAccepted ∧ e.InTime c) := by
  have hdisable : ∀ c : BusyChip,
      (c.receive e.time .writeDisable).AllAccepted ↔ c.AllAccepted :=
    fun c => accepted_other_iff (by decide) rfl
  have hfree : e.needsIdle = false → e.InTime c := fun h hn => by
    rw [h] at hn
    cases hn
  have hbound : e.needsIdle = true → (e.InTime c ↔ c.busy = 0) :=
    fun h => ⟨fun hT => hT h, fun hb _ => hb⟩
  unfold flashStep w25q64Control
  cases hi : e.instr with
  | readSr1 | readSr2 | jedecId =>
    refine ⟨_, rfl, ?_⟩
    rw [and_iff_left (hfree (by rw [FlashCall.needsIdle, hi]))]
    simpa [w25q64GetSR, w25q64GetJEDEC] using accepted_other_iff (by decide) rfl
  | writeSr =>
    refine ⟨_, rfl, ?_⟩
    rw [hbound (by rw [FlashCall.needsIdle, hi])]
    simpa [w25q64WriteSR, hdisable] using accepted_write_iff rfl
  | pageProgram =>
    refine ⟨_, rfl, ?_⟩
    rw [hbound (by rw [FlashCall.needsIdle, hi])]
    simpa [w25q64Write, hdisable] using accepted_write_iff rfl
  | sectorErase | blockErase | dblockErase =>
    have hle : (c.receive e.time .writeEnable).busy ≤ c.busy + e.time :=
      (receive_busy_le rfl).trans (Nat.le_add_right _ _)
    obtain ⟨c', hc', hA⟩ := w25q64Wait_returns e.time hle
    refine ⟨c'.receive e.time .writeDisable, ?_, ?_⟩
    · simp [w25q64ErasePart, hc']
    · rw [hdisable, hA, and_iff_left (hfree (by rw [FlashCall.needsIdle, hi]))]
      exact accepted_other_iff (by decide) rfl
  | chipErase =>
    have hle : ((c.receive e.time .writeEnable).receive e.time .chipErase).busy ≤
        c.busy + e.time := by
      have hfirst : (c.receive e.time .writeEnable).busy ≤ c.busy := receive_busy_le rfl
      have hsecond := receive_busy_le_max (c.receive e.time .writeEnable) e.time .chipErase
      omega
    obtain ⟨c', hc', hA⟩ := w25q64Wait_returns e.time hle
    refine ⟨c'.receive e.time .writeDisable, ?_, ?_⟩
    · simp [w25q64Erase, hc']
    · rw [hdisable, hA, hbound (by rw [FlashCall.needsIdle, hi])]
      exact accepted_write_iff rfl
  | readData =>
    refine ⟨_, rfl, ?_⟩
    rw [hbound (by rw [FlashCall.needsIdle, hi])]
    simpa [w25q64Read] using accepted_readData_iff
  | reset =>
    refine ⟨_, rfl, ?_⟩
    rw [and_iff_left (hfree (by rw [FlashCall.needsIdle, hi]))]
    have hreset : ((c.receive e.time .resetEnable).receive e.time .reset).AllAccepted ↔
        c.AllAccepted :=
      (accepted_other_iff (by decide) rfl).trans (accepted_other_iff (by decide) rfl)
    simpa [w25q64Reset] using hreset
  | writeEnable | writeDisable | resetEnable =>
    refine ⟨_, rfl, ?_⟩
    rw [and_iff_left (hfree (by rw [FlashCall.needsIdle, hi]))]

/-- **Every command finds the chip ready exactly when the calls come in time.** For every sequence
of calls of `w25q64_control` and every choice of busy times: all calls return, and every
`READ_DATA`, `PAGE_PROGRAM`, `WRITE_SR` and erase command is received by an idle chip, and by one
with its latch set if it writes, if and only if no call that sends one of them comes while the chip
is busy. -/
theorem commands_accepted_iff (es : List FlashCall) :
    (∃ c, run flashStep BusyChip.idle es = some c) ∧
      (Always flashStep BusyChip.AllAccepted BusyChip.idle es ↔
        Each flashStep (fun c e => e.InTime c) BusyChip.idle es) := by
  have hreturns : ∀ (es : List FlashCall) (c : BusyChip), ∃ c', run flashStep c es = some c' := by
    intro es
    induction es with
    | nil => exact fun c => ⟨c, rfl⟩
    | cons e es ih =>
      intro c
      obtain ⟨c₁, hc₁, -⟩ := flashStep_returns c e
      obtain ⟨c', hc'⟩ := ih c₁
      exact ⟨c', by rw [run_cons, hc₁]; exact hc'⟩
  obtain ⟨c', hrun⟩ := hreturns es BusyChip.idle
  refine ⟨⟨c', hrun⟩, ?_⟩
  refine always_iff_each (I := BusyChip.AllAccepted) (fun _ h => h) ?_ ?_ ?_ (fun _ _ => trivial)
    hrun
  · intro c e c' hA _ hT h
    obtain ⟨c₁, hc₁, hiff⟩ := flashStep_returns c e
    cases hc₁.symm.trans h
    exact hiff.mpr ⟨hA, hT⟩
  · intro c e c' _ _ hT h hA
    obtain ⟨c₁, hc₁, hiff⟩ := flashStep_returns c e
    cases hc₁.symm.trans h
    exact hT (hiff.mp hA).2
  · intro r hr
    cases hr

/-- A write that takes the time of two commands: the second is the read that follows it. -/
theorem command_ignored :
    ¬∀ (es : List FlashCall) (c : BusyChip), run flashStep BusyChip.idle es = some c →
      c.AllAccepted := by
  intro hall
  have hbad := hall [⟨.pageProgram, [0, 0, 0], 1, [7], 2⟩, ⟨.readData, [0, 0, 0], 1, [], 0⟩] _ rfl
  revert hbad
  decide

end OsesProject
