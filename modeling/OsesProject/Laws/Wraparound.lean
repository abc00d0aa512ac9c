import OsesProject.Laws.FlashLog

/-!
# The end of a log

A write that finds its cursor at the end of its log erases the chip, as the comments of the two
functions say, and the other log with it: `wrap_erases`. What the other log's read gets afterwards
is the erased chip and the one record written since. The cursor of the other log stays where it is.
-/

namespace OsesProject

open Machine NorFlash

variable {F : Type} {conv : Conversion F} {polls : Nat} {s s' : FlashLog} {op : LogOp F}
  {log : Log}

/-- Where the cursors are in every state: a number of records beyond the beginning of the log, and
at least one once a record has been written. -/
def CursorInv (s : FlashLog) : Prop :=
  ∀ log, ∃ k, (s.cursor log).toNat = log.place k ∧
    log.place k < log.limit.toNat + log.stride.toNat ∧ (0 < s.count log → 0 < k)

theorem start_cursorInv : CursorInv FlashLog.start := by
  intro log
  refine ⟨0, ?_, ?_, fun h => absurd h (Nat.lt_irrefl 0)⟩
  · cases log <;> rfl
  · cases log <;> decide

/-- The cursor a write uses. -/
theorem CursorInv.wrapped (hC : CursorInv s) (log : Log) :
    ∃ k, ((s.wrapped log).cursor log).toNat = log.place k ∧
      (s.wrapped log).cursor log < log.limit := by
  by_cases hwrap : s.Wraps log
  · rw [FlashLog.wrapped, if_pos hwrap]
    refine ⟨0, ?_, ?_⟩
    · simp [Log.place]
    · simp only [Function.update_self]
      cases log <;> decide
  · obtain ⟨k, hk, -⟩ := hC log
    rw [FlashLog.wrapped, if_neg hwrap]
    exact ⟨k, hk, by simpa [FlashLog.Wraps] using hwrap⟩

/-- A write leaves the other log's cursor alone. -/
theorem cursor_of_ne {log' : Log} (hne : log' ≠ log) (s : FlashLog) (data : List UInt8) :
    ((s.wrapped log).stored log data).cursor log' = s.cursor log' := by
  simp only [FlashLog.stored, Function.update_of_ne hne, FlashLog.wrapped]
  split
  · simp [Function.update_of_ne hne]
  · rfl

/-- Every call keeps the cursors in their logs. -/
theorem CursorInv.step (hC : CursorInv s) (h : logStep conv polls s op = some s') :
    CursorInv s' := by
  rcases logStep_cases h with ⟨-, rfl⟩ | ⟨log, data, i, -, -, rfl⟩
  · exact hC
  · intro log'
    by_cases hl : log' = log
    · subst hl
      obtain ⟨k, hk, hlt⟩ := hC.wrapped log'
      have hnew : ((s.wrapped log').cursor log' + log'.stride).toNat = log'.place (k + 1) := by
        rw [Log.add_stride hlt, hk, Log.place_succ]
      refine ⟨k + 1, ?_, ?_, fun _ => Nat.succ_pos k⟩
      · simpa [FlashLog.stored] using hnew
      · rw [Log.place_succ, ← hk]
        exact Nat.add_lt_add_right (UInt32.lt_iff_toNat_lt.mp hlt) _
    · obtain ⟨k, hk, hlt, hpos⟩ := hC log'
      refine ⟨k, ?_, hlt, fun hcount => hpos ?_⟩
      · rw [← hk, ← cursor_of_ne hl s data]
      · have hsame : (s.wrapped log).count log' = s.count log' := by
          unfold FlashLog.wrapped
          split <;> rfl
        have hcount : 0 < ((s.wrapped log).stored log data).count log' := hcount
        rwa [FlashLog.count_stored, if_neg (Ne.symm hl), Nat.add_zero, hsame] at hcount

theorem cursorInv_of_reach {ok : FlashLog → LogOp F → Prop}
    (hreach : Reach (logStep conv polls) ok FlashLog.start s) : CursorInv s :=
  hreach.invariant CursorInv start_cursorInv fun _ _ _ hC _ h => hC.step h

/-! ## After the erase -/

/-- After a write that wraps, the chip holds the new record and nothing else. -/
theorem holds_of_wraps (hwrap : s.Wraps log) {data : List UInt8}
    (hlen : data.length = log.dlen.toNat) :
    Holds pageSize ((s.wrapped log).stored log data).chip.cells [⟨chipAddr log.first, data⟩] := by
  rw [FlashLog.wrapped, if_pos hwrap]
  simp only [FlashLog.stored, Function.update_self]
  refine holds_erased.program (e := ⟨chipAddr log.first, data⟩) ?_ fun _ he => by cases he
  show data.length ≤ pageSize
  rw [hlen]
  cases log <;> decide

/-- The record at the beginning of a log lies in consecutive cells. -/
theorem slot_first {i : Nat} (hi : i < log.dlen.toNat) :
    slot pageSize (chipAddr log.first) i = chipAddr log.first + i := by
  refine slot_eq_add ?_
  cases log with
  | raw =>
    have hi : i < 12 := hi
    have haddr : chipAddr Log.raw.first = 0 := by decide
    rw [haddr, pageSize]
    omega
  | bench =>
    have hi : i < 56 := hi
    have haddr : chipAddr Log.bench.first = 128 := by decide
    rw [haddr, pageSize]
    omega

/-- After a write that wraps, the cells that the new record is not programmed into are erased. -/
theorem erased_of_wraps (hwrap : s.Wraps log) {data : List UInt8}
    (hlen : data.length = log.dlen.toNat) {c : Nat}
    (hc : c ∉ Entry.slots pageSize ⟨chipAddr log.first, data⟩) :
    ((s.wrapped log).stored log data).chip.cells c = 0xff := by
  refine (holds_of_wraps hwrap hlen).blank c fun e he => ?_
  cases List.mem_singleton.mp he
  exact hc

/-- The record at the beginning of a log does not reach behind its length. -/
theorem not_mem_slots_first {data : List UInt8} (hlen : data.length = log.dlen.toNat) {c : Nat}
    (hc : chipAddr log.first + log.dlen.toNat ≤ c) :
    c ∉ Entry.slots pageSize ⟨chipAddr log.first, data⟩ := by
  rw [Entry.mem_slots]
  rintro ⟨i, hi, he⟩
  have hi : i < log.dlen.toNat := hlen ▸ hi
  have he : slot pageSize (chipAddr log.first) i = c := he
  rw [slot_first hi] at he
  omega

/-- The last bench record does not reach the cells of the first raw record. -/
theorem CursorInv.bench_cells (hC : CursorInv s) (hpos : 0 < s.count .bench) :
    128 ≤ chipAddr (s.cursor .bench - Log.bench.stride) ∧
      chipAddr (s.cursor .bench - Log.bench.stride) + 56 ≤ chipSize := by
  obtain ⟨k, hk, hlt, hkpos⟩ := hC .bench
  have hkpos := hkpos hpos
  rw [place_bench] at hk hlt
  have hlt : 8388608 + 56 * k < 16777216 := hlt
  have hsub : (s.cursor .bench - Log.bench.stride).toNat = 8388608 + 56 * (k - 1) := by
    rw [UInt32.toNat_sub_of_le]
    · rw [hk]
      show 8388608 + 56 * k - 56 = _
      omega
    · rw [UInt32.le_iff_toNat_le, hk]
      show 56 ≤ _
      omega
  -- a multiple of eight: the page is not among the last of the chip
  have hlow : (8388608 + 56 * (k - 1)) % 128 ≤ 120 := by omega
  have hhigh : 128 ≤ (8388608 + 56 * (k - 1)) / 65536 := by omega
  have hhigh' : (8388608 + 56 * (k - 1)) / 65536 < 256 := by omega
  rw [chipAddr_eq, hsub, Nat.mod_eq_of_lt hhigh', chipSize]
  omega

/-- After a raw write that wraps, the read of the bench log gets an erased chip. -/
theorem readBench_of_wraps (polls : Nat) (hC : CursorInv s) (hpos : 0 < s.count .bench)
    (hwrap : s.Wraps .raw) {data : List UInt8} (hlen : data.length = Log.raw.dlen.toNat)
    (i : Fin numReadings) :
    ({ (s.wrapped .raw).stored .raw data with i := i } : FlashLog).readBenchMemAsync polls =
      some ({ (s.wrapped .raw).stored .raw data with i := i }, List.replicate 56 0xff) := by
  have hcursor : ((s.wrapped .raw).stored .raw data).cursor .bench = s.cursor .bench :=
    cursor_of_ne (by decide) s data
  obtain ⟨hge, hle⟩ := hC.bench_cells hpos
  rw [FlashLog.readBenchMemAsync, FlashLog.readMemAsync_eq]
  simp only [hcursor, Option.some.injEq, Prod.mk.injEq, true_and]
  refine List.eq_replicate_iff.mpr ⟨length_read _, fun b hb => ?_⟩
  obtain ⟨j, hj, rfl⟩ := List.mem_map.mp hb
  have hj : j < 56 := List.mem_range.mp hj
  have hcell : (chipAddr (s.cursor .bench - Log.bench.stride) + j) % chipSize =
      chipAddr (s.cursor .bench - Log.bench.stride) + j := Nat.mod_eq_of_lt (by omega)
  rw [hcell]
  refine erased_of_wraps hwrap hlen (not_mem_slots_first hlen ?_)
  have hend : chipAddr Log.raw.first + Log.raw.dlen.toNat = 12 := by decide
  rw [hend]
  omega

/-- After a bench write that wraps, the read of the raw log gets an erased chip but for the cells
of the new record. -/
theorem readRaw_of_wraps (polls : Nat) (hwrap : s.Wraps .bench) {data : List UInt8}
    (hlen : data.length = Log.bench.dlen.toNat) :
    ∃ rd, ((s.wrapped .bench).stored .bench data).readRawMemAsync polls =
        some ((s.wrapped .bench).stored .bench data, rd) ∧ rd.length = 12 ∧
      ∀ j < 12, (chipAddr (s.cursor .raw - Log.raw.stride) + j) % chipSize ∉
          Entry.slots pageSize ⟨chipAddr Log.bench.first, data⟩ → rd[j]? = some 0xff := by
  have hcursor : ((s.wrapped .bench).stored .bench data).cursor .raw = s.cursor .raw :=
    cursor_of_ne (by decide) s data
  have hdlen : Log.raw.dlen.toNat = 12 := rfl
  rw [FlashLog.readRawMemAsync, FlashLog.readMemAsync_eq, hcursor]
  refine ⟨_, rfl, length_read _, fun j hj hc => ?_⟩
  rw [hdlen, read_getElem? hj, erased_of_wraps hwrap hlen hc]

/-- The latest record of a log. -/
def FlashLog.latest (s : FlashLog) (log : Log) : Option Record :=
  (s.written.filter fun r => r.log = log).getLast?

/-- One bench record of ones, and raw records up to the end of their log: 699050 of them. -/
theorem exists_full_log :
    ∃ s : FlashLog, Reach (logStep wholeNumbers 0) (fun _ _ => True) FlashLog.start s ∧
      0 < s.count .bench ∧ s.Wraps .raw ∧
      ∃ r, s.latest .bench = some r ∧ r.data = (List.replicate 14 [1, 0, 0, 0]).flatten := by
  have hstep : logStep wholeNumbers 0 FlashLog.start (.writeBench fun _ => 1) = some _ :=
    logStep_writeBench FlashLog.start fun _ => 1
  obtain ⟨s, hrun, heach, hc, -, rs, hrs, hraw⟩ := run_writeValue
    (s := (FlashLog.start.wrapped .bench).stored .bench
      ((List.finRange 14).flatMap fun _ => encode wholeNumbers 1)) wholeNumbers 0 1 (m := 0)
    (n := 699050) rfl (by decide)
  have hfirst : Reach (logStep wholeNumbers 0) (fun s op => ¬Erases s op) FlashLog.start _ :=
    .tail .refl (by decide) hstep
  refine ⟨s, (hfirst.of_each heach hrun).mono fun _ _ _ => trivial, ?_, ?_, ?_⟩
  · rw [FlashLog.count, hrs, List.countP_append]
    exact Nat.lt_of_lt_of_le (by decide) (Nat.le_add_right _ _)
  · rw [FlashLog.Wraps, UInt32.le_iff_toNat_le, hc]
    decide
  · refine ⟨⟨.bench, 0x800000, (List.finRange 14).flatMap fun _ => encode wholeNumbers 1⟩, ?_,
      by decide⟩
    have hnone : rs.filter (fun r => decide (r.log = .bench)) = [] := by
      refine List.filter_eq_nil_iff.mpr fun r hr => ?_
      simp [(hraw r hr).1]
    rw [FlashLog.latest, hrs, List.filter_append, hnone, List.append_nil]
    rfl

/-- **The end of one log erases the other.** In every state reached: with a bench record written, a
raw write that wraps leaves `addr_bench` where it is, and the read of the bench log then gets 56
bytes `0xff`; and with a raw record written, a bench write that wraps leaves `addr` where it is, and
the read of the raw log then gets `0xff` from every cell that the new bench record is not programmed
into. -/
theorem wrap_erases (conv : Conversion F) (polls : Nat)
    (hreach : Reach (logStep conv polls) (fun _ _ => True) FlashLog.start s) :
    (0 < s.count .bench → s.Wraps .raw → ∀ accV gyroV baroV,
      ∃ s', s.writeRawMemAsync conv polls accV gyroV baroV = some s' ∧
        s'.cursor .bench = s.cursor .bench ∧
        s'.readBenchMemAsync polls = some (s', List.replicate 56 0xff)) ∧
    (0 < s.count .raw → s.Wraps .bench → ∀ results,
      ∃ s' r rd, s.writeBenchMemAsync conv polls results = some s' ∧
        s'.written = s.written ++ [r] ∧ s'.cursor .raw = s.cursor .raw ∧
        s'.readRawMemAsync polls = some (s', rd) ∧ rd.length = 12 ∧
        ∀ j < 12, (chipAddr (s.cursor .raw - Log.raw.stride) + j) % chipSize ∉
          r.entry.slots pageSize → rd[j]? = some 0xff) := by
  have hC := cursorInv_of_reach hreach
  constructor
  · intro hpos hwrap accV gyroV baroV
    have hdlen : (encode conv (accV s.i) ++ encode conv (gyroV s.i) ++
        encode conv (baroV s.i)).length = Log.raw.dlen.toNat := by
      simp [encode_length, Log.dlen]
    exact ⟨_, logStep_writeRaw s accV gyroV baroV,
      cursor_of_ne (show Log.bench ≠ .raw by decide) s
        (encode conv (accV s.i) ++ encode conv (gyroV s.i) ++ encode conv (baroV s.i)),
      readBench_of_wraps polls hC hpos hwrap hdlen _⟩
  · intro _ hwrap results
    have hdlen : ((List.finRange 14).flatMap fun j => encode conv (results j)).length =
        Log.bench.dlen.toNat := by
      simp [List.length_flatMap, encode_length, Log.dlen]
    obtain ⟨rd, hread, hlen, hcells⟩ := readRaw_of_wraps polls hwrap hdlen
    refine ⟨_, _, rd, logStep_writeBench s results, congrArg (· ++ _) (s.wrapped_written .bench),
      cursor_of_ne (show Log.raw ≠ .bench by decide) s _, hread, hlen, ?_⟩
    rw [Record.entry, FlashLog.wrapped_cursor hwrap]
    exact hcells

/-- A raw log written to its end after one bench record. -/
theorem wrap_erases_bench :
    ∃ s s' : FlashLog, Reach (logStep wholeNumbers 0) (fun _ _ => True) FlashLog.start s ∧
      0 < s.count .bench ∧ s.Wraps .raw ∧
      s.writeRawMemAsync wholeNumbers 0 (fun _ => 1) (fun _ => 1) (fun _ => 1) = some s' ∧
      s'.readBenchMemAsync 0 = some (s', List.replicate 56 0xff) := by
  obtain ⟨s, hreach, hpos, hwrap, -⟩ := exists_full_log
  obtain ⟨s', hwrite, -, hread⟩ := (wrap_erases wholeNumbers 0 hreach).1 hpos hwrap
    (fun _ => 1) (fun _ => 1) fun _ => 1
  exact ⟨s, s', hreach, hpos, hwrap, hwrite, hread⟩

/-- The read of the bench log after the raw log has begun again does not return the latest bench
record. -/
theorem wrap_loses_bench :
    ∃ s s' : FlashLog, Reach (logStep wholeNumbers 0) (fun _ _ => True) FlashLog.start s ∧
      s.Wraps .raw ∧
      s.writeRawMemAsync wholeNumbers 0 (fun _ => 1) (fun _ => 1) (fun _ => 1) = some s' ∧
      ∃ r rd, s.latest .bench = some r ∧ s'.readBenchMemAsync 0 = some (s', rd) ∧ rd ≠ r.data := by
  obtain ⟨s, hreach, hpos, hwrap, r, hr, hdata⟩ := exists_full_log
  have hwrite : s.writeRawMemAsync wholeNumbers 0 (fun _ => 1) (fun _ => 1) (fun _ => 1) = some _ :=
    logStep_writeRaw s (fun _ => 1) (fun _ => 1) fun _ => 1
  have hread := readBench_of_wraps 0 (cursorInv_of_reach hreach) hpos hwrap
    (show (valueData wholeNumbers 1).length = _ by rfl) ((s.wrapped .raw).i + 1)
  refine ⟨s, _, hreach, hwrap, hwrite, r, _, hr, hread, ?_⟩
  rw [hdata]
  decide

end OsesProject
