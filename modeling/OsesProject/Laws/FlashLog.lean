import OsesProject.Application.FlashLog
import Mathlib.Data.List.Lattice
import Mathlib.Data.List.Pairwise

/-!
# Where the records of the flash log lie

The address bytes are sent least significant first and taken most significant first, so the low byte
of the cursor selects the page together with the middle one, and its high byte the place in the
page. As bit 23 of what arrives is ignored, two cursors whose low bytes differ by 128 share a page.
So the records of the two logs lie apart until one of the logs has come around to a page a second
time (`apart_of_room`), and from its next record on they do not: `records_apart_iff`.
-/

namespace OsesProject

open Machine NorFlash

variable {F : Type} {conv : Conversion F} {polls : Nat} {s s' : FlashLog} {op : LogOp F}
  {log : Log}

/-! ## Addresses -/

/-- The address the chip takes from the address bytes of `addr`. -/
def chipAddr (addr : UInt32) : Nat :=
  Chip.address addr.toUInt8 (addr >>> 8).toUInt8 (addr >>> 16).toUInt8

theorem chipAddr_eq (addr : UInt32) :
    chipAddr addr = (addr.toNat % 128 * 256 + addr.toNat / 256 % 256) * 256 +
      addr.toNat / 65536 % 256 := by
  have h8 : (addr >>> 8).toNat = addr.toNat / 256 := by
    simp [Nat.shiftRight_eq_div_pow]
  have h16 : (addr >>> 16).toNat = addr.toNat / 65536 := by
    simp [Nat.shiftRight_eq_div_pow]
  rw [chipAddr, Chip.address, UInt32.toNat_toUInt8, UInt32.toNat_toUInt8, UInt32.toNat_toUInt8, h8,
    h16, chipSize]
  omega

/-- The place of record `k` of a log. -/
def Log.place (log : Log) (k : Nat) : Nat := log.first.toNat + log.stride.toNat * k

theorem place_raw (k : Nat) : Log.raw.place k = 12 * k := by simp [Log.place, Log.first, Log.stride]

theorem place_bench (k : Nat) : Log.bench.place k = 8388608 + 56 * k := by
  simp [Log.place, Log.first, Log.stride]

/-! ## What a call does -/

/-- The log before a write: the chip erased and the cursor at the beginning when it wraps. -/
def FlashLog.wrapped (s : FlashLog) (log : Log) : FlashLog :=
  if s.Wraps log then
    { s with chip := ⟨erased, false⟩, cursor := Function.update s.cursor log log.first }
  else
    s

/-- The log after a write. -/
def FlashLog.stored (s : FlashLog) (log : Log) (data : List UInt8) : FlashLog :=
  { s with
    chip := ⟨program pageSize s.chip.cells (chipAddr (s.cursor log)) data, false⟩
    cursor := Function.update s.cursor log (s.cursor log + log.stride)
    written := s.written ++ [⟨log, s.cursor log, data⟩] }

theorem FlashLog.wrapped_written (s : FlashLog) (log : Log) :
    (s.wrapped log).written = s.written := by
  unfold FlashLog.wrapped
  split <;> rfl

theorem FlashLog.wrapped_cursor (h : s.Wraps log) : (s.wrapped log).cursor log = log.first := by
  simp [FlashLog.wrapped, h]

theorem FlashLog.wrap_snd (s : FlashLog) (log : Log) :
    (s.wrap log).2 = (s.wrapped log).cursor log := by
  unfold FlashLog.wrap FlashLog.wrapped
  split <;> simp

/-- The calls of a write program the record, on the erased chip when it wraps. -/
theorem FlashLog.control_writeCommands {data : List UInt8} (hlen : data.length = log.dlen.toNat) :
    s.chip.control polls (s.writeCommands log data) =
      some (((s.wrapped log).stored log data).chip, []) := by
  have hdata : data.take log.dlen.toNat = data := by rw [← hlen, List.take_length]
  by_cases hwrap : s.Wraps log
  · simp [FlashLog.writeCommands, FlashLog.wrap, FlashLog.wrapped, FlashLog.stored, hwrap,
      Chip.control, addr8, Chip.control_chipErase, Chip.control_pageProgram, hdata, chipAddr]
  · simp [FlashLog.writeCommands, FlashLog.wrap, FlashLog.wrapped, FlashLog.stored, hwrap,
      Chip.control, addr8, Chip.control_pageProgram, hdata, chipAddr]

theorem FlashLog.writeMemAsync_eq {data : List UInt8} (hlen : data.length = log.dlen.toNat) :
    s.writeMemAsync polls log data = some ((s.wrapped log).stored log data) := by
  rw [FlashLog.writeMemAsync, FlashLog.control_writeCommands hlen, Option.map_some, s.wrap_snd]
  unfold FlashLog.stored FlashLog.wrapped
  split <;> simp

theorem FlashLog.readMemAsync_eq (s : FlashLog) (log : Log) :
    s.readMemAsync polls log = some (s, NorFlash.read chipSize s.chip.cells
      (chipAddr (s.cursor log - log.stride)) log.dlen.toNat) := by
  simp [FlashLog.readMemAsync, FlashLog.readCommands, Chip.control, addr8, Chip.control_readData,
    chipAddr]

theorem encode_length (conv : Conversion F) (v : F) : (encode conv v).length = 4 := rfl

/-- `write_raw_mem_async` on the chip. -/
theorem logStep_writeRaw (s : FlashLog) (accV gyroV baroV : Fin numReadings → F) :
    logStep conv polls s (.writeRaw accV gyroV baroV) = some
      { (s.wrapped .raw).stored .raw
          (encode conv (accV s.i) ++ encode conv (gyroV s.i) ++ encode conv (baroV s.i)) with
        i := (s.wrapped .raw).i + 1 } := by
  rw [logStep, FlashLog.writeRawMemAsync,
    FlashLog.writeMemAsync_eq (by simp [encode_length, Log.dlen])]
  rfl

/-- `write_bench_mem_async` on the chip. -/
theorem logStep_writeBench (s : FlashLog) (results : Fin 14 → F) :
    logStep conv polls s (.writeBench results) = some ((s.wrapped .bench).stored .bench
      ((List.finRange 14).flatMap fun j => encode conv (results j))) := by
  rw [logStep, FlashLog.writeBenchMemAsync, FlashLog.writeMemAsync_eq]
  simp [List.length_flatMap, encode_length, Log.dlen]

/-- **What a call does**: a read nothing, and a write stores a record of the log's length. -/
theorem logStep_cases (h : logStep conv polls s op = some s') :
    op.writes = none ∧ s' = s ∨ ∃ log data i, op.writes = some log ∧
      data.length = log.dlen.toNat ∧ s' = { (s.wrapped log).stored log data with i := i } := by
  cases op with
  | writeRaw accV gyroV baroV =>
    rw [logStep_writeRaw] at h
    cases h
    exact .inr ⟨.raw, _, _, rfl, by simp [encode_length, Log.dlen], rfl⟩
  | writeBench results =>
    rw [logStep_writeBench] at h
    cases h
    exact .inr ⟨.bench, _, _, rfl, by simp [List.length_flatMap, encode_length, Log.dlen], rfl⟩
  | readRaw =>
    simp only [logStep, FlashLog.readRawMemAsync, FlashLog.readMemAsync_eq] at h
    cases h
    exact .inl ⟨rfl, rfl⟩
  | readBench =>
    simp only [logStep, FlashLog.readBenchMemAsync, FlashLog.readMemAsync_eq] at h
    cases h
    exact .inl ⟨rfl, rfl⟩

/-! ## Records and their cells -/

/-- What the write of a record programs. -/
def Record.entry (r : Record) : Entry := ⟨chipAddr r.addr, r.data⟩

/-- The two records are programmed into different cells. -/
def Apart (r r' : Record) : Prop :=
  List.Disjoint (r.entry.slots pageSize) (r'.entry.slots pageSize)

theorem Apart.symm {r r' : Record} (h : Apart r r') : Apart r' r := List.Disjoint.symm h

/-- A cell of a record is in the page its low and middle address bytes select, from the place its
high byte selects on. -/
theorem of_mem_slots {r : Record} {c : Nat} (h : c ∈ r.entry.slots pageSize) :
    c / 256 = r.addr.toNat % 128 * 256 + r.addr.toNat / 256 % 256 ∧
      ∃ i < r.data.length, c % 256 = (r.addr.toNat / 65536 % 256 + i) % 256 := by
  obtain ⟨i, hi, hc⟩ := Entry.mem_slots.mp h
  have hc : chipAddr r.addr / 256 * 256 + (chipAddr r.addr + i) % 256 = c := hc
  rw [chipAddr_eq] at hc
  exact ⟨by omega, i, hi, by omega⟩

/-- Records in different pages are apart. -/
theorem apart_of_page {r r' : Record}
    (h : r.addr.toNat % 128 ≠ r'.addr.toNat % 128 ∨
      r.addr.toNat / 256 % 256 ≠ r'.addr.toNat / 256 % 256) : Apart r r' := by
  intro c hc hc'
  have hpage := (of_mem_slots hc).1.symm.trans (of_mem_slots hc').1
  omega

/-- Two cursors in one page differ by a multiple of 65536, up to 128. -/
theorem same_page {n n' : Nat} (hl : n % 128 = n' % 128) (hm : n / 256 % 256 = n' / 256 % 256) :
    n + n' / 65536 * 65536 = n' + n / 65536 * 65536 ∨
      n + n' / 65536 * 65536 + 128 = n' + n / 65536 * 65536 ∨
      n + n' / 65536 * 65536 = n' + n / 65536 * 65536 + 128 := by
  have hn : n = n / 65536 * 65536 + n / 256 % 256 * 256 + n % 256 := by omega
  have hn' : n' = n' / 65536 * 65536 + n' / 256 % 256 * 256 + n' % 256 := by omega
  have hlow : n % 256 = n' % 256 ∨ n % 256 + 128 = n' % 256 ∨ n % 256 = n' % 256 + 128 := by omega
  omega

/-- The first raw records are in pages of their own: 65664 is the first multiple of 12 that is 128
beyond a multiple of 65536. -/
theorem raw_page {k k' : Nat} (hk : k < 5472) (hk' : k' < 5472)
    (hl : 12 * k % 128 = 12 * k' % 128) (hm : 12 * k / 256 % 256 = 12 * k' / 256 % 256) :
    k = k' := by
  have hh : 12 * k / 65536 = 0 ∨ 12 * k / 65536 = 1 := by omega
  have hh' : 12 * k' / 65536 = 0 ∨ 12 * k' / 65536 = 1 := by omega
  have hdiff := same_page hl hm
  rcases hh with hh | hh <;> rcases hh' with hh' | hh' <;> rw [hh, hh'] at hdiff <;> omega

/-- The first bench records are in pages of their own: they have one high byte. -/
theorem bench_page {k k' : Nat} (hk : k < 1171) (hk' : k' < 1171)
    (hl : (8388608 + 56 * k) % 128 = (8388608 + 56 * k') % 128)
    (hm : (8388608 + 56 * k) / 256 % 256 = (8388608 + 56 * k') / 256 % 256) : k = k' := by
  have hh : (8388608 + 56 * k) / 65536 = 128 := by omega
  have hh' : (8388608 + 56 * k') / 65536 = 128 := by omega
  have hdiff := same_page hl hm
  rw [hh, hh'] at hdiff
  omega

/-- A raw record lies in the first cells of its page, a bench record in the second half of it. -/
theorem apart_of_log {r r' : Record} {k k' : Nat} (hk : k < 5472) (hk' : k' < 1171)
    (ha : r.addr.toNat = 12 * k) (ha' : r'.addr.toNat = 8388608 + 56 * k')
    (hlen : r.data.length = 12) (hlen' : r'.data.length = 56) : Apart r r' := by
  have hhigh : r.addr.toNat / 65536 ≤ 1 := by omega
  have hhigh' : r'.addr.toNat / 65536 = 128 := by omega
  intro c hc hc'
  obtain ⟨-, i, hi, hci⟩ := of_mem_slots hc
  obtain ⟨-, j, hj, hcj⟩ := of_mem_slots hc'
  rw [hlen] at hi
  rw [hlen'] at hj
  have hlow : c % 256 ≤ 12 := by
    rw [hci, Nat.mod_eq_of_lt (show r.addr.toNat / 65536 < 256 by omega),
      Nat.mod_eq_of_lt (show r.addr.toNat / 65536 + i < 256 by omega)]
    omega
  have hupper : 128 ≤ c % 256 := by
    rw [hcj, hhigh', Nat.mod_eq_of_lt (show 128 < 256 by omega),
      Nat.mod_eq_of_lt (show 128 + j < 256 by omega)]
    omega
  omega

/-- The number of records of a log. -/
def FlashLog.count (s : FlashLog) (log : Log) : Nat := s.written.countP fun r => r.log = log

/-- How many records of a log are apart from each other. -/
def Log.room : Log → Nat
  | .raw => 5472
  | .bench => 1171

/-- **The first records of the two logs are apart.** -/
theorem apart_of_room {r r' : Record} {k k' : Nat} (hk : k < r.log.room) (hk' : k' < r'.log.room)
    (ha : r.addr.toNat = r.log.place k) (ha' : r'.addr.toNat = r'.log.place k')
    (hlen : r.data.length = r.log.dlen.toNat) (hlen' : r'.data.length = r'.log.dlen.toNat)
    (hne : r.log = r'.log → k ≠ k') : Apart r r' := by
  cases hl : r.log with
  | raw =>
    rw [hl] at ha hk hlen
    rw [place_raw] at ha
    cases hl' : r'.log with
    | raw =>
      rw [hl'] at ha' hk'
      rw [place_raw] at ha'
      refine apart_of_page ?_
      rw [ha, ha']
      by_contra hsame
      rw [not_or, not_not, not_not] at hsame
      exact hne (hl.trans hl'.symm) (raw_page hk hk' hsame.1 hsame.2)
    | bench =>
      rw [hl'] at ha' hk' hlen'
      exact apart_of_log hk hk' ha (ha'.trans (place_bench k')) hlen hlen'
  | bench =>
    rw [hl] at ha hk hlen
    rw [place_bench] at ha
    cases hl' : r'.log with
    | raw =>
      rw [hl'] at ha' hk' hlen'
      exact (apart_of_log hk' hk (ha'.trans (place_raw k')) ha hlen' hlen).symm
    | bench =>
      rw [hl'] at ha' hk'
      rw [place_bench] at ha'
      refine apart_of_page ?_
      rw [ha, ha']
      by_contra hsame
      rw [not_or, not_not, not_not] at hsame
      exact hne (hl.trans hl'.symm) (bench_page hk hk' hsame.1 hsame.2)

/-! ## Runs without an erase -/

theorem Log.place_succ (log : Log) (k : Nat) :
    log.place (k + 1) = log.place k + log.stride.toNat := by
  rw [Log.place, Log.place, Nat.mul_add_one, Nat.add_assoc]

theorem Log.place_lt (log : Log) {k k' : Nat} (h : k < k') : log.place k < log.place k' := by
  cases log with
  | raw =>
    rw [place_raw, place_raw]
    omega
  | bench =>
    rw [place_bench, place_bench]
    omega

/-- A cursor before the end of its log moves on by one record. -/
theorem Log.add_stride {addr : UInt32} (h : addr < log.limit) :
    (addr + log.stride).toNat = addr.toNat + log.stride.toNat := by
  have h := UInt32.lt_iff_toNat_lt.mp h
  rw [UInt32.toNat_add]
  cases log with
  | raw =>
    simp only [Log.limit, Log.stride, UInt32.reduceToNat] at h ⊢
    omega
  | bench =>
    simp only [Log.limit, Log.stride, UInt32.reduceToNat] at h ⊢
    omega

theorem FlashLog.count_stored (s : FlashLog) (log log' : Log) (data : List UInt8) :
    (s.stored log data).count log' = s.count log' + if log = log' then 1 else 0 := by
  by_cases h : log = log' <;> simp [FlashLog.count, FlashLog.stored, h]

/-- What holds while the chip is not erased again. -/
structure LogInv (s : FlashLog) : Prop where
  cursor : ∀ log, (s.cursor log).toNat = log.place (s.count log)
  record : ∀ r ∈ s.written, r.data.length = r.log.dlen.toNat ∧
    ∃ k < s.count r.log, r.addr.toNat = r.log.place k
  all : ∀ log, ∀ k < s.count log, ∃ r ∈ s.written, r.log = log ∧ r.addr.toNat = log.place k
  distinct : s.written.Pairwise fun r r' => r.log = r'.log → r.addr ≠ r'.addr
  holds : s.written.Pairwise Apart → Holds pageSize s.chip.cells (s.written.map Record.entry)

theorem start_logInv : LogInv FlashLog.start where
  cursor := by
    intro log
    cases log <;> rfl
  record := fun _ hr => by cases hr
  all := fun _ _ hk => by cases hk
  distinct := List.Pairwise.nil
  holds := fun _ => holds_erased

/-- A write that does not wrap. -/
theorem LogInv.stored (hI : LogInv s) {data : List UInt8} (hwrap : ¬s.Wraps log)
    (hlen : data.length = log.dlen.toNat) (i : Fin numReadings) :
    LogInv { s.stored log data with i := i } := by
  have hcount : ∀ log', ({ s.stored log data with i := i } : FlashLog).count log' =
      s.count log' + if log = log' then 1 else 0 := fun log' => s.count_stored log log' data
  have hgrow : ∀ log', s.count log' ≤
      ({ s.stored log data with i := i } : FlashLog).count log' := by
    intro log'
    rw [hcount]
    exact Nat.le_add_right _ _
  refine ⟨?_, ?_, ?_, ?_, ?_⟩
  · intro log'
    rw [hcount]
    by_cases hl : log' = log
    · subst hl
      simp only [FlashLog.stored, Function.update_self, if_true]
      rw [Log.add_stride (by simpa [FlashLog.Wraps] using hwrap), Log.place_succ, hI.cursor]
    · simp only [FlashLog.stored, Function.update_of_ne hl, if_neg (Ne.symm hl), Nat.add_zero]
      exact hI.cursor log'
  · intro r hr
    rcases List.mem_append.mp hr with hr | hr
    · obtain ⟨hlen, k, hk, ha⟩ := hI.record r hr
      exact ⟨hlen, k, Nat.lt_of_lt_of_le hk (hgrow _), ha⟩
    · cases List.mem_singleton.mp hr
      refine ⟨hlen, s.count log, ?_, hI.cursor log⟩
      rw [hcount, if_pos rfl]
      exact Nat.lt_succ_self _
  · intro log' k hk
    by_cases hold : k < s.count log'
    · obtain ⟨r, hr, hl, ha⟩ := hI.all log' k hold
      exact ⟨r, List.mem_append_left _ hr, hl, ha⟩
    · -- the new one
      rw [hcount] at hk
      split at hk
      · next hl =>
        subst hl
        have hk : k = s.count log := by omega
        exact ⟨_, List.mem_append_right _ (List.mem_singleton.mpr rfl), rfl,
          by rw [hk]; exact hI.cursor log⟩
      · exact absurd hk hold
  · refine List.pairwise_append.mpr ⟨hI.distinct, List.pairwise_singleton _ _, ?_⟩
    intro r hr r' hr' hl he
    cases List.mem_singleton.mp hr'
    obtain ⟨-, k, hk, ha⟩ := hI.record r hr
    have hl : r.log = log := hl
    have he : r.addr = s.cursor log := he
    rw [he, hI.cursor, hl] at ha
    exact absurd ha (Nat.ne_of_gt (log.place_lt (hl ▸ hk)))
  · intro hapart
    obtain ⟨hold, -, hnew⟩ := List.pairwise_append.mp hapart
    have hprogram := (hI.holds hold).program
      (e := Record.entry ⟨log, s.cursor log, data⟩) ?_ ?_
    · simpa [FlashLog.stored, Record.entry] using hprogram
    · show data.length ≤ pageSize
      rw [hlen]
      cases log <;> decide
    · intro e he
      obtain ⟨r, hr, rfl⟩ := List.mem_map.mp he
      exact hnew r hr _ (List.mem_singleton.mpr rfl)

/-- One call. -/
theorem LogInv.step (hI : LogInv s) (herase : ¬Erases s op)
    (h : logStep conv polls s op = some s') : LogInv s' := by
  rcases logStep_cases h with ⟨-, rfl⟩ | ⟨log, data, i, hw, hlen, rfl⟩
  · exact hI
  · have hwrap : ¬s.Wraps log := fun hwrap => herase ⟨log, hw, hwrap⟩
    rw [FlashLog.wrapped, if_neg hwrap]
    exact hI.stored hwrap hlen i

/-! ## Many writes -/

/-- `float`s that are whole numbers. -/
def wholeNumbers : Conversion UInt32 := ⟨UInt32.toUInt8, id⟩

/-- A write of a raw record with the same value everywhere. -/
def writeValue (v : F) : LogOp F := .writeRaw (fun _ => v) (fun _ => v) fun _ => v

/-- Its bytes. -/
def valueData (conv : Conversion F) (v : F) : List UInt8 :=
  encode conv v ++ encode conv v ++ encode conv v

/-- Before its end is reached, any number of raw records go to the log one after the other. -/
theorem run_writeValue (conv : Conversion F) (polls : Nat) (v : F) {m n : Nat}
    (hm : (s.cursor .raw).toNat = 12 * m) (hn : m + n ≤ 699050) :
    ∃ s', run (logStep conv polls) s (List.replicate n (writeValue v)) = some s' ∧
      Each (logStep conv polls) (fun s op => ¬Erases s op) s (List.replicate n (writeValue v)) ∧
      (s'.cursor .raw).toNat = 12 * (m + n) ∧ s'.cursor .bench = s.cursor .bench ∧
      ∃ rs, s'.written = s.written ++ rs ∧ ∀ r ∈ rs, r.log = .raw ∧ r.data = valueData conv v := by
  induction n generalizing s m with
  | zero => exact ⟨s, rfl, trivial, hm, rfl, [], by simp, by simp⟩
  | succ n ih =>
    have hlt : s.cursor .raw < Log.raw.limit := by
      rw [UInt32.lt_iff_toNat_lt, hm]
      simp only [Log.limit, UInt32.reduceToNat]
      omega
    have hwrap : ¬s.Wraps .raw := by simpa [FlashLog.Wraps] using hlt
    have hstep : logStep conv polls s (writeValue v) =
        some { s.stored .raw (valueData conv v) with i := s.i + 1 } := by
      rw [writeValue, logStep_writeRaw, FlashLog.wrapped, if_neg hwrap]
      rfl
    generalize hs₁ : ({ s.stored .raw (valueData conv v) with i := s.i + 1 } : FlashLog) = s₁
      at hstep
    have hcursor : (s₁.cursor .raw).toNat = 12 * (m + 1) := by
      have hnew : s₁.cursor .raw = s.cursor .raw + Log.raw.stride := by
        rw [← hs₁]
        simp [FlashLog.stored]
      rw [hnew, Log.add_stride hlt, hm]
      rfl
    obtain ⟨s', hrun, heach, hc, hb, rs, hrs, hdata⟩ := ih hcursor (by omega)
    refine ⟨s', ?_, ⟨?_, ?_⟩, ?_, ?_, ⟨.raw, s.cursor .raw, valueData conv v⟩ :: rs, ?_, ?_⟩
    · rw [List.replicate_succ, run_cons, hstep]
      exact hrun
    · rintro ⟨log, hlog, hw⟩
      cases hlog
      exact hwrap hw
    · intro t ht
      cases hstep.symm.trans ht
      exact heach
    · rw [hc]
      omega
    · rw [hb, ← hs₁]
      rfl
    · rw [hrs, ← hs₁]
      simp [FlashLog.stored]
    · intro r hr
      rcases List.mem_cons.mp hr with rfl | hr
      · exact ⟨rfl, rfl⟩
      · exact hdata r hr

/-! ## When all records are apart -/

/-- Two records one cell apart share a cell. -/
theorem not_apart {r r' : Record} (hlen : 1 < r.data.length) (hlen' : 0 < r'.data.length)
    (hnext : chipAddr r'.addr = chipAddr r.addr + 1)
    (hpage : chipAddr r.addr % pageSize + 1 < pageSize) :
    ¬Apart r r' :=
  Entry.not_disjoint (e := r.entry) hlen hlen' hnext hpage

namespace LogInv

/-- Two records of a log with different indices are apart when all records are. -/
theorem apart_at (hI : LogInv s) (hapart : s.written.Pairwise Apart) {k k' : Nat} (hne : k < k')
    (hk' : k' < s.count log) :
    ∃ r r' : Record, r.log = log ∧ r'.log = log ∧ r.data.length = log.dlen.toNat ∧
      r'.data.length = log.dlen.toNat ∧ r.addr.toNat = log.place k ∧
      r'.addr.toNat = log.place k' ∧ Apart r r' := by
  obtain ⟨r, hr, hl, ha⟩ := hI.all log k (Nat.lt_trans hne hk')
  obtain ⟨r', hr', hl', ha'⟩ := hI.all log k' hk'
  refine ⟨r, r', hl, hl', hl ▸ (hI.record r hr).1, hl' ▸ (hI.record r' hr').1, ha, ha', ?_⟩
  have : Std.Symm Apart := ⟨fun _ _ h => h.symm⟩
  refine hapart.forall hr hr' ?_
  rintro rfl
  exact Nat.ne_of_lt (log.place_lt hne) (ha.symm.trans ha')

/-- **All records are apart exactly while the logs are short.** -/
theorem apart_iff (hI : LogInv s) :
    s.written.Pairwise Apart ↔ ∀ log, s.count log ≤ log.room := by
  constructor
  · intro hapart log
    by_contra hroom
    cases log with
    | raw =>
      obtain ⟨r, r', -, -, hlen, hlen', ha, ha', h⟩ :=
        hI.apart_at hapart (show 0 < 5472 by decide) (Nat.lt_of_not_le hroom)
      rw [place_raw] at ha ha'
      refine not_apart ?_ ?_ ?_ ?_ h
      · rw [hlen]
        decide
      · rw [hlen']
        decide
      · rw [chipAddr_eq, chipAddr_eq, ha, ha']
      · rw [chipAddr_eq, ha]
        decide
    | bench =>
      obtain ⟨r, r', -, -, hlen, hlen', ha, ha', h⟩ :=
        hI.apart_at hapart (show 3 < 1171 by decide) (Nat.lt_of_not_le hroom)
      rw [place_bench] at ha ha'
      refine not_apart ?_ ?_ ?_ ?_ h
      · rw [hlen]
        decide
      · rw [hlen']
        decide
      · rw [chipAddr_eq, chipAddr_eq, ha, ha']
      · rw [chipAddr_eq, ha]
        decide
  · intro hroom
    refine hI.distinct.imp_of_mem fun {r r'} hr hr' hne => ?_
    obtain ⟨hlen, k, hk, ha⟩ := hI.record r hr
    obtain ⟨hlen', k', hk', ha'⟩ := hI.record r' hr'
    refine apart_of_room (Nat.lt_of_lt_of_le hk (hroom _)) (Nat.lt_of_lt_of_le hk' (hroom _)) ha ha'
      hlen hlen' fun hl hkk => hne hl ?_
    refine UInt32.toNat_inj.mp ?_
    rw [ha, ha', hl, hkk]

/-- Records that are apart and do not reach the end of their page are read back. -/
theorem read_back (hI : LogInv s) (hroom : ∀ log, s.count log ≤ log.room) {r : Record}
    (hr : r ∈ s.written) :
    w25q64Control Chip.transfer polls s.chip .readData (addr8 r.addr) r.log.dlen [] =
      some (s.chip, r.data) := by
  obtain ⟨hlen, k, hk, ha⟩ := hI.record r hr
  have hk : k < r.log.room := Nat.lt_of_lt_of_le hk (hroom _)
  have hhigh : r.addr.toNat / 65536 % 256 + r.data.length ≤ 256 := by
    rw [hlen, ha]
    cases hl : r.log with
    | raw =>
      rw [hl] at hk
      have hk : k < 5472 := hk
      have hhigh : 12 * k / 65536 ≤ 1 := by omega
      rw [place_raw, Nat.mod_eq_of_lt (show 12 * k / 65536 < 256 by omega)]
      simp only [Log.dlen, UInt8.reduceToNat]
      omega
    | bench =>
      rw [hl] at hk
      have hk : k < 1171 := hk
      have hhigh : (8388608 + 56 * k) / 65536 = 128 := by omega
      rw [place_bench, hhigh]
      decide
  have hread : NorFlash.read chipSize s.chip.cells (chipAddr r.addr) r.data.length = r.data := by
    refine (hI.holds (hI.apart_iff.mpr hroom)).read_entry (e := r.entry)
      (List.mem_map_of_mem hr) ?_ ?_
    · show chipAddr r.addr % pageSize + r.data.length ≤ pageSize
      rw [chipAddr_eq, pageSize]
      omega
    · show chipAddr r.addr + r.data.length ≤ chipSize
      rw [chipAddr_eq, chipSize]
      omega
  rw [addr8, Chip.control_readData, ← hlen]
  exact congrArg (fun d => some (s.chip, d)) hread

end LogInv

/-- **The records of the flash log.** In every state reached from an erased chip by calls of the
four functions without a further erase, the cells of any two records are disjoint if and only if at
most 5472 raw and at most 1171 bench records have been written; and while this is so, every record
is read back with the address bytes it was written with. -/
theorem records_apart_iff (conv : Conversion F) (polls : Nat)
    (hreach : Reach (logStep conv polls) (fun s op => ¬Erases s op) FlashLog.start s) :
    (s.written.Pairwise Apart ↔ s.count .raw ≤ 5472 ∧ s.count .bench ≤ 1171) ∧
      (s.count .raw ≤ 5472 ∧ s.count .bench ≤ 1171 → ∀ r ∈ s.written,
        w25q64Control Chip.transfer polls s.chip .readData (addr8 r.addr) r.log.dlen [] =
          some (s.chip, r.data)) := by
  have hI := hreach.invariant LogInv start_logInv fun s op s' hI herase h => hI.step herase h
  have hroom : (∀ log : Log, s.count log ≤ log.room) ↔
      s.count .raw ≤ 5472 ∧ s.count .bench ≤ 1171 := by
    constructor
    · intro h
      exact ⟨h .raw, h .bench⟩
    · rintro ⟨hraw, hbench⟩ log
      cases log with
      | raw => exact hraw
      | bench => exact hbench
  exact ⟨hI.apart_iff.trans hroom, fun h r hr => hI.read_back (hroom.mpr h) hr⟩

instance (s : FlashLog) (op : LogOp F) : Decidable (Erases s op) := by
  unfold Erases
  infer_instance

/-- One record in each log. -/
theorem records_apart_two :
    ∃ s, run (logStep wholeNumbers 0) FlashLog.start [writeValue 1, .writeBench fun _ => 2] =
        some s ∧
      s.count .raw = 1 ∧ s.count .bench = 1 ∧ s.written.Pairwise Apart := by
  obtain ⟨s, hs⟩ : ∃ s, run (logStep wholeNumbers 0) FlashLog.start
      [writeValue 1, .writeBench fun _ => 2] = some s := by
    rw [← Option.isSome_iff_exists]
    decide +kernel
  have hcount : ((run (logStep wholeNumbers 0) FlashLog.start
      [writeValue 1, .writeBench fun _ => 2]).map fun s => (s.count .raw, s.count .bench)) =
      some (1, 1) := by decide +kernel
  rw [hs, Option.map_some, Option.some.injEq, Prod.mk.injEq] at hcount
  have hreach : Reach (logStep wholeNumbers 0) (fun s op => ¬Erases s op) FlashLog.start s :=
    Reach.of_each .refl (by decide +kernel) hs
  refine ⟨s, hs, hcount.1, hcount.2, ?_⟩
  refine (records_apart_iff wholeNumbers 0 hreach).1.mpr ?_
  rw [hcount.1, hcount.2]
  decide

/-- The record with the index 5472 of the raw log is programmed one cell beyond the first one, and
clears its bits: after 5473 writes of the value 1 the first record is not read back. -/
theorem record_overwritten :
    ∃ s, Each (logStep wholeNumbers 0) (fun s op => ¬Erases s op) FlashLog.start
        (List.replicate 5473 (writeValue 1)) ∧
      run (logStep wholeNumbers 0) FlashLog.start (List.replicate 5473 (writeValue 1)) = some s ∧
      ∃ r ∈ s.written, w25q64Control Chip.transfer 0 s.chip .readData (addr8 r.addr) r.log.dlen [] ≠
        some (s.chip, r.data) := by
  obtain ⟨s', hrun', heach', -⟩ :=
    run_writeValue (s := FlashLog.start) wholeNumbers 0 1 (m := 0) (n := 5473) rfl (by decide)
  obtain ⟨s, hrun, heach, hc, -, rs, hrs, hdata⟩ :=
    run_writeValue (s := FlashLog.start) wholeNumbers 0 1 (m := 0) (n := 5472) rfl (by decide)
  refine ⟨s', heach', hrun', ?_⟩
  have hI : LogInv s := (Reach.of_each .refl heach hrun).invariant LogInv start_logInv
    fun s op s' hI herase h => hI.step herase h
  have hcount : s.count .raw = 5472 := by
    have hcursor := hI.cursor .raw
    rw [hc, place_raw] at hcursor
    omega
  -- the last write
  have hlast : s' = { s.stored .raw (valueData wholeNumbers 1) with i := s.i + 1 } := by
    have hwrap : ¬s.Wraps .raw := by
      rw [FlashLog.Wraps, UInt32.le_iff_toNat_le, hc]
      decide
    rw [List.replicate_succ', run_append, hrun, Option.bind_some, run_cons, writeValue,
      logStep_writeRaw, FlashLog.wrapped, if_neg hwrap] at hrun'
    cases hrun'
    rfl
  have haddr : chipAddr (s.cursor .raw) = 1 := by
    rw [chipAddr_eq, hc]
  have hcell : s'.chip.cells 4 = 0 := by
    rw [hlast]
    show program pageSize s.chip.cells (chipAddr (s.cursor .raw)) (valueData wholeNumbers 1) 4 = 0
    rw [haddr]
    have hslot := program_slot (m := s.chip.cells) (e := ⟨1, valueData wholeNumbers 1⟩) (i := 3)
      (b := 0) (show _ ≤ pageSize by decide) rfl
    exact hslot.trans UInt8.and_zero
  -- the first record
  obtain ⟨r, hr, hl, ha⟩ := hI.all .raw 0 (by omega)
  have hrd : r.data = valueData wholeNumbers 1 := (hdata r (by rwa [hrs] at hr)).2
  refine ⟨r, ?_, fun hread => ?_⟩
  · rw [hlast]
    exact List.mem_append_left _ hr
  · have haddr : chipAddr r.addr = 0 := by
      rw [chipAddr_eq, ha, place_raw]
    rw [addr8, Chip.control_readData, hl, Option.some.injEq, Prod.mk.injEq, hrd] at hread
    have hbyte := congrArg (fun d : List UInt8 => d[4]?) hread.2
    change (NorFlash.read chipSize s'.chip.cells (chipAddr r.addr) 12)[4]? = some 1 at hbyte
    rw [haddr, read_getElem? (by decide)] at hbyte
    change some (s'.chip.cells 4) = some 1 at hbyte
    rw [hcell] at hbyte
    cases hbyte

end OsesProject
