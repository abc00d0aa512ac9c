import OsesProject.Lib.CircularBuffer
import OsesProject.Lib.Run
import OsesProject.Peripherals.Serial

/-!
# What the serial line loses

The fifo of `bufsz` bytes is a queue of at most `bufsz - 1` (`RxFifo.Holds`): a byte that comes when
so many are waiting drives out the oldest one. Over runs, in which bytes come and are read in any
order: what has been read and what is waiting are bytes that have come, in the order they came, each
at most once (`serial_run`); nothing is lost exactly when no byte comes to a fifo with `bufsz - 1`
bytes waiting (`serial_lossless_iff`).
-/

namespace OsesProject

open Machine CircularBuffer Function

namespace RxFifo

variable {bufsz n : ℕ} {f : RxFifo} {q : List UInt8} {ch : UInt8}

/-- How many bytes are waiting: the way around the buffer from the place that is read next to the
one that is written next, and all of the buffer where they are one place and it is full. -/
def waiting (bufsz : ℕ) (f : RxFifo) : ℕ :=
  if f.getIndex = f.putIndex ∧ f.isFull = true then bufsz
  else (f.putIndex + bufsz - f.getIndex) % bufsz

/-- The bytes that are waiting. -/
def pending (bufsz : ℕ) (f : RxFifo) : List UInt8 :=
  window bufsz f.buffer f.getIndex (f.waiting bufsz)

/-- The last `n` elements of a list. -/
def lastOf {α : Type*} (n : ℕ) (l : List α) : List α := l.drop (l.length - n)

/-- **The fifo holds the queue `q`**, and says it is full only when no more fits. -/
structure Holds (bufsz : ℕ) (f : RxFifo) (q : List UInt8) : Prop where
  getIndex : f.getIndex < bufsz
  room : q.length < bufsz
  putIndex : f.putIndex = (f.getIndex + q.length) % bufsz
  bytes : window bufsz f.buffer f.getIndex q.length = q
  full : f.isFull = true → q.length + 1 = bufsz

theorem opened_holds (h : 2 ≤ bufsz) : Holds bufsz opened [] where
  getIndex := by
    show 0 < bufsz
    omega
  room := by
    show 0 < bufsz
    omega
  putIndex := (Nat.zero_mod bufsz).symm
  bytes := rfl
  full := by
    rintro ⟨⟩

/-- Where the next byte is put, and the place after it. -/
theorem Holds.putIndex_lt (hf : f.Holds bufsz q) : f.putIndex < bufsz := by
  rw [hf.putIndex]
  exact Nat.mod_lt _ (by have := hf.room; omega)

theorem Holds.next_put (hf : f.Holds bufsz q) :
    (if bufsz ≤ f.putIndex + 1 then 0 else f.putIndex + 1) =
      (f.getIndex + (q.length + 1)) % bufsz := by
  rw [next_eq hf.putIndex_lt, hf.putIndex, Nat.mod_add_mod, Nat.add_assoc]

/-- The next place is the first one when the queue has filled the others. -/
theorem Holds.next_eq_get_iff (hf : f.Holds bufsz q) :
    (f.getIndex + (q.length + 1)) % bufsz = f.getIndex ↔ q.length + 1 = bufsz := by
  have hget := hf.getIndex
  have hroom := hf.room
  constructor
  · intro heq
    by_contra hne
    have hcell : (f.getIndex + 0) % bufsz ≠ (f.getIndex + (q.length + 1)) % bufsz :=
      cell_ne (by omega) (by omega)
    apply hcell
    rw [heq, Nat.add_zero, Nat.mod_eq_of_lt hget]
  · intro heq
    rw [heq, Nat.add_mod_right, Nat.mod_eq_of_lt hget]

/-- The bytes after one more has been put. -/
theorem Holds.window_receive (hf : f.Holds bufsz q) :
    window bufsz (update f.buffer f.putIndex ch) f.getIndex (q.length + 1) = q ++ [ch] := by
  rw [hf.putIndex, window_snoc hf.room, hf.bytes]

/-- A byte comes, and there is room. -/
theorem Holds.receive_room (hf : f.Holds bufsz q) (hroom : q.length + 1 < bufsz) :
    (f.receive bufsz ch).Holds bufsz (q ++ [ch]) := by
  have hnext := hf.next_put
  have hne : ¬ (f.getIndex + (q.length + 1)) % bufsz = f.getIndex := fun heq => by
    have := hf.next_eq_get_iff.mp heq
    omega
  have hlength : (q ++ [ch]).length = q.length + 1 := List.length_append
  unfold receive
  dsimp only
  rw [hnext, if_neg hne]
  refine ⟨hf.getIndex, by omega, by rw [hlength], by rw [hlength]; exact hf.window_receive,
    fun h => ?_⟩
  have := hf.full h
  omega

/-- A byte comes, and drives out the oldest one. -/
theorem Holds.receive_full {old : UInt8} (hf : f.Holds bufsz (old :: q))
    (hfull : q.length + 2 = bufsz) :
    (f.receive bufsz ch).Holds bufsz (q ++ [ch]) := by
  have hnext := hf.next_put
  have heq := hf.next_eq_get_iff.mpr (by rw [List.length_cons]; omega)
  have hlength : (q ++ [ch]).length = q.length + 1 := List.length_append
  have hbytes : window bufsz (update f.buffer f.putIndex ch) f.getIndex ((old :: q).length + 1) =
      old :: q ++ [ch] := hf.window_receive
  rw [List.length_cons, window_cons hf.getIndex] at hbytes
  have hget : (f.getIndex + 1) % bufsz < bufsz := Nat.mod_lt _ (by omega)
  unfold receive
  dsimp only
  rw [hnext, if_pos heq, next_eq hf.getIndex]
  refine ⟨hget, by omega, ?_, ?_, fun _ => by omega⟩
  · dsimp only
    rw [hlength, List.length_cons, Nat.mod_add_mod]
    congr 1
    omega
  · dsimp only
    rw [hlength]
    exact (List.cons.inj hbytes).2

/-- Both lengths the driver computes are the length of the queue: this one, and that of
`_serial_fifo_calc_recved_len` (`Holds.recvedLen_eq`). -/
theorem Holds.rxLength_eq (hf : f.Holds bufsz q) : f.rxLength bufsz = q.length := by
  have hget := hf.getIndex
  have hroom := hf.room
  have hput := hf.putIndex
  unfold rxLength
  rcases Nat.lt_or_ge (f.getIndex + q.length) bufsz with hlt | hge
  · rw [Nat.mod_eq_of_lt hlt] at hput
    rw [if_pos (by omega)]
    omega
  · rw [Nat.mod_eq_sub_mod hge, Nat.mod_eq_of_lt (by omega)] at hput
    rw [if_neg (by omega)]
    omega

theorem length_lastOf {α : Type*} (n : ℕ) (l : List α) : (lastOf n l).length = min n l.length := by
  rw [lastOf, List.length_drop]
  omega

/-- The last of the last ones and some more. -/
theorem lastOf_append {α : Type*} (n : ℕ) (l m : List α) :
    lastOf n (lastOf n l ++ m) = lastOf n (l ++ m) := by
  have hsuffix : lastOf n (lastOf n l ++ m) <:+ l ++ m := by
    refine (List.drop_suffix _ _).trans ?_
    obtain ⟨before, heq⟩ := List.drop_suffix (l.length - n) l
    exact ⟨before, by rw [← List.append_assoc]; exact congrArg (· ++ m) heq⟩
  have hlength : (lastOf n (lastOf n l ++ m)).length = min n (l.length + m.length) := by
    rw [length_lastOf, List.length_append, length_lastOf]
    omega
  rw [List.suffix_iff_eq_drop.mp hsuffix, hlength, List.length_append, lastOf, List.length_append]
  congr 1
  omega

/-- **A byte comes**: the last `bufsz - 1` bytes wait. -/
theorem Holds.receive (hf : f.Holds bufsz q) (h : 2 ≤ bufsz) :
    (f.receive bufsz ch).Holds bufsz (lastOf (bufsz - 1) (q ++ [ch])) := by
  have hroom := hf.room
  rcases Nat.lt_or_ge (q.length + 1) bufsz with hlt | hge
  · have hall : lastOf (bufsz - 1) (q ++ [ch]) = q ++ [ch] := by
      rw [lastOf, List.length_append, List.length_singleton,
        show q.length + 1 - (bufsz - 1) = 0 by omega, List.drop_zero]
    rw [hall]
    exact hf.receive_room hlt
  · cases q with
    | nil =>
      rw [List.length_nil] at hge
      omega
    | cons old q =>
      rw [List.length_cons] at hge hroom
      have htail : lastOf (bufsz - 1) (old :: q ++ [ch]) = q ++ [ch] := by
        rw [lastOf, List.length_append, List.length_cons, List.length_singleton,
          show q.length + 1 + 1 - (bufsz - 1) = 1 by omega]
        rfl
      rw [htail]
      exact hf.receive_full (by omega)

/-- **`rt_hw_serial_isr`** keeps the last `bufsz - 1` of the bytes that waited and those that have
come, and indicates how many there are. -/
theorem Holds.rtHwSerialIsr (hf : f.Holds bufsz q) (h : 2 ≤ bufsz) (chars : List UInt8) :
    (f.rtHwSerialIsr bufsz chars).1.Holds bufsz (lastOf (bufsz - 1) (q ++ chars)) ∧
      (f.rtHwSerialIsr bufsz chars).2 =
        if lastOf (bufsz - 1) (q ++ chars) = [] then none
        else some (lastOf (bufsz - 1) (q ++ chars)).length := by
  have hfold : (chars.foldl (RxFifo.receive bufsz) f).Holds bufsz
      (lastOf (bufsz - 1) (q ++ chars)) := by
    induction chars generalizing f q with
    | nil =>
      have hroom := hf.room
      rw [List.append_nil, lastOf, show q.length - (bufsz - 1) = 0 by omega, List.drop_zero]
      exact hf
    | cons ch chars ih =>
      have hfirst : (f.receive bufsz ch).Holds bufsz (lastOf (bufsz - 1) (q ++ [ch])) :=
        hf.receive h
      have hrest := ih hfirst
      rwa [lastOf_append, List.append_assoc] at hrest
  refine ⟨hfold, ?_⟩
  unfold RxFifo.rtHwSerialIsr
  dsimp only
  rw [hfold.rxLength_eq]
  simp only [List.length_eq_zero_iff]

/-- There is nothing to read. -/
theorem Holds.readChar_nil (hf : f.Holds bufsz []) (h : 2 ≤ bufsz) : f.readChar bufsz = none := by
  have hput : f.putIndex = f.getIndex := by
    rw [hf.putIndex, List.length_nil, Nat.add_zero, Nat.mod_eq_of_lt hf.getIndex]
  have hfull : f.isFull = false := by
    rw [← Bool.not_eq_true]
    intro hfull
    have := hf.full hfull
    rw [List.length_nil] at this
    omega
  exact if_pos ⟨hput.symm, hfull⟩

/-- The first byte is read. -/
theorem Holds.readChar_cons (hf : f.Holds bufsz (ch :: q)) :
    ∃ f', f.readChar bufsz = some (ch, f') ∧ f'.Holds bufsz q := by
  have hroom := hf.room
  rw [List.length_cons] at hroom
  have hne : ¬ (f.getIndex = f.putIndex ∧ f.isFull = false) := fun ⟨heq, _⟩ => by
    have hcell : (f.getIndex + 0) % bufsz ≠ (f.getIndex + (q.length + 1)) % bufsz :=
      cell_ne (by omega) hroom
    have hput := hf.putIndex
    rw [List.length_cons] at hput
    apply hcell
    rw [← hput, ← heq, Nat.add_zero, Nat.mod_eq_of_lt hf.getIndex]
  have hbytes := hf.bytes
  rw [List.length_cons, window_cons hf.getIndex] at hbytes
  obtain ⟨hch, hrest⟩ := List.cons.inj hbytes
  refine ⟨{ f with getIndex := (f.getIndex + 1) % bufsz, isFull := false }, ?_,
    Nat.mod_lt _ (by omega), by omega, ?_, hrest, by rintro ⟨⟩⟩
  · unfold readChar
    dsimp only
    rw [if_neg hne, hch, next_eq hf.getIndex]
  · dsimp only
    rw [hf.putIndex, List.length_cons, Nat.mod_add_mod]
    congr 1
    omega

/-- **`_serial_int_rx`** gives the first bytes that wait, as many as it is asked for. -/
theorem Holds.serialIntRx (hf : f.Holds bufsz q) (h : 2 ≤ bufsz) (length : ℕ) :
    (f.serialIntRx bufsz length).1 = q.take length ∧
      (f.serialIntRx bufsz length).2.Holds bufsz (q.drop length) := by
  induction length generalizing f q with
  | zero => exact ⟨rfl, hf⟩
  | succ length ih =>
    unfold RxFifo.serialIntRx
    cases q with
    | nil =>
      rw [hf.readChar_nil h]
      exact ⟨rfl, hf⟩
    | cons ch q =>
      obtain ⟨f', hread, hf'⟩ := hf.readChar_cons
      obtain ⟨hdata, hrest⟩ := ih hf'
      rw [hread]
      exact ⟨congrArg (ch :: ·) hdata, hrest⟩

theorem Holds.recvedLen_eq (hf : f.Holds bufsz q) (h : 2 ≤ bufsz) :
    f.serialFifoCalcRecvedLen bufsz = q.length := by
  have hlength := hf.rxLength_eq
  unfold rxLength at hlength
  unfold serialFifoCalcRecvedLen
  rcases eq_or_ne f.putIndex f.getIndex with heq | hne
  · rw [if_pos heq.symm.le] at hlength
    have hfull : f.isFull = false := by
      rw [← Bool.not_eq_true]
      intro hfull
      have := hf.full hfull
      omega
    rw [if_pos heq, if_pos hfull]
    omega
  · rw [if_neg hne]
    split at hlength
    · rw [if_pos (by omega), hlength]
    · rw [if_neg (by omega), hlength]

theorem Holds.waiting_eq (hf : f.Holds bufsz q) (h : 2 ≤ bufsz) : f.waiting bufsz = q.length := by
  have hget := hf.getIndex
  have hroom := hf.room
  have hput := hf.putIndex
  -- A full fifo has `bufsz - 1` bytes, so its indices differ.
  have hapart : ¬ (f.getIndex = f.putIndex ∧ f.isFull = true) := by
    rintro ⟨heq, hfull⟩
    have hlength := hf.full hfull
    have hcell : (f.getIndex + 0) % bufsz ≠ (f.getIndex + q.length) % bufsz :=
      cell_ne (by omega) hroom
    apply hcell
    rw [← hput, ← heq, Nat.add_zero, Nat.mod_eq_of_lt hget]
  rw [waiting, if_neg hapart]
  rcases Nat.lt_or_ge (f.getIndex + q.length) bufsz with hlt | hge
  · rw [Nat.mod_eq_of_lt hlt] at hput
    rw [hput, show f.getIndex + q.length + bufsz - f.getIndex = q.length + bufsz by omega,
      Nat.add_mod_right, Nat.mod_eq_of_lt hroom]
  · rw [Nat.mod_eq_sub_mod hge, Nat.mod_eq_of_lt (by omega)] at hput
    rw [hput, show f.getIndex + q.length - bufsz + bufsz - f.getIndex = q.length by omega,
      Nat.mod_eq_of_lt hroom]

theorem Holds.pending_eq (hf : f.Holds bufsz q) (h : 2 ≤ bufsz) : f.pending bufsz = q := by
  rw [pending, hf.waiting_eq h, hf.bytes]

end RxFifo

/-! ## Runs -/

/-- The line: the fifo, the bytes that have come, and those that have been read. -/
structure SerialLine where
  fifo : RxFifo
  received : List UInt8
  delivered : List UInt8

/-- A byte comes, or a thread asks for one. -/
inductive SerialEvent
  | byte (ch : UInt8)
  | read

namespace SerialLine

variable {bufsz : ℕ} {x y : SerialLine} {e : SerialEvent} {q : List UInt8} {ch : UInt8}

/-- The line when the device is opened. -/
def opened : SerialLine := ⟨RxFifo.opened, [], []⟩

def step (bufsz : ℕ) (x : SerialLine) : SerialEvent → Option SerialLine
  | .byte ch => some ⟨x.fifo.receive bufsz ch, x.received ++ [ch], x.delivered⟩
  | .read =>
    match x.fifo.readChar bufsz with
    | none => some x
    | some (ch, f) => some ⟨f, x.received, x.delivered ++ [ch]⟩

/-- An event for which there is room: a byte needs two free places, since one stays free. -/
def Room (bufsz : ℕ) (x : SerialLine) : SerialEvent → Prop
  | .byte _ => x.fifo.waiting bufsz + 1 < bufsz
  | .read => True

instance (bufsz : ℕ) (x : SerialLine) : DecidablePred (x.Room bufsz) := fun e => by
  cases e <;> (unfold Room; infer_instance)

/-- **What is waiting are the last bytes that have come**, and what has been read came before
them. -/
structure InOrder (bufsz : ℕ) (x : SerialLine) (q : List UInt8) : Prop where
  holds : x.fifo.Holds bufsz q
  suffix : q <:+ x.received
  sublist : (x.delivered ++ q).Sublist x.received

theorem opened_inOrder (h : 2 ≤ bufsz) : opened.InOrder bufsz [] :=
  ⟨RxFifo.opened_holds h, List.suffix_refl [], .slnil⟩

/-- A byte for which there is room waits behind the others. -/
theorem InOrder.byte_room (hx : x.InOrder bufsz q) (hroom : q.length + 1 < bufsz) :
    InOrder bufsz ⟨x.fifo.receive bufsz ch, x.received ++ [ch], x.delivered⟩ (q ++ [ch]) where
  holds := hx.holds.receive_room hroom
  suffix := by
    obtain ⟨before, heq⟩ := hx.suffix
    exact ⟨before, by rw [← List.append_assoc, heq]⟩
  sublist := by
    dsimp only
    rw [← List.append_assoc]
    exact hx.sublist.append_right [ch]

/-- A byte for which there is no room drives out the first one. -/
theorem InOrder.byte_full {old : UInt8} (hx : x.InOrder bufsz (old :: q))
    (hfull : q.length + 2 = bufsz) :
    InOrder bufsz ⟨x.fifo.receive bufsz ch, x.received ++ [ch], x.delivered⟩ (q ++ [ch]) where
  holds := hx.holds.receive_full hfull
  suffix := by
    obtain ⟨before, heq⟩ := hx.suffix
    exact ⟨before ++ [old], by simp [← heq]⟩
  sublist := by
    dsimp only
    rw [← List.append_assoc]
    refine List.Sublist.append_right (List.Sublist.trans ?_ hx.sublist) [ch]
    exact List.Sublist.append_left (List.sublist_cons_self old q) _

/-- A byte that is read was the first one. -/
theorem InOrder.read {f : RxFifo} (hx : x.InOrder bufsz (ch :: q)) (hf : f.Holds bufsz q) :
    InOrder bufsz ⟨f, x.received, x.delivered ++ [ch]⟩ q where
  holds := hf
  suffix := (List.suffix_cons ch q).trans hx.suffix
  sublist := by
    dsimp only
    rw [List.append_assoc]
    exact hx.sublist

/-- What one step does to the bytes: nothing is lost if there is room, and one byte is if not. -/
theorem InOrder.moves (h : 2 ≤ bufsz) (hx : x.InOrder bufsz q) (hstep : x.step bufsz e = some y) :
    ∃ q', y.InOrder bufsz q' ∧
      (x.Room bufsz e ∧ x.received.length + (y.delivered ++ q').length =
          y.received.length + (x.delivered ++ q).length ∨
        ¬ x.Room bufsz e ∧ x.received.length + (y.delivered ++ q').length + 1 =
          y.received.length + (x.delivered ++ q).length) := by
  have hlength := hx.holds.waiting_eq h
  have hroom := hx.holds.room
  cases e with
  | byte ch =>
    cases hstep
    rcases Nat.lt_or_ge (q.length + 1) bufsz with hlt | hge
    · refine ⟨q ++ [ch], hx.byte_room hlt, .inl ⟨by rwa [Room, hlength], ?_⟩⟩
      simp only [List.length_append]
      omega
    · cases q with
      | nil =>
        rw [List.length_nil] at hge
        omega
      | cons old q =>
        rw [List.length_cons] at hge hroom
        refine ⟨q ++ [ch], hx.byte_full (by omega), .inr ⟨?_, ?_⟩⟩
        · rw [Room, hlength, List.length_cons]
          omega
        · simp only [List.length_append, List.length_cons]
          omega
  | read =>
    cases q with
    | nil =>
      rw [step, hx.holds.readChar_nil h] at hstep
      cases hstep
      exact ⟨[], hx, .inl ⟨trivial, rfl⟩⟩
    | cons ch q =>
      obtain ⟨f, hread, hf⟩ := hx.holds.readChar_cons
      rw [step, hread] at hstep
      cases hstep
      refine ⟨q, hx.read hf, .inl ⟨trivial, ?_⟩⟩
      simp only [List.length_append, List.length_cons, List.length_nil]
      omega

/-- **In every run of the line** the bytes that wait are the last ones that have come, what has been
read and what waits came in this order, each at most once, and the lengths the driver computes are
those of what waits. -/
theorem serial_run {ok : SerialLine → SerialEvent → Prop} (h : 2 ≤ bufsz)
    (hreach : Reach (step bufsz) ok opened x) :
    x.fifo.pending bufsz <:+ x.received ∧
      (x.delivered ++ x.fifo.pending bufsz).Sublist x.received ∧
      (x.fifo.pending bufsz).length < bufsz ∧
      x.fifo.rxLength bufsz = (x.fifo.pending bufsz).length ∧
      x.fifo.serialFifoCalcRecvedLen bufsz = (x.fifo.pending bufsz).length := by
  obtain ⟨q, hx⟩ : ∃ q, x.InOrder bufsz q :=
    hreach.invariant (fun x : SerialLine => ∃ q, x.InOrder bufsz q) ⟨[], opened_inOrder h⟩
      fun _ _ _ ⟨_, hx⟩ _ hstep => by
        obtain ⟨q', hy, -⟩ := hx.moves h hstep
        exact ⟨q', hy⟩
  rw [hx.holds.pending_eq h]
  exact ⟨hx.suffix, hx.sublist, hx.holds.room, hx.holds.rxLength_eq, hx.holds.recvedLen_eq h⟩

theorem serial_run_shell :
    ∃ x, Reach (step 64) (fun _ _ => True) opened x ∧ x.received = [7, 8] ∧ x.delivered = [7] ∧
      x.fifo.pending 64 <:+ x.received := by
  have hrun : run (step 64) opened [.byte 7, .byte 8, .read] = some
      ⟨⟨update (update (fun _ => 0) 0 7) 1 8, 2, 1, false⟩, [7, 8], [7]⟩ := rfl
  have hreach := Reach.of_each .refl (Each.of_forall (fun _ _ _ => trivial) _) hrun
  exact ⟨_, hreach, rfl, rfl, (serial_run (by decide) hreach).1⟩

/-- What a run loses: nothing if there is room at every step, and something if not. -/
theorem InOrder.loses {es : List SerialEvent} (h : 2 ≤ bufsz) (hx : x.InOrder bufsz q)
    (hrun : run (step bufsz) x es = some y) :
    ∃ q', y.InOrder bufsz q' ∧
      (Each (step bufsz) (Room bufsz) x es ∧
          x.received.length + (y.delivered ++ q').length =
            y.received.length + (x.delivered ++ q).length ∨
        ¬ Each (step bufsz) (Room bufsz) x es ∧
          x.received.length + (y.delivered ++ q').length <
            y.received.length + (x.delivered ++ q).length) := by
  induction es generalizing x q with
  | nil =>
    cases hrun
    exact ⟨q, hx, .inl ⟨trivial, rfl⟩⟩
  | cons e es ih =>
    rw [run_cons, Option.bind_eq_some_iff] at hrun
    obtain ⟨z, hz, hrun⟩ := hrun
    obtain ⟨q₁, hz', hfirst⟩ := hx.moves h hz
    obtain ⟨q', hy, hrest⟩ := ih hz' hrun
    refine ⟨q', hy, ?_⟩
    have hcons : Each (step bufsz) (Room bufsz) x (e :: es) ↔
        x.Room bufsz e ∧ Each (step bufsz) (Room bufsz) z es := by
      refine and_congr_right fun _ => ⟨fun heach => heach z hz, fun heach s hs => ?_⟩
      cases hz.symm.trans hs
      exact heach
    rw [hcons]
    rcases hfirst with ⟨hroom, hone⟩ | ⟨hroom, hone⟩
    · rcases hrest with ⟨heach, hlength⟩ | ⟨heach, hlength⟩
      · exact .inl ⟨⟨hroom, heach⟩, by omega⟩
      · exact .inr ⟨fun hboth => heach hboth.2, by omega⟩
    · right
      refine ⟨fun hboth => hroom hboth.1, ?_⟩
      rcases hrest with ⟨-, hlength⟩ | ⟨-, hlength⟩ <;> omega

/-- **Nothing is lost** on the line exactly when no byte comes while `bufsz - 1` are waiting. -/
theorem serial_lossless_iff {es : List SerialEvent} (h : 2 ≤ bufsz)
    (hrun : run (step bufsz) opened es = some x) :
    x.delivered ++ x.fifo.pending bufsz = x.received ↔
      Each (step bufsz) (Room bufsz) opened es := by
  obtain ⟨q, hx, hlost⟩ := (opened_inOrder h).loses h hrun
  rw [hx.holds.pending_eq h]
  have hopened : opened.received.length = 0 ∧ (opened.delivered ++ []).length = 0 := ⟨rfl, rfl⟩
  rcases hlost with ⟨heach, hlength⟩ | ⟨heach, hlength⟩
  · exact iff_of_true (hx.sublist.eq_of_length (by omega)) heach
  · refine iff_of_false (fun heq => ?_) heach
    rw [heq] at hlength
    omega

theorem serial_lossless_shell :
    ∃ x, run (step 64) opened [.byte 7, .byte 8, .read] = some x ∧
      x.delivered ++ x.fifo.pending 64 = x.received := by
  have hrun : run (step 64) opened [.byte 7, .byte 8, .read] = some
      ⟨⟨update (update (fun _ => 0) 0 7) 1 8, 2, 1, false⟩, [7, 8], [7]⟩ := rfl
  exact ⟨_, hrun, (serial_lossless_iff (by decide) hrun).mpr (by decide)⟩

end SerialLine

end OsesProject
