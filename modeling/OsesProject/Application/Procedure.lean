import OsesProject.Application.System

/-!
# The application's threads and tasks (`procedure.c`, `XenoJetBench.c`)

The kernel calls that `producer_entry`, `consumer_entry` and the four tasks make, and the
configuration `main` sets up. A transfer on a bus takes and releases the bus lock: the flash driver
makes three for `PAGE_PROGRAM`, one for `READ_DATA`, and for `CHIP_ERASE` three and one for every
time it polls the status register; the sensors' drivers make seven for a reading.
-/

namespace OsesProject

/-- The four task objects: `raw[0]`, `raw[1]`, `bench[0]` and `bench[1]`. -/
inductive Task
  | writeRawMemAsync
  | readRawMemAsync
  | writeBenchMemAsync
  | readBenchMemAsync
  deriving DecidableEq, Repr

/-- `n` transfers on a bus. -/
def transfers (bus : Lock) (n : Nat) : List (Act Lock) :=
  (List.replicate n [.take bus, .release bus]).flatten

/-- `write_raw_mem_async` and `write_bench_mem_async`, with the mutex of the log. The chip is erased
first when the log is full; `polls` is how often the status register is read then, and 0 says that
the log is not full. -/
def writeMemAsync (m : Lock) (polls : Nat) : List (Act Lock) :=
  (if polls = 0 then [] else transfers .spi (3 + polls)) ++
    .take m :: (transfers .spi 3 ++ [.release m])

/-- `read_raw_mem_async` and `read_bench_mem_async`. -/
def readMemAsync (m : Lock) : List (Act Lock) :=
  .take m :: (transfers .spi 1 ++ [.release m])

/-- The task functions. -/
def thdFun : Task → Nat → List (Act Lock)
  | .writeRawMemAsync, polls => writeMemAsync .raw polls
  | .readRawMemAsync, _ => readMemAsync .raw
  | .writeBenchMemAsync, polls => writeMemAsync .bench polls
  | .readBenchMemAsync, _ => readMemAsync .bench

/-- `NUM_READINGS`. -/
def numReadings : Nat := 125

/-- `producer_entry`: one reading, or the pause after `NUM_READINGS` of them. -/
def producerEntry (round : Nat) : List (Act Lock) :=
  if round % (numReadings + 1) < numReadings then
    .take .raw :: (transfers .i2c 7 ++ [.delay 10, .release .raw])
  else
    [.delay 201000]

/-- `consumer_entry`: the first pause, one reading of `init_xeno`, or the pause after
`NUM_READINGS` of them. -/
def consumerEntry : Nat → List (Act Lock)
  | 0 => [.delay 5000]
  | round + 1 =>
    if round % (numReadings + 1) < numReadings then
      [.take .raw, .release .raw, .take .bench, .release .bench]
    else
      [.delay 6000]

/-- The loops of the threads. -/
def threadRound : Tid → Nat → List (Act Lock)
  | .producer, round => producerEntry round
  | .consumer, round => consumerEntry round
  | _, _ => []

/-- The task a button's handler inserts: writing first, reading after. -/
def buttonTask : Button → Bool → Task
  | .raw, false => .writeRawMemAsync
  | .raw, true => .readRawMemAsync
  | .bench, false => .writeBenchMemAsync
  | .bench, true => .readBenchMemAsync

/-- A bus that is not held already can be used for any number of transfers. -/
theorem Nested.transfers {stk : List Lock} {todo : List (Act Lock)} {bus : Lock}
    (hbus : bus ∉ stk) (h : Nested stk todo) (n : Nat) :
    Nested stk (transfers bus n ++ todo) := by
  induction n with
  | zero => exact h
  | succ n ih =>
    rw [OsesProject.transfers, List.replicate_succ, List.flatten_cons, List.append_assoc]
    exact ⟨hbus, rfl, ih⟩

theorem thdFun_nested (a : Task) (polls : Nat) : Nested [] (thdFun a polls) := by
  have hrelease : ∀ m : Lock, Nested [m] [.release m] := fun _ => ⟨rfl, rfl⟩
  have hwrite : ∀ m : Lock, m ≠ .spi → Nested [] (writeMemAsync m polls) := by
    intro m hm
    have htask : Nested [] (.take m :: (transfers .spi 3 ++ [.release m])) :=
      ⟨by simp, Nested.transfers (by simpa using hm.symm) (hrelease m) 3⟩
    unfold writeMemAsync
    split
    · exact htask
    · exact Nested.transfers (by simp) htask _
  have hread : ∀ m : Lock, m ≠ .spi → Nested [] (readMemAsync m) := fun m hm =>
    ⟨by simp, Nested.transfers (by simpa using hm.symm) (hrelease m) 1⟩
  cases a with
  | writeRawMemAsync => exact hwrite .raw (by decide)
  | readRawMemAsync => exact hread .raw (by decide)
  | writeBenchMemAsync => exact hwrite .bench (by decide)
  | readBenchMemAsync => exact hread .bench (by decide)

/-- The tasks do not use the sensors' bus. -/
theorem thdFun_avoids_i2c (a : Task) (polls : Nat) : .release .i2c ∉ thdFun a polls := by
  have htransfers : ∀ n, .release .i2c ∉ transfers .spi n := by
    intro n hmem
    simp only [transfers, List.mem_flatten, List.mem_replicate] at hmem
    obtain ⟨l, ⟨-, rfl⟩, hmem⟩ := hmem
    simp at hmem
  have hwrite : ∀ m : Lock, m ≠ .i2c → .release .i2c ∉ writeMemAsync m polls := by
    intro m hm hmem
    simp only [writeMemAsync, List.mem_append, List.mem_cons, reduceCtorEq, Act.release.injEq,
      List.not_mem_nil, or_false, false_or] at hmem
    rcases hmem with hmem | hmem | hmem
    · split at hmem
      · cases hmem
      · exact htransfers _ hmem
    · exact htransfers _ hmem
    · exact hm hmem.symm
  have hread : ∀ m : Lock, m ≠ .i2c → .release .i2c ∉ readMemAsync m := by
    intro m hm hmem
    simp only [readMemAsync, List.mem_append, List.mem_cons, reduceCtorEq, Act.release.injEq,
      List.not_mem_nil, or_false, false_or] at hmem
    rcases hmem with hmem | hmem
    · exact htransfers _ hmem
    · exact hm hmem.symm
  cases a with
  | writeRawMemAsync => exact hwrite .raw (by decide)
  | readRawMemAsync => exact hread .raw (by decide)
  | writeBenchMemAsync => exact hwrite .bench (by decide)
  | readBenchMemAsync => exact hread .bench (by decide)

theorem threadRound_nested (t : Tid) (round : Nat) : Nested [] (threadRound t round) := by
  cases t with
  | producer =>
    show Nested [] (producerEntry round)
    unfold producerEntry
    split <;> decide
  | consumer =>
    show Nested [] (consumerEntry round)
    cases round with
    | zero => decide
    | succ round =>
      rw [consumerEntry]
      split <;> decide
  | server | main | idle => exact rfl

/-- The application with the given arguments of `rt_thread_deferrable_init`. -/
def application (capacity period priority : Nat) (memory : Nat → UInt8) : Config Task where
  capacity := capacity
  period := period
  priority := priority
  memory := memory
  body := thdFun
  round := threadRound
  task := buttonTask
  body_nested := thdFun_nested
  round_nested := threadRound_nested

/-- What `main` sets up: a capacity of one second, a period of 205 seconds and the priority
`THREAD_PRIORITY_DEF`, at 1000 ticks a second. -/
def board (memory : Nat → UInt8) : Config Task := application 1000 205000 17 memory

/-- The priority of the thread that runs `main`. -/
def mainPriority : Nat := 10

open Event in
/-- The run of `main` to its end, as the scheduler has it: the producer preempts `main` as soon as
it is started, and sleeps inside its first reading when `main` goes on. -/
def startUp : List (Event Task) :=
  thread .main 0 :: switch .producer :: List.replicate 17 (thread .producer 0) ++
    [switch .main, thread .main 0, thread .main 0]

end OsesProject
