import Mathlib.Data.Nat.ModEq
import Mathlib.Data.List.Basic
import Mathlib.Logic.Function.Basic

/-!
# NOR flash memory

A memory of byte cells, in pages of `page` cells. Programming can clear bits and not set them: a
byte is ANDed into its cell. The bytes of one program stay in the page of its address and wrap
around at the page's end (`slot`), while a read goes on through consecutive cells, modulo the `size`
of the memory. Only an erased memory has every bit set.

An `Entry` is what one program stores. `Holds m es` says that the memory holds the entries `es` and
nothing else. It is kept by programming a further entry whose cells are disjoint from those of the
others (`Holds.program`), and an entry that does not wrap is read back from it
(`Holds.read_entry`).
-/

namespace NorFlash

variable {page size addr : Nat} {m : Nat → UInt8}

/-- The cell that byte `i` of a program at `addr` goes to. -/
def slot (page addr i : Nat) : Nat := addr / page * page + (addr + i) % page

/-- The bytes of a program from byte `i` on, each ANDed into its cell. -/
def programFrom (page addr : Nat) : Nat → List UInt8 → (Nat → UInt8) → Nat → UInt8
  | _, [], m => m
  | i, b :: bs, m =>
    programFrom page addr (i + 1) bs
      (Function.update m (slot page addr i) (m (slot page addr i) &&& b))

/-- Programming `data` at `addr`. -/
def program (page : Nat) (m : Nat → UInt8) (addr : Nat) (data : List UInt8) : Nat → UInt8 :=
  programFrom page addr 0 data m

/-- Every bit set. -/
def erased : Nat → UInt8 := fun _ => 0xff

/-- The memory with the aligned block of `block` cells around `addr` erased. -/
def eraseBlock (block : Nat) (m : Nat → UInt8) (addr : Nat) : Nat → UInt8 :=
  fun a => if a / block = addr / block then 0xff else m a

/-- Erasing a block changes nothing when the block is blank already, and only then. -/
theorem eq_eraseBlock_iff {block : Nat} :
    m = eraseBlock block m addr ↔ ∀ a, a / block = addr / block → m a = 0xff := by
  constructor
  · intro h a ha
    rw [h, eraseBlock, if_pos ha]
  · intro h
    funext a
    unfold eraseBlock
    split
    · next ha => exact h a ha
    · rfl

/-- Reading `n` consecutive cells. -/
def read (size : Nat) (m : Nat → UInt8) (addr n : Nat) : List UInt8 :=
  (List.range n).map fun i => m ((addr + i) % size)

@[simp] theorem length_read (n : Nat) : (read size m addr n).length = n := by simp [read]

/-- Byte `i` of a read. -/
theorem read_getElem? {n i : Nat} (hi : i < n) :
    (read size m addr n)[i]? = some (m ((addr + i) % size)) := by
  simp [read, hi]

/-- The bytes of one program go to different cells. -/
theorem slot_injective {i j : Nat} (hi : i < page) (hj : j < page)
    (h : slot page addr i = slot page addr j) : i = j := by
  have hmod : addr + i ≡ addr + j [MOD page] := Nat.add_left_cancel h
  have hmod := Nat.ModEq.add_left_cancel' addr hmod
  rwa [Nat.ModEq, Nat.mod_eq_of_lt hi, Nat.mod_eq_of_lt hj] at hmod

/-- A program that does not reach the end of its page stores at consecutive cells. -/
theorem slot_eq_add {i : Nat} (h : addr % page + i < page) : slot page addr i = addr + i := by
  have hmod : (addr + i) % page = addr % page + i := by
    rw [Nat.add_mod, Nat.mod_eq_of_lt (Nat.lt_of_le_of_lt (Nat.le_add_left i _) h),
      Nat.mod_eq_of_lt h]
  rw [slot, hmod, ← Nat.add_assoc, Nat.div_add_mod']

/-! ## What a program does to a cell -/

theorem programFrom_of_ne {c i : Nat} {bs : List UInt8}
    (h : ∀ j < bs.length, c ≠ slot page addr (i + j)) :
    programFrom page addr i bs m c = m c := by
  induction bs generalizing i m with
  | nil => rfl
  | cons b bs ih =>
    rw [programFrom, ih]
    · rw [Function.update_of_ne]
      exact h 0 (by simp)
    · intro j hj
      rw [Nat.add_assoc, Nat.add_comm 1 j]
      exact h (j + 1) (by simpa using hj)

theorem programFrom_slot {i j : Nat} {bs : List UInt8} {b : UInt8} (hpage : i + bs.length ≤ page)
    (hb : bs[j]? = some b) :
    programFrom page addr i bs m (slot page addr (i + j)) =
      m (slot page addr (i + j)) &&& b := by
  induction bs generalizing i j m with
  | nil => simp at hb
  | cons a bs ih =>
    simp only [List.length_cons] at hpage
    cases j with
    | zero =>
      simp only [List.getElem?_cons_zero, Option.some.injEq] at hb
      rw [programFrom, programFrom_of_ne, Nat.add_zero, Function.update_self, hb]
      intro k hk he
      have := slot_injective (by omega) (by omega) he
      omega
    | succ j =>
      simp only [List.getElem?_cons_succ] at hb
      have hj := (List.getElem?_eq_some_iff.mp hb).1
      have hij : i + (j + 1) = i + 1 + j := by omega
      rw [programFrom, hij, ih (by omega) hb, Function.update_of_ne]
      intro he
      have := slot_injective (by omega) (by omega) he
      omega

/-! ## Entries -/

/-- What one program stores, and where. -/
structure Entry where
  addr : Nat
  data : List UInt8
  deriving DecidableEq, Repr

/-- The cells an entry is programmed into. -/
def Entry.slots (page : Nat) (e : Entry) : List Nat :=
  (List.range e.data.length).map (slot page e.addr)

theorem Entry.mem_slots {e : Entry} {c : Nat} :
    c ∈ e.slots page ↔ ∃ i < e.data.length, slot page e.addr i = c := by
  simp [Entry.slots]

/-- Entries one cell apart share a cell. -/
theorem Entry.not_disjoint {e e' : Entry} (hlen : 1 < e.data.length) (hlen' : 0 < e'.data.length)
    (hnext : e'.addr = e.addr + 1) (hpage : e.addr % page + 1 < page) :
    ¬List.Disjoint (e.slots page) (e'.slots page) := by
  have hpage' : e'.addr % page + 0 < page := Nat.mod_lt _ (by omega)
  have hslot : slot page e'.addr 0 = e.addr + 1 := by rw [slot_eq_add hpage', hnext, Nat.add_zero]
  intro h
  exact h (Entry.mem_slots.mpr ⟨1, hlen, slot_eq_add hpage⟩) (Entry.mem_slots.mpr ⟨0, hlen', hslot⟩)

/-- A program leaves the cells of other entries alone. -/
theorem program_of_not_mem {e : Entry} {c : Nat} (h : c ∉ e.slots page) :
    program page m e.addr e.data c = m c := by
  refine programFrom_of_ne fun j hj he => h (Entry.mem_slots.mpr ⟨j, hj, ?_⟩)
  rw [he, Nat.zero_add]

/-- A program ANDs each byte into its cell. -/
theorem program_slot {e : Entry} {i : Nat} {b : UInt8} (hpage : e.data.length ≤ page)
    (hb : e.data[i]? = some b) :
    program page m e.addr e.data (slot page e.addr i) = m (slot page e.addr i) &&& b := by
  have hslot : programFrom page e.addr 0 e.data m (slot page e.addr (0 + i)) =
      m (slot page e.addr (0 + i)) &&& b := programFrom_slot (by simpa using hpage) hb
  simpa [program] using hslot

/-- The memory holds the entries, and is blank elsewhere. -/
structure Holds (page : Nat) (m : Nat → UInt8) (es : List Entry) : Prop where
  stored : ∀ e ∈ es, ∀ i b, e.data[i]? = some b → m (slot page e.addr i) = b
  blank : ∀ c, (∀ e ∈ es, c ∉ e.slots page) → m c = 0xff

theorem holds_erased : Holds page erased [] where
  stored := fun _ he => by cases he
  blank := fun _ _ => rfl

/-- An entry whose cells are free is stored beside the others. -/
theorem Holds.program {es : List Entry} {e : Entry} (h : Holds page m es)
    (hpage : e.data.length ≤ page)
    (hdisj : ∀ e' ∈ es, List.Disjoint (e'.slots page) (e.slots page)) :
    Holds page (program page m e.addr e.data) (es ++ [e]) where
  stored := by
    intro e' he' i b hb
    have hi := (List.getElem?_eq_some_iff.mp hb).1
    have hmem : slot page e'.addr i ∈ e'.slots page := Entry.mem_slots.mpr ⟨i, hi, rfl⟩
    rcases List.mem_append.mp he' with he' | he'
    · rw [program_of_not_mem (hdisj e' he' hmem)]
      exact h.stored e' he' i b hb
    · cases List.mem_singleton.mp he'
      rw [program_slot hpage hb, h.blank _ fun e'' he'' hc => hdisj e'' he'' hc hmem]
      -- a blank cell takes the byte
      exact UInt8.neg_one_and
  blank := by
    intro c hc
    rw [program_of_not_mem (hc e (by simp))]
    exact h.blank c fun e' he' => hc e' (List.mem_append_left _ he')

/-- **An entry that does not wrap is read back.** -/
theorem Holds.read_entry {es : List Entry} {e : Entry} (h : Holds page m es) (he : e ∈ es)
    (hwrap : e.addr % page + e.data.length ≤ page) (hsize : e.addr + e.data.length ≤ size) :
    read size m e.addr e.data.length = e.data := by
  refine List.ext_getElem? fun i => ?_
  cases hb : e.data[i]? with
  | none => simpa using hb
  | some b =>
    have hi := (List.getElem?_eq_some_iff.mp hb).1
    have hslot : slot page e.addr i = e.addr + i := slot_eq_add (by omega)
    rw [read_getElem? hi, Nat.mod_eq_of_lt (by omega), ← hslot]
    exact congrArg some (h.stored e he i b hb)

end NorFlash
