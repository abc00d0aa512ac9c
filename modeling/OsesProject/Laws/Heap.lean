import OsesProject.Kernel.Heap
import OsesProject.Laws.Memory
import OsesProject.Lib.Blocks

/-!
# The blocks of the heap

`Tiled h bs` is the invariant of the heap: its headers, wherever in the memory they are, lay out the
blocks `bs` side by side from `heap_ptr` to `heap_end`, and the static variables are what the blocks
say. `Valid` adds that no two free blocks are neighbours. The functions of `mem.c` keep it, and they
write to nothing but headers (`OnlyHeaders`), so that the bytes of the used blocks stay as they are.
-/

namespace OsesProject

open ByteMemory Blocks HeapMem

/-! ## Headers -/

/-- The header at `p`, as a valid heap has it. -/
structure Header (m : Mem) (p : ℕ) (u : Bool) (nx pv : ℕ) : Prop where
  magic : magic m p = heapMagic
  used : used m p = u.toNat
  next : next m p = nx
  prev : prev m p = pv

section Header

variable {m m' : Mem} {p q a v nx pv : ℕ} {u w : Bool}

theorem putMagic_outside (h : a < p ∨ p + 12 ≤ a) : putMagic m p v a = m a :=
  store_of_notMem (by omega)

theorem putUsed_outside (h : a < p ∨ p + 12 ≤ a) : putUsed m p v a = m a :=
  store_of_notMem (by omega)

theorem putNext_outside (h : a < p ∨ p + 12 ≤ a) : putNext m p v a = m a :=
  store_of_notMem (by omega)

theorem putPrev_outside (h : a < p ∨ p + 12 ≤ a) : putPrev m p v a = m a :=
  store_of_notMem (by omega)

/-- A header is its twelve bytes. -/
theorem Header.congr (h : Header m p u nx pv) (hm : ∀ a, p ≤ a → a < p + 12 → m' a = m a) :
    Header m' p u nx pv where
  magic := (load_congr fun a ha hlt => hm a (by omega) (by omega)).trans h.magic
  used := (load_congr fun a ha hlt => hm a (by omega) (by omega)).trans h.used
  next := (load_congr fun a ha hlt => hm a (by omega) (by omega)).trans h.next
  prev := (load_congr fun a ha hlt => hm a (by omega) (by omega)).trans h.prev

theorem Header.magic_put (h : Header m p u nx pv) : Header (putMagic m p heapMagic) p u nx pv where
  magic := load_store (by decide)
  used := (load_store_of_disjoint (by omega)).trans h.used
  next := (load_store_of_disjoint (by omega)).trans h.next
  prev := (load_store_of_disjoint (by omega)).trans h.prev

theorem Header.used_put (h : Header m p u nx pv) (w : Bool) :
    Header (putUsed m p w.toNat) p w nx pv where
  magic := (load_store_of_disjoint (by omega)).trans h.magic
  used := load_store (by cases w <;> decide)
  next := (load_store_of_disjoint (by omega)).trans h.next
  prev := (load_store_of_disjoint (by omega)).trans h.prev

theorem Header.next_put (h : Header m p u nx pv) (hv : v < 2 ^ 32) :
    Header (putNext m p v) p u v pv where
  magic := (load_store_of_disjoint (by omega)).trans h.magic
  used := (load_store_of_disjoint (by omega)).trans h.used
  next := load_store hv
  prev := (load_store_of_disjoint (by omega)).trans h.prev

theorem Header.prev_put (h : Header m p u nx pv) (hv : v < 2 ^ 32) :
    Header (putPrev m p v) p u nx v where
  magic := (load_store_of_disjoint (by omega)).trans h.magic
  used := (load_store_of_disjoint (by omega)).trans h.used
  next := (load_store_of_disjoint (by omega)).trans h.next
  prev := load_store hv

/-- A header written field by field. -/
theorem Header.of_fields {n : ℕ} (hn : n < 2 ^ 32) (hv : v < 2 ^ 32) :
    Header (putPrev (putNext (putUsed (putMagic m p heapMagic) p w.toNat) p n) p v) p w n v where
  magic := by
    refine (load_store_of_disjoint (by omega)).trans ((load_store_of_disjoint (by omega)).trans
      ((load_store_of_disjoint (by omega)).trans (load_store (by decide))))
  used := by
    refine (load_store_of_disjoint (by omega)).trans ((load_store_of_disjoint (by omega)).trans
      (load_store (by cases w <;> decide)))
  next := (load_store_of_disjoint (by omega)).trans (load_store hn)
  prev := load_store hv

end Header

/-! ## The headers of a list of blocks -/

/-- The headers of the blocks `bs`, the first of them at the offset `o` and the block before it at
the offset `prev`. -/
def HeadersFrom (m : Mem) (base : ℕ) : ℕ → ℕ → List Block → Prop
  | _, _, [] => True
  | prev, o, b :: bs =>
    Header m (base + o) b.used (o + b.size) prev ∧ HeadersFrom m base o (o + b.size) bs

/-- Where the last of the blocks begins; `prev` when there are none. -/
def lastBegin : ℕ → ℕ → List Block → ℕ
  | prev, _, [] => prev
  | _, o, b :: bs => lastBegin o (o + b.size) bs

section HeadersFrom

variable {m m' : Mem} {base prev o v : ℕ} {b : Block} {bs xs ys : List Block}

theorem headersFrom_append : HeadersFrom m base prev o (xs ++ ys) ↔
    HeadersFrom m base prev o xs ∧ HeadersFrom m base (lastBegin prev o xs) (o + total xs) ys := by
  induction xs generalizing prev o with
  | nil => simp [HeadersFrom, lastBegin]
  | cons x xs ih =>
    rw [List.cons_append, HeadersFrom, HeadersFrom, ih, and_assoc, total_cons, Nat.add_assoc]
    rfl

theorem lastBegin_snoc : lastBegin prev o (xs ++ [b]) = o + total xs := by
  induction xs generalizing prev o with
  | nil => rfl
  | cons x xs ih => rw [List.cons_append, lastBegin, ih, total_cons, Nat.add_assoc]

theorem lastBegin_le (h : prev ≤ o) : lastBegin prev o xs ≤ o + total xs := by
  induction xs generalizing prev o with
  | nil => exact h
  | cons x xs ih =>
    rw [lastBegin, total_cons, ← Nat.add_assoc]
    exact ih (Nat.le_add_right o x.size)

/-- The headers are in the bytes of the blocks. -/
theorem HeadersFrom.congr (h : HeadersFrom m base prev o bs) (hsize : ∀ b ∈ bs, 16 ≤ b.size)
    (hm : ∀ a, base + o ≤ a → a < base + (o + total bs) → m' a = m a) :
    HeadersFrom m' base prev o bs := by
  induction bs generalizing prev o with
  | nil => trivial
  | cons b bs ih =>
    have hb := hsize b List.mem_cons_self
    rw [total_cons] at hm
    refine ⟨h.1.congr fun a ha hlt => hm a ha (by omega), ih h.2
      (fun c hc => hsize c (List.mem_cons_of_mem _ hc)) fun a ha hlt => hm a (by omega) (by omega)⟩

/-- The first block is told of another block before it. -/
theorem HeadersFrom.prev_put (h : HeadersFrom m base prev o bs) (hsize : ∀ b ∈ bs, 16 ≤ b.size)
    (hv : v < 2 ^ 32) : HeadersFrom (putPrev m (base + o) v) base v o bs := by
  cases bs with
  | nil => trivial
  | cons b bs =>
    have hb := hsize b List.mem_cons_self
    exact ⟨h.1.prev_put hv, h.2.congr (fun c hc => hsize c (List.mem_cons_of_mem _ hc))
      fun a ha hlt => putPrev_outside (by omega)⟩

end HeadersFrom

/-! ## What the functions write -/

/-- Nothing but headers is written: those at the offsets `qs` from `base`. -/
def OnlyHeaders (qs : List ℕ) (base : ℕ) (m m' : Mem) : Prop :=
  ∀ a, (∀ q ∈ qs, a < base + q ∨ base + q + 12 ≤ a) → m' a = m a

namespace OnlyHeaders

variable {m m' m'' : Mem} {base q v : ℕ} {qs qs' : List ℕ}

theorem refl (qs : List ℕ) (base : ℕ) (m : Mem) : OnlyHeaders qs base m m := fun _ _ => rfl

theorem trans (h : OnlyHeaders qs base m m') (h' : OnlyHeaders qs base m' m'') :
    OnlyHeaders qs base m m'' :=
  fun a ha => (h' a ha).trans (h a ha)

theorem mono (h : OnlyHeaders qs base m m') (hsub : qs ⊆ qs') : OnlyHeaders qs' base m m' :=
  fun a ha => h a fun q hq => ha q (hsub hq)

theorem putMagic (hq : q ∈ qs) : OnlyHeaders qs base m (putMagic m (base + q) v) :=
  fun _ ha => putMagic_outside (ha q hq)

theorem putUsed (hq : q ∈ qs) : OnlyHeaders qs base m (putUsed m (base + q) v) :=
  fun _ ha => putUsed_outside (ha q hq)

theorem putNext (hq : q ∈ qs) : OnlyHeaders qs base m (putNext m (base + q) v) :=
  fun _ ha => putNext_outside (ha q hq)

theorem putPrev (hq : q ∈ qs) : OnlyHeaders qs base m (putPrev m (base + q) v) :=
  fun _ ha => putPrev_outside (ha q hq)

/-- The bytes of a used block are the same. -/
theorem used_block {bs : List Block} {o s a : ℕ} (h : OnlyHeaders (cuts 0 bs) base m m')
    (hmem : (o, s) ∈ usedFrom 0 bs) (ha : base + o + 12 ≤ a) (hlt : a < base + o + s) :
    m' a = m a :=
  h a fun q hq => by
    have := usedFrom_apart hmem hq
    omega

/-- So are the bytes outside the heap. -/
theorem outside {bs : List Block} {a : ℕ} (h : OnlyHeaders (cuts 0 bs) base m m')
    (ha : a < base ∨ base + (total bs + 12) ≤ a) : m' a = m a :=
  h a fun q hq => by
    have := cuts_bounds hq
    omega

end OnlyHeaders

namespace Heap

variable {h h' h'' k : Heap} {bs bs' bs'' xs ys rest : List Block} {b : Block}
  {o s s₁ s₂ t size n : ℕ} {u w : Bool}

/-! ## The invariant -/

/-- **The heap holds the blocks `bs`**: the headers lay them out from `heap_ptr` to `heap_end`, and
the static variables are what they say. -/
structure Tiled (h : Heap) (bs : List Block) : Prop where
  headers : HeadersFrom h.mem h.heapPtr 0 0 bs
  room : ∀ b ∈ bs, 16 ≤ b.size ∧ b.size % 4 = 0
  sum : total bs = h.memSizeAligned + 12
  heapEnd : h.heapEnd = h.heapPtr + (h.memSizeAligned + 12)
  endUsed : used h.mem h.heapEnd = 1
  lfree : h.lfree = h.heapPtr + firstFree bs
  usedMem : h.usedMem = usedTotal bs
  maxMem : h.usedMem ≤ h.maxMem
  aligned : h.heapPtr % 4 = 0
  enough : 12 ≤ h.memSizeAligned
  small : h.memSizeAligned < 2 ^ 31
  bound : h.heapPtr + h.memSizeAligned + 24 ≤ 2 ^ 32

namespace Tiled

theorem header (ht : h.Tiled (xs ++ b :: ys)) :
    Header h.mem (h.heapPtr + total xs) b.used (total xs + b.size) (lastBegin 0 0 xs) := by
  have hall := headersFrom_append.mp ht.headers
  rw [Nat.zero_add] at hall
  exact hall.2.1

theorem room_of_mem (ht : h.Tiled (xs ++ b :: ys)) : 16 ≤ b.size ∧ b.size % 4 = 0 :=
  ht.room b (by simp)

theorem room_left (ht : h.Tiled (xs ++ ys)) : ∀ b ∈ xs, 16 ≤ b.size :=
  fun b hb => (ht.room b (List.mem_append_left _ hb)).1

theorem room_right (ht : h.Tiled (xs ++ ys)) : ∀ b ∈ ys, 16 ≤ b.size :=
  fun b hb => (ht.room b (List.mem_append_right _ hb)).1

theorem sum_eq (ht : h.Tiled (xs ++ b :: ys)) :
    total xs + (b.size + total ys) = h.memSizeAligned + 12 := by
  have := ht.sum
  rwa [total_append, total_cons] at this

/-- Blocks begin at multiples of four. -/
theorem total_mod (ht : h.Tiled (xs ++ ys)) : total xs % 4 = 0 := by
  have hroom : ∀ b ∈ xs, b.size % 4 = 0 := fun b hb => (ht.room b (List.mem_append_left _ hb)).2
  clear ht
  induction xs with
  | nil => rfl
  | cons x xs ih =>
    have hx := hroom x List.mem_cons_self
    have hxs := ih fun b hb => hroom b (List.mem_cons_of_mem _ hb)
    rw [total_cons]
    omega

/-- What a change of the headers has to show: the new layout, used as before. -/
theorem of_sameUse (ht : h.Tiled bs) (hsame : SameUse bs bs') {m : Mem}
    (hheaders : HeadersFrom m h.heapPtr 0 0 bs') (hroom : ∀ b ∈ bs', 16 ≤ b.size ∧ b.size % 4 = 0)
    (hend : used m h.heapEnd = 1) : Tiled { h with mem := m } bs' where
  headers := hheaders
  room := hroom
  sum := hsame.total.symm.trans ht.sum
  heapEnd := ht.heapEnd
  endUsed := hend
  lfree := ht.lfree.trans (congrArg _ hsame.firstFree)
  usedMem := ht.usedMem.trans hsame.usedTotal
  maxMem := ht.maxMem
  aligned := ht.aligned
  enough := ht.enough
  small := ht.small
  bound := ht.bound

end Tiled

/-! ## `plug_holes` -/

/-- What joining free blocks comes to: the memory has another layout, used as before. -/
structure Merged (h h' : Heap) (bs bs' : List Block) : Prop where
  tiled : h'.Tiled bs'
  same : SameUse bs bs'
  cuts : cuts 0 bs' ⊆ cuts 0 bs
  writes : OnlyHeaders (Blocks.cuts 0 bs) h.heapPtr h.mem h'.mem
  frame : h' = { h with mem := h'.mem }

namespace Merged

theorem refl (ht : h.Tiled bs) : Merged h h bs bs :=
  ⟨ht, SameUse.refl bs, fun _ => id, OnlyHeaders.refl _ _ _, rfl⟩

theorem trans {h₁ h₂ h₃ : Heap} (h₁₂ : Merged h₁ h₂ bs bs') (h₂₃ : Merged h₂ h₃ bs' bs'') :
    Merged h₁ h₃ bs bs'' where
  tiled := h₂₃.tiled
  same := h₁₂.same.trans h₂₃.same
  cuts := fun q hq => h₁₂.cuts (h₂₃.cuts hq)
  writes := by
    have hbase : h₂.heapPtr = h₁.heapPtr := by rw [h₁₂.frame]
    have hwrites := h₂₃.writes.mono h₁₂.cuts
    rw [hbase] at hwrites
    exact h₁₂.writes.trans hwrites
  frame := by
    rw [h₂₃.frame, h₁₂.frame]

end Merged

/-- A list of blocks is empty or has room for one. -/
theorem eq_nil_or_room (hroom : ∀ b ∈ bs, 16 ≤ b.size) : bs = [] ∨ 16 ≤ total bs := by
  cases bs with
  | nil => exact .inl rfl
  | cons b bs =>
    have := hroom b List.mem_cons_self
    exact .inr (by rw [total_cons]; omega)

/-- **Joining two free neighbours**, as both halves of `plug_holes` do it: `next` of the one and
`prev` of the block after the other. -/
theorem join (ht : h.Tiled (xs ++ ⟨s, false⟩ :: ⟨t, false⟩ :: ys)) :
    Merged h
      { h with
        mem := putPrev (putNext h.mem (h.heapPtr + total xs) (total xs + s + t))
          (h.heapPtr + (total xs + s + t)) (total xs) }
      (xs ++ ⟨s, false⟩ :: ⟨t, false⟩ :: ys) (xs ++ ⟨s + t, false⟩ :: ys) := by
  have hb := ht.header
  obtain ⟨hxs, -, -, hys⟩ := headersFrom_append.mp ht.headers
  simp only [Nat.zero_add] at hxs hys hb
  have hs := ht.room ⟨s, false⟩ (by simp)
  have htt := ht.room ⟨t, false⟩ (by simp)
  have hroomx := ht.room_left
  have hroomy : ∀ b ∈ ys, 16 ≤ b.size := fun b hb => (ht.room b (by simp [hb])).1
  have hsum := ht.sum_eq
  have hbound := ht.bound
  have hend := ht.heapEnd
  simp only [total_cons] at hsum hs htt
  have hlast : lastBegin 0 0 xs ≤ 0 + total xs := lastBegin_le (Nat.le_refl 0)
  refine ⟨ht.of_sameUse SameUse.join ?_ ?_ ?_, SameUse.join, cuts_join, ?_, rfl⟩
  · refine headersFrom_append.mpr ⟨hxs.congr hroomx fun a _ hlt => ?_, ?_, ?_⟩
    · rw [putPrev_outside (by omega), putNext_outside (by omega)]
    · rw [Nat.zero_add]
      have hnext := hb.next_put (v := total xs + s + t) (by omega)
      refine Header.congr ?_ fun a ha hlt => putPrev_outside (.inl (by omega))
      rwa [Nat.add_assoc (total xs) s t] at hnext ⊢
    · have hys' : HeadersFrom (putNext h.mem (h.heapPtr + total xs) (total xs + s + t)) h.heapPtr
          (total xs + s) (total xs + s + t) ys :=
        hys.congr hroomy fun a ha hlt => putNext_outside (by omega)
      rw [Nat.zero_add]
      show HeadersFrom _ _ _ (total xs + (s + t)) ys
      rw [← Nat.add_assoc (total xs) s t]
      exact hys'.prev_put hroomy (by omega)
  · intro c hc
    rcases List.mem_append.mp hc with hc | hc
    · exact ht.room c (List.mem_append_left _ hc)
    · rcases List.mem_cons.mp hc with rfl | hc
      · constructor
        · show 16 ≤ s + t
          omega
        · show (s + t) % 4 = 0
          omega
      · exact ht.room c (by simp [hc])
  · rw [← ht.endUsed]
    refine (load_store_of_disjoint ?_).trans (load_store_of_disjoint ?_)
    · rcases eq_nil_or_room hroomy with rfl | hroom
      · simp only [total_nil] at hsum
        omega
      · omega
    · omega
  · refine (OnlyHeaders.putNext ?_).trans (OnlyHeaders.putPrev ?_)
    · simp [mem_cuts_append]
    · refine mem_cuts_append.mpr (.inr ?_)
      rw [cuts_cons, cuts_cons, Nat.zero_add]
      exact List.mem_cons_of_mem _ (List.mem_cons_of_mem _ mem_cuts_self)

/-- The header of the block after. -/
theorem Tiled.header_next {c : Block} (ht : h.Tiled (xs ++ b :: c :: ys)) :
    Header h.mem (h.heapPtr + (total xs + b.size)) c.used (total xs + b.size + c.size)
      (total xs) := by
  have ht' : h.Tiled ((xs ++ [b]) ++ c :: ys) := by simpa using ht
  have hc := ht'.header
  rwa [lastBegin_snoc, total_append, total_cons, total_nil, Nat.add_zero, Nat.zero_add] at hc

/-- No free block is before `lfree`. -/
theorem Tiled.lfree_le (ht : h.Tiled (xs ++ ⟨s, false⟩ :: ys)) :
    h.lfree ≤ h.heapPtr + total xs := by
  have := ht.lfree
  have hle := firstFree_release xs ys s
  omega

theorem plugForward_merged (ht : h.Tiled (xs ++ ⟨s, false⟩ :: ys)) (hsep : Separated ys) :
    ∃ s' ys', Merged h (h.plugForward (h.heapPtr + total xs)) (xs ++ ⟨s, false⟩ :: ys)
      (xs ++ ⟨s', false⟩ :: ys') ∧ Separated ys' ∧ ∀ y ∈ ys'.head?, y.used = true := by
  have hnext := ht.header.next
  have hsum := ht.sum_eq
  have hend := ht.heapEnd
  have hs := ht.room_of_mem.1
  dsimp only at hnext hsum hs
  have hkeep (hstop : used h.mem (h.heapPtr + (total xs + s)) = 0 →
      h.heapPtr + (total xs + s) = h.heapEnd) : h.plugForward (h.heapPtr + total xs) = h := by
    unfold plugForward
    rw [hnext]
    exact if_neg fun ⟨_, hfree, hne⟩ => hne (hstop hfree)
  cases ys with
  | nil =>
    rw [hkeep fun _ => by rw [total_nil] at hsum; omega]
    exact ⟨s, [], Merged.refl ht, hsep, by simp⟩
  | cons c ys =>
    have hc := ht.header_next
    dsimp only at hc
    rcases c with ⟨t, _ | _⟩
    · -- the block after is free
      have hjoin : h.plugForward (h.heapPtr + total xs) =
          { h with
            mem := putPrev (putNext h.mem (h.heapPtr + total xs) (total xs + s + t))
              (h.heapPtr + (total xs + s + t)) (total xs) } := by
        have htt := ht.room ⟨t, false⟩ (by simp)
        have hlfree := ht.lfree_le
        dsimp only [total_cons] at hsum htt
        have hc' : Header (putNext h.mem (h.heapPtr + total xs) (total xs + s + t))
            (h.heapPtr + (total xs + s)) false (total xs + s + t) (total xs) :=
          hc.congr fun a ha _ => putNext_outside (.inr (by omega))
        unfold plugForward
        rw [hnext, if_pos ⟨by omega, hc.used, by omega⟩, hc.next]
        dsimp only
        rw [hc'.next, if_neg (by omega), Nat.add_sub_cancel_left]
      rw [hjoin]
      refine ⟨s + t, ys, join ht, (separated_cons.mp hsep).2, fun y hy => ?_⟩
      exact ((separated_cons.mp hsep).1 y hy).resolve_left (by simp)
    · rw [hkeep fun hfree => absurd (hfree.symm.trans hc.used) Nat.zero_ne_one]
      exact ⟨s, _, Merged.refl ht, hsep, by simp⟩

theorem plugBackward_merged (ht : h.Tiled (xs ++ ⟨s, false⟩ :: ys)) (hsep : Separated xs) :
    ∃ xs' s', Merged h (h.plugBackward (h.heapPtr + total xs)) (xs ++ ⟨s, false⟩ :: ys)
      (xs' ++ ⟨s', false⟩ :: ys) ∧ Separated xs' ∧ ∀ x ∈ xs'.getLast?, x.used = true := by
  have hprev := ht.header.prev
  rcases List.eq_nil_or_concat xs with rfl | ⟨zs, c, rfl⟩
  · have hkeep : h.plugBackward (h.heapPtr + total []) = h := by
      unfold plugBackward
      rw [hprev]
      exact if_neg fun hne => hne.1 rfl
    rw [hkeep]
    exact ⟨[], s, Merged.refl ht, hsep, by simp⟩
  · rw [List.concat_eq_append] at ht hprev hsep ⊢
    rw [lastBegin_snoc, Nat.zero_add] at hprev
    have ht' : h.Tiled (zs ++ c :: ⟨s, false⟩ :: ys) := by simpa using ht
    have hc := ht'.header
    have hb := ht'.header_next
    have hroom := ht'.room_of_mem.1
    have hmem : h.heapPtr + total (zs ++ [c]) = h.heapPtr + (total zs + c.size) := by simp
    rcases c with ⟨t, _ | _⟩
    · -- the block before is free
      have hjoin : h.plugBackward (h.heapPtr + total (zs ++ [⟨t, false⟩])) =
          { h with
            mem := putPrev (putNext h.mem (h.heapPtr + total zs) (total zs + t + s))
              (h.heapPtr + (total zs + t + s)) (total zs) } := by
        have hlfree := ht'.lfree_le
        dsimp only at hmem hb hroom
        have hb' : Header (putNext h.mem (h.heapPtr + total zs) (total zs + t + s))
            (h.heapPtr + (total zs + t)) false (total zs + t + s) (total zs) :=
          hb.congr fun a ha _ => putNext_outside (.inr (by omega))
        unfold plugBackward
        rw [hprev, hmem, if_pos ⟨by omega, hc.used⟩, hb.next]
        dsimp only
        rw [hb'.next, if_neg (by omega), Nat.add_sub_cancel_left]
      rw [hjoin, List.append_assoc]
      obtain ⟨hzs, -, hlast, -⟩ := separated_free_iff.mp hsep
      exact ⟨zs, t + s, join ht', hzs, hlast⟩
    · have hkeep : h.plugBackward (h.heapPtr + total (zs ++ [⟨t, true⟩])) = h := by
        unfold plugBackward
        rw [hprev]
        exact if_neg fun hne => absurd (hne.2.symm.trans hc.used) Nat.zero_ne_one
      rw [hkeep]
      exact ⟨_, s, Merged.refl ht, hsep, by simp⟩

/-- **`plug_holes` joins a free block with its free neighbours**, and then no two free blocks are
neighbours. -/
theorem plugHoles_merged (ht : h.Tiled (xs ++ ⟨s, false⟩ :: ys)) (hx : Separated xs)
    (hy : Separated ys) : ∃ h' bs', h.plugHoles (h.heapPtr + total xs) = some h' ∧
      Merged h h' (xs ++ ⟨s, false⟩ :: ys) bs' ∧ Separated bs' := by
  have hsum := ht.sum_eq
  have hend := ht.heapEnd
  have hs := ht.room_of_mem.1
  obtain ⟨s', ys', hforward, hy', hhead⟩ := plugForward_merged ht hy
  obtain ⟨xs', s'', hbackward, hx', hlast⟩ := plugBackward_merged hforward.tiled hx
  have hptr : (h.plugForward (h.heapPtr + total xs)).heapPtr = h.heapPtr := by
    rw [hforward.frame]
  rw [hptr] at hbackward
  refine ⟨_, _, if_pos ⟨by omega, by dsimp only at hsum hs; omega, ht.header.used⟩,
    hforward.trans hbackward, separated_free_iff.mpr ⟨hx', hy', hlast, hhead⟩⟩

end Heap

/-! ## One block at a time -/

/-- A block in a list of blocks may be rewritten, header and all. -/
theorem HeadersFrom.replace {m m' : Mem} {base prev o : ℕ} {xs ys : List Block} {b : Block}
    {u : Bool} (h : HeadersFrom m base prev o (xs ++ b :: ys))
    (hsize : ∀ c ∈ xs ++ b :: ys, 16 ≤ c.size)
    (hb : Header m' (base + (o + total xs)) u (o + total xs + b.size) (lastBegin prev o xs))
    (hm : ∀ a, a < base + (o + total xs) ∨ base + (o + total xs + b.size) ≤ a → m' a = m a) :
    HeadersFrom m' base prev o (xs ++ ⟨b.size, u⟩ :: ys) := by
  obtain ⟨hxs, -, hys⟩ := headersFrom_append.mp h
  refine headersFrom_append.mpr ⟨?_, hb, ?_⟩
  · exact hxs.congr (fun c hc => hsize c (by simp [hc])) fun a _ hlt => hm a (.inl hlt)
  · exact hys.congr (fun c hc => hsize c (by simp [hc])) fun a ha _ => hm a (.inr ha)

theorem sub32_of_le {a b : ℕ} (hle : b ≤ a) (ha : a < 2 ^ 32) : sub32 a b = a - b := by
  unfold sub32
  omega

namespace Heap

variable {h h' h'' k : Heap} {bs bs' bs'' xs ys rest : List Block} {b : Block}
  {o s s₁ s₂ t size n : ℕ} {u w : Bool}

/-- The invariant: the heap holds the blocks `bs`, and no two free ones are neighbours. -/
structure Valid (h : Heap) (bs : List Block) : Prop extends Tiled h bs where
  separated : Separated bs

/-- What a call comes to: a valid heap in the same place, the bytes of the blocks that are used
afterwards being those of before, and so are the bytes outside the heap. -/
structure Becomes (h h' : Heap) (bs' : List Block) : Prop where
  valid : h'.Valid bs'
  base : h'.heapPtr = h.heapPtr
  size : h'.memSizeAligned = h.memSizeAligned
  kept : ∀ o s, (o, s) ∈ usedFrom 0 bs' → ∀ a, h.heapPtr + o + 12 ≤ a → a < h.heapPtr + o + s →
    h'.mem a = h.mem a
  outside : ∀ a, a < h.heapPtr ∨ h.heapPtr + (h.memSizeAligned + 24) ≤ a → h'.mem a = h.mem a

theorem Valid.room_used (hv : h.Valid bs) (hmem : (o, s) ∈ usedFrom 0 bs) : 16 ≤ s := by
  obtain ⟨xs, ys, rfl, rfl⟩ := exists_of_mem_usedFrom hmem
  exact hv.room_of_mem.1

/-- Writing into a used block keeps the heap valid. -/
theorem Valid.write (hv : h.Valid bs) (hmem : (o, s) ∈ usedFrom 0 bs) {m : Mem}
    (hm : ∀ a, a < h.heapPtr + o + 12 ∨ h.heapPtr + o + s ≤ a → m a = h.mem a) :
    Valid { h with mem := m } bs := by
  obtain ⟨xs, ys, rfl, rfl⟩ := exists_of_mem_usedFrom hmem
  have hroom := hv.room_of_mem.1
  have hsum := hv.sum_eq
  have hend := hv.heapEnd
  dsimp only at hroom hsum
  rw [Nat.zero_add] at hm
  refine ⟨hv.of_sameUse (SameUse.refl _) ?_ hv.room ?_, hv.separated⟩
  · refine hv.headers.replace (fun c hc => (hv.room c hc).1) ?_ fun a ha => hm a ?_
    · have := hv.header
      rw [Nat.zero_add]
      exact this.congr fun a _ hlt => hm a (.inl (by omega))
    · dsimp only at ha
      omega
  · rw [← hv.endUsed]
    exact load_congr fun a ha _ => hm a (.inr (by omega))

/-- A used block marked free, as `rt_free` does before it plugs holes. -/
theorem Tiled.release (ht : h.Tiled (xs ++ ⟨s, true⟩ :: ys)) :
    Tiled { h with
        mem := putMagic (putUsed h.mem (h.heapPtr + total xs) 0) (h.heapPtr + total xs) heapMagic
        lfree := if h.heapPtr + total xs < h.lfree then h.heapPtr + total xs else h.lfree
        usedMem := sub32 h.usedMem s }
      (xs ++ ⟨s, false⟩ :: ys) := by
  have hroom := ht.room_of_mem.1
  have hsum := ht.sum_eq
  have hbound := ht.bound
  have hused := ht.usedMem
  have hend := ht.heapEnd
  have hle := usedTotal_le (xs ++ ⟨s, true⟩ :: ys)
  rw [ht.sum] at hle
  rw [usedTotal_append, usedTotal_cons_used] at hused hle
  dsimp only at hroom hsum
  have hsub : sub32 h.usedMem s = h.usedMem - s := sub32_of_le (by omega) (by omega)
  have hb := ht.header
  rw [← Nat.zero_add (total xs)] at hb
  have houtside : ∀ a, a < h.heapPtr + total xs ∨ h.heapPtr + total xs + 12 ≤ a →
      putMagic (putUsed h.mem (h.heapPtr + total xs) 0) (h.heapPtr + total xs) heapMagic a =
        h.mem a := fun a ha => (putMagic_outside ha).trans (putUsed_outside ha)
  constructor
  · refine ht.headers.replace (fun c hc => (ht.room c hc).1) ?_ fun a ha => houtside a ?_
    · have := (hb.used_put false).magic_put
      rwa [Nat.zero_add] at this ⊢
    · dsimp only at ha
      omega
  · intro c hc
    rcases List.mem_append.mp hc with hc | hc
    · exact ht.room c (List.mem_append_left _ hc)
    · rcases List.mem_cons.mp hc with rfl | hc
      · exact ht.room_of_mem
      · exact ht.room c (by simp [hc])
  · rw [← ht.sum]
    simp
  · exact ht.heapEnd
  · rw [← ht.endUsed]
    exact load_congr fun a ha _ => houtside a (.inr (by dsimp only at ha; omega))
  · have hlfree := ht.lfree
    dsimp only
    rw [firstFree_release]
    split <;> omega
  · dsimp only
    rw [hsub, hused, usedTotal_append, usedTotal_cons_free]
    omega
  · have := ht.maxMem
    dsimp only
    omega
  · exact ht.aligned
  · exact ht.enough
  · exact ht.small
  · exact ht.bound

/-! ## `rt_free` -/

/-- **`rt_free` of a used block** frees that block and no other one, and changes nothing in the
others. -/
theorem rtFree_becomes (hv : h.Valid bs) (hmem : (o, s) ∈ usedFrom 0 bs) :
    ∃ h' bs', h.rtFree (h.heapPtr + o + 12) = some h' ∧ Becomes h h' bs' ∧
      ∀ p, p ∈ usedFrom 0 bs' ↔ p ∈ usedFrom 0 bs ∧ p.1 ≠ o := by
  obtain ⟨xs, ys, rfl, rfl⟩ := exists_of_mem_usedFrom hmem
  rw [Nat.zero_add]
  have hb := hv.header
  have hroom := hv.room_of_mem.1
  have hsum := hv.sum_eq
  have hend := hv.heapEnd
  have halign := hv.aligned
  have hmod := hv.total_mod
  have hbound := hv.bound
  dsimp only at hb hroom hsum
  obtain ⟨hsepx, hsepy⟩ := separated_used_iff.mp hv.separated
  have hrel := hv.release
  obtain ⟨h', bs', hplug, hmerged, hsep'⟩ := plugHoles_merged hrel hsepx hsepy
  have hbase : h'.heapPtr = h.heapPtr := by rw [hmerged.frame]
  have hsize : h'.memSizeAligned = h.memSizeAligned := by rw [hmerged.frame]
  have hwrites : OnlyHeaders (cuts 0 (xs ++ ⟨s, true⟩ :: ys)) h.heapPtr h.mem h'.mem := by
    have hq : total xs ∈ cuts 0 (xs ++ ⟨s, true⟩ :: ys) := by simp [mem_cuts_append]
    refine ((OnlyHeaders.putUsed hq).trans (OnlyHeaders.putMagic hq)).trans
      (hmerged.writes.mono fun q hq => ?_)
    rw [mem_cuts_append, cuts_cons] at hq ⊢
    exact hq
  have hmem' : ∀ p, p ∈ usedFrom 0 bs' ↔
      p ∈ usedFrom 0 (xs ++ ⟨s, true⟩ :: ys) ∧ p.1 ≠ total xs := fun p => by
    rw [← hmerged.same.usedFrom 0]
    have hpos : ∀ b ∈ xs, 0 < b.size := fun b hb => by
      have := hv.room_left b hb
      omega
    have hrelease : p ∈ usedFrom 0 (xs ++ ⟨s, false⟩ :: ys) ↔
        p ∈ usedFrom 0 (xs ++ ⟨s, true⟩ :: ys) ∧ p.1 ≠ 0 + total xs :=
      mem_usedFrom_release (by omega) hpos
    rwa [Nat.zero_add] at hrelease
  refine ⟨h', bs', ?_, ⟨⟨hmerged.tiled, hsep'⟩, hbase, hsize, fun o' s' hmem a ha hlt => ?_,
    fun a ha => hwrites.outside ?_⟩, hmem'⟩
  · have hused : used h.mem (h.heapPtr + total xs) ≠ 0 := by
      rw [hb.used]
      exact Nat.one_ne_zero
    have hnext : next (putMagic (putUsed h.mem (h.heapPtr + total xs) 0) (h.heapPtr + total xs)
        heapMagic) (h.heapPtr + total xs) = total xs + s := (hb.used_put false).magic_put.next
    have hsize : sub32 (total xs + s) (h.heapPtr + total xs - h.heapPtr) = s := by
      rw [sub32_of_le (by omega) (by omega)]
      omega
    unfold rtFree
    rw [if_neg (by omega), if_pos ⟨by omega, by omega, by omega⟩]
    simp only [sizeofStructMem, Nat.add_sub_cancel]
    rw [if_pos ⟨hused, hb.magic⟩, hnext, hsize]
    exact hplug
  · exact hwrites.used_block ((hmem' (o', s')).mp hmem).1 ha hlt
  · rw [hv.sum]
    omega

/-! ## The loops of `rt_malloc` -/

theorem length_le (hroom : ∀ b ∈ bs, 16 ≤ b.size) : 16 * bs.length ≤ total bs := by
  induction bs with
  | nil => exact Nat.le_refl 0
  | cons b bs ih =>
    have hb := hroom b List.mem_cons_self
    have hbs := ih fun c hc => hroom c (List.mem_cons_of_mem _ hc)
    rw [List.length_cons, total_cons]
    omega

theorem run_findFree {fuel prev : ℕ} (hheaders : HeadersFrom h.mem h.heapPtr prev o ys)
    (hroom : ∀ b ∈ ys, 16 ≤ b.size) (hend : h.heapEnd = h.heapPtr + (o + total ys))
    (hfuel : ys.length < fuel) :
    While.run (fun p => used h.mem p ≠ 0 ∧ p ≠ h.heapEnd) (fun p => h.heapPtr + next h.mem p) fuel
      (h.heapPtr + o) = some (h.heapPtr + (o + firstFree ys)) := by
  induction ys generalizing fuel prev o with
  | nil =>
    obtain ⟨fuel, rfl⟩ := Nat.exists_eq_add_of_lt hfuel
    exact if_neg fun hne => hne.2 hend.symm
  | cons b ys ih =>
    obtain ⟨fuel, rfl⟩ := Nat.exists_eq_add_of_lt hfuel
    obtain ⟨hb, hys⟩ := hheaders
    have hsize := hroom b List.mem_cons_self
    rw [total_cons] at hend
    rw [While.run, firstFree]
    cases hused : b.used with
    | false =>
      rw [if_neg fun hne => hne.1 (by rw [hb.used, hused]; rfl)]
      rfl
    | true =>
      rw [if_pos ⟨by rw [hb.used, hused]; exact Nat.one_ne_zero, by omega⟩, hb.next, if_pos rfl]
      rw [ih hys (fun c hc => hroom c (List.mem_cons_of_mem _ hc)) (by omega)
        (by rw [List.length_cons]; omega), Nat.add_assoc]

/-- The loop that looks for the next free block ends, and finds it. -/
theorem findFree_eq {l : ℕ} (ht : Tiled { h with lfree := l } (xs ++ ys))
    (hl : h.lfree = h.heapPtr + total xs) :
    h.findFree = some (h.heapPtr + (total xs + firstFree ys)) := by
  obtain ⟨-, hys⟩ := headersFrom_append.mp ht.headers
  have hsum := ht.sum
  have hend := ht.heapEnd
  have hlength := length_le ht.room_right
  rw [Nat.zero_add] at hys
  rw [total_append] at hsum
  dsimp only at hsum hend
  unfold findFree
  rw [hl]
  exact run_findFree hys ht.room_right (by omega) (by omega)

/-- What the test of `rt_malloc` says of a block. -/
theorem fits_iff (ht : h.Tiled (xs ++ b :: ys)) (size : ℕ) :
    h.Fits size (total xs) ↔ b.used = false ∧ size + 12 ≤ b.size := by
  have hb := ht.header
  have hroom := ht.room_of_mem.1
  have hsum := ht.sum_eq
  have hbound := ht.bound
  unfold Fits
  rw [hb.used, hb.next, sizeofStructMem, sub32_of_le (by omega) (by omega)]
  refine and_congr ?_ (by omega)
  cases b.used <;> simp

/-- **First fit.** The loop of `rt_malloc` ends: at the first block that fits, or past the last
place where one could begin, when none fits before it. -/
theorem run_findFit {fuel : ℕ} (ht : h.Tiled (xs ++ ys)) (hsize : size ≤ h.memSizeAligned)
    (hfuel : ys.length < fuel) : ∃ r,
    While.run (fun ptr => ptr < sub32 h.memSizeAligned size ∧ ¬ h.Fits size ptr)
      (fun ptr => next h.mem (h.heapPtr + ptr)) fuel (total xs) = some r ∧
      ∃ zs ws, ys = zs ++ ws ∧ r = total xs + total zs ∧
        (∀ z ∈ zs, z.used = false → z.size < size + 12) ∧
        (r + size < h.memSizeAligned →
          ∃ t ws', ws = ⟨t, false⟩ :: ws' ∧ size + 12 ≤ t) := by
  have hbound := ht.bound
  have hsub : sub32 h.memSizeAligned size = h.memSizeAligned - size :=
    sub32_of_le hsize (by omega)
  induction ys generalizing fuel xs with
  | nil =>
    obtain ⟨fuel, rfl⟩ := Nat.exists_eq_add_of_lt hfuel
    have hsum := ht.sum
    rw [List.append_nil] at hsum
    refine ⟨total xs, if_neg fun hlt => ?_, [], [], rfl, by simp, by simp, fun hlt => ?_⟩
    · rw [hsub] at hlt
      omega
    · omega
  | cons b ys ih =>
    obtain ⟨fuel, rfl⟩ := Nat.exists_eq_add_of_lt hfuel
    have hroom := ht.room_of_mem.1
    have hfits := fits_iff ht size
    have ht' : h.Tiled ((xs ++ [b]) ++ ys) := by simpa using ht
    by_cases hgo : total xs < sub32 h.memSizeAligned size ∧ ¬ h.Fits size (total xs)
    · -- on to the next block
      have hnext : next h.mem (h.heapPtr + total xs) = total (xs ++ [b]) := by
        rw [ht.header.next]
        simp
      obtain ⟨r, hr, zs, ws, rfl, rfl, hzs, hws⟩ :=
        ih ht' (show ys.length < (b :: ys).length + fuel by rw [List.length_cons]; omega)
      refine ⟨_, (if_pos hgo).trans ?_, b :: zs, ws, rfl, ?_, fun z hz hfree => ?_, hws⟩
      · show While.run _ _ _ (next h.mem (h.heapPtr + total xs)) = _
        rw [hnext]
        exact hr
      · simp [Nat.add_assoc]
      · rcases List.mem_cons.mp hz with rfl | hz
        · have hlt : ¬ size + 12 ≤ z.size := fun hle => hgo.2 (hfits.mpr ⟨hfree, hle⟩)
          omega
        · exact hzs z hz hfree
    · refine ⟨total xs, if_neg hgo, [], b :: ys, rfl, by simp, by simp, fun hlt => ?_⟩
      have hfit : h.Fits size (total xs) := by
        by_contra hno
        exact hgo ⟨by rw [hsub]; omega, hno⟩
      obtain ⟨hfree, hle⟩ := hfits.mp hfit
      exact ⟨b.size, ys, by rw [← hfree], hle⟩

/-! ## Splitting a block -/

/-- The header of the remainder, and that of the block it is split from. -/
theorem makeRemainder_headers (ht : h.Tiled (xs ++ ⟨s₁ + s₂, w⟩ :: ys)) (h₁ : 16 ≤ s₁) :
    Header (h.makeRemainder (total xs) (total xs + s₁)).mem (h.heapPtr + total xs) w
        (total xs + s₁) (lastBegin 0 0 xs) ∧
      Header (h.makeRemainder (total xs) (total xs + s₁)).mem (h.heapPtr + (total xs + s₁)) false
        (total xs + (s₁ + s₂)) (total xs) ∧
      OnlyHeaders [total xs, total xs + s₁] h.heapPtr h.mem
        (h.makeRemainder (total xs) (total xs + s₁)).mem := by
  have hb := ht.header
  have hsum := ht.sum_eq
  have hbound := ht.bound
  dsimp only at hb hsum
  have hb' : Header (putUsed (putMagic h.mem (h.heapPtr + (total xs + s₁)) heapMagic)
      (h.heapPtr + (total xs + s₁)) 0) (h.heapPtr + total xs) w (total xs + (s₁ + s₂))
      (lastBegin 0 0 xs) :=
    hb.congr fun a _ hlt => (putUsed_outside (by omega)).trans (putMagic_outside (by omega))
  have hmem : (h.makeRemainder (total xs) (total xs + s₁)).mem =
      putNext (putPrev (putNext (putUsed (putMagic h.mem (h.heapPtr + (total xs + s₁)) heapMagic)
        (h.heapPtr + (total xs + s₁)) 0) (h.heapPtr + (total xs + s₁)) (total xs + (s₁ + s₂)))
        (h.heapPtr + (total xs + s₁)) (total xs)) (h.heapPtr + total xs) (total xs + s₁) := by
    rw [← hb'.next]
    rfl
  rw [hmem]
  refine ⟨?_, ?_, ?_⟩
  · refine Header.next_put (hb'.congr fun a _ hlt => ?_) (by omega)
    exact (putPrev_outside (by omega)).trans (putNext_outside (by omega))
  · exact Header.congr (Header.of_fields (w := false) (by omega) (by omega))
      fun a ha _ => putNext_outside (by omega)
  · have hq : total xs ∈ [total xs, total xs + s₁] := by simp
    have hq₂ : total xs + s₁ ∈ [total xs, total xs + s₁] := by simp
    exact ((((OnlyHeaders.putMagic hq₂).trans (.putUsed hq₂)).trans (.putNext hq₂)).trans
      (.putPrev hq₂)).trans (.putNext hq)

/-- Linking the remainder writes to the memory only. -/
theorem linkRemainder_frame (h : Heap) (ptr2 : ℕ) :
    h.linkRemainder ptr2 = { h with mem := (h.linkRemainder ptr2).mem } := by
  unfold linkRemainder
  by_cases hc : next h.mem (h.heapPtr + ptr2) ≠ h.memSizeAligned + sizeofStructMem
  · simp only [if_pos hc]
  · simp only [if_neg hc]

/-- **The layout after a split**: the remainder is linked between the block it is split from and the
block after. -/
theorem linkRemainder_headers (ht : h.Tiled (xs ++ ⟨s₁ + s₂, w⟩ :: ys)) (h₁ : 16 ≤ s₁)
    (h₂ : 16 ≤ s₂) (hptr : k.heapPtr = h.heapPtr) (hsize : k.memSizeAligned = h.memSizeAligned)
    (hb : Header k.mem (h.heapPtr + total xs) u (total xs + s₁) (lastBegin 0 0 xs))
    (hrest : Header k.mem (h.heapPtr + (total xs + s₁)) false (total xs + (s₁ + s₂)) (total xs))
    (hwrites : OnlyHeaders [total xs, total xs + s₁] h.heapPtr h.mem k.mem) :
    HeadersFrom (k.linkRemainder (total xs + s₁)).mem h.heapPtr 0 0
        (xs ++ ⟨s₁, u⟩ :: ⟨s₂, false⟩ :: ys) ∧
      OnlyHeaders (cuts 0 (xs ++ ⟨s₁, u⟩ :: ⟨s₂, false⟩ :: ys)) h.heapPtr h.mem
        (k.linkRemainder (total xs + s₁)).mem ∧
      used (k.linkRemainder (total xs + s₁)).mem h.heapEnd = 1 := by
  obtain ⟨hxs, -, hys⟩ := headersFrom_append.mp ht.headers
  rw [Nat.zero_add] at hys
  have hsum := ht.sum_eq
  have hbound := ht.bound
  have hend := ht.heapEnd
  have hroomx := ht.room_left
  have hroomy : ∀ b ∈ ys, 16 ≤ b.size := fun b hb => (ht.room b (by simp [hb])).1
  dsimp only at hsum hys
  have houtside : ∀ a, a < h.heapPtr + total xs ∨ h.heapPtr + (total xs + (s₁ + s₂)) ≤ a →
      k.mem a = h.mem a := fun a ha => hwrites a fun q hq => by
    simp only [List.mem_cons, List.not_mem_nil, or_false] at hq
    omega
  have hxs' : HeadersFrom k.mem h.heapPtr 0 0 xs :=
    hxs.congr hroomx fun a _ hlt => houtside a (.inl (by omega))
  have hys' : HeadersFrom k.mem h.heapPtr (total xs) (total xs + (s₁ + s₂)) ys :=
    hys.congr hroomy fun a ha _ => houtside a (.inr (by omega))
  have hend' : used k.mem h.heapEnd = 1 := by
    rw [← ht.endUsed]
    exact load_congr fun a ha _ => houtside a (.inr (by omega))
  have hcuts : OnlyHeaders (cuts 0 (xs ++ ⟨s₁, u⟩ :: ⟨s₂, false⟩ :: ys)) h.heapPtr h.mem k.mem := by
    refine hwrites.mono fun q hq => ?_
    rw [mem_cuts_append, cuts_cons, cuts_cons, Nat.zero_add]
    simp only [List.mem_cons, List.not_mem_nil, or_false] at hq ⊢
    tauto
  cases ys with
  | nil =>
    have hkeep : k.linkRemainder (total xs + s₁) = k := by
      simp only [linkRemainder, hptr, hrest.next]
      exact if_neg (not_not_intro (by rw [sizeofStructMem, hsize]; simpa using hsum))
    rw [hkeep]
    refine ⟨headersFrom_append.mpr ⟨hxs', ?_⟩, hcuts, hend'⟩
    rw [Nat.zero_add]
    exact ⟨hb, by rw [Nat.add_assoc]; exact hrest, trivial⟩
  | cons c ys =>
    have hc := hroomy c List.mem_cons_self
    rw [total_cons] at hsum
    have hput : (k.linkRemainder (total xs + s₁)).mem =
        putPrev k.mem (h.heapPtr + (total xs + (s₁ + s₂))) (total xs + s₁) := by
      simp only [linkRemainder, hptr, hrest.next]
      rw [if_pos (by rw [sizeofStructMem, hsize]; omega)]
    rw [hput]
    refine ⟨headersFrom_append.mpr ⟨?_, ?_⟩, hcuts.trans (.putPrev ?_), ?_⟩
    · exact hxs'.congr hroomx fun a _ hlt => putPrev_outside (by omega)
    · rw [Nat.zero_add]
      refine ⟨hb.congr fun a _ hlt => putPrev_outside (by omega), ?_, ?_⟩
      · show Header _ (h.heapPtr + (total xs + s₁)) false (total xs + s₁ + s₂) (total xs)
        rw [Nat.add_assoc (total xs)]
        exact hrest.congr fun a _ hlt => putPrev_outside (by omega)
      · show HeadersFrom _ _ (total xs + s₁) (total xs + s₁ + s₂) (c :: ys)
        rw [Nat.add_assoc (total xs)]
        exact hys'.prev_put hroomy (by omega)
    · rw [mem_cuts_append, cuts_cons, cuts_cons, Nat.zero_add, cuts_cons, Nat.add_assoc (total xs)]
      simp
    · refine (load_congr fun a ha _ => putPrev_outside ?_).trans hend'
      omega

/-! ## Taking a block -/

theorem countUsed_spec (hlt : h.usedMem + n < 2 ^ 32) :
    (h.countUsed n).usedMem = h.usedMem + n ∧ (h.countUsed n).usedMem ≤ (h.countUsed n).maxMem := by
  unfold countUsed
  rw [Nat.mod_eq_of_lt hlt]
  refine ⟨rfl, ?_⟩
  dsimp only
  split <;> omega

/-- What taking a free block comes to, before `lfree` moves on: of `bs`, the block at the end of
`xs` is used, the first `s₁` bytes of it. -/
structure Taken (h h' : Heap) (bs xs : List Block) (s₁ : ℕ) (rest : List Block) : Prop where
  tiled : Tiled { h' with lfree := h.heapPtr + firstFree (xs ++ ⟨s₁, true⟩ :: rest) }
    (xs ++ ⟨s₁, true⟩ :: rest)
  separated : Separated (xs ++ ⟨s₁, true⟩ :: rest)
  lfree : h'.lfree = h.heapPtr + firstFree (xs ++ ⟨s₁, false⟩ :: rest)
  used : ∀ p, p ∈ usedFrom 0 (xs ++ ⟨s₁, true⟩ :: rest) ↔ p = (total xs, s₁) ∨ p ∈ usedFrom 0 bs
  apart : ∀ p ∈ usedFrom 0 bs, p.1 + p.2 ≤ total xs ∨ total xs + s₁ ≤ p.1
  writes : OnlyHeaders (cuts 0 (xs ++ ⟨s₁, true⟩ :: rest)) h.heapPtr h.mem h'.mem
  base : h'.heapPtr = h.heapPtr
  size : h'.memSizeAligned = h.memSizeAligned

/-- Both ways of taking a block, once its headers are written. -/
theorem taken_of_headers (ht : h.Tiled bs) (hframe : k = { h with mem := k.mem })
    (hsame : SameUse (xs ++ ⟨s₁, false⟩ :: rest) bs)
    (hheaders : HeadersFrom k.mem h.heapPtr 0 0 (xs ++ ⟨s₁, true⟩ :: rest))
    (hroom : ∀ b ∈ xs ++ ⟨s₁, true⟩ :: rest, 16 ≤ b.size ∧ b.size % 4 = 0)
    (hend : HeapMem.used k.mem h.heapEnd = 1)
    (hwrites : OnlyHeaders (cuts 0 (xs ++ ⟨s₁, true⟩ :: rest)) h.heapPtr h.mem k.mem)
    (hsep : Separated (xs ++ ⟨s₁, true⟩ :: rest)) :
    Taken h { k.countUsed s₁ with mem := putMagic k.mem (k.heapPtr + total xs) heapMagic } bs xs
      s₁ rest := by
  have hptr : k.heapPtr = h.heapPtr := by rw [hframe]
  have htotal := hsame.total.trans ht.sum
  have hused := hsame.usedTotal.trans ht.usedMem.symm
  have hle := usedTotal_le (xs ++ ⟨s₁, true⟩ :: rest)
  have hbound := ht.bound
  have hhend := ht.heapEnd
  have hs := hroom ⟨s₁, true⟩ (by simp)
  simp only [total_append, total_cons] at htotal hle
  rw [usedTotal_append, usedTotal_cons_free] at hused
  rw [usedTotal_append, usedTotal_cons_used] at hle
  dsimp only at hs
  have husedMem : k.usedMem = h.usedMem := by rw [hframe]
  obtain ⟨hcount, hmax⟩ := countUsed_spec (h := k) (n := s₁) (by omega)
  have hb := (headersFrom_append.mp hheaders).2.1
  refine ⟨⟨?_, hroom, ?_, ?_, ?_, ?_, ?_, hmax, ?_, ?_, ?_, ?_⟩, hsep, ?_, fun p => ?_,
    fun p hp => ?_, ?_, ?_, ?_⟩
  · show HeadersFrom _ k.heapPtr 0 0 _
    rw [hptr]
    rw [Nat.zero_add] at hb
    refine hheaders.replace (fun c hc => (hroom c hc).1) ?_ fun a ha => putMagic_outside ?_
    · rw [Nat.zero_add]
      exact hb.magic_put
    · dsimp only at ha
      omega
  · show total _ = k.memSizeAligned + 12
    rw [hframe]
    simp only [total_append, total_cons]
    exact htotal
  · show k.heapEnd = k.heapPtr + (k.memSizeAligned + 12)
    rw [hframe]
    exact hhend
  · show HeapMem.used _ k.heapEnd = 1
    have hend' : k.heapEnd = h.heapEnd := by rw [hframe]
    rw [hend', hptr, ← hend]
    exact load_congr fun a ha _ => putMagic_outside (by omega)
  · show h.heapPtr + _ = k.heapPtr + _
    rw [hframe]
  · show (k.countUsed s₁).usedMem = _
    rw [hcount, husedMem, usedTotal_append, usedTotal_cons_used]
    omega
  · show k.heapPtr % 4 = 0
    rw [hframe]
    exact ht.aligned
  · show 12 ≤ k.memSizeAligned
    rw [hframe]
    exact ht.enough
  · show k.memSizeAligned < 2 ^ 31
    rw [hframe]
    exact ht.small
  · show k.heapPtr + k.memSizeAligned + 24 ≤ 2 ^ 32
    rw [hframe]
    exact hbound
  · show k.lfree = _
    rw [hsame.firstFree, ← ht.lfree, hframe]
  · rw [← hsame.usedFrom 0]
    simp only [usedFrom_append, usedFrom_cons_used, usedFrom_cons_free, List.mem_append,
      List.mem_cons, Nat.zero_add]
    tauto
  · rw [← hsame.usedFrom 0, usedFrom_append, usedFrom_cons_free, Nat.zero_add] at hp
    rcases List.mem_append.mp hp with hp | hp
    · exact .inl (by simpa using (usedFrom_bounds (p := p.1) (s := p.2) hp).2)
    · exact .inr (usedFrom_bounds (p := p.1) (s := p.2) hp).1
  · show OnlyHeaders _ _ _ (putMagic k.mem (k.heapPtr + total xs) heapMagic)
    rw [hptr]
    exact hwrites.trans (.putMagic (by simp [mem_cuts_append]))
  · exact hptr
  · show k.memSizeAligned = _
    rw [hframe]

/-- **A free block with room for `size` bytes is taken**, whole or the beginning of it. -/
theorem takeBlock_taken (ht : h.Tiled (xs ++ ⟨s, false⟩ :: ys))
    (hsep : Separated (xs ++ ⟨s, false⟩ :: ys)) (hs : size + 12 ≤ s) (hsize : 12 ≤ size)
    (hmod : size % 4 = 0) : ∃ s₁ rest, size + 12 ≤ s₁ ∧
      Taken h (h.takeBlock (total xs) size) (xs ++ ⟨s, false⟩ :: ys) xs s₁ rest := by
  have hb := ht.header
  have hroom := ht.room_of_mem
  have hsum := ht.sum_eq
  have hbound := ht.bound
  have hend := ht.heapEnd
  obtain ⟨hsepx, hsepy, -, hhead⟩ := separated_free_iff.mp hsep
  dsimp only at hb hsum hroom
  have hspace : sub32 (total xs + s) (total xs + sizeofStructMem) = s - 12 := by
    rw [sizeofStructMem, sub32_of_le (by omega) (by omega)]
    omega
  by_cases hsplit : size + sizeofStructMem + minSize ≤ s - 12
  · -- the block is split
    rw [sizeofStructMem, minSize] at hsplit
    obtain ⟨s₂, rfl⟩ : ∃ s₂, s = size + 12 + s₂ := ⟨s - (size + 12), by omega⟩
    obtain ⟨hmem, hmem2, hwrites⟩ := makeRemainder_headers ht (by omega)
    obtain ⟨k, hk⟩ : ∃ k : Heap, k =
        { h.makeRemainder (total xs) (total xs + (size + 12)) with
          mem := putUsed (h.makeRemainder (total xs) (total xs + (size + 12))).mem
            (h.heapPtr + total xs) 1 } := ⟨_, rfl⟩
    have hptr : k.heapPtr = h.heapPtr := by rw [hk]; rfl
    have hmemSize : k.memSizeAligned = h.memSizeAligned := by rw [hk]; rfl
    have hwrites' : OnlyHeaders [total xs, total xs + (size + 12)] h.heapPtr h.mem k.mem := by
      rw [hk]
      exact hwrites.trans (.putUsed (by simp))
    obtain ⟨hheaders, hcuts, hend'⟩ :=
      linkRemainder_headers (u := true) ht (by omega) (by omega) hptr
      hmemSize (by rw [hk]; exact hmem.used_put true)
      (by rw [hk]; exact hmem2.congr fun a ha _ => putUsed_outside (by omega)) hwrites'
    have hframe : k.linkRemainder (total xs + (size + 12)) =
        { h with mem := (k.linkRemainder (total xs + (size + 12))).mem } := by
      rw [linkRemainder_frame, hk]
      rfl
    have hmark : h.markBlock (total xs) size =
        (k.linkRemainder (total xs + (size + 12))).countUsed (size + 12) := by
      refine (if_pos (by rw [hb.next, hspace]; exact hsplit)).trans ?_
      rw [hk, show total xs + sizeofStructMem + size = total xs + (size + 12) by
        rw [sizeofStructMem]; omega]
      rfl
    have htaken := taken_of_headers ht hframe SameUse.join hheaders (fun c hc => ?_) hend' hcuts
      (separated_used_iff.mpr ⟨hsepx, separated_cons.mpr ⟨fun y hy => ?_, hsepy⟩⟩)
    · refine ⟨size + 12, ⟨s₂, false⟩ :: ys, Nat.le_refl _, ?_⟩
      unfold takeBlock
      rw [hmark]
      exact htaken
    · rcases List.mem_append.mp hc with hc | hc
      · exact ht.room c (by simp [hc])
      · rcases List.mem_cons.mp hc with rfl | hc
        · exact ⟨by dsimp only; omega, by dsimp only; omega⟩
        · rcases List.mem_cons.mp hc with rfl | hc
          · exact ⟨by dsimp only; omega, by dsimp only; omega⟩
          · exact ht.room c (by simp [hc])
    · exact .inr (hhead y hy)
  · -- the block is taken whole
    have hheaders : HeadersFrom (putUsed h.mem (h.heapPtr + total xs) 1) h.heapPtr 0 0
        (xs ++ ⟨s, true⟩ :: ys) := by
      rw [← Nat.zero_add (total xs)] at hb ⊢
      refine ht.headers.replace (fun c hc => (ht.room c hc).1) (hb.used_put true) fun a ha =>
        putUsed_outside ?_
      dsimp only at ha
      omega
    have hmark : h.markBlock (total xs) size =
        countUsed { h with mem := putUsed h.mem (h.heapPtr + total xs) 1 } s := by
      refine (if_neg (by rw [hb.next, hspace]; exact hsplit)).trans ?_
      have hnext : next (putUsed h.mem (h.heapPtr + total xs) 1) (h.heapPtr + total xs) =
          total xs + s := (hb.used_put true).next
      dsimp only
      rw [hnext, Nat.add_sub_cancel_left, sub32_of_le (by omega) (by omega),
        Nat.add_sub_cancel_left]
    have htaken := taken_of_headers
      (k := { h with mem := putUsed h.mem (h.heapPtr + total xs) 1 }) ht rfl (SameUse.refl _)
      hheaders (fun c hc => ?_) ?_ (.putUsed (by simp [mem_cuts_append]))
      (separated_used_iff.mpr ⟨hsepx, hsepy⟩)
    · refine ⟨s, ys, hs, ?_⟩
      unfold takeBlock
      rw [hmark]
      exact htaken
    · rcases List.mem_append.mp hc with hc | hc
      · exact ht.room c (by simp [hc])
      · rcases List.mem_cons.mp hc with rfl | hc
        · exact hroom
        · exact ht.room c (by simp [hc])
    · rw [← ht.endUsed]
      exact load_congr fun a ha _ => putUsed_outside (by omega)

/-! ## `rt_malloc` -/

/-- The first free block is where it should be, or there is none. -/
theorem Tiled.firstFree_free (ht : h.Tiled bs) :
    h.heapPtr + firstFree bs = h.heapEnd ∨ used h.mem (h.heapPtr + firstFree bs) = 0 := by
  obtain ⟨xs, ys, rfl, -, htotal, hhead⟩ := exists_firstFree bs
  have hsum := ht.sum
  have hend := ht.heapEnd
  rw [← htotal]
  cases ys with
  | nil =>
    left
    rw [List.append_nil] at hsum
    omega
  | cons y ys =>
    right
    rw [ht.header.used, hhead y rfl]
    rfl

/-- `lfree` moves on to the first block that is free now. -/
theorem moveFree_eq (ht : Taken h h' bs xs s₁ rest) :
    h'.moveFree (h.heapPtr + total xs) =
      some { h' with lfree := h.heapPtr + firstFree (xs ++ ⟨s₁, true⟩ :: rest) } := by
  have hpos : ∀ b ∈ xs, 0 < b.size := fun b hb => by
    have := ht.tiled.room_left b hb
    omega
  have htake := firstFree_take hpos rest s₁
  have hlfree := ht.lfree
  unfold moveFree
  by_cases hfirst : firstFree (xs ++ ⟨s₁, false⟩ :: rest) = total xs
  · have hfind := findFree_eq ht.tiled (by rw [hlfree, hfirst, ht.base])
    have hfree := ht.tiled.firstFree_free
    rw [if_pos hfirst] at htake
    rw [firstFree_cons_used, ← Nat.add_assoc (total xs), ← htake] at hfind
    rw [if_pos (by rw [hlfree, hfirst]), hfind, ht.base]
    dsimp only at hfree
    rw [ht.base] at hfree
    exact if_pos hfree
  · rw [if_neg hfirst] at htake
    rw [if_neg (by rw [hlfree]; omega), htake, ← hlfree]

/-- The room a request comes to. -/
def need (n : ℕ) : ℕ := if rtAlign n < minSize then minSize else rtAlign n

/-- **When `rt_malloc` has nothing to give**: nothing is asked for, or more than the heap has, or
there is no free block with room for it, other than one at the end of the heap which it fills. -/
def NoRoom (h : Heap) (bs : List Block) (n : ℕ) : Prop :=
  n = 0 ∨ h.memSizeAligned < rtAlign n ∨ ∀ xs s ys, bs = xs ++ ⟨s, false⟩ :: ys →
    need n + 12 ≤ s → ys = [] ∧ s = need n + 12

theorem need_spec (n : ℕ) : 12 ≤ need n ∧ rtAlign n ≤ need n ∧ need n % 4 = 0 := by
  unfold need rtAlign minSize
  split <;> omega

/-- The place `rt_malloc` looks for: the first free block with room, unless it would fill it up to
the end of the heap. -/
theorem findFit_eq (hv : h.Valid bs) (hn : need n ≤ h.memSizeAligned) :
    ∃ xs ws, bs = xs ++ ws ∧ h.findFit (need n) = some (total xs) ∧
      (∀ z ∈ xs, z.used = false → z.size < need n + 12) ∧
        (total xs + need n < h.memSizeAligned →
          ∃ t ws', ws = ⟨t, false⟩ :: ws' ∧ need n + 12 ≤ t) := by
  obtain ⟨us, ys, rfl, hused, htotal, -⟩ := exists_firstFree bs
  have ht := hv.toTiled
  have hlength := length_le ht.room_right
  have hsum := ht.sum
  rw [total_append] at hsum
  obtain ⟨r, hr, zs, ws, rfl, rfl, hzs, hws⟩ := run_findFit ht hn
    (show ys.length < h.memSizeAligned + 1 by omega)
  refine ⟨us ++ zs, ws, by simp, ?_, fun z hz hfree => ?_, by simpa using hws⟩
  · unfold findFit
    rw [ht.lfree, Nat.add_sub_cancel_left, ← htotal, total_append]
    exact hr
  · rcases List.mem_append.mp hz with hz | hz
    · exact absurd (hused z hz) (by simp [hfree])
    · exact hzs z hz hfree

/-- A free block with room is not before the place found. -/
theorem le_of_fits {zs ws : List Block} (hsplit : xs ++ ws = zs ++ ⟨s, false⟩ :: ys)
    (hno : ∀ z ∈ xs, z.used = false → z.size < n) (hs : n ≤ s) : total xs ≤ total zs := by
  rcases List.append_eq_append_iff.mp hsplit with ⟨cs, rfl, -⟩ | ⟨cs, rfl, hcs⟩
  · rw [total_append]
    exact Nat.le_add_right _ _
  · cases cs with
    | nil => simp
    | cons c cs =>
      rw [List.cons_append] at hcs
      cases (List.cons.inj hcs).1
      have := hno ⟨s, false⟩ (by simp) rfl
      dsimp only at this
      omega

/-- `rt_malloc` after its loop. -/
theorem rtMalloc_eq (hzero : n ≠ 0) (hle : rtAlign n ≤ h.memSizeAligned) {r : ℕ}
    (hfind : h.findFit (need n) = some r) :
    h.rtMalloc n = if r < sub32 h.memSizeAligned (need n) then
      (h.takeBlock r (need n)).moveFree (h.heapPtr + r) >>= fun k =>
        if h.heapPtr + r + sizeofStructMem + need n ≤ k.heapEnd ∧
            (h.heapPtr + r + sizeofStructMem) % 4 = 0 ∧ (h.heapPtr + r) % 4 = 0 then
          some (h.heapPtr + r + sizeofStructMem, k)
        else none
      else some (0, h) := by
  unfold rtMalloc
  rw [if_neg hzero]
  dsimp only
  rw [if_neg (Nat.not_lt.mpr hle), ← need, hfind, Option.bind_eq_bind, Option.bind_some]

/-- Once `lfree` has moved on, the heap is valid. -/
theorem Taken.becomes (ht : Taken h h' bs xs s₁ rest) :
    Becomes h { h' with lfree := h.heapPtr + firstFree (xs ++ ⟨s₁, true⟩ :: rest) }
      (xs ++ ⟨s₁, true⟩ :: rest) where
  valid := ⟨ht.tiled, ht.separated⟩
  base := ht.base
  size := ht.size
  kept o s hmem a ha ha' := ht.writes.used_block hmem ha ha'
  outside a ha := by
    refine ht.writes.outside ?_
    rw [ht.tiled.sum]
    dsimp only
    rw [ht.size]
    omega

/-- The assertions at the end of `rt_malloc` hold. -/
theorem Taken.asserts (ht : Taken h h' bs xs s₁ rest) (l : ℕ) (hn : n + 12 ≤ s₁) :
    h.heapPtr + total xs + sizeofStructMem + n ≤ Heap.heapEnd { h' with lfree := l } ∧
      (h.heapPtr + total xs + sizeofStructMem) % 4 = 0 ∧ (h.heapPtr + total xs) % 4 = 0 := by
  have hsum := ht.tiled.sum_eq
  have hend := ht.tiled.heapEnd
  have halign := ht.tiled.aligned
  have hmod := ht.tiled.total_mod
  have hbase := ht.base
  dsimp only at hsum hend halign ⊢
  unfold sizeofStructMem
  omega

/-- A free block with room that does not fill the heap up to its end is something to give. -/
theorem not_noRoom (ht : h.Tiled (xs ++ ⟨s, false⟩ :: ys)) (hzero : n ≠ 0)
    (hbig : ¬ h.memSizeAligned < rtAlign n) (hs : need n + 12 ≤ s)
    (hlt : total xs + need n < h.memSizeAligned) : ¬ NoRoom h (xs ++ ⟨s, false⟩ :: ys) n := by
  rintro (h0 | hbig' | hroom)
  · exact hzero h0
  · exact hbig hbig'
  · obtain ⟨rfl, rfl⟩ := hroom xs s ys rfl hs
    have hsum := ht.sum_eq
    rw [total_nil] at hsum
    dsimp only at hsum
    omega

/-- **`rt_malloc`** gives nothing and changes nothing when it has no room, and only then; otherwise
it gives the first free block with room, and leaves the others as they are. -/
theorem rtMalloc_cases (hv : h.Valid bs) (n : ℕ) :
    NoRoom h bs n ∧ h.rtMalloc n = some (0, h) ∨
      ¬ NoRoom h bs n ∧ ∃ o s h' bs', h.rtMalloc n = some (h.heapPtr + o + 12, h') ∧
        Becomes h h' bs' ∧ need n + 12 ≤ s ∧
        (∀ p, p ∈ usedFrom 0 bs' ↔ p = (o, s) ∨ p ∈ usedFrom 0 bs) ∧
        (∀ p ∈ usedFrom 0 bs, p.1 + p.2 ≤ o ∨ o + s ≤ p.1) ∧
        (∃ xs t ys, bs = xs ++ ⟨t, false⟩ :: ys ∧ need n + 12 ≤ t ∧ o = total xs) ∧
        ∀ xs t ys, bs = xs ++ ⟨t, false⟩ :: ys → need n + 12 ≤ t → o ≤ total xs := by
  obtain ⟨hmin, halign, hmod⟩ := need_spec n
  have henough := hv.enough
  by_cases hzero : n = 0
  · exact .inl ⟨.inl hzero, if_pos hzero⟩
  by_cases hbig : h.memSizeAligned < rtAlign n
  · exact .inl ⟨.inr (.inl hbig), (if_neg hzero).trans (if_pos hbig)⟩
  have hneed : need n ≤ h.memSizeAligned := by
    unfold need minSize
    split <;> omega
  have hbound := hv.bound
  have hsub : sub32 h.memSizeAligned (need n) = h.memSizeAligned - need n :=
    sub32_of_le hneed (by omega)
  obtain ⟨xs, ws, rfl, hfind, hno, hfit⟩ := findFit_eq hv hneed
  have hmalloc := rtMalloc_eq hzero (Nat.le_of_not_lt hbig) hfind
  by_cases hlt : total xs < sub32 h.memSizeAligned (need n)
  · right
    rw [if_pos hlt] at hmalloc
    rw [hsub] at hlt
    obtain ⟨t, ws', rfl, ht⟩ := hfit (by omega)
    obtain ⟨s, rest, hs, htaken⟩ := takeBlock_taken hv.toTiled hv.separated ht hmin hmod
    refine ⟨not_noRoom hv.toTiled hzero hbig ht (by omega), total xs, s, _, _, ?_, htaken.becomes,
      hs, htaken.used, htaken.apart, ⟨xs, t, ws', rfl, ht, rfl⟩,
      fun zs t' ys hsplit ht' => le_of_fits hsplit hno ht'⟩
    rw [hmalloc, moveFree_eq htaken, Option.bind_eq_bind, Option.bind_some,
      if_pos (htaken.asserts _ hs), sizeofStructMem]
  · left
    refine ⟨.inr (.inr fun zs s ys hsplit hs => ?_), by rw [hmalloc, if_neg hlt]⟩
    have hle := le_of_fits hsplit hno hs
    rw [hsplit] at hv
    have hsum := hv.sum_eq
    have hroomy : ∀ b ∈ ys, 16 ≤ b.size := fun b hb => (hv.room b (by simp [hb])).1
    dsimp only at hsum
    rcases eq_nil_or_room hroomy with rfl | hroom
    · rw [total_nil] at hsum
      exact ⟨rfl, by omega⟩
    · omega

end Heap

end OsesProject
