import OsesProject.Laws.Heap

/-!
# `rt_realloc`, `rt_calloc`, and the first heap

`rt_realloc` has five ways to go (`rtRealloc_cases`): it refuses, it frees, it leaves the block as
it is, it splits it, or it moves to another one. In the last three the bytes that both sizes have
are those of before, and no other used block changes (`Resized`). `rt_calloc` is `rt_malloc` and
zeros (`rtCalloc_given`). `rt_system_heap_init` makes a valid heap of one free block out of any
memory (`rtSystemHeapInit_valid`).
-/

namespace OsesProject

open ByteMemory Blocks HeapMem

namespace Heap

variable {h h' k : Heap} {bs bs' xs ys : List Block} {o s o' s' s₂ a n : ℕ}

/-! ## `rt_system_heap_init` -/

/-- The header of the start of the heap, written field by field in the order of
`rt_system_heap_init`. -/
theorem header_init {m : Mem} {p v : ℕ} (hv : v < 2 ^ 32) :
    Header (putUsed (putPrev (putNext (putMagic m p heapMagic) p v) p 0) p 0) p false v 0 where
  magic := (load_store_of_disjoint (by omega)).trans ((load_store_of_disjoint (by omega)).trans
    ((load_store_of_disjoint (by omega)).trans (load_store (by decide))))
  used := load_store (by decide)
  next := (load_store_of_disjoint (by omega)).trans ((load_store_of_disjoint (by omega)).trans
    (load_store hv))
  prev := (load_store_of_disjoint (by omega)).trans (load_store (by decide))

/-- **The heap starts** as one free block, whatever the memory held. -/
theorem rtSystemHeapInit_valid (m : Mem) {beginAddr endAddr : ℕ}
    (hroom : rtAlign beginAddr + 36 ≤ rtAlignDown endAddr) (hend : endAddr < 2 ^ 32)
    (hsmall : rtAlignDown endAddr < rtAlign beginAddr + 2 ^ 31) :
    ((boot m).rtSystemHeapInit beginAddr endAddr).Valid
        [⟨rtAlignDown endAddr - rtAlign beginAddr - 12, false⟩] ∧
      ((boot m).rtSystemHeapInit beginAddr endAddr).heapPtr = rtAlign beginAddr ∧
      ((boot m).rtSystemHeapInit beginAddr endAddr).memSizeAligned =
        rtAlignDown endAddr - rtAlign beginAddr - 24 := by
  have hbegin4 : rtAlign beginAddr % 4 = 0 := by
    unfold rtAlign
    omega
  have hend4 : rtAlignDown endAddr % 4 = 0 ∧ rtAlignDown endAddr ≤ endAddr := by
    unfold rtAlignDown
    omega
  unfold rtSystemHeapInit sizeofStructMem
  generalize rtAlign beginAddr = base at *
  generalize rtAlignDown endAddr = top at *
  rw [if_pos (by omega)]
  dsimp only
  show Valid ⟨_, _, _, _, _, _, _⟩ _ ∧ _
  have hstart := header_init (m := m) (p := base) (v := top - base - 24 + 12) (by omega)
  dsimp only [boot]
  generalize putUsed (putPrev (putNext (putMagic m base heapMagic) base (top - base - 24 + 12)) base
    0) base 0 = m₁ at hstart ⊢
  rw [hstart.next]
  have hlast := Header.of_fields (m := m₁) (p := base + (top - base - 24 + 12)) (w := true)
    (n := top - base - 24 + 12) (v := top - base - 24 + 12) (by omega) (by omega)
  refine ⟨⟨⟨⟨?_, trivial⟩, ?_, ?_, rfl, hlast.used, rfl, rfl, Nat.le_refl 0, hbegin4, ?_, ?_, ?_⟩,
    List.isChain_singleton _⟩, rfl, rfl⟩
  · dsimp only
    rw [Nat.add_zero, Nat.zero_add, show top - base - 12 = top - base - 24 + 12 by omega]
    refine hstart.congr fun a _ hlt => ?_
    rw [putPrev_outside (by omega), putNext_outside (by omega), putUsed_outside (by omega),
      putMagic_outside (by omega)]
  · intro b hb
    cases List.mem_singleton.mp hb
    dsimp only
    omega
  · dsimp only [total]
    omega
  · dsimp only
    omega
  · dsimp only
    omega
  · dsimp only
    omega

/-- Nothing is written outside the region. -/
theorem rtSystemHeapInit_outside (m : Mem) {beginAddr endAddr x : ℕ}
    (hroom : rtAlign beginAddr + 36 ≤ rtAlignDown endAddr) (hend : endAddr < 2 ^ 32)
    (hx : x < rtAlign beginAddr ∨ rtAlignDown endAddr ≤ x) :
    ((boot m).rtSystemHeapInit beginAddr endAddr).mem x = m x := by
  have hle : rtAlignDown endAddr ≤ endAddr := by
    unfold rtAlignDown
    omega
  unfold rtSystemHeapInit sizeofStructMem
  generalize rtAlign beginAddr = base at *
  generalize rtAlignDown endAddr = top at *
  have hstart := header_init (m := m) (p := base) (v := top - base - 24 + 12) (by omega)
  rw [if_pos (by omega)]
  dsimp only [boot]
  rw [hstart.next, putPrev_outside (by omega), putNext_outside (by omega),
    putUsed_outside (by omega), putMagic_outside (by omega), putUsed_outside (by omega),
    putPrev_outside (by omega), putNext_outside (by omega), putMagic_outside (by omega)]

/-! ## `rt_realloc` -/

/-- What a change of the size of the block `(o, s)` to `a` bytes comes to: there is the block
`(o', s')` in its place, with the bytes that both sizes have, and no other used block changes. -/
structure Resized (h h' : Heap) (bs bs' : List Block) (o s o' s' a : ℕ) : Prop where
  valid : h'.Valid bs'
  base : h'.heapPtr = h.heapPtr
  size : h'.memSizeAligned = h.memSizeAligned
  used : ∀ p, p ∈ usedFrom 0 bs' ↔ p = (o', s') ∨ p ∈ usedFrom 0 bs ∧ p.1 ≠ o
  fresh : o' = o ∨ ∀ p ∈ usedFrom 0 bs, p.1 ≠ o'
  room : a + 12 ≤ s'
  data : ∀ i < min (s - 12) a, h'.mem (h.heapPtr + o' + 12 + i) = h.mem (h.heapPtr + o + 12 + i)
  kept : ∀ p ∈ usedFrom 0 bs, p.1 ≠ o → ∀ x, h.heapPtr + p.1 + 12 ≤ x →
    x < h.heapPtr + p.1 + p.2 → h'.mem x = h.mem x
  outside : ∀ x, x < h.heapPtr ∨ h.heapPtr + (h.memSizeAligned + 24) ≤ x → h'.mem x = h.mem x

theorem makeRemainder_usedMem (h : Heap) (v ptr ptr2 : ℕ) :
    (makeRemainder { h with usedMem := v } ptr ptr2).mem = (h.makeRemainder ptr ptr2).mem := rfl

/-- A used block split in two, the second part free, before holes are plugged. -/
theorem Tiled.shrink (ht : h.Tiled (xs ++ ⟨a + 12 + s₂, true⟩ :: ys)) (ha : 4 ≤ a) (hs₂ : 16 ≤ s₂)
    (hmod : a % 4 = 0) :
    ∃ k : Heap, k = (makeRemainder { h with usedMem := sub32 h.usedMem s₂ } (total xs)
        (total xs + (a + 12))).linkRemainder (total xs + (a + 12)) ∧
      Tiled { k with lfree := if h.heapPtr + (total xs + (a + 12)) < k.lfree then
          h.heapPtr + (total xs + (a + 12)) else k.lfree }
        (xs ++ ⟨a + 12, true⟩ :: ⟨s₂, false⟩ :: ys) ∧
      OnlyHeaders (cuts 0 (xs ++ ⟨a + 12, true⟩ :: ⟨s₂, false⟩ :: ys)) h.heapPtr h.mem k.mem := by
  have hroom := ht.room_of_mem
  have hsum := ht.sum
  have hused := ht.usedMem
  have hle := usedTotal_le (xs ++ ⟨a + 12 + s₂, true⟩ :: ys)
  have hbound := ht.bound
  dsimp only at hroom
  rw [usedTotal_append, usedTotal_cons_used] at hused hle
  simp only [total_append, total_cons] at hsum hle
  have hsub : sub32 h.usedMem s₂ = h.usedMem - s₂ := sub32_of_le (by omega) (by omega)
  obtain ⟨hmem, hmem2, hwrites⟩ := makeRemainder_headers ht (by omega)
  obtain ⟨r, hr⟩ : ∃ r, r = makeRemainder { h with usedMem := sub32 h.usedMem s₂ } (total xs)
    (total xs + (a + 12)) := ⟨_, rfl⟩
  have hrmem : r.mem = (h.makeRemainder (total xs) (total xs + (a + 12))).mem := by
    rw [hr, makeRemainder_usedMem]
  have hrframe : r = { h with usedMem := sub32 h.usedMem s₂, mem := r.mem } := by
    rw [hr]
    rfl
  obtain ⟨hheaders, hcuts, hend⟩ := linkRemainder_headers (u := true) (k := r) ht (by omega) hs₂
    (by rw [hrframe]) (by rw [hrframe]) (by rw [hrmem]; exact hmem) (by rw [hrmem]; exact hmem2)
    (by rw [hrmem]; exact hwrites)
  have hframe : r.linkRemainder (total xs + (a + 12)) = { h with
      usedMem := sub32 h.usedMem s₂
      mem := (r.linkRemainder (total xs + (a + 12))).mem } := by
    rw [linkRemainder_frame, hrframe]
  rw [← hr]
  refine ⟨_, rfl, ?_, hcuts⟩
  generalize r.linkRemainder (total xs + (a + 12)) = k at hheaders hcuts hend hframe
  have hfree : firstFree (xs ++ ⟨a + 12, true⟩ :: ⟨s₂, false⟩ :: ys) =
      min (firstFree (xs ++ ⟨a + 12 + s₂, true⟩ :: ys)) (total xs + (a + 12)) := by
    have hrelease := firstFree_release (xs ++ [⟨a + 12, true⟩]) ys s₂
    have hwhole : firstFree (xs ++ ⟨a + 12, true⟩ :: ⟨s₂, true⟩ :: ys) =
        firstFree (xs ++ ⟨a + 12 + s₂, true⟩ :: ys) :=
      firstFree_append_congr (by simp [Nat.add_assoc])
    simpa [hwhole] using hrelease
  have hlfree := ht.lfree
  rw [hframe]
  refine ⟨hheaders, fun c hc => ?_, ?_, ht.heapEnd, hend, ?_, ?_, ?_, ht.aligned, ht.enough,
    ht.small,
    ht.bound⟩
  · rcases List.mem_append.mp hc with hc | hc
    · exact ht.room c (by simp [hc])
    · rcases List.mem_cons.mp hc with rfl | hc
      · dsimp only
        omega
      · rcases List.mem_cons.mp hc with rfl | hc
        · dsimp only
          omega
        · exact ht.room c (by simp [hc])
  · simp only [total_append, total_cons]
    omega
  · dsimp only
    rw [hfree]
    split <;> omega
  · dsimp only
    rw [hsub, usedTotal_append, usedTotal_cons_used, usedTotal_cons_free]
    omega
  · have := ht.maxMem
    dsimp only
    omega

/-- `rt_realloc` of a used block, after the checks of its arguments. -/
theorem rtRealloc_eq (ht : h.Tiled (xs ++ ⟨s, true⟩ :: ys)) (hle : rtAlign n ≤ h.memSizeAligned)
    (hn : rtAlign n ≠ 0) : h.rtRealloc (h.heapPtr + total xs + 12) n =
      if s - 12 = rtAlign n then some (h.heapPtr + total xs + 12, h)
      else if rtAlign n + 24 < s - 12 then
        let r := (makeRemainder
          { h with usedMem := sub32 h.usedMem (s - 12 - rtAlign n) } (total xs)
          (total xs + (rtAlign n + 12))).linkRemainder (total xs + (rtAlign n + 12))
        (plugHoles { r with lfree := if h.heapPtr + (total xs + (rtAlign n + 12)) < r.lfree then
            h.heapPtr + (total xs + (rtAlign n + 12)) else r.lfree }
          (h.heapPtr + (total xs + (rtAlign n + 12)))).map fun k => (h.heapPtr + total xs + 12, k)
      else
        h.rtMalloc (rtAlign n) >>= fun (nmem, k) =>
          if nmem = 0 then some (nmem, k)
          else (rtFree { k with
            mem := rtMemcpy k.mem nmem (h.heapPtr + total xs + 12) (min (s - 12) (rtAlign n)) }
            (h.heapPtr + total xs + 12)).map fun k => (nmem, k) := by
  have hb := ht.header
  have hroom := ht.room_of_mem.1
  have hsum := ht.sum_eq
  have hend := ht.heapEnd
  have hbound := ht.bound
  dsimp only at hb hroom hsum
  have hmem : h.heapPtr + total xs + 12 - sizeofStructMem = h.heapPtr + total xs :=
    Nat.add_sub_cancel _ _
  have hptr : h.heapPtr + total xs - h.heapPtr = total xs := Nat.add_sub_cancel_left _ _
  have hsize : sub32 (sub32 (total xs + s) (total xs)) sizeofStructMem = s - 12 := by
    have hwhole : sub32 (total xs + s) (total xs) = s := by
      rw [sub32_of_le (by omega) (by omega), Nat.add_sub_cancel_left]
    rw [hwhole, sizeofStructMem, sub32_of_le (by omega) (by omega)]
  have hplace : total xs + sizeofStructMem + rtAlign n = total xs + (rtAlign n + 12) := by
    rw [sizeofStructMem]
    omega
  unfold rtRealloc
  dsimp only
  rw [if_neg (Nat.not_lt.mpr hle), if_neg hn, if_neg (by omega), if_neg (by omega), hmem, hptr,
    hb.next,
    hsize, hplace]
  by_cases heq : s - 12 = rtAlign n
  · rw [if_pos heq, if_pos heq]
  · rw [if_neg heq, if_neg heq]
    by_cases hsplit : rtAlign n + 24 < s - 12
    · rw [if_pos hsplit, if_pos (show rtAlign n + sizeofStructMem + minSize < s - 12 from hsplit),
        sub32_of_le (a := s - 12) (by omega) (by omega)]
    · rw [if_neg hsplit, if_neg (show ¬ rtAlign n + sizeofStructMem + minSize < s - 12 from hsplit)]

theorem rtAlign_mod (n : ℕ) : rtAlign n % 4 = 0 := by
  unfold rtAlign
  omega

theorem rtAlign_of_mod (hmod : a % 4 = 0) (ha : a < 2 ^ 31) : rtAlign a = a := by
  unfold rtAlign
  omega

/-- A block is left as it is. -/
theorem resized_same (hv : h.Valid bs) (hmem : (o, s) ∈ usedFrom 0 bs) (ha : a + 12 ≤ s) :
    Resized h h bs bs o s o s a where
  valid := hv
  base := rfl
  size := rfl
  used p := by
    obtain ⟨xs, ys, rfl, rfl⟩ := exists_of_mem_usedFrom hmem
    have hpos : ∀ b ∈ xs, 0 < b.size := fun b hb => by
      have := hv.room_left b hb
      omega
    have hs := hv.room_of_mem.1
    dsimp only at hs
    have hrelease : p ∈ usedFrom 0 (xs ++ ⟨s, false⟩ :: ys) ↔ _ :=
      mem_usedFrom_release (by omega) hpos
    rw [← hrelease]
    simp only [usedFrom_append, usedFrom_cons_used, usedFrom_cons_free, List.mem_append,
      List.mem_cons]
    tauto
  fresh := .inl rfl
  room := ha
  data _ _ := rfl
  kept _ _ _ _ _ _ := rfl
  outside _ _ := rfl

/-- **The block is split**, and its second part given back. -/
theorem shrink_resized (hv : h.Valid (xs ++ ⟨a + 12 + s₂, true⟩ :: ys)) (ha : 4 ≤ a) (hs₂ : 16 ≤ s₂)
    (hmod : a % 4 = 0) (hk : k = (makeRemainder { h with usedMem := sub32 h.usedMem s₂ } (total xs)
      (total xs + (a + 12))).linkRemainder (total xs + (a + 12))) : ∃ h' bs',
      plugHoles { k with lfree := if h.heapPtr + (total xs + (a + 12)) < k.lfree then
          h.heapPtr + (total xs + (a + 12)) else k.lfree }
        (h.heapPtr + (total xs + (a + 12))) = some h' ∧
      Resized h h' (xs ++ ⟨a + 12 + s₂, true⟩ :: ys) bs' (total xs) (a + 12 + s₂) (total xs)
        (a + 12) a := by
  obtain ⟨r, hr, ht, hwrites⟩ := hv.toTiled.shrink ha hs₂ hmod
  obtain rfl : k = r := hk.trans hr.symm
  obtain ⟨hsepx, hsepy⟩ := separated_used_iff.mp hv.separated
  have hrbase : k.heapPtr = h.heapPtr := by
    rw [hk, linkRemainder_frame]
    rfl
  have hrsize : k.memSizeAligned = h.memSizeAligned := by
    rw [hk, linkRemainder_frame]
    rfl
  generalize (if h.heapPtr + (total xs + (a + 12)) < k.lfree then
    h.heapPtr + (total xs + (a + 12)) else k.lfree) = l at ht ⊢
  have ht' : Tiled { k with lfree := l } ((xs ++ [⟨a + 12, true⟩]) ++ ⟨s₂, false⟩ :: ys) := by
    simpa using ht
  have hsepx' : Separated (xs ++ [⟨a + 12, true⟩]) :=
    separated_used_iff.mpr ⟨hsepx, List.isChain_nil⟩
  obtain ⟨h', bs', hplug, hmerged, hsep⟩ := plugHoles_merged ht' hsepx' hsepy
  have hlist : (xs ++ [⟨a + 12, true⟩]) ++ ⟨s₂, false⟩ :: ys =
      xs ++ ⟨a + 12, true⟩ :: ⟨s₂, false⟩ :: ys := by simp
  have hstart : Heap.heapPtr { k with lfree := l } + total (xs ++ [⟨a + 12, true⟩]) =
      h.heapPtr + (total xs + (a + 12)) := by
    show k.heapPtr + _ = _
    rw [hrbase, total_append, total_cons, total_nil, Nat.add_zero]
  rw [hlist] at hmerged
  rw [hstart] at hplug
  have hbase : h'.heapPtr = h.heapPtr := by
    rw [hmerged.frame]
    exact hrbase
  have hsize : h'.memSizeAligned = h.memSizeAligned := by
    rw [hmerged.frame]
    exact hrsize
  have hall : OnlyHeaders (cuts 0 (xs ++ ⟨a + 12, true⟩ :: ⟨s₂, false⟩ :: ys)) h.heapPtr h.mem
      h'.mem := by
    have hplugged := hmerged.writes
    dsimp only at hplugged
    rw [hrbase] at hplugged
    exact hwrites.trans hplugged
  have hpos : ∀ b ∈ xs, 0 < b.size := fun b hb => by
    have := hv.room_left b hb
    omega
  have hused : ∀ p, p ∈ usedFrom 0 (xs ++ ⟨a + 12, true⟩ :: ⟨s₂, false⟩ :: ys) ↔
      p = (total xs, a + 12) ∨
        p ∈ usedFrom 0 (xs ++ ⟨a + 12 + s₂, true⟩ :: ys) ∧ p.1 ≠ total xs := by
    intro p
    have hrelease : p ∈ usedFrom 0 (xs ++ ⟨a + 12 + s₂, false⟩ :: ys) ↔ _ :=
      mem_usedFrom_release (by omega) hpos
    rw [Nat.zero_add] at hrelease
    rw [← hrelease]
    simp only [usedFrom_append, usedFrom_cons_used, usedFrom_cons_free, List.mem_append,
      List.mem_cons, Nat.zero_add, Nat.add_assoc]
    tauto
  refine ⟨h', bs', hplug, ⟨⟨hmerged.tiled, hsep⟩, hbase, hsize, fun p => ?_, .inl rfl,
    Nat.le_refl _, fun i hi => ?_, fun p hp hne x hx hlt => ?_, fun x hx => hall.outside ?_⟩⟩
  · rw [← hmerged.same.usedFrom 0]
    exact hused p
  · have hmem : (total xs, a + 12) ∈
        usedFrom 0 (xs ++ ⟨a + 12, true⟩ :: ⟨s₂, false⟩ :: ys) := (hused _).mpr (.inl rfl)
    exact hall.used_block hmem (by omega) (by omega)
  · exact hall.used_block ((hused p).mpr (.inr ⟨hp, hne⟩)) hx hlt
  · have hsum := hv.sum_eq
    simp only [total_append, total_cons] at hsum ⊢
    omega

/-- **The block is moved**: another one is taken, its bytes are copied, and it is freed. -/
theorem move_resized (hv : h.Valid bs) (hmem : (o, s) ∈ usedFrom 0 bs) (hmod : a % 4 = 0)
    (hle : a ≤ h.memSizeAligned) :
    NoRoom h bs a ∧ h.rtMalloc a = some (0, h) ∨
      ∃ o' s' k h' bs', h.rtMalloc a = some (h.heapPtr + o' + 12, k) ∧
        rtFree
          { k with
            mem := rtMemcpy k.mem (h.heapPtr + o' + 12) (h.heapPtr + o + 12) (min (s - 12) a) }
          (h.heapPtr + o + 12) = some h' ∧ Resized h h' bs bs' o s o' s' a := by
  have hsmall := hv.small
  rcases rtMalloc_cases hv a with hno | ⟨-, o', s', k, bs₁, hk, hbecomes, hs', hused, hapart, -⟩
  · exact .inl hno
  right
  have halign : rtAlign a ≤ need a := (need_spec a).2.1
  rw [rtAlign_of_mod hmod (by omega)] at halign
  have hs : 16 ≤ s := hv.room_used hmem
  have hfresh : ∀ p ∈ usedFrom 0 bs, p.1 ≠ o' := fun p hp heq => by
    have := hapart p hp
    have := hv.room_used hp
    omega
  have happart := hapart _ hmem
  dsimp only at happart
  have hne : o ≠ o' := by omega
  have hmem₁ : (o', s') ∈ usedFrom 0 bs₁ := (hused _).mpr (.inl rfl)
  have hold₁ : (o, s) ∈ usedFrom 0 bs₁ := (hused _).mpr (.inr hmem)
  have hcopy : rtMemcpy k.mem (h.heapPtr + o' + 12) (h.heapPtr + o + 12) (min (s - 12) a) =
      copy k.mem (h.heapPtr + o' + 12) (h.heapPtr + o + 12) (min (s - 12) a) := by
    rw [rtMemcpy_eq_copyUp]
    exact copyUp_eq_copy (by omega)
  have houtside : ∀ x, x < h.heapPtr + o' + 12 ∨ h.heapPtr + o' + s' ≤ x →
      rtMemcpy k.mem (h.heapPtr + o' + 12) (h.heapPtr + o + 12) (min (s - 12) a) x = k.mem x :=
    fun x hx => by
      rw [hcopy]
      exact copy_of_notMem (by omega)
  have hwritten := hbecomes.valid.write hmem₁ (m := rtMemcpy k.mem (h.heapPtr + o' + 12)
    (h.heapPtr + o + 12) (min (s - 12) a)) (by rw [hbecomes.base]; exact houtside)
  obtain ⟨h', bs', hfree, hfreed, hused'⟩ := rtFree_becomes hwritten hold₁
  have hmid : ∀ p, p ∈ usedFrom 0 bs' ↔ p = (o', s') ∨ p ∈ usedFrom 0 bs ∧ p.1 ≠ o := fun p => by
    rw [hused', hused]
    constructor
    · rintro ⟨rfl | hp, hpo⟩
      · exact .inl rfl
      · exact .inr ⟨hp, hpo⟩
    · rintro (rfl | ⟨hp, hpo⟩)
      · exact ⟨.inl rfl, fun heq => hne heq.symm⟩
      · exact ⟨.inr hp, hpo⟩
  have hbase := hbecomes.base
  have hsize := hbecomes.size
  have hkept := hfreed.kept
  have hfout := hfreed.outside
  dsimp only at hfree hkept hfout
  have hptr : k.heapPtr + o + 12 = h.heapPtr + o + 12 := by rw [hbase]
  rw [hptr] at hfree
  rw [hbase] at hkept hfout
  rw [hsize] at hfout
  refine ⟨o', s', k, h', bs', hk, hfree, ⟨hfreed.valid, hfreed.base.trans hbase,
    hfreed.size.trans hsize, hmid, .inr hfresh, by omega, fun i hi => ?_,
    fun p hp hpo x hx hlt => ?_, fun x hx => ?_⟩⟩
  · rw [hkept o' s' ((hmid _).mpr (.inl rfl)) _ (by omega) (by omega), hcopy,
      copy_of_mem (by omega) (by omega),
      show h.heapPtr + o + 12 + (h.heapPtr + o' + 12 + i - (h.heapPtr + o' + 12)) =
        h.heapPtr + o + 12 + i by omega]
    exact hbecomes.kept o s hold₁ _ (by omega) (by omega)
  · have hp' := hapart p hp
    rw [hkept p.1 p.2 ((hmid p).mpr (.inr ⟨hp, hpo⟩)) x hx hlt, houtside x (by omega)]
    exact hbecomes.kept p.1 p.2 ((hused p).mpr (.inr hp)) x hx hlt
  · have hbounds := usedFrom_bounds hmem₁
    have hsum := hbecomes.valid.sum
    rw [hsum, hsize] at hbounds
    rw [hfout x hx, houtside x (by omega)]
    exact hbecomes.outside x hx

/-- **`rt_realloc` of a used block** refuses and changes nothing, or frees it when nothing is asked
for, or gives a block of the size asked for that has the bytes of the old one. -/
theorem rtRealloc_cases (hv : h.Valid bs) (hmem : (o, s) ∈ usedFrom 0 bs) (n : ℕ) :
    rtAlign n ≠ 0 ∧ h.rtRealloc (h.heapPtr + o + 12) n = some (0, h) ∨
      (rtAlign n = 0 ∧ ∃ h' bs', h.rtRealloc (h.heapPtr + o + 12) n = some (0, h') ∧
        Becomes h h' bs' ∧ ∀ p, p ∈ usedFrom 0 bs' ↔ p ∈ usedFrom 0 bs ∧ p.1 ≠ o) ∨
      rtAlign n ≠ 0 ∧ ∃ o' s' h' bs',
        h.rtRealloc (h.heapPtr + o + 12) n = some (h.heapPtr + o' + 12, h') ∧
        Resized h h' bs bs' o s o' s' (rtAlign n) := by
  have henough := hv.enough
  by_cases hbig : h.memSizeAligned < rtAlign n
  · exact .inl ⟨by omega, if_pos hbig⟩
  by_cases hzero : rtAlign n = 0
  · right
    left
    obtain ⟨h', bs', hfree, hbecomes, hused⟩ := rtFree_becomes hv hmem
    refine ⟨hzero, h', bs', ?_, hbecomes, hused⟩
    unfold rtRealloc
    dsimp only
    rw [if_neg hbig, if_pos hzero, hfree, Option.map_some]
  obtain ⟨xs, ys, rfl, rfl⟩ := exists_of_mem_usedFrom hmem
  have heq := rtRealloc_eq hv.toTiled (Nat.le_of_not_lt hbig) hzero
  have hroom := hv.room_of_mem
  have hmod := rtAlign_mod n
  dsimp only at hroom
  rw [Nat.zero_add] at hmem ⊢
  by_cases hsame : s - 12 = rtAlign n
  · rw [if_pos hsame] at heq
    exact .inr (.inr ⟨hzero, total xs, s, h, _, heq, resized_same hv hmem (by omega)⟩)
  rw [if_neg hsame] at heq
  by_cases hsplit : rtAlign n + 24 < s - 12
  · obtain ⟨s₂, rfl⟩ : ∃ s₂, s = rtAlign n + 12 + s₂ := ⟨s - (rtAlign n + 12), by omega⟩
    obtain ⟨h', bs', hplug, hresized⟩ := shrink_resized hv (by omega) (by omega) hmod rfl
    rw [if_pos hsplit, show rtAlign n + 12 + s₂ - 12 - rtAlign n = s₂ by omega] at heq
    dsimp only at heq
    rw [hplug, Option.map_some] at heq
    exact .inr (.inr ⟨hzero, total xs, _, h', bs', heq, hresized⟩)
  · rw [if_neg hsplit] at heq
    rcases move_resized hv hmem hmod (Nat.le_of_not_lt hbig) with
      ⟨-, hno⟩ | ⟨o', s', k, h', bs', hk, hfree, hresized⟩
    · rw [hno] at heq
      exact .inl ⟨hzero, heq⟩
    · rw [hk, Option.bind_eq_bind, Option.bind_some] at heq
      dsimp only at heq
      rw [if_neg (by omega), hfree, Option.map_some] at heq
      exact .inr (.inr ⟨hzero, o', s', h', bs', heq, hresized⟩)

/-! ## `rt_malloc` and `rt_calloc` -/

/-- What a new block comes to: it has room for what was asked for, and the used blocks are where
they were, with the bytes they had. -/
structure Given (h h' : Heap) (bs bs' : List Block) (o s n : ℕ) : Prop where
  valid : h'.Valid bs'
  base : h'.heapPtr = h.heapPtr
  size : h'.memSizeAligned = h.memSizeAligned
  used : ∀ p, p ∈ usedFrom 0 bs' ↔ p = (o, s) ∨ p ∈ usedFrom 0 bs
  apart : ∀ p ∈ usedFrom 0 bs, p.1 + p.2 ≤ o ∨ o + s ≤ p.1
  room : n + 12 ≤ s
  kept : ∀ p ∈ usedFrom 0 bs, ∀ x, h.heapPtr + p.1 + 12 ≤ x → x < h.heapPtr + p.1 + p.2 →
    h'.mem x = h.mem x
  outside : ∀ x, x < h.heapPtr ∨ h.heapPtr + (h.memSizeAligned + 24) ≤ x → h'.mem x = h.mem x

theorem rtMalloc_null_iff (hv : h.Valid bs) : h.rtMalloc n = some (0, h) ↔ NoRoom h bs n := by
  rcases rtMalloc_cases hv n with ⟨hno, hk⟩ | ⟨hroom, o, s, h', bs', hk, -⟩
  · exact iff_of_true hk hno
  · refine iff_of_false (fun hnull => ?_) hroom
    rw [hk] at hnull
    cases hnull

/-- What one free block has room for. -/
theorem noRoom_singleton_iff (hv : h.Valid [⟨h.memSizeAligned + 12, false⟩]) :
    NoRoom h [⟨h.memSizeAligned + 12, false⟩] n ↔ n = 0 ∨ h.memSizeAligned ≤ need n := by
  have henough := hv.enough
  have halign := (need_spec n).2.1
  have hneed : need n = rtAlign n ∨ need n = 12 := by
    unfold need minSize
    split
    · exact .inr rfl
    · exact .inl rfl
  constructor
  · rintro (h0 | hbig | hroom)
    · exact .inl h0
    · exact .inr (by omega)
    · by_contra! hcon
      have := (hroom [] _ [] rfl (by omega)).2
      omega
  · rintro (h0 | hle)
    · exact .inl h0
    · refine .inr (.inr fun xs s ys heq hs => ?_)
      rcases xs with _ | ⟨x, xs⟩
      · cases heq
        exact ⟨rfl, by omega⟩
      · simp at heq

/-- What `rt_malloc` answers on one free block. -/
theorem rtMalloc_singleton (hv : h.Valid [⟨h.memSizeAligned + 12, false⟩]) (n : ℕ) :
    (h.rtMalloc n).map Prod.fst =
      some (if n = 0 ∨ h.memSizeAligned ≤ need n then 0 else h.heapPtr + 12) := by
  rcases rtMalloc_cases hv n with ⟨hno, hk⟩ | ⟨hroom, o, s, h', bs', hk, -, -, -, -, hfree, -⟩
  · rw [hk, if_pos ((noRoom_singleton_iff hv).mp hno)]
    rfl
  · obtain ⟨xs, t, ys, heq, -, rfl⟩ := hfree
    rw [hk, if_neg fun hno => hroom ((noRoom_singleton_iff hv).mpr hno)]
    cases xs with
    | nil => rfl
    | cons x xs => simp at heq

theorem Given.mono {m : ℕ} (hg : Given h h' bs bs' o s n) (hle : m ≤ n) : Given h h' bs bs' o s m :=
  { hg with room := Nat.le_trans (Nat.add_le_add_right hle 12) hg.room }

theorem le_rtAlign (hn : n ≤ 2 ^ 32 - 4) : n ≤ rtAlign n := by
  unfold rtAlign
  omega

/-- `rt_malloc`, when the size asked for can be rounded up in 32 bits. -/
theorem rtMalloc_given (hv : h.Valid bs) (hn : n ≤ 2 ^ 32 - 4) :
    NoRoom h bs n ∧ h.rtMalloc n = some (0, h) ∨ ∃ o s h' bs',
      h.rtMalloc n = some (h.heapPtr + o + 12, h') ∧ Given h h' bs bs' o s n := by
  rcases rtMalloc_cases hv n with hno | ⟨-, o, s, h', bs', hk, hb, hs, hused, hapart, -⟩
  · exact .inl hno
  · right
    have hle := le_rtAlign hn
    have halign := (need_spec n).2.1
    exact ⟨o, s, h', bs', hk, ⟨hb.valid, hb.base, hb.size, hused, hapart, by omega,
      fun p hp x hx hlt => hb.kept p.1 p.2 ((hused p).mpr (.inr hp)) x hx hlt, hb.outside⟩⟩

/-- **`rt_calloc`** gives nothing when `rt_malloc` does; otherwise a block whose bytes, as many as
were asked for, are zero. -/
theorem rtCalloc_given (hv : h.Valid bs) {count size : ℕ} (hn : count * size ≤ 2 ^ 32 - 4) :
    NoRoom h bs (count * size) ∧ h.rtCalloc count size = some (0, h) ∨ ∃ o s h' bs',
      h.rtCalloc count size = some (h.heapPtr + o + 12, h') ∧
        Given h h' bs bs' o s (count * size) ∧
        ∀ i < count * size, h'.mem (h.heapPtr + o + 12 + i) = 0 := by
  have hbytes : count * size % 2 ^ 32 = count * size := Nat.mod_eq_of_lt (by omega)
  unfold rtCalloc
  rw [hbytes]
  dsimp only
  generalize count * size = n at hn ⊢
  rcases rtMalloc_given hv hn with ⟨hno, hk⟩ | ⟨o, s, k, bs', hk, hg⟩
  · exact .inl ⟨hno, by rw [hk]; rfl⟩
  · right
    have hmem : (o, s) ∈ usedFrom 0 bs' := (hg.used _).mpr (.inl rfl)
    have hroom := hg.room
    have hfill : rtMemset k.mem (h.heapPtr + o + 12) 0 n = fill k.mem (h.heapPtr + o + 12) n 0 :=
      rtMemset_eq_fill _ _ _ _
    have houtside : ∀ x, x < h.heapPtr + o + 12 ∨ h.heapPtr + o + s ≤ x →
        fill k.mem (h.heapPtr + o + 12) n 0 x = k.mem x :=
      fun x hx => fill_of_notMem (by omega)
    have hbounds := usedFrom_bounds hmem
    rw [hg.valid.sum, hg.size] at hbounds
    have hvalid := hg.valid.write hmem (m := fill k.mem (h.heapPtr + o + 12) n 0)
      (by rw [hg.base]; exact houtside)
    refine ⟨o, s, { k with mem := fill k.mem (h.heapPtr + o + 12) n 0 }, bs', ?_,
      ⟨hvalid, hg.base, hg.size, hg.used, hg.apart, hroom, fun p hp x hx hlt => ?_,
        fun x hx => ?_⟩, fun i hi => fill_of_mem (by omega) (by omega)⟩
    · rw [hk, Option.map_some, if_neg (by omega), hfill]
    · have hapart := hg.apart p hp
      exact (houtside x (by omega)).trans (hg.kept p hp x hx hlt)
    · exact (houtside x (by omega)).trans (hg.outside x hx)

end Heap

end OsesProject
