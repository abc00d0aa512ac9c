import OsesProject.Laws.Realloc
import OsesProject.Lib.Run
import Mathlib.Logic.Relation

/-!
# The heap and its clients

The threads that use the heap call it with the blocks they have, and write into them. To them it is
a set of arrays that have nothing to do with each other (`Arrays.Step`): a call makes an array, ends
one, or changes the length of one, a write changes one byte of one. This is what every run comes to
(`heap_run_refines`), whatever the order of the calls, when no client uses a block that it does not
have (`Allowed`). The invariant is that the used blocks are those the clients have (`Held`).

Sizes above `2 ^ 32 - 4` are not allowed: `RT_ALIGN` makes them zero, and what is given for them is
the smallest block (`heap_oversize`).
-/

namespace OsesProject

open Machine ByteMemory Blocks Function

/-! ## Arrays -/

/-- What is asked of the heap, and a write into a block. -/
inductive HeapCall
  | malloc (size : ℕ)
  | calloc (count size : ℕ)
  | realloc (rmem newsize : ℕ)
  | free (rmem : ℕ)
  | write (rmem i : ℕ) (c : UInt8)

/-- The arrays at their addresses. -/
abbrev Arrays := ℕ → Option (List UInt8)

/-- **What a call is for**: how it changes the arrays, and the address it gives. -/
inductive Arrays.Step (A : Arrays) : HeapCall → ℕ → Arrays → Prop
  | mallocFails (n : ℕ) : Step A (.malloc n) 0 A
  | malloc {p n : ℕ} {xs : List UInt8} (hp : p ≠ 0) (hfree : A p = none) (hxs : xs.length = n) :
      Step A (.malloc n) p (update A p (some xs))
  | callocFails (k n : ℕ) : Step A (.calloc k n) 0 A
  | calloc {p k n : ℕ} (hp : p ≠ 0) (hfree : A p = none) :
      Step A (.calloc k n) p (update A p (some (List.replicate (k * n) 0)))
  | reallocFails {p n : ℕ} (hn : n ≠ 0) : Step A (.realloc p n) 0 A
  | reallocFrees (p : ℕ) : Step A (.realloc p 0) 0 (update A p none)
  | realloc {p q n : ℕ} {xs : List UInt8} (hn : n ≠ 0) (hq : q ≠ 0) (hfree : q = p ∨ A q = none)
      (hxs : xs.length = n) (hkept : ∀ ys, A p = some ys → xs.take ys.length = ys.take n) :
      Step A (.realloc p n) q (update (update A p none) q (some xs))
  | free (p : ℕ) : Step A (.free p) 0 (update A p none)
  | write {p i : ℕ} {c : UInt8} {xs : List UInt8} (hp : A p = some xs) (hi : i < xs.length) :
      Step A (.write p i c) 0 (update A p (some (xs.set i c)))

/-! ## The clients -/

/-- The heap, and how many bytes the clients asked for of the block at an address, if they have
one there. -/
structure Clients where
  heap : Heap
  asked : ℕ → Option ℕ

namespace Clients

/-- A call, and the address it gives. -/
def call (c : Clients) : HeapCall → Option (ℕ × Clients)
  | .malloc n => (c.heap.rtMalloc n).map fun (p, h) =>
      (p, ⟨h, if p = 0 then c.asked else update c.asked p (some n)⟩)
  | .calloc k n => (c.heap.rtCalloc k n).map fun (p, h) =>
      (p, ⟨h, if p = 0 then c.asked else update c.asked p (some (k * n))⟩)
  | .realloc p n => (c.heap.rtRealloc p n).map fun (q, h) =>
      (q, ⟨h, if n = 0 then update c.asked p none
        else if q = 0 then c.asked else update (update c.asked p none) q (some n)⟩)
  | .free p => (c.heap.rtFree p).map fun h => (0, ⟨h, update c.asked p none⟩)
  | .write p i v => some (0, { c with heap.mem := update c.heap.mem (p + i) v })

/-- What clients may do: sizes that can be rounded up in 32 bits, and their own blocks only, up to
the bytes they asked for. -/
def Allowed (c : Clients) : HeapCall → Prop
  | .malloc n => n ≤ 2 ^ 32 - 4
  | .calloc k n => k * n ≤ 2 ^ 32 - 4
  | .realloc p n => (p = 0 ∨ (c.asked p).isSome) ∧ n ≤ 2 ^ 32 - 4
  | .free p => p = 0 ∨ (c.asked p).isSome
  | .write p i _ => ∃ n, c.asked p = some n ∧ i < n

def step (c : Clients) (e : HeapCall) : Option Clients := (c.call e).map Prod.snd

/-- The heap as it is after `rt_system_heap_init`, when nobody has a block. -/
def start (m : Mem) (beginAddr endAddr : ℕ) : Clients :=
  ⟨(Heap.boot m).rtSystemHeapInit beginAddr endAddr, fun _ => none⟩

/-- The arrays that the clients see. -/
def arrays (c : Clients) : Arrays := fun p => (c.asked p).map fun n => bytes c.heap.mem p n

variable {c c' : Clients} {h' : Heap} {bs bs' : List Block} {o s o' s' n p : ℕ} {e : HeapCall}

theorem arrays_apply (c : Clients) (p : ℕ) :
    c.arrays p = (c.asked p).map fun n => bytes c.heap.mem p n := rfl

/-! ## The invariant -/

/-- **The used blocks are those that the clients have**, and each has room for what was asked. -/
structure Held (c : Clients) (bs : List Block) : Prop where
  valid : c.heap.Valid bs
  block : ∀ p n, c.asked p = some n →
    ∃ o s, (o, s) ∈ usedFrom 0 bs ∧ p = c.heap.heapPtr + o + 12 ∧ n + 12 ≤ s
  owner : ∀ o s, (o, s) ∈ usedFrom 0 bs → (c.asked (c.heap.heapPtr + o + 12)).isSome

/-- Nobody has the block at a null pointer. -/
theorem Held.null (hc : c.Held bs) : c.asked 0 = none := by
  cases hasked : c.asked 0 with
  | none => rfl
  | some n =>
    obtain ⟨o, s, -, heq, -⟩ := hc.block 0 n hasked
    omega

/-- One block in the place of another one, or of none. -/
theorem Held.replace (hc : c.Held bs) (hv : h'.Valid bs') (hbase : h'.heapPtr = c.heap.heapPtr)
    (hused : ∀ p, p ∈ usedFrom 0 bs' ↔ p = (o', s') ∨ p ∈ usedFrom 0 bs ∧ p.1 ≠ o)
    (hs : n + 12 ≤ s') :
    Held ⟨h', update (update c.asked (c.heap.heapPtr + o + 12) none)
      (c.heap.heapPtr + o' + 12) (some n)⟩ bs' := by
  refine ⟨hv, fun p m hp => ?_, fun o₁ s₁ hmem => ?_⟩
  · dsimp only at hp ⊢
    rw [hbase]
    rcases eq_or_ne p (c.heap.heapPtr + o' + 12) with rfl | hne
    · rw [update_self] at hp
      cases hp
      exact ⟨o', s', (hused _).mpr (.inl rfl), rfl, hs⟩
    · rw [update_of_ne hne] at hp
      rcases eq_or_ne p (c.heap.heapPtr + o + 12) with rfl | hgone
      · rw [update_self] at hp
        cases hp
      · rw [update_of_ne hgone] at hp
        obtain ⟨o₁, s₁, hmem, rfl, hs₁⟩ := hc.block p m hp
        exact ⟨o₁, s₁, (hused _).mpr (.inr ⟨hmem, fun heq => hgone (by rw [← heq])⟩), rfl, hs₁⟩
  · dsimp only
    rw [hbase]
    rcases (hused _).mp hmem with heq | ⟨hmem', hne⟩
    · cases heq
      rw [update_self]
      rfl
    · dsimp only at hne
      rcases eq_or_ne o₁ o' with rfl | hne'
      · rw [update_self]
        rfl
      · rw [update_of_ne (by omega), update_of_ne (by omega)]
        exact hc.owner o₁ s₁ hmem'

/-- A block less. -/
theorem Held.release (hc : c.Held bs) (hv : h'.Valid bs') (hbase : h'.heapPtr = c.heap.heapPtr)
    (hused : ∀ p, p ∈ usedFrom 0 bs' ↔ p ∈ usedFrom 0 bs ∧ p.1 ≠ o) :
    Held ⟨h', update c.asked (c.heap.heapPtr + o + 12) none⟩ bs' := by
  refine ⟨hv, fun p m hp => ?_, fun o₁ s₁ hmem => ?_⟩
  · dsimp only at hp ⊢
    rw [hbase]
    rcases eq_or_ne p (c.heap.heapPtr + o + 12) with rfl | hgone
    · rw [update_self] at hp
      cases hp
    · rw [update_of_ne hgone] at hp
      obtain ⟨o₁, s₁, hmem, rfl, hs₁⟩ := hc.block p m hp
      exact ⟨o₁, s₁, (hused _).mpr ⟨hmem, fun heq => hgone (by rw [← heq])⟩, rfl, hs₁⟩
  · obtain ⟨hmem', hne⟩ := (hused _).mp hmem
    dsimp only at hne ⊢
    rw [hbase, update_of_ne (by omega)]
    exact hc.owner o₁ s₁ hmem'

/-- The arrays of blocks whose bytes have not changed. -/
theorem Held.arrays_kept {m : Mem} (hc : c.Held bs)
    (hkept : ∀ p ∈ usedFrom 0 bs, p.1 ≠ o → ∀ x, c.heap.heapPtr + p.1 + 12 ≤ x →
      x < c.heap.heapPtr + p.1 + p.2 → m x = c.heap.mem x)
    (hp : p ≠ c.heap.heapPtr + o + 12) :
    (c.asked p).map (fun n => bytes m p n) = c.arrays p := by
  unfold arrays
  cases hasked : c.asked p with
  | none => rfl
  | some n =>
    obtain ⟨o₁, s₁, hmem, rfl, hs₁⟩ := hc.block p n hasked
    refine congrArg some (bytes_congr fun i hi => ?_)
    exact hkept _ hmem (fun heq => hp (by rw [← heq])) _ (by omega) (by dsimp only; omega)

theorem Held.arrays_replace (hc : c.Held bs) (o o' n : ℕ)
    (hkept : ∀ p ∈ usedFrom 0 bs, p.1 ≠ o → ∀ x, c.heap.heapPtr + p.1 + 12 ≤ x →
      x < c.heap.heapPtr + p.1 + p.2 → h'.mem x = c.heap.mem x) :
    arrays ⟨h', update (update c.asked (c.heap.heapPtr + o + 12) none)
        (c.heap.heapPtr + o' + 12) (some n)⟩ =
      update (update c.arrays (c.heap.heapPtr + o + 12) none) (c.heap.heapPtr + o' + 12)
        (some (bytes h'.mem (c.heap.heapPtr + o' + 12) n)) := by
  funext p
  rw [arrays_apply]
  dsimp only
  rcases eq_or_ne p (c.heap.heapPtr + o' + 12) with rfl | hne
  · rw [update_self, update_self]
    rfl
  · rw [update_of_ne hne, update_of_ne hne]
    rcases eq_or_ne p (c.heap.heapPtr + o + 12) with rfl | hgone
    · rw [update_self, update_self]
      rfl
    · rw [update_of_ne hgone, update_of_ne hgone]
      exact hc.arrays_kept hkept hgone

theorem Held.arrays_release (hc : c.Held bs)
    (hkept : ∀ p ∈ usedFrom 0 bs, p.1 ≠ o → ∀ x, c.heap.heapPtr + p.1 + 12 ≤ x →
      x < c.heap.heapPtr + p.1 + p.2 → h'.mem x = c.heap.mem x) :
    arrays ⟨h', update c.asked (c.heap.heapPtr + o + 12) none⟩ =
      update c.arrays (c.heap.heapPtr + o + 12) none := by
  funext p
  rw [arrays_apply]
  dsimp only
  rcases eq_or_ne p (c.heap.heapPtr + o + 12) with rfl | hgone
  · rw [update_self, update_self]
    rfl
  · rw [update_of_ne hgone, update_of_ne hgone]
    exact hc.arrays_kept hkept hgone

/-! ## The calls -/

/-- What a call comes to: what it is for, with the invariant kept and nothing changed outside the
heap. -/
structure Answered (c c' : Clients) (e : HeapCall) (p : ℕ) : Prop where
  held : ∃ bs, c'.Held bs
  arrays : c.arrays.Step e p c'.arrays
  base : c'.heap.heapPtr = c.heap.heapPtr
  size : c'.heap.memSizeAligned = c.heap.memSizeAligned
  outside : ∀ x, x < c.heap.heapPtr ∨ c.heap.heapPtr + (c.heap.memSizeAligned + 24) ≤ x →
    c'.heap.mem x = c.heap.mem x

/-- A call that changes nothing. -/
theorem Held.refused (hc : c.Held bs) (he : c.arrays.Step e p c.arrays) : c.Answered c e p :=
  ⟨⟨bs, hc⟩, he, rfl, rfl, fun _ _ => rfl⟩

/-- Nobody has an array where no used block is. -/
theorem Held.arrays_fresh (hc : c.Held bs) (hfresh : ∀ p ∈ usedFrom 0 bs, p.1 ≠ o) :
    c.arrays (c.heap.heapPtr + o + 12) = none := by
  rw [arrays_apply]
  cases hasked : c.asked (c.heap.heapPtr + o + 12) with
  | none => rfl
  | some m =>
    obtain ⟨o₁, s₁, hmem, heq, -⟩ := hc.block _ m hasked
    exact absurd (show o₁ = o by omega) (hfresh _ hmem)

/-- A new block is nobody's, and becomes an array. -/
theorem Held.given (hc : c.Held bs) (hg : c.heap.Given h' bs bs' o s n) :
    c.arrays (c.heap.heapPtr + o + 12) = none ∧
      Held ⟨h', update c.asked (c.heap.heapPtr + o + 12) (some n)⟩ bs' ∧
      arrays ⟨h', update c.asked (c.heap.heapPtr + o + 12) (some n)⟩ =
        update c.arrays (c.heap.heapPtr + o + 12)
          (some (bytes h'.mem (c.heap.heapPtr + o + 12) n)) := by
  have hroom := hg.room
  have hfresh : ∀ p ∈ usedFrom 0 bs, p.1 ≠ o := fun p hp heq => by
    have := hg.apart p hp
    have := hc.valid.room_used hp
    omega
  have hused : ∀ p, p ∈ usedFrom 0 bs' ↔ p = (o, s) ∨ p ∈ usedFrom 0 bs ∧ p.1 ≠ o := fun p => by
    rw [hg.used]
    exact or_congr_right ⟨fun hp => ⟨hp, hfresh p hp⟩, And.left⟩
  have hheld := hc.replace hg.valid hg.base hused hroom
  have harrays := hc.arrays_replace o o n fun p hp _ => hg.kept p hp
  rw [update_idem] at hheld harrays
  rw [update_idem] at harrays
  exact ⟨hc.arrays_fresh hfresh, hheld, harrays⟩

theorem Held.malloc (hc : c.Held bs) (he : c.Allowed (.malloc n)) :
    ∃ p c', c.call (.malloc n) = some (p, c') ∧ c.Answered c' (.malloc n) p := by
  rcases Heap.rtMalloc_given hc.valid he with ⟨-, hk⟩ | ⟨o, s, h', bs', hk, hg⟩
  · refine ⟨0, c, ?_, hc.refused (.mallocFails n)⟩
    rw [call, hk]
    rfl
  · obtain ⟨hfree, hheld, harrays⟩ := hc.given hg
    refine ⟨c.heap.heapPtr + o + 12, ⟨h', update c.asked (c.heap.heapPtr + o + 12) (some n)⟩, ?_,
      ⟨⟨bs', hheld⟩, ?_, hg.base, hg.size, hg.outside⟩⟩
    · rw [call, hk, Option.map_some]
      dsimp only
      rw [if_neg (by omega)]
    · rw [harrays]
      exact .malloc (by omega) hfree length_bytes

theorem Held.calloc {k : ℕ} (hc : c.Held bs) (he : c.Allowed (.calloc k n)) :
    ∃ p c', c.call (.calloc k n) = some (p, c') ∧ c.Answered c' (.calloc k n) p := by
  rcases Heap.rtCalloc_given hc.valid he with ⟨-, hk⟩ | ⟨o, s, h', bs', hk, hg, hzero⟩
  · refine ⟨0, c, ?_, hc.refused (.callocFails k n)⟩
    rw [call, hk]
    rfl
  · obtain ⟨hfree, hheld, harrays⟩ := hc.given hg
    refine ⟨c.heap.heapPtr + o + 12,
      ⟨h', update c.asked (c.heap.heapPtr + o + 12) (some (k * n))⟩, ?_,
      ⟨⟨bs', hheld⟩, ?_, hg.base, hg.size, hg.outside⟩⟩
    · rw [call, hk, Option.map_some]
      dsimp only
      rw [if_neg (by omega)]
    · rw [harrays, bytes_eq_replicate hzero]
      exact .calloc (by omega) hfree

theorem rtFree_null (h : Heap) : h.rtFree 0 = some h := if_pos rfl

/-- Without a block there is nothing to take away. -/
theorem Held.update_null (hc : c.Held bs) : update c.asked 0 none = c.asked := by
  rw [← hc.null, update_eq_self]

theorem Held.update_arrays_null (hc : c.Held bs) : update c.arrays 0 none = c.arrays := by
  have hnone : c.arrays 0 = none := by rw [arrays_apply, hc.null]; rfl
  rw [← hnone, update_eq_self]

/-- A block is freed, in `rt_free` or in `rt_realloc`. -/
theorem Held.freed (hc : c.Held bs) (hp : p = 0 ∨ (c.asked p).isSome)
    (he : c.arrays.Step e 0 (update c.arrays p none)) :
    ∃ h', c.heap.rtFree p = some h' ∧ c.Answered ⟨h', update c.asked p none⟩ e 0 := by
  rcases hp with rfl | hp
  · rw [hc.update_null]
    rw [hc.update_arrays_null] at he
    exact ⟨c.heap, rtFree_null _, hc.refused he⟩
  · obtain ⟨n, hasked⟩ := Option.isSome_iff_exists.mp hp
    obtain ⟨o, s, hmem, rfl, -⟩ := hc.block p n hasked
    obtain ⟨h', bs', hfree, hb, hused⟩ := Heap.rtFree_becomes hc.valid hmem
    refine ⟨h', hfree, ⟨bs', hc.release hb.valid hb.base hused⟩, ?_, hb.base, hb.size, hb.outside⟩
    rw [hc.arrays_release fun p hp hne x hx hlt =>
      hb.kept p.1 p.2 ((hused p).mpr ⟨hp, hne⟩) x hx hlt]
    exact he

theorem Held.free (hc : c.Held bs) (he : c.Allowed (.free p)) :
    ∃ q c', c.call (.free p) = some (q, c') ∧ c.Answered c' (.free p) q := by
  obtain ⟨h', hfree, hanswered⟩ := hc.freed he (.free p)
  exact ⟨0, _, by rw [call, hfree]; rfl, hanswered⟩

/-- `rt_realloc` of a null pointer is `rt_malloc`, of the size rounded up. -/
theorem rtRealloc_null {h : Heap} (hle : ¬ h.memSizeAligned < rtAlign n) (hzero : rtAlign n ≠ 0) :
    h.rtRealloc 0 n = h.rtMalloc (rtAlign n) := by
  unfold Heap.rtRealloc
  dsimp only
  rw [if_neg hle, if_neg hzero, if_pos rfl]

theorem rtAlign_le (n : ℕ) : rtAlign n ≤ 2 ^ 32 - 4 := by
  unfold rtAlign
  omega

theorem rtAlign_eq_zero_iff (hn : n ≤ 2 ^ 32 - 4) : rtAlign n = 0 ↔ n = 0 := by
  have := Heap.le_rtAlign hn
  constructor
  · omega
  · rintro rfl
    rfl

/-- The bytes that both sizes have. -/
theorem Held.resized_bytes (hr : c.heap.Resized h' bs bs' o s o' s' (rtAlign n))
    (hn : n ≤ rtAlign n) (hc : c.Held bs) (hmem : (o, s) ∈ usedFrom 0 bs) (ys : List UInt8)
    (hys : c.arrays (c.heap.heapPtr + o + 12) = some ys) :
    (bytes h'.mem (c.heap.heapPtr + o' + 12) n).take ys.length = ys.take n := by
  rw [arrays_apply, Option.map_eq_some_iff] at hys
  obtain ⟨m, hm, rfl⟩ := hys
  obtain ⟨o₁, s₁, hmem₁, heq, hs₁⟩ := hc.block _ m hm
  obtain rfl : o = o₁ := by omega
  have hsize : s = s₁ := by
    by_contra hne
    have := usedFrom_disjoint hmem hmem₁ fun heq => hne (congrArg Prod.snd heq)
    have := hc.valid.room_used hmem
    have := hc.valid.room_used hmem₁
    dsimp only at *
    omega
  rw [length_bytes, take_bytes, take_bytes, Nat.min_comm]
  exact bytes_congr fun i hi => hr.data i (by omega)

theorem Held.realloc (hc : c.Held bs) (he : c.Allowed (.realloc p n)) :
    ∃ q c', c.call (.realloc p n) = some (q, c') ∧ c.Answered c' (.realloc p n) q := by
  obtain ⟨hp, hn⟩ := he
  have hle := Heap.le_rtAlign hn
  by_cases hzero : n = 0
  · subst hzero
    obtain ⟨h', hfree, hanswered⟩ := hc.freed hp (.reallocFrees p)
    have hrealloc : c.heap.rtRealloc p 0 = some (0, h') := by
      unfold Heap.rtRealloc
      dsimp only
      rw [if_neg (show ¬ c.heap.memSizeAligned < rtAlign 0 from Nat.not_lt_zero _),
        if_pos (show rtAlign 0 = 0 from rfl), hfree, Option.map_some]
    exact ⟨0, _, by rw [call, hrealloc]; rfl, hanswered⟩
  have halign : rtAlign n ≠ 0 := fun heq => hzero ((rtAlign_eq_zero_iff hn).mp heq)
  have hrefused (hno : c.heap.rtRealloc p n = some (0, c.heap)) :
      ∃ q c', c.call (.realloc p n) = some (q, c') ∧ c.Answered c' (.realloc p n) q := by
    refine ⟨0, c, ?_, hc.refused (.reallocFails hzero)⟩
    rw [call, hno, Option.map_some]
    dsimp only
    rw [if_neg hzero, if_pos rfl]
  rcases hp with rfl | hp
  · by_cases hbig : c.heap.memSizeAligned < rtAlign n
    · exact hrefused (by rw [Heap.rtRealloc]; dsimp only; rw [if_pos hbig])
    have hnull := rtRealloc_null hbig halign
    rcases Heap.rtMalloc_given hc.valid (rtAlign_le n) with ⟨-, hk⟩ | ⟨o, s, h', bs', hk, hg⟩
    · exact hrefused (hnull.trans hk)
    · obtain ⟨hfree, hheld, harrays⟩ := hc.given (hg.mono hle)
      refine ⟨c.heap.heapPtr + o + 12, ⟨h', update c.asked (c.heap.heapPtr + o + 12) (some n)⟩, ?_,
        ⟨⟨bs', hheld⟩, ?_, hg.base, hg.size, hg.outside⟩⟩
      · rw [call, hnull, hk, Option.map_some]
        dsimp only
        rw [if_neg hzero, if_neg (by omega), hc.update_null]
      · have hnone : c.arrays 0 = none := by rw [arrays_apply, hc.null]; rfl
        rw [harrays]
        nth_rewrite 2 [← hc.update_arrays_null]
        exact .realloc hzero (by omega) (.inr hfree) length_bytes fun ys hys => by
          rw [hnone] at hys
          cases hys
  · obtain ⟨m, hasked⟩ := Option.isSome_iff_exists.mp hp
    obtain ⟨o, s, hmem, rfl, hs⟩ := hc.block p m hasked
    rcases Heap.rtRealloc_cases hc.valid hmem n with
      ⟨-, hno⟩ | ⟨hz, -⟩ | ⟨-, o', s', h', bs', hk, hr⟩
    · exact hrefused hno
    · exact absurd hz halign
    · have hroom := hr.room
      have hheld := hc.replace hr.valid hr.base hr.used (show n + 12 ≤ s' by omega)
      have harrays := hc.arrays_replace o o' n hr.kept
      refine ⟨c.heap.heapPtr + o' + 12, _, ?_, ⟨⟨bs', hheld⟩, ?_, hr.base, hr.size, hr.outside⟩⟩
      · rw [call, hk, Option.map_some]
        dsimp only
        rw [if_neg hzero, if_neg (by omega)]
      · rw [harrays]
        refine .realloc hzero (by omega) ?_ length_bytes (hc.resized_bytes hr hle hmem)
        rcases hr.fresh with rfl | hfresh
        · exact .inl rfl
        · exact .inr (hc.arrays_fresh hfresh)

/-- A write into a block of one's own. -/
theorem Held.write {i : ℕ} {v : UInt8} (hc : c.Held bs) (he : c.Allowed (.write p i v)) :
    ∃ q c', c.call (.write p i v) = some (q, c') ∧ c.Answered c' (.write p i v) q := by
  obtain ⟨n, hasked, hi⟩ := he
  obtain ⟨o, s, hmem, rfl, hs⟩ := hc.block p n hasked
  have hbounds := usedFrom_bounds hmem
  rw [hc.valid.sum] at hbounds
  have hother : ∀ x, x < c.heap.heapPtr + o + 12 ∨ c.heap.heapPtr + o + s ≤ x →
      update c.heap.mem (c.heap.heapPtr + o + 12 + i) v x = c.heap.mem x :=
    fun x hx => update_of_ne (by omega) _ _
  refine ⟨0, _, rfl, ⟨bs, hc.valid.write hmem hother, hc.block, hc.owner⟩, ?_, rfl, rfl,
    fun x hx => hother x (by omega)⟩
  have hold : c.arrays (c.heap.heapPtr + o + 12) =
      some (bytes c.heap.mem (c.heap.heapPtr + o + 12) n) := by
    rw [arrays_apply, hasked]
    rfl
  have harrays : arrays { c with
        heap.mem := update c.heap.mem (c.heap.heapPtr + o + 12 + i) v } =
      update c.arrays (c.heap.heapPtr + o + 12)
        (some ((bytes c.heap.mem (c.heap.heapPtr + o + 12) n).set i v)) := by
    funext q
    rw [arrays_apply]
    dsimp only
    rcases eq_or_ne q (c.heap.heapPtr + o + 12) with rfl | hne
    · rw [update_self, hasked, ← bytes_update]
      rfl
    · rw [update_of_ne hne]
      refine hc.arrays_kept (fun p hp hpo x hx hlt => hother x ?_) hne
      have := usedFrom_disjoint hmem hp fun heq => hpo (congrArg Prod.fst heq).symm
      dsimp only at this
      omega
  rw [harrays]
  exact .write hold (by rwa [length_bytes])

/-- **Every call that is allowed returns**, and does what it is for. -/
theorem Held.call_answered (hc : c.Held bs) (he : c.Allowed e) :
    ∃ p c', c.call e = some (p, c') ∧ c.Answered c' e p := by
  cases e with
  | malloc n => exact hc.malloc he
  | calloc k n => exact hc.calloc he
  | realloc p n => exact hc.realloc he
  | free p => exact hc.free he
  | write p i v => exact hc.write he

theorem Held.answered {q : ℕ} (hc : c.Held bs) (he : c.Allowed e) (h : c.call e = some (q, c')) :
    c.Answered c' e q := by
  obtain ⟨p, c'', hcall, hanswered⟩ := hc.call_answered he
  rw [hcall] at h
  cases h
  exact hanswered

/-! ## Runs -/

section

variable {m : Mem} {beginAddr endAddr : ℕ}

/-- A region with room for a block, in 32 bits, and less than `2 ^ 31` bytes long. -/
structure Region (beginAddr endAddr : ℕ) : Prop where
  room : rtAlign beginAddr + 36 ≤ rtAlignDown endAddr
  fits : endAddr < 2 ^ 32
  small : rtAlignDown endAddr < rtAlign beginAddr + 2 ^ 31

/-- What every state of a run satisfies. -/
structure Sane (m : Mem) (beginAddr endAddr : ℕ) (c : Clients) : Prop where
  held : ∃ bs, c.Held bs
  base : c.heap.heapPtr = rtAlign beginAddr
  size : c.heap.memSizeAligned = rtAlignDown endAddr - rtAlign beginAddr - 24
  outside : ∀ x, x < rtAlign beginAddr ∨ rtAlignDown endAddr ≤ x → c.heap.mem x = m x

theorem start_sane (hr : Region beginAddr endAddr) :
    Sane m beginAddr endAddr (start m beginAddr endAddr) := by
  obtain ⟨hvalid, hbase, hsize⟩ := Heap.rtSystemHeapInit_valid m hr.room hr.fits hr.small
  refine ⟨⟨_, hvalid, fun p n hp => ?_, fun o s hmem => ?_⟩, hbase, hsize,
    fun x hx => Heap.rtSystemHeapInit_outside m hr.room hr.fits hx⟩
  · cases hp
  · cases hmem

theorem Sane.step (hr : Region beginAddr endAddr) (hs : Sane m beginAddr endAddr c)
    (he : c.Allowed e) (h : c.step e = some c') : Sane m beginAddr endAddr c' := by
  obtain ⟨bs, hc⟩ := hs.held
  obtain ⟨⟨p, d⟩, hcall, rfl⟩ := Option.map_eq_some_iff.mp h
  have ha := hc.answered he hcall
  have hroom := hr.room
  refine ⟨ha.held, ha.base.trans hs.base, ha.size.trans hs.size, fun x hx => ?_⟩
  refine (ha.outside x ?_).trans (hs.outside x hx)
  rw [hs.base, hs.size]
  omega

theorem sane_of_reach (hr : Region beginAddr endAddr)
    (h : Reach step Allowed (start m beginAddr endAddr) c) : Sane m beginAddr endAddr c :=
  h.invariant _ (start_sane hr) fun _ _ _ hs he hstep => hs.step hr he hstep

/-- A block that a client has lies in the region, where a word may begin. -/
theorem Sane.block_bounds (hr : Region beginAddr endAddr) (hs : Sane m beginAddr endAddr c)
    (hp : c.asked p = some n) :
    p % 4 = 0 ∧ rtAlign beginAddr + 12 ≤ p ∧ p + n + 12 ≤ rtAlignDown endAddr := by
  obtain ⟨bs, hc⟩ := hs.held
  obtain ⟨o, s, hmem, rfl, hroom⟩ := hc.block p n hp
  have hbounds := usedFrom_bounds hmem
  have hbase := hs.base
  have hsize := hs.size
  have haligned := hc.valid.aligned
  have := hr.room
  rw [hc.valid.sum] at hbounds
  obtain ⟨xs, ys, rfl, rfl⟩ := exists_of_mem_usedFrom hmem
  have := hc.valid.total_mod
  omega

/-- Two blocks that clients have do not overlap. -/
theorem Held.apart {q k : ℕ} (hc : c.Held bs) (hp : c.asked p = some n) (hq : c.asked q = some k)
    (hne : p ≠ q) : p + n ≤ q ∨ q + k ≤ p := by
  obtain ⟨o, s, hmem, rfl, hs⟩ := hc.block p n hp
  obtain ⟨o', s', hmem', rfl, hs'⟩ := hc.block q k hq
  have := usedFrom_disjoint hmem hmem' fun heq => hne (by
    cases heq
    rfl)
  dsimp only at this
  omega

/-- **In every run of the heap** the calls that are allowed return, the blocks that the clients have
lie in the region, do not overlap, and nothing outside it is written. -/
theorem heap_run_valid (hr : Region beginAddr endAddr)
    (h : Reach step Allowed (start m beginAddr endAddr) c) :
    (∃ bs, c.Held bs) ∧
      (∀ e, c.Allowed e → (c.call e).isSome) ∧
      (∀ p n, c.asked p = some n →
        p % 4 = 0 ∧ rtAlign beginAddr + 12 ≤ p ∧ p + n + 12 ≤ rtAlignDown endAddr) ∧
      (∀ p q n k, c.asked p = some n → c.asked q = some k → p ≠ q → p + n ≤ q ∨ q + k ≤ p) ∧
      ∀ x, x < rtAlign beginAddr ∨ rtAlignDown endAddr ≤ x → c.heap.mem x = m x := by
  have hs := sane_of_reach hr h
  obtain ⟨bs, hc⟩ := hs.held
  refine ⟨⟨bs, hc⟩, fun e he => ?_, fun p n hp => hs.block_bounds hr hp,
    fun p q n k hp hq hne => hc.apart hp hq hne, hs.outside⟩
  obtain ⟨p, c', hcall, -⟩ := hc.call_answered he
  rw [hcall]
  rfl

theorem asked_malloc (h : c.call (.malloc n) = some (p, c')) (hp : p ≠ 0) :
    c'.asked = update c.asked p (some n) := by
  rw [call] at h
  obtain ⟨⟨q, k⟩, -, heq⟩ := Option.map_eq_some_iff.mp h
  cases heq
  exact if_neg hp

theorem asked_free (h : c.call (.free p) = some (n, c')) : c'.asked = update c.asked p none := by
  rw [call] at h
  obtain ⟨k, -, heq⟩ := Option.map_eq_some_iff.mp h
  cases heq
  rfl

theorem reach_of_call {q : ℕ} (h : Reach step Allowed (start m beginAddr endAddr) c)
    (he : c.Allowed e) (hcall : c.call e = some (q, c')) :
    Reach step Allowed (start m beginAddr endAddr) c' :=
  h.tail he (Option.map_eq_some_iff.mpr ⟨_, hcall, rfl⟩)

/-- 256 bytes of a board's memory. -/
theorem region_board : Region 0x20000000 0x20000100 := ⟨by decide, by decide, by decide⟩

/-- The heap on them. -/
def board : Clients := start (fun _ => 0xFF) 0x20000000 0x20000100

/-- Two blocks, the first of which is freed: a hole before a used block. -/
theorem calls_board : ∃ c₁ c₂ c₃, board.call (.malloc 16) = some (0x2000000C, c₁) ∧
    c₁.call (.malloc 16) = some (0x20000028, c₂) ∧ c₂.call (.free 0x2000000C) = some (0, c₃) := by
  have hanswers : ((board.call (.malloc 16)).bind fun r => (r.2.call (.malloc 16)).bind fun r' =>
      (r'.2.call (.free 0x2000000C)).map fun r'' => (r.1, r'.1, r''.1)) =
        some (0x2000000C, 0x20000028, 0) := by decide +kernel
  obtain ⟨⟨p₁, c₁⟩, h₁, hrest⟩ := Option.bind_eq_some_iff.mp hanswers
  obtain ⟨⟨p₂, c₂⟩, h₂, hrest⟩ := Option.bind_eq_some_iff.mp hrest
  obtain ⟨⟨p₃, c₃⟩, h₃, heq⟩ := Option.map_eq_some_iff.mp hrest
  cases heq
  exact ⟨c₁, c₂, c₃, h₁, h₂, h₃⟩

/-- The state with the hole, and what the clients have in it. -/
theorem hole_board : ∃ c, Reach step Allowed board c ∧
    c.asked = update (update (update (fun _ => none) 0x2000000C (some 16)) 0x20000028 (some 16))
      0x2000000C none ∧
    (c.heap.rtMalloc 16).map Prod.fst = some 0x2000000C := by
  have hagain : ((board.call (.malloc 16)).bind fun r => (r.2.call (.malloc 16)).bind fun r' =>
      (r'.2.call (.free 0x2000000C)).bind fun r'' => (r''.2.heap.rtMalloc 16).map Prod.fst) =
        some 0x2000000C := by decide +kernel
  obtain ⟨c₁, c₂, c₃, h₁, h₂, h₃⟩ := calls_board
  have hasked₁ := asked_malloc h₁ (by decide)
  have hasked₂ := asked_malloc h₂ (by decide)
  have hasked₃ := asked_free h₃
  rw [hasked₂, hasked₁] at hasked₃
  have hsize (c : Clients) : c.Allowed (.malloc 16) := by
    show 16 ≤ 2 ^ 32 - 4
    decide
  have hallowed : c₂.Allowed (.free 0x2000000C) := by
    refine .inr ?_
    rw [hasked₂, update_of_ne (by decide), hasked₁, update_self]
    rfl
  rw [h₁, Option.bind_some, h₂, Option.bind_some, h₃, Option.bind_some] at hagain
  have hreach₁ : Reach step Allowed board c₁ := reach_of_call .refl (hsize _) h₁
  have hreach₂ : Reach step Allowed board c₂ := reach_of_call hreach₁ (hsize _) h₂
  exact ⟨c₃, reach_of_call hreach₂ hallowed h₃, hasked₃, hagain⟩

theorem heap_run_valid_board :
    ∃ c, Reach step Allowed board c ∧ c.asked 0x20000028 = some 16 ∧
      (∃ bs, c.Held bs) ∧ (∀ e, c.Allowed e → (c.call e).isSome) ∧
      ∀ x, x < 0x20000000 ∨ 0x20000100 ≤ x → c.heap.mem x = 0xFF := by
  obtain ⟨c, hreach, hasked, -⟩ := hole_board
  obtain ⟨hheld, hreturns, -, -, houtside⟩ := heap_run_valid region_board hreach
  exact ⟨c, hreach, by rw [hasked]; decide, hheld, hreturns, houtside⟩

/-- **Every run of the heap is a run of arrays**, and every call does to the arrays what it is
for. -/
theorem heap_run_refines (hr : Region beginAddr endAddr)
    (h : Reach step Allowed (start m beginAddr endAddr) c) :
    Relation.ReflTransGen (fun A A' => ∃ e p, Arrays.Step A e p A') (fun _ => none) c.arrays ∧
      ∀ e p c', c.Allowed e → c.call e = some (p, c') → c.arrays.Step e p c'.arrays := by
  constructor
  · induction h with
    | refl => exact .refl
    | tail hreach he hstep ih =>
      obtain ⟨bs, hc⟩ := (sane_of_reach hr hreach).held
      obtain ⟨⟨p, d⟩, hcall, rfl⟩ := Option.map_eq_some_iff.mp hstep
      exact ih.tail ⟨_, p, (hc.answered he hcall).arrays⟩
  · intro e p c' he hcall
    obtain ⟨bs, hc⟩ := (sane_of_reach hr h).held
    exact (hc.answered he hcall).arrays

/-- A block in the place of one that was freed. -/
theorem heap_run_refines_board :
    ∃ c c', Reach step Allowed board c ∧ c.call (.malloc 16) = some (0x2000000C, c') ∧
      Relation.ReflTransGen (fun A A' => ∃ e p, Arrays.Step A e p A') (fun _ => none) c.arrays ∧
      Arrays.Step c.arrays (.malloc 16) 0x2000000C c'.arrays := by
  obtain ⟨c, hreach, -, hagain⟩ := hole_board
  obtain ⟨⟨p, h'⟩, hmalloc, rfl⟩ := Option.map_eq_some_iff.mp hagain
  have hcall : c.call (.malloc 16) = some (0x2000000C, _) :=
    (congrArg (Option.map _) hmalloc).trans rfl
  obtain ⟨hruns, hstep⟩ := heap_run_refines region_board hreach
  exact ⟨c, _, hreach, hcall, hruns, hstep _ _ _ (by decide : 16 ≤ 2 ^ 32 - 4) hcall⟩

/-- **When everything is freed** the heap is one free block again: nothing counts as used, and what
can be had is what could be had at the start, with the same answers. -/
theorem heap_all_freed (hr : Region beginAddr endAddr)
    (h : Reach step Allowed (start m beginAddr endAddr) c) (hfree : ∀ p, c.asked p = none) :
    c.heap.usedMem = 0 ∧ c.heap.lfree = rtAlign beginAddr ∧
      (∀ n, (c.heap.rtMalloc n).map Prod.fst =
        ((start m beginAddr endAddr).heap.rtMalloc n).map Prod.fst) ∧
      ∀ n, c.heap.rtMalloc n = some (0, c.heap) ↔
        n = 0 ∨ rtAlignDown endAddr - rtAlign beginAddr - 24 ≤ Heap.need n := by
  have hs := sane_of_reach hr h
  have hone : ∀ {d}, Sane m beginAddr endAddr d → (∀ p, d.asked p = none) →
      d.heap.Valid [⟨d.heap.memSizeAligned + 12, false⟩] := by
    intro d hd hfree
    obtain ⟨bs, hc⟩ := hd.held
    have hnone : usedFrom 0 bs = [] := List.eq_nil_iff_forall_not_mem.mpr fun p hp => by
      have := hc.owner p.1 p.2 hp
      rw [hfree] at this
      cases this
    have hsum := hc.valid.sum
    have hone := eq_singleton_of_separated hc.valid.separated hnone (by omega)
    rw [← hsum, ← hone]
    exact hc.valid
  have hvalid := hone hs hfree
  have hstart : Sane m beginAddr endAddr (start m beginAddr endAddr) := start_sane hr
  refine ⟨hvalid.usedMem, by rw [hvalid.lfree, ← hs.base]; rfl, fun n => ?_, fun n => ?_⟩
  · rw [Heap.rtMalloc_singleton hvalid, Heap.rtMalloc_singleton (hone hstart fun _ => rfl), hs.base,
      hs.size, hstart.base, hstart.size]
  · rw [← hs.size, Heap.rtMalloc_null_iff hvalid]
    exact Heap.noRoom_singleton_iff hvalid

/-- The other block is freed too. -/
theorem heap_all_freed_board :
    ∃ c c', Reach step Allowed board c ∧ c.asked 0x20000028 = some 16 ∧
      c.call (.free 0x20000028) = some (0, c') ∧
      c'.heap.usedMem = 0 ∧ c'.heap.lfree = 0x20000000 ∧
      (c'.heap.rtMalloc 200).map Prod.fst = (board.heap.rtMalloc 200).map Prod.fst := by
  obtain ⟨c, hreach, hasked, -⟩ := hole_board
  have hsome : c.asked 0x20000028 = some 16 := by
    rw [hasked]
    decide
  have hallowed : c.Allowed (.free 0x20000028) := .inr (by rw [hsome]; rfl)
  obtain ⟨bs, hc⟩ := (sane_of_reach region_board hreach).held
  obtain ⟨h', hfree, -⟩ := hc.freed hallowed (.free _)
  have hcall : c.call (.free 0x20000028) = some (0, ⟨h', update c.asked 0x20000028 none⟩) := by
    rw [call, hfree]
    rfl
  have hnone : ∀ p, update c.asked 0x20000028 none p = none := fun p => by
    rw [hasked, update_comm (by decide), update_idem, update_comm (by decide), update_idem]
    simp only [update_apply]
    split <;> simp
  obtain ⟨hused, hlfree, hanswers, -⟩ :=
    heap_all_freed region_board (reach_of_call hreach hallowed hcall) hnone
  exact ⟨c, _, hreach, hsome, hcall, hused, hlfree, hanswers 200⟩

/-- **First fit**: in every run `rt_malloc` gives nothing exactly when it has no room, and otherwise
a free block with room, before which no free block with room begins. -/
theorem heap_first_fit (hr : Region beginAddr endAddr)
    (h : Reach step Allowed (start m beginAddr endAddr) c) (n : ℕ) :
    ∃ bs, c.Held bs ∧ (c.heap.rtMalloc n = some (0, c.heap) ↔ Heap.NoRoom c.heap bs n) ∧
      (¬ Heap.NoRoom c.heap bs n → ∃ xs t ys h', bs = xs ++ ⟨t, false⟩ :: ys ∧
        Heap.need n + 12 ≤ t ∧
        c.heap.rtMalloc n = some (c.heap.heapPtr + total xs + 12, h') ∧
        ∀ xs' t' ys', bs = xs' ++ ⟨t', false⟩ :: ys' → Heap.need n + 12 ≤ t' →
          total xs ≤ total xs') := by
  obtain ⟨bs, hc⟩ := (sane_of_reach hr h).held
  refine ⟨bs, hc, Heap.rtMalloc_null_iff hc.valid, fun hroom => ?_⟩
  rcases Heap.rtMalloc_cases hc.valid n with
    ⟨hno, -⟩ | ⟨-, o, s, h', bs', hk, -, -, -, -, ⟨xs, t, ys, hsplit, ht, rfl⟩, hfirst⟩
  · exact absurd hno hroom
  · exact ⟨xs, t, ys, h', hsplit, ht, hk, hfirst⟩

/-- The hole is taken, although there is room behind the used block too. -/
theorem heap_first_fit_board :
    ∃ c bs, Reach step Allowed board c ∧ c.Held bs ∧ c.asked 0x20000028 = some 16 ∧
      ∃ xs t ys h', bs = xs ++ ⟨t, false⟩ :: ys ∧ Heap.need 16 + 12 ≤ t ∧
        c.heap.rtMalloc 16 = some (0x2000000C, h') ∧
        c.heap.heapPtr + total xs + 12 = 0x2000000C ∧
        ∀ xs' t' ys', bs = xs' ++ ⟨t', false⟩ :: ys' → Heap.need 16 + 12 ≤ t' →
          total xs ≤ total xs' := by
  obtain ⟨c, hreach, hasked, hagain⟩ := hole_board
  obtain ⟨bs, hc, hnull, hgiven⟩ := heap_first_fit region_board hreach 16
  have hroom : ¬Heap.NoRoom c.heap bs 16 := fun hno => by
    rw [hnull.mpr hno] at hagain
    cases hagain
  obtain ⟨xs, t, ys, h', hsplit, ht, hk, hfirst⟩ := hgiven hroom
  have hp : c.heap.heapPtr + total xs + 12 = 0x2000000C := by
    rw [hk] at hagain
    exact Option.some.inj hagain
  exact ⟨c, bs, hreach, hc, by rw [hasked]; decide, xs, t, ys, h', hsplit, ht, hp ▸ hk, hp, hfirst⟩

/-- **Sizes above `2 ^ 32 - 4`** are not refused: `RT_ALIGN` makes them zero, and `rt_malloc` gives
the smallest block. -/
theorem heap_oversize (hr : Region beginAddr endAddr)
    (h : Reach step Allowed (start m beginAddr endAddr) c) (hn : 2 ^ 32 - 4 < n)
    (hlt : n < 2 ^ 32) : c.heap.rtMalloc n = c.heap.rtMalloc 12 := by
  obtain ⟨bs, hc⟩ := (sane_of_reach hr h).held
  have henough := hc.valid.enough
  have hzero : rtAlign n = 0 := by
    unfold rtAlign
    omega
  unfold Heap.rtMalloc
  dsimp only
  rw [hzero, show rtAlign 12 = 12 from rfl, if_neg (show n ≠ 0 by omega),
    if_neg (show ¬ (12 : ℕ) = 0 by decide), if_neg (Nat.not_lt_zero _),
    if_neg (Nat.not_lt_of_le henough), show (if 0 < minSize then minSize else 0) = 12 from rfl,
    show (if 12 < minSize then minSize else 12) = 12 from rfl]

theorem heap_oversize_board :
    ∃ c, Reach step Allowed board c ∧ c.asked 0x20000028 = some 16 ∧
      c.heap.rtMalloc (2 ^ 32 - 1) = c.heap.rtMalloc 12 := by
  obtain ⟨c, hreach, hasked, -⟩ := hole_board
  exact ⟨c, hreach, by rw [hasked]; decide,
    heap_oversize region_board hreach (by decide) (by decide)⟩

end

end Clients

end OsesProject
