import Mathlib.Data.List.Chain
import Mathlib.Logic.Function.Basic

/-!
# Circular doubly linked lists over a pointer heap

A cell holds two pointers. `CircularList h l xs` says that the cells `l`, `xs` form one circle in
this order: every one points forward to the next, the next points back to it, and no cell occurs
twice. It is stated with `List.IsChain` over the circle written out from `l` back to `l`, so that
a change of the heap is followed cell by cell.

The two laws are the ones such lists are used through: `CircularList.snoc` links a fresh cell in
before `l`, which is the end of the list, and `CircularList.tail` unlinks the first one. Both are
stated for any heap with the pointers the operation leaves, not for one order of writes.
-/

/-- The two pointers of a list cell. -/
@[ext]
structure Links (ν : Type*) where
  next : ν
  prev : ν
  deriving DecidableEq, Repr

/-- `a` points forward to `b`, and `b` points back to `a`. -/
def Linked {ν : Type*} (h : ν → Links ν) (a b : ν) : Prop := (h a).next = b ∧ (h b).prev = a

/-- The cells `l`, `xs` form one circle, in this order. -/
structure CircularList {ν : Type*} (h : ν → Links ν) (l : ν) (xs : List ν) : Prop where
  nodup : (l :: xs).Nodup
  chain : List.IsChain (Linked h) (l :: (xs ++ [l]))

namespace CircularList

variable {ν : Type*} {h h' : ν → Links ν} {l n : ν} {xs : List ν}

/-- A cell that points at itself both ways is the empty list. -/
theorem nil_iff : CircularList h l [] ↔ (h l).next = l ∧ (h l).prev = l := by
  constructor
  · intro c
    simpa [Linked] using c.chain
  · intro hl
    exact ⟨by simp, by simpa [Linked] using hl⟩

/-- The list cell points forward to the first cell, or to itself. -/
theorem next_eq (c : CircularList h l xs) : (h l).next = xs.headD l := by
  cases xs with
  | nil => exact (nil_iff.mp c).1
  | cons x xs =>
    have := c.chain
    simp only [List.cons_append, List.isChain_cons_cons] at this
    exact this.1.1

/-- The last cell of the circle points back to the list cell. -/
theorem linked_last (c : CircularList h l xs) : Linked h (xs.getLastD l) l := by
  have := c.chain
  rw [← List.cons_append, List.isChain_append] at this
  have := this.2.2 ((l :: xs).getLast (by simp)) (List.getLast_mem_getLast? _) l (by simp)
  rwa [List.getLast_eq_getLastD] at this

/-- The circle cut open before the list cell. -/
theorem open_chain (c : CircularList h l xs) : List.IsChain (Linked h) (l :: xs) := by
  have := c.chain
  rw [← List.cons_append] at this
  exact this.left_of_append

/-- The list cell points back to the last cell, or to itself. -/
theorem prev_eq (c : CircularList h l xs) : (h l).prev = xs.getLastD l := c.linked_last.2

/-- A test for emptiness on the first cell is a test for emptiness of the list: the first cell
points at itself only when it is the list cell. -/
theorem next_next_eq_iff (c : CircularList h l xs) :
    (h (h l).next).next = (h l).next ↔ xs = [] := by
  constructor
  · intro hself
    cases xs with
    | nil => rfl
    | cons x xs =>
      exfalso
      have hx : (h l).next = x := c.next_eq
      rw [hx] at hself
      have hchain := c.chain
      have hnd := c.nodup
      cases xs with
      | nil =>
        simp only [List.cons_append, List.nil_append, List.isChain_cons_cons] at hchain
        simp only [List.nodup_cons, List.mem_singleton] at hnd
        exact hnd.1 (hchain.2.1.1.symm.trans hself)
      | cons y ys =>
        simp only [List.cons_append, List.isChain_cons_cons] at hchain
        have hxy : y = x := hchain.2.1.1.symm.trans hself
        simp [hxy] at hnd
  · rintro rfl
    rw [(nil_iff.mp c).1]
    exact (nil_iff.mp c).1

/-- Linking a fresh cell in before the list cell appends it: the heap afterwards has the new
cell's two pointers, the list cell's back pointer and the former last cell's forward pointer
changed, in the way an insertion changes them, and nothing else. -/
theorem snoc (c : CircularList h l xs) (fresh : n ∉ l :: xs)
    (hn : h' n = ⟨l, xs.getLastD l⟩)
    (hlast : (h' (xs.getLastD l)).next = n) (hl : (h' l).prev = n)
    (next_same : ∀ a ∈ l :: xs, a ≠ xs.getLastD l → (h' a).next = (h a).next)
    (prev_same : ∀ a ∈ xs, (h' a).prev = (h a).prev) :
    CircularList h' l (xs ++ [n]) := by
  constructor
  · have := c.nodup
    simp only [List.mem_cons, not_or] at fresh
    rw [← List.cons_append, List.nodup_append]
    refine ⟨this, by simp, ?_⟩
    intro a ha b hb
    simp only [List.mem_singleton] at hb
    subst hb
    rintro rfl
    simp only [List.mem_cons] at ha
    tauto
  · -- a pair of neighbours keeps its two pointers: the first is not the former last cell, whose
    -- successor is the list cell, and the second is one of `xs`
    have hopen : List.IsChain (Linked h') (l :: xs) := by
      refine c.open_chain.imp_of_mem_tail_imp ?_
      intro a b ha hb hab
      have hne : a ≠ xs.getLastD l := by
        rintro rfl
        have hbl : b = l := hab.1.symm.trans c.linked_last.1
        exact (List.nodup_cons.mp c.nodup).1 (hbl ▸ hb)
      exact ⟨(next_same a ha hne).trans hab.1, (prev_same b hb).trans hab.2⟩
    have hclosed : List.IsChain (Linked h') [n, l] := by
      simpa [Linked, hn] using hl
    rw [List.append_assoc, ← List.cons_append]
    refine hopen.append hclosed ?_
    intro a ha b hb
    rw [List.getLast?_cons, ← List.getLastD_eq_getLast?] at ha
    simp only [Option.mem_def, Option.some.injEq, List.cons_append, List.head?_cons] at ha hb
    subst ha hb
    exact ⟨hlast, by rw [hn]⟩

/-- Unlinking the first cell leaves the rest: the heap afterwards has the list cell's forward
pointer and the following cell's back pointer changed, and nothing else on the rest. -/
theorem tail {x : ν} (c : CircularList h l (x :: xs))
    (hl : (h' l).next = xs.headD l) (hnext : (h' (xs.headD l)).prev = l)
    (next_same : ∀ a ∈ xs, (h' a).next = (h a).next)
    (prev_same : ∀ a ∈ l :: xs, a ≠ xs.headD l → (h' a).prev = (h a).prev) :
    CircularList h' l xs := by
  have hnd := c.nodup
  simp only [List.nodup_cons, List.mem_cons, not_or] at hnd
  refine ⟨List.nodup_cons.mpr ⟨hnd.1.2, hnd.2.2⟩, ?_⟩
  cases xs with
  | nil => simpa [Linked] using ⟨hl, hnext⟩
  | cons y ys =>
    have hchain := c.chain
    simp only [List.cons_append, List.isChain_cons_cons] at hchain ⊢
    refine ⟨⟨hl, hnext⟩, ?_⟩
    refine hchain.2.2.imp_of_mem_tail_imp ?_
    intro a b ha hb hab
    simp only [List.headD_cons, List.tail_cons] at next_same prev_same hb
    simp only [List.mem_cons, List.mem_append, List.not_mem_nil, or_false] at ha hb
    simp only [List.nodup_cons, List.mem_cons, not_or] at hnd
    -- the list cell closes the circle and has no successor in it
    have hal : a ≠ l := by
      rintro rfl
      have hbx : b = x := hab.1.symm.trans hchain.1.1
      rcases hb with hb | hb
      · exact hnd.2.1.2 (hbx ▸ hb)
      · exact hnd.1.1 (hb.symm.trans hbx)
    have ha' : a ∈ y :: ys := by simp only [List.mem_cons]; tauto
    have hby : b ≠ y := by
      rintro rfl
      rcases hb with hb | hb
      · exact hnd.2.2.1 hb
      · exact hnd.1.2.1 hb.symm
    have hb' : b ∈ l :: y :: ys := by simp only [List.mem_cons]; tauto
    exact ⟨(next_same a ha').trans hab.1, (prev_same b hb' hby).trans hab.2⟩

end CircularList
