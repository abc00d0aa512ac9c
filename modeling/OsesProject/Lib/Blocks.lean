import Mathlib.Data.List.Chain

/-!
# Blocks of a memory

A stretch of memory cut into blocks, which lie side by side and are used or free: a list of them, in
the order of their addresses. What an allocator answers for is read off the list: where the used
blocks lie (`usedFrom`), what they add up to (`usedTotal`), where the first free block begins
(`firstFree`), and where one block ends and the next begins (`cuts`). Two free neighbours can be
made one without the first three noticing (`SameUse.join`), and a list is `Separated` when there are
none.
-/

namespace Blocks

structure Block where
  size : ℕ
  used : Bool
  deriving DecidableEq

variable {b : Block} {bs xs ys : List Block} {o p s t : ℕ}

/-- What the blocks add up to. -/
def total : List Block → ℕ
  | [] => 0
  | b :: bs => b.size + total bs

/-- The used blocks, when the first block begins at `o`: where each begins, and its size. -/
def usedFrom : ℕ → List Block → List (ℕ × ℕ)
  | _, [] => []
  | o, b :: bs =>
    if b.used then (o, b.size) :: usedFrom (o + b.size) bs else usedFrom (o + b.size) bs

/-- What the used blocks add up to. -/
def usedTotal : List Block → ℕ
  | [] => 0
  | b :: bs => (if b.used then b.size else 0) + usedTotal bs

/-- Where the first free block begins, or where the last block ends. -/
def firstFree : List Block → ℕ
  | [] => 0
  | b :: bs => if b.used then b.size + firstFree bs else 0

/-- Where the blocks begin, the first of them at `o`, and where the last one ends. -/
def cuts : ℕ → List Block → List ℕ
  | o, [] => [o]
  | o, b :: bs => o :: cuts (o + b.size) bs

/-- No two neighbours are free. -/
def Separated (bs : List Block) : Prop := bs.IsChain fun a b => a.used = true ∨ b.used = true

@[simp] theorem total_nil : total [] = 0 := rfl

@[simp] theorem total_cons : total (b :: bs) = b.size + total bs := rfl

@[simp] theorem total_append : total (xs ++ ys) = total xs + total ys := by
  induction xs with
  | nil => simp
  | cons x xs ih => simp [ih, Nat.add_assoc]

@[simp] theorem usedFrom_nil : usedFrom o [] = [] := rfl

@[simp] theorem usedFrom_cons_used : usedFrom o (⟨s, true⟩ :: bs) = (o, s) :: usedFrom (o + s) bs :=
  rfl

@[simp] theorem usedFrom_cons_free : usedFrom o (⟨s, false⟩ :: bs) = usedFrom (o + s) bs := rfl

@[simp] theorem usedFrom_append :
    usedFrom o (xs ++ ys) = usedFrom o xs ++ usedFrom (o + total xs) ys := by
  induction xs generalizing o with
  | nil => simp
  | cons x xs ih =>
    rw [List.cons_append, usedFrom, usedFrom, ih, total_cons, ← Nat.add_assoc]
    split
    · rw [List.cons_append]
    · rfl

@[simp] theorem usedTotal_nil : usedTotal [] = 0 := rfl

@[simp] theorem usedTotal_cons_used : usedTotal (⟨s, true⟩ :: bs) = s + usedTotal bs := rfl

@[simp] theorem usedTotal_cons_free : usedTotal (⟨s, false⟩ :: bs) = usedTotal bs :=
  Nat.zero_add _

@[simp] theorem usedTotal_append : usedTotal (xs ++ ys) = usedTotal xs + usedTotal ys := by
  induction xs with
  | nil => simp
  | cons x xs ih => rw [List.cons_append, usedTotal, usedTotal, ih, Nat.add_assoc]

theorem usedTotal_le (bs : List Block) : usedTotal bs ≤ total bs := by
  induction bs with
  | nil => exact Nat.le_refl 0
  | cons b bs ih =>
    rw [usedTotal, total_cons]
    split <;> omega

/-! ## The used blocks -/

/-- A used block is a block of the list, with what is before it. -/
theorem exists_of_mem_usedFrom (h : (p, s) ∈ usedFrom o bs) :
    ∃ xs ys, bs = xs ++ ⟨s, true⟩ :: ys ∧ p = o + total xs := by
  induction bs generalizing o with
  | nil => cases h
  | cons b bs ih =>
    have hrest : (p, s) ∈ usedFrom (o + b.size) bs →
        ∃ xs ys, b :: bs = xs ++ ⟨s, true⟩ :: ys ∧ p = o + total xs := fun hmem => by
      obtain ⟨xs, ys, rfl, rfl⟩ := ih hmem
      exact ⟨b :: xs, ys, rfl, by rw [total_cons, Nat.add_assoc]⟩
    rw [usedFrom] at h
    split at h
    · next hused =>
      rcases List.mem_cons.mp h with heq | hmem
      · cases heq
        exact ⟨[], bs, by cases b; cases hused; rfl, rfl⟩
      · exact hrest hmem
    · exact hrest h

/-- A used block lies between the first block's beginning and the last one's end. -/
theorem usedFrom_bounds (h : (p, s) ∈ usedFrom o bs) : o ≤ p ∧ p + s ≤ o + total bs := by
  obtain ⟨xs, ys, rfl, rfl⟩ := exists_of_mem_usedFrom h
  simp only [total_append, total_cons]
  omega

@[simp] theorem cuts_cons : cuts o (b :: bs) = o :: cuts (o + b.size) bs := rfl

theorem mem_cuts_self : o ∈ cuts o bs := by
  cases bs <;> simp [cuts]

theorem mem_cuts_append {q : ℕ} :
    q ∈ cuts o (xs ++ ys) ↔ q ∈ cuts o xs ∨ q ∈ cuts (o + total xs) ys := by
  induction xs generalizing o with
  | nil =>
    simp only [List.nil_append, total_nil, Nat.add_zero, cuts, List.mem_singleton]
    refine ⟨.inr, fun h => h.elim (fun h => ?_) id⟩
    rw [h]
    exact mem_cuts_self
  | cons x xs ih =>
    simp only [List.cons_append, cuts_cons, List.mem_cons, ih, total_cons, or_assoc,
      Nat.add_assoc]

theorem cuts_bounds {q : ℕ} (h : q ∈ cuts o bs) : o ≤ q ∧ q ≤ o + total bs := by
  induction bs generalizing o with
  | nil =>
    cases List.mem_singleton.mp h
    exact ⟨Nat.le_refl _, Nat.le_refl _⟩
  | cons b bs ih =>
    rw [total_cons]
    rcases List.mem_cons.mp h with rfl | h
    · omega
    · have := ih h
      omega

/-- A used block lies on one side of every cut. -/
theorem usedFrom_apart {q : ℕ} (h : (p, s) ∈ usedFrom o bs) (hq : q ∈ cuts o bs) :
    q ≤ p ∨ p + s ≤ q := by
  obtain ⟨xs, ys, rfl, rfl⟩ := exists_of_mem_usedFrom h
  rcases mem_cuts_append.mp hq with hq | hq
  · exact .inl (cuts_bounds hq).2
  · rcases List.mem_cons.mp hq with rfl | hq
    · exact .inl (Nat.le_refl _)
    · exact .inr (cuts_bounds hq).1

/-- Freeing a block takes it from the used blocks. -/
theorem mem_usedFrom_release {q : ℕ × ℕ} (hs : 0 < s) (hxs : ∀ b ∈ xs, 0 < b.size) :
    q ∈ usedFrom o (xs ++ ⟨s, false⟩ :: ys) ↔
      q ∈ usedFrom o (xs ++ ⟨s, true⟩ :: ys) ∧ q.1 ≠ o + total xs := by
  simp only [usedFrom_append, usedFrom_cons_used, usedFrom_cons_free, List.mem_append,
    List.mem_cons]
  constructor
  · rintro (h | h)
    · obtain ⟨pre, post, hsplit, -⟩ := exists_of_mem_usedFrom (p := q.1) (s := q.2) h
      have hsize := hxs ⟨q.2, true⟩ (by simp [hsplit])
      have := (usedFrom_bounds (p := q.1) (s := q.2) h).2
      dsimp only at hsize
      exact ⟨.inl h, by omega⟩
    · have := (usedFrom_bounds h).1
      exact ⟨.inr (.inr h), by omega⟩
  · rintro ⟨h | rfl | h, hne⟩
    · exact .inl h
    · exact absurd rfl hne
    · exact .inr h

/-- The used blocks stand one after the other. -/
theorem usedFrom_pairwise (o : ℕ) (bs : List Block) :
    (usedFrom o bs).Pairwise fun a b => a.1 + a.2 ≤ b.1 := by
  induction bs generalizing o with
  | nil => exact List.Pairwise.nil
  | cons b bs ih =>
    rw [usedFrom]
    split
    · exact List.pairwise_cons.mpr ⟨fun q hq => (usedFrom_bounds hq).1, ih _⟩
    · exact ih _

/-- Two used blocks do not overlap. -/
theorem usedFrom_disjoint {p q : ℕ × ℕ} (hp : p ∈ usedFrom o bs) (hq : q ∈ usedFrom o bs)
    (hne : p ≠ q) : p.1 + p.2 ≤ q.1 ∨ q.1 + q.2 ≤ p.1 := by
  have : Std.Symm fun a b : ℕ × ℕ => a.1 + a.2 ≤ b.1 ∨ b.1 + b.2 ≤ a.1 := ⟨fun _ _ => Or.symm⟩
  have hpairs : (usedFrom o bs).Pairwise fun a b => a.1 + a.2 ≤ b.1 ∨ b.1 + b.2 ≤ a.1 :=
    (usedFrom_pairwise o bs).imp Or.inl
  exact hpairs.forall hp hq hne

/-! ## The first free block -/

@[simp] theorem firstFree_cons_used : firstFree (⟨s, true⟩ :: bs) = s + firstFree bs := rfl

@[simp] theorem firstFree_cons_free : firstFree (⟨s, false⟩ :: bs) = 0 := rfl

/-- Freeing a block leaves the first free block where it is, or makes the block the first. -/
theorem firstFree_release (xs ys : List Block) (s : ℕ) :
    firstFree (xs ++ ⟨s, false⟩ :: ys) = min (firstFree (xs ++ ⟨s, true⟩ :: ys)) (total xs) := by
  induction xs with
  | nil => simp
  | cons x xs ih =>
    simp only [List.cons_append, firstFree, total_cons, ih]
    split <;> omega

/-- Taking a block moves the first free one on when it was the first, and not otherwise. -/
theorem firstFree_take (hxs : ∀ b ∈ xs, 0 < b.size) (ys : List Block) (s : ℕ) :
    firstFree (xs ++ ⟨s, true⟩ :: ys) =
      if firstFree (xs ++ ⟨s, false⟩ :: ys) = total xs then total xs + s + firstFree ys
      else firstFree (xs ++ ⟨s, false⟩ :: ys) := by
  induction xs with
  | nil => simp
  | cons x xs ih =>
    have hx := hxs x List.mem_cons_self
    have ih := ih fun b hb => hxs b (List.mem_cons_of_mem _ hb)
    simp only [List.cons_append, firstFree, total_cons, ih]
    by_cases hused : x.used = true
    · simp only [if_pos hused]
      split <;> split <;> omega
    · simp only [if_neg hused]
      rw [if_neg (by omega)]

/-- The blocks before the first free one are used. -/
theorem exists_firstFree (bs : List Block) : ∃ xs ys, bs = xs ++ ys ∧ (∀ b ∈ xs, b.used = true) ∧
    total xs = firstFree bs ∧ ∀ y ∈ ys.head?, y.used = false := by
  induction bs with
  | nil => exact ⟨[], [], rfl, by simp, rfl, by simp⟩
  | cons b bs ih =>
    rw [firstFree]
    split
    · next hused =>
      obtain ⟨xs, ys, rfl, hxs, htotal, hhead⟩ := ih
      refine ⟨b :: xs, ys, rfl, ?_, by rw [total_cons, htotal], hhead⟩
      intro c hc
      rcases List.mem_cons.mp hc with rfl | hc
      · exact hused
      · exact hxs c hc
    · next hfree => exact ⟨[], b :: bs, rfl, by simp, rfl, by simpa using hfree⟩

/-! ## Joining free neighbours -/

/-- Two lists of blocks that an allocator cannot tell apart by what it has given out. -/
structure SameUse (bs bs' : List Block) : Prop where
  total : total bs = total bs'
  usedFrom : ∀ o, usedFrom o bs = usedFrom o bs'
  usedTotal : usedTotal bs = usedTotal bs'
  firstFree : firstFree bs = firstFree bs'

theorem SameUse.refl (bs : List Block) : SameUse bs bs := ⟨rfl, fun _ => rfl, rfl, rfl⟩

theorem SameUse.trans {bs₁ bs₂ bs₃ : List Block} (h : SameUse bs₁ bs₂) (h' : SameUse bs₂ bs₃) :
    SameUse bs₁ bs₃ :=
  ⟨h.total.trans h'.total, fun o => (h.usedFrom o).trans (h'.usedFrom o),
    h.usedTotal.trans h'.usedTotal, h.firstFree.trans h'.firstFree⟩

theorem firstFree_append_congr (h : firstFree bs = firstFree ys) :
    firstFree (xs ++ bs) = firstFree (xs ++ ys) := by
  induction xs with
  | nil => exact h
  | cons x xs ih => simp only [List.cons_append, firstFree, ih]

/-- **Two free neighbours joined** are used as before. -/
theorem SameUse.join :
    SameUse (xs ++ ⟨s, false⟩ :: ⟨t, false⟩ :: ys) (xs ++ ⟨s + t, false⟩ :: ys) where
  total := by simp [Nat.add_assoc]
  usedFrom o := by simp [Nat.add_assoc]
  usedTotal := by simp
  firstFree := firstFree_append_congr rfl

/-- Joined blocks have a cut less. -/
theorem cuts_join {u v w : Bool} :
    cuts o (xs ++ ⟨s + t, u⟩ :: ys) ⊆ cuts o (xs ++ ⟨s, v⟩ :: ⟨t, w⟩ :: ys) := by
  intro q hq
  rw [mem_cuts_append, cuts_cons, List.mem_cons] at hq
  rw [mem_cuts_append, cuts_cons, cuts_cons, List.mem_cons, List.mem_cons]
  rw [← Nat.add_assoc] at hq
  tauto

theorem separated_append : Separated (xs ++ ys) ↔ Separated xs ∧ Separated ys ∧
    ∀ x ∈ xs.getLast?, ∀ y ∈ ys.head?, x.used = true ∨ y.used = true :=
  List.isChain_append

theorem separated_cons : Separated (b :: bs) ↔
    (∀ y ∈ bs.head?, b.used = true ∨ y.used = true) ∧ Separated bs :=
  List.isChain_cons

/-- A free block has used neighbours. -/
theorem separated_free_iff : Separated (xs ++ ⟨s, false⟩ :: ys) ↔
    Separated xs ∧ Separated ys ∧ (∀ x ∈ xs.getLast?, x.used = true) ∧
      ∀ y ∈ ys.head?, y.used = true := by
  rw [separated_append, separated_cons]
  simp
  tauto

/-- A used block can have any neighbours. -/
theorem separated_used_iff : Separated (xs ++ ⟨s, true⟩ :: ys) ↔ Separated xs ∧ Separated ys := by
  rw [separated_append, separated_cons]
  simp

/-- Without used blocks there is one free block. -/
theorem eq_singleton_of_separated (hsep : Separated bs) (hused : usedFrom o bs = [])
    (htotal : total bs ≠ 0) : bs = [⟨total bs, false⟩] := by
  rcases bs with _ | ⟨⟨s, _ | _⟩, _ | ⟨⟨t, _ | _⟩, rest⟩⟩
  · exact absurd rfl htotal
  · rfl
  · exact absurd (separated_cons.mp hsep).1 (by simp)
  · simp [usedFrom] at hused
  · simp [usedFrom] at hused
  · simp [usedFrom] at hused
  · simp [usedFrom] at hused

end Blocks
