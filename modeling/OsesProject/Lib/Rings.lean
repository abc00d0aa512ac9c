import OsesProject.Lib.CircularList
import Mathlib.Data.List.Nodup

/-!
# Many circular lists over one heap

Intrusive lists: every list has a head, every element has one cell, and a cell is on one list at a
time or points at itself. `Rings h content` says that the heap `h` holds such a family, `content i`
being the elements of the list `i` in order.

An operation is known by the pointers it leaves, for every node of the heap: `Unlinked` for a node
taken out of wherever it is, `LinkedBefore` for a node put in before another one. Neither mentions
a list. `Rings.remove` and `Rings.insert` say what they do to all lists at once, and the lists the
operation is not about are part of the statement.
-/

variable {ν : Type*}

/-- The neighbours of a node point back at it. -/
structure WellLinked (h : ν → Links ν) (n : ν) : Prop where
  next_prev : (h (h n).prev).next = n
  prev_next : (h (h n).next).prev = n

namespace CircularList

variable {h h' : ν → Links ν} {l a n : ν} {xs pre post : List ν}

/-- Every node of a circle has a neighbour on both sides. -/
theorem exists_linked (c : CircularList h l xs) (ha : a ∈ l :: xs) :
    (∃ p ∈ l :: xs, Linked h p a) ∧ ∃ s ∈ l :: xs, Linked h a s := by
  have hchain := c.chain
  rcases List.mem_cons.mp ha with rfl | ha
  · constructor
    · refine ⟨xs.getLastD a, ?_, c.linked_last⟩
      rw [← List.getLast_eq_getLastD (by simp)]
      exact List.getLast_mem _
    · cases xs with
      | nil => exact ⟨a, by simp, by simpa using hchain⟩
      | cons x xs =>
        rw [List.cons_append, List.isChain_cons_cons] at hchain
        exact ⟨x, by simp, hchain.1⟩
  · obtain ⟨s, t, rfl⟩ := List.append_of_mem ha
    rw [List.append_assoc, List.cons_append, ← List.cons_append, List.isChain_append] at hchain
    obtain ⟨-, htail, hjoin⟩ := hchain
    constructor
    · have hlast := List.getLast_mem (List.cons_ne_nil l s)
      refine ⟨_, ?_, hjoin _ (List.getLast_mem_getLast? (List.cons_ne_nil l s)) a (by simp)⟩
      simp only [List.mem_cons, List.mem_append] at hlast ⊢
      tauto
    · rw [List.isChain_cons] at htail
      cases t with
      | nil => exact ⟨l, by simp, htail.1 l (by simp)⟩
      | cons x t => exact ⟨x, by simp, htail.1 x (by simp)⟩

theorem wellLinked (c : CircularList h l xs) (ha : a ∈ l :: xs) : WellLinked h a := by
  obtain ⟨⟨p, -, hp⟩, ⟨s, -, hs⟩⟩ := c.exists_linked ha
  exact ⟨by rw [hp.2, hp.1], by rw [hs.1, hs.2]⟩

/-- A heap keeps a circle whose neighbours it keeps linked. -/
theorem frame (c : CircularList h l xs)
    (keeps : ∀ a ∈ l :: xs, ∀ b ∈ l :: xs, Linked h a b → Linked h' a b) :
    CircularList h' l xs := by
  refine ⟨c.nodup, c.chain.imp_of_mem_imp ?_⟩
  have hmem : ∀ a ∈ l :: (xs ++ [l]), a ∈ l :: xs := by
    intro a ha
    simp only [List.mem_cons, List.mem_append, List.not_mem_nil, or_false] at ha ⊢
    tauto
  intro a b ha hb
  exact keeps a (hmem a ha) b (hmem b hb)

end CircularList

/-! ## Taking a node out -/

section Unlink

variable [DecidableEq ν] {h h' : ν → Links ν} {l a b n : ν} {pre post : List ν}

/-- `h'` is `h` with the node `n` taken out: its neighbours are linked to each other and it points
at itself. -/
structure Unlinked (h h' : ν → Links ν) (n : ν) : Prop where
  next : ∀ a, (h' a).next = if a = n then n else if a = (h n).prev then (h n).next else (h a).next
  prev : ∀ a, (h' a).prev = if a = n then n else if a = (h n).next then (h n).prev else (h a).prev

/-- The other neighbours stay neighbours. -/
theorem Unlinked.linked (u : Unlinked h h' n) (w : WellLinked h n) (ha : a ≠ n) (hb : b ≠ n)
    (hab : Linked h a b) : Linked h' a b := by
  have ha' : a ≠ (h n).prev := by
    rintro rfl
    exact hb (hab.1.symm.trans w.next_prev)
  have hb' : b ≠ (h n).next := by
    rintro rfl
    exact ha (hab.2.symm.trans w.prev_next)
  constructor
  · rw [u.next, if_neg ha, if_neg ha']
    exact hab.1
  · rw [u.prev, if_neg hb, if_neg hb']
    exact hab.2

/-- The two neighbours of the node become neighbours. -/
theorem Unlinked.joins (u : Unlinked h h' n) (ha : a ≠ n) (hb : b ≠ n) (han : Linked h a n)
    (hnb : Linked h n b) : Linked h' a b := by
  constructor
  · rw [u.next, if_neg ha, if_pos han.2.symm]
    exact hnb.1
  · rw [u.prev, if_neg hb, if_pos hnb.1.symm]
    exact han.2

/-- Taking an element out of a circle, at any place. -/
theorem CircularList.unlink (c : CircularList h l (pre ++ n :: post)) (u : Unlinked h h' n) :
    CircularList h' l (pre ++ post) := by
  have w : WellLinked h n := c.wellLinked (by simp)
  have hnd := c.nodup
  have hchain := c.chain
  have hsub : (l :: (pre ++ post)).Sublist (l :: (pre ++ n :: post)) :=
    ((List.sublist_cons_self n post).append_left pre).cons_cons l
  have hne : ∀ a ∈ l :: (pre ++ post), a ≠ n := by
    rintro a ha rfl
    simp only [List.mem_cons, List.mem_append] at ha
    simp only [List.nodup_cons, List.mem_append, List.mem_cons, List.nodup_append] at hnd
    rcases ha with rfl | ha | ha
    · exact hnd.1 (.inr (.inl rfl))
    · exact hnd.2.2.2 a ha a (.inl rfl) rfl
    · exact hnd.2.2.1.1 ha
  refine ⟨hnd.sublist hsub, ?_⟩
  rw [List.append_assoc, List.cons_append, ← List.cons_append, List.isChain_append] at hchain
  obtain ⟨hfront, hback, hprev⟩ := hchain
  rw [List.isChain_cons] at hback
  obtain ⟨hnext, hback⟩ := hback
  have hback_ne : ∀ a ∈ post ++ [l], a ≠ n := by
    intro a ha
    refine hne a ?_
    simp only [List.mem_append, List.mem_cons, List.not_mem_nil, or_false] at ha ⊢
    tauto
  have hfront_ne : ∀ a ∈ l :: pre, a ≠ n := by
    intro a ha
    refine hne a ?_
    simp only [List.mem_cons, List.mem_append] at ha ⊢
    tauto
  rw [List.append_assoc, ← List.cons_append]
  refine List.IsChain.append ?_ ?_ ?_
  · exact hfront.imp_of_mem_imp fun a b ha hb => u.linked w (hfront_ne a ha) (hfront_ne b hb)
  · exact hback.imp_of_mem_imp fun a b ha hb => u.linked w (hback_ne a ha) (hback_ne b hb)
  · intro a ha b hb
    exact u.joins (hfront_ne a (List.mem_of_mem_getLast? ha))
      (hback_ne b (List.mem_of_mem_head? hb)) (hprev a ha n (by simp)) (hnext b hb)

end Unlink

/-! ## Putting a node in -/

section Link

variable [DecidableEq ν] {h h' : ν → Links ν} {l m a b n : ν} {pre post : List ν}

/-- `h'` is `h` with the node `n` put in before `m`. -/
structure LinkedBefore (h h' : ν → Links ν) (m n : ν) : Prop where
  next : ∀ a, (h' a).next = if a = n then m else if a = (h m).prev then n else (h a).next
  prev : ∀ a, (h' a).prev = if a = m then n else if a = n then (h m).prev else (h a).prev

/-- The other neighbours stay neighbours. -/
theorem LinkedBefore.linked (i : LinkedBefore h h' m n) (w : WellLinked h m) (ha : a ≠ n)
    (hb : b ≠ n) (hbm : b ≠ m) (hab : Linked h a b) : Linked h' a b := by
  have ha' : a ≠ (h m).prev := by
    rintro rfl
    exact hbm (hab.1.symm.trans w.next_prev)
  constructor
  · rw [i.next, if_neg ha, if_neg ha']
    exact hab.1
  · rw [i.prev, if_neg hbm, if_neg hb]
    exact hab.2

theorem LinkedBefore.linked_new (i : LinkedBefore h h' m n) : Linked h' n m := by
  constructor
  · rw [i.next, if_pos rfl]
  · rw [i.prev, if_pos rfl]

theorem LinkedBefore.new_linked (i : LinkedBefore h h' m n) (hmn : m ≠ n) (ha : a ≠ n)
    (ham : Linked h a m) : Linked h' a n := by
  constructor
  · rw [i.next, if_neg ha, if_pos ham.2.symm]
  · rw [i.prev, if_neg hmn.symm, if_pos rfl]
    exact ham.2

/-- Putting a fresh node into a circle, at any place. -/
theorem CircularList.link (c : CircularList h l (pre ++ post)) (fresh : n ∉ l :: (pre ++ post))
    (i : LinkedBefore h h' (post.headD l) n) : CircularList h' l (pre ++ n :: post) := by
  have hne : ∀ a ∈ l :: (pre ++ post), a ≠ n := fun a ha => ne_of_mem_of_not_mem ha fresh
  have hm : post.headD l ∈ l :: (pre ++ post) := by
    cases post <;> simp
  have w : WellLinked h (post.headD l) := c.wellLinked hm
  have hnd := c.nodup
  constructor
  · have hperm : (l :: (pre ++ n :: post)).Perm (n :: l :: (pre ++ post)) :=
      (List.perm_middle.cons l).trans (List.Perm.swap n l _)
    exact hperm.nodup_iff.mpr (List.nodup_cons.mpr ⟨fresh, hnd⟩)
  · have hchain := c.chain
    rw [List.append_assoc, ← List.cons_append, List.isChain_append] at hchain
    obtain ⟨hfront, hback, hjoin⟩ := hchain
    have hhead : (post ++ [l]).head? = some (post.headD l) := by
      cases post <;> rfl
    -- in front of the place nothing but the first node of the rest is a second neighbour of it
    have hfront' : List.IsChain (Linked h') (l :: pre) := by
      refine hfront.imp_of_mem_tail_imp ?_
      intro a b ha hb
      simp only [List.tail_cons] at hb
      have hbm : b ≠ post.headD l := by
        simp only [List.nodup_cons, List.mem_append, not_or, List.nodup_append] at hnd
        rintro rfl
        cases post with
        | nil => exact hnd.1.1 hb
        | cons p post => exact hnd.2.2.2 _ hb p (by simp) rfl
      refine i.linked w (hne a ?_) (hne b ?_) hbm
      · simp only [List.mem_cons, List.mem_append] at ha ⊢
        tauto
      · simp only [List.mem_cons, List.mem_append]
        tauto
    have hback' : List.IsChain (Linked h') (post ++ [l]) := by
      refine hback.imp_of_mem_tail_imp ?_
      intro a b ha hb
      have hbm : b ≠ post.headD l := by
        simp only [List.nodup_cons, List.mem_append, not_or, List.nodup_append] at hnd
        cases post with
        | nil => cases hb
        | cons p post =>
          simp only [List.cons_append, List.tail_cons, List.mem_append, List.mem_singleton] at hb
          rintro rfl
          rcases hb with hb | hb
          · exact (List.nodup_cons.mp hnd.2.2.1).1 hb
          · exact hnd.1.2 (hb ▸ List.mem_cons_self)
      refine i.linked w (hne a ?_) (hne b ?_) hbm
      · simp only [List.mem_append, List.mem_cons, List.not_mem_nil, or_false] at ha ⊢
        tauto
      · have hb := List.mem_of_mem_tail hb
        simp only [List.mem_append, List.mem_cons, List.not_mem_nil, or_false] at hb ⊢
        tauto
    have hnew : List.IsChain (Linked h') (n :: (post ++ [l])) := by
      refine List.IsChain.cons hback' ?_
      intro b hb
      rw [hhead, Option.mem_some_iff] at hb
      subst hb
      exact i.linked_new
    rw [List.append_assoc, List.cons_append, ← List.cons_append]
    refine hfront'.append hnew ?_
    intro a ha b hb
    rw [List.head?_cons, Option.mem_some_iff] at hb
    subst hb
    refine i.new_linked (hne _ hm) (hne a ?_) (hjoin a ha _ hhead)
    have ha := List.mem_of_mem_getLast? ha
    simp only [List.mem_cons, List.mem_append] at ha ⊢
    tauto

end Link

/-! ## The family -/

/-- The head of a list, or the cell of an element. -/
inductive RingNode (η τ : Type*)
  | head (i : η)
  | cell (t : τ)
  deriving DecidableEq, Repr

open RingNode

/-- Leaving out what is not there. -/
theorem List.filter_ne_of_notMem {α : Type*} [DecidableEq α] {x : α} {xs : List α} (hx : x ∉ xs) :
    xs.filter (· ≠ x) = xs := by
  rw [List.filter_eq_self]
  intro y hy
  exact decide_eq_true (ne_of_mem_of_not_mem hy hx)

/-- The heap holds the lists `content`: each is a circle through its head, no element is on two of
them, and the cell of an element that is on none points at itself. -/
structure Rings {η τ : Type*} (h : RingNode η τ → Links (RingNode η τ)) (content : η → List τ) :
    Prop where
  circle : ∀ i, CircularList h (head i) ((content i).map cell)
  unique : ∀ {i j t}, t ∈ content i → t ∈ content j → i = j
  alone : ∀ t, (∀ i, t ∉ content i) → h (cell t) = ⟨cell t, cell t⟩

namespace Rings

variable {η τ : Type*} {h h' : RingNode η τ → Links (RingNode η τ)} {content : η → List τ}
  {i j : η} {t : τ} {ts pre post : List τ}

theorem nodup (r : Rings h content) (i : η) : (content i).Nodup :=
  List.Nodup.of_map cell (List.nodup_cons.mp (r.circle i).nodup).2

/-- The node after the head of a list. -/
theorem head_next (r : Rings h content) (i : η) :
    (h (head i)).next = ((content i).map cell).headD (head i) := (r.circle i).next_eq

theorem head_next_cons (r : Rings h content) (hi : content i = t :: ts) :
    (h (head i)).next = cell t := by
  rw [r.head_next, hi]
  rfl

/-- The head of a list points at itself exactly when the list is empty. -/
theorem head_next_eq_iff (r : Rings h content) (i : η) :
    (h (head i)).next = head i ↔ content i = [] := by
  rw [r.head_next]
  cases content i <;> simp

theorem wellLinked_head (r : Rings h content) (i : η) : WellLinked h (head i) :=
  (r.circle i).wellLinked List.mem_cons_self

theorem wellLinked_cell (r : Rings h content) (t : τ) : WellLinked h (cell t) := by
  by_cases ht : ∃ i, t ∈ content i
  · obtain ⟨i, ht⟩ := ht
    exact (r.circle i).wellLinked (List.mem_cons_of_mem _ (List.mem_map_of_mem ht))
  · have halone := r.alone t (fun i hi => ht ⟨i, hi⟩)
    exact ⟨by simp [halone], by simp [halone]⟩

/-- The nodes of two lists are apart. -/
theorem disjoint (r : Rings h content) (hij : i ≠ j) {a : RingNode η τ}
    (hi : a ∈ head i :: (content i).map cell) : a ∉ head j :: (content j).map cell := by
  intro hj
  cases a with
  | head k =>
    simp only [List.mem_cons, RingNode.head.injEq, List.mem_map, reduceCtorEq, and_false,
      exists_false, or_false] at hi hj
    exact hij (hi.symm.trans hj)
  | cell t =>
    simp only [List.mem_cons, reduceCtorEq, List.mem_map, RingNode.cell.injEq, exists_eq_right,
      false_or] at hi hj
    exact hij (r.unique hi hj)

variable [DecidableEq η] [DecidableEq τ]

/-- **Taking an element out.** Whatever list it is on loses it and keeps its order, and all other
lists are as before; an element on no list leaves everything as it is. -/
theorem remove (r : Rings h content) (u : Unlinked h h' (cell t)) :
    Rings h' fun i => (content i).filter (· ≠ t) := by
  have w := r.wellLinked_cell t
  refine ⟨fun i => ?_, fun hi hj => ?_, fun x hx => ?_⟩
  · by_cases hi : t ∈ content i
    · obtain ⟨pre, post, he⟩ := List.append_of_mem hi
      have hnd := r.nodup i
      have c := r.circle i
      rw [he, List.nodup_append, List.nodup_cons] at hnd
      rw [he, List.map_append, List.map_cons] at c
      have hpre : t ∉ pre := fun ht => hnd.2.2 t ht t List.mem_cons_self rfl
      rw [he, List.filter_append, List.filter_cons_of_neg (by simp),
        List.filter_ne_of_notMem hpre, List.filter_ne_of_notMem hnd.2.1.1, List.map_append]
      exact c.unlink u
    · rw [List.filter_ne_of_notMem hi]
      have hne : ∀ a ∈ head i :: (content i).map cell, a ≠ cell t := by
        rintro a ha rfl
        simp only [List.mem_cons, reduceCtorEq, List.mem_map, RingNode.cell.injEq, exists_eq_right,
          false_or] at ha
        exact hi ha
      exact (r.circle i).frame fun a ha b hb => u.linked w (hne a ha) (hne b hb)
  · exact r.unique (List.mem_filter.mp hi).1 (List.mem_filter.mp hj).1
  · by_cases hxt : x = t
    · subst hxt
      refine Links.ext ?_ ?_
      · rw [u.next, if_pos rfl]
      · rw [u.prev, if_pos rfl]
    · have hxi : ∀ i, x ∉ content i := by
        intro i hi
        exact hx i (List.mem_filter.mpr ⟨hi, decide_eq_true hxt⟩)
      have hlink : Linked h' (cell x) (cell x) := by
        refine u.linked w (by simpa using hxt) (by simpa using hxt) ?_
        simp [Linked, r.alone x hxi]
      exact Links.ext hlink.1 hlink.2

/-- **Putting an element in.** An element that is on no list goes into the list `i` at the place
before the node `m`, and all other lists are as before. -/
theorem insert (r : Rings h content) (fresh : ∀ i, t ∉ content i) (hi : content i = pre ++ post)
    (l : LinkedBefore h h' ((post.map cell).headD (head i)) (cell t)) :
    Rings h' (Function.update content i (pre ++ t :: post)) := by
  have c := r.circle i
  rw [hi, List.map_append] at c
  have hne : ∀ j, ∀ a ∈ head j :: (content j).map cell, a ≠ cell t := by
    rintro j a ha rfl
    simp only [List.mem_cons, reduceCtorEq, List.mem_map, RingNode.cell.injEq, exists_eq_right,
      false_or] at ha
    exact fresh j ha
  have hm : (post.map cell).headD (head i) ∈ head i :: (content i).map cell := by
    rw [hi]
    cases post <;> simp
  have w : WellLinked h ((post.map cell).headD (head i)) := (r.circle i).wellLinked hm
  have hmem : ∀ j x, x ∈ Function.update content i (pre ++ t :: post) j ↔
      x ∈ content j ∨ j = i ∧ x = t := by
    intro j x
    rw [Function.update_apply]
    split
    · next hj =>
      subst hj
      rw [hi]
      simp only [List.mem_append, List.mem_cons, true_and]
      tauto
    · next hj => simp [hj]
  refine ⟨fun j => ?_, fun {j k x} hj hk => ?_, fun x hx => ?_⟩
  · by_cases hj : j = i
    · subst hj
      rw [Function.update_self, List.map_append, List.map_cons]
      refine c.link ?_ l
      have := fresh j
      rw [hi] at this
      simp only [List.mem_append, not_or] at this
      simp [this]
    · rw [Function.update_of_ne hj]
      refine (r.circle j).frame fun a ha b hb => ?_
      refine l.linked w (hne j a ha) (hne j b hb) ?_
      rintro rfl
      exact r.disjoint (Ne.symm hj) hm hb
  · rw [hmem] at hj hk
    rcases hj with hj | ⟨hj, rfl⟩
    · rcases hk with hk | ⟨-, rfl⟩
      · exact r.unique hj hk
      · exact absurd hj (fresh j)
    · rcases hk with hk | ⟨hk, -⟩
      · exact absurd hk (fresh k)
      · exact hj.trans hk.symm
  · have hxi : ∀ j, x ∉ content j := fun j hj => hx j ((hmem j x).mpr (.inl hj))
    have hxt : x ≠ t := by
      rintro rfl
      exact hx i ((hmem i x).mpr (.inr ⟨rfl, rfl⟩))
    have hxm : cell x ≠ (post.map cell).headD (head i) := by
      intro he
      rw [← he] at hm
      simp only [List.mem_cons, reduceCtorEq, List.mem_map, RingNode.cell.injEq, exists_eq_right,
        false_or] at hm
      exact hxi i hm
    have hlink : Linked h' (cell x) (cell x) := by
      refine l.linked w (by simpa using hxt) (by simpa using hxt) hxm ?_
      simp [Linked, r.alone x hxi]
    exact Links.ext hlink.1 hlink.2

/-- Putting an element in before the head of a list appends it. -/
theorem append (r : Rings h content) (fresh : ∀ i, t ∉ content i)
    (l : LinkedBefore h h' (head i) (cell t)) :
    Rings h' (Function.update content i (content i ++ [t])) :=
  r.insert fresh (List.append_nil _).symm l

/-- Putting an element in before the node after the head makes it the first one. -/
theorem push (r : Rings h content) (fresh : ∀ i, t ∉ content i)
    (l : LinkedBefore h h' (h (head i)).next (cell t)) :
    Rings h' (Function.update content i (t :: content i)) := by
  rw [r.head_next] at l
  exact r.insert fresh (List.nil_append _).symm l

end Rings
