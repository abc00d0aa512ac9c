import OsesProject.Lib.CircularList

/-!
# Kernel service: the intrusive list of `rtservice.h`

The list functions, write for write. A heap gives every list node its two pointers; a null
pointer is a node like any other here, and no law below follows one.

Each function has its two pointer equations (`rtListInsertBefore_next` and so on): what a node's
pointer is afterwards, for any heap whatever, linked well or not. The laws for well-formed lists
(`rtListInsertBefore_snoc`, `rtListRemove_tail`) are read off them.
-/

namespace OsesProject

variable {ν : Type*} [DecidableEq ν]

/-- `a->next = b`. -/
def setNext (h : ν → Links ν) (a b : ν) : ν → Links ν :=
  Function.update h a { h a with next := b }

/-- `a->prev = b`. -/
def setPrev (h : ν → Links ν) (a b : ν) : ν → Links ν :=
  Function.update h a { h a with prev := b }

@[simp] theorem setNext_next (h : ν → Links ν) (a b c : ν) :
    (setNext h a b c).next = if c = a then b else (h c).next := by
  unfold setNext
  split <;> simp_all [Function.update]

@[simp] theorem setNext_prev (h : ν → Links ν) (a b c : ν) :
    (setNext h a b c).prev = (h c).prev := by
  unfold setNext
  by_cases hc : c = a <;> simp_all [Function.update]

@[simp] theorem setPrev_prev (h : ν → Links ν) (a b c : ν) :
    (setPrev h a b c).prev = if c = a then b else (h c).prev := by
  unfold setPrev
  split <;> simp_all [Function.update]

@[simp] theorem setPrev_next (h : ν → Links ν) (a b c : ν) :
    (setPrev h a b c).next = (h c).next := by
  unfold setPrev
  by_cases hc : c = a <;> simp_all [Function.update]

/-- `rt_list_init`. -/
def rtListInit (h : ν → Links ν) (l : ν) : ν → Links ν :=
  -- l->next = l->prev = l;
  setNext (setPrev h l l) l l

/-- `rt_list_insert_before`. -/
def rtListInsertBefore (h : ν → Links ν) (l n : ν) : ν → Links ν :=
  let h := setNext h (h l).prev n  -- l->prev->next = n;
  let h := setPrev h n (h l).prev  -- n->prev = l->prev;
  let h := setPrev h l n           -- l->prev = n;
  setNext h n l                    -- n->next = l;

/-- `rt_list_insert_after`. -/
def rtListInsertAfter (h : ν → Links ν) (l n : ν) : ν → Links ν :=
  let h := setPrev h (h l).next n  -- l->next->prev = n;
  let h := setNext h n (h l).next  -- n->next = l->next;
  let h := setNext h l n           -- l->next = n;
  setPrev h n l                    -- n->prev = l;

/-- `rt_list_remove`. -/
def rtListRemove (h : ν → Links ν) (n : ν) : ν → Links ν :=
  let h := setPrev h (h n).next (h n).prev  -- n->next->prev = n->prev;
  let h := setNext h (h n).prev (h n).next  -- n->prev->next = n->next;
  setNext (setPrev h n n) n n               -- n->next = n->prev = n;

/-- `rt_list_isempty`. -/
def rtListIsempty (h : ν → Links ν) (l : ν) : Bool := (h l).next = l

theorem rtListInit_next (h : ν → Links ν) (l a : ν) :
    (rtListInit h l a).next = if a = l then l else (h a).next := by
  simp [rtListInit]

theorem rtListInit_prev (h : ν → Links ν) (l a : ν) :
    (rtListInit h l a).prev = if a = l then l else (h a).prev := by
  simp [rtListInit]

theorem rtListInsertBefore_next (h : ν → Links ν) (l n a : ν) :
    (rtListInsertBefore h l n a).next =
      if a = n then l else if a = (h l).prev then n else (h a).next := by
  simp [rtListInsertBefore]

theorem rtListInsertBefore_prev (h : ν → Links ν) (l n a : ν) :
    (rtListInsertBefore h l n a).prev =
      if a = l then n else if a = n then (h l).prev else (h a).prev := by
  simp [rtListInsertBefore]

theorem rtListRemove_next (h : ν → Links ν) (n a : ν) :
    (rtListRemove h n a).next =
      if a = n then n else if a = (h n).prev then (h n).next else (h a).next := by
  simp [rtListRemove]

theorem rtListRemove_prev (h : ν → Links ν) (n a : ν) :
    (rtListRemove h n a).prev =
      if a = n then n else if a = (h n).next then (h n).prev else (h a).prev := by
  simp [rtListRemove]

variable {h : ν → Links ν} {l n : ν} {xs : List ν}

/-- The test the application makes, on the first node of the list instead of on the list itself,
answers whether a well-formed list is empty. -/
theorem rtListIsempty_next (c : CircularList h l xs) :
    rtListIsempty h (h l).next = true ↔ xs = [] := by
  rw [rtListIsempty, decide_eq_true_iff]
  exact c.next_next_eq_iff

/-- A list right after its initialisation is empty. -/
theorem rtListInit_nil (h : ν → Links ν) (l : ν) : CircularList (rtListInit h l) l [] :=
  CircularList.nil_iff.mpr ⟨by simp [rtListInit_next], by simp [rtListInit_prev]⟩

/-- Initialising a node outside a list and inserting it before the list node appends it. -/
theorem rtListInsertBefore_snoc (c : CircularList h l xs) (fresh : n ∉ l :: xs) :
    CircularList (rtListInsertBefore (rtListInit h n) l n) l (xs ++ [n]) := by
  have hmem : ∀ a ∈ l :: xs, a ≠ n := fun a ha => ne_of_mem_of_not_mem ha fresh
  have hne : l ≠ n := hmem l List.mem_cons_self
  have hprev : (rtListInit h n l).prev = xs.getLastD l := by
    rw [rtListInit_prev, if_neg hne]
    exact c.prev_eq
  have hlast : xs.getLastD l ∈ l :: xs := by
    rw [← List.getLast_eq_getLastD (by simp)]
    exact List.getLast_mem _
  refine c.snoc fresh ?_ ?_ ?_ ?_ ?_
  · refine Links.ext ?_ ?_
    · rw [rtListInsertBefore_next, if_pos rfl]
    · rw [rtListInsertBefore_prev, if_neg hne.symm, if_pos rfl]
      exact hprev
  · rw [rtListInsertBefore_next, if_neg (hmem _ hlast), if_pos hprev.symm]
  · rw [rtListInsertBefore_prev, if_pos rfl]
  · intro a ha hlast'
    rw [rtListInsertBefore_next, if_neg (hmem a ha), if_neg (hprev ▸ hlast'), rtListInit_next,
      if_neg (hmem a ha)]
  · intro a ha
    have hal : a ≠ l := ne_of_mem_of_not_mem ha (List.nodup_cons.mp c.nodup).1
    have han : a ≠ n := hmem a (List.mem_cons_of_mem _ ha)
    rw [rtListInsertBefore_prev, if_neg hal, if_neg han, rtListInit_prev, if_neg han]

/-- Removing the first node of a list leaves the rest of it. -/
theorem rtListRemove_tail {x : ν} (c : CircularList h l (x :: xs)) :
    CircularList (rtListRemove h x) l xs := by
  have hnd := c.nodup
  simp only [List.nodup_cons, List.mem_cons, not_or] at hnd
  have hprev : (h x).prev = l := by
    have := c.chain
    simp only [List.cons_append, List.isChain_cons_cons] at this
    exact this.1.2
  have hnext : (h x).next = xs.headD l := by
    have := c.chain
    cases xs with
    | nil =>
      simp only [List.cons_append, List.nil_append, List.isChain_cons_cons] at this
      exact this.2.1.1
    | cons y ys =>
      simp only [List.cons_append, List.isChain_cons_cons] at this
      exact this.2.1.1
  have hxs : ∀ a ∈ l :: xs, a ≠ x := by
    intro a ha
    rintro rfl
    rcases List.mem_cons.mp ha with ha | ha
    · exact hnd.1.1 ha.symm
    · exact hnd.2.1 ha
  have hhead : xs.headD l ∈ l :: xs := by
    cases xs <;> simp
  refine c.tail ?_ ?_ ?_ ?_
  · rw [rtListRemove_next, if_neg (hxs l List.mem_cons_self), if_pos hprev.symm, hnext]
  · rw [rtListRemove_prev, if_neg (hxs _ hhead), if_pos hnext.symm, hprev]
  · intro a ha
    have hal : a ≠ l := ne_of_mem_of_not_mem ha hnd.1.2
    rw [rtListRemove_next, if_neg (hxs a (List.mem_cons_of_mem _ ha)), if_neg (hprev ▸ hal)]
  · intro a ha hne
    rw [rtListRemove_prev, if_neg (hxs a ha), if_neg (hnext ▸ hne)]

end OsesProject
