import OsesProject.Laws.Actions
import OsesProject.Laws.Calls

/-!
# Base priorities under priority inheritance

A thread's `current_priority` moves up while more urgent threads wait for its mutexes, and
`rt_mutex_release` puts it back to the priority it had when it took the mutex. The priority the
thread has of its own is therefore the one recorded with the outermost mutex it owns, or its
current one when it owns none: `Threads.basePriority`.

`Threads.call_basePriority`: takes, releases, hand-overs and inheritance never change anybody's
base priority. Only `rt_thread_control` and `rt_thread_startup` do, and `rt_thread_control` only
when the thread owns no mutex (`Threads.basePriority_control`): on a thread that owns one it
changes the current priority, until the release of the outermost one puts the old one back.

`Threads.Floor` bounds all of these priorities at once, so that no release makes the thread more
urgent than the bound; only a waiter does.
-/

set_option linter.unusedSectionVars false

namespace OsesProject.Threads

variable {T M A : Type} [DecidableEq T] [DecidableEq M] [DecidableEq A]

/-- The mutexes the thread owns, the innermost first. -/
def owned (x : Threads T M A) (t : T) : List M :=
  (x.pc t).stack.filter fun m => (x.k.mutex m).owner = some t

/-- The priority recorded with the outermost mutex the thread owns, or the current one. -/
def basePriority (x : Threads T M A) (t : T) : Nat :=
  match (x.owned t).getLast? with
  | none => (x.k.thread t).currentPriority
  | some m => (x.k.mutex m).originalPriority

variable {x x' : Threads T M A} {t u : T} {m : M}

theorem mem_owned : m ∈ x.owned t ↔ m ∈ (x.pc t).stack ∧ (x.k.mutex m).owner = some t := by
  simp [owned]

/-- A thread that owns no mutex has its own priority. -/
theorem basePriority_eq (h : x.owned t = []) :
    x.basePriority t = (x.k.thread t).currentPriority := by
  simp [basePriority, h]

theorem owned_eq_nil (h : ∀ m, (x.k.mutex m).owner ≠ some t) :
    x.owned t = [] := by
  refine List.filter_eq_nil_iff.mpr fun m _ => ?_
  simpa using h m

/-- The mutexes owned stay, and nothing that is recorded with them changes. -/
private theorem basePriority_congr (ho : x'.owned t = x.owned t)
    (hcur : x.owned t = [] →
      (x'.k.thread t).currentPriority = (x.k.thread t).currentPriority)
    (horig : ∀ m ∈ x.owned t,
      (x'.k.mutex m).originalPriority = (x.k.mutex m).originalPriority) :
    x'.basePriority t = x.basePriority t := by
  unfold basePriority
  rw [ho]
  cases hl : (x.owned t).getLast? with
  | none => exact hcur (List.getLast?_eq_none_iff.mp hl)
  | some m => exact horig m (List.mem_of_getLast? hl)

/-- An innermost mutex more, recorded with the current priority. -/
private theorem basePriority_push (ho : x'.owned t = m :: x.owned t)
    (hm : (x'.k.mutex m).originalPriority = (x.k.thread t).currentPriority)
    (horig : ∀ n ∈ x.owned t,
      (x'.k.mutex n).originalPriority = (x.k.mutex n).originalPriority) :
    x'.basePriority t = x.basePriority t := by
  unfold basePriority
  rw [ho]
  cases hs : x.owned t with
  | nil => exact hm
  | cons n ns =>
    rw [List.getLast?_cons_cons]
    cases hl : (n :: ns).getLast? with
    | none => simp at hl
    | some n' => exact horig n' (by rw [hs]; exact List.mem_of_getLast? hl)

/-- The mutexes owned are the same when the thread is where it was and owns of its stack what it
owned. -/
private theorem owned_congr (hs : (x'.pc t).stack = (x.pc t).stack)
    (ho : ∀ m ∈ (x.pc t).stack,
      ((x'.k.mutex m).owner = some t ↔ (x.k.mutex m).owner = some t)) :
    x'.owned t = x.owned t := by
  unfold owned
  rw [hs]
  exact List.filter_congr fun m hm => by simp [ho m hm]

/-- The innermost mutex of the stack becomes the thread's own. -/
private theorem basePriority_gain {stk : List M} (hs : (x'.pc t).stack = m :: stk) (hm : m ∉ stk)
    (ho : x.owned t = stk.filter fun n => (x.k.mutex n).owner = some t)
    (hown : (x'.k.mutex m).owner = some t)
    (horig : (x'.k.mutex m).originalPriority = (x.k.thread t).currentPriority)
    (hmutex : ∀ n, n ≠ m → x'.k.mutex n = x.k.mutex n) :
    x'.basePriority t = x.basePriority t := by
  have howned : x'.owned t = m :: x.owned t := by
    rw [ho, owned, hs, List.filter_cons_of_pos (by simpa using hown)]
    congr 1
    refine List.filter_congr fun n hn => ?_
    rw [hmutex n (ne_of_mem_of_not_mem hn hm)]
  apply basePriority_push howned horig
  intro n hn
  rw [ho] at hn
  rw [hmutex n (ne_of_mem_of_not_mem (List.mem_filter.mp hn).1 hm)]

/-- A mutex changes hands, and neither are the thread's. -/
private theorem basePriority_bystander (hs : (x'.pc t).stack = (x.pc t).stack)
    (hold : (x.k.mutex m).owner ≠ some t) (hnew : (x'.k.mutex m).owner ≠ some t)
    (hmutex : ∀ n, n ≠ m → x'.k.mutex n = x.k.mutex n)
    (hcur : (x'.k.thread t).currentPriority = (x.k.thread t).currentPriority) :
    x'.basePriority t = x.basePriority t := by
  refine basePriority_congr (owned_congr hs fun n _ => ?_) (fun _ => hcur) fun n hn => ?_
  · by_cases hnm : n = m
    · subst hnm
      exact iff_of_false hnew hold
    · rw [hmutex n hnm]
  · rw [hmutex n]
    rintro rfl
    exact hold (mem_owned.mp hn).2

/-- The base priority is read off the thread, the mutexes and the places. -/
theorem basePriority_frame (hpc : x'.pc = x.pc) (hm : ∀ m, x'.k.mutex m = x.k.mutex m)
    (ht : x'.k.thread t = x.k.thread t) : x'.basePriority t = x.basePriority t :=
  basePriority_congr (owned_congr (by rw [hpc]) fun m _ => by rw [hm])
    (fun _ => by rw [ht]) fun m _ => by rw [hm]

/-- An action changes nobody's base priority. -/
theorem act_basePriority (hI : LockInv x) {p : Pc M} {k' : Kernel T M A}
    (hrun : (x.k.thread t).stat = .running) (hk : x.k.actStep t (x.pc t) = some (p, k')) :
    (⟨k', Function.update x.pc t p⟩ : Threads T M A).basePriority u = x.basePriority u := by
  cases hI.acted hrun hk with
  | taken m todo hpc hp hown hmutex hprio =>
    subst hp
    obtain ⟨hm, hstk, -⟩ := hI.nested_take hpc
    have hothers (n : M) (hn : n ≠ m) : k'.mutex n = x.k.mutex n := by rw [hmutex, if_neg hn]
    by_cases hut : u = t
    · subst hut
      refine basePriority_gain (m := m) ?_ hm rfl ?_ ?_ hothers
      · simpa [Pc.stack, Pc.todo] using hstk
      · rw [hmutex, if_pos rfl]
      · rw [hmutex, if_pos rfl]
    · refine basePriority_bystander (m := m) ?_ ?_ ?_ hothers (hprio u)
      · simp [hut]
      · simp [hown]
      · simp [hmutex, Ne.symm hut]
  | blocked m o todo hpc hp hown hmutex hprio =>
    subst hp
    obtain ⟨hm, hstk, -⟩ := hI.nested_take hpc
    have hsame : ∀ n, (k'.mutex n).owner = (x.k.mutex n).owner ∧
        (k'.mutex n).originalPriority = (x.k.mutex n).originalPriority := by
      intro n
      rw [hmutex]
      split
      · next hnm =>
        subst hnm
        exact ⟨rfl, rfl⟩
      · exact ⟨rfl, rfl⟩
    refine basePriority_congr ?_ ?_ fun n _ => (hsame n).2
    · by_cases hut : u = t
      · subst hut
        unfold owned
        simp only [Function.update_self, Pc.stack, Pc.todo, hstk, (hsame _).1]
        rw [List.filter_cons_of_neg (by simpa using hI.take_not_owner hpc)]
      · exact owned_congr (by simp [hut]) fun n _ => by rw [(hsame n).1]
    · -- only the owner of the mutex inherits, and it owns a mutex
      intro hnil
      refine hprio u ?_
      rintro rfl
      have := mem_owned.mpr ⟨hI.owner_mem u m hown, hown⟩
      rw [hnil] at this
      cases this
  | handed m v us todo hpc hp hown hw hmutex hprio =>
    subst hp
    obtain ⟨hstk, -⟩ := hI.nested_release hpc
    have hd := hI.distinct t
    rw [hstk, List.nodup_cons] at hd
    have hothers (n : M) (hn : n ≠ m) : k'.mutex n = x.k.mutex n := by rw [hmutex, if_neg hn]
    obtain ⟨⟨todo', htodo⟩, -, hvm⟩ := hI.waits v m (by rw [hw]; exact List.mem_cons_self)
    have hvt : v ≠ t := fun he => hvm (he ▸ hown)
    by_cases hut : u = t
    · subst hut
      refine (basePriority_gain hstk hd.1 ?_ hown ?_ fun n hn => (hothers n hn).symm).symm
      · simp [owned, Pc.stack, Pc.todo]
      · simp [hprio]
    · by_cases huv : u = v
      · subst huv
        -- the new owner: its innermost mutex is the one it has been waiting for
        obtain ⟨stk, hs⟩ : ∃ stk, stackOf todo' = m :: stk := by
          have := hI.inTake u m todo' htodo
          cases hs : stackOf todo' with
          | nil =>
            rw [hs] at this
            cases this
          | cons n stk =>
            rw [hs] at this
            cases this
            exact ⟨stk, rfl⟩
        have hstack : (x.pc u).stack = m :: stk := by rw [htodo, Pc.stack, Pc.todo, hs]
        have hd' := hI.distinct u
        rw [hstack, List.nodup_cons] at hd'
        refine basePriority_gain (m := m) ?_ hd'.1 ?_ ?_ ?_ hothers
        · simpa [hut] using hstack
        · rw [owned, hstack, List.filter_cons_of_neg (by simpa using hvm)]
        · rw [hmutex, if_pos rfl]
        · rw [hmutex, if_pos rfl]
      · refine basePriority_bystander (m := m) ?_ ?_ ?_ hothers ?_
        · simp [hut]
        · simp [hown, Ne.symm hut]
        · simp [hmutex, Ne.symm huv]
        · simp [hprio, hut]
  | freed m todo hpc hp hown hw hmutex hprio =>
    subst hp
    obtain ⟨hstk, -⟩ := hI.nested_release hpc
    have hd := hI.distinct t
    rw [hstk, List.nodup_cons] at hd
    have hothers (n : M) (hn : n ≠ m) : k'.mutex n = x.k.mutex n := by rw [hmutex, if_neg hn]
    by_cases hut : u = t
    · subst hut
      refine (basePriority_gain hstk hd.1 ?_ hown ?_ fun n hn => (hothers n hn).symm).symm
      · simp [owned, Pc.stack, Pc.todo]
      · simp [hprio]
    · refine basePriority_bystander (m := m) ?_ ?_ ?_ hothers ?_
      · simp [hut]
      · simp [hown, Ne.symm hut]
      · simp [hmutex]
      · simp [hprio, hut]
  | refused m todo hpc hp hown hmutex hprio =>
    subst hp
    refine basePriority_congr ?_ (fun _ => hprio u) fun n _ => by rw [hmutex]
    by_cases hut : u = t
    · subst hut
      unfold owned
      rw [(hI.nested_release hpc).1, List.filter_cons_of_neg (by simpa using hown)]
      simp [Pc.stack, Pc.todo, hmutex]
    · exact owned_congr (by simp [hut]) fun n _ => by rw [hmutex]
  | slept tick todo hpc hp _ hmutex hprio =>
    subst hp
    refine basePriority_congr (owned_congr ?_ fun n _ => by rw [hmutex]) (fun _ => hprio u)
      fun n _ => by rw [hmutex]
    by_cases hut : u = t
    · subst hut
      simp [Pc.stack, Pc.todo, hpc, stackOf]
    · simp [hut]
  | returned _ hp hmutex hprio =>
    subst hp
    refine basePriority_congr (owned_congr ?_ fun n _ => by rw [hmutex]) (fun _ => hprio u)
      fun n _ => by rw [hmutex]
    by_cases hut : u = t
    · subst hut
      simp [Pc.stack, Pc.todo]
    · simp [hut]

/-- **Only `rt_thread_control` and `rt_thread_startup` change a base priority.** -/
theorem call_basePriority (hI : LockInv x) {c : Call T M A} (hc : x.call c = some x')
    (hctl : ¬c.Controls u) : x'.basePriority u = x.basePriority u := by
  by_cases hact : ∃ t, c = .act t
  · obtain ⟨t, rfl⟩ := hact
    simp only [Threads.call] at hc
    split at hc
    · next hg =>
      obtain ⟨⟨p, k'⟩, hk, rfl⟩ := Option.map_eq_some_iff.mp hc
      exact act_basePriority hI hg.2 hk
    · cases hc
  · have hact : ∀ t, c ≠ .act t := fun t ht => hact ⟨t, ht⟩
    have hm := fun m => Threads.call_mutex hc hact m
    refine basePriority_congr (owned_congr ?_ fun n _ => by rw [(hm n).1])
      (fun _ => Threads.call_priority hc hact hctl) fun n _ => (hm n).2.1
    by_cases hload : ∃ t prog, c = .load t prog
    · obtain ⟨t, prog, rfl⟩ := hload
      simp only [Threads.call] at hc
      split at hc
      · next hg =>
        cases hc
        by_cases hut : u = t
        · subst hut
          simp [Pc.stack, Pc.todo, hg.1, hg.2.stackOf_eq, stackOf]
        · simp [hut]
      · cases hc
    · rw [Threads.call_pc hc hact fun t prog ht => hload ⟨t, prog, ht⟩]

/-- A thread outside its programs owns no mutex. -/
theorem owned_idle (ht : x.pc t = .run []) : x.owned t = [] := by
  simp [owned, ht, Pc.stack, Pc.todo, stackOf]

/-- Nobody but those who set it changes the priority of a thread outside its programs. -/
theorem call_priority_idle (hI : LockInv x) {c : Call T M A} (hc : x.call c = some x')
    (hpc : x.pc u = .run []) (hpc' : x'.pc u = .run []) (hctl : ¬c.Controls u) :
    (x'.k.thread u).currentPriority = (x.k.thread u).currentPriority := by
  rw [← basePriority_eq (owned_idle hpc), ← basePriority_eq (owned_idle hpc')]
  exact call_basePriority hI hc hctl

/-- `rt_thread_control` sets the base priority of a thread that owns no mutex, and of no other. -/
theorem basePriority_control (priority : Nat) :
    (⟨x.k.rtThreadChangePriority t priority, x.pc⟩ : Threads T M A).basePriority t =
      if x.owned t = [] then priority else x.basePriority t := by
  have ho : (⟨x.k.rtThreadChangePriority t priority, x.pc⟩ : Threads T M A).owned t =
      x.owned t := rfl
  split
  · next hnil =>
    rw [basePriority_eq (ho.trans hnil), Kernel.rtThreadChangePriority_priority, if_pos rfl]
  · next hne => exact basePriority_congr ho (fun hnil => absurd hnil hne) fun _ _ => rfl

/-- So does `rt_thread_startup`, to the priority the thread was initialised with. -/
theorem basePriority_startup (hc : x.call (.startup t) = some x') :
    x'.basePriority t =
      if x.owned t = [] then (x.k.thread t).initPriority else x.basePriority t := by
  have hm := fun m => Threads.call_mutex hc (by simp) m
  have ho : x'.owned t = x.owned t :=
    owned_congr (by rw [Threads.call_pc hc (by simp) (by simp)]) fun m _ => by rw [(hm m).1]
  split
  · next hnil =>
    rw [basePriority_eq (ho.trans hnil)]
    obtain ⟨k', hk, rfl⟩ := Option.map_eq_some_iff.mp hc
    unfold Kernel.rtThreadStartup at hk
    split at hk
    · cases hk
      simp
    · cases hk
  · next hne => exact basePriority_congr ho (fun hnil => absurd hnil hne) fun m _ => (hm m).2.1

/-! ## A bound on the priorities a thread can get back -/

/-- The thread's priority, and each one recorded with a mutex it owns, is no more urgent than
`b`. -/
structure Floor (x : Threads T M A) (t : T) (b : Nat) : Prop where
  current : b ≤ (x.k.thread t).currentPriority
  recorded : ∀ m, (x.k.mutex m).owner = some t → b ≤ (x.k.mutex m).originalPriority

/-- The bound is kept by the actions of everybody, except that a thread asks for a mutex the bounded
one owns: it may hand down its priority. -/
theorem Floor.act {b : Nat} (hF : Floor x u b) (hI : LockInv x) {p : Pc M} {k' : Kernel T M A}
    (hrun : (x.k.thread t).stat = .running) (hk : x.k.actStep t (x.pc t) = some (p, k'))
    (hasks : ∀ m todo, x.pc t = .run (.take m :: todo) → (x.k.mutex m).owner ≠ some u) :
    Floor (⟨k', Function.update x.pc t p⟩ : Threads T M A) u b := by
  have same : (∀ v, (k'.thread v).currentPriority = (x.k.thread v).currentPriority) →
      k'.mutex = x.k.mutex → Floor (⟨k', Function.update x.pc t p⟩ : Threads T M A) u b := by
    intro hprio hmutex
    refine ⟨?_, fun n hn => ?_⟩
    · rw [hprio]
      exact hF.current
    · simp only [hmutex] at hn ⊢
      exact hF.recorded n hn
  -- a release gives its thread back the priority recorded with the mutex
  have released : ∀ {m : M}, (x.k.mutex m).owner = some t →
      (∀ v, (k'.thread v).currentPriority =
        if v = t then (x.k.mutex m).originalPriority else (x.k.thread v).currentPriority) →
      b ≤ (k'.thread u).currentPriority := by
    intro m hown hprio
    rw [hprio]
    split
    · next hut =>
      subst hut
      exact hF.recorded m hown
    · exact hF.current
  cases hI.acted hrun hk with
  | taken m todo hpc hp hown hmutex hprio =>
    refine ⟨by rw [hprio]; exact hF.current, fun n hn => ?_⟩
    simp only [hmutex] at hn ⊢
    split at hn
    · next hnm =>
      cases hn
      rw [if_pos hnm]
      exact hF.current
    · next hnm =>
      rw [if_neg hnm]
      exact hF.recorded n hn
  | blocked m o todo hpc hp hown hmutex hprio =>
    have huo : u ≠ o := by
      rintro rfl
      exact hasks m todo hpc hown
    refine ⟨by rw [hprio u huo]; exact hF.current, fun n hn => ?_⟩
    simp only [hmutex] at hn ⊢
    split at hn
    · next hnm =>
      subst hnm
      rw [if_pos rfl]
      exact hF.recorded n hn
    · next hnm =>
      rw [if_neg hnm]
      exact hF.recorded n hn
  | handed m v us todo hpc hp hown hw hmutex hprio =>
    refine ⟨released hown hprio, fun n hn => ?_⟩
    simp only [hmutex] at hn ⊢
    split at hn
    · next hnm =>
      cases hn
      rw [if_pos hnm]
      exact hF.current
    · next hnm =>
      rw [if_neg hnm]
      exact hF.recorded n hn
  | freed m todo hpc hp hown hw hmutex hprio =>
    refine ⟨released hown hprio, fun n hn => ?_⟩
    simp only [hmutex] at hn ⊢
    split at hn
    · cases hn
    · next hnm =>
      rw [if_neg hnm]
      exact hF.recorded n hn
  | refused m todo hpc hp hown hmutex hprio => exact same hprio hmutex
  | slept tick todo hpc hp _ hmutex hprio => exact same hprio hmutex
  | returned _ hp hmutex hprio => exact same hprio hmutex

/-- **No call makes a thread more urgent than the bound**, but one that sets its priority and a
take of a mutex it owns. -/
theorem Floor.call {b : Nat} (hF : Floor x u b) (hI : LockInv x) {c : Call T M A}
    (hc : x.call c = some x') (hctl : ¬c.Controls u)
    (hasks : ∀ t m todo, c = .act t → x.pc t = .run (.take m :: todo) →
      (x.k.mutex m).owner ≠ some u) : Floor x' u b := by
  by_cases hact : ∃ t, c = .act t
  · obtain ⟨t, rfl⟩ := hact
    simp only [Threads.call] at hc
    split at hc
    · next hg =>
      obtain ⟨⟨p, k'⟩, hk, rfl⟩ := Option.map_eq_some_iff.mp hc
      exact hF.act hI hg.2 hk fun m todo => hasks t m todo rfl
    · cases hc
  · have hact : ∀ t, c ≠ .act t := fun t ht => hact ⟨t, ht⟩
    refine ⟨?_, fun m hm => ?_⟩
    · rw [Threads.call_priority hc hact hctl]
      exact hF.current
    · obtain ⟨hown, horig, -⟩ := Threads.call_mutex hc hact m
      rw [hown] at hm
      rw [horig]
      exact hF.recorded m hm

end OsesProject.Threads
