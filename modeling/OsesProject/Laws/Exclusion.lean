import OsesProject.Laws.Actions
import OsesProject.Laws.Calls

/-!
# Mutual exclusion

`Exclusive`: a thread between the return of its take of a mutex and its release of it is the
mutex's owner, and a thread inside its take is the owner or on the list of the waiters. A mutex has
one owner, so no two threads are past their takes of one mutex at once (`Exclusive.unique`).

`rt_mutex_take` does not keep this by itself. A thread that is resumed while it waits returns from
its take as if it had the mutex, so `Exclusive.call` asks that no thread be resumed inside a take.
-/

set_option linter.unusedSectionVars false

namespace OsesProject

variable {T M A : Type} [DecidableEq T] [DecidableEq M] [DecidableEq A]

/-- A thread past its take of a mutex owns it; a thread inside its take owns it or waits for it. -/
structure Exclusive (x : Threads T M A) : Prop where
  inside : ∀ t m, m ∈ (x.pc t).inside → (x.k.mutex m).owner = some t
  asked : ∀ t m todo, x.pc t = .inTake m todo →
    (x.k.mutex m).owner = some t ∨ t ∈ (x.k.mutex m).suspendThread

namespace Exclusive

variable {x x' : Threads T M A}

/-- **At most one thread is past its take of a mutex.** -/
theorem unique (h : Exclusive x) {t u : T} {m : M} (ht : m ∈ (x.pc t).inside)
    (hu : m ∈ (x.pc u).inside) : t = u :=
  Option.some.inj ((h.inside t m ht).symm.trans (h.inside u m hu))

/-- When a thread asks for a mutex or is past its take of it, it is the owner or waits. -/
private theorem of_stack (h : Exclusive x) (hI : LockInv x) {t : T} {m : M}
    (hm : m ∈ (x.pc t).stack) :
    (x.k.mutex m).owner = some t ∨ t ∈ (x.k.mutex m).suspendThread := by
  cases hpc : x.pc t with
  | run todo =>
    rw [hpc] at hm
    exact .inl (h.inside t m (by rw [hpc]; exact hm))
  | inSleep todo =>
    rw [hpc] at hm
    exact .inl (h.inside t m (by rw [hpc]; exact hm))
  | inTake n todo =>
    rw [hpc] at hm
    have hhead := hI.inTake t n todo hpc
    cases hs : stackOf todo with
    | nil =>
      rw [hs] at hhead
      cases hhead
    | cons n' stk =>
      rw [hs] at hhead
      have hn : n' = n := Option.some.inj hhead
      subst hn
      have hm : m ∈ n' :: stk := hs ▸ hm
      rcases List.mem_cons.mp hm with hmn | hm
      · exact hmn ▸ h.asked t n' todo hpc
      · exact .inl (h.inside t m (by rw [hpc]; simpa [Pc.inside, hs] using hm))

/-- A thread moves on in its program, and no mutex changes. -/
private theorem goOn (h : Exclusive x) {t : T} {p : Pc M} {k' : Kernel T M A}
    (hmutex : k'.mutex = x.k.mutex) (hmine : ∀ n ∈ p.inside, (x.k.mutex n).owner = some t)
    (hp : ∀ m todo, p ≠ .inTake m todo) : Exclusive ⟨k', Function.update x.pc t p⟩ := by
  constructor
  · intro u n hn
    simp only [hmutex]
    by_cases hut : u = t
    · subst hut
      exact hmine n (by simpa using hn)
    · exact h.inside u n (by simpa [hut] using hn)
  · intro u n todo hu
    simp only [hmutex]
    by_cases hut : u = t
    · subst hut
      exact absurd (by simpa using hu) (hp n todo)
    · exact h.asked u n todo (by simpa [hut] using hu)

/-- A thread releases a mutex that it owns, and whoever waited for it owns it or waits still. -/
private theorem released (h : Exclusive x) (hI : LockInv x) {t : T} {m : M}
    {todo : List (Act M)} {k' : Kernel T M A}
    (hmine : ∀ n ∈ (x.pc t).stack, (x.k.mutex n).owner = some t)
    (hpc : x.pc t = .run (.release m :: todo)) (hown : (x.k.mutex m).owner = some t)
    (hother : ∀ n, n ≠ m → k'.mutex n = x.k.mutex n)
    (hm : ∀ v ∈ (x.k.mutex m).suspendThread,
      (k'.mutex m).owner = some v ∨ v ∈ (k'.mutex m).suspendThread) :
    Exclusive ⟨k', Function.update x.pc t (.run todo)⟩ := by
  obtain ⟨hstk, -⟩ := hI.nested_release hpc
  have hd := hI.distinct t
  rw [hstk, List.nodup_cons] at hd
  have hne : ∀ {v n}, v ≠ t → (x.k.mutex n).owner = some v → n ≠ m := by
    rintro v n hv hn rfl
    exact hv (Option.some.inj (hn.symm.trans hown))
  constructor
  · intro v n hn
    by_cases hvt : v = t
    · subst hvt
      simp only [Function.update_self, Pc.inside] at hn
      rw [hother n (ne_of_mem_of_not_mem hn hd.1)]
      exact hmine n (by rw [hstk]; exact List.mem_cons_of_mem _ hn)
    · simp only [Function.update_of_ne hvt] at hn
      have := h.inside v n hn
      rw [hother n (hne hvt this)]
      exact this
  · intro v n todo' hv
    by_cases hvt : v = t
    · subst hvt
      simp at hv
    · simp only [Function.update_of_ne hvt] at hv
      have hask := h.asked v n todo' hv
      by_cases hnm : n = m
      · subst hnm
        exact hm v (hask.resolve_left fun hv => hne hvt hv rfl)
      · simpa only [hother n hnm] using hask

/-- An action of a thread keeps mutual exclusion. -/
theorem act (h : Exclusive x) (hI : LockInv x) {t : T} {p : Pc M} {k' : Kernel T M A}
    (hrun : (x.k.thread t).stat = .running) (hk : x.k.actStep t (x.pc t) = some (p, k')) :
    Exclusive ⟨k', Function.update x.pc t p⟩ := by
  -- the running thread waits for nothing, so it owns all it has asked for
  have hmine : ∀ n ∈ (x.pc t).stack, (x.k.mutex n).owner = some t := fun n hn =>
    (h.of_stack hI hn).resolve_right (hI.running_not_waits hrun n)
  cases hI.acted hrun hk with
  | taken m todo hpc hp hown hmutex _ =>
    subst hp
    obtain ⟨hm, hstk, -⟩ := hI.nested_take hpc
    have hne : ∀ {u n}, (x.k.mutex n).owner = some u → n ≠ m := by
      rintro u n hu rfl
      rw [hown] at hu
      cases hu
    constructor
    · intro u n hn
      by_cases hut : u = t
      · subst hut
        simp only [Function.update_self, Pc.inside, hstk, List.mem_cons] at hn
        rw [hmutex]
        split
        · rfl
        · next hnm => exact hmine n (hn.resolve_left hnm)
      · simp only [Function.update_of_ne hut] at hn
        have := h.inside u n hn
        rw [hmutex, if_neg (hne this)]
        exact this
    · intro u n todo' hu
      by_cases hut : u = t
      · subst hut
        simp at hu
      · simp only [Function.update_of_ne hut] at hu
        rcases h.asked u n todo' hu with hu | hu
        · rw [hmutex, if_neg (hne hu)]
          exact .inl hu
        · rw [hmutex]
          split
          · next hnm =>
            subst hnm
            rw [(hI.free n hown).2.2] at hu
            cases hu
          · exact .inr hu
  | blocked m o todo hpc hp hown hmutex _ =>
    subst hp
    obtain ⟨hm, hstk, -⟩ := hI.nested_take hpc
    have howner : ∀ n, (k'.mutex n).owner = (x.k.mutex n).owner := by
      intro n
      rw [hmutex]
      split
      · next hnm => rw [hnm]
      · rfl
    constructor
    · intro u n hn
      rw [howner]
      by_cases hut : u = t
      · subst hut
        simp only [Function.update_self, Pc.inside, hstk, List.tail_cons] at hn
        exact hmine n hn
      · simp only [Function.update_of_ne hut] at hn
        exact h.inside u n hn
    · intro u n todo' hu
      simp only [howner]
      by_cases hut : u = t
      · subst hut
        simp only [Function.update_self, Pc.inTake.injEq] at hu
        obtain ⟨rfl, -⟩ := hu
        rw [hmutex, if_pos rfl]
        exact .inr (by simp)
      · simp only [Function.update_of_ne hut] at hu
        refine (h.asked u n todo' hu).imp_right fun hu => ?_
        rw [hmutex]
        split
        · next hnm =>
          subst hnm
          exact List.mem_append_left _ hu
        · exact hu
  | handed m u us todo hpc hp hown hw hmutex _ =>
    subst hp
    refine h.released hI hmine hpc hown (fun n hnm => by rw [hmutex, if_neg hnm]) ?_
    intro v hv
    rw [hmutex, if_pos rfl]
    rw [hw] at hv
    rcases List.mem_cons.mp hv with rfl | hv
    · exact .inl rfl
    · exact .inr hv
  | freed m todo hpc hp hown hw hmutex _ =>
    subst hp
    refine h.released hI hmine hpc hown (fun n hnm => by rw [hmutex, if_neg hnm]) ?_
    intro v hv
    rw [hw] at hv
    cases hv
  | refused m todo hpc hp hown hmutex _ =>
    obtain ⟨hstk, -⟩ := hI.nested_release hpc
    exact absurd (hmine m (by rw [hstk]; exact List.mem_cons_self)) hown
  | slept tick todo hpc hp _ hmutex _ =>
    subst hp
    refine h.goOn hmutex ?_ (by simp)
    intro n hn
    exact hmine n (by rw [hpc]; exact hn)
  | returned _ hp hmutex _ =>
    subst hp
    exact h.goOn hmutex hmine (by simp)

/-- **Every call keeps mutual exclusion, as long as no thread is resumed inside a take.** -/
theorem call (h : Exclusive x) (hI : LockInv x) {c : Call T M A} (hc : x.call c = some x')
    (hres : ∀ t m todo, c = .resume t → x.pc t ≠ .inTake m todo) : Exclusive x' := by
  by_cases hact : ∃ t, c = .act t
  · obtain ⟨t, rfl⟩ := hact
    simp only [Threads.call] at hc
    split at hc
    · next hg =>
      obtain ⟨⟨p, k'⟩, hk, rfl⟩ := Option.map_eq_some_iff.mp hc
      exact h.act hI hg.2 hk
    · cases hc
  · have hact : ∀ t, c ≠ .act t := fun t ht => hact ⟨t, ht⟩
    have hm := fun m => Threads.call_mutex hc hact m
    by_cases hload : ∃ t prog, c = .load t prog
    · obtain ⟨t, prog, rfl⟩ := hload
      simp only [Threads.call] at hc
      split at hc
      · next hg =>
        cases hc
        refine h.goOn rfl ?_ (by simp)
        intro n hn
        rw [Pc.inside, hg.2.stackOf_eq] at hn
        cases hn
      · cases hc
    · have hpc := Threads.call_pc hc hact fun t prog ht => hload ⟨t, prog, ht⟩
      constructor
      · intro t m hin
        rw [hpc] at hin
        rw [(hm m).1]
        exact h.inside t m hin
      · intro t m todo ht
        rw [hpc] at ht
        rw [(hm m).1]
        refine (h.asked t m todo ht).imp_right fun hw => (hm m).2.2 t ?_ hw
        -- a thread that is woken here is not inside a take, or does not wait
        intro hwake
        cases c with
        | resume u =>
          cases hwake
          exact hres t m todo rfl ht
        | timeout u =>
          cases hwake
          simp only [Threads.call] at hc
          split at hc
          · next hmem =>
            obtain ⟨todo', htodo⟩ := (hI.sleeps t hmem).1
            rw [ht] at htodo
            cases htodo
          · cases hc
        | startup u =>
          cases hwake
          obtain ⟨k', hk, -⟩ := Option.map_eq_some_iff.mp hc
          unfold Kernel.rtThreadStartup at hk
          split at hk
          · next hinit =>
            have := (hI.waits t m hw).2.1
            rw [hinit] at this
            cases this
          · cases hk
        | _ => cases hwake

end Exclusive

end OsesProject
