import OsesProject.Laws.System
import OsesProject.Application.Procedure
import Mathlib.Logic.Relation

/-!
# No deadlock

The mutexes have a rank: `raw_mutex` and `bench_mutex` come before the locks of the buses. Every
program takes a mutex only inside mutexes of lower rank (`Ranked`), on its error paths too: the bus
drivers release the lock of their bus however a transfer ends. The owner of a mutex has asked for it
and not released it, so along a chain of threads that wait for each other the ranks go up, and the
chain does not close (`RankInv.acyclic`). This holds of every run whatever, one in which the server
is woken inside `rt_mutex_take` included.
-/

set_option linter.unusedSectionVars false

namespace OsesProject

open Machine

variable {T M A : Type} [DecidableEq T] [DecidableEq M] [DecidableEq A]

/-! ## Ranks -/

section Rank

variable (rank : M → Nat)

/-- A program takes a mutex only inside mutexes of lower rank. -/
def Ranked : List (Act M) → Prop
  | [] => True
  | .take m :: todo => (∀ n ∈ (stackOf todo).tail, rank n < rank m) ∧ Ranked todo
  | .release _ :: todo => Ranked todo
  | .delay _ :: todo => Ranked todo

/-- What is left of a thread's program is ranked, and so is the take it is inside. -/
def Pc.Ranked (p : Pc M) : Prop :=
  OsesProject.Ranked rank p.todo ∧
    ∀ m todo, p = .inTake m todo → ∀ n ∈ (stackOf todo).tail, rank n < rank m

/-- Every thread is in a ranked program. -/
def RankInv (x : Threads T M A) : Prop := ∀ t, (x.pc t).Ranked rank

/-- A thread waits for another: it is on the list of a mutex that the other owns. -/
def WaitsFor (k : Kernel T M A) (t u : T) : Prop :=
  ∃ m, t ∈ (k.mutex m).suspendThread ∧ (k.mutex m).owner = some u

variable {rank} {x x' : Threads T M A}

/-- An action leaves a ranked program. -/
theorem Pc.Ranked.act {k k' : Kernel T M A} {t : T} {p p' : Pc M} (h : p.Ranked rank)
    (hk : k.actStep t p = some (p', k')) : p'.Ranked rank := by
  have hrun : ∀ {todo}, OsesProject.Ranked rank todo → (Pc.run todo).Ranked rank :=
    fun h => ⟨h, by intro m todo he; cases he⟩
  cases p with
  | run todo =>
    cases todo with
    | nil => cases hk
    | cons a todo =>
      cases a with
      | take m =>
        simp only [Kernel.actStep] at hk
        split at hk
        · cases hk
          refine ⟨h.1.2, fun m' todo' he => ?_⟩
          cases he
          exact h.1.1
        · cases hk
          exact hrun h.1.2
      | release m =>
        cases hk
        exact hrun h.1
      | delay tick =>
        simp only [Kernel.actStep, Option.map_eq_some_iff] at hk
        obtain ⟨k'', -, he⟩ := hk
        cases he
        exact ⟨h.1, by intro m todo he; cases he⟩
  | inTake m todo =>
    cases hk
    exact hrun h.1
  | inSleep todo =>
    cases hk
    exact hrun h.1

/-- A call keeps the threads in ranked programs when the ones they begin are. -/
theorem RankInv.call (h : RankInv rank x) {c : Call T M A} (hc : x.call c = some x')
    (hload : ∀ t prog, c = .load t prog → Ranked rank prog) : RankInv rank x' := by
  have hupdate : ∀ t p, Pc.Ranked rank p → ∀ u, (Function.update x.pc t p u).Ranked rank := by
    intro t p hp u
    by_cases hu : u = t
    · subst hu
      simpa using hp
    · simpa [hu] using h u
  by_cases hact : ∃ t, c = .act t
  · obtain ⟨t, rfl⟩ := hact
    simp only [Threads.call] at hc
    split at hc
    · obtain ⟨⟨p, k⟩, hk, rfl⟩ := Option.map_eq_some_iff.mp hc
      exact hupdate t p ((h t).act hk)
    · cases hc
  · by_cases hl : ∃ t prog, c = .load t prog
    · obtain ⟨t, prog, rfl⟩ := hl
      simp only [Threads.call] at hc
      split at hc
      · cases hc
        refine hupdate t (.run prog) ⟨hload t prog rfl, ?_⟩
        intro m todo he
        cases he
      · cases hc
    · intro t
      rw [Threads.call_pc hc (fun t ht => hact ⟨t, ht⟩) fun t prog ht => hl ⟨t, prog, ht⟩]
      exact h t

/-- A thread that owns a mutex and waits for another one waits for one of higher rank. -/
theorem RankInv.rank_lt (h : RankInv rank x) (hI : LockInv x) {t : T} {m n : M}
    (hown : (x.k.mutex m).owner = some t) (hwait : t ∈ (x.k.mutex n).suspendThread) :
    rank m < rank n := by
  obtain ⟨⟨todo, hpc⟩, -, hne⟩ := hI.waits t n hwait
  have hmem := hI.owner_mem t m hown
  have hhead := hI.inTake t n todo hpc
  rw [hpc] at hmem
  have hmem : m ∈ stackOf todo := hmem
  cases hstk : stackOf todo with
  | nil =>
    rw [hstk] at hhead
    cases hhead
  | cons n' stk =>
    rw [hstk] at hhead hmem
    cases hhead
    rcases List.mem_cons.mp hmem with rfl | hmem
    · exact absurd hown hne
    · exact (h t).2 n todo hpc m (by rw [hstk]; exact hmem)

/-- **The threads that wait for each other form no cycle.** -/
theorem RankInv.acyclic (h : RankInv rank x) (hI : LockInv x) (t : T) :
    ¬Relation.TransGen (WaitsFor x.k) t t := by
  -- along a chain the rank of the mutex waited for goes up
  have hchain : ∀ {u}, Relation.TransGen (WaitsFor x.k) t u →
      ∃ m n, t ∈ (x.k.mutex m).suspendThread ∧ (x.k.mutex n).owner = some u ∧
        rank m ≤ rank n := by
    intro u hu
    induction hu with
    | single hw =>
      obtain ⟨m, ht, hown⟩ := hw
      exact ⟨m, m, ht, hown, Nat.le_refl _⟩
    | tail _ hw ih =>
      obtain ⟨m, n, ht, hown, hle⟩ := ih
      obtain ⟨n', hwait, hown'⟩ := hw
      exact ⟨m, n', ht, hown', hle.trans (h.rank_lt hI hown hwait).le⟩
  intro hcycle
  obtain ⟨m, n, ht, hown, hle⟩ := hchain hcycle
  exact Nat.lt_irrefl _ (Nat.lt_of_le_of_lt hle (h.rank_lt hI hown ht))

end Rank

/-! ## The application's locks -/

/-- The locks of the buses come behind the mutexes of the application. -/
def Lock.rank : Lock → Nat
  | .raw | .bench => 0
  | .spi | .i2c => 1

/-- Transfers on a bus inside mutexes of the application. -/
theorem Ranked.transfers {bus : Lock} {todo : List (Act Lock)} (h : Ranked Lock.rank todo)
    (hstk : ∀ m ∈ stackOf todo, m.rank < bus.rank) (n : Nat) :
    Ranked Lock.rank (transfers bus n ++ todo) ∧
      stackOf (transfers bus n ++ todo) = stackOf todo := by
  induction n with
  | zero => exact ⟨h, rfl⟩
  | succ n ih =>
    rw [OsesProject.transfers, List.replicate_succ, List.flatten_cons, List.append_assoc]
    obtain ⟨hranked, hsame⟩ := ih
    refine ⟨⟨?_, hranked⟩, hsame⟩
    intro m hm
    exact hstk m (hsame ▸ hm)

theorem thdFun_ranked (a : Task) (polls : Nat) : Ranked Lock.rank (thdFun a polls) := by
  have hlow : ∀ {m n : Lock}, n.rank = 0 → m ∈ stackOf [.release n] → m.rank < Lock.spi.rank := by
    intro m n hn hm
    cases List.mem_singleton.mp hm
    rw [hn]
    decide
  have htask : ∀ (m : Lock) (n : Nat), m.rank = 0 →
      Ranked Lock.rank (.take m :: (transfers .spi n ++ [.release m])) ∧
        stackOf (.take m :: (transfers .spi n ++ [.release m])) = [] := by
    intro m n hm
    have hrelease : Ranked Lock.rank [.release m] := trivial
    obtain ⟨hranked, hstk⟩ := hrelease.transfers (fun _ h => hlow hm h) n
    refine ⟨⟨?_, hranked⟩, ?_⟩
    · rw [hstk]
      intro m hm
      cases hm
    · show (stackOf (transfers .spi n ++ [.release m])).tail = []
      rw [hstk]
      rfl
  have hwrite : ∀ m : Lock, m.rank = 0 → Ranked Lock.rank (writeMemAsync m polls) := by
    intro m hm
    obtain ⟨hranked, hstk⟩ := htask m 3 hm
    unfold writeMemAsync
    split
    · exact hranked
    · refine (Ranked.transfers hranked ?_ _).1
      rw [hstk]
      intro n hn
      cases hn
  cases a with
  | writeRawMemAsync => exact hwrite .raw rfl
  | readRawMemAsync => exact (htask .raw 1 rfl).1
  | writeBenchMemAsync => exact hwrite .bench rfl
  | readBenchMemAsync => exact (htask .bench 1 rfl).1

instance Ranked.decidable (rank : M → Nat) : ∀ prog, Decidable (Ranked rank prog)
  | [] => .isTrue trivial
  | .take m :: todo =>
    have := Ranked.decidable rank todo
    inferInstanceAs (Decidable ((∀ n ∈ (stackOf todo).tail, rank n < rank m) ∧ Ranked rank todo))
  | .release _ :: todo => Ranked.decidable rank todo
  | .delay _ :: todo => Ranked.decidable rank todo

theorem threadRound_ranked (t : Tid) (round : Nat) : Ranked Lock.rank (threadRound t round) := by
  cases t with
  | producer =>
    show Ranked Lock.rank (producerEntry round)
    unfold producerEntry
    split <;> decide
  | consumer =>
    show Ranked Lock.rank (consumerEntry round)
    cases round with
    | zero => decide
    | succ round =>
      rw [consumerEntry]
      split <;> decide
  | server | main | idle => exact trivial

/-- The programs that threads begin are the tasks and the rounds of the loops. -/
theorem calls_load {cfg : Config Task} {s : State Task} {e : Event Task} {t : Tid}
    {prog : List (Act Lock)} (h : .load t prog ∈ calls cfg s e) :
    (∃ a choice, prog = cfg.body a choice) ∨ prog = cfg.round t (s.rounds t) := by
  obtain ⟨choice, rfl⟩ : ∃ choice, e = .thread t choice := origin_of_mem h
  cases t with
  | server =>
    simp only [calls, serverCalls] at h
    split at h
    case h_2 a _ =>
      simp only [List.mem_singleton, Call.load.injEq, true_and] at h
      exact .inl ⟨a, choice, h⟩
    case h_3 => split at h <;> simp at h
    all_goals simp at h
  | main =>
    simp only [calls, mainCalls] at h
    split at h <;> simp at h
  | producer | consumer | idle =>
    simp only [calls] at h
    split at h
    · simp only [List.mem_singleton, Call.load.injEq, true_and] at h
      exact .inr h
    · simp at h

/-- **No deadlock.** In every state of every run of the producer, the consumer, the server's tasks,
the buttons and the timers: no threads wait for each other in a cycle, and a thread at the end of a
task or of a round of its loop owns no lock. -/
theorem no_deadlock (capacity period priority : Nat) (memory : Nat → UInt8) (caller tick : Nat)
    {s : State Task}
    (hreach : Reach (step (application capacity period priority memory)) (fun _ _ => True)
      (afterInit (application capacity period priority memory) caller tick) s) :
    (∀ t, ¬Relation.TransGen (WaitsFor s.k) t t) ∧
      ∀ t m, s.pc t = .run [] → (s.k.mutex m).owner ≠ some t := by
  have hinv := hreach.invariant (fun s => SystemInv s ∧ RankInv Lock.rank s.threads)
    ⟨initial_systemInv _ caller tick _ _, fun _ => ⟨trivial, by intro m todo he; cases he⟩⟩ ?_
  · obtain ⟨hI, hR⟩ := hinv
    refine ⟨hR.acyclic hI.locks, fun t m hpc hown => ?_⟩
    have hmem : m ∈ (s.pc t).stack := hI.locks.owner_mem t m hown
    rw [hpc] at hmem
    cases hmem
  · rintro s e s' ⟨hI, hR⟩ - h
    refine ⟨hI.step h, run_invariant (RankInv Lock.rank) ?_ hR (step_calls h)⟩
    intro c hc x x' hx hcall
    refine hx.call hcall ?_
    rintro t prog rfl
    obtain ⟨a, choice, rfl⟩ | rfl := calls_load hc
    · exact thdFun_ranked a choice
    · exact threadRound_ranked t _

open Event in
/-- A press while the producer sleeps inside its first reading, and the server up to its wait for
`raw_mutex`. -/
def serverWaits : List (Event Task) :=
  startUp ++ [press .raw, switch .server] ++ List.replicate 7 (thread .server 0)

/-- The server waits for the producer, which waits for nobody. -/
theorem no_deadlock_serverWaits :
    ∃ s, run (step (board fun _ => 0)) (afterInit (board fun _ => 0) mainPriority 0) serverWaits =
        some s ∧ WaitsFor s.k .server .producer ∧
      (∀ t, ¬Relation.TransGen (WaitsFor s.k) t t) ∧
      ∀ t m, s.pc t = .run [] → (s.k.mutex m).owner ≠ some t := by
  have hrun : ((run (step (board fun _ => 0)) (afterInit (board fun _ => 0) mainPriority 0)
      serverWaits).map fun s => ((s.k.mutex .raw).suspendThread, (s.k.mutex .raw).owner)) =
      some ([.server], some .producer) := by decide +kernel
  obtain ⟨s, hs, hd⟩ := Option.map_eq_some_iff.mp hrun
  obtain ⟨hlist, hown⟩ := Prod.mk.inj hd
  exact ⟨s, hs, ⟨.raw, by rw [hlist]; exact List.mem_singleton.mpr rfl, hown⟩,
    no_deadlock 1000 205000 17 (fun _ => 0) mainPriority 0 (.of_each .refl (by decide +kernel) hs)⟩

end OsesProject
