import OsesProject.Application.Sampling
import Mathlib.Algebra.GroupWithZero.Nat

/-!
# Which snapshots are coherent

A snapshot is coherent when its three values were measured in one iteration for its index, or are
the initial zeros. The arrays follow the last iteration for each index (`SlotInv`): its acceleration
and rotation have been stored whether they were measured or not, and its pressure if it was. So a
snapshot is coherent exactly when that iteration was complete, or there was none
(`snapshots_coherent_iff`).
-/

namespace OsesProject

open Machine

variable {F : Type}

namespace Outcome

/-- Both sensors have answered, and the barometer has data. -/
def Complete (o : Outcome) : Prop :=
  (o.accWrite && o.accRead) = true ∧ (o.gyroWrite && o.gyroRead) = true ∧
    (bmp280ReadUTP o).1 ≠ bmp280NoData ∧ (bmp280ReadUTP o).2 ≠ bmp280NoData

instance (o : Outcome) : Decidable o.Complete := by
  unfold Complete
  infer_instance

end Outcome

/-- The outcome of an iteration, by its number. -/
def iteration (history : List Outcome) (n : Nat) : Option Outcome := history.reverse[n]?

/-- The last iteration for an index, with its number. -/
def lastFor (i : Nat) : List Outcome → Option (Nat × Outcome)
  | [] => none
  | o :: history =>
    if history.length % numReadings = i then some (history.length, o) else lastFor i history

/-- The snapshot of the index `i` holds what one iteration for `i` has measured, or the initial
zeros. -/
def Coherent [Zero F] (f : SensorMath F) (i : Nat) (s : Sampling F) : Prop :=
  (∃ n o, iteration s.history n = some o ∧ n % numReadings = i ∧
    s.u0d = ⟨f.modulus (mpu6050ReadRaw o).1, .measured n⟩ ∧
    s.altd = ⟨f.bmp280CalcPf (bmp280ReadUTP o).2, .measured n⟩ ∧
    s.throtl = ⟨f.modulus (mpu6050ReadRaw o).2, .measured n⟩) ∨
  (lastFor i s.history = none ∧
    s.u0d = ⟨0, .initial⟩ ∧ s.altd = ⟨0, .initial⟩ ∧ s.throtl = ⟨0, .initial⟩)

/-- The last iteration for the index was complete, if there was one. -/
def Settled (i : Nat) (s : Sampling F) : Prop := ∀ r ∈ lastFor i s.history, r.2.Complete

theorem iteration_cons_self (o : Outcome) (history : List Outcome) :
    iteration (o :: history) history.length = some o := by
  simp [iteration]

theorem lastFor_some {i n : Nat} {o : Outcome} {history : List Outcome}
    (h : lastFor i history = some (n, o)) :
    n < history.length ∧ iteration history n = some o ∧ n % numReadings = i := by
  induction history with
  | nil => cases h
  | cons o' history ih =>
    rw [lastFor] at h
    split at h
    · next hi =>
      cases h
      exact ⟨Nat.lt_succ_self _, iteration_cons_self _ _, hi⟩
    · obtain ⟨hlt, hiter, hi⟩ := ih h
      refine ⟨Nat.lt_succ_of_lt hlt, ?_, hi⟩
      rw [iteration, List.reverse_cons, List.getElem?_append_left (by simpa using hlt)]
      exact hiter

/-- What the arrays hold at an index: the initial zeros before the first iteration for it, and then
the acceleration and the rotation of the last one, with its pressure if it has data. -/
structure SlotInv [Zero F] (f : SensorMath F) (s : Sampling F) : Prop where
  empty : ∀ i, lastFor i s.history = none →
    s.accV i = ⟨0, .initial⟩ ∧ s.baroV i = ⟨0, .initial⟩ ∧ s.gyroV i = ⟨0, .initial⟩
  acc : ∀ i n o, lastFor i s.history = some (n, o) → s.accV i =
    ⟨f.modulus (mpu6050ReadRaw o).1,
      if o.accWrite && o.accRead then .measured n else .unmeasured⟩
  gyro : ∀ i n o, lastFor i s.history = some (n, o) → s.gyroV i =
    ⟨f.modulus (mpu6050ReadRaw o).2,
      if o.gyroWrite && o.gyroRead then .measured n else .unmeasured⟩
  baro : ∀ i n o, lastFor i s.history = some (n, o) →
    if (bmp280ReadUTP o).1 ≠ bmp280NoData ∧ (bmp280ReadUTP o).2 ≠ bmp280NoData then
      s.baroV i = ⟨f.bmp280CalcPf (bmp280ReadUTP o).2, .measured n⟩
    else
      (s.baroV i).provenance ≠ .measured n
  past : ∀ i n, (s.baroV i).provenance = .measured n → n < s.history.length

/-! ## One critical section -/

variable {f : SensorMath F} {s s' : Sampling F}

theorem produce_accV (o : Outcome) (i : Nat) :
    (s.produce f o).accV i =
      if i = s.currRead then
        ⟨f.modulus (mpu6050ReadRaw o).1,
          if o.accWrite && o.accRead then .measured s.history.length else .unmeasured⟩
      else s.accV i := by
  simp [Sampling.produce, Function.update_apply]

theorem produce_gyroV (o : Outcome) (i : Nat) :
    (s.produce f o).gyroV i =
      if i = s.currRead then
        ⟨f.modulus (mpu6050ReadRaw o).2,
          if o.gyroWrite && o.gyroRead then .measured s.history.length else .unmeasured⟩
      else s.gyroV i := by
  simp [Sampling.produce, Function.update_apply]

theorem produce_baroV (o : Outcome) (i : Nat) :
    (s.produce f o).baroV i =
      if i = s.currRead ∧ (bmp280ReadUTP o).1 ≠ bmp280NoData ∧
          (bmp280ReadUTP o).2 ≠ bmp280NoData then
        ⟨f.bmp280CalcPf (bmp280ReadUTP o).2, .measured s.history.length⟩
      else s.baroV i := by
  by_cases hUT : (bmp280ReadUTP o).1 = bmp280NoData
  · simp [Sampling.produce, hUT]
  · by_cases hUP : (bmp280ReadUTP o).2 = bmp280NoData
    · simp [Sampling.produce, hUT, hUP]
    · simp [Sampling.produce, hUT, hUP, Function.update_apply]

/-- The last iteration for an index after one more. -/
theorem lastFor_produce (o : Outcome) (i : Nat) :
    lastFor i (s.produce f o).history =
      if i = s.currRead then some (s.history.length, o) else lastFor i s.history := by
  show lastFor i (o :: s.history) = _
  rw [lastFor, Sampling.currRead]
  simp only [eq_comm]

variable [Zero F]

theorem start_slotInv : SlotInv f (Sampling.start : Sampling F) where
  empty := fun _ _ => ⟨rfl, rfl, rfl⟩
  acc := fun _ _ _ h => by cases h
  gyro := fun _ _ _ h => by cases h
  baro := fun _ _ _ h => by cases h
  past := fun _ _ h => by cases h

/-- An iteration keeps the law of the arrays. -/
theorem SlotInv.produce (h : SlotInv f s) (o : Outcome) : SlotInv f (s.produce f o) where
  empty := by
    intro i hlast
    rw [lastFor_produce] at hlast
    split at hlast
    · cases hlast
    · next hi =>
      rw [produce_accV, produce_baroV, produce_gyroV, if_neg hi, if_neg hi,
        if_neg fun hb => hi hb.1]
      exact h.empty i hlast
  acc := by
    intro i n o' hlast
    rw [lastFor_produce] at hlast
    rw [produce_accV]
    split at hlast
    · next hi =>
      cases hlast
      rw [if_pos hi]
    · next hi =>
      rw [if_neg hi]
      exact h.acc i n o' hlast
  gyro := by
    intro i n o' hlast
    rw [lastFor_produce] at hlast
    rw [produce_gyroV]
    split at hlast
    · next hi =>
      cases hlast
      rw [if_pos hi]
    · next hi =>
      rw [if_neg hi]
      exact h.gyro i n o' hlast
  baro := by
    intro i n o' hlast
    rw [lastFor_produce] at hlast
    split at hlast
    · next hi =>
      cases hlast
      rw [produce_baroV]
      split
      · next hdata => rw [if_pos ⟨hi, hdata⟩]
      · next hdata =>
        -- the pressure that stays is of an iteration before
        rw [if_neg fun hb => hdata hb.2]
        exact fun hp => Nat.lt_irrefl _ (h.past i _ hp)
    · next hi =>
      have hsame : (s.produce f o).baroV i = s.baroV i := by
        rw [produce_baroV, if_neg fun hb => hi hb.1]
      rw [hsame]
      exact h.baro i n o' hlast
  past := by
    intro i n hp
    rw [produce_baroV] at hp
    show n < s.history.length + 1
    split at hp
    · cases hp
      exact Nat.lt_succ_self _
    · exact Nat.lt_succ_of_lt (h.past i n hp)

/-- Every critical section keeps the law of the arrays. -/
theorem SlotInv.step (h : SlotInv f s) {e : SamplingEvent} (hs : s.step f e = some s') :
    SlotInv f s' := by
  cases e with
  | produce o =>
    cases hs
    exact h.produce o
  | snapshot =>
    cases hs
    exact ⟨h.empty, h.acc, h.gyro, h.baro, h.past⟩

/-- A snapshot is coherent exactly when the last iteration for its index was complete. -/
theorem SlotInv.coherent_iff (h : SlotInv f s) :
    Coherent f s.index s.snapshot ↔ Settled s.index s := by
  constructor
  · rintro hcoh ⟨n, o⟩ hlast
    have hlast : lastFor s.index s.history = some (n, o) := hlast
    have hacc := h.acc _ _ _ hlast
    have hgyro := h.gyro _ _ _ hlast
    have hbaro := h.baro _ _ _ hlast
    rcases hcoh with ⟨m, o', -, -, hu0d, haltd, hthrotl⟩ | ⟨hnone, -⟩
    · -- the acceleration has the provenance of the last iteration, or none
      have hu0d : s.accV s.index = _ := hu0d
      have haltd : s.baroV s.index = _ := haltd
      have hthrotl : s.gyroV s.index = _ := hthrotl
      have hm : (o.accWrite && o.accRead) = true ∧ n = m := by
        have := congrArg Stamped.provenance (hacc.symm.trans hu0d)
        dsimp only at this
        split at this
        · next hok => exact ⟨hok, Provenance.measured.inj this⟩
        · cases this
      obtain ⟨hok, rfl⟩ := hm
      have hok' : (o.gyroWrite && o.gyroRead) = true := by
        have := congrArg Stamped.provenance (hgyro.symm.trans hthrotl)
        dsimp only at this
        split at this
        · next hok => exact hok
        · cases this
      refine ⟨hok, hok', ?_⟩
      split at hbaro
      · next hdata => exact hdata
      · exact absurd (congrArg Stamped.provenance haltd) hbaro
    · have hnone : lastFor s.index s.history = none := hnone
      rw [hlast] at hnone
      cases hnone
  · intro hset
    cases hlast : lastFor s.index s.history with
    | none =>
      obtain ⟨hacc, hbaro, hgyro⟩ := h.empty _ hlast
      exact .inr ⟨hlast, hacc, hbaro, hgyro⟩
    | some r =>
      obtain ⟨n, o⟩ := r
      obtain ⟨hacc, hgyro, hdata⟩ := hset (n, o) hlast
      obtain ⟨-, hiter, hi⟩ := lastFor_some hlast
      refine .inl ⟨n, o, hiter, hi, ?_, ?_, ?_⟩
      · exact (h.acc _ _ _ hlast).trans (by rw [if_pos hacc])
      · have hbaro := h.baro _ _ _ hlast
        rwa [if_pos hdata] at hbaro
      · exact (h.gyro _ _ _ hlast).trans (by rw [if_pos hgyro])

/-- **Which snapshots are coherent.** In every run of the producer's iterations, with any outcomes
of the sensors, and of the consumer's snapshots, in any order: each snapshot holds what one
iteration for its index has measured, or the initial zeros if there was none, if and only if each
snapshot comes when the last iteration for its index was complete or there was none. -/
theorem snapshots_coherent_iff (f : SensorMath F) (es : List SamplingEvent) :
    Each (Sampling.step f) (fun s e => e = .snapshot → Coherent f s.index s.snapshot)
        Sampling.start es ↔
      Each (Sampling.step f) (fun s e => e = .snapshot → Settled s.index s)
        Sampling.start es :=
  each_congr (I := SlotInv f) (fun _ _ _ h hs => h.step hs)
    (fun _ _ h => imp_congr_right fun _ => h.coherent_iff) start_slotInv

/-- The transfer that reads the acceleration fails, and the others do not. -/
def readFails : Outcome where
  accWrite := true
  accRead := false
  accBuffer := fun _ => 0x3B
  gyroWrite := true
  gyroRead := true
  gyroBuffer := fun _ => 1
  baroRead := true
  baroBuffer := fun _ => 0x50

/-- The acceleration of the first reading cannot be read: the consumer takes what the buffer held
with the pressure and the rotation of the reading. -/
theorem snapshot_incoherent :
    ¬Each (Sampling.step ⟨fun x => Nat.sqrt x.toNat, id⟩)
      (fun s e => e = .snapshot → Coherent ⟨fun x => Nat.sqrt x.toNat, id⟩ s.index s.snapshot)
      Sampling.start [.produce readFails, .snapshot] := by
  intro h
  rcases (h.2 _ rfl).1 rfl with ⟨n, o, -, -, hu0d, -⟩ | ⟨-, hu0d, -⟩
  · cases congrArg Stamped.provenance hu0d
  · cases congrArg Stamped.provenance hu0d

end OsesProject
