import OsesProject.Laws.FlashLog
import Mathlib.Data.Rat.Lemmas

/-!
# Encoding and decoding a record

The encoder converts each value to an 8-bit integer for its low byte and to a 32-bit one for the
others, both unsigned. The language defines such a conversion only for a value that fits the target
type after truncation, so a value is encoded as it should be exactly when its integer part is below
256 and not negative, and then it is decoded to it (`decode_encode_iff`).
-/

namespace OsesProject

open Machine

/-- The truncated value fits an unsigned type of `n` bits. -/
def FitsUnsigned (n : Nat) (v : ℚ) : Prop := 0 ≤ truncate v ∧ truncate v < 2 ^ n

instance (n : Nat) (v : ℚ) : Decidable (FitsUnsigned n v) := by
  unfold FitsUnsigned
  infer_instance

/-- The conversions are those of the language, where it defines them. -/
structure Conversion.Follows (conv : Conversion ℚ) : Prop where
  toUint8 : ∀ v, FitsUnsigned 8 v → ((conv.toUint8 v).toNat : ℤ) = truncate v
  toUint32 : ∀ v, FitsUnsigned 32 v → ((conv.toUint32 v).toNat : ℤ) = truncate v

/-- Every conversion that the encoder makes of the value is defined: one to `rt_uint8_t` and three
to `rt_uint32_t`. -/
def Encodes (v : ℚ) : Prop :=
  FitsUnsigned 8 v ∧ FitsUnsigned 32 v ∧ FitsUnsigned 32 v ∧ FitsUnsigned 32 v

theorem encodes_iff (v : ℚ) : Encodes v ↔ 0 ≤ truncate v ∧ truncate v < 256 := by
  unfold Encodes FitsUnsigned
  omega

theorem truncate_intCast (n : ℤ) : truncate n = n := by
  rw [truncate, Rat.num_intCast, Rat.den_intCast]
  exact Int.tdiv_one n

theorem shifted_zero (k : Nat) : shifted 0 k = 0 := by
  have hzero : ((0 : UInt8).toNat : ℤ) * 2 ^ k = 0 := by simp
  unfold shifted
  rw [hzero]
  exact Int.zero_bmod

/-- The bytes of a value that is encoded as it should be. -/
theorem encode_eq {conv : Conversion ℚ} (hconv : conv.Follows) {v : ℚ} (h : Encodes v) :
    ∃ b : UInt8, encode conv v = [b, 0, 0, 0] ∧ (b.toNat : ℤ) = truncate v := by
  obtain ⟨hge, hlt⟩ := (encodes_iff v).mp h
  have hword := hconv.toUint32 v h.2.1
  have hsmall : (conv.toUint32 v).toNat < 256 := by omega
  have hshift : ∀ k : UInt32, k = 8 ∨ k = 16 ∨ k = 24 → conv.toUint32 v >>> k = 0 := by
    rintro k (rfl | rfl | rfl) <;> rw [← UInt32.toNat_inj] <;>
      simp [Nat.shiftRight_eq_div_pow] <;> omega
  refine ⟨conv.toUint8 v, ?_, hconv.toUint8 v h.1⟩
  rw [encode, hshift 8 (by simp), hshift 16 (by simp), hshift 24 (by simp)]
  rfl

/-- Decoding undoes the encoding of a value before whatever follows it. -/
theorem decode_encode_append {conv : Conversion ℚ} (hconv : conv.Follows) {v : ℚ} (h : Encodes v)
    (rd : List UInt8) : decode (encode conv v ++ rd) = truncate v :: decode rd := by
  obtain ⟨b, hb, hv⟩ := encode_eq hconv h
  rw [hb, ← hv]
  show truncate ((b.toNat : ℚ) + shifted 0 8 + shifted 0 16 + shifted 0 24) :: decode rd = _
  have hsum : (b.toNat : ℚ) + shifted 0 8 + shifted 0 16 + shifted 0 24 = ((b.toNat : ℤ) : ℚ) := by
    simp [shifted_zero]
  rw [hsum, truncate_intCast]

/-- Decoding undoes the encoding of values one after the other. -/
theorem decode_flatMap_encode {conv : Conversion ℚ} (hconv : conv.Follows) {vs : List ℚ}
    (h : ∀ v ∈ vs, Encodes v) : decode (vs.flatMap (encode conv)) = vs.map truncate := by
  induction vs with
  | nil => rfl
  | cons v vs ih =>
    rw [List.flatMap_cons, decode_encode_append hconv (h v List.mem_cons_self),
      ih fun w hw => h w (List.mem_cons_of_mem _ hw), List.map_cons]

/-- **When decoding undoes encoding.** For every vector of results and every triple of readings: all
conversions of the encoder are defined, and the decoder gets the truncated values in their order, if
and only if every value truncates to one of 0 to 255. -/
theorem decode_encode_iff (conv : Conversion ℚ) (hconv : conv.Follows) :
    (∀ results : Fin 14 → ℚ,
      ((∀ j, Encodes (results j)) ∧
        decode ((List.finRange 14).flatMap fun j => encode conv (results j)) =
          (List.finRange 14).map fun j => truncate (results j)) ↔
      ∀ j, 0 ≤ truncate (results j) ∧ truncate (results j) < 256) ∧
    (∀ acc gyro baro : ℚ,
      ((∀ v ∈ [acc, gyro, baro], Encodes v) ∧
        decode (encode conv acc ++ encode conv gyro ++ encode conv baro) =
          [truncate acc, truncate gyro, truncate baro]) ↔
      ∀ v ∈ [acc, gyro, baro], 0 ≤ truncate v ∧ truncate v < 256) := by
  constructor
  · intro results
    simp only [encodes_iff]
    refine and_iff_left_of_imp fun h => ?_
    have hall : ∀ v ∈ (List.finRange 14).map results, Encodes v := by
      intro v hv
      obtain ⟨j, -, rfl⟩ := List.mem_map.mp hv
      exact (encodes_iff _).mpr (h j)
    have hdecode := decode_flatMap_encode hconv hall
    rwa [List.flatMap_map, List.map_map] at hdecode
  · intro acc gyro baro
    simp only [encodes_iff]
    refine and_iff_left_of_imp fun h => ?_
    have hdecode := decode_flatMap_encode hconv fun v hv => (encodes_iff v).mpr (h v hv)
    simpa using hdecode

/-- The conversions that go on modulo the range of the type. -/
def truncating : Conversion ℚ :=
  ⟨fun v => UInt8.ofNat (truncate v % 2 ^ 8).toNat,
    fun v => UInt32.ofNat (truncate v % 2 ^ 32).toNat⟩

theorem truncating_follows : truncating.Follows where
  toUint8 := by
    rintro v ⟨hge, hlt⟩
    simp only [truncating, UInt8.toNat_ofNat']
    omega
  toUint32 := by
    rintro v ⟨hge, hlt⟩
    simp only [truncating, UInt32.toNat_ofNat']
    omega

/-- The halves from one half on. -/
theorem decode_halves :
    decode ((List.finRange 14).flatMap fun j : Fin 14 =>
      encode truncating ((j.val : ℚ) + 1 / 2)) =
      [0, 1, 2, 3, 4, 5, 6, 7, 8, 9, 10, 11, 12, 13] := by
  have hall : ∀ j : Fin 14, 0 ≤ truncate ((j.val : ℚ) + 1 / 2) ∧
      truncate ((j.val : ℚ) + 1 / 2) < 256 := by
    decide +kernel
  rw [(((decode_encode_iff truncating truncating_follows).1 fun j =>
    (j.val : ℚ) + 1 / 2).mpr hall).2]
  decide +kernel

/-- The conversion of 256 to an 8-bit integer is not defined. -/
theorem not_encodes_256 :
    ¬∀ results : Fin 14 → ℚ,
      (∀ j, -2 ^ 31 ≤ truncate (results j) ∧ truncate (results j) < 2 ^ 31) →
      (∀ j, Encodes (results j)) ∧
        decode ((List.finRange 14).flatMap fun j => encode truncating (results j)) =
          (List.finRange 14).map fun j => truncate (results j) := by
  intro hall
  have h := (hall (fun _ => 256) (by decide +kernel)).1 0
  exact absurd ((encodes_iff _).mp h).2 (by decide +kernel)

end OsesProject
