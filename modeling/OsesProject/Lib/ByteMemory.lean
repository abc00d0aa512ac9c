import Mathlib.Logic.Function.Basic
import Mathlib.Tactic.Ring

/-!
# Byte memory

A byte at every address, and numbers of several bytes in it, the lowest byte first. Two laws relate
`load` and `store`: a load gives what was stored there (`load_store`), and it does not see a store
elsewhere (`load_store_of_disjoint`). `copy` and `fill` are what copying and filling a range of
bytes should come to, and `copyUp` is what copying the bytes in their order comes to;
`copyUp_store`, `copy_store_last` and `fill_store` take one word off either end of the range, which
is what loops over words rest on. `bytes` reads a range as a list.
-/

namespace ByteMemory

/-- A byte at every address. -/
abbrev Mem := ℕ → UInt8

variable {m m' : Mem} {a b k n v x dst src : ℕ} {c : UInt8}

/-- The number in the `k` bytes from `a` on, the lowest byte first. -/
def load (m : Mem) (a : ℕ) : ℕ → ℕ
  | 0 => 0
  | k + 1 => (m a).toNat + 256 * load m (a + 1) k

/-- The `k` low bytes of `v` put at `a`, the lowest first. -/
def store (m : Mem) (a : ℕ) : ℕ → ℕ → Mem
  | 0, _ => m
  | k + 1, v => store (Function.update m a (UInt8.ofNat v)) (a + 1) k (v / 256)

theorem store_of_notMem (h : x < a ∨ a + k ≤ x) : store m a k v x = m x := by
  induction k generalizing m a v with
  | zero => rfl
  | succ k ih =>
    rw [store, ih (by omega)]
    exact Function.update_of_ne (by omega) _ _

theorem load_congr (h : ∀ x, a ≤ x → x < a + k → m x = m' x) : load m a k = load m' a k := by
  induction k generalizing a with
  | zero => rfl
  | succ k ih =>
    rw [load, load, h a (Nat.le_refl a) (by omega), ih fun x hx hlt => h x (by omega) (by omega)]

/-- A load elsewhere does not see the store. -/
theorem load_store_of_disjoint (h : b + n ≤ a ∨ a + k ≤ b) :
    load (store m a k v) b n = load m b n :=
  load_congr fun _ _ _ => store_of_notMem (by omega)

/-- **A load gives what was stored.** -/
theorem load_store (hv : v < 256 ^ k) : load (store m a k v) a k = v := by
  induction k generalizing m a v with
  | zero => exact (Nat.lt_one_iff.mp hv).symm
  | succ k ih =>
    have hlow : store (Function.update m a (UInt8.ofNat v)) (a + 1) k (v / 256) a =
        UInt8.ofNat v := by
      rw [store_of_notMem (by omega), Function.update_self]
    have hhigh : v / 256 < 256 ^ k := Nat.div_lt_of_lt_mul (by rw [pow_succ'] at hv; exact hv)
    rw [store, load, hlow, ih hhigh, UInt8.toNat_ofNat']
    omega

/-- What a stored word holds byte by byte, when it was loaded from elsewhere. -/
theorem store_load_apply (ha : a ≤ x) (hx : x < a + k) :
    store m a k (load m' b k) x = m' (b + (x - a)) := by
  induction k generalizing m a b with
  | zero => omega
  | succ k ih =>
    have hlow : UInt8.ofNat ((m' b).toNat + 256 * load m' (b + 1) k) = m' b := by
      apply UInt8.toNat_inj.mp
      have := (m' b).toNat_lt
      rw [UInt8.toNat_ofNat']
      omega
    have hhigh : ((m' b).toNat + 256 * load m' (b + 1) k) / 256 = load m' (b + 1) k := by
      have := (m' b).toNat_lt
      omega
    rw [load, store, hlow, hhigh]
    rcases Nat.eq_or_lt_of_le ha with rfl | hlt
    · rw [store_of_notMem (by omega), Function.update_self, Nat.sub_self, Nat.add_zero]
    · rw [ih hlt (by omega), show b + 1 + (x - (a + 1)) = b + (x - a) by omega]

/-- Copying a byte as a word. -/
theorem store_load_one : store m dst 1 (load m' src 1) = Function.update m dst (m' src) := by
  funext x
  rcases eq_or_ne x dst with rfl | hne
  · rw [store_load_apply (Nat.le_refl x) (Nat.lt_succ_self x), Function.update_self, Nat.sub_self,
      Nat.add_zero]
  · rw [store_of_notMem (by omega), Function.update_of_ne hne]

/-! ## Ranges of bytes -/

/-- The memory with the `n` bytes from `src` on at `dst`, as they were before. -/
def copy (m : Mem) (dst src n : ℕ) : Mem := fun x =>
  if dst ≤ x ∧ x < dst + n then m (src + (x - dst)) else m x

/-- The memory with the byte `c` in the `n` bytes from `a` on. -/
def fill (m : Mem) (a n : ℕ) (c : UInt8) : Mem := fun x =>
  if a ≤ x ∧ x < a + n then c else m x

theorem copy_of_notMem (h : x < dst ∨ dst + n ≤ x) : copy m dst src n x = m x := if_neg (by omega)

theorem copy_of_mem (h : dst ≤ x) (hx : x < dst + n) : copy m dst src n x = m (src + (x - dst)) :=
  if_pos ⟨h, hx⟩

theorem fill_of_notMem (h : x < a ∨ a + n ≤ x) : fill m a n c x = m x := if_neg (by omega)

theorem fill_of_mem (h : a ≤ x) (hx : x < a + n) : fill m a n c x = c := if_pos ⟨h, hx⟩

@[simp] theorem copy_zero : copy m dst src 0 = m := funext fun _ => copy_of_notMem (by omega)

@[simp] theorem fill_zero : fill m a 0 c = m := funext fun _ => fill_of_notMem (by omega)

/-- The memory after copying the `n` bytes from `src` on to `dst` one after the other, upwards. When
`dst` is above `src`, the bytes from `dst` on are copies by the time they are read. -/
def copyUp (m : Mem) (dst src n : ℕ) : Mem := fun x =>
  if dst ≤ x ∧ x < dst + n then m (src + (x - dst) % (dst - src)) else m x

theorem copyUp_of_notMem (h : x < dst ∨ dst + n ≤ x) : copyUp m dst src n x = m x :=
  if_neg (by omega)

theorem copyUp_of_mem (h : dst ≤ x) (hx : x < dst + n) :
    copyUp m dst src n x = m (src + (x - dst) % (dst - src)) :=
  if_pos ⟨h, hx⟩

@[simp] theorem copyUp_zero : copyUp m dst src 0 = m := funext fun _ => copyUp_of_notMem (by omega)

/-- **Copying upwards**, the first word at once, when the words do not overlap their copies. -/
theorem copyUp_store (hk : k ≤ n) (h : dst ≤ src ∨ k ≤ dst - src) :
    copyUp (store m dst k (load m src k)) (dst + k) (src + k) (n - k) = copyUp m dst src n := by
  funext x
  by_cases hin : dst ≤ x ∧ x < dst + n
  · rw [copyUp_of_mem hin.1 hin.2]
    rcases Nat.lt_or_ge x (dst + k) with hlt | hge
    · have hmod : (x - dst) % (dst - src) = x - dst := by
        rcases h with h | h
        · rw [Nat.sub_eq_zero_of_le h, Nat.mod_zero]
        · exact Nat.mod_eq_of_lt (by omega)
      rw [copyUp_of_notMem (.inl hlt), store_load_apply hin.1 hlt, hmod]
    · rw [copyUp_of_mem hge (by omega), Nat.add_sub_add_right]
      rcases h with h | h
      · rw [Nat.sub_eq_zero_of_le h, Nat.mod_zero, Nat.mod_zero, store_of_notMem (by omega),
          show src + k + (x - (dst + k)) = src + (x - dst) by omega]
      · -- the byte read is `k + r` above `src`: one of the copies when that is past `dst`
        have hr : (x - (dst + k)) % (dst - src) < dst - src ∨ k = 0 := by
          rcases Nat.eq_zero_or_pos k with hk0 | hpos
          · exact .inr hk0
          · exact .inl (Nat.mod_lt _ (by omega))
        have hsum : (x - dst) % (dst - src) =
            (k + (x - (dst + k)) % (dst - src)) % (dst - src) := by
          rw [Nat.add_mod_mod, show k + (x - (dst + k)) = x - dst by omega]
        rcases hr with hr | rfl
        · rw [hsum]
          generalize (x - (dst + k)) % (dst - src) = r at hr
          rcases Nat.lt_or_ge (k + r) (dst - src) with hbelow | hpast
          · rw [Nat.mod_eq_of_lt hbelow, store_of_notMem (by omega), Nat.add_assoc]
          · rw [Nat.mod_eq_sub_mod hpast, Nat.mod_eq_of_lt (by omega),
              store_load_apply (by omega) (by omega),
              show src + k + r - dst = k + r - (dst - src) by omega]
        · rfl
  · rw [copyUp_of_notMem (by omega), copyUp_of_notMem (by omega), store_of_notMem (by omega)]

/-- Copying upwards is copying when the bytes move down, or to a range of their own. -/
theorem copyUp_eq_copy (h : dst ≤ src ∨ src + n ≤ dst) : copyUp m dst src n = copy m dst src n := by
  funext x
  by_cases hin : dst ≤ x ∧ x < dst + n
  · have hmod : (x - dst) % (dst - src) = x - dst := by
      rcases h with h | h
      · rw [Nat.sub_eq_zero_of_le h, Nat.mod_zero]
      · exact Nat.mod_eq_of_lt (by omega)
    rw [copyUp_of_mem hin.1 hin.2, copy_of_mem hin.1 hin.2, hmod]
  · rw [copyUp_of_notMem (by omega), copy_of_notMem (by omega)]

/-- **When copying upwards copies**, whatever the bytes are. -/
theorem copyUp_eq_copy_iff :
    (∀ m, copyUp m dst src n = copy m dst src n) ↔ dst ≤ src ∨ src + n ≤ dst := by
  refine ⟨fun h => ?_, fun h _ => copyUp_eq_copy h⟩
  by_contra hover
  -- a byte at `dst` that differs from the others is lost before it is read
  have hx := congrFun (h fun x => if x = dst then 1 else 0) (dst + (dst - src))
  rw [copyUp_of_mem (by omega) (by omega), copy_of_mem (by omega) (by omega),
    Nat.add_sub_cancel_left, Nat.mod_self, if_neg (by omega), if_pos (by omega)] at hx
  exact absurd hx (by decide)

/-- **Copying downwards**, the last word at once: right when the bytes move up, or to a range of
their own. -/
theorem copy_store_last (hk : k ≤ n) (h : src ≤ dst ∨ dst + n ≤ src) :
    copy (store m (dst + (n - k)) k (load m (src + (n - k)) k)) dst src (n - k) =
      copy m dst src n := by
  funext x
  by_cases hin : dst ≤ x ∧ x < dst + n
  · rw [copy_of_mem hin.1 hin.2]
    rcases Nat.lt_or_ge x (dst + (n - k)) with hlt | hge
    · rw [copy_of_mem hin.1 hlt, store_of_notMem (by omega)]
    · rw [copy_of_notMem (.inr hge), store_load_apply hge (by omega),
        show src + (n - k) + (x - (dst + (n - k))) = src + (x - dst) by omega]
  · rw [copy_of_notMem (by omega), copy_of_notMem (by omega), store_of_notMem (by omega)]

/-- Filling, the first word at once. -/
theorem fill_store (hk : k ≤ n) :
    fill (store m a k (load (fun _ => c) b k)) (a + k) (n - k) c = fill m a n c := by
  funext x
  by_cases hin : a ≤ x ∧ x < a + n
  · rw [fill_of_mem hin.1 hin.2]
    rcases Nat.lt_or_ge x (a + k) with hlt | hge
    · rw [fill_of_notMem (.inl hlt), store_load_apply hin.1 hlt]
    · exact fill_of_mem hge (by omega)
  · rw [fill_of_notMem (by omega), fill_of_notMem (by omega), store_of_notMem (by omega)]

/-! ## The bytes of an array -/

/-- The `n` bytes from an address on. -/
def bytes (m : Mem) (a n : ℕ) : List UInt8 := (List.range n).map fun i => m (a + i)

@[simp] theorem length_bytes : (bytes m a n).length = n := by simp [bytes]

theorem bytes_congr (h : ∀ i < n, m (a + i) = m' (b + i)) : bytes m a n = bytes m' b n :=
  List.map_congr_left fun i hi => h i (List.mem_range.mp hi)

theorem take_bytes : (bytes m a n).take k = bytes m a (min k n) := by
  unfold bytes
  rw [← List.map_take, List.take_range]

theorem bytes_eq_replicate (h : ∀ i < n, m (a + i) = c) : bytes m a n = List.replicate n c := by
  refine List.eq_replicate_iff.mpr ⟨length_bytes, fun x hx => ?_⟩
  obtain ⟨i, hi, rfl⟩ := List.mem_map.mp hx
  exact h i (List.mem_range.mp hi)

theorem bytes_update : bytes (Function.update m (a + k) c) a n = (bytes m a n).set k c := by
  refine List.ext_getElem (by simp) fun i hi _ => ?_
  rw [List.getElem_set]
  simp only [bytes, List.getElem_map, List.getElem_range]
  rcases eq_or_ne k i with rfl | hne
  · rw [if_pos rfl, Function.update_self]
  · rw [if_neg hne, Function.update_of_ne (by omega)]

end ByteMemory
