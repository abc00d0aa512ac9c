import OsesProject.Kernel.Memory

/-!
# What the memory functions leave

`rt_memcpy` is a copy in the order of the bytes, whether it goes by words or by bytes
(`rtMemcpy_eq_copyUp`), so it copies any bytes at all exactly when the destination is not inside the
source (`rtMemcpy_eq_copy_iff`). `rt_memmove` copies always (`rtMemmove_eq_copy`), and `rt_memset`
fills (`rtMemset_eq_fill`).
-/

namespace OsesProject

open ByteMemory

/-- A loop over blocks stands for the same whole when each of its turns does: `rest m i count` is
what is to become of `count` bytes from the `i`th on. -/
theorem whileCount_rest (block : ℕ) [NeZero block] (rest : Mem → ℕ → ℕ → Mem)
    (body : Mem → ℕ → Mem)
    (hbody : ∀ m i count, block ≤ count →
      rest (body m i) (i + block) (count - block) = rest m i count)
    (m : Mem) (i count : ℕ) :
    rest (whileCount block body m i count).1 (whileCount block body m i count).2.1
      (whileCount block body m i count).2.2 = rest m i count := by
  fun_induction whileCount block body m i count with
  | case1 m i count hle ih => rw [ih, hbody m i count hle]
  | case2 m i count hlt => rfl

theorem whileCount_lt {block : ℕ} [NeZero block] {body : Mem → ℕ → Mem} (m : Mem) (i count : ℕ) :
    (whileCount block body m i count).2.2 < block := by
  fun_induction whileCount block body m i count with
  | case1 m i count hle ih => exact ih
  | case2 m i count hlt => exact Nat.lt_of_not_le hlt

/-- A loop over single bytes does all of it. -/
theorem whileCount_one (rest : Mem → ℕ → ℕ → Mem) (body : Mem → ℕ → Mem)
    (hbody : ∀ m i count, 1 ≤ count → rest (body m i) (i + 1) (count - 1) = rest m i count)
    (hrest : ∀ m i, rest m i 0 = m) (m : Mem) (i count : ℕ) :
    (whileCount 1 body m i count).1 = rest m i count := by
  have hzero : (whileCount 1 body m i count).2.2 = 0 := Nat.lt_one_iff.mp (whileCount_lt m i count)
  rw [← whileCount_rest 1 rest body hbody m i count, hzero, hrest]

/-! ## Copying -/

theorem copyUp_copyWord {m : Mem} (dst src : ℕ) {n : ℕ} (hn : 4 ≤ n)
    (h : dst ≤ src ∨ 4 ≤ dst - src) :
    copyUp (copyWord m dst src) (dst + 4) (src + 4) (n - 4) = copyUp m dst src n :=
  copyUp_store hn h

/-- Four words are four times one. -/
theorem copyUp_copyWords {m : Mem} {dst src n : ℕ} (hn : 16 ≤ n) (h : dst ≤ src ∨ 4 ≤ dst - src) :
    copyUp (copyWord (copyWord (copyWord (copyWord m dst src) (dst + 4) (src + 4))
      (dst + 8) (src + 8)) (dst + 12) (src + 12)) (dst + 16) (src + 16) (n - 16) =
      copyUp m dst src n := by
  rw [← copyUp_copyWord (m := m) dst src (by omega) h,
    ← copyUp_copyWord (dst + 4) (src + 4) (by omega) (by omega),
    ← copyUp_copyWord (dst + 4 + 4) (src + 4 + 4) (by omega) (by omega),
    ← copyUp_copyWord (dst + 4 + 4 + 4) (src + 4 + 4 + 4) (by omega) (by omega)]
  rfl

theorem copyUp_update {m : Mem} {dst src n : ℕ} (hn : 1 ≤ n) :
    copyUp (Function.update m dst (m src)) (dst + 1) (src + 1) (n - 1) = copyUp m dst src n := by
  rw [← store_load_one]
  exact copyUp_store hn (by omega)

/-- **`rt_memcpy` copies the bytes one after the other**, by whichever path it goes. -/
theorem rtMemcpy_eq_copyUp (m : Mem) (dst src n : ℕ) :
    rtMemcpy m dst src n = copyUp m dst src n := by
  have hbyte := whileCount_one (fun m i count => copyUp m (dst + i) (src + i) count)
    (fun m i => Function.update m (dst + i) (m (src + i)))
    (fun _ _ _ hle => copyUp_update hle) fun _ _ => copyUp_zero
  unfold rtMemcpy
  split
  · next h =>
    obtain ⟨-, hsrc, hdst⟩ := h
    -- two aligned addresses are a word apart, or the same
    have hapart : ∀ i, dst + i ≤ src + i ∨ 4 ≤ dst + i - (src + i) := by omega
    have hword := whileCount_rest 4
      (fun m i count => copyUp m (dst + i) (src + i) count)
      (fun m i => copyWord m (dst + i) (src + i))
      fun m i _ hle => copyUp_copyWord _ _ hle (hapart i)
    have hbig := whileCount_rest 16
      (fun m i count => copyUp m (dst + i) (src + i) count)
      (fun m i => copyWord (copyWord (copyWord (copyWord m (dst + i) (src + i))
        (dst + i + 4) (src + i + 4)) (dst + i + 8) (src + i + 8)) (dst + i + 12) (src + i + 12))
      fun m i _ hle => copyUp_copyWords hle (hapart i)
    exact (hbyte _ _ _).trans ((hword _ _ _).trans (hbig m 0 n))
  · exact hbyte m 0 n

/-- **When `rt_memcpy` copies**, whatever the bytes are: when the destination does not start inside
the source. -/
theorem rtMemcpy_eq_copy_iff (dst src n : ℕ) :
    (∀ m, rtMemcpy m dst src n = copy m dst src n) ↔ dst ≤ src ∨ src + n ≤ dst := by
  simp only [rtMemcpy_eq_copyUp]
  exact copyUp_eq_copy_iff

theorem moveDown_eq_copy {m : Mem} {dst src n : ℕ} (h : src ≤ dst ∨ dst + n ≤ src) :
    moveDown m dst src n = copy m dst src n := by
  induction n generalizing m with
  | zero => exact copy_zero.symm
  | succ n ih =>
    have hlast := copy_store_last (m := m) (Nat.le_add_left 1 n) h
    rw [store_load_one, Nat.add_sub_cancel] at hlast
    rw [moveDown, ih (by omega), hlast]

/-- **`rt_memmove` copies**, however the source and the destination lie. -/
theorem rtMemmove_eq_copy (m : Mem) (dest src n : ℕ) :
    rtMemmove m dest src n = copy m dest src n := by
  unfold rtMemmove
  split
  · next h => exact moveDown_eq_copy (.inl (Nat.le_of_lt h.1))
  · next h =>
    rw [← copyUp_eq_copy (by omega)]
    exact whileCount_one (fun m i count => copyUp m (dest + i) (src + i) count) _
      (fun _ _ _ hle => copyUp_update hle) (fun _ _ => copyUp_zero) m 0 n

/-! ## Filling -/

/-- The word of `rt_memset` has the byte four times. -/
theorem memset_buffer {d : ℕ} (hd : d < 256) :
    (d <<< 8 ||| d) ||| (d <<< 8 ||| d) <<< 16 = load (fun _ => UInt8.ofNat d) 0 4 := by
  have hlow : d <<< 8 ||| d = d * 256 + d := by
    rw [← Nat.shiftLeft_add_eq_or_of_lt (by omega), Nat.shiftLeft_eq]
  have hall : (d * 256 + d) <<< 16 ||| (d * 256 + d) = (d * 256 + d) * 65536 + (d * 256 + d) := by
    rw [← Nat.shiftLeft_add_eq_or_of_lt (by omega), Nat.shiftLeft_eq]
  have hbyte : (UInt8.ofNat d).toNat = d := by
    rw [UInt8.toNat_ofNat']
    exact Nat.mod_eq_of_lt hd
  rw [hlow, Nat.or_comm, hall]
  simp only [load, hbyte]
  ring

/-- Four words are four times one. -/
theorem fill_words {m : Mem} {a n : ℕ} {c : UInt8} (hn : 16 ≤ n) :
    fill (store (store (store (store m a 4 (load (fun _ => c) 0 4))
      (a + 4) 4 (load (fun _ => c) 0 4)) (a + 8) 4 (load (fun _ => c) 0 4))
      (a + 12) 4 (load (fun _ => c) 0 4)) (a + 16) (n - 16) c = fill m a n c := by
  rw [← fill_store (m := m) (b := 0) (show 4 ≤ n by omega),
    ← fill_store (a := a + 4) (b := 0) (show 4 ≤ n - 4 by omega),
    ← fill_store (a := a + 4 + 4) (b := 0) (show 4 ≤ n - 4 - 4 by omega),
    ← fill_store (a := a + 4 + 4 + 4) (b := 0) (show 4 ≤ n - 4 - 4 - 4 by omega)]
  rfl

/-- **`rt_memset` fills**, by whichever path it goes. -/
theorem rtMemset_eq_fill (m : Mem) (s : ℕ) (c : ℤ) (count : ℕ) :
    rtMemset m s c count = fill m s count (UInt8.ofNat (c % 256).toNat) := by
  have hd : (c % 256).toNat < 256 := by omega
  have hbyte := whileCount_one
    (fun m i count => fill m (s + i) count (UInt8.ofNat (c % 256).toNat))
    (fun m i => Function.update m (s + i) (UInt8.ofNat (c % 256).toNat))
    (fun m i count hle => by
      have hone : Function.update m (s + i) (UInt8.ofNat (c % 256).toNat) =
          store m (s + i) 1 (load (fun _ => UInt8.ofNat (c % 256).toNat) 0 1) := store_load_one.symm
      rw [hone, ← Nat.add_assoc]
      exact fill_store hle)
    fun _ _ => fill_zero
  unfold rtMemset
  simp only [memset_buffer hd]
  split
  · have hword := whileCount_rest 4
      (fun m i count => fill m (s + i) count (UInt8.ofNat (c % 256).toNat))
      (fun m i => store m (s + i) 4 (load (fun _ => UInt8.ofNat (c % 256).toNat) 0 4))
      fun m i _ hle => fill_store hle
    have hbig := whileCount_rest 16
      (fun m i count => fill m (s + i) count (UInt8.ofNat (c % 256).toNat))
      (fun m i =>
        store (store (store (store m (s + i) 4 (load (fun _ => UInt8.ofNat (c % 256).toNat) 0 4))
          (s + i + 4) 4 (load (fun _ => UInt8.ofNat (c % 256).toNat) 0 4))
          (s + i + 8) 4 (load (fun _ => UInt8.ofNat (c % 256).toNat) 0 4))
          (s + i + 12) 4 (load (fun _ => UInt8.ofNat (c % 256).toNat) 0 4))
      fun m i _ hle => fill_words hle
    exact (hbyte _ _ _).trans ((hword _ _ _).trans (hbig m 0 count))
  · exact hbyte m 0 count

end OsesProject
