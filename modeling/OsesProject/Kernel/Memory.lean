import OsesProject.Lib.ByteMemory

/-!
# Kernel service: the memory functions of `kservice.c`

`rt_memset`, `rt_memcpy` and `rt_memmove` on a memory of bytes, with their loops over blocks of four
words, over words and over bytes. A `long` has four bytes and is stored with its lowest byte first.
What the functions return is the address they were given, and the memory is all that is modelled of
it.

The length `len` of `rt_memcpy` is an `int` that is compared with the sizes of the blocks as an
unsigned number; it is a number here, of any size. No bound on it is needed in what is proved: the
loops are those of the source for every length below 2 ^ 31, and for a longer one, which no array of
the board has, the results are about the loops alone.
-/

namespace OsesProject

open ByteMemory

/-- `while (count >= block) { body; count -= block; }`, where `body` works on the bytes from the
`i`th on and moves its pointers past them. The loop `while (count--)` is the one for single
bytes. -/
def whileCount (block : ℕ) [NeZero block] (body : Mem → ℕ → Mem) (m : Mem) (i count : ℕ) :
    Mem × ℕ × ℕ :=
  if block ≤ count then whileCount block body (body m i) (i + block) (count - block)
  else (m, i, count)
termination_by count
decreasing_by
  have := NeZero.pos block
  omega

/-- `rt_memset`. -/
def rtMemset (m : Mem) (s : ℕ) (c : ℤ) (count : ℕ) : Mem :=
  -- unsigned int d = c & 0xff;
  let d := (c % 256).toNat
  let byte := fun m i => Function.update m (s + i) (UInt8.ofNat d)
  if 4 ≤ count ∧ s % 4 = 0 then
    -- buffer = (d << 8) | d; buffer |= (buffer << 16);
    let buffer := d <<< 8 ||| d
    let buffer := buffer ||| buffer <<< 16
    let (m, i, count) := whileCount 16 (fun m i =>
      store (store (store (store m (s + i) 4 buffer) (s + i + 4) 4 buffer) (s + i + 8) 4 buffer)
        (s + i + 12) 4 buffer) m 0 count
    let (m, i, count) := whileCount 4 (fun m i => store m (s + i) 4 buffer) m i count
    (whileCount 1 byte m i count).1
  else
    (whileCount 1 byte m 0 count).1

/-- `*aligned_dst = *aligned_src;`, a word. -/
def copyWord (m : Mem) (dst src : ℕ) : Mem := store m dst 4 (load m src 4)

/-- `rt_memcpy`. -/
def rtMemcpy (m : Mem) (dst src len : ℕ) : Mem :=
  let byte := fun m i => Function.update m (dst + i) (m (src + i))
  if 16 ≤ len ∧ src % 4 = 0 ∧ dst % 4 = 0 then
    let (m, i, len) := whileCount 16 (fun m i =>
      let m := copyWord m (dst + i) (src + i)
      let m := copyWord m (dst + i + 4) (src + i + 4)
      let m := copyWord m (dst + i + 8) (src + i + 8)
      copyWord m (dst + i + 12) (src + i + 12)) m 0 len
    let (m, i, len) := whileCount 4 (fun m i => copyWord m (dst + i) (src + i)) m i len
    (whileCount 1 byte m i len).1
  else
    (whileCount 1 byte m 0 len).1

/-- The downward loop of `rt_memmove`: `while (n--) *(--tmp) = *(--s);`. -/
def moveDown (m : Mem) (dest src : ℕ) : ℕ → Mem
  | 0 => m
  | n + 1 => moveDown (Function.update m (dest + n) (m (src + n))) dest src n

/-- `rt_memmove`. -/
def rtMemmove (m : Mem) (dest src n : ℕ) : Mem :=
  if src < dest ∧ dest < src + n then
    moveDown m dest src n
  else
    (whileCount 1 (fun m i => Function.update m (dest + i) (m (src + i))) m 0 n).1

end OsesProject
