import Mathlib.Data.BitVec
import Mathlib.Tactic.SplitIfs

/-!
# Byte memory with little-endian words

A 32-bit address space of bytes, words of two and of four bytes over it, and a
constant fill. The frame lemmas say which reads a write leaves alone; nothing
here knows who owns an address.
-/

namespace SimpleOs.Lib.ByteMemory

abbrev Addr := BitVec 32
abbrev Byte := BitVec 8
abbrev Memory := Addr → Byte

/-- An ASCII string constant without its NUL. -/
def bytesOf (text : String) : List Byte := text.toList.map fun c : Char => BitVec.ofNat 8 c.toNat

def write8 (m : Memory) (a : Addr) (v : Byte) : Memory := fun x => if x = a then v else m x

def read16 (m : Memory) (a : Addr) : BitVec 16 := m (a+1) ++ m a

def write16 (m : Memory) (a : Addr) (v : BitVec 16) : Memory := fun x =>
  if x = a then v.extractLsb' 0 8 else if x = a+1 then v.extractLsb' 8 8 else m x

def read32 (m : Memory) (a : Addr) : BitVec 32 := m (a+3) ++ m (a+2) ++ m (a+1) ++ m a

def write32 (m : Memory) (a : Addr) (v : BitVec 32) : Memory := fun x =>
  if x = a then v.extractLsb' 0 8
  else if x = a+1 then v.extractLsb' 8 8
  else if x = a+2 then v.extractLsb' 16 8
  else if x = a+3 then v.extractLsb' 24 8
  else m x

/-- Set `n` consecutive bytes from `a` on, modulo the address space. -/
def fill (m : Memory) (a : Addr) (n : Nat) (v : Byte) : Memory := fun x =>
  if (x - a).toNat < n then v else m x

@[simp] theorem write8_same (m : Memory) (a : Addr) (v : Byte) : write8 m a v a = v := by
  simp [write8]

theorem write8_of_ne (m : Memory) (v : Byte) {a x : Addr} (h : x ≠ a) : write8 m a v x = m x := by
  simp [write8, h]

theorem read32_congr {m m' : Memory} {a : Addr} (h : ∀ k : Addr, k.toNat < 4 → m (a+k) = m' (a+k)) :
    read32 m a = read32 m' a := by
  have h0 : m a = m' a := by simpa using h 0 (by decide)
  simp only [read32, h0, h 1 (by decide), h 2 (by decide), h 3 (by decide)]

/-- A half word written is read back. -/
@[simp] theorem read16_write16_same (m : Memory) (a : Addr) (v : BitVec 16) :
    read16 (write16 m a v) a = v := by
  have h1 : a+1 ≠ a := by bv_omega
  simp only [read16, write16, h1, if_true, if_false]
  ext i hi
  simp only [BitVec.getElem_append, BitVec.getElem_extractLsb']
  rw [← BitVec.getLsbD_eq_getElem hi]
  split_ifs <;> congr 1 <;> omega

theorem write16_of_far (m : Memory) (v : BitVec 16) {a x : Addr} (h : 2 ≤ (x - a).toNat) :
    write16 m a v x = m x := by
  have h0 : x ≠ a := by bv_omega
  have h1 : x ≠ a+1 := by bv_omega
  simp only [write16, h0, h1, if_false]

theorem read16_write8_of_far (m : Memory) (v : Byte) {a b : Addr} (h : 2 ≤ (a - b).toNat) :
    read16 (write8 m a v) b = read16 m b := by
  rw [read16, read16, write8_of_ne m v (by bv_omega), write8_of_ne m v (by bv_omega)]

theorem read16_write16_of_far (m : Memory) (v : BitVec 16) {a b : Addr} (h : 2 ≤ (a - b).toNat)
    (h' : 2 ≤ (b - a).toNat) : read16 (write16 m a v) b = read16 m b := by
  rw [read16, read16, write16_of_far m v (by bv_omega), write16_of_far m v h']

theorem read32_of_bytes {m : Memory} {a : Addr} {v : BitVec 32}
    (h : ∀ k : Addr, k.toNat < 4 → m (a+k) = v.extractLsb' (8*k.toNat) 8) : read32 m a = v := by
  have h0 : m a = v.extractLsb' 0 8 := by simpa using h 0 (by decide)
  have h1 : m (a+1) = v.extractLsb' 8 8 := h 1 (by decide)
  have h2 : m (a+2) = v.extractLsb' 16 8 := h 2 (by decide)
  have h3 : m (a+3) = v.extractLsb' 24 8 := h 3 (by decide)
  rw [read32, h0, h1, h2, h3]
  ext i hi
  simp only [BitVec.getElem_append, BitVec.getElem_extractLsb']
  rw [← BitVec.getLsbD_eq_getElem hi]
  split_ifs <;> congr 1 <;> omega

/-- A word written is read back. -/
@[simp] theorem read32_write32_same (m : Memory) (a : Addr) (v : BitVec 32) :
    read32 (write32 m a v) a = v := by
  refine read32_of_bytes fun k hk => ?_
  obtain rfl | rfl | rfl | rfl : k = 0 ∨ k = 1 ∨ k = 2 ∨ k = 3 := by bv_omega
  all_goals simp [write32]

theorem write32_of_far (m : Memory) (v : BitVec 32) {a x : Addr} (h : 4 ≤ (x - a).toNat) :
    write32 m a v x = m x := by
  have h0 : x ≠ a := by bv_omega
  have h1 : x ≠ a+1 := by bv_omega
  have h2 : x ≠ a+2 := by bv_omega
  have h3 : x ≠ a+3 := by bv_omega
  simp only [write32, h0, h1, h2, h3, if_false]

/-- The lower half of a word written is read back. -/
theorem read16_write32_same (m : Memory) (a : Addr) (v : BitVec 32) :
    read16 (write32 m a v) a = v.setWidth 16 := by
  have h1 : a+1 ≠ a := by bv_omega
  simp only [read16, write32, h1, if_true, if_false]
  refine BitVec.eq_of_getLsbD_eq fun i hi => ?_
  simp only [BitVec.getLsbD_append, BitVec.getLsbD_extractLsb', BitVec.getLsbD_setWidth]
  rcases Nat.lt_or_ge i 8 with h | h
  · simp [h, hi]
  · simp [Nat.not_lt.mpr h, show i - 8 < 8 by omega, show 8 + (i - 8) = i by omega, hi]

theorem read16_write32_of_far (m : Memory) (v : BitVec 32) {a b : Addr} (h : 2 ≤ (b - a).toNat)
    (h' : 4 ≤ (a - b).toNat) : read16 (write32 m b v) a = read16 m a := by
  rw [read16, read16, write32_of_far m v h', write32_of_far m v (by bv_omega)]

theorem write32_eq_write8 (m : Memory) (a : Addr) (v : BitVec 32) :
    write32 m a v = write8 (write8 (write8 (write8 m a (v.extractLsb' 0 8))
      (a+1) (v.extractLsb' 8 8)) (a+2) (v.extractLsb' 16 8)) (a+3) (v.extractLsb' 24 8) := by
  funext x
  simp only [write32, write8]
  split_ifs with h0 h3 h2 h1 <;> first | rfl | (exfalso; bv_omega)

/-- Distinct aligned words do not overlap. -/
theorem read32_write32_of_ne (m : Memory) (v : BitVec 32) {a b : Addr}
    (ha : a.toNat % 4 = 0) (hb : b.toNat % 4 = 0) (h : b ≠ a) :
    read32 (write32 m a v) b = read32 m b := by
  apply read32_congr
  intro k hk
  exact write32_of_far m v (by bv_omega)

theorem read32_write32_of_toNat_ne (m : Memory) (v : BitVec 32) {a b : Addr}
    (ha : a.toNat % 4 = 0) (hb : b.toNat % 4 = 0) (h : b.toNat ≠ a.toNat) :
    read32 (write32 m a v) b = read32 m b :=
  read32_write32_of_ne m v ha hb fun he => h (congrArg BitVec.toNat he)

theorem read32_write8_of_ne (m : Memory) (v : Byte) {a b : Addr}
    (h : 4 ≤ (a - b).toNat) : read32 (write8 m a v) b = read32 m b := by
  apply read32_congr
  intro k hk
  exact write8_of_ne m v (by bv_omega)

theorem fill_of_lt (m : Memory) (v : Byte) {a x : Addr} {n : Nat} (h : (x - a).toNat < n) :
    fill m a n v x = v := by simp only [fill, h, if_true]

theorem fill_of_le (m : Memory) (v : Byte) {a x : Addr} {n : Nat} (h : n ≤ (x - a).toNat) :
    fill m a n v x = m x := by simp only [fill, Nat.not_lt.mpr h, if_false]

@[simp] theorem fill_zero (m : Memory) (a : Addr) (v : Byte) : fill m a 0 v = m := by
  funext x
  exact fill_of_le m v (Nat.zero_le _)

/-- A fill is its first byte followed by the rest. -/
theorem fill_succ (m : Memory) (a : Addr) (v : Byte) {n : Nat} (hn : n < 2^32) :
    fill (write8 m a v) (a+1) n v = fill m a (n+1) v := by
  funext x
  by_cases hx : x = a
  · subst x
    rw [fill_of_lt m v (by bv_omega)]
    by_cases h : (a - (a+1)).toNat < n
    · exact fill_of_lt _ v h
    · rw [fill_of_le _ v (by omega), write8_same]
  · by_cases h : (x - a).toNat < n+1
    · rw [fill_of_lt m v h, fill_of_lt _ v (by bv_omega)]
    · rw [fill_of_le m v (by omega), fill_of_le _ v (by bv_omega), write8_of_ne m v hx]

/-- Words inside a zero fill read as zero. -/
theorem read32_fill_inside (m : Memory) {a b : Addr} {n : Nat} (h : (b - a).toNat + 3 < n)
    (hn : n ≤ 2^32) : read32 (fill m a n 0) b = 0 := by
  have hk : ∀ k : Addr, k.toNat < 4 → fill m a n 0 (b+k) = 0 := fun k hk =>
    fill_of_lt m 0 (by bv_omega)
  have h0 : fill m a n 0 b = 0 := by simpa using hk 0 (by decide)
  simp only [read32, h0, hk 1 (by decide), hk 2 (by decide), hk 3 (by decide)]
  rfl

theorem read32_fill_outside (m : Memory) (v : Byte) {a b : Addr} {n : Nat}
    (h : n ≤ (b - a).toNat) (hb : (b - a).toNat + 3 < 2^32) :
    read32 (fill m a n v) b = read32 m b := by
  apply read32_congr
  intro k hk
  exact fill_of_le m v (by bv_omega)

/-- The same memory with `base` as its origin. -/
def fromBase (m : Memory) (base : Addr) : Memory := fun x => m (x + base)

theorem read32_fromBase (m : Memory) (base a : Addr) :
    read32 (fromBase m base) a = read32 m (a + base) := by
  simp only [read32, fromBase, add_right_comm]

theorem fromBase_write8 (m : Memory) (base a : Addr) (v : Byte) :
    fromBase (write8 m (a + base) v) base = write8 (fromBase m base) a v := by
  funext x
  simp only [fromBase, write8, add_left_inj]

theorem fromBase_write32 (m : Memory) (base a : Addr) (v : BitVec 32) :
    fromBase (write32 m (a + base) v) base = write32 (fromBase m base) a v := by
  funext x
  simp only [fromBase, write32, add_right_comm a base, add_left_inj]

theorem fromBase_fill (m : Memory) (base a : Addr) (n : Nat) (v : Byte) :
    fromBase (fill m (a + base) n v) base = fill (fromBase m base) a n v := by
  funext x
  simp only [fromBase, fill, add_sub_add_right_eq_sub]

end SimpleOs.Lib.ByteMemory
