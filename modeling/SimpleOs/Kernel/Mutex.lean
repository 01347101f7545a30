import SimpleOs.Lib.ByteMemory

/-!
# `mutex.c`

The lock byte as the assembly reaches it: both acquire paths exchange a double
word with it, `mutex_lock` tests all 32 bits of what comes back and
`mutex_trylock` only the low byte, and the release writes one byte.
-/

namespace SimpleOs.Kernel

open SimpleOs.Lib.ByteMemory

def locked : BitVec 8 := 1
def unlocked : BitVec 8 := 0

/-- `xchg %eax, (%ecx)` with 1 in EAX. -/
def xchgLocked (m : Memory) (mutex : Addr) : BitVec 32 × Memory :=
  (read32 m mutex, write32 m mutex 1)

/-- One pass through the loop of `mutex_lock`: whether it leaves the loop. -/
def mutexLock (m : Memory) (mutex : Addr) : Bool × Memory :=
  let (eax, m) := xchgLocked m mutex
  (eax == 0, m)

/-- `result` is a byte, so it takes BL. -/
def mutexTrylock (m : Memory) (mutex : Addr) : Bool × Memory :=
  let (ebx, m) := xchgLocked m mutex
  (if ebx.setWidth 8 = locked then false else true, m)

def mutexUnlock (m : Memory) (mutex : Addr) : Memory := write8 m mutex unlocked

section

variable (m : Memory) (mutex : Addr)

theorem setWidth_read32 : (read32 m mutex).setWidth 8 = m mutex := by
  rw [read32]
  refine BitVec.eq_of_getLsbD_eq fun i hi => ?_
  simp only [BitVec.getLsbD_setWidth, BitVec.getLsbD_append, hi,
    decide_true, Bool.true_and, if_true]

theorem mutexTrylock_acquires : (mutexTrylock m mutex).1 = true ↔ m mutex ≠ locked := by
  simp only [mutexTrylock, xchgLocked, setWidth_read32]
  split_ifs with h <;> simp [h]

/-- The bytes behind the lock, which the exchange overwrites. -/
structure ClearBehind : Prop where
  first : m (mutex + 1) = 0
  second : m (mutex + 2) = 0
  third : m (mutex + 3) = 0

theorem write_locked_self : write32 m mutex 1 mutex = locked := by
  simp only [write32, if_true]
  rfl

/-- Whatever they held, the exchange zeroes them. -/
theorem xchg_clears : ClearBehind (write32 m mutex 1) mutex := by
  have h1 : mutex + 1 ≠ mutex := by bv_omega
  have h2 : mutex + 2 ≠ mutex ∧ mutex + 2 ≠ mutex + 1 := by constructor <;> bv_omega
  have h3 : mutex + 3 ≠ mutex ∧ mutex + 3 ≠ mutex + 1 ∧ mutex + 3 ≠ mutex + 2 := by
    refine ⟨?_, ?_, ?_⟩ <;> bv_omega
  refine ⟨?_, ?_, ?_⟩
  · simp only [write32, h1, if_true, if_false]
    rfl
  · simp only [write32, h2, if_true, if_false]
    rfl
  · simp only [write32, h3, if_true, if_false]
    rfl

/-- The exchange is a write of the lock byte alone if and only if the three bytes
behind it are zero already. -/
theorem xchg_frame_iff : (∀ x, x ≠ mutex → write32 m mutex 1 x = m x) ↔ ClearBehind m mutex := by
  obtain ⟨hb1, hb2, hb3⟩ := xchg_clears m mutex
  constructor
  · intro h
    exact ⟨by rw [← h _ (by bv_omega), hb1], by rw [← h _ (by bv_omega),
      hb2], by rw [← h _ (by bv_omega), hb3]⟩
  · intro h x hx
    by_cases hfar : 4 ≤ (x - mutex).toNat
    · exact write32_of_far m 1 hfar
    · rcases (by bv_omega : x = mutex + 1 ∨ x = mutex + 2 ∨ x = mutex + 3) with rfl | rfl | rfl
      · rw [hb1, h.first]
      · rw [hb2, h.second]
      · rw [hb3, h.third]

variable {m mutex}

/-- With zeros behind it the double word is zero when the lock byte is. -/
theorem ClearBehind.lock_acquires (h : ClearBehind m mutex) :
    (mutexLock m mutex).1 = true ↔ m mutex = unlocked := by
  simp only [mutexLock, xchgLocked, read32, h.first, h.second, h.third, beq_iff_eq, unlocked]
  constructor
  · intro hz
    have hlow := setWidth_read32 m mutex
    rw [read32, h.first, h.second, h.third, hz] at hlow
    rw [← hlow]
    rfl
  · intro hz
    rw [hz]
    rfl

end

end SimpleOs.Kernel
