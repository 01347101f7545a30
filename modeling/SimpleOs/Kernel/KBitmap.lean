import SimpleOs.Kernel.Access
import SimpleOs.Lib.PackedBits
import Mathlib.Data.List.Find

/-!
# `kbitmap.c`

The bit operations on a bitmap in kernel data, and what each of them is on a
plain stretch of memory.
-/

namespace SimpleOs.Kernel

open SimpleOs.Lib SimpleOs.Lib.ByteMemory
open SimpleOs.Lib.PackedBits (byteAt mask getLsbD_mask clearInByte clearFrom)

def bitmapInBytes (size : U32int) : U32int :=
  if size % 8 ≠ 0 then (size >>> 3) + 1 else size >>> 3

namespace State

def setBit (s : State) (bitmap num : U32int) : Except Trap State := do
  let offset := num / 8
  let bit := num % 8
  let b ← s.load8 (bitmap + offset)
  s.store8 (bitmap + offset) (b ||| 1#8 <<< bit)

def clearBit (s : State) (bitmap num : U32int) : Except Trap State := do
  let offset := num / 8
  let bit := num % 8
  let b ← s.load8 (bitmap + offset)
  s.store8 (bitmap + offset) (b &&& ~~~(1#8 <<< bit))

def testBit (s : State) (bitmap num : U32int) : Except Trap Bool := do
  let offset := num / 8
  let bit := num % 8
  let b ← s.load8 (bitmap + offset)
  return b &&& 1#8 <<< bit != 0

/-- The inner loop of `first_clear_bit`. -/
def clearBitOf (b : U8int) : Option Nat := (List.range 8).find? fun bit => b &&& 1#8 <<< bit == 0

/-- The outer loop, with `n` bytes to go. -/
def firstClearBitFrom (s : State) (bitmap offset : U32int) : Nat → Except Trap U32int
  | 0 => .ok (-1)
  | n + 1 => do
    let b ← s.load8 (bitmap + offset)
    if b ≠ 0xff then
      match clearBitOf b with
      | some bit => return offset * 8 + BitVec.ofNat 32 bit
      | none => firstClearBitFrom s bitmap (offset + 1) n
    else firstClearBitFrom s bitmap (offset + 1) n

def firstClearBit (s : State) (bitmap size : U32int) : Except Trap U32int :=
  s.firstClearBitFrom bitmap 0 (bitmapInBytes size).toNat

end State

theorem bitmapInBytes_toNat (size : U32int) :
    (bitmapInBytes size).toNat = (size.toNat + 7) / 8 := by
  have hs : (size >>> 3).toNat = size.toNat / 8 := by simp [Nat.shiftRight_eq_div_pow]
  unfold bitmapInBytes
  split_ifs with h <;> simp only [ne_eq, bitvec_to_nat, Nat.reducePow, Nat.reduceMod] at h hs ⊢ <;>
    omega

theorem and_mask_eq_zero (b : U8int) {j : Nat} (hj : j < 8) :
    (b &&& 1#8 <<< j == 0) = !b.getLsbD j := by
  have hbit : ∀ i < 8, (b &&& 1#8 <<< j).getLsbD i = (b.getLsbD i && decide (i = j)) := by
    intro i hi
    rw [BitVec.getLsbD_and]
    exact congrArg _ (getLsbD_mask hj hi)
  cases hb : b.getLsbD j with
  | true =>
    have hne : b &&& 1#8 <<< j ≠ 0 := fun h => by simpa [hb, h] using hbit j hj
    exact beq_eq_false_iff_ne.mpr hne
  | false =>
    refine beq_iff_eq.mpr (BitVec.eq_of_getLsbD_eq fun i hi => ?_)
    rw [hbit i hi]
    by_cases hij : i = j
    · simp [hij, hb]
    · simp [hij]

theorem clearBitOf_eq (b : U8int) : State.clearBitOf b = clearInByte b :=
  List.find?_congr fun _ hj => and_mask_eq_zero b (List.mem_range.mp hj)

namespace State

variable {s : State} {bitmap a : U32int} {n : Nat}

theorem bitByte_resolves (h : s.PlainAt bitmap a n) {num : U32int} (hn : num.toNat / 8 < n) :
    s.dataAddr (bitmap + num / 8) = .ok (byteAt a num.toNat) := by
  have hd : num / 8 = BitVec.ofNat 32 (num.toNat / 8) := by
    apply BitVec.eq_of_toNat_eq
    simp only [bitvec_to_nat, Nat.reducePow, Nat.reduceMod]
    omega
  rw [byteAt, ← hd]
  exact h.resolves (num / 8) (by simpa only [bitvec_to_nat, Nat.reducePow, Nat.reduceMod] using hn)

theorem shift_eq_mask (num : U32int) : 1#8 <<< (num % 8) = mask (num.toNat % 8) := by
  rw [mask, BitVec.shiftLeft_eq']
  rfl

theorem setBit_of_plain (h : s.PlainAt bitmap a n) (num : U32int) (hn : num.toNat / 8 < n) :
    s.setBit bitmap num = .ok (s.withMemory (write8 s.memory (byteAt a num.toNat)
      (s.memory (byteAt a num.toNat) ||| mask (num.toNat % 8)))) := by
  have hr := bitByte_resolves h hn
  simp only [setBit, load8_of_resolves hr, ok_bind, store8_of_resolves hr, shift_eq_mask]

theorem clearBit_of_plain (h : s.PlainAt bitmap a n) (num : U32int) (hn : num.toNat / 8 < n) :
    s.clearBit bitmap num = .ok (s.withMemory (write8 s.memory (byteAt a num.toNat)
      (s.memory (byteAt a num.toNat) &&& ~~~mask (num.toNat % 8)))) := by
  have hr := bitByte_resolves h hn
  simp only [clearBit, load8_of_resolves hr, ok_bind, store8_of_resolves hr, shift_eq_mask]

theorem testBit_of_plain (h : s.PlainAt bitmap a n) {num : U32int} (hn : num.toNat / 8 < n) :
    s.testBit bitmap num = .ok (PackedBits.bit s.memory a num.toNat) := by
  have hr := bitByte_resolves h hn
  have hm := and_mask_eq_zero (s.memory (byteAt a num.toNat))
    (Nat.mod_lt num.toNat (by decide : 0 < 8))
  have hs : 1#8 <<< (num % 8) = 1#8 <<< (num.toNat % 8) := shift_eq_mask num
  simp only [testBit, load8_of_resolves hr, ok_bind, pure_ok, hs, bne, hm, Bool.not_not]
  rfl

/-- The answer of the scan, `-1` when every bit is set. -/
def scanResult : Option Nat → U32int
  | some k => BitVec.ofNat 32 k
  | none => -1

theorem firstClearBitFrom_of_plain (h : s.PlainAt bitmap a n) (hn : n ≤ 2^29) :
    ∀ (l : Nat) (offset : U32int), offset.toNat + l ≤ n →
      s.firstClearBitFrom bitmap offset l =
        .ok (scanResult (clearFrom s.memory a offset.toNat l)) := by
  intro l
  induction l with
  | zero => intro offset _; rfl
  | succ l ih =>
    intro offset hl
    have hload := load8_of_resolves (h.resolves offset (by omega))
    have hself : BitVec.ofNat 32 offset.toNat = offset := by simp
    have hnext : (offset + 1).toNat = offset.toNat + 1 := by bv_omega
    have hrest := ih (offset + 1) (by omega)
    rw [hnext] at hrest
    simp only [firstClearBitFrom, hload, ok_bind, clearFrom, hself, ← clearBitOf_eq]
    by_cases hff : s.memory (a + offset) = 0xff
    · -- a full byte is skipped, as the inner loop would also find nothing in it
      have hfull : clearBitOf 0xff = none := by decide
      simp only [hff, ne_eq, not_true_eq_false, if_false, hrest, hfull]
    · simp only [ne_eq, hff, not_false_eq_true, if_true]
      cases hb : clearBitOf (s.memory (a + offset)) with
      | none => simp only [hrest]
      | some j =>
        simp only [pure_ok, scanResult]
        congr 1
        bv_omega

theorem firstClearBit_of_plain {size : U32int}
    (h : s.PlainAt bitmap a ((size.toNat + 7) / 8)) :
    s.firstClearBit bitmap size =
      .ok (scanResult (clearFrom s.memory a 0 ((size.toNat + 7) / 8))) := by
  have hsize := size.isLt
  rw [firstClearBit, bitmapInBytes_toNat]
  exact firstClearBitFrom_of_plain h (by omega) _ 0 (by simp)

end State

end SimpleOs.Kernel
