import SimpleOs.Kernel.Common

/-!
# `memmove`

Each loop leaves what a move with all reads before all writes would, as long as it does
not write a byte before reading it. The direction is chosen so that it does not.
-/

namespace SimpleOs.Audit.MemoryMove

open SimpleOs.Kernel SimpleOs.Lib.ByteMemory

/-- Memory after `n` bytes are moved, read before any is written. -/
def moved (m : Memory) (dst src : U32int) (n : Nat) : Memory := fun x =>
  if (x - dst).toNat < n then m (src + (x - dst)) else m x

theorem moved_zero (m : Memory) (dst src : U32int) : moved m dst src 0 = m := rfl

section

variable {m : Memory} {p q : U32int} {n : Nat}

/-- The first byte of a move, if no later byte is read where it goes. -/
theorem moved_first (hn : n < 2^32) (hsafe : q = p ∨ n + 1 ≤ (q - p).toNat) :
    moved (write8 m q (m p)) (q + 1) (p + 1) n = moved m q p (n + 1) := by
  funext x
  by_cases hx : x = q
  · subst hx
    have hout : ¬ (x - (x + 1)).toNat < n := by bv_omega
    have hin : (x - x).toNat < n + 1 := by bv_omega
    rw [moved, moved, if_neg hout, if_pos hin, write8_same, sub_self, add_zero]
  · have hiff : (x - (q + 1)).toNat < n ↔ (x - q).toNat < n + 1 := by bv_omega
    by_cases hin : (x - q).toNat < n + 1
    · have hsame : p + 1 + (x - (q + 1)) = p + (x - q) := by bv_omega
      have hne : p + (x - q) ≠ q := by
        rcases hsafe with rfl | hfar
        · bv_omega
        · bv_omega
      rw [moved, moved, if_pos (hiff.mpr hin), if_pos hin, hsame, write8_of_ne _ _ hne]
    · rw [moved, moved, if_neg (fun h => hin (hiff.mp h)), if_neg hin, write8_of_ne _ _ hx]

/-- The last byte of a move, if no earlier byte is read where it goes. -/
theorem moved_last (hn : n < 2^32) (hsafe : n + 1 ≤ (p - q).toNat) :
    moved (write8 m (q + BitVec.ofNat 32 n) (m (p + BitVec.ofNat 32 n))) q p
    n = moved m q p (n + 1) := by
  funext x
  have hlast : (BitVec.ofNat 32 n).toNat = n := by rw [BitVec.toNat_ofNat, Nat.mod_eq_of_lt hn]
  by_cases hx : x = q + BitVec.ofNat 32 n
  · have hdiff : x - q = BitVec.ofNat 32 n := by rw [hx, add_sub_cancel_left]
    have hout : ¬ (x - q).toNat < n := by rw [hdiff, hlast]; exact Nat.lt_irrefl n
    have hin : (x - q).toNat < n + 1 := by rw [hdiff, hlast]; exact Nat.lt_succ_self n
    rw [moved, moved, if_neg hout, if_pos hin, hdiff, hx, write8_same]
  · have hiff : (x - q).toNat < n ↔ (x - q).toNat < n + 1 := by bv_omega
    by_cases hin : (x - q).toNat < n
    · have hne : p + (x - q) ≠ q + BitVec.ofNat 32 n := by bv_omega
      rw [moved, moved, if_pos hin, if_pos (hiff.mp hin), write8_of_ne _ _ hne]
    · rw [moved, moved, if_neg hin, if_neg (fun h => hin (hiff.mpr h)), write8_of_ne _ _ hx]

theorem copyUp_eq (hn : n < 2^32) (hsafe : q = p ∨ n ≤ (q - p).toNat) :
    copyUp m p q (p + BitVec.ofNat 32 n) = moved m q p n := by
  induction n generalizing m p q with
  | zero =>
    rw [BitVec.add_zero, copyUp, if_pos rfl, moved_zero]
  | succ n ih =>
    have hne : p ≠ p + BitVec.ofNat 32 (n + 1) := by bv_omega
    have hstop : p + BitVec.ofNat 32 (n + 1) = p + 1 + BitVec.ofNat 32 n := by bv_omega
    have hrest : q + 1 = p + 1 ∨ n ≤ (q + 1 - (p + 1)).toNat := by bv_omega
    rw [copyUp, if_neg hne, hstop, ih (by omega) hrest, moved_first (by omega) hsafe]

theorem copyDown_eq (hn : n < 2^32) (hsafe : n ≤ (p - q).toNat) :
    copyDown m (p + BitVec.ofNat 32 n) (q + BitVec.ofNat 32 n) p = moved m q p n := by
  induction n generalizing m with
  | zero =>
    rw [BitVec.add_zero, copyDown, if_pos rfl, moved_zero]
  | succ n ih =>
    have hne : p + BitVec.ofNat 32 (n + 1) ≠ p := by bv_omega
    have hp : p + BitVec.ofNat 32 (n + 1) - 1 = p + BitVec.ofNat 32 n := by bv_omega
    have hq : q + BitVec.ofNat 32 (n + 1) - 1 = q + BitVec.ofNat 32 n := by bv_omega
    rw [copyDown, if_neg hne, hp, hq, ih (by omega) (by omega), moved_last (by omega) hsafe]

end

section

variable (m : Memory) (dst src n : U32int)

theorem memmove_eq (hsrc : src.toNat + n.toNat ≤ 2^32) (hdst : dst.toNat + n.toNat ≤ 2^32) :
    memmove m dst src n = moved m dst src n.toNat := by
  have hn : BitVec.ofNat 32 n.toNat = n := by rw [BitVec.ofNat_toNat, BitVec.setWidth_eq]
  have hup := copyUp_eq (m := m) (p := src) (q := dst) n.isLt
  have hdown := copyDown_eq (m := m) (p := src) (q := dst) n.isLt
  rw [hn] at hup hdown
  rw [memmove]
  split_ifs with hinside
  · exact hdown (by bv_omega)
  · exact hup (by bv_omega)

/-- However the two ranges overlap, the destination gets the old bytes of the source and
nothing else changes. -/
theorem memmove_moves (hsrc : src.toNat + n.toNat ≤ 2^32) (hdst : dst.toNat + n.toNat ≤ 2^32) :
    (∀ i < n.toNat, memmove m dst src n (dst + BitVec.ofNat 32 i) = m (src + BitVec.ofNat 32 i)) ∧
      ∀ x : U32int, ¬ (dst.toNat ≤ x.toNat ∧ x.toNat < dst.toNat + n.toNat) →
        memmove m dst src n x = m x := by
  rw [memmove_eq m dst src n hsrc hdst]
  constructor
  · intro i hi
    have hin : (dst + BitVec.ofNat 32 i - dst).toNat < n.toNat := by bv_omega
    rw [moved, if_pos hin, add_sub_cancel_left]
  · intro x hx
    have hout : ¬ (x - dst).toNat < n.toNat := by bv_omega
    rw [moved, if_neg hout]

end

/-- Memory that holds the low byte of each address. -/
def countingMemory : Memory := fun x => x.setWidth 8

/-- Up by one byte, and down from the end of the address space. -/
theorem memmove_moves_overlapping :
    (∀ i < 8, memmove countingMemory 0x1001 0x1000 8 (0x1001 + BitVec.ofNat 32 i) =
      countingMemory (0x1000 + BitVec.ofNat 32 i)) ∧
    ∀ i < 8, memmove countingMemory 0xFFFFFFF7 0xFFFFFFF8 8 (0xFFFFFFF7 + BitVec.ofNat 32 i) =
      countingMemory (0xFFFFFFF8 + BitVec.ofNat 32 i) := by
  have hup := memmove_moves countingMemory 0x1001 0x1000 8 (by decide) (by decide)
  have hdown := memmove_moves countingMemory 0xFFFFFFF7 0xFFFFFFF8 8 (by decide) (by decide)
  exact ⟨hup.1, hdown.1⟩

end SimpleOs.Audit.MemoryMove
