import Mathlib.Data.Nat.Log
import SimpleOs.Audit.SlabCalls

/-!
# Sizes

The bin of a request is the first one whose cells are large enough. What serves a request
is large enough unless the header does not fit behind its size any more.
-/

namespace SimpleOs.Audit.SlabSizes

open SimpleOs.Kernel SimpleOs.Audit.SlabHeap SimpleOs.Audit.SlabBlocks SimpleOs.Audit.SlabCalls

section

variable {x : BitVec 32} {size i : U32int} {k : Nat}

theorem toNat_sub_one (hx : x ≠ 0) : (x - 1).toNat = x.toNat - 1 := by bv_omega

/-- `x & (x - 1)` is zero for the powers of two. -/
theorem and_pred_eq_zero (hlow : 2^k ≤ x.toNat) (hhigh : x.toNat < 2^(k + 1)) :
    x &&& (x - 1) = 0 ↔ x.toNat = 2^k := by
  have hpos := Nat.two_pow_pos k
  have hx : x ≠ 0 := by
    rintro rfl
    exact absurd hlow (Nat.not_le.mpr hpos)
  rw [← BitVec.toNat_inj, BitVec.toNat_and, toNat_sub_one hx]
  refine ⟨fun hz => ?_, fun he => ?_⟩
  · by_contra hne
    -- bit `k` is set in both
    have hbit : ∀ y, 2^k ≤ y → y < 2^(k + 1) → Nat.testBit y k = true := fun y hle hlt => by
      have hdiv : y / 2^k = 1 := Nat.div_eq_of_lt_le (by omega) (by rw [Nat.pow_succ] at hlt; omega)
      rw [Nat.testBit_eq_decide_div_mod_eq, hdiv]
      rfl
    have hand := Nat.testBit_and x.toNat (x.toNat - 1) k
    rw [hz, hbit x.toNat hlow hhigh, hbit (x.toNat - 1) (by omega) (by omega)] at hand
    rw [show (0 : BitVec 32).toNat = 0 from rfl, Nat.zero_testBit] at hand
    cases hand
  · rw [he, Nat.and_two_pow_sub_one_eq_mod, Nat.mod_self]
    rfl

/-- What the allocator takes for the logarithm is the one rounded up, and one more. -/
theorem log_toNat (hsize : size ≠ 0) :
    (32 - size.clz + if size &&& (size - 1) = 0 then 0 else 1).toNat =
      Nat.clog 2 size.toNat + 1 := by
  have hlt : size.clz.toNat < 32 := BitVec.lt_def.mp (BitVec.clz_lt_iff_ne_zero.mpr hsize)
  have hhigh := @BitVec.toNat_lt_two_pow_sub_clz 32 size
  have hlow := BitVec.two_pow_sub_clz_le_toNat_of_ne_zero (by decide) hsize
  obtain ⟨k, hk, hk1⟩ : ∃ k, 32 - 1 - size.clz.toNat = k ∧ 32 - size.clz.toNat = k + 1 :=
    ⟨_, rfl, by omega⟩
  have hsub : (32 - size.clz).toNat = k + 1 := by
    rw [BitVec.toNat_sub, show (32 : BitVec 32).toNat = 32 from rfl]
    omega
  rw [hk] at hlow
  rw [hk1] at hhigh
  have hle : Nat.clog 2 size.toNat ≤ k + 1 := (Nat.clog_le_iff_le_pow (by decide)).mpr hhigh.le
  by_cases hp : size.toNat = 2^k
  · rw [if_pos ((and_pred_eq_zero hlow hhigh).mpr hp), hp, Nat.clog_pow 2 k (by decide)]
    change (32 - size.clz + 0).toNat = _
    rw [add_zero, hsub]
  · have hge : k < Nat.clog 2 size.toNat := (Nat.lt_clog_iff_pow_lt (by decide)).mpr (by omega)
    rw [if_neg (mt (and_pred_eq_zero hlow hhigh).mp hp), BitVec.toNat_add, hsub]
    change (k + 1 + 1) % 2^32 = _
    omega

/-- The bin is the first one with cells large enough. -/
theorem binSize_le_iff (hsize : size ≠ 0) (hi : i < bigBin) :
    Slab.binSize size ≤ i ↔ size.toNat ≤ cellBytes i := by
  have hi' : i.toNat < 10 := hi
  have hlog := log_toNat hsize
  rw [cellBytes, ← Nat.clog_le_iff_le_pow (by decide), Slab.binSize]
  set l := 32 - size.clz + if size &&& (size - 1) = 0 then 0 else 1
  have hl : l.toNat ≤ 33 := by
    rw [hlog]
    have := (Nat.clog_le_iff_le_pow (b := 2) (x := size.toNat) (y := 32) (by decide)).mpr
      size.isLt.le
    omega
  rw [Slab.adjustBin]
  by_cases h2 : l ≤ smallestBinLog
  · have hl2 : l.toNat ≤ 2 := h2
    rw [if_pos h2]
    exact iff_of_true (by rw [BitVec.le_def]; exact Nat.zero_le _) (by omega)
  · have hl2 : ¬ l.toNat ≤ 2 := h2
    have hsub : (l - (smallestBinLog + 1)).toNat = l.toNat - 3 := by
      rw [BitVec.toNat_sub, show (smallestBinLog + 1).toNat = 3 from rfl]
      omega
    rw [if_neg h2]
    by_cases hb : l - (smallestBinLog + 1) > bigBin
    · have hb' : 10 < (l - (smallestBinLog + 1)).toNat := hb
      rw [if_pos hb]
      exact iff_of_false (BitVec.not_le.mpr hi) (by omega)
    · rw [if_neg hb, BitVec.le_def, hsub, hlog]
      omega

theorem binSize_lt_iff (hsize : size ≠ 0) : Slab.binSize size < bigBin ↔ size.toNat ≤ 2048 := by
  refine Iff.trans ?_ (binSize_le_iff hsize (i := 9) (by decide))
  rw [BitVec.lt_def, BitVec.le_def]
  exact Nat.lt_succ_iff

end

section

variable {A A' : Arena} {brk p size : U32int} {bytes : Nat}

/-- A request that leaves room for the header in 32 bits is given as much as it asks for. -/
theorem Serves.enough (hv : Serves A brk size p bytes A') (hsize : size ≠ 0)
    (hwrap : size.toNat + 48 < 2^32) : size.toNat ≤ bytes := by
  cases hv with
  | cell hbin hp => exact (binSize_le_iff hsize hbin).mp (BitVec.le_refl _)
  | page hbin hnone hall hnot => exact (binSize_le_iff hsize hbin).mp (BitVec.le_refl _)
  | block hbin hq hfit hbest => exact hfit
  | grow hbin hnone =>
    rw [blockBytes, blockPages_toNat, Nat.mod_eq_of_lt hwrap]
    omega

/-- So is one that something free is there for. -/
theorem Serves.enough_of_fits (hv : Serves A brk size p bytes A') (hsize : size ≠ 0)
    (hfits : Fits A size) : size.toNat ≤ bytes := by
  cases hv with
  | cell hbin hp => exact (binSize_le_iff hsize hbin).mp (BitVec.le_refl _)
  | page hbin hnone hall hnot => exact (binSize_le_iff hsize hbin).mp (BitVec.le_refl _)
  | block hbin hq hfit hbest => exact hfit
  | grow hbin hnone =>
    rw [Fits, if_neg hbin] at hfits
    obtain ⟨q, n, hq, hfit⟩ := hfits
    exact absurd hfit (Nat.not_le.mpr (hnone q n hq))

/-- A small one is given a cell of its bin. -/
theorem Serves.bytes_eq (hv : Serves A brk size p bytes A') (hsmall : Slab.binSize size < bigBin) :
    bytes = cellBytes (Slab.binSize size) := by
  cases hv with
  | cell _ hp => rfl
  | page _ hnone hall hnot => rfl
  | block hbin => exact absurd hsmall hbin
  | grow hbin => exact absurd hsmall hbin

/-- Otherwise a new block has one page. -/
theorem blockPages_wrap (hwrap : 2^32 ≤ size.toNat + 48) : blockPages size = 1 := by
  have hlt := size.isLt
  apply BitVec.eq_of_toNat_eq
  rw [blockPages_toNat]
  change _ = 1
  omega

end

end SimpleOs.Audit.SlabSizes
