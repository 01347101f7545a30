import SimpleOs.Kernel.DescriptorTables

/-!
# What the segment descriptors make accessible

A limit names the last valid unit, but `init_gdt` stores a count. A descriptor in
pages is exact when the length ends inside a page, and one page too long when it
does not; the descriptor in bytes is always one byte too long.
-/

namespace SimpleOs.Audit.Descriptors

open SimpleOs.Kernel

/-- Nothing past the segment rounded up to a unit, and all of the segment. -/
structure Exact (e : GdtEntry) (seg : Segment) : Prop where
  upper : ∀ lin, e.Accessible lin →
    (lin - seg.base).toNat < (seg.len.toNat + e.unit - 1) / e.unit * e.unit
  covers : ∀ lin, (lin - seg.base).toNat < seg.len.toNat → e.Accessible lin

/-- Every offset is the offset of some byte, so only the last one counts. -/
theorem exact_iff {e : GdtEntry} {seg : Segment} (hbase : e.base = seg.base)
    (hlast : e.lastOffset < 2^32) : Exact e seg ↔
      e.lastOffset < (seg.len.toNat + e.unit - 1) / e.unit * e.unit ∧
        seg.len.toNat ≤ e.lastOffset + 1 := by
  have hoffset : ∀ k < 2^32, (seg.base + BitVec.ofNat 32 k - seg.base).toNat = k := by
    intro k hk
    rw [add_sub_cancel_left, BitVec.toNat_ofNat, Nat.mod_eq_of_lt hk]
  have hlen := seg.len.isLt
  constructor
  · intro h
    constructor
    · have hup := h.upper (seg.base + BitVec.ofNat 32 e.lastOffset)
        (by rw [GdtEntry.Accessible, hbase, hoffset _ hlast])
      rwa [hoffset _ hlast] at hup
    · by_contra hshort
      have hcov := h.covers (seg.base + BitVec.ofNat 32 (e.lastOffset + 1))
        (by rw [hoffset _ (by omega)]; omega)
      rw [GdtEntry.Accessible, hbase, hoffset _ (by omega)] at hcov
      omega
  · intro h
    obtain ⟨hup, hcov⟩ := h
    refine ⟨fun lin hl => ?_, fun lin hl => ?_⟩
    · rw [GdtEntry.Accessible, hbase] at hl
      omega
    · rw [GdtEntry.Accessible, hbase]
      omega

section

variable (seg : Segment) (access : U8int)

def pageDescriptor : GdtEntry := setGlobalDescriptor seg.base (seg.len >>> 12) access 0xC0

theorem pageDescriptor_base : (pageDescriptor seg access).base = seg.base :=
    setGlobalDescriptor_base ..

theorem pageDescriptor_paged : (pageDescriptor seg access).paged = true :=
    setGlobalDescriptor_paged ..

theorem pageDescriptor_lastOffset :
    (pageDescriptor seg access).lastOffset = seg.len.toNat / 4096 * 4096 + 4095 := by
  have hlen := seg.len.isLt
  have hlimit : (pageDescriptor seg access).limit = (seg.len >>> 12).setWidth 20 :=
    setGlobalDescriptor_limit ..
  have hpages : ((seg.len >>> 12).setWidth 20).toNat = seg.len.toNat / 4096 := by
    rw [BitVec.toNat_setWidth, BitVec.toNat_ushiftRight, Nat.shiftRight_eq_div_pow]
    omega
  rw [GdtEntry.lastOffset, if_pos (pageDescriptor_paged seg access), hlimit, hpages]

theorem pageDescriptor_exact_iff :
    Exact (pageDescriptor seg access) seg ↔ seg.len.toNat % 4096 ≠ 0 := by
  have hlen := seg.len.isLt
  have hlast := pageDescriptor_lastOffset seg access
  rw [exact_iff (pageDescriptor_base seg access) (by omega), hlast, GdtEntry.unit,
    if_pos (pageDescriptor_paged seg access)]
  omega

/-- The first byte behind the segment is always accessible. -/
theorem pageDescriptor_reaches_end :
    (pageDescriptor seg access).Accessible (seg.base + seg.len) := by
  rw [GdtEntry.Accessible, pageDescriptor_base, pageDescriptor_lastOffset, add_sub_cancel_left]
  omega

end

def byteDescriptor (seg : Segment) : GdtEntry := setGlobalDescriptor seg.base seg.len 0x92 0x40

theorem byteDescriptor_not_exact (seg : Segment) : ¬ Exact (byteDescriptor seg) seg := by
  have hpaged : (byteDescriptor seg).paged = false := setGlobalDescriptor_paged ..
  have hlimit : (byteDescriptor seg).limit = seg.len.setWidth 20 := setGlobalDescriptor_limit ..
  have hlast : (byteDescriptor seg).lastOffset = seg.len.toNat % 2^20 := by
    rw [GdtEntry.lastOffset, hpaged, hlimit, BitVec.toNat_setWidth]
    rfl
  have hunit : (byteDescriptor seg).unit = 1 := by
    rw [GdtEntry.unit, hpaged]
    rfl
  have hbase : (byteDescriptor seg).base = seg.base := setGlobalDescriptor_base ..
  rw [exact_iff hbase (by omega), hlast, hunit]
  omega

/-- Each descriptor in pages is exact if and only if its length is no multiple of
a page, the video descriptor never is, and the writable data descriptors reach the
byte at which the code segment starts. -/
theorem descriptors_exact_iff (info : SegmentsInfo) :
    (∀ sel : Selector, Exact (gdtEntry info sel) (sel.segment info) ↔
      sel ≠ .kernelVideo ∧ (sel.segment info).len.toNat % 4096 ≠ 0) ∧
    (gdtEntry info .kernelData).Accessible (info.dataSegment.base + info.dataSegment.len) ∧
    (gdtEntry info .userData).Accessible (info.dataSegment.base + info.dataSegment.len) := by
  refine ⟨fun sel => ?_, pageDescriptor_reaches_end _ _, pageDescriptor_reaches_end _ _⟩
  have hpage : ∀ seg access, sel ≠ .kernelVideo → (Exact (pageDescriptor seg access) seg ↔
      sel ≠ .kernelVideo ∧ seg.len.toNat % 4096 ≠ 0) := by
    intro seg access hsel
    rw [pageDescriptor_exact_iff, and_iff_right hsel]
  cases sel with
  | kernelVideo =>
    refine iff_of_false (byteDescriptor_not_exact info.videoSegment) fun h => h.1 rfl
  | kernelCode => exact hpage info.codeSegment 0x9A Selector.noConfusion
  | kernelData => exact hpage info.dataSegment 0x92 Selector.noConfusion
  | userCode => exact hpage info.codeSegment 0xFA Selector.noConfusion
  | userData => exact hpage info.dataSegment 0xF2 Selector.noConfusion
  | kernelModule => exact hpage info.moduleSegment 0x92 Selector.noConfusion
  | kernelCodeData => exact hpage info.codeSegment 0x92 Selector.noConfusion

/-- One page of data, with the code segment right behind it. -/
def adjacentSegments : SegmentsInfo :=
  ⟨⟨0x101000, 0x1000⟩, ⟨0x100000, 0x1000⟩, ⟨0xB8000, 0xFA0⟩, ⟨0, 0⟩⟩

theorem adjacentSegments_not_exact :
    (gdtEntry adjacentSegments .kernelData).Accessible adjacentSegments.codeSegment.base ∧
    ¬ ∀ (info : SegmentsInfo) (sel : Selector), 0 < (sel.segment info).len.toNat →
      Exact (gdtEntry info sel) (sel.segment info) := by
  refine ⟨by decide, fun hall => ?_⟩
  have h := hall adjacentSegments .kernelData (by decide)
  exact (pageDescriptor_exact_iff _ _).mp h (by decide)

end SimpleOs.Audit.Descriptors
