import SimpleOs.Kernel.DescriptorTables

/-!
# Descriptors as the processor decodes them

Both functions write a packed structure field by field into memory that may hold
anything. The fields come out as computed, and the processor puts base, limit and
handler together again from eight bytes.
-/

namespace SimpleOs.Audit.PackedDescriptors

open SimpleOs.Kernel SimpleOs.Lib.ByteMemory

/-- A segment descriptor taken apart. -/
structure SegmentDescriptor where
  base : U32int
  limit : BitVec 20
  access : U8int
  flags : BitVec 4
deriving DecidableEq

def segmentDescriptor (m : Memory) (a : U32int) : SegmentDescriptor where
  base := m (a+7) ++ m (a+4) ++ (m (a+3) ++ m (a+2))
  limit := (m (a+6)).extractLsb' 0 4 ++ (m (a+1) ++ m a)
  access := m (a+5)
  flags := (m (a+6)).extractLsb' 4 4

/-- A gate taken apart. -/
structure GateDescriptor where
  offset : U32int
  selector : BitVec 16
  flags : U8int
deriving DecidableEq

def gateDescriptor (m : Memory) (a : U32int) : GateDescriptor where
  offset := m (a+7) ++ m (a+6) ++ (m (a+1) ++ m a)
  selector := m (a+3) ++ m (a+2)
  flags := m (a+5)

section

variable (m : Memory) (a : U32int)

theorem second_byte (k : U32int) : a + k + 1 = a + (k + 1) := BitVec.add_assoc ..

theorem segmentDescriptor_eq : segmentDescriptor m a =
    { base := (gdtEntryAt m a).base
      limit := (gdtEntryAt m a).limit
      access := (gdtEntryAt m a).access
      flags := (gdtEntryAt m a).granularity.extractLsb' 4 4 } := by
  have hlow : read16 m (a+2) = m (a+3) ++ m (a+2) := by rw [read16, second_byte]; rfl
  have hnibble : (m (a+6)).setWidth 4 = (m (a+6)).extractLsb' 0 4 :=
    BitVec.setWidth_eq_extractLsb' (by decide)
  rw [segmentDescriptor, GdtEntry.base, GdtEntry.limit, gdtEntryAt, hlow, hnibble, read16]

theorem gateDescriptor_eq : gateDescriptor m a =
    { offset := (idtEntryAt m a).baseHigh ++ (idtEntryAt m a).baseLow
      selector := (idtEntryAt m a).selector
      flags := (idtEntryAt m a).flags } := by
  have hselector : read16 m (a+2) = m (a+3) ++ m (a+2) := by rw [read16, second_byte]; rfl
  have hhigh : read16 m (a+6) = m (a+7) ++ m (a+6) := by rw [read16, second_byte]; rfl
  rw [gateDescriptor, idtEntryAt, hselector, hhigh, read16]

end

section

variable (m : Memory) (entry base : U32int)

theorem gdtEntryAt_set (limit : U32int) (access gran : U8int) :
    gdtEntryAt (setGlobalDescriptorAt m entry base limit access gran) entry =
      setGlobalDescriptor base limit access gran := by
  simp (disch := first | bv_omega | fail) only [gdtEntryAt, setGlobalDescriptorAt,
    setGlobalDescriptor, write8_same,
    write8_of_ne, write16_of_far, read16_write8_of_far, read16_write16_of_far, read16_write16_same]

theorem idtEntryAt_set (selector : BitVec 16) (flags : U8int) :
    idtEntryAt (setInterruptGateAt m entry base selector flags) entry =
      { baseLow := base.setWidth 16
        selector := selector
        alwaysZero := 0
        flags := flags
        baseHigh := (base >>> 16).setWidth 16 } := by
  simp (disch := first | bv_omega | fail) only [idtEntryAt, setInterruptGateAt, setWidth_word,
    write8_same, write8_of_ne, read16_write8_of_far, read16_write16_of_far, read16_write16_same]

/-- Nothing else is written. -/
theorem setGlobalDescriptorAt_of_far (limit : U32int) (access gran : U8int) {x : U32int}
    (h : 8 ≤ (x - entry).toNat) : setGlobalDescriptorAt m entry base limit access gran x = m x := by
  simp (disch := first | bv_omega | fail) only [setGlobalDescriptorAt, write8_of_ne, write16_of_far]

theorem setInterruptGateAt_of_far (selector : BitVec 16) (flags : U8int) {x : U32int}
    (h : 8 ≤ (x - entry).toNat) : setInterruptGateAt m entry base selector flags x = m x := by
  simp (disch := first | bv_omega | fail) only [setInterruptGateAt, write8_of_ne, write16_of_far]

end

theorem high_nibble (low : U32int) (gran : U8int) :
    ((low &&& 0x0F).setWidth 8 ||| (gran &&& 0xF0)).extractLsb' 4 4 = gran.extractLsb' 4 4 := by
  have hlow : ∀ i < 4, (0x0F : U32int).getLsbD (4 + i) = false := by decide
  have hhigh : ∀ i < 4, (0xF0 : U8int).getLsbD (4 + i) = true := by decide
  refine BitVec.eq_of_getLsbD_eq fun i hi => ?_
  simp only [BitVec.getLsbD_extractLsb', BitVec.getLsbD_or, BitVec.getLsbD_and,
    BitVec.getLsbD_setWidth, hlow i hi, hhigh i hi, Bool.and_false, Bool.false_or, Bool.and_true]

theorem halves_joined (base : U32int) :
    ((base >>> 16).setWidth 16 ++ base.setWidth 16 : BitVec (16 + 16)) = base := by
  refine BitVec.eq_of_getLsbD_eq fun i hi => ?_
  simp only [BitVec.getLsbD_append, BitVec.getLsbD_setWidth, BitVec.getLsbD_ushiftRight]
  split_ifs with h
  · simp only [h, decide_true, Bool.true_and]
  · have hupper : i - 16 < 16 := by omega
    have hback : 16 + (i - 16) = i := by omega
    simp only [hupper, hback, decide_true, Bool.true_and]

structure Decodes (d : SegmentDescriptor) (base limit : U32int) (access gran : U8int) : Prop where
  base_eq : d.base = base
  limit_eq : d.limit.toNat = limit.toNat
  access_eq : d.access = access
  flags_eq : d.flags = gran.extractLsb' 4 4

/-- Every descriptor and every gate is read back as it was asked for. -/
theorem descriptors_decoded (m : Memory) (entry base limit : U32int) (access gran : U8int)
    (hlimit : limit.toNat < 2^20) (handler : U32int) (selector : BitVec 16) (flags : U8int) :
    Decodes (segmentDescriptor (setGlobalDescriptorAt m entry base limit access gran) entry)
      base limit access gran ∧
    gateDescriptor (setInterruptGateAt m entry handler selector flags) entry =
      { offset := handler, selector := selector, flags := flags } := by
  rw [segmentDescriptor_eq, gdtEntryAt_set, gateDescriptor_eq, idtEntryAt_set, halves_joined]
  refine ⟨⟨setGlobalDescriptor_base .., ?_, rfl, high_nibble ..⟩, rfl⟩
  rw [setGlobalDescriptor_limit, BitVec.toNat_setWidth, Nat.mod_eq_of_lt hlimit]

theorem descriptors_decoded_high :
    Decodes (segmentDescriptor (setGlobalDescriptorAt (fun _ => 0xFF) 0x1008 0xDEADBEEF
    0xFEDCB 0x9A 0xC5) 0x1008)
      0xDEADBEEF 0xFEDCB 0x9A 0xC5 ∧
    gateDescriptor (setInterruptGateAt (fun _ => 0xFF) 0x1008 0xCAFEBABE 0x08 0x8E) 0x1008 =
      { offset := 0xCAFEBABE, selector := 0x08, flags := 0x8E } :=
  descriptors_decoded _ _ _ _ _ _ (by decide) _ _ _

end SimpleOs.Audit.PackedDescriptors
