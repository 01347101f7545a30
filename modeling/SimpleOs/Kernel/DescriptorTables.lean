import SimpleOs.Kernel.State

/-!
# `descriptor_tables.c`

The packed descriptors of the GDT, and what the processor makes of one: the base
put together again, and a limit that names the last valid byte, or the last valid
page when the granularity bit is set.
-/

namespace SimpleOs.Kernel

structure GdtEntry where
  limitLow : BitVec 16
  baseLow : BitVec 16
  baseMiddle : U8int
  access : U8int
  granularity : U8int
  baseHigh : U8int
deriving DecidableEq

def setGlobalDescriptor (base limit : U32int) (access gran : U8int) : GdtEntry where
  baseLow := (base &&& 0xFFFF).setWidth 16
  baseMiddle := ((base >>> 16) &&& 0xFF).setWidth 8
  baseHigh := ((base >>> 24) &&& 0xFF).setWidth 8
  limitLow := (limit &&& 0xFFFF).setWidth 16
  granularity := ((limit >>> 16) &&& 0x0F).setWidth 8 ||| (gran &&& 0xF0)
  access := access

/-- The segment descriptors `init_gdt` installs, by selector. -/
inductive Selector where
  | kernelCode
  | kernelData
  | userCode
  | userData
  | kernelVideo
  | kernelModule
  | kernelCodeData
deriving DecidableEq

def Selector.segment (info : SegmentsInfo) : Selector → Segment
  | .kernelCode | .userCode | .kernelCodeData => info.codeSegment
  | .kernelData | .userData => info.dataSegment
  | .kernelVideo => info.videoSegment
  | .kernelModule => info.moduleSegment

/-- `init_gdt`, without the null descriptor and the task state segment. -/
def gdtEntry (info : SegmentsInfo) : Selector → GdtEntry
  | .kernelCode =>
    setGlobalDescriptor info.codeSegment.base (info.codeSegment.len >>> 12) 0x9A 0xC0
  | .kernelData =>
    setGlobalDescriptor info.dataSegment.base (info.dataSegment.len >>> 12) 0x92 0xC0
  | .userCode =>
    setGlobalDescriptor info.codeSegment.base (info.codeSegment.len >>> 12) 0xFA 0xC0
  | .userData =>
    setGlobalDescriptor info.dataSegment.base (info.dataSegment.len >>> 12) 0xF2 0xC0
  | .kernelVideo =>
    setGlobalDescriptor info.videoSegment.base info.videoSegment.len 0x92 0x40
  | .kernelModule =>
    setGlobalDescriptor info.moduleSegment.base (info.moduleSegment.len >>> 12) 0x92 0xC0
  | .kernelCodeData =>
    setGlobalDescriptor info.codeSegment.base (info.codeSegment.len >>> 12) 0x92 0xC0

namespace GdtEntry

def base (e : GdtEntry) : U32int := e.baseHigh ++ e.baseMiddle ++ e.baseLow

def limit (e : GdtEntry) : BitVec 20 := e.granularity.setWidth 4 ++ e.limitLow

def paged (e : GdtEntry) : Bool := e.granularity.getLsbD 7

/-- Last valid offset. -/
def lastOffset (e : GdtEntry) : Nat :=
  if e.paged then e.limit.toNat * 4096 + 0xFFF else e.limit.toNat

/-- The linear bytes a descriptor makes accessible. -/
def Accessible (e : GdtEntry) (lin : U32int) : Prop := (lin - e.base).toNat ≤ e.lastOffset

instance (e : GdtEntry) (lin : U32int) : Decidable (e.Accessible lin) :=
  inferInstanceAs (Decidable (_ ≤ _))

/-- Bytes in a unit of the limit. -/
def unit (e : GdtEntry) : Nat := if e.paged then 4096 else 1

end GdtEntry

section

variable (b l : U32int) (access gran : U8int)

theorem setWidth_word (x : U32int) : (x &&& 0xFFFF).setWidth 16 = x.setWidth 16 := by
  have hmask : ∀ i < 16, (0xFFFF : U32int).getLsbD i = true := by decide
  refine BitVec.eq_of_getLsbD_eq fun i hi => ?_
  simp only [BitVec.getLsbD_setWidth, BitVec.getLsbD_and, hmask i hi, Bool.and_true]

theorem setWidth_byte (x : U32int) : (x &&& 0xFF).setWidth 8 = x.setWidth 8 := by
  have hmask : ∀ i < 8, (0xFF : U32int).getLsbD i = true := by decide
  refine BitVec.eq_of_getLsbD_eq fun i hi => ?_
  simp only [BitVec.getLsbD_setWidth, BitVec.getLsbD_and, hmask i hi, Bool.and_true]

@[simp] theorem setGlobalDescriptor_base : (setGlobalDescriptor b l access gran).base = b := by
  simp only [GdtEntry.base, setGlobalDescriptor, setWidth_word, setWidth_byte]
  refine BitVec.eq_of_getLsbD_eq fun i hi => ?_
  have hi' : i < 32 := hi
  simp only [BitVec.getLsbD_append, BitVec.getLsbD_setWidth, BitVec.getLsbD_ushiftRight]
  rcases (by omega : i < 16 ∨ (16 ≤ i ∧ i < 24) ∨ 24 ≤ i) with h | ⟨h1, h2⟩ | h
  · simp [h]
  · simp [Nat.not_lt.mpr h1, show i - 16 < 8 by omega, show 16 + (i - 16) = i by omega]
  · simp [show ¬ i < 16 by omega, show ¬ i - 16 < 8 by omega, show i - 16 - 8 < 8 by omega,
      show 24 + (i - 16 - 8) = i by omega]

/-- Twenty bits of the limit are kept. -/
@[simp] theorem setGlobalDescriptor_limit :
    (setGlobalDescriptor b l access gran).limit = l.setWidth 20 := by
  have hlow : ∀ i < 4, (0x0F : U32int).getLsbD i = true := by decide
  have hhigh : ∀ i < 4, (0xF0 : U8int).getLsbD i = false := by decide
  simp only [GdtEntry.limit, setGlobalDescriptor, setWidth_word]
  refine BitVec.eq_of_getLsbD_eq fun i hi => ?_
  simp only [BitVec.getLsbD_append, BitVec.getLsbD_setWidth, BitVec.getLsbD_ushiftRight,
    BitVec.getLsbD_or, BitVec.getLsbD_and]
  rcases Nat.lt_or_ge i 16 with h | h
  · simp [h, hi]
  · have h4 : i - 16 < 4 := by omega
    have h8 : i - 16 < 8 := by omega
    have hback : 16 + (i - 16) = i := by omega
    simp only [Nat.not_lt.mpr h, hi, h4, h8, hlow _ h4, hhigh _ h4, hback, decide_true,
      decide_false, Bool.and_true, Bool.and_false, Bool.or_false, Bool.true_and, if_false]

@[simp] theorem setGlobalDescriptor_paged :
    (setGlobalDescriptor b l access gran).paged = gran.getLsbD 7 := by
  simp [GdtEntry.paged, setGlobalDescriptor]

end

section

open SimpleOs.Lib.ByteMemory

/-- `set_global_descriptor`, one store after the other. -/
def setGlobalDescriptorAt (m : Memory) (entry base limit : U32int) (access gran : U8int) : Memory :=
  let m := write16 m (entry+2) ((base &&& 0xFFFF).setWidth 16)
  let m := write8 m (entry+4) (((base >>> 16) &&& 0xFF).setWidth 8)
  let m := write8 m (entry+7) (((base >>> 24) &&& 0xFF).setWidth 8)
  let m := write16 m entry ((limit &&& 0xFFFF).setWidth 16)
  let m := write8 m (entry+6) (((limit >>> 16) &&& 0x0F).setWidth 8)
  let m := write8 m (entry+6) (m (entry+6) ||| (gran &&& 0xF0))
  write8 m (entry+5) access

/-- `set_interrupt_gate`. -/
def setInterruptGateAt (m : Memory) (entry base : U32int) (selector : BitVec 16)
    (flags : U8int) : Memory :=
  let m := write16 m entry ((base &&& 0xFFFF).setWidth 16)
  let m := write16 m (entry+6) (((base >>> 16) &&& 0xFFFF).setWidth 16)
  let m := write16 m (entry+2) selector
  let m := write8 m (entry+4) 0x0
  write8 m (entry+5) flags

def gdtEntryAt (m : Memory) (entry : U32int) : GdtEntry where
  limitLow := read16 m entry
  baseLow := read16 m (entry+2)
  baseMiddle := m (entry+4)
  access := m (entry+5)
  granularity := m (entry+6)
  baseHigh := m (entry+7)

structure IdtEntry where
  baseLow : BitVec 16
  selector : BitVec 16
  alwaysZero : U8int
  flags : U8int
  baseHigh : BitVec 16
deriving DecidableEq

def idtEntryAt (m : Memory) (entry : U32int) : IdtEntry where
  baseLow := read16 m entry
  selector := read16 m (entry+2)
  alwaysZero := m (entry+4)
  flags := m (entry+5)
  baseHigh := read16 m (entry+6)

end

end SimpleOs.Kernel
