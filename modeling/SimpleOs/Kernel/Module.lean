import SimpleOs.Kernel.Access

/-!
# `module.c`

The header at the start of the module segment and its validation. The checks
compare sums modulo 2^32, exactly as written.
-/

namespace SimpleOs.Kernel

open SimpleOs.Lib.ByteMemory

abbrev magic : U32int := 0xDEADBEEF
abbrev moduleCodeLoadAddr : U32int := 0x00400000
abbrev moduleDataLoadAddr : U32int := 0x00C00000

/-- The six words of `startup.s`. -/
structure ModuleHeader where
  magic : U32int
  codeOffset : U32int
  codeSize : U32int
  dataOffset : U32int
  dataSize : U32int
  entryPoint : U32int
deriving DecidableEq

def ModuleHeader.codeMaxOffset (h : ModuleHeader) : U32int := h.codeOffset + h.codeSize
def ModuleHeader.dataMaxOffset (h : ModuleHeader) : U32int := h.dataOffset + h.dataSize
def ModuleHeader.entryPointOffset (h : ModuleHeader) : U32int := h.entryPoint - moduleCodeLoadAddr

def SegmentsInfo.freeDataSpaceSize (info : SegmentsInfo) : U32int :=
  info.dataSegment.len - moduleDataLoadAddr - pageSize

def SegmentsInfo.freeCodeSpaceSize (info : SegmentsInfo) : U32int :=
  info.codeSegment.len - moduleCodeLoadAddr

/-- The ten conditions, in their order. -/
def ModuleHeader.fits (h : ModuleHeader) (info : SegmentsInfo) : Bool :=
  h.codeSize > 0x0 &&
  h.codeMaxOffset < info.moduleSegment.len &&
  h.dataMaxOffset < info.moduleSegment.len &&
  h.entryPoint > moduleCodeLoadAddr &&
  h.entryPointOffset < h.codeMaxOffset &&
  h.entryPointOffset ≥ h.codeOffset &&
  info.dataSegment.len > moduleDataLoadAddr + pageSize &&
  info.codeSegment.len > moduleCodeLoadAddr &&
  h.codeSize < info.freeCodeSpaceSize &&
  h.dataSize < info.freeDataSpaceSize

namespace State

/-- `movb %fs:(rel), %al`, with FS on the module segment. -/
def moduleLoad8 (s : State) (rel : U32int) : Except Trap U8int := do
  let a ← s.segAddr s.segmentsInfo.moduleSegment rel
  return s.memory a

/-- `mov %fs:(rel), %eax` -/
def moduleLoad32 (s : State) (rel : U32int) : Except Trap U32int := do
  let b0 ← s.moduleLoad8 rel
  let b1 ← s.moduleLoad8 (rel + 1)
  let b2 ← s.moduleLoad8 (rel + 2)
  let b3 ← s.moduleLoad8 (rel + 3)
  return b3 ++ b2 ++ b1 ++ b0

def getHeader (s : State) (magic : U32int) : Except Trap ModuleHeader := do
  let codeOffset ← s.moduleLoad32 0x4
  let codeSize ← s.moduleLoad32 0x8
  let dataOffset ← s.moduleLoad32 0xc
  let dataSize ← s.moduleLoad32 0x10
  let entryPoint ← s.moduleLoad32 0x14
  return ⟨magic, codeOffset, codeSize, dataOffset, dataSize, entryPoint⟩

def recordModule (s : State) (h : ModuleHeader) : State :=
  { s with moduleInfo := { s.moduleInfo with
      codeOffset := h.codeOffset
      codeSize := h.codeSize
      dataOffset := h.dataOffset
      dataSize := h.dataSize
      entryPoint := h.entryPoint
      running := false
      initialized := true } }

def initModule (s : State) : Except Trap (Bool × State) := do
  if s.moduleInfo.initialized then return (true, s)
  let m ← s.moduleLoad32 0x0
  if m = magic then
    let h ← s.getHeader m
    if h.fits s.segmentsInfo then return (true, s.recordModule h)
    else return (false, s)
  else return (false, s)

theorem moduleLoad8_of_disabled {s : State} (hp : s.pagingEnabled = false) {rel : U32int}
    (hrel : rel.toNat ≤ 4095) :
    s.moduleLoad8 rel = .ok (s.memory (rel + s.segmentsInfo.moduleSegment.base)) := by
  have hlimit := Segment.limit_toNat s.segmentsInfo.moduleSegment
  have hle : rel ≤ s.segmentsInfo.moduleSegment.limit := by rw [BitVec.le_def]; omega
  simp only [moduleLoad8, segAddr, hle, if_true, translate, hp, Bool.false_eq_true, if_false,
    ok_bind, pure_ok]

/-- The word at `rel` is the one at `x` if its bytes are. -/
theorem moduleLoad32_of_bytes {s : State} {m : Memory} {rel x : U32int}
    (h : ∀ k : U32int, k.toNat < 4 → s.moduleLoad8 (rel + k) = .ok (m (x + k))) :
    s.moduleLoad32 rel = .ok (read32 m x) := by
  have h0 := h 0 (by decide)
  rw [add_zero, add_zero] at h0
  simp only [moduleLoad32, h0, h 1 (by decide), h 2 (by decide), h 3 (by decide), ok_bind,
    pure_ok, read32]

/-- The first page of a segment is always within its limit. -/
theorem moduleLoad32_of_disabled {s : State} (hp : s.pagingEnabled = false) {rel : U32int}
    (hrel : rel.toNat + 3 ≤ 4095) :
    s.moduleLoad32 rel = .ok (read32 s.memory (rel + s.segmentsInfo.moduleSegment.base)) := by
  refine moduleLoad32_of_bytes fun k hk => ?_
  rw [moduleLoad8_of_disabled hp (by bv_omega), add_right_comm]

/-- The module segment starts with these six words. -/
structure HeaderAt (s : State) (h : ModuleHeader) : Prop where
  magic : s.moduleLoad32 0x0 = .ok h.magic
  codeOffset : s.moduleLoad32 0x4 = .ok h.codeOffset
  codeSize : s.moduleLoad32 0x8 = .ok h.codeSize
  dataOffset : s.moduleLoad32 0xc = .ok h.dataOffset
  dataSize : s.moduleLoad32 0x10 = .ok h.dataSize
  entryPoint : s.moduleLoad32 0x14 = .ok h.entryPoint

variable {s : State} {h : ModuleHeader}

theorem HeaderAt.getHeader (hh : HeaderAt s h) : s.getHeader h.magic = .ok h := by
  simp only [State.getHeader, hh.codeOffset, hh.codeSize, hh.dataOffset, hh.dataSize,
    hh.entryPoint, ok_bind, pure_ok]

theorem initModule_of_header (hh : HeaderAt s h) (hi : s.moduleInfo.initialized = false) :
    s.initModule = if h.magic = Kernel.magic ∧ h.fits s.segmentsInfo = true
      then .ok (true, s.recordModule h) else .ok (false, s) := by
  simp only [initModule, hi, Bool.false_eq_true, if_false, pure_ok, hh.magic, ok_bind, hh.getHeader]
  by_cases hm : h.magic = Kernel.magic
  · by_cases hf : h.fits s.segmentsInfo = true <;> simp only [hm, hf, if_true, if_false, and_true,
      and_false, Bool.false_eq_true]
  · simp only [hm, if_false, false_and]

/-- A first acceptance means the magic is right and all ten conditions hold. -/
theorem initModule_true (hh : HeaderAt s h) (hi : s.moduleInfo.initialized = false) {s' : State}
    (ha : s.initModule = .ok (true, s')) :
    h.magic = Kernel.magic ∧ h.fits s.segmentsInfo = true ∧ s' = s.recordModule h := by
  rw [initModule_of_header hh hi] at ha
  split_ifs at ha with hc
  · cases ha
    exact ⟨hc.1, hc.2, rfl⟩
  · cases ha

end State

/-- The accepted header in integers: everything the ten comparisons say. -/
structure ModuleHeader.Accepted (h : ModuleHeader) (info : SegmentsInfo) : Prop where
  code_pos : 0 < h.codeSize.toNat
  code_end : (h.codeOffset.toNat + h.codeSize.toNat) % 2^32 < info.moduleSegment.len.toNat
  data_end : (h.dataOffset.toNat + h.dataSize.toNat) % 2^32 < info.moduleSegment.len.toNat
  entry_above : 0x400000 < h.entryPoint.toNat
  entry_below : h.entryPoint.toNat - 0x400000 < (h.codeOffset.toNat + h.codeSize.toNat) % 2^32
  entry_offset : h.codeOffset.toNat ≤ h.entryPoint.toNat - 0x400000
  data_room : 0xC01000 < info.dataSegment.len.toNat
  code_room : 0x400000 < info.codeSegment.len.toNat
  code_fits : h.codeSize.toNat < info.codeSegment.len.toNat - 0x400000
  data_fits : h.dataSize.toNat < info.dataSegment.len.toNat - 0xC01000

/-- The last two subtractions are guarded, so none of them wraps. -/
theorem ModuleHeader.fits_iff (h : ModuleHeader) (info : SegmentsInfo) :
    h.fits info = true ↔ h.Accepted info := by
  simp only [fits, Bool.and_eq_true, decide_eq_true_eq, gt_iff_lt, ge_iff_le]
  simp only [codeMaxOffset, dataMaxOffset, entryPointOffset, SegmentsInfo.freeDataSpaceSize,
    SegmentsInfo.freeCodeSpaceSize, moduleCodeLoadAddr, moduleDataLoadAddr, pageSize]
  constructor
  · intro h
    obtain ⟨⟨⟨⟨⟨⟨⟨⟨⟨h1, h2⟩, h3⟩, h4⟩, h5⟩, h6⟩, h7⟩, h8⟩, h9⟩, h10⟩ := h
    constructor <;> bv_omega
  · intro h
    obtain ⟨h1, h2, h3, h4, h5, h6, h7, h8, h9, h10⟩ := h
    refine ⟨⟨⟨⟨⟨⟨⟨⟨⟨?_, ?_⟩, ?_⟩, ?_⟩, ?_⟩, ?_⟩, ?_⟩, ?_⟩, ?_⟩, ?_⟩ <;> bv_omega

end SimpleOs.Kernel
