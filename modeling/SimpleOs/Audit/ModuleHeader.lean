import SimpleOs.Kernel.ModuleLoader

/-!
# What an accepted module header guarantees

The header is untrusted and `init_module` compares sums modulo 2^32. Here the
ranges, the entry point and the acceptance of a correctly linked image are
settled in integers, with the exact inputs on which the checks fall short.
-/

namespace SimpleOs.Audit.ModuleHeader

open SimpleOs.Kernel SimpleOs.Lib.ByteMemory
open SimpleOs.Kernel.State (HeaderAt)

/-- An accepted header starts its code range below the entry point, so that
range does not wrap; nothing of the kind holds for the data range. -/
theorem codeRange_fits {h : ModuleHeader} {info : SegmentsInfo} (ha : h.Accepted info) :
    h.codeOffset.toNat + h.codeSize.toNat < 2^32 := by
  have hsize := h.codeSize.isLt
  have hbelow := ha.entry_below
  have hoff := ha.entry_offset
  omega

/-- Acceptance in one step: the integer facts, and what `start_module` reads back. -/
theorem accepted_of_initModule {s s' : State} {h : ModuleHeader} (hh : HeaderAt s h)
    (hi : s.moduleInfo.initialized = false) (hs : s.initModule = .ok (true, s')) :
    h.Accepted s.segmentsInfo ∧ s' = s.recordModule h := by
  obtain ⟨-, hf, rfl⟩ := State.initModule_true hh hi hs
  exact ⟨(h.fits_iff _).mp hf, rfl⟩

def headerMemory (base : U32int) (h : ModuleHeader) : Memory :=
  write32 (write32 (write32 (write32 (write32 (write32 (fun _ => 0) base h.magic)
    (base+4) h.codeOffset) (base+8) h.codeSize) (base+12) h.dataOffset) (base+16) h.dataSize)
    (base+20) h.entryPoint

/-- A 32 MiB machine, before paging, whose module segment starts with `h`. -/
def machineWith (h : ModuleHeader) (moduleLen : U32int) : State where
  memory := headerMemory 0x200000 h
  pagingEnabled := false
  cr3 := 0
  segmentsInfo := ⟨⟨0x1300000, 0x1000000⟩, ⟨0x300000, 0x1000000⟩, ⟨videoBaseAddr, 0xFA0⟩,
    ⟨0x200000, moduleLen⟩⟩
  memoryBitmap := ⟨0, 0, 0, 0⟩
  memoryBitmapInitialized := false
  dataTopAddress := 0
  kernelPageDirectory := 0
  pageTablesRelVirtAddr := 0
  heapStartRelVirtAddr := 0
  heapBrk := 0
  heapSize := 0
  moduleInfo := ⟨false, false, false, 0, 0, 0, 0, 0⟩

theorem headerAt_machineWith (h : ModuleHeader) (moduleLen : U32int) :
    HeaderAt (machineWith h moduleLen) h := by
  have hload : ∀ rel : U32int, rel.toNat ≤ 20 → (machineWith h moduleLen).moduleLoad32 rel =
      .ok (read32 (headerMemory 0x200000 h) (rel + 0x200000)) := fun rel hrel =>
    State.moduleLoad32_of_disabled rfl (by omega)
  constructor <;> rw [hload _ (by decide)] <;> simp [headerMemory, read32_write32_of_ne]

/-- Both ranges end inside the module segment, and the copy loops read every
byte of them and nothing else. -/
structure RangesInside (i : ModuleInfo) (moduleSegment : Segment) : Prop where
  code_end : i.codeOffset.toNat + i.codeSize.toNat < moduleSegment.len.toNat
  data_end : i.dataOffset.toNat + i.dataSize.toNat < moduleSegment.len.toNat
  code_copied : copyIndices i.codeOffset i.codeSize =
    (List.range i.codeSize.toNat).map (BitVec.ofNat 32)
  data_copied : copyIndices i.dataOffset i.dataSize =
    (List.range i.dataSize.toNat).map (BitVec.ofNat 32)
  code_source : ∀ k ∈ copyIndices i.codeOffset i.codeSize,
    (i.codeOffset + k).toNat < moduleSegment.len.toNat
  data_source : ∀ k ∈ copyIndices i.dataOffset i.dataSize,
    (i.dataOffset + k).toNat < moduleSegment.len.toNat

theorem copied_inside {offset size len : U32int} (h : offset.toNat + size.toNat < len.toNat) :
    ∀ k ∈ copyIndices offset size, (offset + k).toNat < len.toNat := by
  have hlen := len.isLt
  intro k hk
  rw [copyIndices_of_fits (by omega)] at hk
  obtain ⟨j, hj, rfl⟩ := List.mem_map.mp hk
  have hjs := List.mem_range.mp hj
  rw [BitVec.toNat_add, BitVec.toNat_ofNat]
  omega

/-- A first acceptance puts both ranges inside the module and has them copied
exactly when the data range does not wrap around 2^32. -/
theorem rangesInside_iff {s s' : State} {h : ModuleHeader} (hh : HeaderAt s h)
    (hi : s.moduleInfo.initialized = false) (hs : s.initModule = .ok (true, s')) :
    RangesInside s'.moduleInfo s.segmentsInfo.moduleSegment ↔
      h.dataOffset.toNat + h.dataSize.toNat < 2^32 := by
  obtain ⟨ha, rfl⟩ := accepted_of_initModule hh hi hs
  have hcode := codeRange_fits ha
  constructor
  · intro hr
    have hend : h.dataOffset.toNat + h.dataSize.toNat < _ := hr.data_end
    exact lt_trans hend s.segmentsInfo.moduleSegment.len.isLt
  · intro hdata
    have hcend := ha.code_end
    have hdend := ha.data_end
    rw [Nat.mod_eq_of_lt hcode] at hcend
    rw [Nat.mod_eq_of_lt hdata] at hdend
    exact {
      code_end := hcend
      data_end := hdend
      code_copied := copyIndices_of_fits hcode
      data_copied := copyIndices_of_fits hdata
      code_source := copied_inside hcend
      data_source := copied_inside hdend }

/-- A program of 0x100 bytes of code and 0x50 bytes of data, linked at offset 0. -/
def linkedHeader : ModuleHeader := ⟨magic, 0, 0x100, 0x100, 0x50, 0x400018⟩

theorem linkedHeader_accepted :
    (machineWith linkedHeader 0x1000).initModule =
      .ok (true, (machineWith linkedHeader 0x1000).recordModule linkedHeader) := by
  rw [State.initModule_of_header (headerAt_machineWith _ _) rfl, if_pos (by decide)]

/-- A data range of 0x1100 bytes at offset 0xFFFFF000 ends at 0x100. -/
def wrappedHeader : ModuleHeader := ⟨magic, 0, 0x100, 0xFFFFF000, 0x1100, 0x400018⟩

theorem wrappedHeader_accepted :
    (machineWith wrappedHeader 0x1000).initModule =
      .ok (true, (machineWith wrappedHeader 0x1000).recordModule wrappedHeader) := by
  rw [State.initModule_of_header (headerAt_machineWith _ _) rfl, if_pos (by decide)]

theorem rangesInside_linkedHeader :
    RangesInside ((machineWith linkedHeader 0x1000).recordModule linkedHeader).moduleInfo
      ⟨0x200000, 0x1000⟩ :=
  (rangesInside_iff (headerAt_machineWith linkedHeader 0x1000) rfl linkedHeader_accepted).mpr
    (by decide)

theorem wrappedHeader_not_inside :
    ¬ ∀ (s s' : State) (h : ModuleHeader), HeaderAt s h → s.moduleInfo.initialized = false →
      s.initModule = .ok (true, s') →
      RangesInside s'.moduleInfo s.segmentsInfo.moduleSegment := by
  intro hall
  have hr := hall _ _ _ (headerAt_machineWith wrappedHeader 0x1000) rfl wrappedHeader_accepted
  exact absurd hr.data_end (by decide)

/-- The entry point lies in the loaded code: in the range at the load address, on
a page the loader maps, at a byte it copies from the code range. -/
structure EntryLoaded (i : ModuleInfo) : Prop where
  above : 0x400000 ≤ i.entryPoint.toNat
  below : i.entryPoint.toNat < 0x400000 + i.codeSize.toNat
  mapped : ∃ index < (pageCountOf i.codeSize).toNat,
    i.entryPoint.toNat / 4096 = (0x400000 + index * 4096) / 4096
  copied : ∃ k ∈ copyIndices i.codeOffset i.codeSize, moduleCodeLoadAddr + k = i.entryPoint

theorem entryPointOffset_toNat {h : ModuleHeader} {info : SegmentsInfo} (ha : h.Accepted info) :
    h.entryPointOffset.toNat = h.entryPoint.toNat - 0x400000 := by
  have habove := ha.entry_above
  unfold ModuleHeader.entryPointOffset moduleCodeLoadAddr
  bv_omega

/-- The loader puts the first byte of the code at the load address, wherever in the file
it was. -/
theorem entryLoaded_iff_lt {s : State} {h : ModuleHeader} (ha : h.Accepted s.segmentsInfo) :
    EntryLoaded (s.recordModule h).moduleInfo ↔ h.entryPointOffset.toNat < h.codeSize.toNat := by
  have hcode := codeRange_fits ha
  have habove := ha.entry_above
  have hentry := h.entryPoint.isLt
  have heoff := entryPointOffset_toNat ha
  constructor
  · intro hl
    have hb : h.entryPoint.toNat < 0x400000 + h.codeSize.toNat := hl.below
    omega
  · intro hlt
    have hpages := pageCountOf_toNat h.codeSize
    refine ⟨habove.le, by change h.entryPoint.toNat < _ + h.codeSize.toNat; omega,
      ⟨(h.entryPoint.toNat - 0x400000) / 4096, ?_, ?_⟩, ⟨h.entryPointOffset, ?_, ?_⟩⟩
    · change _ < (pageCountOf h.codeSize).toNat
      omega
    · change h.entryPoint.toNat / 4096 = _
      omega
    · change _ ∈ copyIndices h.codeOffset h.codeSize
      rw [copyIndices_of_fits hcode]
      exact List.mem_map.mpr ⟨h.entryPointOffset.toNat, List.mem_range.mpr (by omega), by simp⟩
    · change moduleCodeLoadAddr + (h.entryPoint - moduleCodeLoadAddr) = h.entryPoint
      rw [BitVec.add_comm, BitVec.sub_add_cancel]

def enteredAt (h : ModuleHeader) (entryPoint : U32int) : ModuleHeader :=
    { h with entryPoint := entryPoint }

/-- Code at another file offset may be entered behind its end: at the last byte the check
lets pass, or at the last one there is. -/
theorem exists_entry_behind {h : ModuleHeader} {info : SegmentsInfo} (ha : h.Accepted info)
    (hoff : h.codeOffset ≠ 0) :
    ∃ entryPoint, (enteredAt h entryPoint).Accepted info ∧
    0x400000 + h.codeSize.toNat ≤ entryPoint.toNat := by
  have hcode := codeRange_fits ha
  have hpos := ha.code_pos
  have hbelow := ha.entry_below
  have hoffset := ha.entry_offset
  have hfits := ha.code_fits
  have hentry := h.entryPoint.isLt
  have hlen := info.codeSegment.len.isLt
  have hne : h.codeOffset.toNat ≠ 0 := fun he => hoff (BitVec.eq_of_toNat_eq he)
  rw [Nat.mod_eq_of_lt hcode] at hbelow
  obtain ⟨entryPoint, hlow, hlast, hbehind⟩ :
      ∃ e : U32int, 0x400000 + h.codeOffset.toNat ≤ e.toNat ∧
      e.toNat < 0x400000 + (h.codeOffset.toNat + h.codeSize.toNat) ∧
          0x400000 + h.codeSize.toNat ≤ e.toNat := by
    by_cases hwrap : 0x400000 + (h.codeOffset.toNat + h.codeSize.toNat) ≤ 2^32
    · refine ⟨BitVec.ofNat 32 (0x400000 + (h.codeOffset.toNat + h.codeSize.toNat) - 1), ?_⟩
      rw [BitVec.toNat_ofNat]
      omega
    · refine ⟨BitVec.ofNat 32 (2^32 - 1), ?_⟩
      rw [BitVec.toNat_ofNat]
      omega
  have habove : 0x400000 < entryPoint.toNat := by omega
  have hbelow' : entryPoint.toNat - 0x400000 < (h.codeOffset.toNat + h.codeSize.toNat) % 2^32 := by
    rw [Nat.mod_eq_of_lt hcode]
    exact Nat.sub_lt_left_of_lt_add habove.le hlast
  exact ⟨entryPoint, ⟨hpos, ha.code_end, ha.data_end, habove, hbelow', Nat.le_sub_of_add_le' hlow,
    ha.data_room, ha.code_room, hfits, ha.data_fits⟩, hbehind⟩

/-- The check compares the entry point with file offsets. It is right for code at file
offset 0. A header with any other offset passes it with an entry point behind the code. -/
theorem entryLoaded_offset_zero {s s' : State} {h : ModuleHeader} (hh : HeaderAt s h)
    (hi : s.moduleInfo.initialized = false) (hs : s.initModule = .ok (true, s')) :
    (h.codeOffset = 0 → EntryLoaded s'.moduleInfo) ∧
    (h.codeOffset ≠ 0 → ∃ entryPoint, (enteredAt h entryPoint).fits s.segmentsInfo = true ∧
      ¬ EntryLoaded (s.recordModule (enteredAt h entryPoint)).moduleInfo) := by
  obtain ⟨ha, rfl⟩ := accepted_of_initModule hh hi hs
  have hcode := codeRange_fits ha
  constructor
  · intro hoff
    have hzero : h.codeOffset.toNat = 0 := by rw [hoff]; rfl
    have hbelow := ha.entry_below
    rw [Nat.mod_eq_of_lt hcode] at hbelow
    rw [entryLoaded_iff_lt ha, entryPointOffset_toNat ha]
    omega
  · intro hoff
    obtain ⟨entryPoint, hlast, hbehind⟩ := exists_entry_behind ha hoff
    refine ⟨entryPoint, (ModuleHeader.fits_iff _ _).mpr hlast, fun hl => ?_⟩
    have hlow : entryPoint.toNat < 0x400000 + h.codeSize.toNat := hl.below
    omega

theorem entryLoaded_linkedHeader :
    EntryLoaded ((machineWith linkedHeader 0x1000).recordModule linkedHeader).moduleInfo :=
  (entryLoaded_offset_zero (headerAt_machineWith linkedHeader 0x1000) rfl linkedHeader_accepted).1
    rfl

/-- Code at file offset 0x1000, entered 0x1018 bytes into its 0x100 bytes. -/
def displacedHeader : ModuleHeader := ⟨magic, 0x1000, 0x100, 0x1100, 0x50, 0x401018⟩

theorem displacedHeader_accepted :
    (machineWith displacedHeader 0x2000).initModule =
      .ok (true, (machineWith displacedHeader 0x2000).recordModule displacedHeader) := by
  rw [State.initModule_of_header (headerAt_machineWith _ _) rfl, if_pos (by decide)]

theorem displacedHeader_not_loaded :
    ¬ ∀ (s s' : State) (h : ModuleHeader), HeaderAt s h → s.moduleInfo.initialized = false →
      s.initModule = .ok (true, s') → EntryLoaded s'.moduleInfo := by
  intro hall
  have hl := hall _ _ _ (headerAt_machineWith displacedHeader 0x2000) rfl displacedHeader_accepted
  exact absurd hl.below (by decide)

/-- The header `startup.s` and the linker script of a module produce. -/
structure Linked (h : ModuleHeader) : Prop where
  magic : h.magic = Kernel.magic
  codeOffset : h.codeOffset = 0
  dataOffset : h.dataOffset = h.codeSize
  code_aligned : h.codeSize.toNat % 16 = 0
  data_aligned : h.dataSize.toNat % 16 = 0
  code_size : 0x18 < h.codeSize.toNat
  entryPoint : h.entryPoint = moduleCodeLoadAddr + 0x18

/-- The module segment is the image rounded up to a page, and both kernel
segments have room for it. -/
structure Handed (s : State) (h : ModuleHeader) : Prop where
  header : HeaderAt s h
  not_initialized : s.moduleInfo.initialized = false
  len : s.segmentsInfo.moduleSegment.len.toNat =
    (h.codeSize.toNat + h.dataSize.toNat + 4095) / 4096 * 4096
  code_room : 0x400000 + h.codeSize.toNat < s.segmentsInfo.codeSegment.len.toNat
  data_room : 0xC00000 + 4096 + h.dataSize.toNat < s.segmentsInfo.dataSegment.len.toNat

/-- The strict comparisons accept a linked image unless it fills its last page. -/
theorem initModule_linked_iff {s : State} {h : ModuleHeader} (hl : Linked h) (hd : Handed s h) :
    (∃ s', s.initModule = .ok (true, s')) ↔
      (h.codeSize.toNat + h.dataSize.toNat) % 4096 ≠ 0 := by
  have hlen := hd.len
  have hlt := s.segmentsInfo.moduleSegment.len.isLt
  have hcode := hl.code_size
  have hcroom := hd.code_room
  have hdroom := hd.data_room
  have hentry : h.entryPoint.toNat = 0x400018 := by rw [hl.entryPoint]; rfl
  have hoff : h.codeOffset.toNat = 0 := by rw [hl.codeOffset]; rfl
  have hdoff : h.dataOffset.toNat = h.codeSize.toNat := by rw [hl.dataOffset]
  rw [State.initModule_of_header hd.header hd.not_initialized]
  constructor
  · rintro ⟨s', hs⟩ hres
    split_ifs at hs with hc
    · have hdend := ((h.fits_iff _).mp hc.2).data_end
      omega
    · cases hs
  · intro hres
    have hf : h.fits s.segmentsInfo = true := by
      rw [h.fits_iff]
      constructor <;> omega
    rw [if_pos ⟨hl.magic, hf⟩]
    exact ⟨_, rfl⟩

/-- Code and data that fill the page together. -/
def fullPageHeader : ModuleHeader := ⟨magic, 0, 0x800, 0x800, 0x800, 0x400018⟩

theorem linkedHeader_linked : Linked linkedHeader := by constructor <;> decide

theorem linkedHeader_handed : Handed (machineWith linkedHeader 0x1000) linkedHeader :=
  ⟨headerAt_machineWith _ _, rfl, by decide, by decide, by decide⟩

theorem initModule_linkedHeader :
    ∃ s', (machineWith linkedHeader 0x1000).initModule = .ok (true, s') :=
  (initModule_linked_iff linkedHeader_linked linkedHeader_handed).mpr (by decide)

theorem fullPageHeader_rejected :
    ¬ ∀ (s : State) (h : ModuleHeader), Linked h → Handed s h →
      ∃ s', s.initModule = .ok (true, s') := by
  intro hall
  have hl : Linked fullPageHeader := by constructor <;> decide
  have hd : Handed (machineWith fullPageHeader 0x1000) fullPageHeader :=
    ⟨headerAt_machineWith _ _, rfl, by decide, by decide, by decide⟩
  obtain ⟨s', hs⟩ := hall _ _ hl hd
  rw [State.initModule_of_header hd.header rfl, if_neg (by decide)] at hs
  cases hs

end SimpleOs.Audit.ModuleHeader
