import SimpleOs.Kernel.Loader
import Mathlib.Order.CompletePartialOrder
import Mathlib.Order.Interval.Set.Disjoint

/-!
# Where the loader puts the segments

The memory map gives 64-bit chunks and the loader computes with 32-bit words. The
placement is compared with the integers: which chunk, image and module make the
two segments what they are meant to be.
-/

namespace SimpleOs.Audit.LoaderSegments

open SimpleOs.Lib SimpleOs.Lib.ByteMemory
open SimpleOs.Kernel

/-- The addresses of `len` bytes from `base` on. -/
abbrev span (base len : Nat) : Set Nat := Set.Ico base (base + len)

/-- Segments where they belong, given the chunk they are taken from. -/
structure Placed (image : KernelImage) (mods : Option (U32int × U32int)) (chunk : MemoryMapEntry)
    (p : SegmentsParameters) : Prop where
  data_aligned : p.dataBaseAddr.toNat % 4096 = 0
  code_aligned : p.codeBaseAddr.toNat % 4096 = 0
  data_inside : chunk.addr.toNat ≤ p.dataBaseAddr.toNat ∧
    p.dataBaseAddr.toNat + p.dataSegmentLen.toNat ≤ chunk.addr.toNat + chunk.len.toNat
  code_inside : chunk.addr.toNat ≤ p.codeBaseAddr.toNat ∧
    p.codeBaseAddr.toNat + p.codeSegmentLen.toNat ≤ chunk.addr.toNat + chunk.len.toNat
  /-- The end of the data segment is an address: the code segment's. -/
  data_no_wrap : p.dataBaseAddr.toNat + p.dataSegmentLen.toNat < 2^32
  code_no_wrap : p.codeBaseAddr.toNat + p.codeSegmentLen.toNat ≤ 2^32
  disjoint : Disjoint (span p.dataBaseAddr.toNat p.dataSegmentLen.toNat)
    (span p.codeBaseAddr.toNat p.codeSegmentLen.toNat)
  image_kept : Disjoint (span lma.toNat image.kernelSize.toNat)
    (span p.dataBaseAddr.toNat p.dataSegmentLen.toNat ∪
      span p.codeBaseAddr.toNat p.codeSegmentLen.toNat)
  module_kept : ∀ r ∈ mods, Disjoint (Set.Ico r.1.toNat r.2.toNat)
    (span p.dataBaseAddr.toNat p.dataSegmentLen.toNat ∪
      span p.codeBaseAddr.toNat p.codeSegmentLen.toNat)

def roundUp (x : Nat) : Nat := (x + 4095) / 4096 * 4096

/-- Whole pages of a module, as a 32-bit length. -/
def moduleBytes (start stop : U32int) : Nat := roundUp ((stop - start).toNat) % 2^32

/-- The end of what is loaded: of the module if there is one, else of the image. -/
def loadedEnd (image : KernelImage) : Option (U32int × U32int) → Nat
  | some (start, stop) =>
    if 0 < moduleBytes start stop then start.toNat + moduleBytes start stop
    else lma.toNat + image.kernelSize.toNat
  | none => lma.toNat + image.kernelSize.toNat

/-- The page behind it, as a 32-bit address. -/
def floor (image : KernelImage) (mods : Option (U32int × U32int)) : Nat :=
  roundUp (loadedEnd image mods % 2^32) % 2^32

variable {image : KernelImage} {mods : Option (U32int × U32int)} {chunk : MemoryMapEntry}

theorem floor_lt (image : KernelImage) (mods : Option (U32int × U32int)) :
    floor image mods < 2^32 := Nat.mod_lt _ (by decide)

def usedStart (image : KernelImage) (mods : Option (U32int × U32int))
    (chunk : MemoryMapEntry) : Nat :=
  max chunk.addr.toNat (floor image mods)

/-- Bytes of the chunk from there on, as a 32-bit length. -/
def usedLen (image : KernelImage) (mods : Option (U32int × U32int))
    (chunk : MemoryMapEntry) : Nat :=
  (chunk.addr.toNat + chunk.len.toNat - usedStart image mods chunk) % 2^32

/-- What chunk, image and module have to be like. -/
structure Usable (image : KernelImage) (mods : Option (U32int × U32int)) (chunk : MemoryMapEntry) :
    Prop where
  below_limit : chunk.addr.toNat < 2^32
  aligned : usedStart image mods chunk % 4096 = 0
  reaches : usedStart image mods chunk ≤ chunk.addr.toNat + chunk.len.toNat
  fits : usedStart image mods chunk + usedLen image mods chunk ≤ 2^32
  room : usedLen image mods chunk ≤ 1 ∨ 4096 ≤ usedLen image mods chunk
  not_last : usedLen image mods chunk = 4096 → usedStart image mods chunk + 4096 < 2^32
  image_kept : Disjoint (span lma.toNat image.kernelSize.toNat)
    (span (usedStart image mods chunk) (usedLen image mods chunk))
  module_kept : ∀ r ∈ mods, Disjoint (Set.Ico r.1.toNat r.2.toNat)
    (span (usedStart image mods chunk) (usedLen image mods chunk))

/-- `min_load_addr` is the floor. -/
theorem minLoadAddr_toNat (image : KernelImage) (mods : Option (U32int × U32int)) :
    (pageCeil (if (moduleRange mods).2 > 0
    then (moduleRange mods).1 + (moduleRange mods).2 else lma + image.kernelSize)).toNat =
      floor image mods := by
  rw [pageCeil_toNat, floor, roundUp]
  congr 4
  rcases mods with _ | ⟨start, stop⟩
  · exact BitVec.toNat_add ..
  · have hlen : (pageCeil (stop - start)).toNat = moduleBytes start stop := pageCeil_toNat _
    have hpos : pageCeil (stop - start) > 0 ↔ 0 < moduleBytes start stop := by
      rw [gt_iff_lt, BitVec.lt_def, hlen]
      rfl
    simp only [moduleRange, loadedEnd, hpos]
    split_ifs
    · rw [BitVec.toNat_add, hlen]
    · exact BitVec.toNat_add ..

/-- The 32-bit length of what is halved. A chunk that ends below the floor wraps. -/
def loadLen (image : KernelImage) (mods : Option (U32int × U32int))
    (chunk : MemoryMapEntry) : Nat :=
  (chunk.len.toNat + 2^32 - (usedStart image mods chunk - chunk.addr.toNat)) % 2^32

/-- Rounding half of a 32-bit length up to a page does not wrap. -/
theorem half_toNat (len : U32int) : (pageCeil (len >>> 1)).toNat = roundUp (len.toNat / 2) := by
  have hlen := len.isLt
  rw [pageCeil_toNat, BitVec.toNat_ushiftRight, Nat.shiftRight_eq_div_pow, roundUp]
  omega

/-- The four words in integers. -/
theorem segments_toNat (image : KernelImage) (mods : Option (U32int × U32int))
    (chunk : MemoryMapEntry) : let p := initSegmentsParameters image mods chunk
    p.dataBaseAddr.toNat = (if chunk.addr.toNat < floor image mods then floor image mods
      else chunk.addr.toNat % 2^32) ∧
    p.dataSegmentLen.toNat = roundUp (loadLen image mods chunk / 2) ∧
    p.codeBaseAddr.toNat = (p.dataBaseAddr.toNat + p.dataSegmentLen.toNat) % 2^32 ∧
    p.codeSegmentLen.toNat =
      (2^32 - roundUp (loadLen image mods chunk / 2) + loadLen image mods chunk) % 2^32 := by
  intro p
  have hfloor := minLoadAddr_toNat image mods
  have hlt := floor_lt image mods
  simp only [p, initSegmentsParameters, half_toNat, BitVec.toNat_add, BitVec.toNat_sub, true_and]
  generalize pageCeil (if (moduleRange mods).2 > 0
    then (moduleRange mods).1 + (moduleRange mods).2 else lma + image.kernelSize) = minLoadAddr
    at hfloor ⊢
  have hwide : (minLoadAddr.setWidth 64).toNat = floor image mods := by
    rw [BitVec.toNat_setWidth, hfloor, Nat.mod_eq_of_lt (by omega)]
  have hbelow : chunk.addr < minLoadAddr.setWidth 64 ↔ chunk.addr.toNat < floor image mods := by
    rw [BitVec.lt_def, hwide]
  have hbase : (if chunk.addr < minLoadAddr.setWidth 64 then minLoadAddr
      else chunk.addr.setWidth 32).toNat = if chunk.addr.toNat < floor image mods
      then floor image mods else chunk.addr.toNat % 2^32 := by
    simp only [hbelow]
    split_ifs
    · exact hfloor
    · exact BitVec.toNat_setWidth ..
  have hlen : (if chunk.addr < minLoadAddr.setWidth 64
      then (chunk.len - (minLoadAddr.setWidth 64 - chunk.addr)).setWidth 32
      else chunk.len.setWidth 32).toNat = loadLen image mods chunk := by
    simp only [hbelow, loadLen, usedStart]
    have haddr := chunk.addr.isLt
    have hclen := chunk.len.isLt
    split_ifs with h
    · rw [BitVec.toNat_setWidth, BitVec.toNat_sub, BitVec.toNat_sub, hwide]
      omega
    · rw [BitVec.toNat_setWidth]
      omega
  rw [hbase, hlen]
  exact ⟨rfl, rfl, rfl⟩

theorem loadLen_eq (h : usedStart image mods chunk ≤ chunk.addr.toNat + chunk.len.toNat) :
    loadLen image mods chunk = usedLen image mods chunk := by
  have hle : chunk.addr.toNat ≤ usedStart image mods chunk := le_max_left ..
  unfold loadLen usedLen
  omega

theorem dataBase_eq (h : chunk.addr.toNat < 2^32) :
    (if chunk.addr.toNat < floor image mods then floor image mods else chunk.addr.toNat % 2^32) =
      usedStart image mods chunk := by
  unfold usedStart
  split_ifs <;> omega

/-- Half of a length, rounded up to a page, stays below the length unless that is a
small part of a page. -/
theorem half_le_iff (len : Nat) : roundUp (len / 2) ≤ len ↔ len ≤ 1 ∨ 4096 ≤ len := by
  unfold roundUp
  omega

theorem span_union (base m n : Nat) : span base m ∪ span (base + m) n = span base (m + n) := by
  rw [span, span, Set.Ico_union_Ico_eq_Ico (Nat.le_add_right ..) (Nat.le_add_right ..),
    Nat.add_assoc]

/-- Two segments that follow each other cover what was halved. -/
theorem halves_cover {start len : Nat} (h : roundUp (len / 2) ≤ len) :
    span start (roundUp (len / 2)) ∪ span (start + roundUp (len / 2)) (len - roundUp (len / 2)) =
      span start len := by
  rw [span_union, Nat.add_sub_cancel' h]

/-- The code segment gets the rest when the rounded half fits. -/
theorem rest_eq (h : roundUp (usedLen image mods chunk / 2) ≤ usedLen image mods chunk) :
    (2^32 - roundUp (usedLen image mods chunk / 2) + usedLen image mods chunk) % 2^32 =
      usedLen image mods chunk - roundUp (usedLen image mods chunk / 2) := by
  have hused : usedLen image mods chunk < 2^32 := Nat.mod_lt _ (by decide)
  omega

/-- Segments are placed on usable chunks only, ... -/
theorem Placed.usable (h : Placed image mods chunk (initSegmentsParameters image mods chunk)) :
    Usable image mods chunk := by
  obtain ⟨hbase, hdlen, hcbase, hclen⟩ := segments_toNat image mods chunk
  have hbelow : chunk.addr.toNat < 2^32 := h.data_inside.1.trans_lt (BitVec.isLt _)
  rw [dataBase_eq hbelow] at hbase
  have hreach : usedStart image mods chunk ≤ chunk.addr.toNat + chunk.len.toNat := by
    have hinside := h.data_inside.2
    omega
  rw [loadLen_eq hreach] at hdlen hclen
  have hdata := h.data_no_wrap
  have hcode := h.code_no_wrap
  rw [Nat.mod_eq_of_lt hdata] at hcbase
  have hhalf : roundUp (usedLen image mods chunk / 2) ≤ usedLen image mods chunk := by
    rcases Nat.eq_zero_or_pos (usedLen image mods chunk) with hzero | hpos
    · rw [hzero]
      decide
    · omega
  rw [rest_eq hhalf] at hclen
  have himage := h.image_kept
  have hmodule := h.module_kept
  have haligned := h.data_aligned
  rw [hcbase, hclen, hbase, hdlen, halves_cover hhalf] at himage
  rw [hcbase, hclen, hbase, hdlen, halves_cover hhalf] at hmodule
  rw [hbase] at haligned
  refine ⟨hbelow, haligned, hreach, by omega, (half_le_iff _).mp hhalf,
    fun hpage => ?_, himage, hmodule⟩
  rw [hpage] at hdlen
  change _ = 4096 at hdlen
  omega

/-- ... and on each of them. -/
theorem Usable.placed (h : Usable image mods chunk) :
    Placed image mods chunk (initSegmentsParameters image mods chunk) := by
  obtain ⟨hbase, hdlen, hcbase, hclen⟩ := segments_toNat image mods chunk
  have hstart : chunk.addr.toNat ≤ usedStart image mods chunk := le_max_left ..
  rw [dataBase_eq h.below_limit] at hbase
  rw [loadLen_eq h.reaches] at hdlen hclen
  have hhalf := (half_le_iff _).mpr h.room
  have haligned := h.aligned
  have hreach := h.reaches
  have hfits := h.fits
  have hlast := h.not_last
  have hend : usedStart image mods chunk + usedLen image mods chunk ≤
      chunk.addr.toNat + chunk.len.toNat := by
    have hmod := Nat.mod_le (chunk.addr.toNat + chunk.len.toNat - usedStart image mods chunk) (2^32)
    unfold usedLen
    omega
  have hhalf_aligned : roundUp (usedLen image mods chunk / 2) % 4096 = 0 := Nat.mul_mod_left ..
  have hbelow : usedStart image mods chunk < 2^32 := max_lt h.below_limit (floor_lt image mods)
  have hdata : usedStart image mods chunk + roundUp (usedLen image mods chunk / 2) < 2^32 := by
    by_contra hwrap
    have hall : roundUp (usedLen image mods chunk / 2) = usedLen image mods chunk := by omega
    have hpage : usedLen image mods chunk = 4096 := by
      unfold roundUp at hall
      omega
    have hnot := hlast hpage
    omega
  rw [rest_eq hhalf] at hclen
  rw [hbase, hdlen, Nat.mod_eq_of_lt hdata] at hcbase
  have himage := h.image_kept
  have hmodule := h.module_kept
  rw [← halves_cover hhalf] at himage hmodule
  constructor
  · rw [hbase]
    exact haligned
  · rw [hcbase]
    omega
  · rw [hbase, hdlen]
    omega
  · rw [hcbase, hclen]
    omega
  · rw [hbase, hdlen]
    exact hdata
  · rw [hcbase, hclen]
    omega
  · rw [hbase, hdlen, hcbase]
    exact Set.Ico_disjoint_Ico_same
  · rw [hbase, hdlen, hcbase, hclen]
    exact himage
  · rw [hbase, hdlen, hcbase, hclen]
    exact hmodule

/-- The image and the module are ranges that end some pages below 4 GiB. -/
structure Ordinary (image : KernelImage) (mods : Option (U32int × U32int)) : Prop where
  image_end : lma.toNat + image.kernelSize.toNat + 4096 ≤ 2^32
  module_end : ∀ r ∈ mods, r.1.toNat ≤ r.2.toNat ∧ r.2.toNat + 8192 ≤ 2^32

theorem moduleBytes_eq {start stop : U32int} (hle : start.toNat ≤ stop.toNat)
    (hend : stop.toNat + 8192 ≤ 2^32) :
    moduleBytes start stop = roundUp (stop.toNat - start.toNat) := by
  have hlen : (stop - start).toNat = stop.toNat - start.toNat :=
    BitVec.toNat_sub_of_le (BitVec.le_def.mpr hle)
  rw [moduleBytes, hlen, roundUp]
  omega

theorem stop_le_floor {start stop : U32int} (h : Ordinary image (some (start, stop)))
    (hne : start ≠ stop) : stop.toNat ≤ floor image (some (start, stop)) := by
  obtain ⟨hle, hend⟩ : start.toNat ≤ stop.toNat ∧ stop.toNat + 8192 ≤ 2^32 :=
    h.module_end (start, stop) rfl
  have hneq : start.toNat ≠ stop.toNat := fun he => hne (BitVec.eq_of_toNat_eq he)
  have hbytes := moduleBytes_eq hle hend
  unfold roundUp at hbytes
  rw [floor, loadedEnd, if_pos (by omega), roundUp]
  omega

theorem image_le_floor (h : Ordinary image mods) (hempty : ∀ r ∈ mods, r.1 = r.2) :
    lma.toNat + image.kernelSize.toNat ≤ floor image mods := by
  have hend := h.image_end
  have htop : loadedEnd image mods = lma.toNat + image.kernelSize.toNat := by
    rcases mods with _ | ⟨start, stop⟩
    · rfl
    · obtain rfl : start = stop := hempty (start, stop) rfl
      obtain ⟨hle, hstop⟩ := h.module_end (start, start) rfl
      rw [loadedEnd, moduleBytes_eq hle hstop, Nat.sub_self, if_neg (by decide)]
  rw [floor, htop, roundUp]
  omega

/-- Behind an ordinary load the module is never overwritten, and the image only if a module
is loaded below it. -/
theorem usable_iff_of_ordinary (h : Ordinary image mods) : Usable image mods chunk ↔
    chunk.addr.toNat < 2^32 ∧ usedStart image mods chunk % 4096 = 0 ∧
    usedStart image mods chunk ≤ chunk.addr.toNat + chunk.len.toNat ∧
    usedStart image mods chunk + usedLen image mods chunk ≤ 2^32 ∧
    (usedLen image mods chunk ≤ 1 ∨ 4096 ≤ usedLen image mods chunk) ∧
    (usedLen image mods chunk = 4096 → usedStart image mods chunk + 4096 < 2^32) ∧
    ((∃ r ∈ mods, r.1 ≠ r.2) → Disjoint (span lma.toNat image.kernelSize.toNat)
      (span (usedStart image mods chunk) (usedLen image mods chunk))) := by
  have hfloor : floor image mods ≤ usedStart image mods chunk := le_max_right ..
  constructor
  · intro hu
    exact ⟨hu.below_limit, hu.aligned, hu.reaches, hu.fits, hu.room,
      hu.not_last, fun _ => hu.image_kept⟩
  · intro h
    obtain ⟨hbelow, haligned, hreach, hfits, hroom, hlast, himage⟩ := h
    refine ⟨hbelow, haligned, hreach, hfits, hroom, hlast, ?_, ?_⟩
    · by_cases hloaded : ∃ r ∈ mods, r.1 ≠ r.2
      · exact himage hloaded
      · have hle := image_le_floor h fun r hr => by_contra fun hne => hloaded ⟨r, hr, hne⟩
        rw [span, span, Set.Ico_disjoint_Ico]
        omega
    · rintro ⟨start, stop⟩ hr
      obtain rfl : mods = some (start, stop) := hr
      by_cases hne : start = stop
      · rw [hne, Set.Ico_self]
        exact Set.empty_disjoint _
      · have hle := stop_le_floor h hne
        change Disjoint (Set.Ico start.toNat stop.toNat) _
        rw [span, Set.Ico_disjoint_Ico]
        omega

theorem visit_maxMmap {memUpper : U32int} {c : ChunkSearch} {mmap : MemoryMapEntry}
    (h : (c.visit memUpper mmap).maxMmap = some chunk) :
    c.maxMmap = some chunk ∨ mmap = chunk ∧ chunk.available = true := by
  simp only [ChunkSearch.visit] at h
  split_ifs at h with havailable
  · obtain rfl : mmap = chunk := Option.some.inj h
    exact .inr ⟨rfl, havailable⟩
  · exact .inl h
  · exact .inl h

/-- The chunk is an available entry of the map. -/
theorem biggest_mem {memUpper : U32int} {mmap : List MemoryMapEntry}
    (h : getBiggestMemoryChunk memUpper mmap = some chunk) :
    chunk ∈ mmap ∧ chunk.available = true := by
  suffices hfold : ∀ c : ChunkSearch,
      (mmap.foldl (ChunkSearch.visit memUpper) c).maxMmap = some chunk →
      c.maxMmap = some chunk ∨ chunk ∈ mmap ∧ chunk.available = true by
    exact (hfold _ h).resolve_left (by simp)
  clear h
  induction mmap with
  | nil => exact fun c hc => .inl hc
  | cons entry mmap ih =>
    intro c hc
    rcases ih _ hc with hvisit | ⟨hmem, havailable⟩
    · rcases visit_maxMmap hvisit with hold | ⟨rfl, havailable⟩
      · exact .inl hold
      · exact .inr ⟨List.mem_cons_self .., havailable⟩
    · exact .inr ⟨List.mem_cons_of_mem _ hmem, havailable⟩

/-- The loader's segments are placed in an available chunk. -/
def LoadedWell (image : KernelImage) (mbi : MultibootInfo) (p : SegmentsParameters) : Prop :=
  ∃ chunk, getBiggestMemoryChunk mbi.memUpper mbi.mmap = some chunk ∧
    chunk ∈ mbi.mmap ∧ chunk.available = true ∧ Placed image mbi.mods chunk p

/-- What `loader_main` hands to the kernel is placed exactly when it has found a usable
chunk. -/
theorem loadedWell_iff {memMap : Bool} {magic : U32int} {mbi : MultibootInfo}
    {entryAtNull : MemoryMapEntry} {p : SegmentsParameters}
    (h : loaderMain image memMap magic mbi entryAtNull = some p) :
    (LoadedWell image mbi p ↔ ∃ chunk, getBiggestMemoryChunk mbi.memUpper mbi.mmap = some chunk ∧
      Usable image mbi.mods chunk) ∧
    (Ordinary image mbi.mods → ∀ chunk, Usable image mbi.mods chunk ↔
      chunk.addr.toNat < 2^32 ∧ usedStart image mbi.mods chunk % 4096 = 0 ∧
      usedStart image mbi.mods chunk ≤ chunk.addr.toNat + chunk.len.toNat ∧
      usedStart image mbi.mods chunk + usedLen image mbi.mods chunk ≤ 2^32 ∧
      (usedLen image mbi.mods chunk ≤ 1 ∨ 4096 ≤ usedLen image mbi.mods chunk) ∧
      (usedLen image mbi.mods chunk = 4096 → usedStart image mbi.mods chunk + 4096 < 2^32) ∧
      ((∃ r ∈ mbi.mods, r.1 ≠ r.2) → Disjoint (span lma.toNat image.kernelSize.toNat)
        (span (usedStart image mbi.mods chunk) (usedLen image mbi.mods chunk)))) := by
  refine ⟨?_, fun ho chunk => usable_iff_of_ordinary ho⟩
  rw [loaderMain] at h
  split_ifs at h
  have hp := Option.some.inj h
  constructor
  · intro h
    obtain ⟨chunk, hchunk, -, -, hplaced⟩ := h
    rw [hchunk, Option.getD_some] at hp
    rw [← hp] at hplaced
    exact ⟨chunk, hchunk, hplaced.usable⟩
  · intro h
    obtain ⟨chunk, hchunk, husable⟩ := h
    rw [hchunk, Option.getD_some] at hp
    obtain ⟨hmem, havailable⟩ := biggest_mem hchunk
    refine ⟨chunk, hchunk, hmem, havailable, ?_⟩
    rw [← hp]
    exact husable.placed

def smallImage : KernelImage := ⟨0x3000, 0x8000, 0x6000, rfl, rfl⟩

/-- 128 MiB. -/
def smallMap : MultibootInfo where
  memUpper := 130048
  mmap := [⟨0, 0x9FC00, true⟩, ⟨0x9FC00, 0x400, false⟩, ⟨0x100000, 0x7F00000, true⟩]
  mods := none

/-- 8 GiB, of which 5 are above the 4 GiB line. -/
def largeMap : MultibootInfo where
  memUpper := 3144704
  mmap := [⟨0, 0x9FC00, true⟩, ⟨0x9FC00, 0x400, false⟩, ⟨0x100000, 0xBFF00000, true⟩,
    ⟨0x100000000, 0x140000000, true⟩]
  mods := none

theorem smallMap_usable : Usable smallImage none ⟨0x100000, 0x7F00000, true⟩ where
  below_limit := by decide
  aligned := rfl
  reaches := by decide
  fits := by decide
  room := .inr (by decide)
  not_last := fun _ => by decide
  image_kept := Set.Ico_disjoint_Ico.mpr (by decide)
  module_kept := fun r hr => by cases hr

theorem loadedWell_smallMap : LoadedWell smallImage smallMap
    (initSegmentsParameters smallImage none ⟨0x100000, 0x7F00000, true⟩) := by
  have hrun : loaderMain smallImage true bootloaderMagic smallMap ⟨0, 0, false⟩ =
      some (initSegmentsParameters smallImage none ⟨0x100000, 0x7F00000, true⟩) := rfl
  exact (loadedWell_iff hrun).1.mpr ⟨_, rfl, smallMap_usable⟩

/-- On the large machine the loader takes the chunk at 4 GiB and loads at address 0,
over its own image. -/
theorem largeMap_not_loadedWell : ∃ p,
    loaderMain smallImage true bootloaderMagic largeMap ⟨0, 0, false⟩ = some p ∧
    p.dataBaseAddr = 0 ∧ p.dataSegmentLen = 0x20000000 ∧ ¬ LoadedWell smallImage largeMap p := by
  refine ⟨initSegmentsParameters smallImage none ⟨0x100000000, 0x140000000, true⟩, rfl, by decide,
    by decide, ?_⟩
  intro h
  obtain ⟨chunk, hchunk, -, -, hplaced⟩ := h
  have htaken : getBiggestMemoryChunk largeMap.memUpper largeMap.mmap =
      some ⟨0x100000000, 0x140000000, true⟩ := rfl
  obtain rfl := Option.some.inj (htaken.symm.trans hchunk)
  have hbelow : 0x100000000 < 2^32 := hplaced.data_inside.1.trans_lt (BitVec.isLt _)
  exact absurd hbelow (by decide)

end SimpleOs.Audit.LoaderSegments
