import SimpleOs.Kernel.Heap

/-!
# `loader.c` and `start_kernel.c`

How the boot loader chooses the segments it hands over, and the kernel's start
up to the heap. Copying the kernel image is not part of the state.
-/

namespace SimpleOs.Kernel

abbrev lma : U32int := 0x100000

def KernelImage.kernelSize (image : KernelImage) : U32int :=
  image.loaderSize + image.kernelCodeSize + image.kernelDataSize

/-- An entry of the multiboot memory map. -/
structure MemoryMapEntry where
  addr : BitVec 64
  len : BitVec 64
  available : Bool

/-- The accumulators of `get_biggest_memory_chunk`. -/
structure ChunkSearch where
  maxLen : U32int
  upperMemSize : U32int
  maxMmap : Option MemoryMapEntry

def ChunkSearch.visit (memUpper : U32int) (c : ChunkSearch) (mmap : MemoryMapEntry) : ChunkSearch :=
  if mmap.available then
    let upper := (c.upperMemSize.setWidth 64 + mmap.len).setWidth 32
    if c.maxLen.setWidth 64 < mmap.len ∧ upper ≠ memUpper * 1000 then
      ⟨mmap.len.setWidth 32, upper, some mmap⟩
    else { c with upperMemSize := upper }
  else c

def getBiggestMemoryChunk (memUpper : U32int) (mmap : List MemoryMapEntry) :
    Option MemoryMapEntry :=
  (mmap.foldl (ChunkSearch.visit memUpper) ⟨0, 0, none⟩).maxMmap

/-- What the loader reads of the multiboot information. -/
structure MultibootInfo where
  memUpper : U32int
  mmap : List MemoryMapEntry
  /-- Start and end of the first module, if bit 3 of the flags is set. -/
  mods : Option (U32int × U32int)

structure SegmentsParameters where
  codeBaseAddr : U32int
  codeSegmentLen : U32int
  dataBaseAddr : U32int
  dataSegmentLen : U32int
  moduleBaseAddr : U32int
  moduleSegmentLen : U32int

/-- `(x % PAGE_SIZE) ? (x & 0xFFFFF000) + PAGE_SIZE : x` -/
def pageCeil (x : U32int) : U32int :=
  if x % pageSize ≠ 0 then (x &&& 0xFFFFF000) + pageSize else x

theorem pageCeil_toNat (x : U32int) :
    (pageCeil x).toNat = ((x.toNat + 4095) / 4096 * 4096) % 2^32 := by
  have hx := x.isLt
  have hm := pageMask_toNat x
  unfold pageCeil
  split_ifs with h <;>
    simp only [ne_eq, pageSize, bitvec_to_nat, Nat.reducePow, Nat.reduceMod] at h hm ⊢ <;> omega

def moduleRange : Option (U32int × U32int) → U32int × U32int
  | some (start, stop) => (start, pageCeil (stop - start))
  | none => (0, 0)

def initSegmentsParameters (image : KernelImage) (mods : Option (U32int × U32int))
    (maxMmap : MemoryMapEntry) : SegmentsParameters :=
  let moduleBaseAddr := (moduleRange mods).1
  let moduleSegmentLen := (moduleRange mods).2
  let minLoadAddr := pageCeil (if moduleSegmentLen > 0 then moduleBaseAddr + moduleSegmentLen
    else lma + image.kernelSize)
  let below := maxMmap.addr < minLoadAddr.setWidth 64
  let dataBaseAddr := if below then minLoadAddr else maxMmap.addr.setWidth 32
  let len := if below
    then (maxMmap.len - (minLoadAddr.setWidth 64 - maxMmap.addr)).setWidth 32
    else maxMmap.len.setWidth 32
  let dataSegmentLen := pageCeil (len >>> 1)
  { codeBaseAddr := dataBaseAddr + dataSegmentLen
    codeSegmentLen := len - dataSegmentLen
    dataBaseAddr := dataBaseAddr
    dataSegmentLen := dataSegmentLen
    moduleBaseAddr := moduleBaseAddr
    moduleSegmentLen := moduleSegmentLen }

abbrev bootloaderMagic : U32int := 0x2BADB002

/-- The parameters `goto_kernel` passes on, if `loader_main` gets there. `memMap` is bit 6
of the flags. Without a chunk `max_mmap` is NULL and the entry at address 0 is read. -/
def loaderMain (image : KernelImage) (memMap : Bool) (magic : U32int) (mbi : MultibootInfo)
    (entryAtNull : MemoryMapEntry) : Option SegmentsParameters :=
  if memMap && magic == bootloaderMagic then
    let maxMmap := getBiggestMemoryChunk mbi.memUpper mbi.mmap
    some (initSegmentsParameters image mbi.mods (maxMmap.getD entryAtNull))
  else none

namespace State

/-- The pages of the GDT and the IDT, cleared. Their descriptors are not read by
anything modelled. -/
def initDescriptorTables (s : State) : Except Trap State := do
  let (gdt, s) ← s.allocDataPage
  let s ← s.memset gdt 0x0 160
  let (idt, s) ← s.allocDataPage
  s.memset idt 0x0 2048

/-- `start_kernel` up to `init_heap`. -/
def startKernel (image : KernelImage) (p : SegmentsParameters) (s : State) : Except Trap State := do
  let s ← s.initMemoryManager image p.codeBaseAddr p.codeSegmentLen p.dataBaseAddr
    p.dataSegmentLen p.moduleBaseAddr p.moduleSegmentLen
  let s ← s.initDescriptorTables
  let s ← s.initPaging image
  return s.initHeap

end State

end SimpleOs.Kernel
