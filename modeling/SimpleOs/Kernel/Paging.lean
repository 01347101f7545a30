import SimpleOs.Kernel.MemoryManager

/-!
# `paging.c`

The page directory, the page tables and the mapping calls. Entries are written
and read through kernel pointers, which are translated by the tables being
edited once paging is on.
-/

namespace SimpleOs.Kernel

open SimpleOs.Lib.ByteMemory

/-- Size of the 1024 entries, and offset of the pointer array in a directory. -/
abbrev tableSize : U32int := 0x1000
/-- `sizeof(page_directory_t)`. -/
abbrev directorySize : U32int := 0x2000
abbrev tableSpan : U32int := pageSize * 1024

/-- The entry `set_pt_entry` leaves behind. -/
def ptEntry (present rw user : Bool) (address : U32int) : PagingEntry where
  present := present
  rw := rw
  user := user
  writeThrough := true
  cacheDisabled := true
  accessed := false
  dirty := false
  size := false
  global := false
  unused := 0
  address := address.extractLsb' 12 20

namespace State

def isPagingEnabled (s : State) : Bool := s.pagingEnabled

/-- The eleven assignments cover the word, so one store stands for them. -/
def setPtEntry (s : State) (entry : U32int) (present rw user : Bool) (address : U32int) :
    Except Trap State :=
  s.store32 entry (ptEntry present rw user address).toWord

def loadEntry (s : State) (entry : U32int) : Except Trap PagingEntry := do
  let w ← s.load32 entry
  return PagingEntry.ofWord w

def pageTablePtr (s : State) (dir index : U32int) : Except Trap U32int :=
  s.load32 (dir + tableSize + 4 * index)

/-- `dir->page_tables[index].address * PAGE_SIZE - segments_info.data_segment.base` -/
def physTable (s : State) (dir index : U32int) : Except Trap U32int := do
  let e ← s.loadEntry (dir + 4 * index)
  return e.frame - s.segmentsInfo.dataSegment.base

/-- Where the kernel finds an existing table: the pointer array holds window
addresses, good only once paging is on. -/
def tableBase (s : State) (dir index : U32int) : Except Trap U32int :=
  if s.isPagingEnabled then s.pageTablePtr dir index else s.physTable dir index

/-- The three entries of a new table: in the table of page tables, in the pointer
array and in the directory. -/
def linkPageTable (s : State) (dir pageTableIndex pt : U32int) : Except Trap State := do
  let ptPhysAddr := s.segmentsInfo.dataSegment.base + pt
  let pttIndex := (s.pageTablesRelVirtAddr + s.segmentsInfo.dataSegment.base) / tableSpan
  let ptt ← s.tableBase dir pttIndex
  let s ← s.setPtEntry (ptt + 4 * pageTableIndex) true true false ptPhysAddr
  let s ← s.store32 (dir + tableSize + 4 * pageTableIndex)
    (s.pageTablesRelVirtAddr + pageTableIndex * pageSize)
  s.setPtEntry (dir + 4 * pageTableIndex) true true true ptPhysAddr

/-- Clears the new table and comes back with the pointer used for it. -/
def cleanPageTable (s : State) (dir pageTableIndex pt : U32int) :
    Except Trap (U32int × State) := do
  if s.isPagingEnabled then
    let table ← s.pageTablePtr dir pageTableIndex
    let s ← s.memset table 0x0 4096
    return (table, s)
  else
    let s ← s.memset pt 0x0 4096
    return (pt, s)

/-- Comes back with the address of the page entry, NULL if there is no table and
none is to be made. The page for a new table is not checked against NULL. -/
def getPtEntry (s : State) (virtLinAddress dir : U32int) (makePageTable : Bool) :
    Except Trap (U32int × State) := do
  let pageNumber := virtLinAddress / pageSize
  let pageTableIndex := pageNumber / 1024
  let pageIndex := pageNumber % 1024
  let ptr ← s.pageTablePtr dir pageTableIndex
  if ptr ≠ null then
    let pt ← s.tableBase dir pageTableIndex
    return (pt + 4 * pageIndex, s)
  else if makePageTable then
    let (pt, s) ← s.allocDataPage
    let s ← s.linkPageTable dir pageTableIndex pt
    let (table, s) ← s.cleanPageTable dir pageTableIndex pt
    return (table + 4 * pageIndex, s)
  else return (null, s)

def mmap (s : State) (segment : Segment) (virtRelAddress physRelAddress : U32int)
    (rw user : Bool) : Except Trap (Bool × State) := do
  let virtLinAddress := virtRelAddress + segment.base
  let physLinAddress := physRelAddress + segment.base
  let (entry, s) ← s.getPtEntry virtLinAddress s.kernelPageDirectory true
  if entry ≠ null then
    let s ← s.setPtEntry entry true rw user physLinAddress
    return (true, s)
  else return (false, s)

def munmap (s : State) (segment : Segment) (virtRelAddress : U32int) :
    Except Trap (Bool × State) := do
  let virtLinAddress := virtRelAddress + segment.base
  let (entry, s) ← s.getPtEntry virtLinAddress s.kernelPageDirectory false
  if entry ≠ null then
    let s ← s.setPtEntry entry false false false 0x0
    return (true, s)
  else return (false, s)

/-- `user` is bit 2 of the error code; what the handler prints is left out. -/
def pageFaultHandler (s : State) (faultingAddress : U32int) (user : Bool) :
    Except Trap State := do
  if user then throw .moduleExit
  assert (faultingAddress < s.segmentsInfo.codeSegment.base)
  let relVirtFaultingAddress := faultingAddress - s.segmentsInfo.dataSegment.base
  let (relPhysAllocedAddress, s) ← s.allocDataPage
  if relPhysAllocedAddress = null then throw .panic
  let (_, s) ← s.mmap s.segmentsInfo.dataSegment relVirtFaultingAddress relPhysAllocedAddress
    true false
  return s

/-- First 4 MiB step at or above an address. -/
def windowIndex (topDataPhysAddress : U32int) : U32int :=
  if topDataPhysAddress % tableSpan ≠ 0 then topDataPhysAddress / tableSpan + 1
  else topDataPhysAddress / tableSpan

theorem windowIndex_toNat (top : U32int) :
    (windowIndex top).toNat = (top.toNat + 0x3FFFFF) / 0x400000 := by
  have ht := top.isLt
  unfold windowIndex
  split_ifs with h <;> simp only [ne_eq, tableSpan, pageSize, bitvec_to_nat, Nat.reducePow,
    Nat.reduceMod, Nat.reduceMul] at h ⊢ <;> omega

/-- The directory takes two pages; the second is taken to follow the first. -/
def initPagingTables (s : State) : Except Trap State := do
  let (dir, s) ← s.allocDataPage
  let s := { s with kernelPageDirectory := dir }
  let (_, s) ← s.allocDataPage
  let s ← s.memset dir 0x0 8192
  let base := s.segmentsInfo.dataSegment.base
  let tableIndex := windowIndex (dir + directorySize + base)
  let s := { s with pageTablesRelVirtAddr := tableIndex * tableSpan - base }
  let (table, s) ← s.allocDataPage
  let s ← s.memset table 0x0 4096
  let s ← s.setPtEntry (dir + 4 * tableIndex) true true false (table + base)
  let s ← s.store32 (dir + tableSize + 4 * tableIndex)
    (s.pageTablesRelVirtAddr + tableIndex * pageSize)
  s.setPtEntry (table + 4 * tableIndex) true true false (table + base)

/-- A mapping whose result the caller drops. -/
def mmapUnchecked (segment : Segment) (virtRelAddress physRelAddress : U32int) (rw user : Bool)
    (s : State) : Except Trap State := do
  let (_, s) ← s.mmap segment virtRelAddress physRelAddress rw user
  return s

/-- `for (index = 0; index < top; index += PAGE_SIZE) mmap(segment, index, index, rw, FALSE)` -/
def mapIdentity (segment : Segment) (top : U32int) (rw : Bool) : State → Except Trap State :=
  forLoop (· < top) pageSize 0 fun index => mmapUnchecked segment index index rw false

def mapKernelPages (image : KernelImage) (s : State) : Except Trap State := do
  let info := s.segmentsInfo
  let s ← mapIdentity info.dataSegment (s.kernelPageDirectory + directorySize) true s
  let stackRelAddr := info.dataSegment.len - pageSize
  let s ← mmapUnchecked info.dataSegment stackRelAddr stackRelAddr true false s
  let s ← mapIdentity info.codeSegment image.kernelCodeSize false s
  let s ← mmapUnchecked info.videoSegment 0x0 0x0 true false s
  if 0 < info.moduleSegment.len then
    mapIdentity info.moduleSegment info.moduleSegment.len true s
  else return s

def switchPageDirectory (dir : U32int) (s : State) : State :=
  { s with cr3 := dir + s.segmentsInfo.dataSegment.base, pagingEnabled := true }

def initPaging (image : KernelImage) (s : State) : Except Trap State := do
  let s ← s.initPagingTables
  let s ← s.mapKernelPages image
  let s := s.switchPageDirectory s.kernelPageDirectory
  assert s.isPagingEnabled
  return s

end State

end SimpleOs.Kernel
