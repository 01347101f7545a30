import SimpleOs.Kernel.Paging

/-!
# `kheap.c`

The heap window after the page-table window, and its break.
-/

namespace SimpleOs.Kernel.State

def initHeap (s : State) : State :=
  let heapStart := s.pageTablesRelVirtAddr + tableSpan
  let freeVirtSpaceSize := s.segmentsInfo.dataSegment.len - heapStart
  let heapSize := (freeVirtSpaceSize / 2) &&& 0xFFFFF000
  { s with
    heapStartRelVirtAddr := heapStart
    heapSize := if heapSize > tableSpan then tableSpan else heapSize
    heapBrk := heapStart }

/-- One round of the loop of `sbrk`. -/
def sbrkPage (i : U32int) (s : State) : Except Trap State := do
  let (ptr, s) ← s.allocDataPage
  assert (ptr ≠ null)
  mmapUnchecked s.segmentsInfo.dataSegment i ptr true false s

def sbrk (s : State) (increment : U32int) : Except Trap (U32int × State) := do
  assert (increment % pageSize == 0)
  assert (s.heapBrk % pageSize == 0)
  assert (s.heapBrk + increment < s.heapStartRelVirtAddr + s.heapSize)
  let address := s.heapBrk
  let s ← forLoop (· < address + increment) pageSize address sbrkPage s
  let s := { s with heapBrk := s.heapBrk + increment }
  let s ← s.memset address 0x0 increment.toNat
  return (address, s)

end SimpleOs.Kernel.State
