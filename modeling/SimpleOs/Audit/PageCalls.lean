import SimpleOs.Audit.HeapGrowth
import SimpleOs.Audit.ModuleHeader
import SimpleOs.Kernel.ModuleLoader

/-!
# Calls that take a page and map it

After boot the heap, the page fault handler and the module loader all take a page and
map it. A run is any interleaving of these calls, with any other work in between that
leaves bitmaps, directory and tables alone. Outside the window every page stays bound
to the frame the last of these calls gave it.
-/

namespace SimpleOs.Audit.PageCalls

open SimpleOs.Kernel SimpleOs.Lib SimpleOs.Lib.ByteMemory SimpleOs.Audit.PageTables
open SimpleOs.Audit.KernelAccess SimpleOs.Audit.MapCalls SimpleOs.Audit.PagingBoot
open SimpleOs.Audit.AddressSpace SimpleOs.Audit.PageSupply SimpleOs.Audit.Bookkeeping
open SimpleOs.Audit.LinearView SimpleOs.Audit.PageRuns SimpleOs.Audit.KernelBoot
open SimpleOs.Audit.CallFrame SimpleOs.Audit.HeapGrowth
open SimpleOs.Audit.ModuleHeader (linkedHeader)
open SimpleOs.Kernel.State (markUsed)
open SimpleOs.Lib.PackedBits (bit byteAt)

/-- `load_module_code_and_data` for one data page, up to the clearing of the page. -/
def mapDataPage (index : U32int) (s : State) : Except Trap State := do
  let (physRelAddr, s) ← s.allocDataPage
  let virtRelAddr := moduleDataLoadAddr + index * pageSize
  assert (physRelAddr ≠ null)
  State.mmapUnchecked s.segmentsInfo.dataSegment virtRelAddr physRelAddr true true s

theorem loadDataPage_eq (index : U32int) (s : State) : State.loadDataPage index s = (do
    let s ← mapDataPage index s
    s.memset (moduleDataLoadAddr + index * pageSize) 0x0 4096) := by
  simp only [State.loadDataPage, mapDataPage, bind_assoc]

inductive PageCall where
  | heap (i : U32int)
  | fault (lin : U32int)
  | moduleCode (index : U32int)
  | moduleData (index : U32int)
  | moduleStack

namespace PageCall

def byModule : PageCall → Bool
  | .heap _ | .fault _ => false
  | _ => true

/-- The page comes from the code segment, and is read-only. -/
def ofCode : PageCall → Bool
  | .moduleCode _ => true
  | _ => false

def segment (info : SegmentsInfo) (c : PageCall) : Segment :=
  if c.ofCode then info.codeSegment else info.dataSegment

/-- Where the page is mapped, as an offset in the segment. -/
def virt (info : SegmentsInfo) : PageCall → U32int
  | .heap i => i
  | .fault lin => lin - info.dataSegment.base
  | .moduleCode index => moduleCodeLoadAddr + index * pageSize
  | .moduleData index => moduleDataLoadAddr + index * pageSize
  | .moduleStack => info.dataSegment.len - pageSize * 2

def lin (info : SegmentsInfo) (c : PageCall) : U32int := c.virt info + (c.segment info).base

/-- Frame number of page `p` of the segment. -/
def frame (info : SegmentsInfo) (c : PageCall) (p : U32int) : U32int :=
    (p + (c.segment info).base) / pageSize

/-- The page allocation of the call. -/
def take (c : PageCall) (s : State) : Except Trap (U32int × State) :=
  if c.ofCode then s.allocCodePage else s.allocDataPage

def perform (s : State) : PageCall → Except Trap State
  | .heap i => s.sbrkPage i
  | .fault lin => s.pageFaultHandler lin false
  | .moduleCode index => s.loadCodePage index
  | .moduleData index => mapDataPage index s
  | .moduleStack => s.loadStackPage

/-- The pages the loader maps for a module with this header, which `init_module` has accepted. -/
def OfModule (header : ModuleHeader) (info : SegmentsInfo) : PageCall → Prop
  | .moduleCode index => header.Accepted info ∧ index < pageCountOf header.codeSize
  | .moduleData index => header.Accepted info ∧ index < pageCountOf header.dataSize
  | .moduleStack => header.Accepted info
  | _ => True

/-- `sbrk` maps from the break on, and only a missing page makes a page fault. -/
def Due (s : State) : PageCall → Prop
  | .heap i => s.heapBrk.toNat ≤ i.toNat
  | .fault lin => s.translate lin = .error (.pageFault lin)
  | _ => True

end PageCall

section

variable {s s' : State} {p : U32int} {c : PageCall}

/-- Taking a page changes memory only. -/
theorem PageCall.take_memoryOnly (h : c.take s = .ok (p, s')) : MemoryOnly s s' := by
  rw [take] at h
  split_ifs at h
  · exact allocPage_memoryOnly h
  · exact allocDataPage_memoryOnly h

theorem PageCall.take_info (h : c.take s = .ok (p, s')) : s'.segmentsInfo = s.segmentsInfo := by
  rw [take_memoryOnly h]
  rfl

/-- All calls but the page fault handler take a page, check it and map it. -/
theorem PageCall.perform_eq (hc : ∀ lin, c ≠ .fault lin) (s : State) : c.perform s = (do
    let (p, s1) ← c.take s
    assert (p ≠ null)
    State.mmapUnchecked (c.segment s1.segmentsInfo) (c.virt s1.segmentsInfo) p
      (!c.ofCode) c.byModule s1) := by
  cases c with
  | fault lin => exact absurd rfl (hc lin)
  | _ => rfl

/-- Every call takes a page that is not NULL and maps it. -/
theorem PageCall.perform_ok (h : c.perform s = .ok s') : ∃ p s1, c.take s = .ok (p, s1) ∧ p ≠ null ∧
    State.mmapUnchecked (c.segment s.segmentsInfo) (c.virt s.segmentsInfo) p
    (!c.ofCode) c.byModule s1 =
      .ok s' := by
  by_cases hc : ∃ lin, c = .fault lin
  · obtain ⟨lin, rfl⟩ := hc
    rw [perform, State.pageFaultHandler] at h
    obtain ⟨u, hassert, h⟩ := bind_ok h
    obtain ⟨⟨p, s1⟩, htake, h⟩ := bind_ok h
    have hinfo := take_info (c := .fault lin) htake
    by_cases hnull : p = null
    · simp only [hnull, if_true] at h
      cases h
    · simp only [hnull, if_false, hinfo] at h
      exact ⟨p, s1, htake, hnull, h⟩
  · rw [perform_eq (not_exists.mp hc)] at h
    obtain ⟨⟨p, s1⟩, htake, h⟩ := bind_ok h
    obtain ⟨u, hassert, h⟩ := bind_ok h
    rw [take_info htake] at h
    exact ⟨p, s1, htake, of_decide_eq_true (assert_ok hassert), h⟩

/-- A page that is taken is mapped without further conditions, except by the page fault handler. -/
theorem PageCall.perform_of_take (hc : ∀ lin, c ≠ .fault lin)
    (htake : c.take s = .ok (p, s')) (hnull : p ≠ null) :
    c.perform s = State.mmapUnchecked (c.segment s.segmentsInfo)
    (c.virt s.segmentsInfo) p (!c.ofCode)
      c.byModule s' := by
  rw [perform_eq hc, bind_of_ok htake, ← take_info htake]
  exact bind_of_ok (assert_ne_null hnull) _

/-- Whether another call is due depends on the break only. -/
theorem PageCall.Due.congr (h : c.Due s) (hc : ∀ lin, c ≠ .fault lin)
    (hbrk : s'.heapBrk = s.heapBrk) : c.Due s' := by
  cases c with
  | heap i =>
    change s'.heapBrk.toNat ≤ i.toNat
    rw [hbrk]
    exact h
  | fault lin => exact absurd rfl (hc lin)
  | moduleCode index => trivial
  | moduleData index => trivial
  | moduleStack => trivial

end

/-- A missing page table can be had. -/
def TableHad (s : State) (lin : U32int) : Prop :=
  (entryAt s.data (pdCell s (tableIndex lin))).present = false →
    ∃ p s', s.allocDataPage = .ok (p, s') ∧ p ≠ null

/-- Anything else that goes on: the break may move up, and memory may change apart from
bitmaps, directory and page tables. -/
structure Work (s s' : State) : Prop where
  globals : s' = setHeap (s.withMemory s'.memory) s.heapStartRelVirtAddr s.heapSize s'.heapBrk
  brk : s.heapBrk.toNat ≤ s'.heapBrk.toNat
  kernel : ∀ y, s.memoryBitmap.codeBitmap.toNat ≤ y.toNat →
    y.toNat < s.kernelPageDirectory.toNat + 8192 → s'.data y = s.data y
  tables : ∀ i : U32int, i.toNat < 1024 → (entryAt s.data (pdCell s i)).present = true →
    ∀ x, x / pageSize * pageSize = (entryAt s.data (pdCell s i)).frame → s'.memory x = s.memory x

/-- The calls so far with the pages they took, the latest first. -/
inductive Runs (header : ModuleHeader) (s0 : State) : List (PageCall × U32int) → State → Prop
  | start : Runs header s0 [] s0
  | call {log : List (PageCall × U32int)} {s s1 s' : State} {c : PageCall} {p : U32int} :
      Runs header s0 log s → c.OfModule header s.segmentsInfo → c.Due s → c.take s = .ok (p, s1) →
      TableHad s1 (c.lin s.segmentsInfo) → c.perform s = .ok s' → Runs header s0 ((c, p) :: log) s'
  | work {log : List (PageCall × U32int)} {s s' : State} :
      Runs header s0 log s → Work s s' → Runs header s0 log s'

section

variable {header : ModuleHeader} {s0 s s' : State} {c : PageCall} {p : U32int}
  {log : List (PageCall × U32int)}

theorem PageCall.perform_memoryOnly (h : c.perform s = .ok s') : MemoryOnly s s' := by
  obtain ⟨p, s1, htake, -, hmap⟩ := perform_ok h
  exact (take_memoryOnly htake).trans (mmapUnchecked_memoryOnly hmap)

theorem Runs.info (hr : Runs header s0 log s) : s.segmentsInfo = s0.segmentsInfo := by
  induction hr with
  | start => rfl
  | call _ _ _ _ _ hcall ih =>
    rw [PageCall.perform_memoryOnly hcall]
    exact ih
  | work _ hw ih =>
    rw [hw.globals]
    exact ih

/-- The pages of the log belong to a module that was accepted. -/
theorem Runs.ofModule (hr : Runs header s0 log s) (hmem : (c, p) ∈ log) :
    c.OfModule header s0.segmentsInfo := by
  induction hr with
  | start => cases hmem
  | call hruns hmod _ _ _ _ ih =>
    rcases List.mem_cons.mp hmem with he | hin
    · cases he
      rw [← hruns.info]
      exact hmod
    · exact ih hin
  | work _ _ ih => exact ih hmem

end

/-- Whole segments that lie apart, and a page-table window below the place of the module's
data. -/
structure ModuleRoom (s : State) : Prop where
  apart : Apart s
  code_whole : s.segmentsInfo.codeSegment.len.toNat % 4096 = 0
  data_whole : s.segmentsInfo.dataSegment.len.toNat % 4096 = 0
  window_end : s.pageTablesRelVirtAddr.toNat + 0x400000 ≤ moduleDataLoadAddr.toNat

/-- The page of a call lies in its segment, outside the window, and is no kernel data. -/
structure Clear (s : State) (c : PageCall) : Prop where
  inside : (c.virt s.segmentsInfo).toNat / 4096 < (c.segment s.segmentsInfo).len.toNat / 4096
  outside : tableIndex (c.lin s.segmentsInfo) ≠ windowIndexOf s
  off_kernel : ∀ q, q.toNat < s.kernelPageDirectory.toNat + 8192 →
    (q + s.dataBase) / pageSize ≠ c.lin s.segmentsInfo / pageSize

section

variable {s : State} {header : ModuleHeader} {c : PageCall}

/-- A page behind the window in the data segment is clear, ... -/
theorem clear_in_data (hl : Layout s) (h : ModuleRoom s) (hc : c.ofCode = false)
    (hlow : 0xC00000 ≤ (c.virt s.segmentsInfo).toNat)
    (hin : (c.virt s.segmentsInfo).toNat / 4096 < s.segmentsInfo.dataSegment.len.toNat / 4096) :
    Clear s c := by
  have hseg : c.segment s.segmentsInfo = s.segmentsInfo.dataSegment := by
    rw [PageCall.segment, hc, if_neg Bool.false_ne_true]
  have hdend := h.apart.data_end
  have hstart := hl.window_start
  have habove := hl.window_above
  have hwin : s.pageTablesRelVirtAddr.toNat + 0x400000 ≤ 0xC00000 := h.window_end
  have halign := hl.base_aligned
  have hlin : (c.lin s.segmentsInfo).toNat = (c.virt s.segmentsInfo).toNat + s.dataBase.toNat := by
    rw [PageCall.lin, hseg, BitVec.toNat_add]
    change ((c.virt s.segmentsInfo).toNat + s.dataBase.toNat) % 2^32 = _
    rw [segmentPages] at hdend
    omega
  refine ⟨by rwa [hseg], fun he => ?_, fun q hq he => ?_⟩
  · have hn := congrArg BitVec.toNat he
    rw [tableIndex_toNat, hlin] at hn
    omega
  · have hn := congrArg BitVec.toNat he
    rw [page_toNat, page_toNat, hlin, BitVec.toNat_add] at hn
    omega

/-- ... and so is every page of the code segment. -/
theorem clear_in_code (hl : Layout s) (h : ModuleRoom s) (ha : header.Accepted s.segmentsInfo)
    (hc : c.ofCode = true)
    (hin : (c.virt s.segmentsInfo).toNat / 4096 < s.segmentsInfo.codeSegment.len.toNat / 4096) :
    Clear s c := by
  have hseg : c.segment s.segmentsInfo = s.segmentsInfo.codeSegment := if_pos hc
  have hcend := h.apart.code_end
  have hdend := h.apart.data_end
  have hdisj := h.apart.disjoint
  have hroom := ha.data_room
  have hstart := hl.window_start
  have hend := hl.dir_end
  have hwin : s.pageTablesRelVirtAddr.toNat + 0x400000 ≤ 0xC00000 := h.window_end
  have halign := hl.base_aligned
  have hcalign := h.apart.code_aligned
  have hlin : (c.lin s.segmentsInfo).toNat =
      (c.virt s.segmentsInfo).toNat + (codeBase s).toNat := by
    rw [PageCall.lin, hseg, BitVec.toNat_add]
    change ((c.virt s.segmentsInfo).toNat + (codeBase s).toNat) % 2^32 = _
    rw [codePages] at hcend
    omega
  have hpages : 0xC00000 < 4096 * segmentPages s := by
    rw [segmentPages]
    omega
  rw [codePages] at hcend hdisj
  refine ⟨by rwa [hseg], fun he => ?_, fun q hq he => ?_⟩
  · have hn := congrArg BitVec.toNat he
    rw [tableIndex_toNat, hlin] at hn
    omega
  · have hn := congrArg BitVec.toNat he
    rw [page_toNat, page_toNat, hlin, BitVec.toNat_add] at hn
    omega

theorem index_toNat (load : U32int) {size index : U32int} (hindex : index < pageCountOf size)
    (hend : load.toNat + size.toNat + 4095 < 2^32) :
    (load + index * pageSize).toNat = load.toNat + 4096 * index.toNat ∧
    4096 * index.toNat < size.toNat := by
  rw [BitVec.lt_def, pageCountOf_toNat] at hindex
  rw [BitVec.toNat_add, BitVec.toNat_mul, show pageSize.toNat = 4096 from rfl]
  omega

/-- Every page of an accepted module is clear. -/
theorem ModuleRoom.clear (h : ModuleRoom s) (hl : Layout s) (hc : c.OfModule header s.segmentsInfo)
    (hm : c.byModule = true) : Clear s c := by
  have hcode := h.code_whole
  have hdata := h.data_whole
  have hcodeLen := s.segmentsInfo.codeSegment.len.isLt
  have hdataLen := s.segmentsInfo.dataSegment.len.isLt
  have hcodeLoad : moduleCodeLoadAddr.toNat = 0x400000 := rfl
  have hdataLoad : moduleDataLoadAddr.toNat = 0xC00000 := rfl
  cases c with
  | heap i => cases hm
  | fault lin => cases hm
  | moduleCode index =>
    obtain ⟨ha, hindex⟩ := hc
    have hfits := ha.code_fits
    obtain ⟨hvirt, hlt⟩ := index_toNat moduleCodeLoadAddr hindex (by omega)
    refine clear_in_code hl h ha rfl ?_
    change (moduleCodeLoadAddr + index * pageSize).toNat / 4096 < _
    omega
  | moduleData index =>
    obtain ⟨ha, hindex⟩ := hc
    have hroom := ha.data_room
    have hfits := ha.data_fits
    obtain ⟨hvirt, hlt⟩ := index_toNat moduleDataLoadAddr hindex (by omega)
    refine clear_in_data hl h rfl ?_ ?_
    · change 0xC00000 ≤ (moduleDataLoadAddr + index * pageSize).toNat
      omega
    · change (moduleDataLoadAddr + index * pageSize).toNat / 4096 < _
      omega
  | moduleStack =>
    have hroom := ModuleHeader.Accepted.data_room hc
    have hvirt : (PageCall.moduleStack.virt s.segmentsInfo).toNat =
        s.segmentsInfo.dataSegment.len.toNat - 8192 := by
      change (s.segmentsInfo.dataSegment.len - pageSize * 2).toNat = _
      rw [BitVec.toNat_sub, show (pageSize * 2).toNat = 8192 from rfl]
      omega
    exact clear_in_data hl h rfl (by omega) (by omega)

end

section

variable {s s1 s' : State} {t : TableMap} {a : Space} {p lin : U32int}

/-- The page a call got is the first free one. -/
theorem Ready.taken_data (h : Ready s t a) (hcall : s.allocDataPage = .ok (p, s1))
    (hnull : p ≠ null) :
    ∃ k rest, dataFree s = k :: rest ∧ p = pageAt k ∧ Ready s1 t a ∧ DataTaken s t k rest s1 := by
  obtain ⟨rfl, -⟩ | ⟨m, rfl, hp⟩ := allocDataPage_cases h.holds.tables (h.holds.live h.reach) hcall
  · exact absurd rfl hnull
  have hin := hp.inside
  have hmem : p.toNat / 4096 ∈ dataFree s := PackedBits.mem_freeList.mpr ⟨by omega, hp.free⟩
  obtain ⟨k, rest, hf⟩ := List.exists_cons_of_ne_nil (List.ne_nil_of_mem hmem)
  obtain ⟨s2, halloc, hready, htaken⟩ := h.allocDataPage hf
  cases halloc.symm.trans hcall
  exact ⟨k, rest, hf, rfl, hready, htaken⟩

theorem Ready.taken_code (h : Ready s t a) (hcall : s.allocCodePage = .ok (p, s1))
    (hnull : p ≠ null) :
    ∃ k rest, codeFree s = k :: rest ∧ p = pageAt k ∧ Ready s1 t a ∧ CodeTaken s t rest s1 := by
  have hl := h.holds.live h.reach
  have hsize : (s.bitmapSize s.memoryBitmap.codeBitmap).toNat = codePages s := by
    rw [State.bitmapSize, if_pos rfl]
    exact h.supply.size
  have hcend := h.supply.bitmap_end
  have hdend := h.holds.tables.bitmap_end
  have hlt := codePages_lt s
  have hplain := kernel_plain h.holds.tables hl (q := s.memoryBitmap.codeBitmap)
    (n := (codePages s + 7) / 8) (by omega)
  obtain ⟨hp, -⟩ | ⟨k, hk, -, hclear, -, -⟩ :=
    State.allocPage_cases rfl (by omega) (by rwa [hsize]) hcall
  · exact absurd hp hnull
  rw [bit_data] at hclear
  have hmem : k ∈ codeFree s := PackedBits.mem_freeList.mpr ⟨hsize ▸ hk, hclear⟩
  obtain ⟨j, rest, hf⟩ := List.exists_cons_of_ne_nil (List.ne_nil_of_mem hmem)
  obtain ⟨s2, halloc, hready, htaken⟩ := h.allocCodePage hf
  cases halloc.symm.trans hcall
  exact ⟨j, rest, hf, rfl, hready, htaken⟩

/-- A page table that is missing and can be had leaves a free page. -/
theorem Ready.free_of_tableHad (h : Ready s t a) (hhad : TableHad s lin)
    (hcov : tableIndex lin ∉ a.covered) : dataFree s ≠ [] := by
  have hi := tableIndex_lt lin
  have hnone : t (tableIndex lin) = none := by
    rw [h.holds.covered _ hi] at hcov
    exact Option.not_isSome_iff_eq_none.mp hcov
  obtain ⟨p, s', hcall, hnull⟩ := hhad (h.holds.tables.pde_none _ hi hnone)
  obtain ⟨k, rest, hf, -, -, -⟩ := Ready.taken_data h hcall hnull
  rw [hf]
  exact List.cons_ne_nil k rest

theorem belowDir_alloc {bitmap : U32int} {n : Nat} (hsize : (s.bitmapSize bitmap).toNat = n)
    (hn : n < 2^20) (hp : s.PlainAt bitmap (bitmap + s.dataBase) ((n + 7) / 8))
    (hend : bitmap.toNat + (n + 7) / 8 ≤ s.kernelPageDirectory.toNat)
    (hcall : s.allocPage bitmap = .ok (p, s1)) : BelowDir s s1.data := by
  obtain ⟨-, rfl⟩ | ⟨k, hk, -, -, -, rfl⟩ :=
    State.allocPage_cases rfl (by omega) (by rwa [hsize]) hcall
  · exact fun _ _ => rfl
  · rw [hsize] at hk
    rw [markUsed_data, BelowDir, State.withData_data]
    exact belowDir_marked hend hk

/-- Both bitmaps lie below the directory. -/
theorem Ready.take_below {c : PageCall} (h : Ready s t a) (hcall : c.take s = .ok (p, s1)) :
    BelowDir s s1.data := by
  have hl := h.holds.live h.reach
  have hcend := h.supply.bitmap_end
  have hdend := h.holds.tables.bitmap_end
  rw [PageCall.take] at hcall
  split_ifs at hcall
  · have hsize : (s.bitmapSize s.memoryBitmap.codeBitmap).toNat = codePages s := by
      rw [State.bitmapSize, if_pos rfl]
      exact h.supply.size
    exact belowDir_alloc hsize (codePages_lt s) (kernel_plain h.holds.tables hl (by omega))
      (by omega) hcall
  · exact belowDir_alloc h.holds.tables.bitmap_size (segmentPages_lt s)
      (kernel_plain h.holds.tables hl (by omega)) (by omega) hcall

/-- The entry of a page table that does not exist is free to be written. -/
theorem holds_window_write (h : Holds s t a) {w j : U32int} (hw : t (windowIndexOf s) = some w)
    (hj : j.toNat < 1024) (ht : t j = none) (v : U32int) :
    Holds (s.withData (write32 s.data (w + 4 * j) v)) t a := by
  have hwp := h.tables.page _ w hw
  have hwa := hwp.aligned
  have hcw := hwp.cell_toNat hj
  have habove := hwp.above
  have hda := h.tables.dir_aligned
  have hwalks := linkWindow h.tables.toWalks hw hj ht v
  have htables : Tables (s.withData (write32 s.data (w + 4 * j) v)) t := by
    refine ⟨hwalks, fun i hi => ?_⟩
    have hci := h.tables.ptrCell_toNat hi
    have hread : read32 (write32 s.data (w + 4 * j) v) (ptrCell s i) =
        read32 s.data (ptrCell s i) :=
      read32_write32_of_toNat_ne _ _ (by omega) (by omega) (by omega)
    rw [State.withData_data]
    exact hread.trans (h.tables.ptr i hi)
  refine holds_withTables h htables (h.accounted.sameBelow h.tables (sameBelow_page hwp _ hj v))
    fun i q l hi hq hl => ?_
  have hqp := h.tables.page _ q hq
  have hqa := hqp.aligned
  have hcq := hqp.cell_toNat hl
  have hapart := hqp.apart hwp fun he => hi (h.tables.inj _ _ _ hq (he ▸ hw))
  exact read32_write32_of_toNat_ne _ _ (by omega) (by omega) (by omega)

/-- A missing page of the window is the page of a table that does not exist. -/
theorem window_fault (h : Holds s t a) (hon : s.pagingEnabled = true)
    (hi : tableIndex lin = windowIndexOf s)
    (hfault : s.translate lin = .error (.pageFault lin)) : t (pageIndex lin) = none := by
  obtain ⟨w, hw⟩ := h.tables.window_some
  cases ht : t (pageIndex lin) with
  | none => rfl
  | some p =>
    have hm := h.tables.window w hw _ p (pageIndex_lt lin) ht
    have hwalk := h.tables.walk_eq lin
    rw [hi, hw, Option.bind_some, hm.visible, ← h.cr3 hon] at hwalk
    simp only [State.translate, hon, if_true, hwalk] at hfault
    cases hfault

/-- Mapping it changes no page outside the window. -/
theorem Ready.mmap_window (h : Ready s t a) {segment : Segment} {v : U32int}
    (hlin : v + segment.base = lin)
    (hi : tableIndex lin = windowIndexOf s) (hnone : t (pageIndex lin) = none)
    (p : U32int) (rw user : Bool) :
    ∃ s', s.mmap segment v p rw user = .ok (true, s') ∧ s' = s.withData s'.data ∧ Ready s' t a ∧
      MapEffect s t lin s' t := by
  subst hlin
  obtain ⟨w, hw⟩ := h.holds.tables.window_some
  have ht : t (tableIndex (v + segment.base)) = some w := hi ▸ hw
  refine ⟨_, mmap_of_present h.holds.tables (h.holds.live h.reach) ht p rw user, ?_,
    ⟨holds_window_write h.holds hw (pageIndex_lt _) hnone _, h.supply.withData _, h.reach⟩,
    effect_of_present h.holds.tables h.supply ht _⟩
  rw [State.withData_data]

end

/-- Tables exist for directory indices only. -/
def Indexed (t : TableMap) : Prop := ∀ i p, t i = some p → i.toNat < 1024

section

variable {s s' : State} {t : TableMap} {a : Space}

theorem Work.only_data (hw : Work s s') :
    s' = setHeap (s.withData s'.data) s.heapStartRelVirtAddr s.heapSize s'.heapBrk ∧
    s'.dataBase = s.dataBase := by
  have hbase : s'.dataBase = s.dataBase := by
    rw [hw.globals]
    rfl
  refine ⟨?_, hbase⟩
  have hmem : s.withMemory s'.memory = s.withData s'.data := by
    rw [State.withMemory_eq_withData, State.data, hbase]
  rw [← hmem]
  exact hw.globals

theorem Work.bitmap_bits (hw : Work s s') {bitmap : U32int} {n i : Nat}
    (hlow : s.memoryBitmap.codeBitmap.toNat ≤ bitmap.toNat)
    (hend : bitmap.toNat + (n + 7) / 8 ≤ s.kernelPageDirectory.toNat) (hi : i < n) :
    bit s'.data bitmap i = bit s.data bitmap i := by
  have hbyte : (byteAt bitmap i).toNat = bitmap.toNat + i / 8 := by
    rw [byteAt]
    bv_omega
  rw [bit, hw.kernel _ (by omega) (by omega), bit]

/-- The page of a table is not written. -/
theorem Work.table_byte (h : Walks s t) (ht : Indexed t) (hw : Work s s') {i p y : U32int}
    (hp : t i = some p) (hy : (y - p).toNat < 4096) : s'.data y = s.data y := by
  have hi := ht i p hp
  obtain ⟨hpres, hframe⟩ := h.pde_some i p hi hp
  have halign := frame_aligned h.toLayout (h.page i p hp).aligned
  rw [add_comm] at halign
  change (p + s.dataBase).toNat % 4096 = 0 at halign
  have hpage : (y + s.dataBase) / pageSize * pageSize = (entryAt s.data (pdCell s i)).frame := by
    rw [hframe]
    apply BitVec.eq_of_toNat_eq
    rw [BitVec.toNat_mul, page_toNat, show pageSize.toNat = 4096 from rfl]
    bv_omega
  rw [State.data, State.data, hw.only_data.2]
  exact hw.tables i hi hpres _ hpage

theorem Ready.work (h : Ready s t a) (ht : Indexed t) (hw : Work s s') : Ready s' t a := by
  have hcend := h.supply.bitmap_end
  have hdend := h.holds.tables.bitmap_end
  let m1 : Memory := fun y => if y.toNat <
    s.memoryBitmap.codeBitmap.toNat then s'.data y else s.data y
  have hlow : BelowDir s m1 := fun x hx => if_neg (by omega)
  have hbits : ∀ i < segmentPages s, bit m1 s.memoryBitmap.dataBitmap i =
      bit s.data s.memoryBitmap.dataBitmap i := fun i hi => by
    have hbyte : (byteAt s.memoryBitmap.dataBitmap i).toNat =
        s.memoryBitmap.dataBitmap.toNat + i / 8 := by
      rw [byteAt]
      bv_omega
    exact congrArg (BitVec.getLsbD · (i % 8)) (if_neg (by omega))
  have h1 : Ready (s.withData m1) t a :=
    ⟨holds_belowDir h.holds hlow fun i hi hb => (hbits i hi).trans hb,
      h.supply.withData m1, h.reach⟩
  have h2 : Ready (s.withData s'.data) t a := by
    refine h1.withBooks (m := s'.data) fun y hy => ?_
    rw [State.withData_data]
    change s'.data y = if y.toNat < s.memoryBitmap.codeBitmap.toNat then s'.data y else s.data y
    split_ifs with hyl
    · rfl
    rcases hy with hkernel | ⟨i, p, hp, hin⟩
    · exact hw.kernel y (by omega) hkernel
    · exact hw.table_byte h.holds.tables.toWalks ht hp hin
  rw [hw.only_data.1]
  exact Ready.setHeap _ _ _ h2

theorem Work.supply (h : Ready s t a) (hw : Work s s') :
    dataFree s' = dataFree s ∧ codeFree s' = codeFree s := by
  have hcend := h.supply.bitmap_end
  have hdend := h.holds.tables.bitmap_end
  have hglob : segmentPages s' = segmentPages s ∧ codePages s' = codePages s ∧
      s'.memoryBitmap = s.memoryBitmap := by
    rw [hw.globals]
    exact ⟨rfl, rfl, rfl⟩
  obtain ⟨hpages, hcode, hbitmap⟩ := hglob
  rw [dataFree, dataFree, codeFree, codeFree, hpages, hcode, hbitmap]
  exact ⟨PackedBits.freeList_congr fun i hi => hw.bitmap_bits (by omega) hdend hi,
    PackedBits.freeList_congr fun i hi => hw.bitmap_bits le_rfl (by omega) hi⟩

end

/-- Every table but the window's is open to user mode. -/
def TablesUser (s : State) (t : TableMap) : Prop :=
  ∀ i p, i.toNat < 1024 → t i = some p → i ≠ windowIndexOf s →
    (entryAt s.data (pdCell s i)).user = true

section

variable {s s' : State} {t t' : TableMap} {a : Space} {w i p lin : U32int} {m : Memory}

/-- The directory entry of a new table. -/
theorem created_user (h : Tables s t) (hw : t (windowIndexOf s) = some w)
    (hi : i.toNat < 1024) (hm : BelowDir s m)
    (hf : Fresh s t p) : (entryAt (created s m w i p) (pdCell s i)).user = true := by
  have hin := hf.inside
  have habove := hf.above
  have hlen := segmentPages_le s
  have hc := h.pdCell_toNat hi
  have hlink : read32 (linked (s.withData m) w i p) (pdCell s i) = _ :=
    linked_pdCell (hm.tables h) hw hi hi
  rw [entryAt, created, read32_fill_outside _ _ (by bv_omega) (by bv_omega), hlink, if_pos rfl,
    PagingEntry.ofWord_toWord]
  rfl

theorem MapEffect.user_tables (h : TablesUser s t) (honly : s' = s.withData s'.data)
    (he : MapEffect s t lin s' t')
    (hnew : t (tableIndex lin) = none → (t' (tableIndex lin)).isSome →
      (entryAt s'.data (pdCell s (tableIndex lin))).user = true) : TablesUser s' t' := by
  intro i p hi hp hne
  have hcell : pdCell s' i = pdCell s i ∧ windowIndexOf s' = windowIndexOf s := by
    rw [honly]
    exact ⟨rfl, rfl⟩
  rw [hcell.1]
  rw [hcell.2] at hne
  cases ht : t i with
  | some q =>
    rw [entryAt, he.directory i q hi ht]
    exact h i q hi ht hne
  | none =>
    obtain ⟨rfl, -⟩ | ⟨k, rest, -, -, rfl, -⟩ := he.supply
    · rw [ht] at hp
      cases hp
    obtain ⟨rfl, -⟩ | ⟨-, hsome⟩ := update_some hp
    · exact hnew ht (by rw [hp]; rfl)
    · rw [ht] at hsome
      cases hsome

theorem steady_tablesUser : Steady TablesUser := by
  intro s s' t t' a a' segment v p rw user h ho hcall honly h' he hq
  refine MapEffect.user_tables hq honly he fun hnone hsome => ?_
  obtain ⟨rfl, -⟩ | ⟨k, rest, -, hf, -, -⟩ := he.supply
  · rw [hnone] at hsome
    cases hsome
  have ht := h.holds.tables
  have hl := h.holds.live h.reach
  obtain ⟨w, hw⟩ := ht.window_some
  obtain ⟨htakes, -, -⟩ := allocDataPage_of_free ht hl h.supply hf
  have hfresh := h.holds.accounted.fresh ht.toLayout htakes
  have hk := (PackedBits.freeList_head hf).1
  have hbend := ht.bitmap_end
  cases (mmap_of_absent ht hl hnone htakes hw hfresh p rw user).symm.trans hcall
  have huser := created_user ht hw (tableIndex_lt (v + segment.base))
    (belowDir_marked (by omega) hk) hfresh
  rw [State.withData_data, entryAt,
    pdCell_page ht.toLayout hfresh.toIsTablePage (tableIndex_lt _) (pageIndex_lt _)]
  exact huser

end

/-- The page of the call is off the free list of its segment. -/
def PageCall.TakenBy (c : PageCall) (s : State) (t : TableMap) (p : U32int) (s1 : State) : Prop :=
  if c.ofCode then ∃ k rest, codeFree s = k :: rest ∧ p = pageAt k ∧ CodeTaken s t rest s1
  else ∃ k rest, dataFree s = k :: rest ∧ p = pageAt k ∧ DataTaken s t k rest s1

/-- A call took page `p` and mapped it, in the window or outside it. -/
structure Moved (s : State) (t : TableMap) (a : Space) (c : PageCall) (p : U32int) (s1 s' : State)
    (t' : TableMap) (a' : Space) : Prop where
  taken : c.TakenBy s t p s1
  ready1 : Ready s1 t a
  below : BelowDir s s1.data
  only_data1 : s1 = s.withData s1.data
  only_data : s' = s1.withData s'.data
  effect : MapEffect s1 t (c.lin s.segmentsInfo) s' t'
  ready : Ready s' t' a'
  user_tables : TablesUser s1 t → TablesUser s' t'
  space : a' = a.map (c.lin s.segmentsInfo) ⟨c.frame s.segmentsInfo p, !c.ofCode, c.byModule⟩ ∨
    a' = a ∧ c.byModule = false

/-- The page is no kernel data and lies outside the window. -/
def Elsewhere (s : State) (c : PageCall) : Prop :=
  tableIndex (c.lin s.segmentsInfo) ≠ windowIndexOf s ∧ ∀ q,
    q.toNat < s.kernelPageDirectory.toNat + 8192 →
    (q + s.dataBase) / pageSize ≠ c.lin s.segmentsInfo / pageSize

/-- Where a call may map its page. -/
def Target (s : State) (t : TableMap) (c : PageCall) : Prop :=
  Elsewhere s c ∨ (tableIndex (c.lin s.segmentsInfo) = windowIndexOf s ∧
    t (pageIndex (c.lin s.segmentsInfo)) = none ∧ c.byModule = false)

section

variable {s s1 s' : State} {t : TableMap} {a : Space} {c : PageCall} {p : U32int}

theorem Ready.take (h : Ready s t a) (htake : c.take s = .ok (p, s1)) (hnull : p ≠ null) :
    c.TakenBy s t p s1 ∧ Ready s1 t a ∧ s1 = s.withData s1.data := by
  rw [PageCall.take] at htake
  rw [PageCall.TakenBy]
  split_ifs at htake ⊢
  · obtain ⟨k, rest, hf, hp, hready, htaken⟩ := Ready.taken_code h htake hnull
    exact ⟨⟨k, rest, hf, hp, htaken⟩, hready, htaken.only_data⟩
  · obtain ⟨k, rest, hf, hp, hready, htaken⟩ := Ready.taken_data h htake hnull
    exact ⟨⟨k, rest, hf, hp, htaken⟩, hready, htaken.only_data⟩

/-- A call that comes back took a page and mapped it. -/
theorem Ready.call (h : Ready s t a) (htarget : Target s t c) (htake : c.take s = .ok (p, s1))
    (hhad : TableHad s1 (c.lin s.segmentsInfo)) (hcall : c.perform s = .ok s') :
    ∃ t' a', Moved s t a c p s1 s' t' a' := by
  obtain ⟨p', s1', htake', hnull, hmap⟩ := PageCall.perform_ok hcall
  cases htake.symm.trans htake'
  obtain ⟨htaken, hready1, honly1⟩ := Ready.take h htake hnull
  have hbelow := Ready.take_below h htake
  obtain ⟨⟨b, s2⟩, hmmap, hs2⟩ := bind_ok hmap
  cases hs2
  have hwin : windowIndexOf s1 = windowIndexOf s := by
    rw [honly1]
    rfl
  rcases htarget with ⟨hout, hoff⟩ | ⟨hin, hnone, huser⟩
  · have ho : Outside a (c.virt s.segmentsInfo + (c.segment s.segmentsInfo).base) := by
      rw [Outside, ← h.holds.window]
      exact hout
    have hspares : SparesKernel s1 (c.virt s.segmentsInfo + (c.segment s.segmentsInfo).base)
        ((p + (c.segment s.segmentsInfo).base) / pageSize) := by
      rw [honly1]
      exact fun q hq he => absurd he (hoff q hq)
    obtain ⟨s2, t', hcall2, honly, hready, heffect⟩ := hready1.mmap (!c.ofCode) c.byModule ho
      (Ready.free_of_tableHad hready1 hhad) hspares
    cases hcall2.symm.trans hmmap
    exact ⟨t', _, htaken, hready1, hbelow, honly1, honly, heffect, hready,
      steady_tablesUser hready1 ho hcall2 honly hready heffect, .inl rfl⟩
  · obtain ⟨s2, hcall2, honly, hready, heffect⟩ := Ready.mmap_window hready1
      (rfl : c.virt s.segmentsInfo + (c.segment s.segmentsInfo).base = c.lin s.segmentsInfo)
      (hin.trans hwin.symm) hnone p (!c.ofCode) c.byModule
    cases hcall2.symm.trans hmmap
    refine ⟨t, a, htaken, hready1, hbelow, honly1, honly, heffect, hready,
      fun hq => ?_, .inr ⟨rfl, huser⟩⟩
    refine MapEffect.user_tables hq honly heffect fun hwt => ?_
    obtain ⟨w, hw⟩ := hready1.holds.tables.window_some
    change t (tableIndex (c.lin s.segmentsInfo)) = none at hwt
    rw [hin.trans hwin.symm, hw] at hwt
    cases hwt

theorem tableHad_of_free (h : Ready s t a) {k : Nat} {rest : List Nat} (hf : dataFree s = k :: rest)
    (lin : U32int) : TableHad s lin := by
  obtain ⟨s', halloc, -, htaken⟩ := h.allocDataPage hf
  exact fun _ => ⟨_, s', halloc, htaken.ne_null⟩

/-- With a page for a table, a page that is taken is mapped. -/
theorem Ready.perform (h : Ready s t a) (hc : ∀ lin, c ≠ .fault lin) (helse : Elsewhere s c)
    (htake : c.take s = .ok (p, s1)) (hnull : p ≠ null)
    (hhad : TableHad s1 (c.lin s.segmentsInfo)) : ∃ s', c.perform s = .ok s' := by
  obtain ⟨-, hready1, honly1⟩ := Ready.take h htake hnull
  have ho : Outside a (c.virt s.segmentsInfo + (c.segment s.segmentsInfo).base) := by
    rw [Outside, ← h.holds.window]
    exact helse.1
  have hspares : SparesKernel s1 (c.virt s.segmentsInfo + (c.segment s.segmentsInfo).base)
      ((p + (c.segment s.segmentsInfo).base) / pageSize) := by
    rw [honly1]
    exact fun q hq he => absurd he (helse.2 q hq)
  obtain ⟨s', t', hcall, -⟩ :=
    hready1.mmap (!c.ofCode) c.byModule ho (Ready.free_of_tableHad hready1 hhad) hspares
  refine ⟨s', ?_⟩
  rw [PageCall.perform_of_take hc htake hnull, State.mmapUnchecked]
  exact bind_of_ok hcall _

/-- The heap lies behind the window, also where linear addresses start again at zero. -/
theorem heap_elsewhere (h : Ready s t a)
    (hheap : s.pageTablesRelVirtAddr.toNat + 0x400000 ≤ s.heapBrk.toNat)
    {i : U32int} (hdue : s.heapBrk.toNat ≤ i.toNat) : Elsewhere s (.heap i) := by
  have hwin := h.holds.tables.window_start
  have habove := h.holds.tables.window_above
  have hidx := tableIndex_lt (s.pageTablesRelVirtAddr + s.dataBase)
  change (windowIndexOf s).toNat < 1024 at hidx
  have halign := h.holds.tables.base_aligned
  have hlin : ((PageCall.heap i).lin s.segmentsInfo).toNat = (i.toNat + s.dataBase.toNat) % 2^32 :=
    BitVec.toNat_add ..
  have hi := i.isLt
  refine ⟨fun he => ?_, fun q hq he => ?_⟩
  · have hn := congrArg BitVec.toNat he
    rw [tableIndex_toNat, hlin] at hn
    omega
  · have hn := congrArg BitVec.toNat he
    rw [page_toNat, page_toNat, hlin, BitVec.toNat_add] at hn
    omega

/-- Kernel data is present, so a missing page is none of it. -/
theorem fault_target (h : Ready s t a) (hon : s.pagingEnabled = true) {lin : U32int}
    (hfault : s.translate lin = .error (.pageFault lin)) : Target s t (.fault lin) := by
  have hlin : (PageCall.fault lin).lin s.segmentsInfo = lin := sub_add_cancel ..
  rw [Target, Elsewhere, hlin]
  by_cases hi : tableIndex lin = windowIndexOf s
  · exact .inr ⟨hi, window_fault h.holds hon hi hfault, rfl⟩
  refine .inl ⟨hi, fun q hq he => ?_⟩
  obtain ⟨b, hb, -⟩ := (h.reach hon).1 q hq
  rw [he] at hb
  have ho : Outside a lin := by
    rw [Outside, ← h.holds.window]
    exact hi
  have htr := (Ready.translate_bound h hon ho hb).1
  rw [hfault] at htr
  cases htr

theorem elsewhere_of_due (h : Ready s t a) (hc : ∀ lin, c ≠ .fault lin)
    (hheap : s.pageTablesRelVirtAddr.toNat + 0x400000 ≤ s.heapBrk.toNat) (hdue : c.Due s)
    (hclear : c.byModule = true → Clear s c) : Elsewhere s c := by
  cases c with
  | heap i => exact heap_elsewhere h hheap hdue
  | fault lin => exact absurd rfl (hc lin)
  | moduleCode index => exact ⟨(hclear rfl).outside, (hclear rfl).off_kernel⟩
  | moduleData index => exact ⟨(hclear rfl).outside, (hclear rfl).off_kernel⟩
  | moduleStack => exact ⟨(hclear rfl).outside, (hclear rfl).off_kernel⟩

theorem target_of_due (h : Ready s t a) (hon : s.pagingEnabled = true)
    (hheap : s.pageTablesRelVirtAddr.toNat + 0x400000 ≤ s.heapBrk.toNat) (hdue : c.Due s)
    (hclear : c.byModule = true → Clear s c) : Target s t c := by
  by_cases hc : ∃ lin, c = .fault lin
  · obtain ⟨lin, rfl⟩ := hc
    exact fault_target h hon hdue
  · exact .inl (elsewhere_of_due h (not_exists.mp hc) hheap hdue hclear)

end

/-- In every state of a run the tables hold some address space; the window is for the
supervisor, the heap behind it. -/
structure Running (s0 s : State) (t : TableMap) (a : Space) : Prop where
  room : ModuleRoom s
  globals : s = setHeap (s0.withMemory s.memory) s0.heapStartRelVirtAddr s0.heapSize s.heapBrk
  ready : Ready s t a
  on : s.pagingEnabled = true
  heap : s.pageTablesRelVirtAddr.toNat + 0x400000 ≤ s.heapBrk.toNat
  supervisor : WindowSupervisor s
  user_tables : TablesUser s t
  indexed : Indexed t

section

variable {header : ModuleHeader} {s0 s s1 s' : State} {t t' : TableMap} {a a' : Space}
  {c : PageCall} {p : U32int}

theorem Running.info (h : Running s0 s t a) : s.segmentsInfo = s0.segmentsInfo := by
  rw [h.globals]
  rfl

theorem Running.window (h : Running s0 s t a) : windowIndexOf s = windowIndexOf s0 := by
  rw [h.globals]
  rfl

/-- Only the segments and the place of the window matter. -/
theorem ModuleRoom.congr (h : ModuleRoom s) (hinfo : s'.segmentsInfo = s.segmentsInfo)
    (hwin : s'.pageTablesRelVirtAddr = s.pageTablesRelVirtAddr) : ModuleRoom s' := by
  obtain ⟨hapart, hcode, hdata, hend⟩ := h
  refine ⟨hapart.congr hinfo, ?_, ?_, ?_⟩
  · rw [hinfo]
    exact hcode
  · rw [hinfo]
    exact hdata
  · rw [hwin]
    exact hend

theorem MapEffect.indexed {lin : U32int} (he : MapEffect s t lin s' t')
    (h : Indexed t) : Indexed t' := by
  intro i p hp
  obtain ⟨rfl, -⟩ | ⟨k, rest, -, -, rfl, -⟩ := he.supply
  · exact h i p hp
  obtain ⟨rfl, -⟩ | ⟨-, hp⟩ := update_some hp
  · exact tableIndex_lt lin
  · exact h i p hp

/-- Directory entries lie above the bitmaps. -/
theorem pdCell_below (hl : Layout s) (hb : BelowDir s s1.data) {i : U32int} (hi : i.toNat < 1024) :
    entryAt s1.data (pdCell s i) = entryAt s.data (pdCell s i) := by
  have hc := hl.pdCell_toNat hi
  have hend := hl.dir_end
  have hlen := segmentPages_le s
  rw [entryAt, hb.read32 (by omega) (by omega), entryAt]

theorem Work.pdCell (hl : Layout s) (hs : Supply s) (hw : Work s s') {i : U32int}
    (hi : i.toNat < 1024) : entryAt s'.data (pdCell s i) = entryAt s.data (pdCell s i) := by
  have hc := hl.pdCell_toNat hi
  have hend := hl.dir_end
  have hlen := segmentPages_le s
  have hbend := hl.bitmap_end
  have hcend := hs.bitmap_end
  have hread : read32 s'.data (PageTables.pdCell s i) = read32 s.data (PageTables.pdCell s i) :=
    read32_congr fun k hk => hw.kernel _ (by bv_omega) (by bv_omega)
  rw [entryAt, hread, entryAt]

/-- The user bits are the same if the directory entries are. -/
theorem userBits_congr (hcell : ∀ i, pdCell s' i = pdCell s i)
    (hwin : windowIndexOf s' = windowIndexOf s)
    (hpd : ∀ i, i.toNat < 1024 → entryAt s'.data (pdCell s i) = entryAt s.data (pdCell s i))
    (hsup : WindowSupervisor s) (huser : TablesUser s t) :
    WindowSupervisor s' ∧ TablesUser s' t := by
  constructor
  · rw [WindowSupervisor, hcell, hwin, hpd (windowIndexOf s) (tableIndex_lt _)]
    exact hsup
  · intro i p hi hp hne
    rw [hcell, hpd i hi]
    exact huser i p hi hp (hwin ▸ hne)

/-- The globals do not change in a call. -/
theorem Moved.globals (hm : Moved s t a c p s1 s' t' a') : s' = s.withMemory s'.memory := by
  rw [hm.only_data, hm.only_data1]
  rfl

theorem Running.call (h : Running s0 s t a) (hmod : c.OfModule header s.segmentsInfo)
    (hdue : c.Due s) (htake : c.take s = .ok (p, s1)) (hhad : TableHad s1 (c.lin s.segmentsInfo))
    (hcall : c.perform s = .ok s') :
    ∃ t' a', Running s0 s' t' a' ∧ Moved s t a c p s1 s' t' a' := by
  have hclear := h.room.clear h.ready.holds.tables.toLayout hmod
  obtain ⟨t', a', hm⟩ := Ready.call h.ready
    (target_of_due h.ready h.on h.heap hdue hclear) htake hhad hcall
  have hglob := hm.globals
  obtain ⟨hsup, huser⟩ : WindowSupervisor s1 ∧ TablesUser s1 t := by
    have hl := h.ready.holds.tables.toLayout
    refine userBits_congr (fun i => ?_) ?_ (fun i hi => pdCell_below hl hm.below hi)
      h.supervisor h.user_tables <;>
      · rw [hm.only_data1]
        rfl
  refine ⟨t', a', ⟨h.room.congr ?_ ?_, ?_, hm.ready, ?_, ?_, ?_, hm.user_tables huser,
    MapEffect.indexed hm.effect h.indexed⟩, hm⟩
  · rw [hglob]
    rfl
  · rw [hglob]
    rfl
  · rw [hglob, h.globals]
    rfl
  · rw [hglob]
    exact h.on
  · rw [hglob]
    exact h.heap
  · exact hsup.mmap hm.ready1.holds.tables.toWalks hm.only_data hm.effect

/-- The pages a call takes: one of its segment, and one for a table. -/
theorem Moved.supply (hm : Moved s t a c p s1 s' t' a') :
    (dataFree s).length ≤ (dataFree s').length + 2 ∧
    (codeFree s' = codeFree s ∨ ∃ k, codeFree s = k :: codeFree s') := by
  have htable : (dataFree s1).length ≤ (dataFree s').length + 1 := by
    obtain ⟨-, hsame⟩ | ⟨k, rest, -, hf, -, hrest⟩ := hm.effect.supply
    · rw [hsame]
      exact Nat.le_add_right _ 1
    · rw [hf, hrest, List.length_cons]
  have htaken := hm.taken
  rw [PageCall.TakenBy] at htaken
  split_ifs at htaken
  · obtain ⟨k, rest, hf, -, hc⟩ := htaken
    rw [hc.dataFree] at htable
    refine ⟨by omega, .inr ⟨k, ?_⟩⟩
    rw [hm.effect.codeFree, hc.codeFree, hf]
  · obtain ⟨k, rest, hf, -, hd⟩ := htaken
    rw [hd.dataFree] at htable
    refine ⟨?_, .inl ?_⟩
    · rw [hf, List.length_cons]
      omega
    · rw [hm.effect.codeFree, hd.codeFree]

/-- Enough free pages for `n` calls, page 0 of the code not among them. -/
structure Stocked (s : State) (n : Nat) : Prop where
  data : 2 * n ≤ (dataFree s).length
  code : n ≤ (codeFree s).length
  code_zero : 0 ∉ codeFree s

theorem Moved.stocked {n : Nat} (h : Stocked s (n + 1))
    (hm : Moved s t a c p s1 s' t' a') : Stocked s' n := by
  obtain ⟨hdata, hcode⟩ := hm.supply
  have hd := h.data
  have hc := h.code
  have hzero := h.code_zero
  refine ⟨by omega, ?_, ?_⟩
  · obtain hsame | ⟨k, hf⟩ := hcode
    · rw [hsame]
      omega
    · rw [hf, List.length_cons] at hc
      omega
  · obtain hsame | ⟨k, hf⟩ := hcode
    · rwa [hsame]
    · rw [hf] at hzero
      exact fun hmem => hzero (List.mem_cons_of_mem k hmem)

/-- A page other than page 0 is taken. -/
theorem Ready.take_of_stocked {n : Nat} (h : Ready s t a) (hs : Stocked s (n + 1)) (c : PageCall) :
    ∃ p s1, c.take s = .ok (p, s1) ∧ p ≠ null ∧ Ready s1 t a ∧ dataFree s1 ≠ [] := by
  have hdata := hs.data
  have hcode := hs.code
  cases hc : c.ofCode with
  | true =>
    obtain ⟨k, rest, hf⟩ := List.exists_cons_of_length_pos (by omega : 0 < (codeFree s).length)
    obtain ⟨s1, halloc, hready, htaken⟩ := Ready.allocCodePage h hf
    refine ⟨pageAt k, s1, by rw [PageCall.take, if_pos hc, halloc], fun hnull => ?_, hready, ?_⟩
    · have hmem : k ∈ codeFree s := by
        rw [hf]
        exact List.mem_cons_self
      have hk := (PackedBits.mem_freeList.mp hmem).1
      have hlt := codePages_lt s
      have hn := congrArg BitVec.toNat hnull
      rw [pageAt, BitVec.toNat_ofNat, Nat.mod_eq_of_lt (by omega),
        show (null : U32int).toNat = 0 from rfl] at hn
      obtain rfl : k = 0 := by omega
      exact hs.code_zero hmem
    · rw [htaken.dataFree]
      exact List.ne_nil_of_length_pos (by omega)
  | false =>
    obtain ⟨k, rest, hf⟩ := List.exists_cons_of_length_pos (by omega : 0 < (dataFree s).length)
    obtain ⟨s1, halloc, hready, htaken⟩ := Ready.allocDataPage h hf
    refine ⟨pageAt k, s1, by rw [PageCall.take, hc, if_neg Bool.false_ne_true, halloc],
      htaken.ne_null, hready, ?_⟩
    rw [htaken.dataFree]
    rw [hf, List.length_cons] at hdata
    exact List.ne_nil_of_length_pos (by omega)

/-- With pages enough a call that is due comes through. -/
theorem Running.perform {n : Nat} (h : Running s0 s t a) (hs : Stocked s (n + 1))
    (hc : ∀ lin, c ≠ .fault lin) (hmod : c.OfModule header s.segmentsInfo) (hdue : c.Due s) :
    ∃ p s1 s' t' a',
    c.take s = .ok (p, s1) ∧ TableHad s1 (c.lin s.segmentsInfo) ∧ c.perform s = .ok s' ∧
    Running s0 s' t' a' ∧ Moved s t a c p s1 s' t' a' ∧ Stocked s' n := by
  obtain ⟨p, s1, htake, hnull, hready, hfree⟩ := Ready.take_of_stocked h.ready hs c
  obtain ⟨k, rest, hf⟩ := List.exists_cons_of_ne_nil hfree
  have hhad := tableHad_of_free hready hf (c.lin s.segmentsInfo)
  have helse := elsewhere_of_due h.ready hc h.heap hdue
    (h.room.clear h.ready.holds.tables.toLayout hmod)
  obtain ⟨s', hcall⟩ := Ready.perform h.ready hc helse htake hnull hhad
  obtain ⟨t', a', hrun, hmoved⟩ := h.call hmod hdue htake hhad hcall
  exact ⟨p, s1, s', t', a', htake, hhad, hcall, hrun, hmoved, Moved.stocked hs hmoved⟩

/-- ... and so does a whole list of them. -/
theorem Running.runs {log : List (PageCall × U32int)} {calls : List PageCall} {n : Nat}
    (h : Running s0 s t a) (hr : Runs header s0 log s) (hs : Stocked s (calls.length + n))
    (hcalls : ∀ c ∈ calls, (∀ lin, c ≠ .fault lin) ∧ c.OfModule header s.segmentsInfo ∧ c.Due s) :
    ∃ log' s' t' a',
    log'.map Prod.fst = calls.reverse ∧ Runs header s0 (log' ++ log) s' ∧ Running s0 s' t' a' ∧
    s'.heapBrk = s.heapBrk ∧ Stocked s' n := by
  induction calls generalizing s t a log with
  | nil =>
    rw [List.length_nil, Nat.zero_add] at hs
    exact ⟨[], s, t, a, rfl, hr, h, rfl, hs⟩
  | cons c calls ih =>
    rw [List.length_cons, Nat.add_right_comm] at hs
    obtain ⟨⟨hfault, hmod, hdue⟩, hrest⟩ := List.forall_mem_cons.mp hcalls
    obtain ⟨p, s1, s', t', a', htake, hhad, hcall, hrun, hmoved, hs'⟩ :=
      h.perform hs hfault hmod hdue
    have hglob : s'.heapBrk = s.heapBrk ∧ s'.segmentsInfo = s.segmentsInfo := by
      rw [hmoved.globals]
      exact ⟨rfl, rfl⟩
    obtain ⟨hbrk, hinfo⟩ := hglob
    obtain ⟨log', s2, t2, a2, hlog, hruns, hrun2, hbrk2, hs2⟩ :=
      ih hrun (.call hr hmod hdue htake hhad hcall) hs' fun d hd => by
        obtain ⟨hfault', hmod', hdue'⟩ := hrest d hd
        exact ⟨hfault', hinfo ▸ hmod', hdue'.congr hfault' hbrk⟩
    refine ⟨log' ++ [(c, p)], s2, t2, a2, ?_, ?_, hrun2, hbrk2.trans hbrk, hs2⟩
    · rw [List.map_append, hlog, List.reverse_cons]
      rfl
    · rw [List.append_assoc]
      exact hruns

theorem Running.work (h : Running s0 s t a) (hw : Work s s') : Running s0 s' t a := by
  obtain ⟨hsup, huser⟩ : WindowSupervisor s' ∧ TablesUser s' t := by
    have hl := h.ready.holds.tables.toLayout
    refine userBits_congr (fun i => ?_) ?_ (fun i hi => hw.pdCell hl h.ready.supply hi) h.supervisor
      h.user_tables <;>
      · rw [hw.globals]
        rfl
  have hbrk := hw.brk
  have hheap := h.heap
  refine ⟨h.room.congr ?_ ?_, ?_, Ready.work h.ready h.indexed hw, ?_, ?_, hsup, huser, h.indexed⟩
  · rw [hw.globals]
    rfl
  · rw [hw.globals]
    rfl
  · rw [hw.globals, h.globals]
    rfl
  · rw [hw.globals]
    exact h.on
  · have hwin : s'.pageTablesRelVirtAddr = s.pageTablesRelVirtAddr := by
      rw [hw.globals]
      rfl
    rw [hwin]
    omega

end

section

variable {header : ModuleHeader} {image : KernelImage} {s s1 : State}
  {n r : Nat} {I : Finset U32int}

theorem steady_indexed : Steady fun _ t => Indexed t :=
  fun _ _ _ _ _ _ _ _ _ _ _ _ _ _ _ _ he h => MapEffect.indexed he h

theorem bootTables_user (h : Placeable s n) : TablesUser (bootState s n) (bootTables s n) := by
  intro i p _ hp hne
  rw [bootState, windowIndexOf_boot h] at hne
  exact absurd (bootTables_some hp).1 hne

theorem bootTables_indexed (h : Placeable s n) : Indexed (bootTables s n) := fun i p hp => by
  rw [(bootTables_some hp).1]
  exact bootIndex_lt h

/-- `init_heap` sets the heap globals only. -/
theorem initHeap_sets (s : State) : ∃ start size, s.initHeap = setHeap s start size start ∧
    start = s.pageTablesRelVirtAddr + tableSpan := ⟨_, _, initHeap_eq rfl rfl, rfl⟩

theorem initHeap_info (s : State) : s.initHeap.segmentsInfo = s.segmentsInfo := by
  obtain ⟨start, size, hheap, -⟩ := initHeap_sets s
  rw [hheap]
  rfl

theorem initHeap_pageTables (s : State) :
    s.initHeap.pageTablesRelVirtAddr = s.pageTablesRelVirtAddr := by
  rw [State.initHeap]

/-- After `init_paging` and `init_heap` the kernel runs. -/
theorem Bootable.running (h : Bootable image s n I r) (hinit : s.initPaging image = .ok s1)
    (hroom : ModuleRoom s1) : ∃ t a,
    Running s1.initHeap s1.initHeap t a ∧
    BootMapped (startState s n) I r (bootFlags image (bootState s n)) s1 t a ∧
    ∀ Q, Steady Q → (∀ s t, Q s t → Q (s.switchPageDirectory s.kernelPageDirectory) t) →
      Q (bootState s n) (bootTables s n) → Q s1 t := by
  obtain ⟨s1', t, a, hcall, hon, hmapped, hkeep⟩ := h.initPaging_steady
  cases hcall.symm.trans hinit
  have hindexed : Indexed t := hkeep (fun _ t => Indexed t) steady_indexed (fun _ _ hq => hq)
    (bootTables_indexed h.placeable)
  have huser : TablesUser s1 t :=
    hkeep TablesUser steady_tablesUser (fun _ _ hq => hq) (bootTables_user h.placeable)
  obtain ⟨start, size, hheap, hstart⟩ := initHeap_sets s1
  have hend : s1.pageTablesRelVirtAddr.toNat + 0x400000 ≤ start.toNat := by
    have hwin : s1.pageTablesRelVirtAddr.toNat + 0x400000 ≤ 0xC00000 := hroom.window_end
    rw [hstart, BitVec.toNat_add, show tableSpan.toNat = 0x400000 from rfl]
    omega
  rw [hheap]
  exact ⟨t, a, ⟨hroom.congr rfl rfl, rfl, Ready.setHeap _ _ _ hmapped.ready, hon, hend,
    hmapped.supervisor, huser, hindexed⟩, hmapped, hkeep⟩

end

end SimpleOs.Audit.PageCalls
