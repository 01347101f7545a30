import SimpleOs.Audit.KernelBoot
import SimpleOs.Audit.BootPages
import SimpleOs.Audit.CallFrame
import SimpleOs.Kernel.Loader
import Mathlib.Order.Interval.Set.Disjoint

/-!
# The ranges of the data segment

The window and the heap are placed from the base of the data segment, the stack from its
end, and nothing compares the two. Settled here is how long the segment has to be for
everything to lie inside it and apart.
-/

namespace SimpleOs.Audit.BootRanges

open SimpleOs.Kernel SimpleOs.Lib SimpleOs.Lib.Arcs
open SimpleOs.Audit.PageTables SimpleOs.Audit.PagingBoot SimpleOs.Audit.LinearView
open SimpleOs.Audit.PageRuns
open SimpleOs.Audit.KernelBoot SimpleOs.Audit.CallFrame
open SimpleOs.Audit.BootPages SimpleOs.Audit.AddressSpace SimpleOs.Audit.PageSupply
open SimpleOs.Audit.BitmapBoot hiding codePages dataPages
open SimpleOs.Lib.PackedBits (bit)

section

variable (image : KernelImage) (s : State)

/-- Start and size of kernel data with the directory, the page-table window, the heap
window and the kernel stack. -/
def ranges : List (Nat × Nat) :=
  [(0, s.kernelPageDirectory.toNat + 8192), (s.pageTablesRelVirtAddr.toNat, 0x400000),
    (s.heapStartRelVirtAddr.toNat, s.heapSize.toNat),
      ((s.segmentsInfo.dataSegment.len - pageSize).toNat, 4096)]

/-- The ranges lie inside the data segment and apart, and no page of the boot in the window. -/
structure LaidOut : Prop where
  inside : ∀ r ∈ ranges s, r.1 + r.2 ≤ s.segmentsInfo.dataSegment.len.toNat
  apart : (ranges s).Pairwise fun r r' =>
    Disjoint (Set.Ico r.1 (r.1 + r.2)) (Set.Ico r'.1 (r'.1 + r'.2))
  pages : ∀ lin, lin / pageSize ∈ bootPages image s → tableIndex lin ≠ windowIndexOf s

end

section

variable (image : KernelImage) (p : SegmentsParameters) (dir : U32int)

/-- What `init_segments_info` makes of the parameters. -/
def segmentsOf : SegmentsInfo where
  codeSegment := ⟨p.codeBaseAddr, p.codeSegmentLen⟩
  dataSegment := ⟨p.dataBaseAddr, p.dataSegmentLen⟩
  videoSegment := ⟨videoBaseAddr, screenWide * screenHigh * 2⟩
  moduleSegment := ⟨p.moduleBaseAddr, p.moduleSegmentLen⟩

/-- Where the window starts in the data segment if the directory is at `dir`. -/
def windowAt : U32int :=
  State.windowIndex (dir + directorySize + p.dataBaseAddr) * tableSpan - p.dataBaseAddr

/-- ... and in linear memory. -/
def windowLin : U32int := windowAt p dir + p.dataBaseAddr

/-- First address and number of pages of kernel code, the screen and the module. -/
def otherRuns : List (U32int × Nat) :=
  [(p.codeBaseAddr, (image.kernelCodeSize.toNat + 4095) / 4096), (videoBaseAddr, 1),
    (p.moduleBaseAddr, (p.moduleSegmentLen.toNat + 4095) / 4096)]

/-- The segment reaches a page beyond the window, which starts at the first 4 MiB step
behind the directory; kernel code, the screen and the module lie elsewhere. -/
structure Spacious : Prop where
  window_above : dir.toNat + 8192 ≤ (windowAt p dir).toNat
  window_fits : (windowAt p dir).toNat + 0x400000 + 4096 ≤ p.dataSegmentLen.toNat
  others : ∀ r ∈ otherRuns image p,
    r.2 = 0 ∨ Clear (pageNumber r.1) r.2 (pageNumber (windowLin p dir)) 1024

end

section

variable {s : State}

/-- The heap takes at most half of what is left behind the window. -/
theorem initHeap_toNat (h : s.pageTablesRelVirtAddr.toNat + 0x400000 ≤
    s.segmentsInfo.dataSegment.len.toNat) :
    s.initHeap.heapStartRelVirtAddr.toNat = s.pageTablesRelVirtAddr.toNat + 0x400000 ∧
    2 * s.initHeap.heapSize.toNat + s.initHeap.heapStartRelVirtAddr.toNat ≤
      s.segmentsInfo.dataSegment.len.toNat ∧ s.initHeap.heapSize.toNat % 4096 = 0 := by
  have hlen := s.segmentsInfo.dataSegment.len.isLt
  have hstart : s.initHeap.heapStartRelVirtAddr.toNat =
      s.pageTablesRelVirtAddr.toNat + 0x400000 := by
    change (s.pageTablesRelVirtAddr + tableSpan).toNat = _
    rw [BitVec.toNat_add, show tableSpan.toNat = 0x400000 from rfl]
    omega
  have hfree : (s.segmentsInfo.dataSegment.len - s.initHeap.heapStartRelVirtAddr).toNat =
      s.segmentsInfo.dataSegment.len.toNat - s.initHeap.heapStartRelVirtAddr.toNat :=
    BitVec.toNat_sub_of_le (BitVec.le_def.mpr (by omega))
  have hmask := pageMask_toNat
    ((s.segmentsInfo.dataSegment.len - s.initHeap.heapStartRelVirtAddr) / 2)
  rw [BitVec.toNat_udiv, hfree, show (2 : U32int).toNat = 2 from rfl] at hmask
  have hsize : s.initHeap.heapSize =
      if (s.segmentsInfo.dataSegment.len - s.initHeap.heapStartRelVirtAddr) /
        2 &&& 0xFFFFF000 > tableSpan
      then tableSpan
      else (s.segmentsInfo.dataSegment.len - s.initHeap.heapStartRelVirtAddr) / 2 &&& 0xFFFFF000 :=
        rfl
  refine ⟨hstart, ?_⟩
  rw [hsize]
  split_ifs with hlarge
  · rw [gt_iff_lt, BitVec.lt_def] at hlarge
    have hspan : tableSpan.toNat = 0x400000 := rfl
    omega
  · omega

theorem lastPage_toNat {len : U32int} (h : 4096 ≤ len.toNat) :
    (len - pageSize).toNat = len.toNat - 4096 :=
  BitVec.toNat_sub_of_le (BitVec.le_def.mpr h)

end

section

variable {image : KernelImage} {p : SegmentsParameters} {dir : U32int} {s : State}

/-- The window is a run of 1024 pages. -/
theorem tableIndex_eq_iff_arc {x lin : U32int} (hx : x.toNat % 0x400000 = 0) :
    tableIndex lin = tableIndex x ↔ pageNumber lin ∈ arc (pageNumber x) 1024 := by
  have hlin := lin.isLt
  have hxlt := x.isLt
  rw [← BitVec.toNat_inj, tableIndex_toNat, tableIndex_toNat, mem_arc, BitVec.toNat_sub,
    pageNumber_toNat, pageNumber_toNat]
  omega

theorem run_outside_iff {x start : U32int} {k : Nat} (hx : x.toNat % 0x400000 = 0) (hk : k ≤ 2^20) :
    (∀ lin, lin / pageSize ∈ pagesFrom start k → tableIndex lin ≠ tableIndex x) ↔
      Disjoint (arc (pageNumber start) k) (arc (pageNumber x) 1024) := by
  rw [Set.disjoint_left]
  constructor
  · intro h q hq hqx
    obtain ⟨lin, rfl⟩ := pageNumber_surjective q
    exact h lin ((mem_pagesFrom_iff_arc hk).mpr hq) ((tableIndex_eq_iff_arc hx).mpr hqx)
  · intro h lin hlin he
    exact h ((mem_pagesFrom_iff_arc hk).mp hlin) ((tableIndex_eq_iff_arc hx).mp he)

theorem windowLin_eq (p : SegmentsParameters) (dir : U32int) :
    windowLin p dir = State.windowIndex (dir + directorySize + p.dataBaseAddr) * tableSpan := by
  rw [windowLin, windowAt, sub_add_cancel]

theorem windowLin_aligned (p : SegmentsParameters) (dir : U32int) :
    (windowLin p dir).toNat % 0x400000 = 0 := by
  rw [windowLin_eq, BitVec.toNat_mul, show tableSpan.toNat = 0x400000 from rfl]
  omega

/-- A run that begins `d` bytes behind a word. -/
theorem clear_of_gap {x : U32int} {d k l : Nat} (hd : d + 4096 ≤ 2^32)
    (hk : k ≤ (x.toNat % 4096 + d) / 4096)
    (hl : (x.toNat % 4096 + d) / 4096 + l ≤ 2^20) (hpos : 4096 ≤ d) :
    Clear (pageNumber x) k (pageNumber (linAt x d)) l := by
  have hgap := pageNumber_gap x hd
  have hback : (pageNumber x - pageNumber (linAt x d)).toNat =
      2^20 - (pageNumber (linAt x d) - pageNumber x).toNat := by
    have hlt := (pageNumber (linAt x d)).isLt
    have hlt' := (pageNumber x).isLt
    rw [BitVec.toNat_sub] at hgap ⊢
    rw [BitVec.toNat_sub]
    omega
  rw [Clear, hback, hgap]
  omega

/-- The globals of the boot that the ranges depend on. -/
structure Boots (p : SegmentsParameters) (dir : U32int) (s : State) : Prop where
  info : s.segmentsInfo = segmentsOf p
  directory : s.kernelPageDirectory = dir
  window : s.pageTablesRelVirtAddr = windowAt p dir

theorem Boots.windowIndex (h : Boots p dir s) : windowIndexOf s = tableIndex (windowLin p dir) := by
  rw [windowIndexOf, h.window, State.dataBase, h.info]
  rfl

/-- No page of the run lies in the window. -/
def Away (p : SegmentsParameters) (dir start : U32int) (k : Nat) : Prop :=
  ∀ lin, lin / pageSize ∈ pagesFrom start k → tableIndex lin ≠ tableIndex (windowLin p dir)

theorem away_iff {start : U32int} {k : Nat} (hk : k ≤ 2^20) :
    Away p dir start k ↔ k = 0 ∨
    Clear (pageNumber start) k (pageNumber (windowLin p dir)) 1024 := by
  rw [Away, run_outside_iff (windowLin_aligned p dir) hk, disjoint_iff]
  simp only [OfNat.ofNat_ne_zero, false_or]

theorem otherRuns_le : ∀ r ∈ otherRuns image p, r.2 ≤ 2^20 := by
  have hcode := image.kernelCodeSize.isLt
  have hmodule := p.moduleSegmentLen.isLt
  rw [otherRuns, List.forall_mem_cons, List.forall_mem_cons, List.forall_mem_singleton]
  refine ⟨?_, show 1 ≤ 2^20 by decide, ?_⟩
  · change (image.kernelCodeSize.toNat + 4095) / 4096 ≤ 2^20
    omega
  · change (p.moduleSegmentLen.toNat + 4095) / 4096 ≤ 2^20
    omega

theorem pages_away_iff (h : Boots p dir s) :
    (∀ lin, lin / pageSize ∈ bootPages image s → tableIndex lin ≠ windowIndexOf s) ↔
      (Away p dir p.dataBaseAddr (((dir + directorySize).toNat + 4095) / 4096) ∧
        Away p dir (p.dataSegmentLen - pageSize + p.dataBaseAddr) 1) ∧
      ∀ r ∈ otherRuns image p, Away p dir r.1 r.2 := by
  have hpages : bootPages image s =
      pagesFrom p.dataBaseAddr (((dir + directorySize).toNat + 4095) / 4096) ∪
      pagesFrom (p.dataSegmentLen - pageSize + p.dataBaseAddr) 1 ∪
      pagesFrom p.codeBaseAddr ((image.kernelCodeSize.toNat + 4095) / 4096)
        ∪ pagesFrom videoBaseAddr 1 ∪
      pagesFrom p.moduleBaseAddr ((p.moduleSegmentLen.toNat + 4095) / 4096) := by
    rw [bootPages, dataPages, stackPage, kernelCodePages, videoPage, modulePages, pagesOf, pagesOf,
      pagesOf, h.directory, codeBase, State.dataBase, h.info, pagesFrom_one, pagesFrom_one]
    rfl
  rw [h.windowIndex, hpages]
  simp only [otherRuns, List.forall_mem_cons, Set.mem_union, or_imp, forall_and, Away]
  constructor
  · intro hall
    obtain ⟨⟨⟨⟨hdata, hstack⟩, hcode⟩, hvideo⟩, hmodule⟩ := hall
    exact ⟨⟨hdata, hstack⟩, hcode, hvideo, hmodule, fun r hr => by cases hr⟩
  · intro hall
    obtain ⟨⟨hdata, hstack⟩, hcode, hvideo, hmodule, -⟩ := hall
    exact ⟨⟨⟨⟨hdata, hstack⟩, hcode⟩, hvideo⟩, hmodule⟩

/-- Kernel data and the stack lie on the two sides of the window. -/
theorem own_away (hdir : dir.toNat % 4096 = 0) (habove : dir.toNat + 8192 ≤ (windowAt p dir).toNat)
    (hfits : (windowAt p dir).toNat + 0x400000 + 4096 ≤ p.dataSegmentLen.toNat) :
    Away p dir p.dataBaseAddr (((dir + directorySize).toNat + 4095) / 4096) ∧
      Away p dir (p.dataSegmentLen - pageSize + p.dataBaseAddr) 1 := by
  have hlen := p.dataSegmentLen.isLt
  have hbase : p.dataBaseAddr.toNat % 4096 < 4096 := Nat.mod_lt _ (by decide)
  have htop : (dir + directorySize).toNat = dir.toNat + 8192 := by
    rw [BitVec.toNat_add, show directorySize.toNat = 8192 from rfl]
    omega
  constructor
  · rw [away_iff (by omega)]
    have hstart : windowLin p dir = linAt p.dataBaseAddr (windowAt p dir).toNat := by
      rw [windowLin, linAt, BitVec.ofNat_toNat, BitVec.setWidth_eq, add_comm]
    rw [hstart]
    exact .inr (clear_of_gap (by omega) (by omega) (by omega) (by omega))
  · rw [away_iff (by omega)]
    have hstart : p.dataSegmentLen - pageSize + p.dataBaseAddr =
        linAt (windowLin p dir) (p.dataSegmentLen.toNat - 4096 - (windowAt p dir).toNat) := by
      apply BitVec.eq_of_toNat_eq
      rw [windowLin, linAt, BitVec.toNat_add, BitVec.toNat_add, BitVec.toNat_add,
        BitVec.toNat_ofNat, lastPage_toNat (by omega)]
      omega
    have halign := windowLin_aligned p dir
    rw [hstart]
    exact .inr (clear_of_gap (by omega) (by omega) (by omega) (by omega)).symm

end

section

variable {image : KernelImage} {p : SegmentsParameters} {dir : U32int} {s s' : State}

theorem mapIdentity_memoryOnly {segment : Segment} {top : U32int} {rw : Bool}
    (h : State.mapIdentity segment top rw s = .ok s') : MemoryOnly s s' :=
  forLoop_memoryOnly (fun _ _ _ => mmapUnchecked_memoryOnly) h

theorem mapKernelPages_memoryOnly (h : s.mapKernelPages image = .ok s') : MemoryOnly s s' := by
  obtain ⟨s1, h1, h⟩ := bind_ok h
  obtain ⟨s2, h2, h⟩ := bind_ok h
  obtain ⟨s3, h3, h⟩ := bind_ok h
  obtain ⟨s4, h4, h⟩ := bind_ok h
  have hfirst := (mapIdentity_memoryOnly h1).trans ((mmapUnchecked_memoryOnly h2).trans
    ((mapIdentity_memoryOnly h3).trans (mmapUnchecked_memoryOnly h4)))
  split_ifs at h
  · exact hfirst.trans (mapIdentity_memoryOnly h)
  · cases h
    exact hfirst

theorem initDescriptorTables_memoryOnly (h : s.initDescriptorTables = .ok s') :
    MemoryOnly s s' := by
  obtain ⟨⟨gdt, s1⟩, h1, h⟩ := bind_ok h
  obtain ⟨s2, h2, h⟩ := bind_ok h
  obtain ⟨⟨idt, s3⟩, h3, h⟩ := bind_ok h
  exact (allocDataPage_memoryOnly h1).trans ((memset_memoryOnly h2).trans
    ((allocDataPage_memoryOnly h3).trans (memset_memoryOnly h)))

/-- What is handed out is NULL or a page the bitmap has a bit for. -/
theorem allocPage_page {bitmap q : U32int} (h : s.allocPage bitmap = .ok (q, s')) (hne : q ≠ null) :
    ∃ i < s.bitmapSize bitmap, q = i * pageSize := by
  rw [State.allocPage] at h
  split_ifs at h
  · obtain ⟨i, -, h⟩ := bind_ok h
    split_ifs at h
    · obtain ⟨u, hassert, h⟩ := bind_ok h
      obtain ⟨s1, -, h⟩ := bind_ok h
      cases h
      have hin := assert_ok hassert
      rw [Bool.and_eq_true, decide_eq_true_eq] at hin
      exact ⟨i, hin.1, rfl⟩
    · cases h
      exact absurd rfl hne
  · cases h
    exact absurd rfl hne

theorem initMemoryBitmap_globals (h : s.initMemoryBitmap image = .ok s') :
    s'.segmentsInfo = s.segmentsInfo ∧
      s'.memoryBitmap = ⟨codeBitmapAt s, dataBitmapAt s, BitmapBoot.codePages s,
          BitmapBoot.dataPages s⟩ := by
  obtain ⟨s1, h1, h⟩ := bind_ok h
  obtain ⟨s2, h2, h⟩ := bind_ok h
  obtain ⟨-, -, h⟩ := bind_ok h
  obtain ⟨s3, h3, h⟩ := bind_ok h
  obtain ⟨s4, h4, h⟩ := bind_ok h
  obtain ⟨s5, h5, h⟩ := bind_ok h
  have hfirst := memset_memoryOnly h1
  have hrest := (memset_memoryOnly h2).trans
    ((forLoop_memoryOnly (fun _ _ _ => setBit_memoryOnly) h3).trans
    ((setBit_memoryOnly h4).trans (forLoop_memoryOnly (fun _ _ _ => setBit_memoryOnly) h5)))
  cases h
  rw [MemoryOnly] at hfirst hrest
  rw [hrest, hfirst]
  exact ⟨rfl, rfl⟩

theorem initPagingTables_globals {s1 : State} (h : s.initPagingTables = .ok s')
    (hdir : s.allocDataPage = .ok (dir, s1)) :
    s'.segmentsInfo = s.segmentsInfo ∧ s'.kernelPageDirectory = dir ∧
      s'.pageTablesRelVirtAddr = State.windowIndex (dir + directorySize + s.dataBase) *
          tableSpan - s.dataBase := by
  have hs1 := allocDataPage_memoryOnly hdir
  rw [State.initPagingTables, hdir, ok_bind] at h
  obtain ⟨⟨second, s2⟩, h2, h⟩ := bind_ok h
  obtain ⟨s3, h3, h⟩ := bind_ok h
  obtain ⟨⟨table, s4⟩, h4, h⟩ := bind_ok h
  obtain ⟨s5, h5, h⟩ := bind_ok h
  obtain ⟨s6, h6, h⟩ := bind_ok h
  obtain ⟨s7, h7, h⟩ := bind_ok h
  have hbefore := (allocDataPage_memoryOnly h2).trans (memset_memoryOnly h3)
  have hafter := (allocDataPage_memoryOnly h4).trans ((memset_memoryOnly h5).trans
    ((store32_memoryOnly h6).trans ((store32_memoryOnly h7).trans (store32_memoryOnly h))))
  rw [MemoryOnly] at hs1 hbefore hafter
  rw [hafter, hbefore, hs1]
  exact ⟨rfl, rfl, rfl⟩

/-- The state `init_paging` starts from. -/
def pagingStart (image : KernelImage) (p : SegmentsParameters) (s : State) : Except Trap State := do
  let s ← s.initMemoryManager image p.codeBaseAddr p.codeSegmentLen p.dataBaseAddr p.dataSegmentLen
    p.moduleBaseAddr p.moduleSegmentLen
  s.initDescriptorTables

theorem pagingStart_globals (h : pagingStart image p s = .ok s') : s'.segmentsInfo = segmentsOf p ∧
    s'.memoryBitmap.dataSize = p.dataSegmentLen / pageSize ∧
    (s'.memoryBitmap.dataBitmap = s'.memoryBitmap.codeBitmap → s'.memoryBitmap.codeSize = 0) := by
  obtain ⟨s1, h1, h⟩ := bind_ok h
  obtain ⟨hinfo, hbitmap⟩ := initMemoryBitmap_globals h1
  have honly := initDescriptorTables_memoryOnly h
  rw [MemoryOnly] at honly
  rw [honly]
  change s1.segmentsInfo = _ ∧ s1.memoryBitmap.dataSize = _ ∧
    (s1.memoryBitmap.dataBitmap = s1.memoryBitmap.codeBitmap → s1.memoryBitmap.codeSize = 0)
  rw [hinfo, hbitmap]
  refine ⟨rfl, rfl, fun heq => ?_⟩
  -- the data bitmap is a whole number of pages behind the code bitmap
  have hzero := congrArg BitVec.toNat (add_eq_left.mp heq)
  rw [BitVec.toNat_mul, bitmapPages_toNat, show pageSize.toNat = 4096 from rfl,
    codePages_toNat] at hzero
  have hle := PageBitmap.pageCount_le
    (s.initSegmentsInfo p.codeBaseAddr p.codeSegmentLen p.dataBaseAddr
    p.dataSegmentLen p.moduleBaseAddr p.moduleSegmentLen) .code
  apply BitVec.eq_of_toNat_eq
  refine (codePages_toNat _).trans ?_
  generalize PageBitmap.pageCount (s.initSegmentsInfo ..) .code = count at hzero hle ⊢
  have hnone : 4096 * BitmapBoot.bitmapPages count % 2^32 = 0 := hzero
  change count = 0
  rw [BitmapBoot.bitmapPages] at hnone
  omega

/-- The directory lies in the data segment. -/
theorem directory_inside {s0 s1 : State} (hstart : pagingStart image p s = .ok s0)
    (hdir : s0.allocDataPage = .ok (dir, s1)) (hne : dir ≠ null) :
    dir.toNat % 4096 = 0 ∧ dir.toNat + 4096 ≤ p.dataSegmentLen.toNat := by
  obtain ⟨-, hsize, hsame⟩ := pagingStart_globals hstart
  obtain ⟨i, hi, rfl⟩ := allocPage_page hdir hne
  have hlt : i.toNat < p.dataSegmentLen.toNat / 4096 := by
    rw [State.bitmapSize, hsize] at hi
    split_ifs at hi with heq
    · rw [hsame heq] at hi
      exact absurd hi (BitVec.not_lt_zero)
    · rw [BitVec.lt_def, BitVec.toNat_udiv] at hi
      exact hi
  have hlen := p.dataSegmentLen.isLt
  rw [BitVec.toNat_mul, show pageSize.toNat = 4096 from rfl]
  omega

/-- The steps of `start_kernel`. -/
theorem startKernel_steps (hok : s.startKernel image p = .ok s') : ∃ s0 t,
    pagingStart image p s = .ok s0 ∧ s0.initPaging image = .ok t ∧ s' = t.initHeap := by
  obtain ⟨s1, h1, hok⟩ := bind_ok hok
  obtain ⟨s2, h2, hok⟩ := bind_ok hok
  obtain ⟨t, ht, hok⟩ := bind_ok hok
  cases hok
  exact ⟨s2, t, (bind_of_ok h1 _).trans h2, ht, rfl⟩

theorem startKernel_boots {s0 s1 : State} (hstart : pagingStart image p s = .ok s0)
    (hdir : s0.allocDataPage = .ok (dir, s1)) (hok : s.startKernel image p = .ok s') :
    ∃ t, s' = State.initHeap t ∧ Boots p dir t := by
  obtain ⟨hinfo, -, -⟩ := pagingStart_globals hstart
  obtain ⟨s2, t, h2, ht, rfl⟩ := startKernel_steps hok
  cases h2.symm.trans hstart
  obtain ⟨t0, ht0, ht⟩ := bind_ok ht
  obtain ⟨t1, ht1, ht⟩ := bind_ok ht
  obtain ⟨u, -, ht⟩ := bind_ok ht
  obtain ⟨hinfo', hdir', hwindow⟩ := initPagingTables_globals ht0 hdir
  have honly := mapKernelPages_memoryOnly ht1
  rw [MemoryOnly] at honly
  cases ht
  refine ⟨_, rfl, ?_⟩
  rw [honly]
  refine ⟨hinfo'.trans hinfo, hdir', hwindow.trans ?_⟩
  rw [State.dataBase, hinfo]
  rfl

theorem Boots.initHeap (h : Boots p dir s) : Boots p dir (State.initHeap s) where
  info := by
    rw [State.initHeap]
    exact h.info
  directory := by
    rw [State.initHeap]
    exact h.directory
  window := by
    rw [State.initHeap]
    exact h.window

/-- The four ranges are in order and inside once the window has room above the directory
and below the stack. -/
theorem ranges_iff (h : Boots p dir s) (hdir : dir.toNat + 4096 ≤ p.dataSegmentLen.toNat) :
    ((∀ r ∈ ranges s.initHeap, r.1 + r.2 ≤ p.dataSegmentLen.toNat) ∧
      (ranges s.initHeap).Pairwise fun r r' =>
        Disjoint (Set.Ico r.1 (r.1 + r.2)) (Set.Ico r'.1 (r'.1 + r'.2))) ↔
    dir.toNat + 8192 ≤ (windowAt p dir).toNat ∧
      (windowAt p dir).toNat + 0x400000 + 4096 ≤ p.dataSegmentLen.toNat := by
  have hlast := lastPage_toNat (by omega : 4096 ≤ p.dataSegmentLen.toNat)
  have hlen : s.segmentsInfo.dataSegment.len = p.dataSegmentLen :=
    congrArg (·.dataSegment.len) h.info
  have hheap := initHeap_toNat (s := s)
  have hboots := h.initHeap
  have hlen' : s.initHeap.segmentsInfo.dataSegment.len = p.dataSegmentLen :=
    congrArg (·.dataSegment.len) hboots.info
  rw [hlen, h.window] at hheap
  rw [ranges, hboots.directory, hboots.window, hlen', hlast]
  -- what is left is about five numbers
  generalize s.initHeap.heapStartRelVirtAddr.toNat = start at hheap ⊢
  generalize s.initHeap.heapSize.toNat = size at hheap ⊢
  generalize p.dataSegmentLen.toNat = len at hdir hheap ⊢
  generalize (windowAt p dir).toNat = w at hheap ⊢
  generalize dir.toNat = d at hdir ⊢
  clear h hlast hlen hboots hlen'
  simp only [List.forall_mem_cons, List.not_mem_nil, IsEmpty.forall_iff, implies_true, and_true,
    List.pairwise_cons, List.Pairwise.nil, Set.Ico_disjoint_Ico, le_sup_iff, inf_le_iff]
  constructor
  · intro hall
    obtain ⟨⟨-, hinside, -, -⟩, ⟨hbelow, -, -⟩, ⟨-, hstack⟩, -⟩ := hall
    clear hheap
    omega
  · intro hall
    obtain ⟨habove, hfits⟩ := hall
    obtain ⟨hstart, hhalf, haligned⟩ := hheap (by omega)
    clear hheap
    have hlow : d + 8192 ≤ start := by
      clear hhalf haligned
      omega
    have hend : start + size ≤ len := by
      clear haligned
      omega
    have hfree : size = 0 ∨ start + size ≤ len - 4096 := by
      clear hlow habove
      omega
    clear hhalf haligned
    have hbelow : w + 0x400000 ≤ start := hstart.ge
    have hstack : w + 0x400000 ≤ len - 4096 := by omega
    have hdir : d + 8192 ≤ len - 4096 := by omega
    have hpage : len - 4096 + 4096 = len := by omega
    rw [Nat.zero_add]
    refine ⟨⟨hdir.trans (Nat.sub_le _ _), hstack.trans (Nat.sub_le _ _), hend, hpage.le⟩,
      ⟨.inr (.inl habove), .inr (.inl hlow), .inr (.inl hdir)⟩,
      ⟨.inr (.inl hbelow), .inr (.inl hstack)⟩, ?_⟩
    rcases hfree with hempty | hfree
    · exact .inl (.inl (by rw [hempty, Nat.add_zero]))
    · exact .inr (.inl hfree)

/-- In a spacious segment no boot page lies in the window. -/
theorem Boots.pages_away (h : Boots p dir s) (haligned : dir.toNat % 4096 = 0)
    (hs : Spacious image p dir) :
    ∀ lin, lin / pageSize ∈ bootPages image s → tableIndex lin ≠ windowIndexOf s :=
  (pages_away_iff h).mpr ⟨own_away haligned hs.window_above hs.window_fits,
    fun r hr => (away_iff (otherRuns_le r hr)).mpr (hs.others r hr)⟩

theorem Boots.laidOut_iff (h : Boots p dir s) (haligned : dir.toNat % 4096 = 0)
    (hdir : dir.toNat + 4096 ≤ p.dataSegmentLen.toNat) :
    LaidOut image (State.initHeap s) ↔ Spacious image p dir := by
  have hranges := ranges_iff h hdir
  have hpages := @pages_away_iff image _ _ _ h.initHeap
  have hlen : (State.initHeap s).segmentsInfo.dataSegment.len = p.dataSegmentLen :=
    congrArg (·.dataSegment.len) h.initHeap.info
  constructor
  · intro hl
    have hinside := hl.inside
    rw [hlen] at hinside
    obtain ⟨habove, hfits⟩ := hranges.mp ⟨hinside, hl.apart⟩
    exact ⟨habove, hfits, fun r hr => (away_iff (otherRuns_le r hr)).mp
      ((hpages.mp hl.pages).2 r hr)⟩
  · intro hs
    obtain ⟨hinside, hapart⟩ := hranges.mpr ⟨hs.window_above, hs.window_fits⟩
    exact ⟨by rwa [hlen], hapart, h.initHeap.pages_away haligned hs⟩

/-- If `start_kernel` comes through `init_heap`, the ranges lie inside the data segment and
apart, and no page of the boot lies in the window, exactly if the segment is spacious for
the directory page `init_paging` is handed. -/
theorem ranges_laidOut_iff {s0 s1 : State} (hstart : pagingStart image p s = .ok s0)
    (hdir : s0.allocDataPage = .ok (dir, s1)) (hne : dir ≠ null)
    (hok : s.startKernel image p = .ok s') : LaidOut image s' ↔ Spacious image p dir := by
  obtain ⟨haligned, hinside⟩ := directory_inside hstart hdir hne
  obtain ⟨t, rfl, hboots⟩ := startKernel_boots hstart hdir hok
  exact hboots.laidOut_iff haligned hinside

end

/-- The screen, the module, the data and the code lie in this order, as the loader places
them on a machine whose memory ends before 4 GiB. -/
structure Ordered (image : KernelImage) (p : SegmentsParameters) : Prop where
  screen : videoBaseAddr.toNat + 4096 ≤ p.dataBaseAddr.toNat
  module : p.moduleBaseAddr.toNat + p.moduleSegmentLen.toNat ≤ p.dataBaseAddr.toNat
  code : p.codeBaseAddr = p.dataBaseAddr + p.dataSegmentLen
  below : p.dataBaseAddr.toNat + p.dataSegmentLen.toNat + image.kernelCodeSize.toNat ≤ 2^32

section

variable {image : KernelImage} {p : SegmentsParameters} {dir : U32int}

/-- A window inside the segment lies between the module and the kernel code. -/
theorem Ordered.others (h : Ordered image p)
    (habove : dir.toNat + 8192 ≤ (windowAt p dir).toNat)
    (hfits : (windowAt p dir).toNat + 0x400000 + 4096 ≤ p.dataSegmentLen.toNat) :
    ∀ r ∈ otherRuns image p, r.2 = 0 ∨
    Clear (pageNumber r.1) r.2 (pageNumber (windowLin p dir)) 1024 := by
  have hbelow := h.below
  have hlin : (windowLin p dir).toNat = p.dataBaseAddr.toNat + (windowAt p dir).toNat := by
    rw [windowLin, BitVec.toNat_add]
    omega
  have hcode : p.codeBaseAddr.toNat = (p.dataBaseAddr.toNat + p.dataSegmentLen.toNat) % 2^32 := by
    rw [h.code, BitVec.toNat_add]
  have halign := windowLin_aligned p dir
  -- what lies in front of the segment is clear of the window, by its distance
  have hfront : ∀ (x : U32int) (k : Nat), x.toNat + k ≤ p.dataBaseAddr.toNat →
      Clear (pageNumber x) ((k + 4095) / 4096) (pageNumber (windowLin p dir)) 1024 := by
    intro x k hx
    have hstart : windowLin p dir = linAt x ((windowLin p dir).toNat - x.toNat) := by
      apply BitVec.eq_of_toNat_eq
      rw [linAt, BitVec.toNat_add, BitVec.toNat_ofNat]
      omega
    rw [hstart]
    exact clear_of_gap (by omega) (by omega) (by omega) (by omega)
  rw [otherRuns, List.forall_mem_cons, List.forall_mem_cons, List.forall_mem_singleton]
  refine ⟨?_, .inr (hfront _ 4096 h.screen), .inr (hfront _ _ h.module)⟩
  by_cases hnone : image.kernelCodeSize.toNat = 0
  · left
    change (image.kernelCodeSize.toNat + 4095) / 4096 = 0
    rw [hnone]
  · right
    have hstart : p.codeBaseAddr = linAt (windowLin p dir)
        (p.codeBaseAddr.toNat - (windowLin p dir).toNat) := by
      apply BitVec.eq_of_toNat_eq
      rw [linAt, BitVec.toNat_add, BitVec.toNat_ofNat]
      omega
    have haligned := image.code_aligned
    change Clear (pageNumber p.codeBaseAddr) ((image.kernelCodeSize.toNat + 4095) / 4096) _ _
    rw [hstart]
    exact (clear_of_gap (by omega) (by omega) (by omega) (by omega)).symm

/-- With the directory inside the segment only the length of the segment matters then. -/
theorem Ordered.spacious_iff (h : Ordered image p)
    (hdir : dir.toNat + 8192 ≤ p.dataSegmentLen.toNat) :
    Spacious image p dir ↔ (windowAt p dir).toNat + 0x400000 + 4096 ≤ p.dataSegmentLen.toNat := by
  refine ⟨fun hs => hs.window_fits, fun hfits => ?_⟩
  have hbelow := h.below
  have hscreen : 0xB9000 ≤ p.dataBaseAddr.toNat := h.screen
  have hindex := State.windowIndex_toNat (dir + directorySize + p.dataBaseAddr)
  have habove : dir.toNat + 8192 ≤ (windowAt p dir).toNat := by
    rw [windowAt, BitVec.toNat_sub, BitVec.toNat_mul, hindex, BitVec.toNat_add, BitVec.toNat_add,
      show directorySize.toNat = 8192 from rfl, show tableSpan.toNat = 0x400000 from rfl] at hfits ⊢
    omega
  exact ⟨habove, hfits, h.others habove hfits⟩

end

/-- The pages behind the descriptor tables are free, too. -/
theorem descriptors_next {image : KernelImage} {s : State} (h : BitmapsFit image s)
    (hm : PagesMarked image s (bitmapState image s)) {l : Nat} (hroom : firstFree s + 6 ≤ l)
    (hl : l + 1 ≤ PageBitmap.pageCount s .data) :
    NextFree (descriptorMemory (bitmapState image s) (firstFree s))
      (dataBitmapAt s) (firstFree s + 2) l := by
  have hready := bitmapState_ready h (marked_next h hm (by omega)) (by omega)
  exact descriptorMemory_next hready (marked_next h hm hl) (by omega)
    (by change l ≤ PageBitmap.pageCount s .data; omega)

/-- What the loader makes of a chunk of twice `len` bytes at 4 MiB without a module. -/
def handed (len : U32int) : SegmentsParameters := ⟨0x400000 + len, len, 0x400000, len, 0, 0⟩

theorem handed_by_loader : ∀ len ∈ [0x200000, 0x1000000],
    loaderMain linkedImage true bootloaderMagic
    ⟨0, [⟨0x400000, 2 * len.setWidth 64, true⟩], none⟩ ⟨0, 0, false⟩ = some (handed len) := by
  intro len hlen
  simp only [List.mem_cons, List.not_mem_nil, or_false] at hlen
  rcases hlen with rfl | rfl <;> rfl

/-- The machine before `init_memory_bitmap`, ... -/
def entered (len : U32int) : State :=
  (onesMachine 0).initSegmentsInfo (0x400000 + len) len 0x400000 len 0 0

/-- ... and before `init_paging`. -/
def described (len : U32int) : State :=
  (bitmapState linkedImage (entered len)).withData
    (descriptorMemory (bitmapState linkedImage (entered len)) (firstFree (entered len)))

section

variable {len : U32int} (hlen : len ∈ [0x200000, 0x1000000])

include hlen

theorem entered_fits : BitmapsFit linkedImage (entered len) := by
  simp only [List.mem_cons, List.not_mem_nil, or_false] at hlen
  rcases hlen with rfl | rfl <;> exact ⟨rfl, rfl, by decide, by decide, by decide⟩

theorem entered_pages : firstFree (entered len) = 4 ∧
    512 ≤ PageBitmap.pageCount (entered len) .data := by
  simp only [List.mem_cons, List.not_mem_nil, or_false] at hlen
  rcases hlen with rfl | rfl <;> decide

theorem entered_marked : PagesMarked linkedImage (entered len)
    (bitmapState linkedImage (entered len)) := by
  refine (entered_fits hlen).marked_iff.mpr (noStaleBits_of_small fun k => ?_)
  simp only [List.mem_cons, List.not_mem_nil, or_false] at hlen
  rcases hlen with rfl | rfl <;> cases k <;> decide

theorem described_ready : BootReady (described len) 6 := by
  obtain ⟨hfirst, hpages⟩ := entered_pages hlen
  have hready := descriptors_ready (entered_fits hlen)
    (marked_next (entered_fits hlen) (entered_marked hlen) (by omega)) (by omega)
  rw [hfirst] at hready
  rwa [described, hfirst]

theorem described_start : pagingStart linkedImage (handed len)
    (onesMachine 0) = .ok (described len) := by
  obtain ⟨hfirst, hpages⟩ := entered_pages hlen
  have hready := bitmapState_ready (entered_fits hlen)
    (marked_next (entered_fits hlen) (entered_marked hlen) (by omega)) (by omega)
  obtain ⟨-, -, -, -, -, -, -, htables⟩ := initDescriptorTables_eq hready
  exact (bind_of_ok (entered_fits hlen).initMemoryBitmap_eq _).trans htables

theorem described_free {i : Nat} (hi : 6 ≤ i) (hlast : i < 500) :
    bit (described len).data (described len).memoryBitmap.dataBitmap i = false := by
  obtain ⟨hfirst, hpages⟩ := entered_pages hlen
  have hnext := descriptors_next (entered_fits hlen) (entered_marked hlen)
    (by omega : firstFree (entered len) + 6 ≤ 500) (by omega)
  rw [hfirst] at hnext
  rw [described, State.withData_data, hfirst]
  exact hnext.2 i hi hlast

omit hlen in
theorem described_window : windowIndexOf (bootState (described len) 6) = 2 := by
  change tableIndex (State.windowIndex (bootDir 6 + directorySize + 0x400000) *
    tableSpan - 0x400000 + 0x400000) = 2
  decide

theorem described_placeable : Placeable (described len) 6 where
  toBootReady := described_ready hlen
  base_aligned := by
    change (0x400000 : U32int).toNat % 4096 = 0
    decide
  window_below := by
    change (0x400000 : U32int).toNat + 4096 * 6 + 8192 ≤ 0xFFC00000
    decide

theorem described_spans {lin : U32int}
    (hlin : lin / pageSize ∈ bootPages linkedImage (bootState (described len) 6)) :
    tableIndex lin ∈ bootSpans ∧ tableIndex lin ≠ 2 := by
  suffices hmem : tableIndex lin ∈ bootSpans from ⟨hmem, bootSpans_ne_window _ hmem⟩
  simp only [List.mem_cons, List.not_mem_nil, or_false] at hlen
  rcases hlin with (((hdata | hstack) | hcode) | hvideo) | hmodule
  · change lin / pageSize ∈ pagesOf 0x400000 (bootDir 6 + directorySize) at hdata
    rw [tableIndex_of_mem (i := 1) (by decide) (by decide) (by decide) (by decide) hdata]
    decide
  · change lin / pageSize = (len - pageSize + 0x400000) / pageSize at hstack
    rcases hlen with rfl | rfl
    · rw [tableIndex_of_page (i := 1) hstack (by decide)]
      decide
    · rw [tableIndex_of_page (i := 4) hstack (by decide)]
      decide
  · change lin / pageSize ∈ pagesOf (0x400000 + len) 0x5000 at hcode
    rcases hlen with rfl | rfl
    · rw [tableIndex_of_mem (i := 1) (by decide) (by decide) (by decide) (by decide) hcode]
      decide
    · rw [tableIndex_of_mem (i := 5) (by decide) (by decide) (by decide) (by decide) hcode]
      decide
  · change lin / pageSize = videoBaseAddr / pageSize at hvideo
    rw [tableIndex_of_page (i := 0) hvideo (by decide)]
    decide
  · change lin / pageSize ∈ pagesOf 0 0 at hmodule
    rw [pagesOf_zero] at hmodule
    cases hmodule

theorem described_layout : BootLayout linkedImage (described len) 6 bootSpans 0 where
  toBootReady := described_ready hlen
  base_aligned := (described_placeable hlen).base_aligned
  data_end := by
    change (0x400000 : U32int).toNat + 4096 * (len.toNat / 4096) ≤ 2^32
    simp only [List.mem_cons, List.not_mem_nil, or_false] at hlen
    rcases hlen with rfl | rfl <;> decide
  video := rfl
  code_size := BitVec.toNat_udiv
  code_bitmap_end := by
    simp only [List.mem_cons, List.not_mem_nil, or_false] at hlen
    rcases hlen with rfl | rfl <;> decide
  outside := fun _ hlin => by
    rw [described_window]
    exact (described_spans hlen hlin).2
  spans := fun _ hlin => (described_spans hlen hlin).1
  enough := by
    have hneed : need bootSpans (Space.opening (windowIndexOf (bootState (described len) 6))) =
        4 := by
      rw [described_window]
      decide
    obtain ⟨-, hpages⟩ := entered_pages hlen
    have hsegment : segmentPages (described len) = PageBitmap.pageCount (entered len) .data := rfl
    have hfree : 400 ≤ (dataFree (bootState (described len) 6)).length := by
      rw [dataFree, segmentPages_bootState, hsegment]
      refine PackedBits.le_length_freeList (k := 9) (by omega) fun i hi hlt => ?_
      have hplace := described_placeable hlen
      rw [bootState, bootAt, bootWith_data]
      exact (boot_bits_above hplace hi (by omega)).trans (described_free hlen (by omega) (by omega))
    omega

/-- Both machines come through `init_heap`, with the directory in page 6. -/
theorem handed_boots : ∃ s1 s', (described len).allocDataPage = .ok (pageAt 6, s1) ∧
    (onesMachine 0).startKernel linkedImage (handed len) = .ok s' := by
  obtain ⟨s1, s2, halloc, -⟩ := directory_adjacent (described_ready hlen)
  obtain ⟨s', t, a, hmap, -, -⟩ := (described_layout hlen).mapKernelPages
  have hpaging : (described len).initPaging linkedImage =
      .ok (s'.switchPageDirectory s'.kernelPageDirectory) := by
    refine (bind_of_ok (initPagingTables_eq (described_ready hlen)) _).trans ?_
    exact bind_of_ok hmap _
  obtain ⟨s0, h0, hdescribed⟩ := bind_ok (described_start hlen)
  refine ⟨s1, State.initHeap (s'.switchPageDirectory s'.kernelPageDirectory), halloc, ?_⟩
  refine (bind_of_ok h0 _).trans ?_
  refine (bind_of_ok hdescribed _).trans ?_
  exact bind_of_ok hpaging _

end

/-- With 16 MiB of data all is apart. -/
theorem ranges_laidOut_large :
    ∃ s', (onesMachine 0).startKernel linkedImage (handed 0x1000000) = .ok s' ∧
    LaidOut linkedImage s' := by
  have hlen : (0x1000000 : U32int) ∈ [0x200000, 0x1000000] := by decide
  obtain ⟨s1, s', halloc, hok⟩ := handed_boots hlen
  exact ⟨s', hok, (ranges_laidOut_iff (described_start hlen) halloc (by decide) hok).mpr
    ⟨by decide, by decide, by decide⟩⟩

/-- The loader hands over 2 MiB of data at 4 MiB; the window then begins 2 MiB behind the
end of the segment. -/
theorem smallSegment_overrun :
    ∃ mbi entry p s', loaderMain linkedImage true bootloaderMagic mbi entry = some p ∧
    (onesMachine 0).startKernel linkedImage p = .ok s' ∧
    s'.segmentsInfo.dataSegment.len = 0x200000 ∧
    s'.pageTablesRelVirtAddr = 0x400000 ∧ ¬ LaidOut linkedImage s' := by
  have hlen : (0x200000 : U32int) ∈ [0x200000, 0x1000000] := by decide
  obtain ⟨s1, s', halloc, hok⟩ := handed_boots hlen
  obtain ⟨t, rfl, hboots⟩ := startKernel_boots (described_start hlen) halloc hok
  have hsize := congrArg (·.dataSegment.len) hboots.initHeap.info
  have hwindow := hboots.initHeap.window
  refine ⟨_, _, _, _, handed_by_loader _ hlen, hok, hsize, hwindow.trans (by decide), fun hl => ?_⟩
  have hspacious := (hboots.laidOut_iff (by decide) (by decide)).mp hl
  exact absurd hspacious.window_fits (by decide)

end SimpleOs.Audit.BootRanges
