import SimpleOs.Audit.BootRanges
import SimpleOs.Audit.PageCalls

/-!
# From the entry of the kernel to the first call

The bitmaps lie right behind kernel data, so the directory is among the first pages of
the data segment and the window ends below the place of the module's data. All that
`init_paging` relies on then follows from what the loader hands over.
-/

namespace SimpleOs.Audit.KernelStart

open SimpleOs.Kernel SimpleOs.Lib SimpleOs.Lib.ByteMemory
open SimpleOs.Audit.PageTables SimpleOs.Audit.PagingBoot SimpleOs.Audit.AddressSpace
open SimpleOs.Audit.PageSupply SimpleOs.Audit.Bookkeeping SimpleOs.Audit.LinearView
open SimpleOs.Audit.KernelBoot SimpleOs.Audit.HeapGrowth SimpleOs.Audit.PageCalls
open SimpleOs.Audit.ModuleHeader (linkedHeader)
open SimpleOs.Audit.BootRanges (Boots Ordered Spacious pagingStart segmentsOf windowAt)
open SimpleOs.Audit.BootPages SimpleOs.Audit.FullBitmap
open SimpleOs.Audit.BitmapBoot hiding codePages dataPages
open SimpleOs.Kernel.State (markUsed)
open SimpleOs.Lib.PackedBits (bit byteAt)

section

variable (p : SegmentsParameters)

/-- First address and length of code and data, ... -/
def codeAndData : List (Nat × Nat) :=
  [(p.dataBaseAddr.toNat, p.dataSegmentLen.toNat), (p.codeBaseAddr.toNat, p.codeSegmentLen.toNat)]

/-- ... and of all boot segments, the screen being one page. -/
def bootSegments : List (Nat × Nat) :=
  codeAndData p ++ [(p.moduleBaseAddr.toNat, p.moduleSegmentLen.toNat), (videoBaseAddr.toNat, 4096)]

end

/-- Whole pages below 4 GiB, each range clear of the others. -/
structure RangesApart (rs : List (Nat × Nat)) : Prop where
  whole : ∀ r ∈ rs, r.1 % 4096 = 0 ∧ r.2 % 4096 = 0 ∧ r.1 + r.2 ≤ 2^32
  apart : rs.Pairwise fun r r' => Disjoint (Set.Ico r.1 (r.1 + r.2)) (Set.Ico r'.1 (r'.1 + r'.2))

theorem codeAndData_apart {p : SegmentsParameters} (hr : RangesApart (bootSegments p)) :
    RangesApart (codeAndData p) where
  whole := fun r hmem => hr.whole r (List.mem_append_left _ hmem)
  apart := (List.pairwise_append.mp hr.apart).1

/-- The linked image is well below both bounds. -/
structure Compact (image : KernelImage) : Prop where
  code_pos : 0 < image.kernelCodeSize.toNat
  code : image.kernelCodeSize.toNat ≤ 0x300000
  data : image.kernelDataSize.toNat ≤ 0x300000

theorem linkedImage_compact : Compact linkedImage := ⟨by decide, by decide, by decide⟩

/-- The kernel is entered without paging, `data_top_address` behind kernel data, and its
code in the code segment. -/
structure Entered (image : KernelImage) (p : SegmentsParameters) (s : State) : Prop where
  disabled : s.pagingEnabled = false
  top : s.dataTopAddress = image.kernelDataSize
  code_inside : image.kernelCodeSize.toNat ≤ p.codeSegmentLen.toNat

section

variable (image : KernelImage) (p : SegmentsParameters) (s : State)

/-- The machine before `init_memory_bitmap`, ... -/
def segmented : State :=
  s.initSegmentsInfo p.codeBaseAddr p.codeSegmentLen p.dataBaseAddr p.dataSegmentLen
    p.moduleBaseAddr p.moduleSegmentLen

/-- ... and before `init_paging`, which is handed the page with this number first. -/
def described : State :=
  (bitmapState image (segmented p s)).withData
    (descriptorMemory (bitmapState image (segmented p s)) (firstFree (segmented p s)))

def firstPage : Nat := firstFree (segmented p s) + 2

end

theorem NextFree.mono {m : Memory} {q : U32int} {k l l' : Nat} (h : NextFree m q k l)
    (hl : l' ≤ l) : NextFree m q k l' := ⟨h.1, fun i hi hlt => h.2 i hi (by omega)⟩

/-- 2^20 pages need 32 pages of bitmap. -/
theorem bitmapPages_le (s : State) (k : PageBitmap.Kind) :
    BitmapBoot.bitmapPages (PageBitmap.pageCount s k) ≤ 32 := by
  have hle := PageBitmap.pageCount_le s k
  rw [BitmapBoot.bitmapPages]
  omega

section

variable {image : KernelImage} {p : SegmentsParameters} {s : State} (h : Entered image p s)
  (hc : Compact image) (hroom : 0x350000 ≤ p.dataSegmentLen.toNat)

include h hc hroom

theorem segmented_fits : BitmapsFit image (segmented p s) := by
  have hcode := bitmapPages_le (segmented p s) .code
  have hdata := bitmapPages_le (segmented p s) .data
  have hpos := hc.code_pos
  have hcsize := hc.code
  have hdsize := hc.data
  have hin := h.code_inside
  have halign := image.code_aligned
  have hccount : PageBitmap.pageCount (segmented p s) .code = p.codeSegmentLen.toNat / 4096 := rfl
  have hdcount : PageBitmap.pageCount (segmented p s) .data = p.dataSegmentLen.toNat / 4096 := rfl
  exact ⟨h.disabled, h.top, by omega, by omega, hin⟩

theorem firstPage_le : firstPage p s ≤ 834 := by
  have hcode := bitmapPages_le (segmented p s) .code
  have hdata := bitmapPages_le (segmented p s) .data
  have htop := (segmented_fits h hc hroom).bitmapTop_toNat
  have hdsize := hc.data
  rw [firstPage, firstFree]
  omega

/-- The bits of the first pages when `init_memory_bitmap` is through, ... -/
theorem segmented_next {l : Nat} (hl : 4096 * (l + 1) ≤ p.dataSegmentLen.toNat) (hlow : l ≤ 32768) :
    NextFree (bitmapState image (segmented p s)).data
      (bitmapState image (segmented p s)).memoryBitmap.dataBitmap
          (firstFree (segmented p s)) l := by
  have hcount : PageBitmap.pageCount (segmented p s) .data = p.dataSegmentLen.toNat / 4096 := rfl
  exact low_next (segmented_fits h hc hroom) (by omega) hlow

theorem segmented_ready : BootReady (bitmapState image (segmented p s))
    (firstFree (segmented p s)) := by
  have hfirst := firstPage_le h hc hroom
  have hcount : PageBitmap.pageCount (segmented p s) .data = p.dataSegmentLen.toNat / 4096 := rfl
  rw [firstPage] at hfirst
  exact bitmapState_ready (segmented_fits h hc hroom)
    (NextFree.mono (segmented_next h hc hroom (l := 840) (by omega) (by decide)) (by omega))
      (by omega)

/-- ... and when GDT and IDT have their pages. -/
theorem described_next {l : Nat} (hlow : 840 ≤ l) (hl : 4096 * (l + 1) ≤ p.dataSegmentLen.toNat)
    (hhigh : l ≤ 32768) :
    NextFree (described image p s).data
    (described image p s).memoryBitmap.dataBitmap (firstPage p s) l := by
  have hfirst := firstPage_le h hc hroom
  have hcount : PageBitmap.pageCount (segmented p s) .data = p.dataSegmentLen.toNat / 4096 := rfl
  rw [firstPage] at hfirst
  rw [described, State.withData_data]
  exact descriptorMemory_next (segmented_ready h hc hroom) (segmented_next h hc hroom hl hhigh)
    (by omega) (by change l ≤ PageBitmap.pageCount (segmented p s) .data; omega)

theorem described_ready : BootReady (described image p s) (firstPage p s) := by
  have hfirst := firstPage_le h hc hroom
  have hcount : PageBitmap.pageCount (segmented p s) .data = p.dataSegmentLen.toNat / 4096 := rfl
  rw [firstPage] at hfirst
  exact descriptors_ready (segmented_fits h hc hroom)
    (NextFree.mono (segmented_next h hc hroom (l := 840) (by omega) (by decide)) (by omega))
      (by omega)

theorem pagingStart_eq : pagingStart image p s = .ok (described image p s) := by
  obtain ⟨-, -, -, -, -, -, -, htables⟩ := initDescriptorTables_eq (segmented_ready h hc hroom)
  exact (bind_of_ok (segmented_fits h hc hroom).initMemoryBitmap_eq _).trans htables

/-- Of the first code pages those of kernel code are marked, whatever memory held, ... -/
theorem described_code {k : Nat} (hk : k < codePages (described image p s)) (hlow : k < 32768) :
    bit (described image p s).data (described image p s).memoryBitmap.codeBitmap k =
      decide (k < image.kernelCodeSize.toNat / 4096) := by
  have hfits := segmented_fits h hc hroom
  have hcb := hfits.codeBitmap_toNat
  have hdb := hfits.dataBitmap_toNat
  have hbytes := bitmapPages_bytes (PageBitmap.pageCount (segmented p s) .code)
  have hle := PageBitmap.pageCount_le (segmented p s) .code
  change k < PageBitmap.pageCount (segmented p s) .code at hk
  have hbelow : (byteAt (codeBitmapAt (segmented p s)) k).toNat <
      (dataBitmapAt (segmented p s)).toNat := by
    rw [byteAt]
    bv_omega
  have hsame := descriptorMemory_below (segmented_ready h hc hroom) hbelow
  rw [bitmapState, withBitmaps_data] at hsame
  have hbit := hfits.code_bit (i := k) (by omega)
  rw [decide_eq_false (by omega : ¬ 32768 ≤ k), Bool.false_and, Bool.or_false] at hbit
  rw [← hbit, described, State.withData_data]
  exact congrArg (BitVec.getLsbD · (k % 8)) hsame

/-- ... and so is the page of the stack. -/
theorem described_stack : bit (described image p s).data
    (described image p s).memoryBitmap.dataBitmap
    (segmentPages (described image p s) - 1) = true := by
  have hfits := segmented_fits h hc hroom
  have hcount : PageBitmap.pageCount (segmented p s) .data = p.dataSegmentLen.toNat / 4096 := rfl
  have hbit := hfits.data_bit (i := PageBitmap.pageCount (segmented p s) .data - 1) (by omega)
  rw [decide_eq_true rfl, Bool.true_or] at hbit
  rw [described, State.withData_data]
  refine descriptorMemory_used (segmented_ready h hc hroom) ?_ ?_
  · change PageBitmap.pageCount (segmented p s) .data - 1 <
      PageBitmap.pageCount (segmented p s) .data
    omega
  · rw [bitmapState, withBitmaps_data]
    exact hbit

end

/-- Two ranges that lie apart, neither of them empty. -/
theorem apart_of_disjoint {x m y n : Nat} (h : Disjoint (Set.Ico x (x + m)) (Set.Ico y (y + n)))
    (hm : 0 < m) (hn : 0 < n) : x + m ≤ y ∨ y + n ≤ x := by
  rw [Set.Ico_disjoint_Ico] at h
  omega

section

variable {image : KernelImage} {p : SegmentsParameters} {s s0 s1 : State}
  {n r : Nat} {I : Finset U32int}

theorem RangesApart.apart_segments (hr : RangesApart (codeAndData p))
    (hinfo : s0.segmentsInfo = segmentsOf p)
    (hdata : 0 < p.dataSegmentLen.toNat) (hcode : 0 < p.codeSegmentLen.toNat) : Apart s0 := by
  obtain ⟨hwhole, hapart⟩ := hr
  obtain ⟨hd, hc⟩ := List.forall_mem_cons.mp hwhole
  have hdisj := apart_of_disjoint
    ((List.pairwise_cons.mp hapart).1 _ List.mem_cons_self) hdata hcode
  obtain ⟨hdalign, hdwhole, hdend⟩ := hd
  obtain ⟨hcalign, hcwhole, hcend⟩ := hc _ List.mem_cons_self
  have hcpages : 4096 * codePages s0 = p.codeSegmentLen.toNat := by
    rw [codePages, hinfo]
    change 4096 * (p.codeSegmentLen.toNat / 4096) = _
    omega
  have hdpages : 4096 * segmentPages s0 = p.dataSegmentLen.toNat := by
    rw [segmentPages, hinfo]
    change 4096 * (p.dataSegmentLen.toNat / 4096) = _
    omega
  have hcbase : codeBase s0 = p.codeBaseAddr := by
    rw [codeBase, hinfo]
    rfl
  have hdbase : s0.dataBase = p.dataBaseAddr := by
    rw [State.dataBase, hinfo]
    rfl
  refine ⟨?_, ?_, ?_, ?_⟩
  · rw [hcbase]
    exact hcalign
  · rw [hcbase, hcpages]
    exact hcend
  · rw [hdbase, hdpages]
    exact hdend
  · rw [hcbase, hdbase, hcpages, hdpages]
    exact hdisj

/-- Few pages are used when `init_paging` begins, or the segment is small. -/
theorem Entered.next_le (h : Entered image p s) (hc : Compact image)
    (hstart : pagingStart image p s = .ok s0) (hb : BootReady s0 n) : n ≤ 845 := by
  by_cases hroom : 0x350000 ≤ p.dataSegmentLen.toNat
  · cases hstart.symm.trans (pagingStart_eq h hc hroom)
    have hfirst := firstPage_le h hc hroom
    by_contra hlate
    have hclear := (described_next h hc hroom (l := 840) le_rfl (by omega) (by decide)).2
      (firstPage p s) le_rfl (by omega)
    rw [hb.next.1 (firstPage p s) (by omega)] at hclear
    cases hclear
  · have hpages := hb.room
    rw [segmentPages, (BootRanges.pagingStart_globals hstart).1] at hpages
    change n + 3 ≤ p.dataSegmentLen.toNat / 4096 at hpages
    omega

/-- The window ends below the place of the module's data. -/
theorem Entered.window_end (h : Entered image p s) (hc : Compact image)
    (hstart : pagingStart image p s = .ok s0)
    (hb : Placeable s0 n) : (bootWindow s0 n).toNat + 0x400000 ≤ 0xC00000 := by
  have hn := h.next_le hc hstart hb.toBootReady
  have hindex := bootIndex_toNat hb
  have hwindow := bootWindow_toNat hb
  omega

theorem Entered.room (h : Entered image p s) (hc : Compact image) (hr : RangesApart (codeAndData p))
    (hstart : pagingStart image p s = .ok s0) (hb : Bootable image s0 n I r)
    (hinit : s0.initPaging image = .ok s1) : ModuleRoom s1 := by
  obtain ⟨s1', t, a, hcall, -, hmapped⟩ := hb.initPaging
  cases hcall.symm.trans hinit
  obtain ⟨hinfo0, -⟩ := BootRanges.pagingStart_globals hstart
  obtain ⟨hinfo, -, -, htables⟩ := startState_globals s0 n s1.data
  rw [← hmapped.only_data, hinfo0] at hinfo
  rw [← hmapped.only_data] at htables
  have hwindow := h.window_end hc hstart hb.placeable
  have hpages := hb.room
  rw [segmentPages, hinfo0] at hpages
  change n + 3 ≤ p.dataSegmentLen.toNat / 4096 at hpages
  have hcode := h.code_inside
  have hpos := hc.code_pos
  obtain ⟨hd, hrest⟩ := List.forall_mem_cons.mp hr.whole
  have hcw := hrest _ List.mem_cons_self
  refine ⟨hr.apart_segments hinfo (by omega) (by omega), ?_, ?_, ?_⟩
  · rw [hinfo]
    exact hcw.2.1
  · rw [hinfo]
    exact hd.2.1
  · rw [htables]
    exact hwindow

end

/-- All indices of the directory. -/
def allSpans : Finset U32int := (Finset.range 1024).image (BitVec.ofNat 32)

theorem mem_allSpans (lin : U32int) : tableIndex lin ∈ allSpans := by
  refine Finset.mem_image.mpr ⟨(tableIndex lin).toNat, Finset.mem_range.mpr (tableIndex_lt lin), ?_⟩
  rw [BitVec.ofNat_toNat, BitVec.setWidth_eq]

theorem need_le (a : Space) : need allSpans a ≤ 1024 :=
  (Finset.card_le_card Finset.sdiff_subset).trans
    (Finset.card_image_le.trans_eq (Finset.card_range 1024))

section

variable {image : KernelImage} {p : SegmentsParameters} {s s1 : State}
  (h : Entered image p s) (hc : Compact image)
  (hr : RangesApart (codeAndData p)) (hroom : 0xC01000 ≤ p.dataSegmentLen.toNat)
  (hs : Spacious image p (bootDir (firstPage p s)))

include h hc hr hroom hs

/-- The first pages behind the directory are free, enough for tables in all spans. -/
theorem described_layout : BootLayout image (described image p s)
    (firstPage p s) allSpans 1024 := by
  have hready := described_ready h hc (by omega : 0x350000 ≤ p.dataSegmentLen.toNat)
  have hfirst := firstPage_le h hc (by omega : 0x350000 ≤ p.dataSegmentLen.toNat)
  have hnext := described_next h hc (by omega : 0x350000 ≤ p.dataSegmentLen.toNat) (l := 3000)
    (by decide) (by omega) (by decide)
  have hend := (hr.whole _ List.mem_cons_self).2.2
  change p.dataBaseAddr.toNat + p.dataSegmentLen.toNat ≤ 2^32 at hend
  have hbase : (described image p s).dataBase = p.dataBaseAddr := rfl
  have halign : (described image p s).dataBase.toNat % 4096 = 0 := (hr.whole _ List.mem_cons_self).1
  have hpages : segmentPages (described image p s) = p.dataSegmentLen.toNat / 4096 := rfl
  have hplace : Placeable (described image p s) (firstPage p s) :=
    ⟨hready, halign, by rw [hbase]; omega⟩
  have hboots : Boots p (bootDir (firstPage p s))
      (bootState (described image p s) (firstPage p s)) :=
    ⟨rfl, rfl, rfl⟩
  have hdir : (bootDir (firstPage p s)).toNat % 4096 = 0 := by
    rw [bootDir_toNat hplace]
    omega
  refine ⟨hready, halign, ?_, rfl, BitmapBoot.codePages_toNat (segmented p s), ?_,
    hboots.pages_away hdir hs, fun lin _ => mem_allSpans lin, ?_⟩
  · rw [hbase, hpages]
    omega
  · exact (segmented_fits h hc (by omega)).placed.code_room
  · have hneed := need_le (Space.opening
      (windowIndexOf (bootState (described image p s) (firstPage p s))))
    have hfree : 2100 ≤ (dataFree (bootState (described image p s) (firstPage p s))).length := by
      rw [dataFree, segmentPages_bootState]
      refine PackedBits.le_length_freeList (k := firstPage p s + 3) (by omega) fun i hi hlt => ?_
      rw [bootState, bootAt, bootWith_data]
      exact (boot_bits_above hplace hi (by omega)).trans (hnext.2 i (by omega) (by omega))
    omega

theorem described_bootable : Bootable image (described image p s)
    (firstPage p s) allSpans 1024 where
  toBootLayout := described_layout h hc hr hroom hs
  window_reachable := by
    have hend := h.window_end hc (pagingStart_eq h hc (by omega))
      (described_layout h hc hr hroom hs).placeable
    have hlimit := BitmapBoot.dataLimit_toNat (segmented p s)
    have hcount : PageBitmap.pageCount (segmented p s) .data = p.dataSegmentLen.toNat / 4096 := rfl
    change (bootWindow (described image p s) (firstPage p s)).toNat + 0x400000 ≤
      (segmented p s).segmentsInfo.dataSegment.limit.toNat + 1
    omega

end

section

variable {p : SegmentsParameters} {s s1 : State} {n r : Nat} {I : Finset U32int}

/-- Page 0 is used, and most pages behind kernel code are free. -/
theorem described_stocked (h : Entered linkedImage p s) (hdata : 0x350000 ≤ p.dataSegmentLen.toNat)
    (hcode : 0x400000 ≤ p.codeSegmentLen.toNat)
    (hb : Bootable linkedImage (described linkedImage p s) n I r)
    (hr : 1000 ≤ r) (hinit : (described linkedImage p s).initPaging linkedImage = .ok s1) :
    Stocked s1.initHeap 500 := by
  obtain ⟨s1', t, a, hcall, -, hmapped⟩ := hb.initPaging
  cases hcall.symm.trans hinit
  obtain ⟨start, size, hheap, -⟩ := initHeap_sets s1
  have hsupply := hmapped.supply
  have hpages : codePages (described linkedImage p s) = p.codeSegmentLen.toNat / 4096 := rfl
  have hsize : linkedImage.kernelCodeSize.toNat / 4096 = 5 := by decide
  have hbit : ∀ k < 1024, bit (startState (described linkedImage p s) n).data
      (described linkedImage p s).memoryBitmap.codeBitmap k = decide (k < 5) := fun k hk => by
    rw [startState_code_bit hb.toBootLayout (by omega),
      described_code h linkedImage_compact hdata (by omega) (by omega), hsize]
  rw [hheap]
  refine ⟨?_, ?_, ?_⟩
  · change 2 * 500 ≤ (dataFree s1).length
    omega
  · change 500 ≤ (codeFree s1).length
    rw [hmapped.free]
    refine PackedBits.le_length_freeList (k := 5) ?_ fun k hk hlt => ?_
    · change 5 + 500 ≤ codePages (described linkedImage p s)
      omega
    · exact (hbit k (by omega)).trans (decide_eq_false (by omega))
  · change 0 ∉ codeFree s1
    rw [hmapped.free]
    intro hmem
    have hclear := (PackedBits.mem_freeList.mp hmem).2
    exact absurd ((hbit 0 (by decide)).symm.trans hclear) (by decide)

end

/-- 16 MiB of data at 4 MiB, as much code behind it and a module of two pages below. -/
def handed : SegmentsParameters := ⟨0x1400000, 0x1000000, 0x400000, 0x1000000, 0x3FE000, 0x2000⟩

/-- The machine enters with every byte of memory 0xFF. -/
theorem handed_entered : Entered linkedImage handed (onesMachine 0) := ⟨rfl, rfl, by decide⟩

theorem handed_apart : RangesApart (bootSegments handed) where
  whole := by decide
  apart := by
    simp only [bootSegments, codeAndData, handed, List.cons_append, List.nil_append,
      List.pairwise_cons, List.forall_mem_cons, List.not_mem_nil, IsEmpty.forall_iff, implies_true,
      List.Pairwise.nil, and_true, Set.Ico_disjoint_Ico]
    decide

theorem handed_firstPage : firstPage handed (onesMachine 0) = 6 := by decide

theorem handed_spacious : Spacious linkedImage handed
    (bootDir (firstPage handed (onesMachine 0))) := by
  have hordered : Ordered linkedImage handed := ⟨by decide, by decide, rfl, by decide⟩
  rw [handed_firstPage]
  exact (hordered.spacious_iff (by decide)).mpr (by decide)

theorem handed_room : 0xC01000 ≤ handed.dataSegmentLen.toNat ∧
    0x400000 ≤ handed.codeSegmentLen.toNat := by decide

theorem handed_start : pagingStart linkedImage handed (onesMachine 0) =
    .ok (described linkedImage handed (onesMachine 0)) :=
  pagingStart_eq handed_entered linkedImage_compact (by decide)

theorem handed_bootable : Bootable linkedImage (described linkedImage handed (onesMachine 0))
    (firstPage handed (onesMachine 0)) allSpans 1024 :=
  described_bootable handed_entered linkedImage_compact (codeAndData_apart handed_apart)
    handed_room.1 handed_spacious

/-- `init_module` accepts the linked module there. -/
theorem handed_accepted : linkedHeader.Accepted (segmentsOf handed) := by
  rw [← ModuleHeader.fits_iff]
  decide

theorem handed_globals {s1 : State}
    (hinit : (described linkedImage handed (onesMachine 0)).initPaging linkedImage = .ok s1) :
    s1.segmentsInfo = segmentsOf handed ∧ s1.pageTablesRelVirtAddr = 0x400000 := by
  obtain ⟨s1', t, a, hcall, -, hmapped⟩ := handed_bootable.initPaging
  cases hcall.symm.trans hinit
  obtain ⟨hinfo, -, -, htables⟩ := startState_globals (described linkedImage handed (onesMachine 0))
    (firstPage handed (onesMachine 0)) s1.data
  rw [← hmapped.only_data] at hinfo htables
  refine ⟨hinfo, htables.trans ?_⟩
  change windowAt handed (bootDir (firstPage handed (onesMachine 0))) = 0x400000
  rw [handed_firstPage]
  decide

/-- A page of the heap, then the first pages of the module's code and data and its stack page. -/
theorem handed_run : ∃ s1 s2 log q t a,
    (described linkedImage handed (onesMachine 0)).initPaging linkedImage = .ok s1 ∧
    log.map Prod.fst = [.moduleData 0, .moduleCode 0, .heap 0x800000] ∧
    Runs linkedHeader s1.initHeap ((.moduleStack, q) :: log) s2 ∧ Running s1.initHeap s2 t a ∧
    Outside a 0x13FE000 ∧
    a.bindings (0x13FE000 / pageSize) = some ⟨(q + 0x400000) / pageSize, true, true⟩ := by
  obtain ⟨s1, -, -, hinit, -⟩ := handed_bootable.initPaging
  obtain ⟨hinfo1, htables⟩ := handed_globals hinit
  have hroom := handed_entered.room linkedImage_compact (codeAndData_apart handed_apart)
    handed_start handed_bootable hinit
  obtain ⟨t0, a0, hrun, -⟩ := Bootable.running handed_bootable hinit hroom
  have hstocked := described_stocked handed_entered (by decide) handed_room.2
    handed_bootable (by decide) hinit
  obtain ⟨start, size, hheap, hstart⟩ := initHeap_sets s1
  have hinfo : s1.initHeap.segmentsInfo = segmentsOf handed := (initHeap_info s1).trans hinfo1
  have hbrk : s1.initHeap.heapBrk = 0x800000 := by
    rw [hheap]
    change start = 0x800000
    rw [hstart, htables]
    decide
  have hcalls : ∀ c ∈ [PageCall.heap 0x800000, .moduleCode 0, .moduleData 0],
      (∀ lin, c ≠ .fault lin) ∧ c.OfModule linkedHeader s1.initHeap.segmentsInfo ∧
          c.Due s1.initHeap := by
    rw [hinfo]
    simp only [List.forall_mem_cons, List.not_mem_nil, IsEmpty.forall_iff, implies_true, and_true]
    refine ⟨⟨fun lin => ?_, trivial, ?_⟩, ⟨fun lin => ?_, ⟨handed_accepted, by decide⟩, trivial⟩,
      ⟨fun lin => ?_, ⟨handed_accepted, by decide⟩, trivial⟩⟩
    · exact PageCall.noConfusion
    · change s1.initHeap.heapBrk.toNat ≤ _
      rw [hbrk]
    · exact PageCall.noConfusion
    · exact PageCall.noConfusion
  have hsplit : Stocked s1.initHeap
      ([PageCall.heap 0x800000, .moduleCode 0, .moduleData 0].length + 497) := hstocked
  obtain ⟨log, s2, t, a, hlog, hruns, hrun2, hbrk2, hstocked2⟩ := hrun.runs .start hsplit hcalls
  rw [List.append_nil] at hruns
  have hinfo2 : s2.segmentsInfo = segmentsOf handed := hrun2.info.trans hinfo
  obtain ⟨q, s3, s4, t', a', htake, hhad, hcall, hrun4, hmoved, -⟩ :=
    hrun2.perform (n := 496) (c := .moduleStack)
    hstocked2 (fun lin => PageCall.noConfusion) (by rw [hinfo2]; exact handed_accepted) trivial
  have hlin : PageCall.moduleStack.lin s2.segmentsInfo = 0x13FE000 := by
    rw [hinfo2]
    decide
  obtain heq | ⟨-, hc⟩ := hmoved.space
  · refine ⟨s1, s4, log, q, t', a', hinit, hlog,
      .call hruns (by rw [hinfo2]; exact handed_accepted) trivial htake hhad hcall, hrun4, ?_, ?_⟩
    · rw [Outside, ← hrun4.ready.holds.window, hrun4.window, windowIndexOf, initHeap_pageTables,
        htables, State.dataBase, hinfo]
      decide
    · rw [heq, hlin, map_bindings_self, hinfo2]
      rfl
  · cases hc

end SimpleOs.Audit.KernelStart
