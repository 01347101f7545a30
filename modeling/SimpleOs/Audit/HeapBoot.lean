import SimpleOs.Audit.HeapLedger
import SimpleOs.Audit.NullTable
import SimpleOs.Audit.BootRanges
import SimpleOs.Audit.PageCalls

/-!
# The heap of a kernel that has booted

`init_paging` leaves the static data below the bitmaps alone, and `init_heap` makes an empty
window of the half of what is free behind the page tables. With the words of the allocator
still zero that is an arena in which nothing has been handed out.
-/

namespace SimpleOs.Audit.HeapBoot

open SimpleOs.Kernel SimpleOs.Lib SimpleOs.Lib.ByteMemory SimpleOs.Lib.Refinement
open SimpleOs.Lib.SkipList
open SimpleOs.Audit.PageTables SimpleOs.Audit.KernelAccess SimpleOs.Audit.MapCalls
open SimpleOs.Audit.PagingBoot
open SimpleOs.Audit.AddressSpace
open SimpleOs.Audit.PageSupply SimpleOs.Audit.Bookkeeping SimpleOs.Audit.KernelBoot
open SimpleOs.Audit.NullTable
open SimpleOs.Audit.BootRanges SimpleOs.Audit.LinearView SimpleOs.Audit.PageRuns
open SimpleOs.Audit.HeapGrowth
open SimpleOs.Audit.HeapLock SimpleOs.Audit.SlabHeap SimpleOs.Audit.SlabIndex
open SimpleOs.Audit.SlabCalls
open SimpleOs.Audit.HeapWords SimpleOs.Audit.HeapBytes SimpleOs.Audit.HeapService
open SimpleOs.Audit.HeapLedger

section

variable {s s' : State} {t t' : TableMap} {a a' : Space} {n r : Nat}
  {image : KernelImage} {I : Finset U32int}

/-- A mapping that is made and keeps the books had a page for the table it lacked. -/
theorem free_of_mapped {segment : Segment} {v p : U32int} {rw user : Bool} (h : Ready s t a)
    (hcall : s.mmap segment v p rw user = .ok (true, s'))
    (honly : s' = s.withData s'.data) (h' : Ready s' t' a')
    (he : MapEffect s t (v + segment.base) s' t')
    (hcov : tableIndex (v + segment.base) ∉ a.covered) : dataFree s ≠ [] := by
  intro hnil
  have ht := h.holds.tables
  have hl := h.holds.live h.reach
  have hi := tableIndex_lt (v + segment.base)
  have hnone : t (tableIndex (v + segment.base)) = none := by
    rw [← Option.not_isSome_iff_eq_none]
    exact fun hsome => hcov ((h.holds.covered _ hi).mpr hsome)
  obtain ⟨rfl, -⟩ : t' = t ∧ dataFree s' = dataFree s := by
    rcases he.supply with hsame | ⟨k, rest, -, hf, -⟩
    · exact hsame
    · rw [hnil] at hf
      cases hf
  obtain ⟨w, hw⟩ := ht.window_some
  -- the page for the table was asked for, and there was none
  have hptr := pageTablePtr_eq ht hl.toKernelMapped hi
  rw [hnone, Option.isSome_none, if_neg Bool.false_ne_true] at hptr
  obtain ⟨r, s1, halloc⟩ : ∃ r s1, s.allocDataPage = .ok (r, s1) := by
    obtain ⟨⟨entry, s2⟩, hget, -⟩ := bind_ok hcall
    simp only [State.getPtEntry, tableIndex_eq, hptr, ok_bind, ne_eq, not_true_eq_false,
      if_false, if_true] at hget
    obtain ⟨⟨r, s1⟩, halloc, -⟩ := bind_ok hget
    exact ⟨r, s1, halloc⟩
  have hnull : s.allocDataPage = .ok (null, s) := by
    obtain ⟨rfl, rfl⟩ | ⟨m, -, htakes⟩ := allocDataPage_cases ht hl halloc
    · exact halloc
    · have hinside := htakes.inside
      have hmem : r.toNat / 4096 ∈ dataFree s := PackedBits.mem_freeList.mpr ⟨by omega, htakes.free⟩
      rw [hnil] at hmem
      exact absurd hmem List.not_mem_nil
  obtain ⟨b, m, hmmap, habove, -⟩ := mmap_null ht hl hw hi hnone rfl hnull p rw user
  cases hmmap.symm.trans hcall
  have hentry := (linked_entry ht hw hi habove).present
  have habsent := h'.holds.tables.pde_none _ hi hnone
  rw [State.withData_data] at habsent
  exact absurd hentry (Bool.eq_false_iff.mp habsent)

/-- Mapping changes nothing below the bitmaps. -/
theorem steady_low (q : U32int) (v : U8int) :
    Steady fun s _ => q.toNat < s.memoryBitmap.codeBitmap.toNat → s.data q = v := by
  intro s s' t t' a a' segment x p rw user h hout hcall honly h' he hq hlt
  have hcode := h.supply.bitmap_end
  have hdata := h.holds.tables.bitmap_end
  have hlow : LowKept s s' := h.mmap_low (fun hcov => free_of_mapped h hcall honly h' he hcov) hcall
  rw [honly] at hlt
  rw [hlow q (by change q.toNat < s.memoryBitmap.codeBitmap.toNat at hlt; omega)
    (by change q.toNat < s.memoryBitmap.codeBitmap.toNat at hlt; bv_omega)]
  exact hq hlt

/-- `init_paging` leaves what is below the bitmaps as it was. -/
theorem Bootable.initPaging_low (h : Bootable image s n I r) :
    ∃ s' t a, s.initPaging image = .ok s' ∧
    s'.pagingEnabled = true ∧ BootMapped (startState s n) I r (bootFlags image (bootState s n)) s' t
    a ∧ ∀ q : U32int, q.toNat < s.memoryBitmap.codeBitmap.toNat → s'.data q = s.data q := by
  obtain ⟨s', t, a, hcall, hon, hmapped, hkeep⟩ := h.initPaging_steady
  refine ⟨s', t, a, hcall, hon, hmapped, fun q hq => ?_⟩
  have hcode := h.code_bitmap_end
  have hbitmap : s'.memoryBitmap = s.memoryBitmap := by
    rw [hmapped.only_data]
    exact (startState_globals s n s'.data).2.1
  refine hkeep _ (steady_low q (s.data q)) (fun _ _ hlow => hlow) (fun _ => ?_) (hbitmap.symm ▸ hq)
  rw [← bootMemory_frame h.placeable (y := q) (.inl (by omega))]
  exact congrFun (startState_data s n) q

end

/-- What the linker and the boot code leave to the allocator: its variables lie in the
static data and are zero, but for those of the random numbers. -/
structure Allots (g : SlabStatics) (b : Bounds) (image : KernelImage) (s : State) (n : Nat)
    (I : Finset U32int) (r : Nat) : Prop extends Bootable image s n I r where
  apart : Apart s
  table : 1 ≤ r
  placed : Placed g b
  statics_end : b.statics ≤ s.memoryBitmap.codeBitmap.toNat
  zero : ∀ x : U32int, InBins g x ∨ InIndex g x ∨ x = g.newestBig →
    x.toNat % 4 = 0 → read32 s.data x = 0
  start : (bootState s n).initHeap.heapStartRelVirtAddr.toNat = b.start
  limit : b.start + (bootState s n).initHeap.heapSize.toNat = b.limit
  behind : b.start ≤ s.segmentsInfo.dataSegment.len.toNat

def noChunks : Arena := fun _ => none

section

variable {g : SlabStatics} {b : Bounds} {h : Heap} {p : U32int} {bytes : Nat}

theorem noChunks_live : ¬ Live noChunks p bytes := fun ⟨_, _, hq, _⟩ => by cases hq

/-- Empty lists everywhere. -/
theorem noChunks_consistent (hp : Placed g b) (hbrk : h.brk.toNat % 4096 = 0)
    (habove : b.start ≤ h.brk.toNat)
    (hzero : ∀ x, InBins g x ∨ InIndex g x ∨ x = g.newestBig → x.toNat % 4 = 0 → h.words x = 0) :
    Consistent g b h noChunks := by
  have hlim := b.limit_le
  have hstatics := b.statics_le
  have hbins := hp.bins_end
  have hindex := hp.index_end
  have hhead4 : g.binHead.toNat % 4 = 0 := hp.aligned _ (by simp)
  have hbig4 : g.bigBins.toNat % 4 = 0 := hp.aligned _ (by simp)
  have hnewest4 : g.newestBig.toNat % 4 = 0 := hp.aligned _ (by simp)
  have hbrk' := h.brk.isLt
  have hnone : ∀ {p : U32int} {c : Chunk} {P : Prop}, noChunks p = some c → P :=
    fun hp => by cases hp
  refine ⟨fun _ => [], fun _ => [], 0,
    ⟨hp, hbrk, habove, ⟨fun _ _ => hnone, fun _ _ => hnone, fun _ _ => hnone,
    fun _ _ _ _ h _ _ => hnone h, fun _ _ => hnone⟩,
      ⟨fun i hi => ?_, fun _ _ => List.nodup_nil, fun i _ p => ?_⟩,
    .inl (hzero _ (.inr (.inr rfl)) hnewest4)⟩,
      ⟨⟨.nil, List.nodup_nil, fun _ => .slnil⟩, fun i hi => ?_,
    fun _ _ => rfl, Nat.zero_le 6, ?_⟩, fun q => ?_⟩
  · have hi' : i.toNat < 10 := hi
    have hbin : (g.bin i).toNat = g.binHead.toNat + 4 * i.toNat := by
      rw [SlabStatics.bin, BitVec.toNat_add, BitVec.toNat_mul]
      change (_ + 4 * i.toNat % 2^32) % 2^32 = _
      omega
    exact hzero _ (.inl ⟨by omega, by omega⟩) (by omega)
  · refine ⟨fun h => absurd h List.not_mem_nil, ?_⟩
    rintro ⟨_, _, h⟩
    exact hnone h
  · have hlink : (BinHeader.forward g.bigBins i).toNat = g.bigBins.toNat + (20 + 4 * i) := by
      rw [BinHeader.forward, BitVec.toNat_add, BitVec.toNat_ofNat]
      omega
    exact hzero _ (.inr (.inl ⟨by omega, by omega⟩)) (by omega)
  · have hlevel : g.level.toNat = g.bigBins.toNat + 48 := by
      rw [SlabStatics.level, BitVec.toNat_add]
      change (_ + 48) % 2^32 = _
      omega
    exact hzero _ (.inr (.inl ⟨by omega, by omega⟩)) (by omega)
  · refine ⟨fun h => absurd h List.not_mem_nil, ?_⟩
    rintro ⟨_, h⟩
    exact hnone h

end

/-- The kernel comes from `init_paging` and `init_heap`, the lock is free and nobody has
been given anything. -/
structure Booted (g : SlabStatics) (memLock : Addr) (image : KernelImage) (s : State)
    (hs : HeapState) (l : Ledger) : Prop where
  boot : ∃ s', s.initPaging image = .ok s' ∧ hs.state = s'.initHeap
  free : hs.statics memLock = unlocked
  clear : ClearBehind hs.statics memLock
  ledger : l = fun _ => none

section

variable {g : SlabStatics} {memLock : Addr} {b : Bounds} {image : KernelImage} {s s1 : State}
  {n r : Nat} {I : Finset U32int} {t : TableMap} {a : Space} {hs : HeapState} {l : Ledger}

/-- Where `init_heap` puts the heap. -/
structure HeapPut (b : Bounds) (s : State) : Prop where
  layout : Layout s
  behind : s.pageTablesRelVirtAddr.toNat + 0x400000 = b.start
  start : s.initHeap.heapStartRelVirtAddr.toNat = b.start
  limit : b.start + s.initHeap.heapSize.toNat = b.limit
  half : 2 * s.initHeap.heapSize.toNat + b.start ≤ s.segmentsInfo.dataSegment.len.toNat
  whole : s.initHeap.heapSize.toNat % 4096 = 0
  aligned : b.start % 4096 = 0

/-- The globals of the heap do not depend on what the mappings wrote. -/
theorem initHeap_startState (m : Memory) :
    ((startState s n).withData m).initHeap.heapStartRelVirtAddr =
      (bootState s n).initHeap.heapStartRelVirtAddr ∧
      ((startState s n).withData m).initHeap.heapSize = (bootState s n).initHeap.heapSize :=
        ⟨rfl, rfl⟩

theorem Allots.put (h : Allots g b image s n I r)
    (hmapped : BootMapped (startState s n) I r (bootFlags image (bootState s n)) s1 t a) :
    HeapPut b s1 := by
  obtain ⟨hinfo, -, -, htables⟩ := startState_globals s n s1.data
  obtain ⟨hheap, hsize⟩ := initHeap_startState (s := s) (n := n) s1.data
  rw [← hmapped.only_data] at hinfo htables hheap hsize
  have hlayout := hmapped.ready.holds.tables.toLayout
  have hreach : s1.pageTablesRelVirtAddr.toNat + 0x400000 ≤
      s1.segmentsInfo.dataSegment.len.toNat := by
    have hwin := h.window_reachable
    have hpos := b.start_pos
    have hstart := h.start
    have hbehind := h.behind
    have hlimit := (bootState s n).segmentsInfo.dataSegment.limit.isLt
    rw [WindowReachable, ← htables] at hwin
    change ((bootState s n).pageTablesRelVirtAddr + tableSpan).toNat = b.start at hstart
    rw [← htables, BitVec.toNat_add, show tableSpan.toNat = 0x400000 from rfl] at hstart
    rw [hinfo]
    omega
  obtain ⟨hstart, hhalf, hwhole⟩ := initHeap_toNat hreach
  have hb : s1.initHeap.heapStartRelVirtAddr.toNat = b.start := by rw [hheap, h.start]
  refine ⟨hlayout, by omega, hb, by rw [hsize, h.limit], hb ▸ hhalf, hwhole, ?_⟩
  have hwin := hlayout.window_start
  have hbase := hlayout.base_aligned
  omega

/-- All of the heap comes under the directory entry behind the one of the window. -/
theorem HeapPut.heapTables_card (h : HeapPut b s)
    (hend : s.dataBase.toNat + 4096 * segmentPages s ≤ 2^32) :
    (heapTables s.initHeap).card ≤ 1 := by
  obtain ⟨hlayout, hbehind, hstart, hlimit, hhalf, hwhole, haligned⟩ := h
  have hwin := hlayout.window_start
  have hbase4 := hlayout.base_aligned
  have hdata : s.initHeap.dataBase = s.dataBase := by
    rw [State.dataBase, PageCalls.initHeap_info, State.dataBase]
  have hspan : s.initHeap.heapSize.toNat ≤ 0x400000 := by
    have hsize : s.initHeap.heapSize =
        if (s.segmentsInfo.dataSegment.len - s.initHeap.heapStartRelVirtAddr) / 2 &&&
        0xFFFFF000 > tableSpan then tableSpan
      else (s.segmentsInfo.dataSegment.len - s.initHeap.heapStartRelVirtAddr) / 2 &&& 0xFFFFF000 :=
        rfl
    have htable : tableSpan.toNat = 0x400000 := rfl
    rw [hsize]
    split_ifs with hlarge
    · omega
    · rw [gt_iff_lt, BitVec.lt_def] at hlarge
      omega
  refine Finset.card_le_one_iff_subset_singleton.mpr ⟨windowIndexOf s + 1, fun i hi => ?_⟩
  obtain ⟨k, hk, rfl⟩ := Finset.mem_image.mp hi
  have hk' : k < s.initHeap.heapSize.toNat / 4096 := Finset.mem_range.mp hk
  have hidx := tableIndex_lt (s.pageTablesRelVirtAddr + s.dataBase)
  change (windowIndexOf s).toNat < 1024 at hidx
  have hfit : s.dataBase.toNat + b.start + s.initHeap.heapSize.toNat ≤ 2^32 := by
    rw [segmentPages] at hend
    omega
  have hbase : (heapBase s.initHeap).toNat = s.dataBase.toNat + b.start := by
    rw [heapBase, BitVec.toNat_add, hdata]
    omega
  rw [Finset.mem_singleton]
  apply BitVec.eq_of_toNat_eq
  rw [tableIndex_toNat, PageRuns.linAt, BitVec.toNat_add, BitVec.toNat_ofNat, BitVec.toNat_add,
    show (1 : U32int).toNat = 1 from rfl]
  omega

/-- ... of which no page is mapped yet. -/
theorem unused_view (h : Ready s1 t a) (ha : Apart s1) (hon : s1.pagingEnabled = true) :
    View s1.initHeap t a (pagesFrom (heapBase s1.initHeap) (usedPages s1.initHeap)) fun _ => 0 := by
  obtain ⟨start, size, hset, -⟩ := PageCalls.initHeap_sets s1
  have hused : usedPages s1.initHeap = 0 := by
    rw [hset]
    change (start.toNat - start.toNat) / 4096 = 0
    rw [Nat.sub_self]
  rw [hused, pagesFrom_zero, hset]
  exact View.setHeap _ _ _ ⟨h, ha, hon, fun _ hin => hin.elim, fun _ hin => hin.elim,
    fun _ hin => hin.elim, fun _ hin => hin.elim⟩

/-- `init_heap` takes no pages and writes no data. -/
theorem initHeap_frame (s : State) : dataFree s.initHeap = dataFree s ∧ s.initHeap.data = s.data ∧
    s.initHeap.memoryBitmap = s.memoryBitmap ∧
    s.initHeap.pageTablesRelVirtAddr = s.pageTablesRelVirtAddr := by
  obtain ⟨start, size, hset, -⟩ := PageCalls.initHeap_sets s
  rw [hset]
  exact ⟨rfl, rfl, rfl, rfl⟩

theorem Allots.window (h : Allots g b image s n I r)
    (hmapped : BootMapped (startState s n) I r (bootFlags image (bootState s n)) s1 t a) :
    HeapWindow b s1.initHeap := by
  obtain ⟨-, hbitmap, -, -⟩ := startState_globals s n s1.data
  rw [← hmapped.only_data] at hbitmap
  obtain ⟨-, -, hbitmap', htables'⟩ := initHeap_frame s1
  have hput := h.put hmapped
  have hhalf := hput.half
  have hlimit := hput.limit
  have hlen := s1.segmentsInfo.dataSegment.len.isLt
  refine ⟨hput.start, by rw [hput.start, hlimit], by omega, hput.aligned, hput.whole, ?_, ?_, ?_⟩
  · rw [hbitmap', hbitmap]
    exact h.statics_end
  · rw [htables']
    exact hput.behind.le
  · rw [PageCalls.initHeap_info, Segment.limit_toNat]
    omega

theorem Allots.heapTables_le (h : Allots g b image s n I r)
    (hmapped : BootMapped (startState s n) I r (bootFlags image (bootState s n)) s1 t a) :
    (heapTables s1.initHeap).card ≤ 1 := by
  obtain ⟨hinfo, -, -, -⟩ := startState_globals s n s1.data
  rw [← hmapped.only_data] at hinfo
  exact (h.put hmapped).heapTables_card (h.apart.congr hinfo).data_end

theorem Allots.carries (h : Allots g b image s n I r)
    (hmapped : BootMapped (startState s n) I r (bootFlags image (bootState s n)) s1 t a)
    (hon : s1.pagingEnabled = true)
    (hlow : ∀ q : U32int, q.toNat < s.memoryBitmap.codeBitmap.toNat → s1.data q = s.data q) :
    Carries b s1.initHeap ⟨fun x => read32 s.data x, s1.initHeap.heapBrk, 0⟩ := by
  obtain ⟨hinfo, -, -, -⟩ := startState_globals s n s1.data
  rw [← hmapped.only_data] at hinfo
  obtain ⟨hfree, hdata, -, -⟩ := initHeap_frame s1
  have hput := h.put hmapped
  have hstart : s1.initHeap.heapBrk.toNat = b.start := hput.start
  refine ⟨t, a, fun _ => 0, h.window hmapped, unused_view hmapped.ready (h.apart.congr hinfo) hon,
    rfl, ?_, hstart.ge, ?_, ?_, fun p hp4 hp => ?_, fun p hp4 hlow hhigh => ?_⟩
  · rw [hstart]
    exact hput.aligned
  · rw [hstart]
    exact b.start_le
  · have hcard := h.heapTables_le hmapped
    have hsupply := hmapped.supply
    have htable := h.table
    have hneed : need (heapTables s1.initHeap) a ≤ (heapTables s1.initHeap).card :=
      Finset.card_le_card Finset.sdiff_subset
    rw [hfree]
    change _ + 0 ≤ _
    omega
  · have hend := h.statics_end
    rw [hdata]
    exact read32_congr fun k hk => hlow _ (by bv_omega)
  · change p.toNat + 4 ≤ s1.initHeap.heapBrk.toNat at hhigh
    omega

/-- What has booted serves. -/
theorem Allots.serving (h : Allots g b image s n I r) (hb : Booted g memLock image s hs l) :
    ∃ words, Serving g memLock b hs words noChunks ∧ hs.state.heapBrk = words.brk := by
  obtain ⟨s', hinit, hstate⟩ := hb.boot
  obtain ⟨s1, t, a, hcall, hon, hmapped, hlow⟩ := Bootable.initPaging_low h.toBootable
  cases hcall.symm.trans hinit
  have hcarries := h.carries hmapped hon hlow
  rw [← hstate] at hcarries
  obtain ⟨t', a', L, hw⟩ := id hcarries
  exact ⟨_, ⟨hcarries, noChunks_consistent h.placed hw.brk_aligned hw.brk_above h.zero,
    hb.free, hb.clear⟩, hw.brk⟩

/-- Nothing is used of the heap, and there is a page for its table and all that booting
leaves over. -/
theorem Allots.resources (h : Allots g b image s n I r) (hb : Booted g memLock image s hs l) :
    hs.state.heapBrk.toNat = b.start ∧
    missingTables hs.state + r ≤ (dataFree hs.state).length + 1 := by
  obtain ⟨s', hinit, hstate⟩ := hb.boot
  obtain ⟨s1, t, a, hcall, -, hmapped, -⟩ := Bootable.initPaging_low h.toBootable
  obtain rfl : s1 = s' := Except.ok.inj (hcall.symm.trans hinit)
  have hcard : missingTables s1.initHeap ≤ 1 :=
    (Finset.card_filter_le _ _).trans (h.heapTables_le hmapped)
  have hsupply := hmapped.supply
  have hbrk : s1.initHeap.heapBrk.toNat = b.start := (h.put hmapped).start
  rw [hstate]
  refine ⟨hbrk, ?_⟩
  rw [(initHeap_frame s1).1]
  omega

/-- A request a fresh heap has room for. -/
theorem Allots.hasRoom (h : Allots g b image s n I r) (hb : Booted g memLock image s hs l)
    {size : U32int} (hg : growth size ≠ 0) (hwindow : b.start + (growth size).toNat < b.limit)
    (hpages : (growth size).toNat / 4096 + 1 ≤ r) : HasRoom hs.state size := by
  obtain ⟨hbrk, hfree⟩ := h.resources hb
  obtain ⟨words, hv, -⟩ := h.serving hb
  obtain ⟨t, a, L, hw⟩ := hv.carries
  exact ⟨hg, by rw [hw.window.limit, hbrk]; exact hwindow, by omega⟩

end

/-- Two pages of static data, the variables in the second. -/
def bootStatics : SlabStatics := ⟨0x1000, 0x1040, 0x1080, 0x1084, 0x1088, 0x108C, 0x1090⟩

def bootBounds : Bounds := ⟨0x2000, 0x800000, 0xC00000, by decide, by decide, by decide, by decide⟩

/-- The end of the static data is the lock's. -/
def bootLock : Addr := 0x1FF0

theorem bootStatics_placed : Placed bootStatics bootBounds where
  aligned := by simp [bootStatics]
  bins_end := by decide
  index_end := by decide
  word_end := by simp [bootStatics, bootBounds]
  index_bins := fun x hx hb => by
    have hlow : (0x1040 : U32int).toNat ≤ x.toNat := hx.1
    have hhigh : x.toNat < (0x1000 : U32int).toNat + 40 := hb.2
    exact absurd (hlow.trans_lt hhigh) (by decide)
  newest_bins := by decide
  newest_index := by decide
  rand_bins := fun x hx => by rcases hx with rfl | rfl | rfl | rfl <;> decide
  rand_index := fun x hx => by rcases hx with rfl | rfl | rfl | rfl <;> decide
  rand_newest := fun x hx => by rcases hx with rfl | rfl | rfl | rfl <;> decide

/-- The static data are zero up to the bitmaps. -/
theorem bootMachine_zero {x : U32int} (hx : x.toNat + 4 ≤ 0x2000) :
    read32 (bootMachine 0).data x = 0 := by
  have hzero : read32 (bootMachine 0).data x = read32 (fun _ => 0) x := by
    refine read32_congr fun k hk => ?_
    have haddr : (x + k + 0x400000).toNat = x.toNat + k.toNat + 0x400000 := by bv_omega
    have hne : ∀ c : U32int, 0x402000 ≤ c.toNat → x + k + 0x400000 ≠ c := fun c hc he => by
      rw [he] at haddr
      omega
    have hbehind : bootHeader (x + k + 0x400000) = 0 := bootHeader_behind (by bv_omega)
    change (bootMachine 0).memory (x + k + 0x400000) = 0
    simp only [bootMachine, hne 0x402000 (by decide), hne 0x403000 (by decide),
      hne 0x4031FF (by decide), hne 0x1405FFF (by decide), if_false, hbehind]
  rw [hzero]
  simp [read32]

theorem bootMachine_initHeap : (bootState (bootMachine 0) 6).initHeap =
    setHeap (bootState (bootMachine 0) 6) 0x800000 0x400000 0x800000 := by
  refine HeapGrowth.initHeap_eq ?_ ?_
  · rw [bootMachine_pageTables]
    decide
  · change (if ((0x1000000 : U32int) - 0x800000) / 2 &&& 0xFFFFF000 > tableSpan then tableSpan
      else ((0x1000000 : U32int) - 0x800000) / 2 &&& 0xFFFFF000) = 0x400000
    decide

theorem bootMachine_allots {r : Nat} (hlow : 1 ≤ r) (hr : r ≤ 4000) :
    Allots bootStatics bootBounds linkedImage (bootMachine 0) 6 bootSpans r where
  toBootable := bootMachine_bootable 0 hr
  apart := bootMachine_apart 0
  table := hlow
  placed := bootStatics_placed
  statics_end := by decide
  zero := fun x hx _ => bootMachine_zero (by
    rcases hx with hb | hi | rfl
    · have hhigh : x.toNat < (0x1000 : U32int).toNat + 40 := hb.2
      exact (Nat.add_le_add_right hhigh.le 4).trans (by decide)
    · have hhigh : x.toNat < (0x1040 : U32int).toNat + 52 := hi.2
      exact (Nat.add_le_add_right hhigh.le 4).trans (by decide)
    · decide)
  start := by
    rw [bootMachine_initHeap]
    rfl
  limit := by
    rw [bootMachine_initHeap]
    rfl
  behind := by decide

/-- It boots, and there are pages for its heap. -/
theorem bootMachine_booted {r : Nat} (hlow : 1 ≤ r) (hr : r ≤ 4000) : ∃ hs,
    Booted bootStatics bootLock linkedImage (bootMachine 0) hs (fun _ => none) ∧
      ∀ size, growth size ≠ 0 → (growth size).toNat / 4096 + 1 ≤ r →
        (growth size).toNat < 0x400000 → HasRoom hs.state size := by
  obtain ⟨s, t, a, hinit, -, -⟩ := (bootMachine_bootable 0 hr).initPaging
  have hb : Booted bootStatics bootLock linkedImage (bootMachine 0)
      ⟨fun _ => 0, s.initHeap⟩ (fun _ => none) :=
    ⟨⟨s, hinit, rfl⟩, rfl, ⟨rfl, rfl, rfl⟩, rfl⟩
  exact ⟨_, hb, fun size hg hpages hlt => (bootMachine_allots hlow hr).hasRoom hb hg
    (by change 0x800000 + _ < 0xC00000; omega) hpages⟩

section

variable {g : SlabStatics} {memLock : Addr} {b : Bounds} {image : KernelImage} {s : State}
  {n r : Nat} {I : Finset U32int} {hs : HeapState} {l : Ledger}

/-- The clients of a booted kernel. -/
theorem Allots.simulation (h : Allots g b image s n I r) :
    OpenSimulation (clients g memLock) (Booted g memLock image s) (Represents g memLock b) where
  start := fun hs l hb => by
    obtain ⟨words, hv, -⟩ := h.serving hb
    rw [hb.ledger]
    exact ⟨words, noChunks, hv, fun _ _ hq => (nomatch hq), fun _ _ hl => absurd hl noChunks_live,
      fun _ _ hq => (nomatch hq)⟩
  step := fun i hs l hr hp => by
    cases i with
    | malloc size => exact malloc_answered hr hp
    | calloc nmemb size => exact calloc_answered hr hp
    | realloc ptr size => exact realloc_answered hr hp
    | free ptr => exact free_answered hr hp
    | store x v => exact store_answered hr hp

/-- In every run from boot on what is held lies inside the heap, nothing that is held
overlaps, what is known is read back, the lock is free and the next permitted request is
answered. -/
theorem heap_runs (h : Allots g b image s n I r)
    (hr : OpenRun (clients g memLock) (Booted g memLock image s) hs l) :
    (∀ p c, l p = some c → hs.state.heapStartRelVirtAddr.toNat ≤ p.toNat ∧
    p.toNat + c.length ≤ hs.state.heapBrk.toNat) ∧
    (∀ p c q d, l p = some c → l q = some d → p ≠ q →
    p.toNat + c.length ≤ q.toNat ∨ q.toNat + d.length ≤ p.toNat) ∧
    (∀ p c (k : Nat) v, l p = some c → (c)[k]? = some (some v) →
    hs.state.load8 (p + BitVec.ofNat 32 k) = .ok v) ∧ hs.statics memLock = unlocked ∧
    ∀ i, Request.permitted g i hs l → ∃ w hs',
    i.call (slabCore g) memLock hs = .ok (w, hs') ∧ i.admits l w ∧
      OpenRun (clients g memLock) (Booted g memLock image s) hs' (i.next l w) := by
  obtain ⟨words, A, hv, hb⟩ := h.simulation.run hr
  have hA := Consistent.arena hv.consistent
  obtain ⟨t, a, L, hw⟩ := id hv.carries
  refine ⟨fun p c hp => ?_, fun p c q d hp hq hne => ?_,
    fun p c k v hp hk => ?_, hv.free, fun i hi => ?_⟩
  · obtain ⟨bytes, hl, hle⟩ := hb.held p c hp
    obtain ⟨-, -, hlow, hend, -, -⟩ := hl.bounds hA
    rw [hw.window.start, hw.brk]
    omega
  · obtain ⟨bytes, hl, hle⟩ := hb.held p c hp
    obtain ⟨bytes', hl', hle'⟩ := hb.held q d hq
    rcases hl.eq_or_apart hA hl' with ⟨he, -⟩ | hap
    · exact absurd he hne
    · omega
  · obtain ⟨bytes, hl, hle⟩ := hb.held p c hp
    obtain ⟨-, -, hlow, hend, -, -⟩ := hl.bounds hA
    have hlt := words.brk.isLt
    have hkc : k < c.length := (List.getElem?_eq_some_iff.mp hk).1
    have hsum : (p + BitVec.ofNat 32 k).toNat = p.toNat + k := by
      rw [BitVec.toNat_add, BitVec.toNat_ofNat, Nat.mod_eq_of_lt (by omega : k < 2^32),
        Nat.mod_eq_of_lt (by omega)]
    rw [Carries.load8 hv.carries (by omega) (by omega), hb.known p c hp k v hk]
  · obtain ⟨w, hs', hcall, hadmits, -⟩ := h.simulation.step i hs l (h.simulation.run hr) hi
    exact ⟨w, hs', hcall, hadmits, hr.call hi hcall⟩

end

/-- A byte is written to what a booted machine hands out, and read back. -/
theorem heap_runs_machine : ∃ hs l p, OpenRun (clients bootStatics bootLock)
    (Booted bootStatics bootLock linkedImage (bootMachine 0)) hs l ∧ (l p).isSome ∧
      hs.state.load8 (p + BitVec.ofNat 32 7) = .ok 42 := by
  obtain ⟨hs, hb, hroom⟩ := bootMachine_booted (r := 2) (by decide) (by decide)
  have h := bootMachine_allots (r := 2) (by decide) (by decide)
  have hpermitted : Request.permitted bootStatics (.malloc 100) hs (fun _ => none) :=
    .inr ⟨by decide, .inr (hroom 100 (by decide) (by decide) (by decide))⟩
  obtain ⟨-, -, -, -, hnext⟩ := heap_runs h (.start hb)
  obtain ⟨p, hs1, -, -, hrun⟩ := hnext _ hpermitted
  obtain ⟨-, -, -, -, hnext⟩ := heap_runs h hrun
  have hl : Request.next (.malloc 100) (fun _ => none) p p = some (List.replicate 100 none) := by
    rw [Request.next, if_neg (by decide), Function.update_self]
    rfl
  generalize Request.next (.malloc 100) (fun _ => none) p = l1 at hl hrun hnext
  have hin : (p + BitVec.ofNat 32 7 - p).toNat = 7 := by rw [add_sub_cancel_left]; rfl
  obtain ⟨w, hs2, -, -, hrun⟩ := hnext (.store (p + BitVec.ofNat 32 7) 42)
    ⟨p, _, hl, by rw [hin, List.length_replicate]; decide⟩
  obtain ⟨-, -, hknown, -, -⟩ := heap_runs h hrun
  have hl2 : Request.next (.store (p + BitVec.ofNat 32 7) 42) l1 w p =
      some ((List.replicate 100 none).set 7 (some 42)) := by
    rw [Request.next]
    dsimp only
    rw [hl, hin]
    rfl
  exact ⟨hs2, _, p, hrun, by rw [hl2]; rfl, hknown p _ 7 42 hl2 rfl⟩

end SimpleOs.Audit.HeapBoot
