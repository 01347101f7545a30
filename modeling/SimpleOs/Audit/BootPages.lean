import SimpleOs.Audit.FullBitmap
import SimpleOs.Kernel.Loader

/-!
# The first five pages

At boot the GDT, the IDT, the two pages of the directory and the table of page tables are
taken from the data segment, one right behind the other. Allocation is first fit over a
bitmap whose used pages are a prefix, so that the two pages of the directory are adjacent.
-/

namespace SimpleOs.Audit.BootPages

open SimpleOs.Kernel SimpleOs.Lib SimpleOs.Lib.ByteMemory
open SimpleOs.Kernel.State (markUsed markFree)
open SimpleOs.Lib.PackedBits (bit byteAt)
open SimpleOs.Audit.KernelAccess SimpleOs.Audit.PageTables SimpleOs.Audit.PagingBoot
open SimpleOs.Audit.PageBitmap SimpleOs.Audit.BitmapBoot SimpleOs.Audit.FullBitmap

/-- Kernel data with the pages `n` and `n+1` taken for the GDT and the IDT. -/
def descriptorMemory (s : State) (n : Nat) : Memory :=
  let bm := s.memoryBitmap.dataBitmap
  fill (markUsed (fill (markUsed s.data bm n) (pageAt n) 160 0) bm (n + 1)) (pageAt (n + 1)) 2048 0

section

variable {s : State} {n l : Nat}

theorem descriptorMemory_next (h : BootReady s n)
    (hnext : NextFree s.data s.memoryBitmap.dataBitmap n l)
    (hl : n + 2 ≤ l) (hpages : l ≤ segmentPages s) :
    NextFree (descriptorMemory s n) s.memoryBitmap.dataBitmap (n + 2) l := by
  have hend := h.bitmap_end
  have hlen := segmentPages_le s
  have hgdt : (pageAt n).toNat = 4096 * n := pageAt_toNat (s := s) (by omega)
  have hidt : (pageAt (n + 1)).toNat = 4096 * (n + 1) := pageAt_toNat (s := s) (by omega)
  have h1 := (hnext.mark (by omega) (by omega)).fill (a := pageAt n) (c := 160) (by omega)
    (by omega) (by omega)
  exact (h1.mark (by omega) (by omega)).fill (by omega) (by omega) (by omega)

/-- What lies below the bitmap is left alone, ... -/
theorem descriptorMemory_below (h : BootReady s n) {y : U32int}
    (hy : y.toNat < s.memoryBitmap.dataBitmap.toNat) : descriptorMemory s n y = s.data y := by
  have hroom := h.room
  have hend := h.bitmap_end
  have hlen := segmentPages_le s
  have hgdt : (pageAt n).toNat = 4096 * n := pageAt_toNat (s := s) (by omega)
  have hidt : (pageAt (n + 1)).toNat = 4096 * (n + 1) := pageAt_toNat (s := s) (by omega)
  have hbyte : ∀ k < segmentPages s, y ≠ byteAt s.memoryBitmap.dataBitmap k := by
    rintro k hk rfl
    rw [byteAt] at hy
    bv_omega
  rw [descriptorMemory, fill_of_le _ _ (by bv_omega), markUsed,
    write8_of_ne _ _ (hbyte _ (by omega)),
    fill_of_le _ _ (by bv_omega), markUsed, write8_of_ne _ _ (hbyte _ (by omega))]

/-- ... and a page that is used stays so. -/
theorem descriptorMemory_used (h : BootReady s n) {i : Nat} (hi : i < segmentPages s)
    (hused : bit s.data s.memoryBitmap.dataBitmap i = true) :
    bit (descriptorMemory s n) s.memoryBitmap.dataBitmap i = true := by
  have hroom := h.room
  have hend := h.bitmap_end
  have hlen := segmentPages_le s
  have hfar : ∀ j c, n ≤ j → j < n + 2 → c ≤ 2048 →
      c ≤ (byteAt s.memoryBitmap.dataBitmap i - pageAt j).toNat := by
    intro j c hj hlt hc
    have hpage : (pageAt j).toNat = 4096 * j := pageAt_toNat (s := s) (by omega)
    rw [byteAt]
    bv_omega
  rw [descriptorMemory, bit_fill_far _ (hfar _ _ (by omega) (by omega) (by omega)),
    bit_markUsed _ _ (by omega) (by omega),
      bit_fill_far _ (hfar _ _ (by omega) (by omega) (by omega)),
    bit_markUsed _ _ (by omega) (by omega), hused, Bool.or_true, Bool.or_true]

/-- GDT and IDT get the next two pages. -/
theorem initDescriptorTables_eq (h : BootReady s n) : ∃ s1 s2 s3,
    s.allocDataPage = .ok (pageAt n, s1) ∧ s1.memset (pageAt n) 0x0 160 = .ok s2 ∧
    s2.allocDataPage = .ok (pageAt (n + 1), s3) ∧
    s3.memset (pageAt (n + 1)) 0x0 2048 = .ok (s.withData (descriptorMemory s n)) ∧
    s.initDescriptorTables = .ok (s.withData (descriptorMemory s n)) := by
  have hroom := h.room
  have hend := h.bitmap_end
  have hlen := segmentPages_le s
  have hgdt : (pageAt n).toNat = 4096 * n := pageAt_toNat (s := s) (by omega)
  have hidt : (pageAt (n + 1)).toNat = 4096 * (n + 1) := pageAt_toNat (s := s) (by omega)
  have hnext1 := (h.next.mark (by omega) (by omega)).fill (a := pageAt n) (c := 160) (by omega)
    (by omega) (by omega)
  have ha1 := bootWith_alloc h s.kernelPageDirectory s.pageTablesRelVirtAddr
    (by omega) (by omega) h.next
  rw [bootWith_self] at ha1
  have hm2 := bootWith_memset h s.kernelPageDirectory s.pageTablesRelVirtAddr (a := pageAt n)
    (l := 160) (m := markUsed s.data s.memoryBitmap.dataBitmap n) (by omega)
  have ha3 := bootWith_alloc h s.kernelPageDirectory s.pageTablesRelVirtAddr
    (by omega) (by omega) hnext1
  have hm4 := bootWith_memset h s.kernelPageDirectory s.pageTablesRelVirtAddr (a := pageAt (n + 1))
    (l := 2048) (m := markUsed (fill (markUsed s.data s.memoryBitmap.dataBitmap n) (pageAt n) 160 0)
      s.memoryBitmap.dataBitmap (n + 1)) (by omega)
  refine ⟨_, _, _, ha1, hm2, ha3, hm4, ?_⟩
  refine (bind_of_ok ha1 _).trans ?_
  refine (bind_of_ok hm2 _).trans ?_
  refine (bind_of_ok ha3 _).trans ?_
  exact hm4

end

section

variable {image : KernelImage} {s : State}

/-- Number of the first page behind the bitmaps. -/
def firstFree (s : State) : Nat := (bitmapTop s).toNat / 4096

/-- Correct marks leave the pages between the bitmaps and the stack-top page free. -/
theorem marked_next (h : BitmapsFit image s) (hm : PagesMarked image s (bitmapState image s))
    {l : Nat} (hl : l + 1 ≤ pageCount s .data) :
    NextFree (bitmapState image s).data
    (bitmapState image s).memoryBitmap.dataBitmap (firstFree s) l := by
  have hbit : ∀ i < pageCount s .data, bit (bitmapState image s).data (dataBitmapAt s) i =
      decide (i < firstFree s ∨ i = pageCount s .data - 1) := fun i hi => by
    rw [bitmapState, withBitmaps_data]
    exact Except.ok.inj ((h.testBit_data hi).symm.trans (hm.data i hi))
  have hroom := h.room
  have htop := h.bitmapTop_toNat
  refine ⟨fun i hi => ?_, fun i hi hil => ?_⟩
  · refine (hbit i ?_).trans (decide_eq_true (Or.inl hi))
    rw [firstFree] at hi
    omega
  · exact (hbit i (by omega)).trans (decide_eq_false (by omega))

/-- Whatever memory held, the first page of the bitmap is right. -/
theorem low_next (h : BitmapsFit image s) {l : Nat}
    (hl : l + 1 ≤ pageCount s .data) (hlow : l ≤ 32768) :
    NextFree (bitmapState image s).data
    (bitmapState image s).memoryBitmap.dataBitmap (firstFree s) l := by
  have hroom := h.room
  have htop := h.bitmapTop_toNat
  rw [bitmapState, withBitmaps_data]
  change NextFree (bitmapMemory image s) (dataBitmapAt s) (firstFree s) l
  refine ⟨fun i hi => ?_, fun i hi hil => ?_⟩
  · rw [firstFree] at hi
    rw [h.data_bit (by omega), decide_eq_true hi, Bool.true_or, Bool.or_true]
  · rw [firstFree] at hi
    rw [h.data_bit (by omega), decide_eq_false (by omega), decide_eq_false (by omega),
      decide_eq_false (by omega)]
    rfl

theorem bitmapState_ready (h : BitmapsFit image s)
    (hnext : NextFree (bitmapState image s).data
    (bitmapState image s).memoryBitmap.dataBitmap (firstFree s)
      (firstFree s + 3))
    (hroom : firstFree s + 3 ≤ pageCount s .data) :
    BootReady (bitmapState image s) (firstFree s) := by
  have hplaced : Placed (bitmapState image s) (codeBitmapAt s + s.dataBase) :=
    placed_of_disabled h h.disabled rfl rfl rfl
  have hdata := h.placed.data_room
  have haligned := h.placed.top_aligned
  refine ⟨h.disabled, rfl, hplaced.bitmapSize h.code_pos .data, ?_, hnext, hroom⟩
  change (dataBitmapAt s).toNat + (pageCount s .data + 7) / 8 ≤ 4096 * firstFree s
  have hdata' : (dataBitmapAt s).toNat + (pageCount s .data + 7) / 8 ≤ (bitmapTop s).toNat := hdata
  have haligned' : (bitmapTop s).toNat % 4096 = 0 := haligned
  rw [firstFree]
  omega

theorem descriptors_ready (h : BitmapsFit image s)
    (hnext : NextFree (bitmapState image s).data
    (bitmapState image s).memoryBitmap.dataBitmap (firstFree s)
      (firstFree s + 5))
    (hroom : firstFree s + 5 ≤ pageCount s .data) :
    BootReady ((bitmapState image s).withData
    (descriptorMemory (bitmapState image s) (firstFree s)))
      (firstFree s + 2) := by
  have hready := bitmapState_ready h ⟨hnext.1, fun i hi hil => hnext.2 i hi (by omega)⟩ (by omega)
  have hlater := descriptorMemory_next hready hnext (by omega) hroom
  have hend := hready.bitmap_end
  refine ⟨h.disabled, rfl, hready.size, ?_, ?_, hroom⟩
  · change (dataBitmapAt s).toNat + (pageCount s .data + 7) / 8 ≤ 4096 * (firstFree s + 2)
    have hend' : (dataBitmapAt s).toNat + (pageCount s .data + 7) / 8 ≤ 4096 * firstFree s := hend
    omega
  · rw [State.withData_data]
    exact hlater

end

/-- What can happen to the bitmaps after `s0`: allocations, frees of anything but the data
pages `kept`, and whatever leaves the bitmaps and their place alone. -/
inductive Later (a : U32int) (kept : Finset Nat) (s0 : State) : State → Prop
  | start : Later a kept s0 s0
  | alloc {k : Kind} {p : U32int} {s s' : State} : Later a kept s0 s → allocOf s k = .ok (p, s') →
      Later a kept s0 s'
  | free {k : Kind} {p : U32int} {b : Bool} {s s' : State} : Later a kept s0 s →
      freeOf s p k = .ok (b, s') → (k = .data → p.toNat / 4096 ∉ kept) → Later a kept s0 s'
  | other {s s' : State} : Later a kept s0 s → Placed s' a → s'.memoryBitmap = s.memoryBitmap →
      s'.segmentsInfo = s.segmentsInfo →
      (∀ k, ∀ i < pageCount s k, bit s'.memory (bitmapAddr s a k) i =
        bit s.memory (bitmapAddr s a k) i) →
      Later a kept s0 s'

/-- The bitmaps are in place and the pages `kept` are used. -/
structure Keeps (a : U32int) (kept : Finset Nat) (s : State) : Prop where
  placed : Placed s a
  code_pos : 0 < pageCount s .code
  in_segment : ∀ i ∈ kept, i < pageCount s .data
  used : ∀ i ∈ kept, bit s.memory (bitmapAddr s a .data) i = true

section

variable {a : U32int} {kept : Finset Nat} {s0 s s' : State} {p : U32int}

/-- A free returns without effect or clears the bit of its page. -/
theorem freePage_cases {bitmap : U32int} {b : Bool} (hi : s.memoryBitmapInitialized = true)
    {size : U32int} (hsize : s.bitmapSize bitmap = size) (hmax : size.toNat ≤ 2^20)
    (hp : s.PlainAt bitmap a ((size.toNat + 7) / 8)) (h : s.freePage p bitmap = .ok (b, s')) :
    s' = s ∨ p.toNat / 4096 < size.toNat ∧
    s' = s.withMemory (markFree s.memory a (p.toNat / 4096)) := by
  have haligned : p % pageSize = 0 := by
    obtain ⟨u, hu, -⟩ := bind_ok h
    exact beq_iff_eq.mp (assert_ok hu)
  have hdiv : (p / pageSize).toNat = p.toNat / 4096 := BitVec.toNat_udiv
  by_cases hin : p.toNat / 4096 < size.toNat
  · have hself : p = BitVec.ofNat 32 (p.toNat / 4096 * 4096) := by
      have hmod := congrArg BitVec.toNat haligned
      rw [BitVec.toNat_umod] at hmod
      apply BitVec.eq_of_toNat_eq
      rw [BitVec.toNat_ofNat]
      change p.toNat % 4096 = 0 at hmod
      omega
    have hfree := State.freePage_of_held hi hsize hmax hp hin
    rw [← hself, h] at hfree
    cases hfree
    exact .inr ⟨hin, rfl⟩
  · have hnot : ¬ p / pageSize < s.bitmapSize bitmap := by
      rw [hsize, BitVec.lt_def, hdiv]
      exact hin
    simp only [State.freePage, haligned, beq_self_eq_true, assert, if_true, ok_bind, hi, hnot,
      if_false, pure_ok] at h
    cases h
    exact .inl rfl

theorem Keeps.size (h : Keeps a kept s) (k : Kind) :
    (s.bitmapSize (bitmapOf s k)).toNat = pageCount s k := h.placed.bitmapSize h.code_pos k

theorem Keeps.plain (h : Keeps a kept s) (k : Kind) : s.PlainAt (bitmapOf s k) (bitmapAddr s a k)
    (((s.bitmapSize (bitmapOf s k)).toNat + 7) / 8) := by
  rw [h.size k]
  exact h.placed.bitmap_plain k

/-- A used page is not handed out. -/
theorem Keeps.alloc_not_kept (h : Keeps a kept s) (hrun : allocOf s .data = .ok (p, s'))
    (hzero : 0 ∉ kept) : p.toNat / 4096 ∉ kept := by
  have hsize := h.size .data
  have hle := pageCount_le s .data
  rcases State.allocPage_cases rfl (by omega) (h.plain .data)
      ((allocOf_eq s .data).symm.trans hrun) with
    ⟨rfl, -⟩ | ⟨i, hi, rfl, hclear, -, -⟩
  · exact hzero
  · rw [page_toNat (by omega), Nat.mul_div_cancel _ (by decide)]
    intro hkept
    rw [h.used i hkept] at hclear
    cases hclear

theorem Keeps.alloc (h : Keeps a kept s) {k : Kind} (hrun : allocOf s k = .ok (p, s')) :
    Keeps a kept s' := by
  have hsize := h.size k
  have hle := pageCount_le s k
  rcases State.allocPage_cases rfl (by omega) (h.plain k) ((allocOf_eq s k).symm.trans hrun) with
    ⟨-, rfl⟩ | ⟨i, hi, -, -, -, rfl⟩
  · exact h
  · refine ⟨h.placed.write (hsize ▸ hi) _, h.code_pos, h.in_segment, fun j hj => ?_⟩
    have hused := h.used j hj
    have hj' := h.in_segment j hj
    have hle' := pageCount_le s .data
    change bit (markUsed s.memory (bitmapAddr s a k) i) (bitmapAddr s a .data) j = true
    by_cases hk : Kind.data = k
    · subst hk
      rw [markUsed, PackedBits.bit_set _ _ (by omega) (by omega), hused, Bool.or_true]
    · rw [markUsed, PackedBits.bit_write8_other _ _ (h.placed.byteAt_ne hk hj' (by omega)), hused]

theorem Keeps.free (h : Keeps a kept s) {k : Kind} {b : Bool} (hrun : freeOf s p k = .ok (b, s'))
    (hp : k = .data → p.toNat / 4096 ∉ kept) : Keeps a kept s' := by
  have hsize := h.size k
  have hle := pageCount_le s k
  rcases freePage_cases h.placed.initialized rfl (by omega) (h.plain k)
    ((freeOf_eq s p k).symm.trans hrun) with rfl | ⟨hi, rfl⟩
  · exact h
  · refine ⟨h.placed.write (hsize ▸ hi) _, h.code_pos, h.in_segment, fun j hj => ?_⟩
    have hused := h.used j hj
    have hj' := h.in_segment j hj
    have hle' := pageCount_le s .data
    change bit (markFree s.memory (bitmapAddr s a k) (p.toNat / 4096))
      (bitmapAddr s a .data) j = true
    by_cases hk : Kind.data = k
    · subst hk
      have hne : j ≠ p.toNat / 4096 := fun he => hp rfl (he ▸ hj)
      rw [markFree, PackedBits.bit_clear _ _ (by omega) (by omega), hused, decide_eq_true hne,
        Bool.true_and]
    · rw [markFree, PackedBits.bit_write8_other _ _ (h.placed.byteAt_ne hk hj' (by omega)), hused]

theorem Later.keeps (h0 : Keeps a kept s0) (h : Later a kept s0 s) : Keeps a kept s := by
  induction h with
  | start => exact h0
  | alloc _ hrun ih => exact ih.alloc hrun
  | free _ hrun hp ih => exact ih.free hrun hp
  | @other s s' _ hplaced hbitmaps hsegments hbits ih =>
    have hcount : ∀ k, pageCount s' k = pageCount s k := fun k => by
      cases k <;> simp only [pageCount, hsegments]
    have haddr : bitmapAddr s' a .data = bitmapAddr s a .data := by
      simp only [bitmapAddr, hbitmaps]
    refine ⟨hplaced, by rw [hcount]; exact ih.code_pos, fun i hi => ?_, fun i hi => ?_⟩
    · rw [hcount]
      exact ih.in_segment i hi
    · rw [haddr, hbits .data i (ih.in_segment i hi)]
      exact ih.used i hi

end

theorem bit_write32_above (m : Memory) (v : U32int) {p a : U32int} {i : Nat}
    (h : p.toNat + i / 8 < a.toNat)
    (ha : a.toNat + 4 ≤ 2^32) : bit (write32 m a v) p i = bit m p i := by
  have hfar : 4 ≤ (byteAt p i - a).toNat := by
    rw [byteAt]
    bv_omega
  rw [bit, write32_of_far m v hfar, bit]

section

variable {s : State} {n : Nat}

/-- The pages taken for directory and table are marked, wherever the window is. -/
theorem bootState_used (h : BootReady s n) {i : Nat} (hi : i < n + 3) :
    bit (bootState s n).data s.memoryBitmap.dataBitmap i = true := by
  have hroom := h.room
  have hend := h.bitmap_end
  have hlen := segmentPages_le s
  have hdir : (bootDir n).toNat = 4096 * n := pageAt_toNat (s := s) (by omega)
  have htable : (bootTable n).toNat = 4096 * (n + 2) := pageAt_toNat (s := s) (by omega)
  have hidx : (bootIndex s n).toNat ≤ 1024 := by
    have htop := (bootDir n + directorySize + s.dataBase).isLt
    rw [bootIndex, State.windowIndex_toNat]
    omega
  have h1 := (h.next.mark (by omega) (by omega)).mark (by omega) (by omega)
  have h2 := h1.fill (a := bootDir n) (c := 8192) (by omega) (by omega) (by omega)
  have h3 := (h2.mark (by omega) (by omega)).fill (a := bootTable n) (c := 4096) (by omega)
    (by omega) (by omega)
  have hcell : (bootDir n + 4 * bootIndex s n).toNat = 4096 * n + 4 * (bootIndex s n).toNat := by
    bv_omega
  have hptr : (bootDir n + tableSize + 4 * bootIndex s n).toNat =
      4096 * n + 4096 + 4 * (bootIndex s n).toNat := by
    simp only [tableSize]
    bv_omega
  have hentry : (bootTable n + 4 * bootIndex s n).toNat =
      4096 * (n + 2) + 4 * (bootIndex s n).toNat := by bv_omega
  rw [bootState, bootAt, bootWith_data, bootMemory, bit_write32_above _ _ (by omega) (by omega),
    bit_write32_above _ _ (by omega) (by omega), bit_write32_above _ _ (by omega) (by omega)]
  exact h3.1 i (by omega)

/-- `init_paging_tables` makes its two directory pages of adjacent ones. -/
theorem directory_adjacent (h : BootReady s n) : ∃ s1 s2, s.allocDataPage = .ok (pageAt n, s1) ∧
    State.allocDataPage { s1 with kernelPageDirectory := pageAt n } = .ok (pageAt (n + 1), s2) ∧
    s.initPagingTables = .ok (bootState s n) := by
  have hroom := h.room
  have hlen := segmentPages_le s
  have ha1 := bootWith_alloc h s.kernelPageDirectory s.pageTablesRelVirtAddr
    (by omega) (by omega) h.next
  rw [bootWith_self] at ha1
  have ha2 := bootWith_alloc h (pageAt n) s.pageTablesRelVirtAddr (by omega) (by omega)
    (h.next.mark (by omega) (by omega))
  exact ⟨_, _, ha1, ha2, initPagingTables_eq h⟩

/-- Pages of the directory. -/
def directoryPages (s : State) : Finset Nat :=
  {s.kernelPageDirectory.toNat / 4096, s.kernelPageDirectory.toNat / 4096 + 1}

theorem bootState_directory (h : BootReady s n) : directoryPages (bootState s n) = {n, n + 1} := by
  have hroom := h.room
  have hdir : (bootDir n).toNat = 4096 * n := pageAt_toNat (s := s) (by omega)
  change ({(bootDir n).toNat / 4096, (bootDir n).toNat / 4096 + 1} : Finset Nat) = _
  rw [hdir, Nat.mul_div_cancel_left _ (by decide)]

end

/-- The first five allocations of the boot return the five pages behind the bitmaps, in
order. The third and the fourth are the directory: it is used, lies between the IDT page
and the stack-top page, and is not handed out again unless it is freed. -/
theorem directory_reserved {image : KernelImage} {s s1 : State} (h : BitmapsFit image s)
    (hinit : s.initMemoryBitmap image = .ok s1) (hm : PagesMarked image s s1) {n : Nat}
    (htop : s1.dataTopAddress.toNat = 4096 * n) (hroom : n + 5 ≤ pageCount s .data - 1) :
    ∃ t1 t2 t3 s2 s3 s4 s5,
      (s1.allocDataPage = .ok (pageAt n, t1) ∧ t1.memset (pageAt n) 0x0 160 = .ok t2 ∧
        t2.allocDataPage = .ok (pageAt (n + 1), t3) ∧ t3.memset (pageAt (n + 1)) 0x0 2048 = .ok s2 ∧
        s1.initDescriptorTables = .ok s2) ∧
      (s2.allocDataPage = .ok (pageAt (n + 2), s3) ∧
        State.allocDataPage { s3 with kernelPageDirectory := pageAt (n + 2) } =
          .ok (pageAt (n + 3), s4) ∧
        s2.initPagingTables = .ok s5 ∧ s5.kernelPageDirectory = pageAt (n + 2)) ∧
      (pageAt (n + 2)).toNat = 4096 * (n + 2) ∧ directoryPages s5 = {n + 2, n + 3} ∧
      (∀ i ∈ directoryPages s5, i + 1 < pageCount s .data ∧
        bit s5.data s5.memoryBitmap.dataBitmap i = true) ∧
      ∀ s', Later (s5.memoryBitmap.codeBitmap + s5.dataBase) (directoryPages s5) s5 s' →
        ∀ p s'', s'.allocDataPage = .ok (p, s'') → p.toNat / 4096 ∉ directoryPages s5 := by
  cases hinit.symm.trans h.initMemoryBitmap_eq
  have hn : firstFree s = n := by
    have htop' : (bitmapTop s).toNat = 4096 * n := htop
    rw [firstFree]
    omega
  subst hn
  have hready := bitmapState_ready h (marked_next h hm (by omega)) (by omega)
  have hready2 := descriptors_ready h (marked_next h hm (by omega)) (by omega)
  obtain ⟨t1, t2, t3, ha1, hm1, ha2, hm2, hdesc⟩ := initDescriptorTables_eq hready
  have hplaced : Placed (bootState ((bitmapState image s).withData
      (descriptorMemory (bitmapState image s) (firstFree s))) (firstFree s + 2))
      (codeBitmapAt s + s.dataBase) := placed_of_disabled h h.disabled rfl rfl rfl
  generalize hs2 : (bitmapState image s).withData
    (descriptorMemory (bitmapState image s) (firstFree s)) = s2 at *
  have hcount : segmentPages s2 = pageCount s .data := by
    rw [← hs2]
    rfl
  have hbitmap : s2.memoryBitmap.dataBitmap = dataBitmapAt s := by
    rw [← hs2]
    rfl
  obtain ⟨s3, s4, ha3, ha4, hpaging⟩ := directory_adjacent hready2
  have hdir : (pageAt (firstFree s + 2)).toNat = 4096 * (firstFree s + 2) :=
    pageAt_toNat (s := s2) (by omega)
  have hset := bootState_directory hready2
  have hused : ∀ i ∈ directoryPages (bootState s2 (firstFree s + 2)), i + 1 < pageCount s .data ∧
      bit (bootState s2 (firstFree s + 2)).data s2.memoryBitmap.dataBitmap i = true := by
    intro i hi
    rw [hset, Finset.mem_insert, Finset.mem_singleton] at hi
    exact ⟨by omega, bootState_used hready2 (by omega)⟩
  refine ⟨t1, t2, t3, s2, s3, s4, _, ⟨ha1, hm1, ha2, hm2, hdesc⟩, ⟨ha3, ha4, hpaging, rfl⟩, hdir,
    hset, hused, fun s' hlater p s'' hrun => ?_⟩
  have hkeeps : Keeps (codeBitmapAt s + s.dataBase)
      (directoryPages (bootState s2 (firstFree s + 2))) (bootState s2 (firstFree s + 2)) := by
    refine ⟨hplaced, ?_, fun i hi => ?_, fun i hi => ?_⟩
    · rw [← hs2]
      exact h.code_pos
    · have hlt := (hused i hi).1
      change i < segmentPages s2
      omega
    · have haddr := bit_bitmapAddr (bootState s2 (firstFree s + 2)) .data i
      rw [← hs2] at haddr ⊢
      rw [← hs2] at hused
      rw [← hs2] at hi
      exact haddr.trans (hused i hi).2
  have hlater' : Later (codeBitmapAt s + s.dataBase)
      (directoryPages (bootState s2 (firstFree s + 2))) (bootState s2 (firstFree s + 2)) s' := by
    rw [← hs2] at hlater ⊢
    exact hlater
  refine (hlater'.keeps hkeeps).alloc_not_kept hrun ?_
  rw [hset]
  simp

theorem onesMachine_marked :
    PagesMarked linkedImage (onesMachine 0x1000000)
    (bitmapState linkedImage (onesMachine 0x1000000)) := by
  refine (onesMachine_fits 0x1000000 (by decide)).marked_iff.mpr (noStaleBits_of_small fun k => ?_)
  cases k <;> decide

theorem directory_reserved_small : ∃ s2 s5, State.initDescriptorTables
      (bitmapState linkedImage (onesMachine 0x1000000)) = .ok s2 ∧
    s2.initPagingTables = .ok s5 ∧ directoryPages s5 = {6, 7} := by
  have h := onesMachine_fits 0x1000000 (by decide)
  obtain ⟨t1, t2, t3, s2, s3, s4, s5, hdesc, hpaging, -, hpages, -, -⟩ :=
    directory_reserved h h.initMemoryBitmap_eq onesMachine_marked (n := 4) (by decide) (by decide)
  exact ⟨s2, s5, hdesc.2.2.2.2, hpaging.2.2.1, hpages⟩

end SimpleOs.Audit.BootPages
