import SimpleOs.Audit.MapCalls

/-!
# The tables `init_paging_tables` leaves behind

Before paging, with a bitmap whose used pages are the first `n` and the next
three are free, the directory is in pages `n` and `n+1` and the table of page
tables in page `n+2`. The tables are then well formed, provided the base of the
segment is a page boundary and the window ends below 4 GiB.
-/

namespace SimpleOs.Audit.PagingBoot

open SimpleOs.Kernel SimpleOs.Lib SimpleOs.Lib.ByteMemory SimpleOs.Audit.PageTables
open SimpleOs.Audit.KernelAccess SimpleOs.Audit.MapCalls
open SimpleOs.Kernel.State (markUsed)
open SimpleOs.Lib.PackedBits (bit byteAt)

/-- Bits below `k` are set, those from `k` up to `l` are clear. -/
def NextFree (m : Memory) (p : U32int) (k l : Nat) : Prop :=
  (∀ i < k, bit m p i = true) ∧ ∀ i, k ≤ i → i < l → bit m p i = false

/-- The data bitmap of a machine that has only handed out its first `n` pages. -/
structure BootReady (s : State) (n : Nat) : Prop where
  disabled : s.pagingEnabled = false
  initialized : s.memoryBitmapInitialized = true
  size : (s.bitmapSize s.memoryBitmap.dataBitmap).toNat = segmentPages s
  bitmap_end : s.memoryBitmap.dataBitmap.toNat + (segmentPages s + 7) / 8 ≤ 4096 * n
  next : NextFree s.data s.memoryBitmap.dataBitmap n (n + 3)
  room : n + 3 ≤ segmentPages s

def pageAt (k : Nat) : U32int := BitVec.ofNat 32 (k * 4096)

theorem pageAt_toNat {s : State} {k : Nat} (hk : k < segmentPages s) :
    (pageAt k).toNat = 4096 * k := by
  have hlen := segmentPages_le s
  simp only [pageAt, BitVec.toNat_ofNat, Nat.reducePow]
  omega

/-- Without paging the least free page is handed out. -/
theorem allocDataPage_of_disabled {s : State} (hp : s.pagingEnabled = false)
    (hi : s.memoryBitmapInitialized = true)
    (hsize : (s.bitmapSize s.memoryBitmap.dataBitmap).toNat = segmentPages s)
    (hend : s.memoryBitmap.dataBitmap.toNat + (segmentPages s + 7) / 8 ≤ 4096 * segmentPages s)
    {k : Nat} (hk : k < segmentPages s)
    (hused : ∀ i < k, bit s.data s.memoryBitmap.dataBitmap i = true)
    (hfree : bit s.data s.memoryBitmap.dataBitmap k = false) :
    s.allocDataPage = .ok (pageAt k, s.withData (marked s k)) := by
  have hlen := segmentPages_le s
  have hlim := segmentPages_limit s
  have hplain : s.PlainAt s.memoryBitmap.dataBitmap (s.memoryBitmap.dataBitmap + s.dataBase)
      ((segmentPages s + 7) / 8) := State.plainAt_of_disabled hp (by omega)
  have hleast : IsLeast {i | bit s.memory
      (s.memoryBitmap.dataBitmap + s.dataBase) i = false} k := by
    constructor
    · exact (bit_data s _ k).trans hfree
    · intro i hc
      by_contra hlt
      have hu := hused i (by omega)
      rw [← bit_data, hc] at hu
      cases hu
  have hscan := PackedBits.clearFrom_isLeast (n := (segmentPages s + 7) / 8) hleast (by omega)
  rw [← hsize] at hplain hscan hk
  rw [State.allocDataPage, State.allocPage_of_scan hi rfl (by omega) hplain hscan, if_pos hk,
    markUsed_data]
  rfl

section

variable (s : State) (n : Nat)

def bootDir : U32int := pageAt n
def bootTable : U32int := pageAt (n + 2)
def bootIndex : U32int := State.windowIndex (bootDir n + directorySize + s.dataBase)
def bootWindow : U32int := bootIndex s n * tableSpan - s.dataBase
def bootEntry : U32int := (ptEntry true true false (bootTable n + s.dataBase)).toWord

/-- Kernel data after the three pages are taken and cleared. -/
def clearedBoot : Memory :=
  let bm := s.memoryBitmap.dataBitmap
  fill (markUsed (fill (markUsed (markUsed s.data bm n) bm (n + 1)) (bootDir n) 8192 0) bm (n + 2))
    (bootTable n) 4096 0

/-- ... and after the window has its three entries. -/
def bootMemory : Memory :=
  write32 (write32 (write32 (clearedBoot s n)
    (bootDir n + 4 * bootIndex s n) (bootEntry s n))
    (bootDir n + tableSize + 4 * bootIndex s n) (bootWindow s n + bootIndex s n * pageSize))
    (bootTable n + 4 * bootIndex s n) (bootEntry s n)

end

/-- `s` with other kernel data and other paging globals. -/
def bootWith (s : State) (dir window : U32int) (m : Memory) : State :=
  { s with kernelPageDirectory := dir, pageTablesRelVirtAddr := window }.withData m

/-- ... with the directory and the window in place. -/
def bootAt (s : State) (n : Nat) (m : Memory) : State := bootWith s (bootDir n) (bootWindow s n) m

def bootState (s : State) (n : Nat) : State := bootAt s n (bootMemory s n)

section

variable {s : State} {n : Nat}

theorem NextFree.mark {m : Memory} {p : U32int} {k l : Nat} (h : NextFree m p k l) (hk : k < l)
    (hl : l ≤ 2^20) : NextFree (markUsed m p k) p (k + 1) l := by
  constructor
  · intro i hi
    rw [bit_markUsed m p (by omega) (by omega)]
    rcases Nat.lt_or_eq_of_le (Nat.le_of_lt_succ hi) with hlt | rfl
    · rw [h.1 i hlt, Bool.or_true]
    · rw [decide_eq_true rfl, Bool.true_or]
  · intro i hki hi
    rw [bit_markUsed m p (by omega) (by omega), h.2 i (by omega) hi, Bool.or_false,
      decide_eq_false (by omega)]

/-- Clearing pages above a bitmap keeps its bits. -/
theorem bit_fill (m : Memory) {p a : U32int} {i l : Nat} (h : p.toNat + i / 8 < a.toNat)
    (hl : a.toNat + l ≤ 2^32) : bit (fill m a l 0) p i = bit m p i := by
  have hfar : l ≤ (byteAt p i - a).toNat := by
    rw [byteAt]
    bv_omega
  rw [bit, fill_of_le m 0 hfar, bit]

theorem NextFree.fill {m : Memory} {p a : U32int} {k l c : Nat} (h : NextFree m p k l) (hk : k ≤ l)
    (ha : p.toNat + (l + 7) / 8 ≤ a.toNat) (hc : a.toNat + c ≤ 2^32) :
    NextFree (fill m a c 0) p k l := by
  constructor
  · intro i hi
    rw [bit_fill m (by omega) hc]
    exact h.1 i hi
  · intro i hki hi
    rw [bit_fill m (by omega) hc]
    exact h.2 i hki hi

theorem BootReady.pages_lt (h : BootReady s n) : n + 3 < 2^20 := by
  have hroom := h.room
  have hlen := segmentPages_le s
  omega

@[simp] theorem bootWith_data (s : State) (dir window : U32int) (m : Memory) :
    (bootWith s dir window m).data = m := State.withData_data ..

theorem bootWith_self (s : State) :
    bootWith s s.kernelPageDirectory s.pageTablesRelVirtAddr s.data = s := State.withData_self s

theorem bootWith_setDirectory (s : State) (dir window dir' : U32int) (m : Memory) :
    { bootWith s dir window m with kernelPageDirectory := dir' } = bootWith s dir' window m := rfl

theorem bootWith_setWindow (s : State) (dir window window' : U32int) (m : Memory) :
    { bootWith s dir window m with pageTablesRelVirtAddr := window' } = bootWith s dir window' m :=
    rfl

theorem bootWith_base (s : State) (dir window : U32int) (m : Memory) :
    (bootWith s dir window m).segmentsInfo.dataSegment.base = s.dataBase := rfl

theorem bootWith_window (s : State) (dir window : U32int) (m : Memory) :
    (bootWith s dir window m).pageTablesRelVirtAddr = window := rfl

section

variable (h : BootReady s n) (dir window : U32int) {m : Memory}

include h

theorem bootWith_alloc {k l : Nat} (hk : k < segmentPages s) (hkl : k < l)
    (hnext : NextFree m s.memoryBitmap.dataBitmap k l) :
    (bootWith s dir window m).allocDataPage =
      .ok (pageAt k, bootWith s dir window (markUsed m s.memoryBitmap.dataBitmap k)) := by
  have hend := h.bitmap_end
  have hroom := h.room
  have ha := allocDataPage_of_disabled (s := bootWith s dir window m)
    h.disabled h.initialized h.size
    (by change s.memoryBitmap.dataBitmap.toNat + (segmentPages s + 7) / 8 ≤ 4096 * segmentPages s
        omega)
    hk (by rw [bootWith_data]; exact hnext.1) (by rw [bootWith_data]; exact hnext.2 k le_rfl hkl)
  rw [ha, marked, bootWith_data]
  rfl

theorem bootWith_memset {a : U32int} {l : Nat} (ha : a.toNat + l ≤ 4096 * segmentPages s) :
    (bootWith s dir window m).memset a 0 l = .ok (bootWith s dir window (fill m a l 0)) := by
  have hlim := segmentPages_limit s
  have hlen := segmentPages_le s
  have hp : (bootWith s dir window m).pagingEnabled = false := h.disabled
  have hin : a.toNat + l ≤ (bootWith s dir window m).segmentsInfo.dataSegment.limit.toNat + 1 := by
    change _ ≤ s.segmentsInfo.dataSegment.limit.toNat + 1
    omega
  have hm := State.memset_of_disabled hp 0 (by omega) hin
  rwa [bootWith_data] at hm

theorem bootWith_store {a : U32int} (ha : a.toNat + 4 ≤ 4096 * segmentPages s + 4096) (v : U32int) :
    (bootWith s dir window m).store32 a v = .ok (bootWith s dir window (write32 m a v)) := by
  have hlim : 4096 * segmentPages s + 4096 = s.segmentsInfo.dataSegment.limit.toNat + 1 := by
    rw [Segment.limit_toNat, segmentPages]
    omega
  have hp : (bootWith s dir window m).pagingEnabled = false := h.disabled
  have hin : a.toNat + 4 ≤ (bootWith s dir window m).segmentsInfo.dataSegment.limit.toNat + 1 := by
    change _ ≤ s.segmentsInfo.dataSegment.limit.toNat + 1
    omega
  have hm := State.store32_of_disabled hp v hin
  rwa [bootWith_data] at hm

end

/-- A directory, then its second page, then the table of page tables. -/
theorem initPagingTables_eq (h : BootReady s n) : s.initPagingTables = .ok (bootState s n) := by
  have hroom := h.room
  have hlen := segmentPages_le s
  have hlt := h.pages_lt
  have hend := h.bitmap_end
  have hd : (bootDir n).toNat = 4096 * n := pageAt_toNat (s := s) (by omega)
  have ht : (bootTable n).toNat = 4096 * (n + 2) := pageAt_toNat (s := s) (by omega)
  have h1 := h.next.mark (by omega) (by omega)
  have h2 := h1.mark (by omega) (by omega)
  have h3 := h2.fill (a := bootDir n) (c := 8192) (by omega) (by omega) (by omega)
  have ha1 := bootWith_alloc h s.kernelPageDirectory s.pageTablesRelVirtAddr
    (by omega) (by omega) h.next
  rw [bootWith_self] at ha1
  have ha2 := bootWith_alloc h (bootDir n) s.pageTablesRelVirtAddr (by omega) (by omega) h1
  have hm3 := bootWith_memset h (bootDir n) s.pageTablesRelVirtAddr (a := bootDir n) (l := 8192)
    (m := markUsed (markUsed s.data s.memoryBitmap.dataBitmap n) s.memoryBitmap.dataBitmap (n + 1))
    (by omega)
  have ha4 := bootWith_alloc h (bootDir n) (bootWindow s n) (by omega) (by omega) h3
  have hm5 := bootWith_memset h (bootDir n) (bootWindow s n) (a := bootTable n) (l := 4096)
    (m := markUsed (fill (markUsed (markUsed s.data s.memoryBitmap.dataBitmap n)
      s.memoryBitmap.dataBitmap (n + 1)) (bootDir n) 8192 0) s.memoryBitmap.dataBitmap (n + 2))
    (by omega)
  have hidx : (bootIndex s n).toNat ≤ 1024 := by
    have htop := (bootDir n + directorySize + s.dataBase).isLt
    rw [bootIndex, State.windowIndex_toNat]
    omega
  have hs6 := bootWith_store h (bootDir n) (bootWindow s n) (m := clearedBoot s n)
    (a := bootDir n + 4 * bootIndex s n) (by bv_omega) (bootEntry s n)
  have hs7 := fun m => bootWith_store h (bootDir n) (bootWindow s n) (m := m)
    (a := bootDir n + tableSize + 4 * bootIndex s n) (by simp only [tableSize]; bv_omega)
    (bootWindow s n + bootIndex s n * pageSize)
  have hs8 := fun m => bootWith_store h (bootDir n) (bootWindow s n) (m := m)
    (a := bootTable n + 4 * bootIndex s n) (by bv_omega) (bootEntry s n)
  have hwin : bootIndex s n * tableSpan - s.dataBase = bootWindow s n := rfl
  have hidx' : State.windowIndex (bootDir n + directorySize + s.dataBase) = bootIndex s n := rfl
  have ht' : pageAt (n + 2) = bootTable n := rfl
  have he : (ptEntry true true false (bootTable n + s.dataBase)).toWord = bootEntry s n := rfl
  have hm5' : fill (markUsed (fill (markUsed (markUsed s.data s.memoryBitmap.dataBitmap n)
      s.memoryBitmap.dataBitmap (n + 1)) (bootDir n) 8192 0) s.memoryBitmap.dataBitmap (n + 2))
      (bootTable n) 4096 0 = clearedBoot s n := rfl
  simp only [State.initPagingTables, ha1, ok_bind]
  rw [bootWith_setDirectory, show pageAt n = bootDir n from rfl]
  simp only [ha2, ok_bind, hm3, bootWith_base, hidx', hwin]
  rw [bootWith_setWindow]
  simp only [ha4, ok_bind, ht', hm5, hm5', State.setPtEntry, he, hs6, bootWith_window, hs7, hs8,
    bootState, bootAt, bootMemory]

/-- The machine can hold the window: the base is a page boundary and a whole
directory entry is left above the directory. -/
structure Placeable (s : State) (n : Nat) : Prop extends BootReady s n where
  base_aligned : s.dataBase.toNat % 4096 = 0
  window_below : s.dataBase.toNat + 4096 * n + 8192 ≤ 0xFFC00000

theorem windowStart_toNat {i base : U32int} (hi : i.toNat < 1024)
    (hb : base.toNat ≤ i.toNat * 0x400000) :
    (i * tableSpan - base).toNat + base.toNat = i.toNat * 0x400000 := by
  have hbase := base.isLt
  have hspan : tableSpan.toNat = 0x400000 := rfl
  rw [BitVec.toNat_sub, BitVec.toNat_mul, hspan]
  omega

theorem windowIndexOf_eq {i : U32int} (hi : i.toNat < 1024)
    (hw : s.pageTablesRelVirtAddr.toNat + s.dataBase.toNat = i.toNat * 0x400000) :
    windowIndexOf s = i := by
  apply BitVec.eq_of_toNat_eq
  rw [windowIndexOf, tableIndex_toNat, BitVec.toNat_add]
  omega

/-- One table, the window's own. -/
def bootTables (s : State) (n : Nat) : TableMap :=
  Function.update (fun _ => none) (bootIndex s n) (some (bootTable n))

section

variable (h : Placeable s n)

include h

theorem bootDir_toNat : (bootDir n).toNat = 4096 * n := by
  have hroom := h.room
  rw [bootDir, pageAt_toNat (s := s) (by omega)]

theorem bootTable_toNat : (bootTable n).toNat = 4096 * n + 8192 := by
  have hroom := h.room
  rw [bootTable, pageAt_toNat (s := s) (by omega)]
  omega

theorem bootIndex_toNat :
    (bootIndex s n).toNat = (s.dataBase.toNat + 4096 * n + 8192 + 0x3FFFFF) / 0x400000 := by
  have hd := bootDir_toNat h
  have hbelow := h.window_below
  rw [bootIndex, State.windowIndex_toNat]
  simp only [directorySize, bitvec_to_nat, Nat.reducePow, Nat.reduceMod]
  omega

theorem bootIndex_lt : (bootIndex s n).toNat < 1024 := by
  have hidx := bootIndex_toNat h
  have hbelow := h.window_below
  omega

theorem bootWindow_toNat :
    (bootWindow s n).toNat + s.dataBase.toNat = (bootIndex s n).toNat * 0x400000 := by
  have hidx := bootIndex_toNat h
  have hlt := bootIndex_lt h
  rw [bootWindow]
  exact windowStart_toNat hlt (by omega)

/-- Kernel data is a variable, so that only the globals are looked at. -/
theorem windowIndexOf_boot (m : Memory) : windowIndexOf (bootAt s n m) = bootIndex s n :=
  windowIndexOf_eq (bootIndex_lt h) (bootWindow_toNat h)

theorem boot_layout (m : Memory) : Layout (bootAt s n m) where
  base_aligned := h.base_aligned
  dir_aligned := by
    change (bootDir n).toNat % 4096 = 0
    rw [bootDir_toNat h]
    omega
  dir_end := by
    have hroom := h.room
    change (bootDir n).toNat + 8192 ≤ 4096 * segmentPages s
    rw [bootDir_toNat h]
    omega
  window_start := by
    rw [windowIndexOf_boot h]
    exact bootWindow_toNat h
  window_above := by
    have hw := bootWindow_toNat h
    have hidx := bootIndex_toNat h
    change (bootDir n).toNat + 8192 ≤ (bootWindow s n).toNat
    rw [bootDir_toNat h]
    omega
  bitmap_size := h.size
  bitmap_end := by
    change s.memoryBitmap.dataBitmap.toNat + (segmentPages s + 7) / 8 ≤ (bootDir n).toNat
    rw [bootDir_toNat h]
    exact h.bitmap_end

theorem bootTable_page (m : Memory) : IsTablePage (bootAt s n m) (bootTable n) where
  aligned := by
    rw [bootTable_toNat h]
    omega
  above := by
    change (bootDir n).toNat + 8192 ≤ (bootTable n).toNat
    rw [bootDir_toNat h, bootTable_toNat h]
  inside := by
    have hroom := h.room
    change (bootTable n).toNat + 4096 ≤ 4096 * segmentPages s
    rw [bootTable_toNat h]
    omega

theorem bootDir_cell {i : U32int} (hi : i.toNat < 1024) :
    (bootDir n + 4 * i).toNat = (bootDir n).toNat + 4 * i.toNat :=
  (boot_layout h s.data).pdCell_toNat hi

theorem bootDir_ptrCell {i : U32int} (hi : i.toNat < 1024) :
    (bootDir n + tableSize + 4 * i).toNat = (bootDir n).toNat + 4096 + 4 * i.toNat :=
  (boot_layout h s.data).ptrCell_toNat hi

theorem bootTable_cell {i : U32int} (hi : i.toNat < 1024) :
    (bootTable n + 4 * i).toNat = (bootTable n).toNat + 4 * i.toNat :=
  (bootTable_page h s.data).cell_toNat hi

theorem maps_bootEntry :
    Maps (PagingEntry.ofWord (bootEntry s n)) (bootTable n + s.dataBase) := by
  have ht := bootTable_toNat h
  have hb := h.base_aligned
  refine maps_ptEntry true false ?_
  simp only [bitvec_to_nat, Nat.reducePow]
  omega

omit h in
theorem bootTables_some {i p : U32int} (hp : bootTables s n i = some p) :
    i = bootIndex s n ∧ p = bootTable n := by
  obtain hboot | ⟨-, hnone⟩ := update_some hp
  · exact hboot
  · cases hnone

omit h in
theorem bootTables_none {i : U32int} (hp : bootTables s n i = none) : i ≠ bootIndex s n :=
  (update_none hp).1

/-- One entry in each of the three places makes the tables well formed. -/
theorem tables_of_cells {m : Memory}
    (hpd : ∀ i, i.toNat < 1024 → read32 m (bootDir n + 4 * i) =
      if i = bootIndex s n then bootEntry s n else 0)
    (hptr : ∀ i, i.toNat < 1024 → read32 m (bootDir n + tableSize + 4 * i) =
      if i = bootIndex s n then bootWindow s n + bootIndex s n * pageSize else 0)
    (hwin : ∀ i, i.toNat < 1024 → read32 m (bootTable n + 4 * i) =
      if i = bootIndex s n then bootEntry s n else 0) :
    Tables (bootAt s n m) (bootTables s n) := by
  have hw := windowIndexOf_boot h m
  have hself : bootTables s n (bootIndex s n) = some (bootTable n) := Function.update_self ..
  have hdata : (bootAt s n m).data = m := bootWith_data ..
  refine { boot_layout h m with
    pde_some := fun i p hi hp => ?_
    pde_none := fun i hi hp => ?_
    window := fun w hwt i p hi hp => ?_
    window_some := ⟨bootTable n, by rw [hw]; exact hself⟩
    page := fun i p hp => ?_
    inj := fun i j p hi hj => ?_
    ptr := fun i hi => ?_ }
  · obtain ⟨rfl, rfl⟩ := bootTables_some hp
    rw [entryAt, hdata]
    change Maps (PagingEntry.ofWord (read32 m (bootDir n + 4 * _))) (bootTable n + s.dataBase)
    rw [hpd _ hi, if_pos rfl]
    exact maps_bootEntry h
  · rw [entryAt, hdata]
    change (PagingEntry.ofWord (read32 m (bootDir n + 4 * i))).present = false
    rw [hpd i hi, if_neg (bootTables_none hp), PagingEntry.present_zero]
  · obtain ⟨rfl, rfl⟩ := bootTables_some hp
    obtain ⟨-, rfl⟩ := bootTables_some hwt
    rw [entryAt, hdata, hwin _ hi, if_pos rfl]
    exact maps_bootEntry h
  · obtain ⟨-, rfl⟩ := bootTables_some hp
    exact bootTable_page h m
  · exact (bootTables_some hi).1.trans (bootTables_some hj).1.symm
  · rw [hdata]
    change read32 m (bootDir n + tableSize + 4 * i) = if _ then bootWindow s n + i * pageSize else 0
    rw [hptr i hi]
    by_cases hidx : i = bootIndex s n
    · subst hidx
      rw [hself, if_pos rfl, Option.isSome_some, if_pos rfl]
    · rw [if_neg hidx, bootTables, Function.update_of_ne hidx]
      rfl

theorem accounted_of_bits {m : Memory}
    (hbits : ∀ k < n + 3, bit m s.memoryBitmap.dataBitmap k = true) :
    Accounted (bootAt s n m) (bootTables s n) where
  kernel := fun k hk => by
    have hd := bootDir_toNat h
    change 4096 * k < (bootDir n).toNat + 8192 at hk
    rw [bootAt, bootWith_data]
    exact hbits k (by omega)
  table := fun i p hp => by
    obtain ⟨-, rfl⟩ := bootTables_some hp
    rw [bootTable_toNat h, bootAt, bootWith_data]
    exact hbits _ (by omega)

/-- The three pages are cleared after the marks are made. -/
theorem read32_clearedBoot {a : U32int} (ha : 4096 * n ≤ a.toNat)
    (ha' : a.toNat + 4 ≤ 4096 * n + 12288)
    (h4 : a.toNat % 4 = 0) : read32 (clearedBoot s n) a = 0 := by
  have hd := bootDir_toNat h
  have ht := bootTable_toNat h
  have hlen := segmentPages_le s
  have hroom := h.room
  have hend := h.bitmap_end
  have hbyte : (byteAt s.memoryBitmap.dataBitmap (n + 2)).toNat < 4096 * n := by
    have hin : (n + 2) / 8 < (segmentPages s + 7) / 8 := by omega
    rw [byteAt, BitVec.toNat_add, BitVec.toNat_ofNat]
    omega
  unfold clearedBoot
  by_cases hin : 4096 * n + 8192 ≤ a.toNat
  · exact read32_fill_inside _ (by bv_omega) (by decide)
  · rw [read32_fill_outside _ _ (by bv_omega) (by bv_omega), markUsed,
      read32_write8_of_ne _ _ (by bv_omega)]
    exact read32_fill_inside _ (by bv_omega) (by decide)

/-- The three words written, and zeros around them. -/
theorem read32_bootMemory {a : U32int} (ha : 4096 * n ≤ a.toNat)
    (ha' : a.toNat + 4 ≤ 4096 * n + 12288) (h4 : a.toNat % 4 = 0) : read32 (bootMemory s n) a =
      if a = bootTable n + 4 * bootIndex s n then bootEntry s n
      else if a = bootDir n + tableSize + 4 * bootIndex s n then
        bootWindow s n + bootIndex s n * pageSize
      else if a = bootDir n + 4 * bootIndex s n then bootEntry s n
      else 0 := by
  have hd := bootDir_toNat h
  have ht := bootTable_toNat h
  have hi := bootIndex_lt h
  have hlen := segmentPages_le s
  have hroom := h.room
  have h1 : (bootTable n + 4 * bootIndex s n).toNat % 4 = 0 := by bv_omega
  have h2 : (bootDir n + tableSize + 4 * bootIndex s n).toNat % 4 = 0 := by
    simp only [tableSize]
    bv_omega
  have h3 : (bootDir n + 4 * bootIndex s n).toNat % 4 = 0 := by bv_omega
  unfold bootMemory
  split_ifs with c1 c2 c3
  · rw [c1, read32_write32_same]
  · rw [read32_write32_of_ne _ _ h1 h4 c1, c2, read32_write32_same]
  · rw [read32_write32_of_ne _ _ h1 h4 c1, read32_write32_of_ne _ _ h2 h4 c2, c3,
      read32_write32_same]
  · rw [read32_write32_of_ne _ _ h1 h4 c1, read32_write32_of_ne _ _ h2 h4 c2,
      read32_write32_of_ne _ _ h3 h4 c3, read32_clearedBoot h ha ha' h4]

theorem boot_pdCell {i : U32int} (hi : i.toNat < 1024) : read32 (bootMemory s n)
    (bootDir n + 4 * i) = if i = bootIndex s n then bootEntry s n else 0 := by
  have hd := bootDir_toNat h
  have ht := bootTable_toNat h
  have hlt := bootIndex_lt h
  have hc := bootDir_cell h hi
  have hptr := bootDir_ptrCell h hlt
  have htab := bootTable_cell h hlt
  rw [read32_bootMemory h (by omega) (by omega) (by omega),
    if_neg fun he => by have := congrArg BitVec.toNat he; omega,
    if_neg fun he => by have := congrArg BitVec.toNat he; omega]
  congr 1
  rw [eq_iff_iff]
  constructor <;> intro he <;> bv_omega

theorem boot_ptrCell {i : U32int} (hi : i.toNat < 1024) : read32 (bootMemory s n)
    (bootDir n + tableSize + 4 * i) =
      if i = bootIndex s n then bootWindow s n + bootIndex s n * pageSize else 0 := by
  have hd := bootDir_toNat h
  have ht := bootTable_toNat h
  have hlt := bootIndex_lt h
  have hc := bootDir_ptrCell h hi
  have hpd := bootDir_cell h hlt
  have htab := bootTable_cell h hlt
  rw [read32_bootMemory h (by omega) (by omega) (by omega),
    if_neg fun he => by have := congrArg BitVec.toNat he; omega]
  have hne : bootDir n + tableSize + 4 * i ≠ bootDir n + 4 * bootIndex s n := fun he => by
    have := congrArg BitVec.toNat he
    omega
  rw [if_neg hne]
  congr 1
  rw [eq_iff_iff]
  constructor <;> intro he <;> bv_omega

theorem boot_window {i : U32int} (hi : i.toNat < 1024) : read32 (bootMemory s n)
    (bootTable n + 4 * i) = if i = bootIndex s n then bootEntry s n else 0 := by
  have hd := bootDir_toNat h
  have ht := bootTable_toNat h
  have hlt := bootIndex_lt h
  have hc := bootTable_cell h hi
  have hptr := bootDir_ptrCell h hlt
  have hpd := bootDir_cell h hlt
  rw [read32_bootMemory h (by omega) (by omega) (by omega)]
  have hne : bootTable n + 4 * i ≠ bootDir n + tableSize + 4 * bootIndex s n := fun he => by
    have := congrArg BitVec.toNat he
    omega
  have hne' : bootTable n + 4 * i ≠ bootDir n + 4 * bootIndex s n := fun he => by
    have := congrArg BitVec.toNat he
    omega
  rw [if_neg hne, if_neg hne']
  congr 1
  rw [eq_iff_iff]
  constructor <;> intro he <;> bv_omega

/-- What `init_paging_tables` leaves behind is well formed. -/
theorem boot_tables : Tables (bootState s n) (bootTables s n) :=
  tables_of_cells h (fun _ hi => boot_pdCell h hi) (fun _ hi => boot_ptrCell h hi)
    fun _ hi => boot_window h hi

/-- Below the data bitmap and behind the three pages nothing is written. -/
theorem bootMemory_frame {y : U32int}
    (hy : y.toNat < s.memoryBitmap.dataBitmap.toNat ∨ 4096 * (n + 3) ≤ y.toNat) :
    bootMemory s n y = s.data y := by
  have hd := bootDir_toNat h
  have ht := bootTable_toNat h
  have hi := bootIndex_lt h
  have hroom := h.room
  have hlen := segmentPages_le s
  have hend := h.bitmap_end
  have hpd := bootDir_cell h hi
  have hptr := bootDir_ptrCell h hi
  have htab := bootTable_cell h hi
  have hmark : ∀ (m : Memory) {k : Nat}, k < n + 3 →
      markUsed m s.memoryBitmap.dataBitmap k y = m y := by
    intro m k hk
    refine write8_of_ne _ _ ?_
    intro he
    subst he
    have hbyte : k / 8 < (segmentPages s + 7) / 8 := by omega
    rw [byteAt, BitVec.toNat_add, BitVec.toNat_ofNat, Nat.mod_eq_of_lt (a := k / 8) (by omega),
      Nat.mod_eq_of_lt (by omega)] at hy
    omega
  rw [bootMemory, write32_of_far _ _ (by bv_omega), write32_of_far _ _ (by bv_omega),
    write32_of_far _ _ (by bv_omega), clearedBoot, fill_of_le _ _ (by bv_omega), hmark _ (by omega),
    fill_of_le _ _ (by bv_omega), hmark _ (by omega), hmark _ (by omega)]

/-- The entries are written above the bitmap. -/
theorem bit_bootMemory {k : Nat} (hk : k < segmentPages s) :
    bit (bootMemory s n) s.memoryBitmap.dataBitmap k =
      bit (clearedBoot s n) s.memoryBitmap.dataBitmap k := by
  have hd := bootDir_toNat h
  have ht := bootTable_toNat h
  have hroom := h.room
  have hlen := segmentPages_le s
  have hi := bootIndex_lt h
  have hbelow : SameBelow (bootAt s n s.data) (clearedBoot s n) (bootMemory s n) := by
    have hdir : (bootAt s n s.data).kernelPageDirectory.toNat = 4096 * n := hd
    have hpd := bootDir_cell h hi
    have hptr := bootDir_ptrCell h hi
    have htab := bootTable_cell h hi
    exact ((sameBelow_write32 _ (by omega) (by omega) _).trans
      (sameBelow_write32 _ (by omega) (by omega) _)).trans
      (sameBelow_write32 _ (by omega) (by omega) _)
  exact hbelow.bit (boot_layout h s.data) hk

/-- The pages taken are marked, and so is all that was before. -/
theorem boot_bits {k : Nat} (hk : k < n + 3) :
    bit (bootMemory s n) s.memoryBitmap.dataBitmap k = true := by
  have hd := bootDir_toNat h
  have ht := bootTable_toNat h
  have hlt := h.pages_lt
  have hroom := h.room
  have hlen := segmentPages_le s
  have hend := h.bitmap_end
  have h1 := h.next.mark (by omega) (by omega)
  have h2 := h1.mark (by omega) (by omega)
  have h3 := h2.fill (a := bootDir n) (c := 8192) (by omega) (by omega) (by omega)
  have h4 := h3.mark (by omega) (by omega)
  have h5 := h4.fill (a := bootTable n) (c := 4096) le_rfl (by omega) (by omega)
  exact (bit_bootMemory h (by omega)).trans (h5.1 k hk)

/-- The other pages are as they were. -/
theorem boot_bits_above {k : Nat} (hk : n + 3 ≤ k) (hlt : k < segmentPages s) :
    bit (bootMemory s n) s.memoryBitmap.dataBitmap k = bit s.data s.memoryBitmap.dataBitmap k := by
  have hd := bootDir_toNat h
  have ht := bootTable_toNat h
  have hroom := h.room
  have hlen := segmentPages_le s
  have hend := h.bitmap_end
  rw [bit_bootMemory h hlt, clearedBoot, bit_fill _ (by omega) (by omega),
    bit_markUsed _ _ (by omega) (by omega), decide_eq_false (by omega), Bool.false_or,
    bit_fill _ (by omega) (by omega), bit_markUsed _ _ (by omega) (by omega),
    decide_eq_false (by omega), Bool.false_or, bit_markUsed _ _ (by omega) (by omega),
    decide_eq_false (by omega), Bool.false_or]

theorem boot_accounted : Accounted (bootState s n) (bootTables s n) :=
  accounted_of_bits h fun _ hk => boot_bits h hk

/-- Nothing is mapped outside the window yet. -/
theorem boot_walk {lin : U32int} (hlin : tableIndex lin ≠ windowIndexOf (bootState s n)) :
    walk (bootState s n).memory (dirRoot (bootState s n)) lin = none := by
  rw [bootState, windowIndexOf_boot h] at hlin
  rw [(boot_tables h).walk_eq, bootTables, Function.update_of_ne hlin, Option.bind_none]

end

end

end SimpleOs.Audit.PagingBoot
