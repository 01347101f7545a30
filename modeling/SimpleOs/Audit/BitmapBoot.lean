import SimpleOs.Audit.PageBitmap
import SimpleOs.Audit.PageRuns
import SimpleOs.Audit.PagingBoot

/-!
# The page bitmaps after `init_memory_bitmap`

Both bitmaps lie behind the kernel data. Their first page is cleared before bits are
set, the pages behind it are not: what memory held there shows up as used pages.
-/

namespace SimpleOs.Audit.BitmapBoot

open SimpleOs.Kernel SimpleOs.Lib SimpleOs.Lib.ByteMemory
open SimpleOs.Kernel.State (markUsed)
open SimpleOs.Lib.PackedBits (bit byteAt)
open SimpleOs.Audit.KernelAccess SimpleOs.Audit.PageTables SimpleOs.Audit.PageBitmap

/-- Memory after the bits `0, …, n-1` of the bitmap at `a` are set. -/
def markFirst (m : Memory) (a : U32int) : Nat → Memory
  | 0 => m
  | n + 1 => markUsed (markFirst m a n) a n

section

variable {m : Memory} {a : U32int} {n i : Nat}

theorem bit_markFirst (hn : n ≤ 2^20) (hi : i < 2^20) :
    bit (markFirst m a n) a i = (decide (i < n) || bit m a i) := by
  induction n with
  | zero => simp [markFirst]
  | succ n ih =>
    rw [markFirst, bit_markUsed _ _ (by omega) hi, ih (by omega), ← Bool.or_assoc]
    congr 1
    rw [Bool.eq_iff_iff, Bool.or_eq_true, decide_eq_true_eq, decide_eq_true_eq, decide_eq_true_eq]
    omega

/-- Bytes outside the bitmap are left alone. -/
theorem markFirst_of_far {x : U32int} (hn : n ≤ 2^20) (hx : (n + 7) / 8 ≤ (x - a).toNat) :
    markFirst m a n x = m x := by
  induction n with
  | zero => rfl
  | succ n ih =>
    have hne : x ≠ byteAt a n := by
      intro he
      subst he
      have hoff : (byteAt a n - a).toNat = n / 8 := by
        rw [byteAt]
        bv_omega
      omega
    rw [markFirst, markUsed, write8_of_ne _ _ hne]
    exact ih (by omega) (by omega)

theorem bit_markFirst_other {b : U32int} (hn : n ≤ 2^20)
    (h : (n + 7) / 8 ≤ (byteAt b i - a).toNat) : bit (markFirst m a n) b i = bit m b i := by
  rw [bit, markFirst_of_far hn h, bit]

end

/-- Clearing the first page of a bitmap clears the bits in it. -/
theorem bit_clearPage (m : Memory) (a : U32int) {i : Nat} (hi : i < 2^20) :
    bit (fill m a 4096 0) a i = (decide (32768 ≤ i) && bit m a i) := by
  have hoff : (byteAt a i - a).toNat = i / 8 := by
    rw [byteAt]
    bv_omega
  rcases Nat.lt_or_ge i 32768 with hlow | hhigh
  · rw [bit, fill_of_lt m 0 (by omega), decide_eq_false (by omega), Bool.false_and]
    exact BitVec.getLsbD_zero
  · rw [bit, fill_of_le m 0 (by omega), decide_eq_true hhigh, Bool.true_and, bit]

theorem bit_fill_far (m : Memory) {a b : U32int} {i n : Nat} (h : n ≤ (byteAt b i - a).toNat) :
    bit (fill m a n 0) b i = bit m b i := by
  rw [bit, fill_of_le m 0 h, bit]

section

variable {s : State} {bitmap : U32int}

theorem setBit_of_disabled (hp : s.pagingEnabled = false) {num : U32int}
    (hin : bitmap.toNat + num.toNat / 8 ≤ s.segmentsInfo.dataSegment.limit.toNat) :
    s.setBit bitmap num = .ok (s.withData (markUsed s.data bitmap num.toNat)) := by
  have hplain : s.PlainAt bitmap (bitmap + s.dataBase) (num.toNat / 8 + 1) :=
    State.plainAt_of_disabled hp (by omega)
  have hset := State.setBit_of_plain hplain num (by omega)
  rw [hset, ← markUsed_data]
  rfl

/-- `for (index = 0; index < count; index++) set_bit(bitmap, index)` -/
theorem markLoop_of_disabled (hp : s.pagingEnabled = false) {count : U32int}
    (hin : bitmap.toNat + (count.toNat + 7) / 8 ≤ s.segmentsInfo.dataSegment.limit.toNat + 1) :
    s.forLoop (· < count) 1 0 (fun index s => s.setBit bitmap index) =
      .ok (s.withData (markFirst s.data bitmap count.toNat)) := by
  have hcount := count.isLt
  have hrounds : ∀ n ≤ count.toNat,
      (List.range n).foldlM (fun s k => State.setBit s bitmap (BitVec.ofNat 32 k)) s =
        .ok (s.withData (markFirst s.data bitmap n)) := by
    intro n
    induction n with
    | zero => exact fun _ => congrArg _ (State.withData_self s).symm
    | succ n ih =>
      intro hn
      have hk : (BitVec.ofNat 32 n).toNat = n := by
        rw [BitVec.toNat_ofNat, Nat.mod_eq_of_lt (by omega)]
      have hset := @setBit_of_disabled (s.withData (markFirst s.data bitmap n)) bitmap hp
        (BitVec.ofNat 32 n) (by rw [hk]; change _ ≤ s.segmentsInfo.dataSegment.limit.toNat; omega)
      rw [hk, State.withData_data] at hset
      rw [Loops.foldlM_range_succ, ih (by omega), ok_bind]
      exact hset
  rw [PageRuns.countingLoop_eq]
  exact hrounds _ le_rfl

theorem testBit_of_disabled (hp : s.pagingEnabled = false) {i : Nat} (hi : i < 2^32)
    (hin : bitmap.toNat + i / 8 ≤ s.segmentsInfo.dataSegment.limit.toNat) :
    s.testBit bitmap (BitVec.ofNat 32 i) = .ok (bit s.data bitmap i) := by
  have hk : (BitVec.ofNat 32 i).toNat = i := by rw [BitVec.toNat_ofNat, Nat.mod_eq_of_lt hi]
  have hplain : s.PlainAt bitmap (bitmap + s.dataBase) (i / 8 + 1) :=
    State.plainAt_of_disabled hp (by omega)
  rw [State.testBit_of_plain hplain (by rw [hk]; omega), hk, bit_data]

end

/-- Pages of a bitmap for `n` pages. -/
def bitmapPages (n : Nat) : Nat := ((n + 7) / 8 + 4095) / 4096

theorem bitmapPages_bytes (n : Nat) : (n + 7) / 8 ≤ 4096 * bitmapPages n := by
  rw [bitmapPages]
  omega

theorem bitmapPages_pos {n : Nat} (hn : 0 < n) : 0 < bitmapPages n := by
  rw [bitmapPages]
  omega

/-- Before paging, with the kernel image and both bitmaps below the stack-top page of the
data segment and the kernel code in the code segment. -/
structure BitmapsFit (image : KernelImage) (s : State) : Prop where
  disabled : s.pagingEnabled = false
  top : s.dataTopAddress = image.kernelDataSize
  code_pos : 0 < pageCount s .code
  room : image.kernelDataSize.toNat + 4096 * bitmapPages (pageCount s .code) +
    4096 * bitmapPages (pageCount s .data) + 4096 ≤ 4096 * pageCount s .data
  code_fits : image.kernelCodeSize.toNat ≤ s.segmentsInfo.codeSegment.len.toNat

section

variable (image : KernelImage) (s : State)

def codePages : U32int := s.segmentsInfo.codeSegment.len / pageSize
def dataPages : U32int := s.segmentsInfo.dataSegment.len / pageSize
def codeBitmapAt : U32int := s.dataTopAddress
def dataBitmapAt : U32int := s.dataTopAddress + pageSize * pageCountOf (bitmapInBytes (codePages s))
def bitmapTop : U32int := dataBitmapAt s + pageSize * pageCountOf (bitmapInBytes (dataPages s))

/-- Kernel data with the first page of each bitmap cleared. -/
def clearedBitmaps : Memory := fill (fill s.data (codeBitmapAt s) 4096 0) (dataBitmapAt s) 4096 0

/-- ... with the used pages of the data segment marked, and its stack-top page. -/
def dataMarked : Memory :=
  markUsed (markFirst (clearedBitmaps s) (dataBitmapAt s) (bitmapTop s / pageSize).toNat)
    (dataBitmapAt s) (dataPages s - 1).toNat

/-- ... and the used pages of the code segment. -/
def bitmapMemory : Memory :=
  markFirst (dataMarked s) (codeBitmapAt s) (image.kernelCodeSize / pageSize).toNat

/-- `s` with the given bitmap globals and kernel data. -/
def withBitmaps (b : MemoryBitmap) (top : U32int) (initialized : Bool) (m : Memory) : State :=
  State.withData { s with
    memoryBitmap := b
    dataTopAddress := top
    memoryBitmapInitialized := initialized } m

def bitmapState : State :=
  withBitmaps s ⟨codeBitmapAt s, dataBitmapAt s, codePages s, dataPages s⟩ (bitmapTop s) true
    (bitmapMemory image s)

end

section

variable {image : KernelImage} {s : State}

@[simp] theorem withBitmaps_data (b : MemoryBitmap) (top : U32int) (initialized : Bool)
    (m : Memory) : (withBitmaps s b top initialized m).data = m := State.withData_data ..

theorem dataLimit_toNat (s : State) :
    s.segmentsInfo.dataSegment.limit.toNat = 4096 * pageCount s .data + 4095 := by
  rw [Segment.limit_toNat, pageCount]
  omega

section

variable (hp : s.pagingEnabled = false) (b : MemoryBitmap) (top : U32int)
  (initialized : Bool) (m : Memory)

include hp

theorem withBitmaps_memset {a : U32int} {n : Nat} (ha : a.toNat + n ≤ 4096 * pageCount s .data) :
    (withBitmaps s b top initialized m).memset a 0 n =
      .ok (withBitmaps s b top initialized (fill m a n 0)) := by
  have hlim := dataLimit_toNat s
  have hle := pageCount_le s .data
  have hp' : (withBitmaps s b top initialized m).pagingEnabled = false := hp
  have hin : a.toNat + n ≤
      (withBitmaps s b top initialized m).segmentsInfo.dataSegment.limit.toNat + 1 := by
    change _ ≤ s.segmentsInfo.dataSegment.limit.toNat + 1
    omega
  have hmemset := State.memset_of_disabled hp' 0 (by omega) hin
  rwa [withBitmaps_data] at hmemset

theorem withBitmaps_setBit {bitmap num : U32int}
    (ha : bitmap.toNat + num.toNat / 8 ≤ 4096 * pageCount s .data) :
    (withBitmaps s b top initialized m).setBit bitmap num =
      .ok (withBitmaps s b top initialized (markUsed m bitmap num.toNat)) := by
  have hlim := dataLimit_toNat s
  have hp' : (withBitmaps s b top initialized m).pagingEnabled = false := hp
  have hin : bitmap.toNat + num.toNat / 8 ≤
      (withBitmaps s b top initialized m).segmentsInfo.dataSegment.limit.toNat := by
    change _ ≤ s.segmentsInfo.dataSegment.limit.toNat
    omega
  have hset := setBit_of_disabled hp' hin
  rwa [withBitmaps_data] at hset

theorem withBitmaps_markLoop {bitmap count : U32int}
    (ha : bitmap.toNat + (count.toNat + 7) / 8 ≤ 4096 * pageCount s .data) :
    (withBitmaps s b top initialized m).forLoop (· < count) 1 0
        (fun index s => s.setBit bitmap index) =
      .ok (withBitmaps s b top initialized (markFirst m bitmap count.toNat)) := by
  have hlim := dataLimit_toNat s
  have hp' : (withBitmaps s b top initialized m).pagingEnabled = false := hp
  have hin : bitmap.toNat + (count.toNat + 7) / 8 ≤
      (withBitmaps s b top initialized m).segmentsInfo.dataSegment.limit.toNat + 1 := by
    change _ ≤ s.segmentsInfo.dataSegment.limit.toNat + 1
    omega
  have hloop := markLoop_of_disabled hp' hin
  rwa [withBitmaps_data] at hloop

end

theorem codePages_toNat (s : State) : (codePages s).toNat = pageCount s .code := BitVec.toNat_udiv

theorem dataPages_toNat (s : State) : (dataPages s).toNat = pageCount s .data := BitVec.toNat_udiv

theorem usedPages_toNat (s : State) : (bitmapTop s / pageSize).toNat = (bitmapTop s).toNat / 4096 :=
  BitVec.toNat_udiv

theorem bitmapPages_toNat (count : U32int) :
    (pageCountOf (bitmapInBytes count)).toNat = bitmapPages count.toNat := by
  rw [pageCountOf_toNat, bitmapInBytes_toNat, bitmapPages]

section

variable (h : BitmapsFit image s)

include h

theorem BitmapsFit.codeBitmap_toNat : (codeBitmapAt s).toNat = image.kernelDataSize.toNat :=
  congrArg BitVec.toNat h.top

theorem BitmapsFit.dataBitmap_toNat :
    (dataBitmapAt s).toNat = image.kernelDataSize.toNat + 4096 *
    bitmapPages (pageCount s .code) := by
  have hroom := h.room
  have hle := pageCount_le s .data
  have hpages := bitmapPages_toNat (codePages s)
  rw [codePages_toNat] at hpages
  have hsize : pageSize.toNat = 4096 := rfl
  rw [dataBitmapAt, BitVec.toNat_add, BitVec.toNat_mul, hpages, hsize, h.top]
  omega

theorem BitmapsFit.bitmapTop_toNat : (bitmapTop s).toNat = image.kernelDataSize.toNat +
    4096 * bitmapPages (pageCount s .code) + 4096 * bitmapPages (pageCount s .data) := by
  have hroom := h.room
  have hle := pageCount_le s .data
  have hpages := bitmapPages_toNat (dataPages s)
  rw [dataPages_toNat] at hpages
  have hsize : pageSize.toNat = 4096 := rfl
  rw [bitmapTop, BitVec.toNat_add, BitVec.toNat_mul, hpages, hsize, h.dataBitmap_toNat]
  omega

theorem BitmapsFit.last_toNat : (dataPages s - 1).toNat = pageCount s .data - 1 := by
  have hroom := h.room
  have hpages := dataPages_toNat s
  bv_omega

/-- The calls come back with both bitmaps placed. -/
theorem BitmapsFit.initMemoryBitmap_eq : s.initMemoryBitmap image = .ok (bitmapState image s) := by
  have hroom := h.room
  have hlim := dataLimit_toNat s
  have hcb := h.codeBitmap_toNat
  have hdb := h.dataBitmap_toNat
  have htop := h.bitmapTop_toNat
  have hused := usedPages_toNat s
  have hlast := h.last_toNat
  have hfit := h.code_fits
  have hcode := bitmapPages_pos h.code_pos
  have hdata := bitmapPages_pos (by omega : 0 < pageCount s .data)
  have hbytes := bitmapPages_bytes (pageCount s .data)
  have hbytes' := bitmapPages_bytes (pageCount s .code)
  have h1 : s.memset (codeBitmapAt s) 0x0 4096 =
      .ok (s.withData (fill s.data (codeBitmapAt s) 4096 0)) :=
    State.memset_of_disabled h.disabled 0 (by decide) (by omega)
  let b : MemoryBitmap := ⟨codeBitmapAt s, dataBitmapAt s, codePages s, dataPages s⟩
  have h2 := withBitmaps_memset h.disabled b (bitmapTop s) s.memoryBitmapInitialized
    (fill s.data (codeBitmapAt s) 4096 0) (by omega : (dataBitmapAt s).toNat + 4096 ≤ _)
  have h3 := withBitmaps_markLoop h.disabled b (bitmapTop s) s.memoryBitmapInitialized
    (clearedBitmaps s)
    (by omega : (dataBitmapAt s).toNat + ((bitmapTop s / pageSize).toNat + 7) / 8 ≤ _)
  have h4 := withBitmaps_setBit h.disabled b (bitmapTop s) s.memoryBitmapInitialized
    (markFirst (clearedBitmaps s) (dataBitmapAt s) (bitmapTop s / pageSize).toNat)
    (by omega : (dataBitmapAt s).toNat + (dataPages s - 1).toNat / 8 ≤ _)
  have hcount : (image.kernelCodeSize / pageSize).toNat = image.kernelCodeSize.toNat / 4096 :=
    BitVec.toNat_udiv
  have hpages : pageCount s .code = s.segmentsInfo.codeSegment.len.toNat / 4096 := rfl
  have h5 := withBitmaps_markLoop h.disabled b
    (bitmapTop s) s.memoryBitmapInitialized (dataMarked s)
    (by omega : (codeBitmapAt s).toNat + ((image.kernelCodeSize / pageSize).toNat + 7) / 8 ≤ _)
  have hassert : assert (bitmapTop s % pageSize == 0) = .ok () := by
    have hmod : bitmapTop s % pageSize = 0 := by
      have haligned := image.data_aligned
      apply BitVec.eq_of_toNat_eq
      rw [BitVec.toNat_umod, htop]
      change _ % 4096 = 0
      omega
    rw [hmod]
    rfl
  refine (bind_of_ok h1 _).trans ?_
  refine (bind_of_ok h2 _).trans ?_
  refine (bind_of_ok hassert _).trans ?_
  refine (bind_of_ok h3 _).trans ?_
  refine (bind_of_ok h4 _).trans ?_
  exact bind_of_ok h5 _

/-- The bits of the data bitmap, padding included. -/
theorem BitmapsFit.data_bit {i : Nat} (hi : i < 8 * ((pageCount s .data + 7) / 8)) :
    bit (bitmapMemory image s) (dataBitmapAt s) i = (decide (i = pageCount s .data - 1) ||
      (decide (i < (bitmapTop s).toNat / 4096) ||
        (decide (32768 ≤ i) && bit s.data (dataBitmapAt s) i))) := by
  have hroom := h.room
  have hle := pageCount_le s .data
  have hcb := h.codeBitmap_toNat
  have hdb := h.dataBitmap_toNat
  have htop := h.bitmapTop_toNat
  have hcode := bitmapPages_pos h.code_pos
  have hbytes := bitmapPages_bytes (pageCount s .data)
  have hbytes' := bitmapPages_bytes (pageCount s .code)
  have hcount : (image.kernelCodeSize / pageSize).toNat = image.kernelCodeSize.toNat / 4096 :=
    BitVec.toNat_udiv
  have hpages : pageCount s .code = s.segmentsInfo.codeSegment.len.toNat / 4096 := rfl
  have hfit := h.code_fits
  have hoff : (byteAt (dataBitmapAt s) i - codeBitmapAt s).toNat =
      4096 * bitmapPages (pageCount s .code) + i / 8 := by
    rw [byteAt]
    bv_omega
  have hlast := h.last_toNat
  rw [bitmapMemory, bit_markFirst_other (by omega) (by omega), dataMarked,
    bit_markUsed _ _ (by omega) (by omega),
      bit_markFirst (by rw [usedPages_toNat]; omega) (by omega),
    clearedBitmaps, bit_clearPage _ _ (by omega), bit_fill_far _ (by omega), hlast, usedPages_toNat]

theorem BitmapsFit.code_bit {i : Nat} (hi : i < 8 * ((pageCount s .code + 7) / 8)) :
    bit (bitmapMemory image s) (codeBitmapAt s) i =
      (decide (i < image.kernelCodeSize.toNat / 4096) ||
        (decide (32768 ≤ i) && bit s.data (codeBitmapAt s) i)) := by
  have hroom := h.room
  have hle := pageCount_le s .data
  have hcb := h.codeBitmap_toNat
  have hdb := h.dataBitmap_toNat
  have htop := h.bitmapTop_toNat
  have hbytes := bitmapPages_bytes (pageCount s .data)
  have hbytes' := bitmapPages_bytes (pageCount s .code)
  have hlast := h.last_toNat
  have hcount : (image.kernelCodeSize / pageSize).toNat = image.kernelCodeSize.toNat / 4096 :=
    BitVec.toNat_udiv
  have hpages : pageCount s .code = s.segmentsInfo.codeSegment.len.toNat / 4096 := rfl
  have hle' := pageCount_le s .code
  have hfit := h.code_fits
  -- seen from the data bitmap, the code bitmap is at the far end of the address space
  have hoff : 4096 * bitmapPages (pageCount s .data) ≤
      (byteAt (codeBitmapAt s) i - dataBitmapAt s).toNat := by
    rw [byteAt]
    bv_omega
  have hbelow : byteAt (codeBitmapAt s) i ≠ byteAt (dataBitmapAt s) (dataPages s - 1).toNat := by
    intro he
    have hlow : (byteAt (dataBitmapAt s) (dataPages s - 1).toNat - dataBitmapAt s).toNat =
        (dataPages s - 1).toNat / 8 := by
      rw [byteAt]
      bv_omega
    rw [← he] at hlow
    omega
  have hdata := bitmapPages_pos (by omega : 0 < pageCount s .data)
  rw [bitmapMemory, bit_markFirst (by omega) (by omega), hcount, dataMarked, markUsed,
    PackedBits.bit_write8_other _ _ hbelow,
    bit_markFirst_other (by rw [usedPages_toNat]; omega) (by rw [usedPages_toNat]; omega),
    clearedBitmaps, bit_fill_far _ (by omega), bit_clearPage _ _ (by omega)]

theorem BitmapsFit.testBit_data {i : Nat} (hi : i < pageCount s .data) :
    (bitmapState image s).testBit (dataBitmapAt s) (BitVec.ofNat 32 i) =
      .ok (bit (bitmapMemory image s) (dataBitmapAt s) i) := by
  have hroom := h.room
  have hle := pageCount_le s .data
  have hlim := dataLimit_toNat s
  have hdb := h.dataBitmap_toNat
  have hbytes := bitmapPages_bytes (pageCount s .data)
  have hp : (bitmapState image s).pagingEnabled = false := h.disabled
  have hin : (dataBitmapAt s).toNat + i / 8 ≤
      (bitmapState image s).segmentsInfo.dataSegment.limit.toNat := by
    change _ ≤ s.segmentsInfo.dataSegment.limit.toNat
    omega
  have htest := testBit_of_disabled hp (by omega) hin
  rwa [bitmapState, withBitmaps_data] at htest

theorem BitmapsFit.testBit_code {i : Nat} (hi : i < pageCount s .code) :
    (bitmapState image s).testBit (codeBitmapAt s) (BitVec.ofNat 32 i) =
      .ok (bit (bitmapMemory image s) (codeBitmapAt s) i) := by
  have hroom := h.room
  have hle := pageCount_le s .code
  have hlim := dataLimit_toNat s
  have hcb := h.codeBitmap_toNat
  have hbytes := bitmapPages_bytes (pageCount s .code)
  have hp : (bitmapState image s).pagingEnabled = false := h.disabled
  have hin : (codeBitmapAt s).toNat + i / 8 ≤
      (bitmapState image s).segmentsInfo.dataSegment.limit.toNat := by
    change _ ≤ s.segmentsInfo.dataSegment.limit.toNat
    omega
  have htest := testBit_of_disabled hp (by omega) hin
  rwa [bitmapState, withBitmaps_data] at htest

end

end

/-- The bitmaps are whole pages one behind the other, from the kernel data to
`data_top_address`, with a bit for each page of their segments. -/
structure BitmapsPlaced (image : KernelImage) (s s' : State) : Prop where
  initialized : s'.memoryBitmapInitialized = true
  code_size : s'.memoryBitmap.codeSize.toNat = pageCount s .code
  data_size : s'.memoryBitmap.dataSize.toNat = pageCount s .data
  behind_data : image.kernelDataSize.toNat ≤ s'.memoryBitmap.codeBitmap.toNat
  code_aligned : s'.memoryBitmap.codeBitmap.toNat % 4096 = 0
  code_room : s'.memoryBitmap.codeBitmap.toNat + (pageCount s .code + 7) / 8 ≤
    s'.memoryBitmap.dataBitmap.toNat
  data_aligned : s'.memoryBitmap.dataBitmap.toNat % 4096 = 0
  data_room : s'.memoryBitmap.dataBitmap.toNat + (pageCount s .data + 7) / 8 ≤
    s'.dataTopAddress.toNat
  top_aligned : s'.dataTopAddress.toNat % 4096 = 0
  below_stack : s'.dataTopAddress.toNat + 4096 ≤ 4096 * pageCount s .data

/-- `test_bit` answers for every page whether it is used at boot. -/
structure PagesMarked (image : KernelImage) (s s' : State) : Prop where
  data : ∀ i < pageCount s .data, s'.testBit s'.memoryBitmap.dataBitmap (BitVec.ofNat 32 i) =
    .ok (decide (i < s'.dataTopAddress.toNat / 4096 ∨ i = pageCount s .data - 1))
  code : ∀ i < pageCount s .code, s'.testBit s'.memoryBitmap.codeBitmap (BitVec.ofNat 32 i) =
    .ok (decide (i < image.kernelCodeSize.toNat / 4096))

/-- Behind the first page of each bitmap, memory has no bit set for a page that is not
used at boot. -/
structure NoStaleBits (image : KernelImage) (s : State) : Prop where
  data : ∀ i, 32768 ≤ i → (bitmapTop s).toNat / 4096 ≤ i → i < pageCount s .data - 1 →
    bit s.data (dataBitmapAt s) i = false
  code : ∀ i, 32768 ≤ i → image.kernelCodeSize.toNat / 4096 ≤ i → i < pageCount s .code →
    bit s.data (codeBitmapAt s) i = false

/-- Segments of up to 128 MiB need one page each. -/
theorem noStaleBits_of_small {image : KernelImage} {s : State} (h : ∀ k, pageCount s k ≤ 32768) :
    NoStaleBits image s where
  data := fun i hi _ hlt => absurd hlt (by have hk := h .data; omega)
  code := fun i hi _ hlt => absurd hlt (by have hk := h .code; omega)

section

variable {image : KernelImage} {s : State}

theorem BitmapsFit.placed (h : BitmapsFit image s) :
    BitmapsPlaced image s (bitmapState image s) where
  initialized := rfl
  code_size := codePages_toNat s
  data_size := dataPages_toNat s
  behind_data := h.codeBitmap_toNat.ge
  code_aligned := h.codeBitmap_toNat ▸ image.data_aligned
  code_room := by
    have hbytes := bitmapPages_bytes (pageCount s .code)
    change (codeBitmapAt s).toNat + _ ≤ (dataBitmapAt s).toNat
    rw [h.codeBitmap_toNat, h.dataBitmap_toNat]
    omega
  data_aligned := by
    have haligned := image.data_aligned
    change (dataBitmapAt s).toNat % 4096 = 0
    rw [h.dataBitmap_toNat]
    omega
  data_room := by
    have hbytes := bitmapPages_bytes (pageCount s .data)
    change (dataBitmapAt s).toNat + _ ≤ (bitmapTop s).toNat
    rw [h.dataBitmap_toNat, h.bitmapTop_toNat]
    omega
  top_aligned := by
    have haligned := image.data_aligned
    change (bitmapTop s).toNat % 4096 = 0
    rw [h.bitmapTop_toNat]
    omega
  below_stack := by
    have hroom := h.room
    change (bitmapTop s).toNat + 4096 ≤ _
    rw [h.bitmapTop_toNat]
    exact hroom

theorem BitmapsFit.marked_iff (h : BitmapsFit image s) :
    PagesMarked image s (bitmapState image s) ↔ NoStaleBits image s := by
  have hdata : ∀ i < pageCount s .data, i < 8 * ((pageCount s .data + 7) / 8) :=
    fun i hi => by omega
  have hcode : ∀ i < pageCount s .code, i < 8 * ((pageCount s .code + 7) / 8) :=
    fun i hi => by omega
  constructor
  · intro h
    obtain ⟨hd, hc⟩ := h
    refine ⟨fun i hi htop hlt => ?_, fun i hi hused hlt => ?_⟩
    · have htest := (h.testBit_data (by omega)).symm.trans (hd i (by omega))
      have hbit := Except.ok.inj htest
      rw [h.data_bit (hdata i (by omega)), decide_eq_false (by omega), decide_eq_false (by omega),
        decide_eq_true hi] at hbit
      refine hbit.trans (decide_eq_false ?_)
      change ¬ (i < (bitmapTop s).toNat / 4096 ∨ _)
      omega
    · have htest := (h.testBit_code hlt).symm.trans (hc i hlt)
      have hbit := Except.ok.inj htest
      rw [h.code_bit (hcode i hlt), decide_eq_false (by omega), decide_eq_true hi] at hbit
      exact hbit
  · intro h
    obtain ⟨hd, hc⟩ := h
    refine ⟨fun i hi => (h.testBit_data hi).trans (congrArg _ ?_),
      fun i hi => (h.testBit_code hi).trans (congrArg _ ?_)⟩
    · rw [h.data_bit (hdata i hi)]
      by_cases hlast : i = pageCount s .data - 1
      · rw [decide_eq_true hlast, Bool.true_or]
        exact (decide_eq_true (Or.inr hlast)).symm
      · by_cases hused : i < (bitmapTop s).toNat / 4096
        · rw [decide_eq_true hused, Bool.true_or, Bool.or_true]
          exact (decide_eq_true (Or.inl hused)).symm
        · have hnot : ¬ (i < (bitmapTop s).toNat / 4096 ∨ i = pageCount s .data - 1) := by omega
          rw [decide_eq_false hlast, decide_eq_false hused, Bool.false_or, Bool.false_or]
          refine Eq.trans ?_ (decide_eq_false hnot).symm
          by_cases hi' : 32768 ≤ i
          · rw [hd i hi' (by omega) (by omega), Bool.and_false]
          · rw [decide_eq_false hi', Bool.false_and]
    · rw [h.code_bit (hcode i hi)]
      by_cases hused : i < image.kernelCodeSize.toNat / 4096
      · rw [decide_eq_true hused, Bool.true_or]
      · rw [decide_eq_false hused, Bool.false_or]
        by_cases hi' : 32768 ≤ i
        · rw [hc i hi' (by omega) hi, Bool.and_false]
        · rw [decide_eq_false hi', Bool.false_and]

/-- The bitmaps are always well placed; their bits are right exactly when the memory
behind their first pages was clean. -/
theorem bitmaps_marked_iff (h : BitmapsFit image s) : ∃ s', s.initMemoryBitmap image = .ok s' ∧
    BitmapsPlaced image s s' ∧ (PagesMarked image s s' ↔ NoStaleBits image s) :=
  ⟨_, h.initMemoryBitmap_eq, h.placed, h.marked_iff⟩

end

/-- 4096 code pages and `len` bytes of data, every byte of memory 0xFF. -/
def onesMachine (len : U32int) : State where
  memory := fun _ => 0xFF
  pagingEnabled := false
  cr3 := 0
  segmentsInfo := ⟨⟨0x20000000, 0x1000000⟩, ⟨0x400000, len⟩, ⟨videoBaseAddr, 0xFA0⟩, ⟨0, 0⟩⟩
  memoryBitmap := ⟨0, 0, 0, 0⟩
  memoryBitmapInitialized := false
  dataTopAddress := 0x2000
  kernelPageDirectory := 0
  pageTablesRelVirtAddr := 0
  heapStartRelVirtAddr := 0
  heapBrk := 0
  heapSize := 0
  moduleInfo := ⟨false, false, false, 0, 0, 0, 0, 0⟩

theorem onesMachine_fits : ∀ len ∈ [0x1000000, 0x9000000],
    BitmapsFit linkedImage (onesMachine len) := by
  intro len hlen
  simp only [List.mem_cons, List.not_mem_nil, or_false] at hlen
  rcases hlen with rfl | rfl <;> exact ⟨rfl, rfl, by decide, by decide, by decide⟩

theorem bitmaps_marked_small : ∃ s', (onesMachine 0x1000000).initMemoryBitmap linkedImage = .ok s' ∧
    PagesMarked linkedImage (onesMachine 0x1000000) s' := by
  obtain ⟨s', hs', -, hiff⟩ := bitmaps_marked_iff (onesMachine_fits 0x1000000 (by decide))
  refine ⟨s', hs', hiff.mpr (noStaleBits_of_small fun k => ?_)⟩
  cases k <;> decide

/-- With 144 MiB of data the page 32768 comes up used. -/
theorem stalePage_marked : BitmapsFit linkedImage (onesMachine 0x9000000) ∧
    ∃ s', (onesMachine 0x9000000).initMemoryBitmap linkedImage = .ok s' ∧
      s'.testBit s'.memoryBitmap.dataBitmap 32768 = .ok true ∧
      ¬ PagesMarked linkedImage (onesMachine 0x9000000) s' := by
  have h := onesMachine_fits 0x9000000 (by decide)
  have hbit : bit (bitmapMemory linkedImage (onesMachine 0x9000000))
      (dataBitmapAt (onesMachine 0x9000000)) 32768 = true := by
    rw [h.data_bit (by decide)]
    decide
  have htest := (h.testBit_data (by decide : 32768 < pageCount (onesMachine 0x9000000) .data)).trans
    (congrArg _ hbit)
  refine ⟨h, _, h.initMemoryBitmap_eq, htest, fun hmarked => ?_⟩
  have hwant := htest.symm.trans (hmarked.data 32768 (by decide))
  exact absurd (Except.ok.inj hwant) (by decide)

end SimpleOs.Audit.BitmapBoot
