import SimpleOs.Kernel.KBitmap

/-!
# `memory_manager.c`

The page bitmaps of the code and the data segment. A page is handed out as its
offset in the segment; offset 0 is also the failure value.
-/

namespace SimpleOs.Kernel

open SimpleOs.Lib SimpleOs.Lib.ByteMemory
open SimpleOs.Lib.PackedBits (byteAt bit mask clearFrom)

/-- The absolute symbols of the linker script, all placed by `ALIGN(4K)`. -/
structure KernelImage where
  loaderSize : U32int
  kernelCodeSize : U32int
  kernelDataSize : U32int
  code_aligned : kernelCodeSize.toNat % 4096 = 0
  data_aligned : kernelDataSize.toNat % 4096 = 0

/-- Their values in `output/kernel/kernel.dbg`. -/
def linkedImage : KernelImage := ⟨0x1000, 0x5000, 0x2000, rfl, rfl⟩

/-- Pages that hold `size` bytes, as the bitmaps and the module loader count them. -/
def pageCountOf (size : U32int) : U32int :=
  if size % pageSize ≠ 0 then size / pageSize + 1 else size / pageSize

theorem pageCountOf_toNat (size : U32int) :
    (pageCountOf size).toNat = (size.toNat + 4095) / 4096 := by
  unfold pageCountOf
  split_ifs with h <;>
    simp only [ne_eq, pageSize, bitvec_to_nat, Nat.reducePow, Nat.reduceMod] at h ⊢ <;> omega

/-- Masking with `0xFFFFF000` rounds down to a page. -/
theorem pageMask_toNat (x : U32int) : (x &&& 0xFFFFF000).toNat = x.toNat / 4096 * 4096 := by
  have hmask : ∀ i < 32, (0xFFFFF000 : U32int).getLsbD i = decide (12 ≤ i) := by decide
  have hshift : x &&& (0xFFFFF000 : U32int) = x >>> 12 <<< 12 := by
    refine BitVec.eq_of_getLsbD_eq fun i hi => ?_
    rw [BitVec.getLsbD_and, hmask i hi, BitVec.getLsbD_shiftLeft, BitVec.getLsbD_ushiftRight]
    by_cases h : 12 ≤ i
    · simp [h, hi, Nat.not_lt.mpr h, show 12 + (i - 12) = i by omega]
    · simp [h, Nat.lt_of_not_le h]
  have hx := x.isLt
  simp only [hshift, BitVec.toNat_shiftLeft, BitVec.toNat_ushiftRight, Nat.shiftRight_eq_div_pow,
    Nat.shiftLeft_eq]
  omega

def videoBaseAddr : U32int := 0xB8000
def screenWide : U32int := 80
def screenHigh : U32int := 25

namespace State

def initSegmentsInfo (s : State) (codeBaseAddr codeSegmentLen dataBaseAddr dataSegmentLen
    moduleBaseAddr moduleSegmentLen : U32int) : State :=
  { s with segmentsInfo := {
      codeSegment := ⟨codeBaseAddr, codeSegmentLen⟩
      dataSegment := ⟨dataBaseAddr, dataSegmentLen⟩
      videoSegment := ⟨videoBaseAddr, screenWide * screenHigh * 2⟩
      moduleSegment := ⟨moduleBaseAddr, moduleSegmentLen⟩ } }

/-- The bitmap is recognised by its address. -/
def bitmapSize (s : State) (bitmap : U32int) : U32int :=
  if bitmap = s.memoryBitmap.codeBitmap then s.memoryBitmap.codeSize else s.memoryBitmap.dataSize

def allocPage (s : State) (bitmap : U32int) : Except Trap (U32int × State) := do
  if s.memoryBitmapInitialized then
    let bitmapIndex ← s.firstClearBit bitmap (s.bitmapSize bitmap)
    if bitmapIndex ≠ -1 then
      let relFreePageAddress := bitmapIndex * pageSize
      assert (bitmapIndex < s.bitmapSize bitmap && 0 ≤ bitmapIndex)
      let s ← s.setBit bitmap bitmapIndex
      return (relFreePageAddress, s)
    else return (null, s)
  else return (null, s)

def freePage (s : State) (relAddress bitmap : U32int) : Except Trap (Bool × State) := do
  assert (relAddress % pageSize == 0)
  if s.memoryBitmapInitialized then
    let bitmapIndex := relAddress / pageSize
    if bitmapIndex < s.bitmapSize bitmap then
      let s ← s.clearBit bitmap bitmapIndex
      return (true, s)
    else return (false, s)
  else return (false, s)

def allocCodePage (s : State) : Except Trap (U32int × State) :=
  s.allocPage s.memoryBitmap.codeBitmap

def allocDataPage (s : State) : Except Trap (U32int × State) :=
  s.allocPage s.memoryBitmap.dataBitmap

def freeCodePage (s : State) (relAddress : U32int) : Except Trap (Bool × State) :=
  s.freePage relAddress s.memoryBitmap.codeBitmap

def freeDataPage (s : State) (relAddress : U32int) : Except Trap (Bool × State) :=
  s.freePage relAddress s.memoryBitmap.dataBitmap

/-- `data_top_address` starts as `kernel_data_size`. Only the first page of each
bitmap is cleared. -/
def initMemoryBitmap (image : KernelImage) (s : State) : Except Trap State := do
  let codePagesCount := s.segmentsInfo.codeSegment.len / pageSize
  let codeBitmap := s.dataTopAddress
  let s ← s.memset codeBitmap 0x0 4096
  let dataBitmap := s.dataTopAddress + pageSize * pageCountOf (bitmapInBytes codePagesCount)
  let dataPagesCount := s.segmentsInfo.dataSegment.len / pageSize
  let s := { s with
    memoryBitmap := ⟨codeBitmap, dataBitmap, codePagesCount, dataPagesCount⟩
    dataTopAddress := dataBitmap + pageSize * pageCountOf (bitmapInBytes dataPagesCount) }
  let s ← s.memset dataBitmap 0x0 4096
  assert (s.dataTopAddress % pageSize == 0)
  let usedDataPages := s.dataTopAddress / pageSize
  let s ← s.forLoop (· < usedDataPages) 1 0 fun index s => s.setBit dataBitmap index
  let s ← s.setBit dataBitmap (dataPagesCount - 1)
  let usedCodePages := image.kernelCodeSize / pageSize
  let s ← s.forLoop (· < usedCodePages) 1 0 fun index s => s.setBit codeBitmap index
  return { s with memoryBitmapInitialized := true }

def initMemoryManager (image : KernelImage) (s : State) (codeBaseAddr codeSegmentLen dataBaseAddr
    dataSegmentLen moduleBaseAddr moduleSegmentLen : U32int) : Except Trap State :=
  (s.initSegmentsInfo codeBaseAddr codeSegmentLen dataBaseAddr dataSegmentLen moduleBaseAddr
    moduleSegmentLen).initMemoryBitmap image

/-- Memory after setting one bit of the bitmap at physical address `a`. -/
def markUsed (m : Memory) (a : U32int) (k : Nat) : Memory :=
  write8 m (byteAt a k) (m (byteAt a k) ||| mask (k % 8))

def markFree (m : Memory) (a : U32int) (k : Nat) : Memory :=
  write8 m (byteAt a k) (m (byteAt a k) &&& ~~~mask (k % 8))

variable {s : State} {bitmap a : U32int}

/-- What `alloc_page` does with the first clear bit `k` of an initialised
bitmap: the assertion lets through only pages of the segment. -/
theorem allocPage_of_scan (hi : s.memoryBitmapInitialized = true) {size : U32int}
    (hsize : s.bitmapSize bitmap = size) (hmax : size.toNat < 2^31)
    (hp : s.PlainAt bitmap a ((size.toNat + 7) / 8)) {k : Nat}
    (hk : clearFrom s.memory a 0 ((size.toNat + 7) / 8) = some k) :
    s.allocPage bitmap = if k < size.toNat then
      .ok (BitVec.ofNat 32 (k * 4096), s.withMemory (markUsed s.memory a k))
      else .error .assertion := by
  obtain ⟨-, hlt, -, -⟩ := PackedBits.clearFrom_some hk
  have hkn : (BitVec.ofNat 32 k).toNat = k := by
    rw [BitVec.toNat_ofNat, Nat.mod_eq_of_lt (by omega)]
  have hne : BitVec.ofNat 32 k ≠ -1 := by
    intro h
    have h' := congrArg BitVec.toNat h
    rw [hkn] at h'
    simp at h'
    omega
  have hcmp : (decide (BitVec.ofNat 32 k < size) && decide (0 ≤ BitVec.ofNat 32 k)) =
      decide (k < size.toNat) := by
    have hlt : BitVec.ofNat 32 k < size ↔ k < size.toNat := by rw [BitVec.lt_def, hkn]
    have hle : (0 : U32int) ≤ BitVec.ofNat 32 k := Nat.zero_le _
    simp only [hlt, hle, decide_true, Bool.and_true]
  simp only [allocPage, hi, if_true, hsize, firstClearBit_of_plain hp, hk, ok_bind, scanResult,
    ne_eq, hne, not_false_eq_true, hcmp]
  by_cases hin : k < size.toNat
  · have hset := setBit_of_plain hp (BitVec.ofNat 32 k) (by rw [hkn]; omega)
    rw [hkn] at hset
    have hmul : BitVec.ofNat 32 k * pageSize = BitVec.ofNat 32 (k * 4096) :=
      (BitVec.ofNat_mul ..).symm
    simp only [hin, decide_true, assert, if_true, ok_bind, hset, pure_ok, markUsed, hmul]
  · simp only [hin, decide_false, assert, if_false, error_bind, Bool.false_eq_true]

/-- A full bitmap, padding bits included, is reported as NULL. -/
theorem allocPage_of_full {size : U32int} (hsize : s.bitmapSize bitmap = size)
    (hp : s.PlainAt bitmap a ((size.toNat + 7) / 8))
    (hk : clearFrom s.memory a 0 ((size.toNat + 7) / 8) = none) :
    s.allocPage bitmap = .ok (null, s) := by
  unfold allocPage
  split_ifs with hi
  · simp only [hsize, firstClearBit_of_plain hp, hk, ok_bind, scanResult, ne_eq,
      not_true_eq_false, if_false, pure_ok]
  · rfl

/-- `alloc_page` comes back with NULL and nothing changed, or with the least
page of the segment whose bit was clear, now marked used. -/
theorem allocPage_cases {size : U32int} (hsize : s.bitmapSize bitmap = size)
    (hmax : size.toNat < 2^31) (hp : s.PlainAt bitmap a ((size.toNat + 7) / 8)) {p : U32int}
    {s' : State} (h : s.allocPage bitmap = .ok (p, s')) :
    (p = null ∧ s' = s) ∨
    ∃ k, k < size.toNat ∧ p = BitVec.ofNat 32 (k * 4096) ∧ bit s.memory a k = false ∧
      (∀ i < k, bit s.memory a i = true) ∧ s' = s.withMemory (markUsed s.memory a k) := by
  cases hi : s.memoryBitmapInitialized with
  | false =>
    simp only [allocPage, hi, Bool.false_eq_true, if_false, pure_ok] at h
    cases h
    exact Or.inl ⟨rfl, rfl⟩
  | true =>
    cases hk : clearFrom s.memory a 0 ((size.toNat + 7) / 8) with
    | none =>
      rw [allocPage_of_full hsize hp hk] at h
      cases h
      exact Or.inl ⟨rfl, rfl⟩
    | some k =>
      rw [allocPage_of_scan hi hsize hmax hp hk] at h
      obtain ⟨-, -, hc, hs⟩ := PackedBits.clearFrom_some hk
      split_ifs at h with hin
      cases h
      exact Or.inr ⟨k, hin, rfl, hc, fun i hik => hs i (Nat.zero_le _) hik, rfl⟩

theorem freePage_of_held (hi : s.memoryBitmapInitialized = true) {size : U32int}
    (hsize : s.bitmapSize bitmap = size) (hmax : size.toNat ≤ 2^20)
    (hp : s.PlainAt bitmap a ((size.toNat + 7) / 8)) {k : Nat} (hk : k < size.toNat) :
    s.freePage (BitVec.ofNat 32 (k * 4096)) bitmap =
      .ok (true, s.withMemory (markFree s.memory a k)) := by
  have hkn : (BitVec.ofNat 32 (k * 4096)).toNat = k * 4096 := by
    rw [BitVec.toNat_ofNat, Nat.mod_eq_of_lt (by omega)]
  have hin : (BitVec.ofNat 32 k).toNat = k := by
    rw [BitVec.toNat_ofNat, Nat.mod_eq_of_lt (by omega)]
  have hmod : BitVec.ofNat 32 (k * 4096) % pageSize = 0 := by
    apply BitVec.eq_of_toNat_eq
    simp [hkn, BitVec.toNat_umod]
  have hdiv : BitVec.ofNat 32 (k * 4096) / pageSize = BitVec.ofNat 32 k := by
    apply BitVec.eq_of_toNat_eq
    rw [BitVec.toNat_udiv, hkn, hin]
    exact Nat.mul_div_cancel k (by decide)
  have hlt : BitVec.ofNat 32 k < size := by rw [BitVec.lt_def, hin]; exact hk
  have hclr := clearBit_of_plain hp (BitVec.ofNat 32 k) (by rw [hin]; omega)
  rw [hin] at hclr
  simp only [freePage, hmod, assert, beq_self_eq_true, if_true, ok_bind, hi, hdiv, hsize, hlt,
    hclr, pure_ok, markFree]

end State

end SimpleOs.Kernel
