import SimpleOs.Audit.BitmapBoot

/-!
# Allocation from a full segment

The scan looks at whole bytes. The bits behind the last page are clear after
`init_memory_bitmap`, so that a full segment is reported as such only when its page
count fills the last byte.
-/

namespace SimpleOs.Audit.FullBitmap

open SimpleOs.Kernel SimpleOs.Lib SimpleOs.Lib.ByteMemory
open SimpleOs.Lib.PackedBits (bit byteAt)
open SimpleOs.Audit.KernelAccess SimpleOs.Audit.PageBitmap SimpleOs.Audit.BitmapBoot

/-- The bits of the last byte behind the last page. -/
def Padding (s : State) (k : Kind) (i : Nat) : Prop :=
  pageCount s k ≤ i ∧ i < 8 * bitmapBytes s k

section

variable {image : KernelImage} {s : State} {a : U32int}

/-- Where the bitmaps were placed they stay until paging is turned on. -/
theorem placed_of_disabled (h : BitmapsFit image s) {s' : State} (hp : s'.pagingEnabled = false)
    (hi : s'.memoryBitmapInitialized = true) (hsegments : s'.segmentsInfo = s.segmentsInfo)
    (hbitmaps : s'.memoryBitmap = (bitmapState image s).memoryBitmap) :
    Placed s' (codeBitmapAt s + s.dataBase) := by
  have hcb := h.codeBitmap_toNat
  have hdb := h.dataBitmap_toNat
  have hlim := dataLimit_toNat s
  have hroom := h.room
  have hbytes := bitmapPages_bytes (pageCount s .data)
  have hbytes' := bitmapPages_bytes (pageCount s .code)
  have hle := pageCount_le s .data
  have hgap : (dataBitmapAt s - codeBitmapAt s).toNat = 4096 * bitmapPages (pageCount s .code) := by
    bv_omega
  have hcount : ∀ k, pageCount s' k = pageCount s k := fun k => by
    cases k <;> simp only [pageCount, hsegments]
  have hcode : s'.memoryBitmap.codeBitmap = codeBitmapAt s := by rw [hbitmaps]; rfl
  have hdata : s'.memoryBitmap.dataBitmap = dataBitmapAt s := by rw [hbitmaps]; rfl
  have hbase : s'.dataBase = s.dataBase := by rw [State.dataBase, State.dataBase, hsegments]
  refine ⟨hi, ?_, ?_, ?_, ?_, ?_⟩
  · rw [hbitmaps, hcount]
    exact codePages_toNat s
  · rw [hbitmaps, hcount]
    exact dataPages_toNat s
  · rw [hcode, hdata, bitmapBytes, hcount]
    omega
  · rw [hcode, hdata, bitmapBytes, hcount]
    omega
  · rw [hcode, hdata, bitmapBytes, hcount, ← hbase]
    refine State.plainAt_of_disabled hp ?_
    rw [hsegments]
    omega

theorem placed_withData (h : BitmapsFit image s) (m : Memory) :
    Placed ((bitmapState image s).withData m) (codeBitmapAt s + s.dataBase) :=
  placed_of_disabled h h.disabled rfl rfl rfl

/-- Seen from the base of the data segment. -/
theorem bit_bitmapAddr (s : State) (k : Kind) (i : Nat) :
    bit s.memory (bitmapAddr s (s.memoryBitmap.codeBitmap + s.dataBase) k) i =
      bit s.data (bitmapOf s k) i := by
  have haddr : bitmapAddr s (s.memoryBitmap.codeBitmap + s.dataBase) k =
      bitmapOf s k + s.dataBase := by
    cases k with
    | code => rfl
    | data =>
      rw [bitmapAddr, bitmapOf]
      bv_omega
  rw [haddr, bit_data]

/-- A padding bit is left over from before, and only behind the first page. -/
theorem padding_bit (h : BitmapsFit image s) {k : Kind} {i : Nat} (hi : Padding s k i) :
    bit (bitmapState image s).data (bitmapOf (bitmapState image s) k) i =
      (decide (32768 ≤ i) && bit s.data (bitmapOf (bitmapState image s) k) i) := by
  obtain ⟨hlow, hhigh⟩ := hi
  have hroom := h.room
  have htop := h.bitmapTop_toNat
  have hfit := h.code_fits
  have hpages : pageCount s .code = s.segmentsInfo.codeSegment.len.toNat / 4096 := rfl
  rw [bitmapState, withBitmaps_data]
  cases k with
  | code =>
    refine (h.code_bit hhigh).trans ?_
    rw [decide_eq_false (by omega), Bool.false_or]
    rfl
  | data =>
    refine (h.data_bit hhigh).trans ?_
    rw [decide_eq_false (by omega), decide_eq_false (by omega), Bool.false_or, Bool.false_or]
    rfl

end

/-- A state of a machine whose bitmaps were initialised in `s0`, at any later time: the
bitmaps are in place, every page of the segment is used, and the padding bits are as
they were left. -/
structure Exhausted (image : KernelImage) (s0 s1 s : State) (a : U32int) (k : Kind) : Prop where
  fits : BitmapsFit image s0
  boot : s0.initMemoryBitmap image = .ok s1
  segments : s.segmentsInfo = s0.segmentsInfo
  placed : Placed s a
  used : ∀ i < pageCount s k, bit s.memory (bitmapAddr s a k) i = true
  padding : ∀ i, Padding s k i →
    bit s.memory (bitmapAddr s a k) i = bit s1.data (bitmapOf s1 k) i

/-- `alloc_page` answers NULL and leaves both bitmaps alone. -/
def ReportsFull (s : State) (a : U32int) (k : Kind) : Prop :=
  ∃ s', allocOf s k = .ok (null, s') ∧ ∀ k' i, i < 8 * bitmapBytes s k' →
    bit s'.memory (bitmapAddr s a k') i = bit s.memory (bitmapAddr s a k') i

section

variable {image : KernelImage} {s0 s1 s : State} {a : U32int} {k : Kind}

theorem Exhausted.pageCount_eq (h : Exhausted image s0 s1 s a k) (k' : Kind) :
    pageCount s k' = pageCount s0 k' := by
  cases k' <;> simp only [pageCount, h.segments]

/-- Whether every byte of the bitmap is full decides between NULL and the assertion. -/
theorem Exhausted.alloc_eq (h : Exhausted image s0 s1 s a k) :
    allocOf s k = if ∀ i < 8 * bitmapBytes s k, bit s.memory (bitmapAddr s a k) i = true
      then .ok (null, s) else .error .assertion := by
  have hpos : 0 < pageCount s .code := by
    rw [h.pageCount_eq]
    exact h.fits.code_pos
  have hsize := h.placed.bitmapSize hpos k
  have hplain := h.placed.bitmap_plain k
  have hle := pageCount_le s k
  have hbytes : ((s.bitmapSize (bitmapOf s k)).toNat + 7) / 8 = bitmapBytes s k := by
    rw [hsize, bitmapBytes]
  rw [allocOf_eq]
  cases hscan : PackedBits.clearFrom s.memory (bitmapAddr s a k) 0 (bitmapBytes s k) with
  | none =>
    have hfull := PackedBits.clearFrom_none hscan
    rw [if_pos fun i hi => hfull i (by omega) (by omega)]
    exact State.allocPage_of_full rfl (by rwa [hbytes]) (by rwa [hbytes])
  | some j =>
    obtain ⟨-, hj, hclear, -⟩ := PackedBits.clearFrom_some hscan
    have hout : ¬ j < pageCount s k := fun hlt => by
      rw [h.used j hlt] at hclear
      cases hclear
    have hnot : ¬ ∀ i < 8 * bitmapBytes s k,
        bit s.memory (bitmapAddr s a k) i = true := fun hall => by
      rw [hall j (by omega)] at hclear
      cases hclear
    rw [if_neg hnot, State.allocPage_of_scan h.placed.initialized rfl (by omega) (by rwa [hbytes])
      (by rwa [hbytes]), if_neg (by omega)]

/-- Full bytes are those whose padding bits memory held already. -/
theorem Exhausted.full_iff (h : Exhausted image s0 s1 s a k) :
    (∀ i < 8 * bitmapBytes s k, bit s.memory (bitmapAddr s a k) i = true) ↔
      ∀ i, Padding s0 k i → 32768 ≤ i ∧ bit s0.data (bitmapOf s1 k) i = true := by
  have hs1 : s1 = bitmapState image s0 :=
    Except.ok.inj (h.boot.symm.trans h.fits.initMemoryBitmap_eq)
  subst hs1
  have hpad : ∀ i, Padding s k i ↔ Padding s0 k i := fun i => by
    rw [Padding, Padding, bitmapBytes, bitmapBytes, h.pageCount_eq]
  have hbit : ∀ i, Padding s0 k i → (bit s.memory (bitmapAddr s a k) i = true ↔
      32768 ≤ i ∧ bit s0.data (bitmapOf (bitmapState image s0) k) i = true) := fun i hi => by
    rw [h.padding i ((hpad i).mpr hi), padding_bit h.fits hi, Bool.and_eq_true, decide_eq_true_eq]
  constructor
  · intro hfull i hi
    exact (hbit i hi).mp (hfull i ((hpad i).mpr hi).2)
  · intro hstale i hi
    by_cases hlt : i < pageCount s k
    · exact h.used i hlt
    · have hi' : Padding s0 k i := (hpad i).mp ⟨by omega, hi⟩
      exact (hbit i hi').mpr (hstale i hi')

/-- A full segment is reported exactly if there are no padding bits, or all of them were
set by what memory held behind the first page of the bitmap. Otherwise the assertion
fires. -/
theorem reportsFull_iff (h : Exhausted image s0 s1 s a k) :
    (ReportsFull s a k ↔ pageCount s0 k % 8 = 0 ∨
      ∀ i, Padding s0 k i → 32768 ≤ i ∧ bit s0.data (bitmapOf s1 k) i = true) ∧
    (¬ ReportsFull s a k → allocOf s k = .error .assertion) := by
  have halloc := h.alloc_eq
  have hfull := h.full_iff
  have hmultiple : pageCount s0 k % 8 = 0 → ∀ i, ¬ Padding s0 k i := fun h8 i hi => by
    rw [Padding, bitmapBytes] at hi
    omega
  by_cases hall : ∀ i < 8 * bitmapBytes s k, bit s.memory (bitmapAddr s a k) i = true
  · have hreport : ReportsFull s a k := ⟨s, halloc.trans (if_pos hall), fun _ _ _ => rfl⟩
    exact ⟨iff_of_true hreport (.inr (hfull.mp hall)), fun hno => absurd hreport hno⟩
  · have hassert := halloc.trans (if_neg hall)
    have hno : ¬ ReportsFull s a k := by
      intro h
      obtain ⟨s', hs', -⟩ := h
      rw [hassert] at hs'
      cases hs'
    refine ⟨iff_of_false hno ?_, fun _ => hassert⟩
    intro h
    rcases h with h8 | hstale
    · exact hall (hfull.mpr fun i hi => absurd hi (hmultiple h8 i))
    · exact hall (hfull.mpr hstale)

end

/-- The machine after its boot with every page of the data segment marked. -/
def exhaustedMachine (len : U32int) : State :=
  let s := bitmapState linkedImage (onesMachine len)
  s.withData (markFirst s.data (dataBitmapAt (onesMachine len)) (pageCount (onesMachine len) .data))

theorem exhaustedMachine_exhausted {len : U32int} (h : BitmapsFit linkedImage (onesMachine len)) :
    Exhausted linkedImage (onesMachine len) (bitmapState linkedImage (onesMachine len))
      (exhaustedMachine len) (codeBitmapAt (onesMachine len) + 0x400000) .data := by
  have hle := pageCount_le (onesMachine len) .data
  have hbits : ∀ i < 2^20, bit (exhaustedMachine len).memory
      (bitmapAddr (exhaustedMachine len) (codeBitmapAt (onesMachine len) + 0x400000) .data) i =
      (decide (i < pageCount (onesMachine len) .data) ||
        bit (bitmapState linkedImage (onesMachine len)).data
            (dataBitmapAt (onesMachine len)) i) := by
    intro i hi
    refine (bit_bitmapAddr (exhaustedMachine len) .data i).trans ?_
    rw [exhaustedMachine, State.withData_data]
    exact bit_markFirst hle.le hi
  refine ⟨h, h.initMemoryBitmap_eq, rfl, placed_withData h _, fun i hi => ?_, fun i hi => ?_⟩
  · have hlt : i < pageCount (onesMachine len) .data := hi
    rw [hbits i (by omega), decide_eq_true hlt, Bool.true_or]
  · have hlow : pageCount (onesMachine len) .data ≤ i := hi.1
    have hhigh : i < 8 * ((pageCount (onesMachine len) .data + 7) / 8) := hi.2
    rw [hbits i (by omega), decide_eq_false (by omega), Bool.false_or]
    rfl

theorem reportsFull_even : ReportsFull (exhaustedMachine 0x1000000)
    (codeBitmapAt (onesMachine 0x1000000) + 0x400000) .data :=
  (reportsFull_iff (exhaustedMachine_exhausted (onesMachine_fits 0x1000000 (by decide)))).1.mpr
    (.inl (by decide))

/-- With 4097 data pages the scan finds bit 4097 clear, and the assertion fires. -/
theorem oddSegment_asserts : BitmapsFit linkedImage (onesMachine 0x1001000) ∧
    allocOf (exhaustedMachine 0x1001000) .data = .error .assertion ∧
    ¬ ∀ (image : KernelImage) (s0 s1 s : State) (a : U32int) (k : Kind),
      Exhausted image s0 s1 s a k → ReportsFull s a k := by
  have hfits : BitmapsFit linkedImage (onesMachine 0x1001000) := by
    refine ⟨rfl, rfl, ?_, ?_, ?_⟩ <;> decide
  have h := exhaustedMachine_exhausted hfits
  have hnot : ¬ ∀ i < 8 * bitmapBytes (exhaustedMachine 0x1001000) .data,
      bit (exhaustedMachine 0x1001000).memory (bitmapAddr (exhaustedMachine 0x1001000)
        (codeBitmapAt (onesMachine 0x1001000) + 0x400000) .data) i = true := fun hfull => by
    have hstale := (h.full_iff.mp hfull 4097 ⟨by decide, by decide⟩).1
    omega
  have hassert := h.alloc_eq.trans (if_neg hnot)
  refine ⟨hfits, hassert, fun hall => ?_⟩
  obtain ⟨s', hs', -⟩ := hall _ _ _ _ _ _ h
  rw [hassert] at hs'
  cases hs'

end SimpleOs.Audit.FullBitmap
