import SimpleOs.Audit.PagingBoot

/-!
# The supply of pages

The free pages of each segment in the order in which `alloc_page` hands them out.
Both bitmaps are kernel data below the directory, so marking a page never moves a
table.
-/

namespace SimpleOs.Audit.PageSupply

open SimpleOs.Kernel SimpleOs.Lib SimpleOs.Lib.ByteMemory SimpleOs.Audit.PageTables
open SimpleOs.Audit.KernelAccess SimpleOs.Audit.MapCalls SimpleOs.Audit.PagingBoot
open SimpleOs.Kernel.State (markUsed)
open SimpleOs.Lib.PackedBits (bit byteAt freeList)

section

variable (s : State)

def dataFree : List Nat := freeList s.data s.memoryBitmap.dataBitmap (segmentPages s)
def codePages : Nat := s.segmentsInfo.codeSegment.len.toNat / 4096
def codeFree : List Nat := freeList s.data s.memoryBitmap.codeBitmap (codePages s)

/-- Both bitmaps are in use, the code bitmap before the data bitmap. -/
structure Supply : Prop where
  initialized : s.memoryBitmapInitialized = true
  size : s.memoryBitmap.codeSize.toNat = codePages s
  bitmap_end : s.memoryBitmap.codeBitmap.toNat + (codePages s + 7) / 8 ≤
    s.memoryBitmap.dataBitmap.toNat

/-- Memory that differs from kernel data at most below the directory. -/
def BelowDir (m : Memory) : Prop := ∀ x, s.kernelPageDirectory.toNat ≤ x.toNat → m x = s.data x

end

section

variable {s : State} {t : TableMap} {m : Memory}

theorem Supply.withData (h : Supply s) (m : Memory) : Supply (s.withData m) :=
  ⟨h.initialized, h.size, h.bitmap_end⟩

theorem codePages_lt (s : State) : codePages s < 2^20 := by
  have h := s.segmentsInfo.codeSegment.len.isLt
  unfold codePages
  omega

theorem segmentPages_lt (s : State) : segmentPages s < 2^20 := by
  have h := segmentPages_le s
  omega

theorem BelowDir.read32 (hm : BelowDir s m) {a : U32int}
    (ha : s.kernelPageDirectory.toNat ≤ a.toNat)
    (ha' : a.toNat + 4 ≤ 2^32) : read32 m a = read32 s.data a := by
  apply read32_congr
  intro k hk
  exact hm _ (by bv_omega)

theorem BelowDir.tables (h : Tables s t) (hm : BelowDir s m) : Tables (s.withData m) t := by
  have hend := h.dir_end
  have hlen := segmentPages_le s
  refine h.withData (fun i hi => ?_) (fun i hi => ?_) fun w hw i hi _ => ?_
  · have hc := h.pdCell_toNat hi
    exact hm.read32 (by omega) (by omega)
  · have hc := h.ptrCell_toNat hi
    exact hm.read32 (by omega) (by omega)
  · have hp := h.page _ w hw
    have hc := hp.cell_toNat hi
    have habove := hp.above
    have hin := hp.inside
    exact hm.read32 (by omega) (by omega)

theorem BelowDir.live (h : Tables s t) (hl : Live s t) (hm : BelowDir s m) :
    Live (s.withData m) t := by
  have hlen := segmentPages_le s
  refine hl.withData fun q p _ ht j hj => ?_
  have hp := h.page _ p ht
  have hc := hp.cell_toNat hj
  have habove := hp.above
  have hin := hp.inside
  exact hm.read32 (by omega) (by omega)

/-- Kernel data below the directory stays in place whatever is written to it. -/
theorem kernel_plain (h : Tables s t) (hl : Live s t) {q : U32int} {n : Nat}
    (hq : q.toNat + n ≤ s.kernelPageDirectory.toNat) : s.PlainAt q (q + s.dataBase) n := by
  intro m hm
  have hbelow : BelowDir s (fromBase m s.dataBase) := by
    intro x hx
    refine hm _ ?_
    rw [add_sub_add_right_eq_sub]
    bv_omega
  rw [State.withMemory_eq_withData]
  exact kernel_resolves (hbelow.tables h).toWalks (hbelow.live h hl).toKernelMapped
    (by change q.toNat + n ≤ s.kernelPageDirectory.toNat + 8192; omega)

/-- An initialised bitmap hands out the first free page. -/
theorem allocPage_of_free {bitmap : U32int} {n k : Nat} {rest : List Nat}
    (hi : s.memoryBitmapInitialized = true) (hsize : (s.bitmapSize bitmap).toNat = n)
    (hn : n < 2^20) (hp : s.PlainAt bitmap (bitmap + s.dataBase) ((n + 7) / 8))
    (hfree : freeList s.data bitmap n = k :: rest) :
    s.allocPage bitmap = .ok (pageAt k, s.withData (markUsed s.data bitmap k)) := by
  obtain ⟨hk, hclear, hused⟩ := PackedBits.freeList_head hfree
  have hleast : IsLeast {i | bit s.memory (bitmap + s.dataBase) i = false} k := by
    constructor
    · exact (bit_data s _ k).trans hclear
    · intro i hc
      by_contra hlt
      have hu := hused i (by omega)
      rw [← bit_data, hc] at hu
      cases hu
  have hscan := PackedBits.clearFrom_isLeast (n := (n + 7) / 8) hleast (by omega)
  rw [← hsize] at hp hscan hk
  rw [State.allocPage_of_scan hi rfl (by omega) hp hscan, if_pos hk, markUsed_data]
  rfl

theorem belowDir_marked {bitmap : U32int} {n k : Nat}
    (hend : bitmap.toNat + (n + 7) / 8 ≤ s.kernelPageDirectory.toNat) (hk : k < n) :
    BelowDir s (markUsed s.data bitmap k) := by
  intro x hx
  refine write8_of_ne _ _ ?_
  intro he
  subst he
  rw [byteAt] at hx
  bv_omega

/-- Marking a page in one bitmap keeps the bits of another one above or below it. -/
theorem bit_markUsed_other (m : Memory) {p q : U32int} {k n i l : Nat} (hk : k < n) (hi : i < l)
    (hp : p.toNat + (n + 7) / 8 ≤ 2^32) (hq : q.toNat + (l + 7) / 8 ≤ 2^32)
    (h : p.toNat + (n + 7) / 8 ≤ q.toNat ∨ q.toNat + (l + 7) / 8 ≤ p.toNat) :
    bit (markUsed m p k) q i = bit m q i := by
  refine PackedBits.bit_write8_other m _ ?_
  rw [byteAt, byteAt]
  bv_omega

section

variable (h : Tables s t) (hl : Live s t) (hs : Supply s) {k : Nat} {rest : List Nat}

include h hl hs

/-- The first free data page is handed out, and no code page with it. -/
theorem allocDataPage_of_free (hf : dataFree s = k :: rest) :
    Takes s (pageAt k) (marked s k) ∧ dataFree (s.withData (marked s k)) = rest ∧
      codeFree (s.withData (marked s k)) = codeFree s := by
  have hsize := h.bitmap_size
  have hlt := segmentPages_lt s
  have hend := h.bitmap_end
  have hcend := hs.bitmap_end
  have hdir := h.dir_end
  have hlen := segmentPages_le s
  obtain ⟨hk, hclear, -⟩ := PackedBits.freeList_head hf
  have hpage : (pageAt k).toNat = 4096 * k := pageAt_toNat hk
  have hdiv : (pageAt k).toNat / 4096 = k := by omega
  have hbits : ∀ i < segmentPages s, bit (marked s k) s.memoryBitmap.dataBitmap i =
      (decide (i = k) || bit s.data s.memoryBitmap.dataBitmap i) := fun i hi =>
    bit_markUsed _ _ (by omega) (by omega)
  refine ⟨⟨allocPage_of_free hs.initialized hsize hlt (kernel_plain h hl (by omega)) hf,
    bitmapOnly_marked h.toLayout hk, by omega, by omega, ?_, ?_⟩, ?_, ?_⟩
  · rw [hdiv]
    exact hclear
  · rw [hdiv]
    exact hbits
  · rw [dataFree, State.withData_data]
    exact PackedBits.freeList_mark hf hbits
  · rw [codeFree, codeFree, State.withData_data]
    change freeList (marked s k) s.memoryBitmap.codeBitmap (codePages s) = _
    exact PackedBits.freeList_congr fun i hi =>
      bit_markUsed_other s.data hk hi (by omega) (by omega) (.inr hcend)

/-- Memory after code page `k` has been marked. -/
theorem allocCodePage_of_free (hf : codeFree s = k :: rest) :
    s.allocCodePage = .ok (pageAt k, s.withData (markUsed s.data s.memoryBitmap.codeBitmap k)) ∧
      codeFree (s.withData (markUsed s.data s.memoryBitmap.codeBitmap k)) = rest ∧
      ∀ i < segmentPages s, bit (markUsed s.data s.memoryBitmap.codeBitmap k)
        s.memoryBitmap.dataBitmap i = bit s.data s.memoryBitmap.dataBitmap i := by
  have hlt := codePages_lt s
  have hend := h.bitmap_end
  have hcend := hs.bitmap_end
  have hdir := h.dir_end
  have hlen := segmentPages_le s
  obtain ⟨hk, hclear, -⟩ := PackedBits.freeList_head hf
  have hsize : (s.bitmapSize s.memoryBitmap.codeBitmap).toNat = codePages s := by
    rw [State.bitmapSize, if_pos rfl]
    exact hs.size
  refine ⟨allocPage_of_free hs.initialized hsize hlt (kernel_plain h hl (by omega)) hf, ?_, ?_⟩
  · rw [codeFree, State.withData_data]
    change freeList _ s.memoryBitmap.codeBitmap (codePages s) = _
    exact PackedBits.freeList_mark hf fun i hi => bit_markUsed _ _ (by omega) (by omega)
  · exact fun i hi => bit_markUsed_other s.data hk hi (by omega) (by omega) (.inl hcend)

end

end

end SimpleOs.Audit.PageSupply
