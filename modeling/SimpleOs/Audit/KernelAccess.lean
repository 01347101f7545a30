import SimpleOs.Audit.PageTables

/-!
# Reaching the tables from kernel code

With paging off the kernel reaches a table at its physical address, with paging
on through the window. `Live` says what the second needs: CR3 on the directory,
kernel data mapped to itself and the window inside the segment limit. Under it
both ways end at the same bytes.
-/

namespace SimpleOs.Audit.KernelAccess

open SimpleOs.Kernel SimpleOs.Lib SimpleOs.Lib.ByteMemory SimpleOs.Audit.PageTables
open SimpleOs.Kernel.State (markUsed)
open SimpleOs.Lib.PackedBits (bit)

structure WindowMode (s : State) : Prop where
  cr3 : s.pagingEnabled = true → s.cr3 = dirRoot s
  window_limit : s.pagingEnabled = true →
    s.pageTablesRelVirtAddr.toNat + 0x400000 ≤ s.segmentsInfo.dataSegment.limit.toNat + 1

structure KernelMapped (s : State) (t : TableMap) : Prop where
  cr3 : s.pagingEnabled = true → s.cr3 = dirRoot s
  kernel : s.pagingEnabled = true → ∀ q, q.toNat < s.kernelPageDirectory.toNat + 8192 →
    ∃ p, t (tableIndex (q + s.dataBase)) = some p ∧
      Maps (entryAt s.data (p + 4 * pageIndex (q + s.dataBase)))
        ((q + s.dataBase) / pageSize * pageSize)

structure Live (s : State) (t : TableMap) : Prop extends WindowMode s, KernelMapped s t

theorem live_of_disabled {s : State} {t : TableMap} (hp : s.pagingEnabled = false) : Live s t := by
  refine ⟨⟨?_, ?_⟩, ?_⟩ <;> intro h <;> rw [hp] at h <;> cases h

section

variable {s : State} {t : TableMap} {p q : U32int}

theorem segmentPages_limit (s : State) :
    4096 * segmentPages s ≤ s.segmentsInfo.dataSegment.limit.toNat + 1 := by
  rw [Segment.limit_toNat, segmentPages]
  omega

/-- Kernel data lies below the window, so under another directory entry. -/
theorem kernel_index_ne (h : Layout s) (hq : q.toNat < s.kernelPageDirectory.toNat + 8192) :
    tableIndex (q + s.dataBase) ≠ windowIndexOf s := by
  have hstart := h.window_start
  have habove := h.window_above
  have hlt := tableIndex_lt (s.pageTablesRelVirtAddr + s.dataBase)
  change (windowIndexOf s).toNat < 1024 at hlt
  intro he
  have he' := congrArg BitVec.toNat he
  rw [tableIndex_toNat, BitVec.toNat_add] at he'
  omega

theorem dataAddr_kernel (h : Walks s t) (hk : KernelMapped s t)
    (hq : q.toNat < s.kernelPageDirectory.toNat + 8192) : s.dataAddr q = .ok (q + s.dataBase) := by
  have hlim := segmentPages_limit s
  have hend := h.dir_end
  have hle : q ≤ s.segmentsInfo.dataSegment.limit := by rw [BitVec.le_def]; omega
  cases hp : s.pagingEnabled with
  | false => exact State.dataAddr_of_disabled hp hle
  | true =>
    obtain ⟨p, ht, hm⟩ := hk.kernel hp q hq
    have hw := h.walk_eq (q + s.dataBase)
    rw [ht, Option.bind_some, hm.visible, ← hk.cr3 hp] at hw
    have hround : (q + s.dataBase) / pageSize * pageSize + (q + s.dataBase) % pageSize =
        q + s.dataBase := by
      apply BitVec.eq_of_toNat_eq
      simp only [pageSize, bitvec_to_nat, Nat.reducePow, Nat.reduceMod]
      omega
    have hbase : s.segmentsInfo.dataSegment.base = s.dataBase := rfl
    simp only [State.dataAddr, State.segAddr, hle, if_true, State.translate, hp, hbase, hw,
      hm.frame, hround]

theorem kernel_resolves (h : Walks s t) (hk : KernelMapped s t) {n : Nat}
    (hq : q.toNat + n ≤ s.kernelPageDirectory.toNat + 8192) :
    s.ResolvesTo q (q + s.dataBase) n := by
  have hend := h.dir_end
  have hlen := segmentPages_le s
  intro k hkn
  have hqk : (q + k).toNat < s.kernelPageDirectory.toNat + 8192 := by
    simp only [bitvec_to_nat, Nat.reducePow]
    omega
  rw [dataAddr_kernel h hk hqk, add_right_comm]

theorem WindowMode.withData (hm : WindowMode s) (m : Memory) : WindowMode (s.withData m) :=
  ⟨hm.cr3, hm.window_limit⟩

/-- Only the entries that map kernel data matter. -/
theorem Live.withData (hl : Live s t) {m : Memory}
    (hpt : ∀ q p, q.toNat < s.kernelPageDirectory.toNat + 8192 →
      t (tableIndex (q + s.dataBase)) = some p → ∀ j, j.toNat < 1024 →
      read32 m (p + 4 * j) = read32 s.data (p + 4 * j)) : Live (s.withData m) t where
  toWindowMode := hl.toWindowMode.withData m
  kernel := fun hp q hq => by
    obtain ⟨p, ht, hm⟩ := hl.kernel hp q hq
    refine ⟨p, ht, ?_⟩
    rw [entryAt, State.withData_data, State.withData_dataBase, hpt q p hq ht _ (pageIndex_lt _)]
    exact hm

theorem Live.mono (hl : Live s t) {t' : TableMap} (h : ∀ i p, t i = some p → t' i = some p) :
    Live s t' where
  toWindowMode := hl.toWindowMode
  kernel := fun hp q hq => by
    obtain ⟨p, ht, hm⟩ := hl.kernel hp q hq
    exact ⟨p, h _ p ht, hm⟩

/-- Memory that differs from kernel data at most in the data bitmap. -/
def BitmapOnly (s : State) (m : Memory) : Prop :=
  ∀ x, (segmentPages s + 7) / 8 ≤ (x - s.memoryBitmap.dataBitmap).toNat → m x = s.data x

theorem BitmapOnly.read32 (h : Layout s) {m : Memory} (hm : BitmapOnly s m) {a : U32int}
    (ha : s.kernelPageDirectory.toNat ≤ a.toNat) (ha' : a.toNat + 4 ≤ 4096 * segmentPages s) :
    read32 m a = read32 s.data a := by
  have hb := h.bitmap_end
  have hlen := segmentPages_le s
  apply read32_congr
  intro k hk
  exact hm _ (by bv_omega)

theorem BitmapOnly.tables (h : Tables s t) {m : Memory} (hm : BitmapOnly s m) :
    Tables (s.withData m) t := by
  have hend := h.dir_end
  refine h.withData (fun i hi => ?_) (fun i hi => ?_) fun w hw i hi _ => ?_
  · have hc := h.pdCell_toNat hi
    exact hm.read32 h.toLayout (by omega) (by omega)
  · have hc := h.ptrCell_toNat hi
    exact hm.read32 h.toLayout (by omega) (by omega)
  · have hp := h.page _ w hw
    have hc := hp.cell_toNat hi
    have habove := hp.above
    have hin := hp.inside
    have hpa := hp.aligned
    exact hm.read32 h.toLayout (by omega) (by omega)

theorem BitmapOnly.live (h : Tables s t) (hl : Live s t) {m : Memory} (hm : BitmapOnly s m) :
    Live (s.withData m) t := by
  refine hl.withData fun q p _ ht j hj => ?_
  have hp := h.page _ p ht
  have hc := hp.cell_toNat hj
  have habove := hp.above
  have hin := hp.inside
  have hpa := hp.aligned
  exact hm.read32 h.toLayout (by omega) (by omega)

/-- The bitmap stays in place whatever is marked in it. -/
theorem bitmap_plain (h : Tables s t) (hl : Live s t) :
    s.PlainAt s.memoryBitmap.dataBitmap (s.memoryBitmap.dataBitmap + s.dataBase)
      ((segmentPages s + 7) / 8) := by
  intro m hm
  have hb := h.bitmap_end
  have hm' : BitmapOnly s (fromBase m s.dataBase) := fun x hx =>
    hm _ (by rwa [add_sub_add_right_eq_sub])
  rw [State.withMemory_eq_withData]
  exact kernel_resolves (hm'.tables h).toWalks (hm'.live h hl).toKernelMapped
    (by change s.memoryBitmap.dataBitmap.toNat + _ ≤ s.kernelPageDirectory.toNat + 8192; omega)

theorem bit_data (s : State) (a : U32int) (i : Nat) :
    bit s.memory (a + s.dataBase) i = bit s.data a i := by
  simp only [bit, PackedBits.byteAt, State.data, fromBase, add_right_comm]

theorem markUsed_data (s : State) (a : U32int) (k : Nat) :
    s.withMemory (markUsed s.memory (a + s.dataBase) k) = s.withData (markUsed s.data a k) := by
  have hbyte : PackedBits.byteAt (a + s.dataBase) k = PackedBits.byteAt a k + s.dataBase :=
    add_right_comm ..
  rw [State.withMemory_eq_withData, markUsed, hbyte, fromBase_write8]
  rfl

/-- Memory after page `k` has been marked in the data bitmap. -/
def marked (s : State) (k : Nat) : Memory := markUsed s.data s.memoryBitmap.dataBitmap k

theorem bitmapOnly_marked (h : Layout s) {k : Nat} (hk : k < segmentPages s) :
    BitmapOnly s (marked s k) := by
  intro x hx
  have hb := h.bitmap_end
  refine write8_of_ne _ _ ?_
  intro he
  subst he
  rw [PackedBits.byteAt] at hx
  bv_omega

theorem bit_markUsed (m : Memory) (a : U32int) {k i : Nat} (hk : k < 2^20) (hi : i < 2^20) :
    bit (markUsed m a k) a i = (decide (i = k) || bit m a i) :=
  PackedBits.bit_set m a (by omega) (by omega)

/-- Page `p` is handed out: its bit is set, and nothing else happens. -/
structure Takes (s : State) (p : U32int) (m : Memory) : Prop where
  alloc : s.allocDataPage = .ok (p, s.withData m)
  only : BitmapOnly s m
  aligned : p.toNat % 4096 = 0
  inside : p.toNat + 4096 ≤ 4096 * segmentPages s
  free : bit s.data s.memoryBitmap.dataBitmap (p.toNat / 4096) = false
  bits : ∀ i < segmentPages s, bit m s.memoryBitmap.dataBitmap i =
    (decide (i = p.toNat / 4096) || bit s.data s.memoryBitmap.dataBitmap i)

/-- `alloc_data_page` fails without a trace or takes a free page. -/
theorem allocDataPage_cases (h : Tables s t) (hl : Live s t) {s' : State}
    (ha : s.allocDataPage = .ok (p, s')) : (p = null ∧ s' = s) ∨
    ∃ m, s' = s.withData m ∧ Takes s p m := by
  have hsize := h.bitmap_size
  have hlen := segmentPages_le s
  have hplain := bitmap_plain h hl
  rcases State.allocPage_cases rfl (by omega) (by rwa [hsize]) ha with hn | ⟨k, hk, hp, hc, -, rfl⟩
  · exact Or.inl hn
  · rw [hsize] at hk
    rw [bit_data] at hc
    have hpk : p.toNat = k * 4096 := by
      rw [hp, BitVec.toNat_ofNat, Nat.mod_eq_of_lt (by omega)]
    have hdiv : p.toNat / 4096 = k := by omega
    have hdata := markUsed_data s s.memoryBitmap.dataBitmap k
    refine Or.inr ⟨marked s k, hdata, ?_,
      bitmapOnly_marked h.toLayout hk, by omega, by omega, ?_, ?_⟩
    · rw [ha]
      exact congrArg _ (congrArg _ hdata)
    · rw [hdiv]
      exact hc
    · intro i hi
      rw [hdiv]
      exact bit_markUsed _ _ (by omega) (by omega)

theorem dataAddr_window (h : Walks s t) (hm : WindowMode s) (hp : s.pagingEnabled = true)
    {i k : U32int} (hi : i.toNat < 1024) (ht : t i = some p) (hk : k.toNat < 4096) :
    s.dataAddr (s.pageTablesRelVirtAddr + i * pageSize + k) = .ok (p + k + s.dataBase) := by
  have hlim := hm.window_limit hp
  have hlin := h.toLayout.windowAddr_toNat hi hk
  obtain ⟨e, hw, hf⟩ := h.walk_window hi ht hk
  have hle : s.pageTablesRelVirtAddr + i * pageSize + k ≤ s.segmentsInfo.dataSegment.limit := by
    simp only [BitVec.le_def, pageSize, bitvec_to_nat, Nat.reducePow, Nat.reduceMod] at hlim ⊢
    omega
  have hoff : windowAddr s i k % pageSize = k := by
    apply BitVec.eq_of_toNat_eq
    rw [BitVec.toNat_umod, hlin, show pageSize.toNat = 4096 from rfl]
    omega
  have hbase : s.segmentsInfo.dataSegment.base = s.dataBase := rfl
  have haddr : s.pageTablesRelVirtAddr + i * pageSize + k + s.dataBase = windowAddr s i k := rfl
  simp only [State.dataAddr, State.segAddr, hle, if_true, State.translate, hp, hbase, haddr,
    hm.cr3 hp, hw, hf, hoff]
  rw [add_right_comm]

theorem dataAddr_page (hp : s.pagingEnabled = false) (ht : IsTablePage s p) {k : U32int}
    (hk : k.toNat < 4096) : s.dataAddr (p + k) = .ok (p + k + s.dataBase) := by
  have hin := ht.inside
  have hlim := segmentPages_limit s
  exact State.dataAddr_of_disabled hp (by bv_omega)

/-- Address `get_pt_entry` uses for byte `k` of table `i`. -/
def tablePtr (s : State) (i p k : U32int) : U32int :=
  if s.pagingEnabled then s.pageTablesRelVirtAddr + i * pageSize + k else p + k

/-- Both modes reach the same bytes of the table. -/
theorem tablePtr_addr (h : Walks s t) (hm : WindowMode s) {i k : U32int} (hi : i.toNat < 1024)
    (ht : t i = some p) (hk : k.toNat < 4096) :
    s.dataAddr (tablePtr s i p k) = .ok (p + k + s.dataBase) := by
  unfold tablePtr
  split_ifs with hp
  · exact dataAddr_window h hm hp hi ht hk
  · exact dataAddr_page (by simpa using hp) (h.page i p ht) hk

theorem tablePtr_add (s : State) (i p k l : U32int) :
    tablePtr s i p k + l = tablePtr s i p (k + l) := by
  unfold tablePtr
  split_ifs <;> ring

theorem tablePtr_resolves (h : Walks s t) (hm : WindowMode s) {i k : U32int} (hi : i.toNat < 1024)
    (ht : t i = some p) {n : Nat} (hk : k.toNat + n ≤ 4096) :
    s.ResolvesTo (tablePtr s i p k) (p + k + s.dataBase) n := by
  intro l hll
  rw [tablePtr_add, tablePtr_addr h hm hi ht (by bv_omega)]
  congr 1
  ring

/-- The window starts above kernel data and ends below 4 GiB. -/
theorem windowPtr_ne_null (h : Layout s) {i k : U32int} (hi : i.toNat < 1024)
    (hk : k.toNat < 4096) : s.pageTablesRelVirtAddr + i * pageSize + k ≠ null := by
  have hrel := h.window_above
  have hstart := h.window_start
  have hlt := tableIndex_lt (s.pageTablesRelVirtAddr + s.dataBase)
  change (windowIndexOf s).toNat < 1024 at hlt
  intro he
  have he' := congrArg BitVec.toNat he
  simp only [null, pageSize, bitvec_to_nat, Nat.reducePow, Nat.reduceMod] at he'
  omega

theorem tablePtr_ne_null (h : Walks s t) {i k : U32int} (hi : i.toNat < 1024) (ht : t i = some p)
    (hk : k.toNat < 4096) : tablePtr s i p k ≠ null := by
  have habove := (h.page i p ht).above
  have hin := (h.page i p ht).inside
  have hlen := segmentPages_le s
  unfold tablePtr
  split_ifs
  · exact windowPtr_ne_null h.toLayout hi hk
  · intro he
    have he' := congrArg BitVec.toNat he
    simp only [null, bitvec_to_nat, Nat.reducePow, Nat.reduceMod] at he'
    omega

end

end SimpleOs.Audit.KernelAccess
