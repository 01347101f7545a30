import SimpleOs.Audit.KernelBoot

/-!
# A page table in page 0

When no data page is left, `get_pt_entry` takes the NULL it is given for the page of
the new table. The table of page tables, the pointer array and the directory get their
entries, page 0 of kernel data is cleared, and the mapping goes into it.
-/

namespace SimpleOs.Audit.NullTable

open SimpleOs.Kernel SimpleOs.Lib SimpleOs.Lib.ByteMemory SimpleOs.Audit.PageTables
open SimpleOs.Audit.KernelAccess SimpleOs.Audit.MapCalls SimpleOs.Audit.PagingBoot
open SimpleOs.Audit.AddressSpace SimpleOs.Audit.PageSupply SimpleOs.Audit.Bookkeeping
open SimpleOs.Audit.KernelBoot
open SimpleOs.Lib.PackedBits (bit byteAt)

section

variable {s : State} {t : TableMap} {m : Memory} {w i k q rel f : U32int}

/-- Two entries suffice for the walk. -/
theorem walk_of_entries (h : Layout s) {lin p : U32int}
    (hpde : Maps (entryAt s.data (pdCell s (tableIndex lin))) (p + s.dataBase))
    (hpte : Maps (entryAt s.data (p + 4 * pageIndex lin)) f) :
    ∃ e, walk s.memory (dirRoot s) lin = some e ∧ e.frame = f := by
  refine ⟨entryAt s.data (p + 4 * pageIndex lin), ?_, hpte.frame⟩
  simp only [walk, h.walk_pde, hpde.present, hpde.frame, walk_pte,
    hpte.present, Bool.and_self, if_true]

theorem dataAddr_of_walk (hp : s.pagingEnabled = true) (hcr3 : s.cr3 = dirRoot s)
    (hlim : rel ≤ s.segmentsInfo.dataSegment.limit)
    (hwalk : ∃ e, walk s.memory (dirRoot s) (rel + s.dataBase) = some e ∧ e.frame = f) :
    s.dataAddr rel = .ok (f + (rel + s.dataBase) % pageSize) := by
  obtain ⟨e, hw, hf⟩ := hwalk
  have hbase : s.segmentsInfo.dataSegment.base = s.dataBase := rfl
  simp only [State.dataAddr, State.segAddr, hlim, if_true, State.translate, hp, hbase, hcr3, hw, hf]

/-- The directory does not begin in page 0. -/
theorem dir_pos (h : Layout s) : 4096 ≤ s.kernelPageDirectory.toNat := by
  have hend := h.bitmap_end
  have hdir := h.dir_end
  have halign := h.dir_aligned
  omega

/-- Memory that differs at most in page 0. -/
def AboveZero (m m' : Memory) : Prop := ∀ x : U32int, 4096 ≤ x.toNat → m' x = m x

theorem AboveZero.read32 {m m' : Memory} (hm : AboveZero m m') {c : U32int} (hc : 4096 ≤ c.toNat)
    (hc' : c.toNat + 4 ≤ 2^32) : read32 m' c = read32 m c := by
  apply read32_congr
  intro k hk
  exact hm _ (by bv_omega)

section

variable (h : Tables s t) (hl : Live s t) (hw : t (windowIndexOf s) = some w) (hi : i.toNat < 1024)
  (ht : t i = none) (hm : AboveZero (linked s w i null) m)

include h hw hi ht hm

/-- The entries of the other tables are as they were. -/
theorem pde_other (hk : k.toNat < 1024) {p : U32int} (hp : t k = some p) :
    Maps (entryAt (s.withData m).data (pdCell (s.withData m) k)) (p + (s.withData m).dataBase) := by
  have hpos := dir_pos h.toLayout
  have hc := h.pdCell_toNat hk
  have hend := h.dir_end
  have hlen := segmentPages_le s
  have hne : k ≠ i := by
    intro he
    subst he
    rw [ht] at hp
    cases hp
  have hread : read32 m (pdCell s k) = read32 s.data (pdCell s k) := by
    rw [hm.read32 (by omega) (by omega), linked_pdCell h hw hi hk, if_neg hne]
  rw [State.withData_data]
  change Maps (PagingEntry.ofWord (read32 m (pdCell s k))) _
  rw [hread]
  exact h.pde_some k p hk hp

include hl

/-- Kernel data stay mapped. -/
theorem kernel_addr (hp : s.pagingEnabled = true)
    (hq : q.toNat < s.kernelPageDirectory.toNat + 8192) :
    (s.withData m).dataAddr q = .ok (q + s.dataBase) := by
  have hlive := (linkPageTable_eq (p := null) h hl hw hi ht).2
  obtain ⟨p, hpt, hmaps⟩ := hlive.kernel hp q hq
  change t (tableIndex (q + s.dataBase)) = some p at hpt
  have hpage := h.page _ p hpt
  have hidx := pageIndex_lt (q + s.dataBase)
  have hc := hpage.cell_toNat hidx
  have habove := hpage.above
  have hinside := hpage.inside
  have hlen := segmentPages_le s
  have hlim := segmentPages_limit s
  have hend := h.dir_end
  have hpte : Maps (entryAt (s.withData m).data (p + 4 * pageIndex (q + s.dataBase)))
      ((q + s.dataBase) / pageSize * pageSize) := by
    rw [State.withData_data, entryAt, hm.read32 (by omega) (by omega)]
    rwa [State.withData_data] at hmaps
  have hwalk := walk_of_entries (h.toLayout.withData m)
    (pde_other h hw hi ht hm (tableIndex_lt (q + s.dataBase)) hpt) hpte
  have haddr := dataAddr_of_walk (s := s.withData m) hp (hl.toWindowMode.cr3 hp)
    (BitVec.le_def.mpr (by change _ ≤ s.segmentsInfo.dataSegment.limit.toNat; omega)) hwalk
  rw [haddr]
  congr 1
  apply BitVec.eq_of_toNat_eq
  simp only [State.withData_dataBase, pageSize, bitvec_to_nat, Nat.reducePow, Nat.reduceMod]
  omega

/-- The window shows page 0 as the new table. -/
theorem window_addr (hp : s.pagingEnabled = true) (hk : k.toNat < 4096) :
    (s.withData m).dataAddr (s.pageTablesRelVirtAddr + i * pageSize + k) =
      .ok (k + s.dataBase) := by
  have hwlt : (windowIndexOf s).toNat < 1024 := tableIndex_lt _
  have hpage := h.page _ w hw
  have hc := hpage.cell_toNat hi
  have habove := hpage.above
  have hinside := hpage.inside
  have hlen := segmentPages_le s
  have hpos := dir_pos h.toLayout
  have hlin := h.toLayout.windowAddr_toNat hi hk
  have hwindow := hl.toWindowMode.window_limit hp
  have hpte : Maps (entryAt (s.withData m).data (w + 4 * i)) (s.dataBase + null) := by
    rw [State.withData_data, entryAt, hm.read32 (by omega) (by omega),
      linked_window h hw hi hi, if_pos rfl]
    refine maps_ptEntry true false ?_
    rw [add_zero]
    exact h.base_aligned
  have hpde := pde_other h hw hi ht hm hwlt hw
  rw [← h.toLayout.tableIndex_window hi hk] at hpde
  rw [← h.toLayout.pageIndex_window hi hk] at hpte
  have hwalk := walk_of_entries (h.toLayout.withData m) hpde hpte
  have hle : s.pageTablesRelVirtAddr + i * pageSize + k ≤ s.segmentsInfo.dataSegment.limit := by
    simp only [BitVec.le_def, pageSize, bitvec_to_nat, Nat.reducePow, Nat.reduceMod] at hwindow ⊢
    omega
  have haddr := dataAddr_of_walk (s := s.withData m) hp (hl.toWindowMode.cr3 hp) hle hwalk
  have hoff : windowAddr s i k % pageSize = k := by
    apply BitVec.eq_of_toNat_eq
    rw [BitVec.toNat_umod, hlin, show pageSize.toNat = 4096 from rfl]
    omega
  rw [haddr]
  change Except.ok (s.dataBase + null + windowAddr s i k % pageSize) = _
  rw [hoff, add_zero, add_comm]

/-- Address of byte `k` of the table, through the window or at the NULL pointer itself. -/
theorem nullPtr_addr (hk : k.toNat < 4096) :
    (s.withData m).dataAddr (tablePtr s i null k) = .ok (k + s.dataBase) := by
  unfold tablePtr
  split_ifs with hp
  · exact window_addr h hl hw hi ht hm hp hk
  · have hlim := segmentPages_limit s
    have hend := h.dir_end
    have hoff : s.pagingEnabled = false := by simpa using hp
    rw [show null + k = k from zero_add k]
    exact State.dataAddr_of_disabled (s := s.withData m) hoff
      (by change k.toNat ≤ s.segmentsInfo.dataSegment.limit.toNat; omega)

end

section

variable (h : Tables s t) (hl : Live s t) (hw : t (windowIndexOf s) = some w) (hi : i.toNat < 1024)
  (ht : t i = none)

include h hl hw hi ht

theorem nullPtr_plain :
    (s.withData (linked s w i null)).PlainAt (tablePtr s i null 0) (null + s.dataBase) 4096 := by
  have hzero : null + s.dataBase = s.dataBase := zero_add _
  intro m hm k hk
  rw [hzero] at hm ⊢
  have habove : AboveZero (linked s w i null) (fromBase m s.dataBase) := fun x hx => by
    have hmx := hm (x + s.dataBase) (by rwa [add_sub_cancel_right])
    rw [← State.withData_data s (linked s w i null)]
    exact hmx
  rw [tablePtr_add, zero_add, State.withMemory_eq_withData,
    State.withData_withData, add_comm s.dataBase]
  exact nullPtr_addr h hl hw hi ht habove hk

/-- Page 0 is cleared. -/
theorem cleanPageTable_null :
    (s.withData (linked s w i null)).cleanPageTable s.kernelPageDirectory i null =
      .ok (tablePtr s i null 0, s.withData (fill (linked s w i null) null 4096 0)) := by
  have hplain := nullPtr_plain h hl hw hi ht
  have hmem := State.memset_data 0 (by decide) hplain
  rw [State.withData_data, State.withData_withData] at hmem
  have hc := h.ptrCell_toNat hi
  have hpos := dir_pos h.toLayout
  unfold tablePtr at hmem ⊢
  unfold State.cleanPageTable State.isPagingEnabled
  change (if s.pagingEnabled = true then _ else _) = _
  cases hp : s.pagingEnabled with
  | true =>
    have hresolves : (s.withData (linked s w i null)).ResolvesTo (ptrCell s i)
        (ptrCell s i + s.dataBase) 4 := by
      intro k hk
      rw [kernel_addr h hl hw hi ht (fun _ _ => rfl) hp (by bv_omega), add_right_comm]
    have hload : (s.withData (linked s w i null)).pageTablePtr s.kernelPageDirectory i =
        .ok (s.pageTablesRelVirtAddr + i * pageSize) := by
      refine (State.load32_data hresolves).trans ?_
      rw [State.withData_data, linked_ptrCell h hw hi hi, if_pos rfl]
    simp only [hp, if_true, add_zero] at hmem ⊢
    simp only [hload, ok_bind, hmem, pure_ok]
  | false =>
    simp only [hp, Bool.false_eq_true, if_false, add_zero] at hmem ⊢
    simp only [hmem, ok_bind, pure_ok]

/-- `get_pt_entry` with NULL for the page of the table. -/
theorem getPtEntry_null {lin : U32int} (hidx : tableIndex lin = i)
    (hnull : s.allocDataPage = .ok (null, s)) :
    s.getPtEntry lin s.kernelPageDirectory true = .ok (tablePtr s i null (4 * pageIndex lin),
      s.withData (fill (linked s w i null) null 4096 0)) := by
  have hptr := pageTablePtr_eq h hl.toKernelMapped hi
  rw [ht, Option.isSome_none, if_neg Bool.false_ne_true] at hptr
  have hlink := (linkPageTable_eq (p := null) h hl hw hi ht).1
  have hclean := cleanPageTable_null h hl hw hi ht
  have hdir : (s.withData (linked s w i null)).kernelPageDirectory = s.kernelPageDirectory := rfl
  simp only [State.getPtEntry, tableIndex_eq, hidx, hptr, ok_bind, ne_eq, not_true_eq_false,
    if_false, if_true, hnull, hlink, hclean, pure_ok]
  rw [tablePtr_add, zero_add]
  rfl

/-- `mmap` writes the entry into page 0 and answers TRUE. With paging off the first
entry is at NULL itself, which is taken for a failure. -/
theorem mmap_null {segment : Segment} {v : U32int} (hidx : tableIndex (v + segment.base) = i)
    (hnull : s.allocDataPage = .ok (null, s)) (a : U32int) (rw user : Bool) :
    ∃ b m, s.mmap segment v a rw user = .ok (b, s.withData m) ∧ AboveZero (linked s w i null) m ∧
      (b = true ∨ s.pagingEnabled = false ∧ pageIndex (v + segment.base) = 0) := by
  have hget := getPtEntry_null h hl hw hi ht hidx hnull
  have hj := pageIndex_lt (v + segment.base)
  have hfill : AboveZero (linked s w i null) (fill (linked s w i null) null 4096 0) := fun x hx =>
    fill_of_le _ _ (by rwa [show x - null = x from sub_zero x])
  generalize pageIndex (v + segment.base) = j at hget hj
  by_cases hne : tablePtr s i null (4 * j) = null
  · refine ⟨false, _, ?_, hfill, .inr ?_⟩
    · simp only [State.mmap, hget, ok_bind, hne, ne_eq, not_true_eq_false, if_false, pure_ok]
    · unfold tablePtr at hne
      split_ifs at hne with hp
      · exact absurd hne (windowPtr_ne_null h.toLayout hi (by bv_omega))
      · refine ⟨by simpa using hp, ?_⟩
        bv_omega
  · have hresolves : (s.withData (fill (linked s w i null) null 4096 0)).ResolvesTo
        (tablePtr s i null (4 * j)) (4 * j + s.dataBase) 4 := fun k hk => by
      rw [tablePtr_add, nullPtr_addr h hl hw hi ht hfill (by bv_omega), add_right_comm]
    have hstore := State.store32_data hresolves (ptEntry true rw user (a + segment.base)).toWord
    rw [State.withData_data, State.withData_withData] at hstore
    have habove : AboveZero (linked s w i null)
        (write32 (fill (linked s w i null) null 4096 0) (4 * j)
        (ptEntry true rw user (a + segment.base)).toWord) := fun x hx => by
      rw [write32_of_far _ _ (by bv_omega)]
      exact hfill x hx
    refine ⟨true, _, ?_, habove, .inl rfl⟩
    simp only [State.mmap, hget, ok_bind, hne, ne_eq, not_false_eq_true, if_true, State.setPtEntry,
      hstore, pure_ok]

end

/-- `mmap` answers FALSE and leaves kernel data, the directory and the tables alone. -/
def FailsCleanly (s : State) (t : TableMap) (segment : Segment) (v a : U32int)
    (rw user : Bool) : Prop :=
  ∃ s', s.mmap segment v a rw user = .ok (false, s') ∧ ∀ y, Books s t y → s'.data y = s.data y

/-- Without a free page NULL is no page. -/
theorem null_of_exhausted {s1 : State} (h : Tables s t) (hl : Live s t) (hfree : dataFree s = [])
    (hnull : s.allocDataPage = .ok (null, s1)) : s1 = s := by
  obtain ⟨-, hs⟩ | ⟨m, -, htakes⟩ := allocDataPage_cases h hl hnull
  · exact hs
  · have hinside := htakes.inside
    have hmem : (null : U32int).toNat / 4096 ∈ dataFree s :=
      PackedBits.mem_freeList.mpr ⟨by omega, htakes.free⟩
    rw [hfree] at hmem
    exact absurd hmem List.not_mem_nil

/-- The directory entry is present and names page 0 of the data segment. -/
theorem linked_entry (h : Tables s t) (hw : t (windowIndexOf s) = some w) (hi : i.toNat < 1024)
    (hm : AboveZero (linked s w i null) m) : Maps (entryAt m (pdCell s i)) (s.dataBase + null) := by
  have hpos := dir_pos h.toLayout
  have hc := h.pdCell_toNat hi
  have hend := h.dir_end
  have hlen := segmentPages_le s
  rw [entryAt, hm.read32 (by omega) (by omega), linked_pdCell h hw hi hi, if_pos rfl]
  refine maps_ptEntry true true ?_
  rw [add_zero]
  exact h.base_aligned

/-- With no page left for a missing table the directory entry is made all the same, with
page 0 of kernel data for the table. -/
theorem mmap_never_fails_cleanly {s1 : State} {segment : Segment} {v : U32int} (h : Tables s t)
    (hl : Live s t) (ht : t (tableIndex (v + segment.base)) = none) (hfree : dataFree s = [])
    (hnull : s.allocDataPage = .ok (null, s1)) (a : U32int) (rw user : Bool) :
    ¬ FailsCleanly s t segment v a rw user := by
  intro h
  obtain ⟨s', hcall, hsame⟩ := h
  obtain ⟨w, hw⟩ := h.window_some
  have hi := tableIndex_lt (v + segment.base)
  rw [null_of_exhausted h hl hfree hnull] at hnull
  obtain ⟨b, m, hmmap, habove, -⟩ := mmap_null h hl hw hi ht rfl hnull a rw user
  cases hmmap.symm.trans hcall
  have hentry := linked_entry h hw hi habove
  have hc := h.pdCell_toNat hi
  have hread : read32 m (pdCell s (tableIndex (v + segment.base))) =
      read32 s.data (pdCell s (tableIndex (v + segment.base))) := by
    have hdata := read32_kernel h.toLayout hsame
      (c := pdCell s (tableIndex (v + segment.base))) (by omega)
    rwa [State.withData_data] at hdata
  have hpresent := hentry.present
  rw [entryAt, hread] at hpresent
  exact absurd hpresent (Bool.eq_false_iff.mp (h.pde_none _ hi ht))

/-- Every bit of the data bitmap is set. -/
def usedUp (s : State) : State :=
  s.withData (fill s.data s.memoryBitmap.dataBitmap ((segmentPages s + 7) / 8) 0xFF)

theorem usedUp_only (s : State) : BitmapOnly s (fill s.data s.memoryBitmap.dataBitmap
    ((segmentPages s + 7) / 8) 0xFF) := fun _ hx => fill_of_le _ _ hx

theorem usedUp_bit (s : State) {k : Nat} (hk : k < 8 * ((segmentPages s + 7) / 8)) :
    bit (usedUp s).data s.memoryBitmap.dataBitmap k = true := by
  have hlt := segmentPages_lt s
  have hbyte : (byteAt s.memoryBitmap.dataBitmap k - s.memoryBitmap.dataBitmap).toNat <
      (segmentPages s + 7) / 8 := by
    rw [byteAt, add_sub_cancel_left, BitVec.toNat_ofNat]
    omega
  have hones : ∀ j < 8, (0xFF : Byte).getLsbD j = true := by decide
  rw [bit, usedUp, State.withData_data, fill_of_lt _ _ hbyte]
  exact hones _ (Nat.mod_lt _ (by decide))

theorem usedUp_free (s : State) : dataFree (usedUp s) = [] := by
  refine List.eq_nil_iff_forall_not_mem.mpr fun k hk => ?_
  obtain ⟨hlt, hclear⟩ := PackedBits.mem_freeList.mp hk
  change k < segmentPages s at hlt
  exact Bool.false_ne_true (hclear.symm.trans (usedUp_bit s (by omega)))

theorem usedUp_alloc (h : Tables s t) (hl : Live s t) :
    (usedUp s).allocDataPage = .ok (null, usedUp s) := by
  have h' : Tables (usedUp s) t := (usedUp_only s).tables h
  have hplain := bitmap_plain h' ((usedUp_only s).live h hl)
  have hsize := h'.bitmap_size
  refine State.allocPage_of_full rfl (by rwa [hsize]) ?_
  rw [hsize]
  change PackedBits.clearFrom (usedUp s).memory (s.memoryBitmap.dataBitmap + (usedUp s).dataBase) 0
    ((segmentPages s + 7) / 8) = none
  cases hscan : PackedBits.clearFrom (usedUp s).memory
      (s.memoryBitmap.dataBitmap + (usedUp s).dataBase) 0 ((segmentPages s + 7) / 8) with
  | none => rfl
  | some k =>
    obtain ⟨-, hk, hclear, -⟩ := PackedBits.clearFrom_some hscan
    rw [bit_data] at hclear
    exact absurd (hclear.symm.trans (usedUp_bit s (by omega))) Bool.false_ne_true

end

/-- The booted machine, with no table for the span at 20 MiB. -/
theorem booted_usedUp : ∃ s t,
    Tables s t ∧ Live s t ∧ t (tableIndex (0x1001000 + 0x400000)) = none ∧
    dataFree s = [] ∧ s.allocDataPage = .ok (null, s) := by
  have htables := boot_tables (bootMachine_placeable 0)
  have hlive : Live (bootState (bootMachine 0) 6) (bootTables (bootMachine 0) 6) :=
    live_of_disabled rfl
  have hindex : tableIndex (0x1001000 + 0x400000) ≠ bootIndex (bootMachine 0) 6 := by
    change _ ≠ State.windowIndex (bootDir 6 + directorySize + 0x400000)
    decide
  have hnone : bootTables (bootMachine 0) 6 (tableIndex (0x1001000 + 0x400000)) = none := by
    rw [bootTables, Function.update_of_ne hindex]
  exact ⟨_, _, (usedUp_only _).tables htables, (usedUp_only _).live htables hlive, hnone,
    usedUp_free _, usedUp_alloc htables hlive⟩

theorem booted_never_fails_cleanly : ∃ s t, dataFree s = [] ∧
    ¬ FailsCleanly s t ⟨0x400000, 0x1000000⟩ 0x1001000 0x5000 true false := by
  obtain ⟨s, t, h, hl, ht, hfree, hnull⟩ := booted_usedUp
  exact ⟨s, t, hfree, mmap_never_fails_cleanly h hl ht hfree hnull 0x5000 true false⟩

/-- The mapping is reported as made, in a table that is page 0 of the kernel. -/
theorem usedUp_mmap : ∃ s t s',
    Tables s t ∧ Live s t ∧ t (tableIndex (0x1001000 + 0x400000)) = none ∧
    dataFree s = [] ∧ s.allocDataPage = .ok (null, s) ∧
    s.mmap ⟨0x400000, 0x1000000⟩ 0x1001000 0x5000 true false = .ok (true, s') ∧
    Maps (entryAt s'.data (pdCell s (tableIndex (0x1001000 + 0x400000)))) (s.dataBase + null) ∧
    ¬ FailsCleanly s t ⟨0x400000, 0x1000000⟩ 0x1001000 0x5000 true false := by
  obtain ⟨s, t, h, hl, ht, hfree, hnull⟩ := booted_usedUp
  obtain ⟨w, hw⟩ := h.window_some
  have hidx : tableIndex (0x1001000 + (⟨0x400000, 0x1000000⟩ : Segment).base) =
    tableIndex (0x1001000 + 0x400000) := rfl
  obtain ⟨b, m, hcall, habove, hb⟩ :=
    mmap_null h hl hw (tableIndex_lt _) ht hidx hnull 0x5000 true false
  obtain rfl : b = true := hb.resolve_right fun hzero => absurd hzero.2 (by decide)
  refine ⟨s, t, _, h, hl, ht, hfree, hnull, hcall, ?_, ?_⟩
  · rw [State.withData_data]
    exact linked_entry h hw (tableIndex_lt _) habove
  · intro h
    obtain ⟨s', hfails, -⟩ := h
    cases hcall.symm.trans hfails

end SimpleOs.Audit.NullTable
