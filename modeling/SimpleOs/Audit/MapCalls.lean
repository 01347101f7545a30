import SimpleOs.Audit.KernelAccess

/-!
# `get_pt_entry`, `mmap` and `munmap` on well-formed tables

What each call returns and writes when the tables are well formed and reachable.
A new table is linked in three places and cleared; the lemmas follow that order,
because each access is translated by what the ones before it wrote.
-/

namespace SimpleOs.Audit.MapCalls

open SimpleOs.Kernel SimpleOs.Lib.ByteMemory SimpleOs.Audit.PageTables
open SimpleOs.Audit.KernelAccess
open SimpleOs.Lib.PackedBits (bit byteAt)

theorem ptEntry_frame (present rw user : Bool) (a : U32int) :
    (ptEntry present rw user a).frame = a / pageSize * pageSize := by
  apply BitVec.eq_of_toNat_eq
  rw [PagingEntry.frame_toNat]
  simp only [ptEntry, BitVec.extractLsb'_toNat, Nat.shiftRight_eq_div_pow, pageSize, bitvec_to_nat,
    Nat.reducePow, Nat.reduceMod]
  have ha := a.isLt
  omega

theorem maps_ptEntry (rw user : Bool) {a : U32int} (ha : a.toNat % 4096 = 0) :
    Maps (PagingEntry.ofWord (ptEntry true rw user a).toWord) a := by
  rw [PagingEntry.ofWord_toWord]
  refine ⟨rfl, ?_⟩
  rw [ptEntry_frame]
  apply BitVec.eq_of_toNat_eq
  simp only [pageSize, bitvec_to_nat, Nat.reducePow, Nat.reduceMod]
  omega

section

variable {s : State} {t : TableMap} {i p w : U32int}

theorem frame_aligned (h : Layout s) (hp : p.toNat % 4096 = 0) :
    (s.segmentsInfo.dataSegment.base + p).toNat % 4096 = 0 := by
  have hb := h.base_aligned
  change (s.dataBase + p).toNat % 4096 = 0
  simp only [bitvec_to_nat, Nat.reducePow]
  omega

theorem frame_inj {q : U32int} (h : p + s.dataBase = q + s.dataBase) : p = q := add_right_cancel h

theorem tableIndex_eq (lin : U32int) : lin / pageSize / 1024 = tableIndex lin := by
  apply BitVec.eq_of_toNat_eq
  simp only [tableIndex, tableSpan, pageSize, bitvec_to_nat, Nat.reducePow, Nat.reduceMod,
    Nat.reduceMul]
  omega

theorem pageTablePtr_eq (h : Tables s t) (hk : KernelMapped s t) (hi : i.toNat < 1024) :
    s.pageTablePtr s.kernelPageDirectory i =
      .ok (if (t i).isSome then s.pageTablesRelVirtAddr + i * pageSize else 0) := by
  have hc := h.ptrCell_toNat hi
  have hr : s.ResolvesTo (ptrCell s i) (ptrCell s i + s.dataBase) 4 :=
    kernel_resolves h.toWalks hk (by omega)
  rw [← h.ptr i hi]
  exact State.load32_data hr

theorem physTable_eq (h : Walks s t) (hl : Live s t) (hi : i.toNat < 1024) (ht : t i = some p) :
    s.physTable s.kernelPageDirectory i = .ok p := by
  have hc := h.pdCell_toNat hi
  have hr : s.ResolvesTo (pdCell s i) (pdCell s i + s.dataBase) 4 :=
    kernel_resolves h hl.toKernelMapped (by omega)
  have hload : s.load32 (s.kernelPageDirectory + 4 * i) = .ok (read32 s.data (pdCell s i)) :=
    State.load32_data hr
  have hf : (PagingEntry.ofWord (read32 s.data (pdCell s i))).frame = p + s.dataBase :=
    (h.pde_some i p hi ht).frame
  have hsub : p + s.dataBase - s.segmentsInfo.dataSegment.base = p :=
    add_sub_cancel_right p s.dataBase
  simp only [State.physTable, State.loadEntry, hload, ok_bind, pure_ok, hf, hsub]

theorem tableBase_eq (h : Tables s t) (hl : Live s t) (hi : i.toNat < 1024) (ht : t i = some p) :
    s.tableBase s.kernelPageDirectory i = .ok (tablePtr s i p 0) := by
  unfold State.tableBase tablePtr State.isPagingEnabled
  split_ifs with hp
  · rw [pageTablePtr_eq h hl.toKernelMapped hi, ht, Option.isSome_some, if_pos rfl, add_zero]
  · rw [physTable_eq h.toWalks hl hi ht, add_zero]

/-- A table that exists is reached through `tablePtr`, whatever the mode. -/
theorem getPtEntry_present (h : Tables s t) (hl : Live s t) {lin : U32int}
    (ht : t (tableIndex lin) = some p) (make : Bool) :
    s.getPtEntry lin s.kernelPageDirectory make =
      .ok (tablePtr s (tableIndex lin) p (4 * pageIndex lin), s) := by
  have hi := tableIndex_lt lin
  have hptr := pageTablePtr_eq h hl.toKernelMapped hi
  rw [ht, Option.isSome_some, if_pos rfl] at hptr
  have hne : s.pageTablesRelVirtAddr + tableIndex lin * pageSize ≠ null := by
    simpa using windowPtr_ne_null h.toLayout hi (k := 0) (by decide)
  simp only [State.getPtEntry, tableIndex_eq, hptr, ok_bind, ne_eq, hne, not_false_eq_true, if_true,
    tableBase_eq h hl hi ht, pure_ok, tablePtr_add, zero_add]
  rfl

theorem getPtEntry_absent (h : Tables s t) (hl : Live s t) {lin : U32int}
    (ht : t (tableIndex lin) = none) :
    s.getPtEntry lin s.kernelPageDirectory false = .ok (null, s) := by
  have hptr := pageTablePtr_eq h hl.toKernelMapped (tableIndex_lt lin)
  rw [ht] at hptr
  simp only [State.getPtEntry, tableIndex_eq, hptr, ok_bind]
  rfl

/-- Memory that differs from kernel data at most in page `p`. -/
def PageOnly (s : State) (p : U32int) (m : Memory) : Prop :=
  ∀ x, 4096 ≤ (x - p).toNat → m x = s.data x

theorem PageOnly.read32 (hp : IsTablePage s p) {m : Memory} (hm : PageOnly s p m) {a : U32int}
    (ha : a.toNat + 4 ≤ p.toNat ∨ p.toNat + 4096 ≤ a.toNat) (ha' : a.toNat + 4 ≤ 2^32) :
    read32 m a = read32 s.data a := by
  have hin := hp.inside
  have hlen := segmentPages_le s
  apply read32_congr
  intro k hk
  exact hm _ (by bv_omega)

theorem pageOnly_write32 (s : State) (p : U32int) {j : U32int} (hj : j.toNat < 1024) (v : U32int) :
    PageOnly s p (write32 s.data (p + 4 * j) v) := by
  intro x hx
  exact write32_of_far _ _ (by bv_omega)

theorem pageOnly_fill (s : State) (p : U32int) : PageOnly s p (fill s.data p 4096 0) := by
  intro x hx
  exact fill_of_le _ _ hx

/-- A page that holds a table other than the window's can be rewritten without
touching what the walk uses. -/
theorem PageOnly.walks (h : Walks s t) (ht : t i = some p) (hne : i ≠ windowIndexOf s) {m : Memory}
    (hm : PageOnly s p m) : Walks (s.withData m) t := by
  have hp := h.page i p ht
  have habove := hp.above
  have hend := h.dir_end
  have hlen := segmentPages_le s
  refine h.withData (fun k hk => ?_) fun w hw k hk _ => ?_
  · have hc := h.pdCell_toNat hk
    exact hm.read32 hp (by omega) (by omega)
  · have hwp := h.page _ w hw
    have hc := hwp.cell_toNat hk
    have hwa := hwp.inside
    have hpw : p ≠ w := fun he => hne (h.inj i _ p ht (he ▸ hw))
    have hapart := hp.apart hwp hpw
    exact hm.read32 hp (by omega) (by omega)

theorem PageOnly.tables (h : Tables s t) (ht : t i = some p) (hne : i ≠ windowIndexOf s)
    {m : Memory} (hm : PageOnly s p m) : Tables (s.withData m) t where
  toWalks := hm.walks h.toWalks ht hne
  ptr := fun k hk => by
    have hp := h.page i p ht
    have habove := hp.above
    have hc := h.ptrCell_toNat hk
    have hlen := segmentPages_le s
    have hin := hp.inside
    have hread := hm.read32 hp (a := ptrCell s k) (by omega) (by omega)
    rw [State.withData_data]
    exact hread.trans (h.ptr k hk)

/-- The bytes of a table stay reachable while they are written. -/
theorem table_plain (h : Walks s t) (hm : WindowMode s) (hi : i.toNat < 1024) (ht : t i = some p)
    (hne : i ≠ windowIndexOf s) : s.PlainAt (tablePtr s i p 0) (p + s.dataBase) 4096 := by
  intro m hmem
  have honly : PageOnly s p (fromBase m s.dataBase) := fun x hx =>
    hmem _ (by rwa [add_sub_add_right_eq_sub])
  have hr := tablePtr_resolves (honly.walks h ht hne) (hm.withData _) hi ht (k := 0) (n := 4096)
    (by decide)
  rw [add_zero] at hr
  rw [State.withMemory_eq_withData]
  exact hr

/-- Memory after the three words of a new table `i` are written. -/
def linkWith (s : State) (w i windowEntry ptr dirEntry : U32int) : Memory :=
  write32 (write32 (write32 s.data (w + 4 * i) windowEntry) (ptrCell s i) ptr) (pdCell s i) dirEntry

/-- The words for a table at page `p`. -/
def linked (s : State) (w i p : U32int) : Memory :=
  linkWith s w i (ptEntry true true false (s.dataBase + p)).toWord
    (s.pageTablesRelVirtAddr + i * pageSize) (ptEntry true true true (s.dataBase + p)).toWord

/-- A page that can become a table: no table is there yet. -/
structure Fresh (s : State) (t : TableMap) (p : U32int) : Prop extends IsTablePage s p where
  unused : ∀ i, t i ≠ some p

/-- Kernel data and the pages of all tables are marked in the bitmap. -/
structure Accounted (s : State) (t : TableMap) : Prop where
  kernel : ∀ k, 4096 * k < s.kernelPageDirectory.toNat + 8192 →
    bit s.data s.memoryBitmap.dataBitmap k = true
  table : ∀ i p, t i = some p → bit s.data s.memoryBitmap.dataBitmap (p.toNat / 4096) = true

/-- Page 0 is marked, so a page handed out is not NULL. -/
theorem Accounted.ne_null (hacc : Accounted s t) {m : Memory} (hp : Takes s p m) : p ≠ null := by
  intro he
  subst he
  have hbit := hacc.kernel 0 (by omega)
  have hfree := hp.free
  rw [show (null : U32int).toNat / 4096 = 0 from rfl, hbit] at hfree
  cases hfree

/-- A page handed out is above the directory and holds no table. -/
theorem Accounted.fresh (h : Layout s) (hacc : Accounted s t) {m : Memory} (hp : Takes s p m) :
    Fresh s t p := by
  have hfree := hp.free
  have hda := h.dir_aligned
  have hpa := hp.aligned
  refine ⟨⟨hpa, ?_, hp.inside⟩, fun i hi => ?_⟩
  · by_contra hlow
    rw [hacc.kernel _ (by omega)] at hfree
    cases hfree
  · rw [hacc.table i p hi] at hfree
    cases hfree

theorem linkWindow (h : Walks s t) (hw : t (windowIndexOf s) = some w) (hi : i.toNat < 1024)
    (ht : t i = none) (v : U32int) : Walks (s.withData (write32 s.data (w + 4 * i) v)) t := by
  have hwp := h.page _ w hw
  have hc := hwp.cell_toNat hi
  have habove := hwp.above
  have hwa := hwp.aligned
  have hda := h.dir_aligned
  refine h.withData (fun k hk => ?_) fun w' hw' k hk hks => ?_
  · have hck := h.pdCell_toNat hk
    exact read32_write32_of_toNat_ne _ _ (by omega) (by omega) (by omega)
  · obtain rfl : w' = w := Option.some.inj (hw'.symm.trans hw)
    have hck := hwp.cell_toNat hk
    have hki : k ≠ i := by
      intro he
      subst he
      rw [ht] at hks
      cases hks
    have hne : k.toNat ≠ i.toNat := fun he => hki (BitVec.eq_of_toNat_eq he)
    exact read32_write32_of_toNat_ne _ _ (by omega) (by omega) (by omega)

theorem linkWindow_live (h : Walks s t) (hl : Live s t) (hw : t (windowIndexOf s) = some w)
    (hi : i.toNat < 1024) (v : U32int) :
    Live (s.withData (write32 s.data (w + 4 * i) v)) t := by
  have hwp := h.page _ w hw
  have hc := hwp.cell_toNat hi
  have hwa := hwp.aligned
  refine hl.withData fun q p' hq hp' j hj => ?_
  have hpp := h.page _ p' hp'
  have hcj := hpp.cell_toNat hj
  have hpa := hpp.aligned
  have hne : p' ≠ w := by
    intro he
    subst he
    exact kernel_index_ne h.toLayout hq (h.inj _ _ _ hp' hw)
  have hapart := hpp.apart hwp hne
  exact read32_write32_of_toNat_ne _ _ (by omega) (by omega) (by omega)

/-- Writes inside the directory do not reach the tables. -/
theorem write_dir_live (h : Walks s t) (hl : Live s t) {a : U32int} (ha : a.toNat % 4 = 0)
    (ha' : a.toNat + 4 ≤ s.kernelPageDirectory.toNat + 8192) (v : U32int) :
    Live (s.withData (write32 s.data a v)) t := by
  refine hl.withData fun q p' _ hp' j hj => ?_
  have hpp := h.page _ p' hp'
  have hcj := hpp.cell_toNat hj
  have hpa := hpp.aligned
  have habove := hpp.above
  exact read32_write32_of_toNat_ne _ _ ha (by omega) (by omega)

theorem linkPtr (h : Walks s t) (hi : i.toNat < 1024) (v : U32int) :
    Walks (s.withData (write32 s.data (ptrCell s i) v)) t := by
  have hc := h.ptrCell_toNat hi
  have hda := h.dir_aligned
  refine h.withData (fun k hk => ?_) fun w hw k hk _ => ?_
  · have hck := h.pdCell_toNat hk
    exact read32_write32_of_toNat_ne _ _ (by omega) (by omega) (by omega)
  · have hwp := h.page _ w hw
    have hck := hwp.cell_toNat hk
    have hwa := hwp.aligned
    have habove := hwp.above
    exact read32_write32_of_toNat_ne _ _ (by omega) (by omega) (by omega)

section

variable (h : Tables s t) (hw : t (windowIndexOf s) = some w) (hi : i.toNat < 1024)
  (ht : t i = none) (hf : Fresh s t p)

include h hw hi

theorem linked_pdCell {k : U32int} (hk : k.toNat < 1024) :
    read32 (linked s w i p) (pdCell s k) =
      if k = i then (ptEntry true true true (s.dataBase + p)).toWord else read32 s.data
          (pdCell s k) := by
  have hwp := h.page _ w hw
  have hwa := hwp.aligned
  have habove := hwp.above
  have hda := h.dir_aligned
  have hci := h.pdCell_toNat hi
  have hck := h.pdCell_toNat hk
  have hcp := h.ptrCell_toNat hi
  have hcw := hwp.cell_toNat hi
  unfold linked linkWith
  split_ifs with hki
  · rw [hki, read32_write32_same]
  · have hne : k.toNat ≠ i.toNat := fun he => hki (BitVec.eq_of_toNat_eq he)
    rw [read32_write32_of_toNat_ne _ _ (by omega) (by omega) (by omega),
      read32_write32_of_toNat_ne _ _ (by omega) (by omega) (by omega),
      read32_write32_of_toNat_ne _ _ (by omega) (by omega) (by omega)]

theorem linked_ptrCell {k : U32int} (hk : k.toNat < 1024) :
    read32 (linked s w i p) (ptrCell s k) =
      if k = i then s.pageTablesRelVirtAddr + i * pageSize else read32 s.data (ptrCell s k) := by
  have hwp := h.page _ w hw
  have hwa := hwp.aligned
  have habove := hwp.above
  have hda := h.dir_aligned
  have hci := h.pdCell_toNat hi
  have hck := h.ptrCell_toNat hk
  have hcp := h.ptrCell_toNat hi
  have hcw := hwp.cell_toNat hi
  unfold linked linkWith
  rw [read32_write32_of_toNat_ne _ _ (by omega) (by omega) (by omega)]
  split_ifs with hki
  · rw [hki, read32_write32_same]
  · have hne : k.toNat ≠ i.toNat := fun he => hki (BitVec.eq_of_toNat_eq he)
    rw [read32_write32_of_toNat_ne _ _ (by omega) (by omega) (by omega),
      read32_write32_of_toNat_ne _ _ (by omega) (by omega) (by omega)]

theorem linked_window {k : U32int} (hk : k.toNat < 1024) :
    read32 (linked s w i p) (w + 4 * k) =
      if k = i then (ptEntry true true false (s.dataBase + p)).toWord
        else read32 s.data (w + 4 * k) := by
  have hwp := h.page _ w hw
  have hwa := hwp.aligned
  have habove := hwp.above
  have hda := h.dir_aligned
  have hci := h.pdCell_toNat hi
  have hck := hwp.cell_toNat hk
  have hcp := h.ptrCell_toNat hi
  have hcw := hwp.cell_toNat hi
  unfold linked linkWith
  rw [read32_write32_of_toNat_ne _ _ (by omega) (by omega) (by omega),
    read32_write32_of_toNat_ne _ _ (by omega) (by omega) (by omega)]
  split_ifs with hki
  · rw [hki, read32_write32_same]
  · have hne : k.toNat ≠ i.toNat := fun he => hki (BitVec.eq_of_toNat_eq he)
    rw [read32_write32_of_toNat_ne _ _ (by omega) (by omega) (by omega)]

include ht hf

/-- The three entries extend the table map by the new page. -/
theorem linked_tables : Tables (s.withData (linked s w i p)) (Function.update t i (some p)) := by
  have hne : windowIndexOf s ≠ i := by
    intro he
    subst he
    rw [ht] at hw
    cases hw
  have halign := frame_aligned h.toLayout hf.aligned
  have hcomm : s.dataBase + p = p + s.dataBase := add_comm _ _
  refine { h.toLayout.withData _ with
    pde_some := fun k q hk hq => ?_
    pde_none := fun k hk hq => ?_
    window := fun w' hw' k q hk hq => ?_
    window_some := ⟨w, by rw [← hw]; exact Function.update_of_ne hne _ _⟩
    page := fun k q hq => ?_
    inj := fun k l q hkq hlq => ?_
    ptr := fun k hk => ?_ }
  · rw [entryAt, State.withData_data]
    change Maps (PagingEntry.ofWord (read32 _ (pdCell s k))) (q + s.dataBase)
    rw [linked_pdCell h hw hi hk]
    obtain ⟨rfl, rfl⟩ | ⟨hki, hq⟩ := update_some hq
    · rw [if_pos rfl, ← hcomm]
      exact maps_ptEntry true true halign
    · rw [if_neg hki]
      exact h.pde_some k q hk hq
  · rw [entryAt, State.withData_data]
    change (PagingEntry.ofWord (read32 _ (pdCell s k))).present = false
    obtain ⟨hki, hq⟩ := update_none hq
    rw [linked_pdCell h hw hi hk, if_neg hki]
    exact h.pde_none k hk hq
  · change Function.update t i (some p) (windowIndexOf s) = some w' at hw'
    rw [Function.update_of_ne hne] at hw'
    obtain rfl : w' = w := Option.some.inj (hw'.symm.trans hw)
    rw [entryAt, State.withData_data, linked_window h hw hi hk]
    obtain ⟨rfl, rfl⟩ | ⟨hki, hq⟩ := update_some hq
    · rw [if_pos rfl, State.withData_dataBase, ← hcomm]
      exact maps_ptEntry true false halign
    · rw [if_neg hki]
      exact h.window w' hw k q hk hq
  · obtain ⟨-, rfl⟩ | ⟨-, hq⟩ := update_some hq
    · exact hf.toIsTablePage.withData _
    · exact (h.page k q hq).withData _
  · obtain ⟨hki, hqp⟩ | ⟨-, hk⟩ :=
      update_some hkq <;> obtain ⟨hli, hqp'⟩ | ⟨-, hl⟩ := update_some hlq
    · rw [hki, hli]
    · exact absurd (hqp ▸ hl) (hf.unused l)
    · exact absurd (hqp' ▸ hk) (hf.unused k)
    · exact h.inj k l q hk hl
  · rw [State.withData_data]
    change read32 _ (ptrCell s k) = if _ then s.pageTablesRelVirtAddr + k * pageSize else 0
    rw [linked_ptrCell h hw hi hk]
    by_cases hki : k = i
    · subst hki
      rw [Function.update_self, if_pos rfl, Option.isSome_some, if_pos rfl]
    · rw [Function.update_of_ne hki, if_neg hki]
      exact h.ptr k hk

end

theorem store_window (h : Walks s t) (hm : WindowMode s) (hw : t (windowIndexOf s) = some w)
    (hi : i.toNat < 1024) (v : U32int) : s.store32 (tablePtr s (windowIndexOf s) w (4 * i)) v =
      .ok (s.withData (write32 s.data (w + 4 * i) v)) := by
  have hwi := tableIndex_lt (s.pageTablesRelVirtAddr + s.dataBase)
  exact State.store32_data (tablePtr_resolves h hm hwi hw (by bv_omega)) v

theorem store_ptrCell (h : Walks s t) (hl : Live s t) (hi : i.toNat < 1024) (v : U32int) :
    s.store32 (ptrCell s i) v = .ok (s.withData (write32 s.data (ptrCell s i) v)) := by
  have hc := h.ptrCell_toNat hi
  exact State.store32_data (kernel_resolves h hl.toKernelMapped (by omega)) v

theorem store_pdCell (h : Walks s t) (hl : Live s t) (hi : i.toNat < 1024) (v : U32int) :
    s.store32 (pdCell s i) v = .ok (s.withData (write32 s.data (pdCell s i) v)) := by
  have hc := h.pdCell_toNat hi
  exact State.store32_data (kernel_resolves h hl.toKernelMapped (by omega)) v

/-- Each word is written through the tables as the ones before left them. -/
theorem store_links (h : Tables s t) (hl : Live s t) (hw : t (windowIndexOf s) = some w)
    (hi : i.toNat < 1024) (ht : t i = none) (e2 e3 e4 : U32int) :
    (do
      let s' ← s.store32 (tablePtr s (windowIndexOf s) w (4 * i)) e2
      let s' ← s'.store32 (ptrCell s i) e3
      s'.store32 (pdCell s i) e4) = .ok (s.withData (linkWith s w i e2 e3 e4)) ∧
    Live (s.withData (linkWith s w i e2 e3 e4)) t := by
  have hda := h.dir_aligned
  have hcp := h.ptrCell_toNat hi
  have hcd := h.pdCell_toNat hi
  have hst2 := store_window h.toWalks hl.toWindowMode hw hi e2
  have hW2 := linkWindow h.toWalks hw hi ht e2
  have hL2 := linkWindow_live h.toWalks hl hw hi e2
  have hst3 := store_ptrCell hW2 hL2 hi e3
  have hW3 := linkPtr hW2 hi e3
  have hL3 := write_dir_live hW2 hL2 (a := ptrCell s i) (by omega)
    (by change _ ≤ s.kernelPageDirectory.toNat + 8192; omega) e3
  have hst4 := store_pdCell hW3 hL3 hi e4
  have hL4 := write_dir_live hW3 hL3 (a := pdCell s i) (by omega)
    (by change _ ≤ s.kernelPageDirectory.toNat + 8192; omega) e4
  simp only [State.withData_data, State.withData_withData] at hst3 hst4 hL4
  refine ⟨?_, hL4⟩
  rw [hst2, ok_bind]
  refine (congrArg (· >>= _) hst3).trans ?_
  exact hst4

theorem linkPageTable_eq (h : Tables s t) (hl : Live s t) (hw : t (windowIndexOf s) = some w)
    (hi : i.toNat < 1024) (ht : t i = none) :
    s.linkPageTable s.kernelPageDirectory i p = .ok (s.withData (linked s w i p)) ∧
      Live (s.withData (linked s w i p)) t := by
  have hwi := tableIndex_lt (s.pageTablesRelVirtAddr + s.dataBase)
  have hbase : s.tableBase s.kernelPageDirectory ((s.pageTablesRelVirtAddr +
      s.segmentsInfo.dataSegment.base) / tableSpan) = .ok (tablePtr s (windowIndexOf s) w 0) :=
    tableBase_eq h hl hwi hw
  have hptt : tablePtr s (windowIndexOf s) w 0 + 4 * i =
      tablePtr s (windowIndexOf s) w (4 * i) := by
    rw [tablePtr_add, zero_add]
  have hst2 := store_window h.toWalks hl.toWindowMode hw hi
    (ptEntry true true false (s.segmentsInfo.dataSegment.base + p)).toWord
  obtain ⟨hlinks, hlive⟩ := store_links h hl hw hi ht
    (ptEntry true true false (s.segmentsInfo.dataSegment.base + p)).toWord
    (s.pageTablesRelVirtAddr + i * pageSize)
    (ptEntry true true true (s.segmentsInfo.dataSegment.base + p)).toWord
  rw [hst2, ok_bind] at hlinks
  simp only [State.linkPageTable, hbase, ok_bind, State.setPtEntry, hptt, hst2]
  exact ⟨hlinks, hlive⟩

theorem cleanPageTable_eq (h : Tables s t) (hl : Live s t) (hi : i.toNat < 1024) (ht : t i = some p)
    (hne : i ≠ windowIndexOf s) : s.cleanPageTable s.kernelPageDirectory i p =
      .ok (tablePtr s i p 0, s.withData (fill s.data p 4096 0)) := by
  have hmem := State.memset_data 0 (by decide) (table_plain h.toWalks hl.toWindowMode hi ht hne)
  have hptr := pageTablePtr_eq h hl.toKernelMapped hi
  rw [ht, Option.isSome_some, if_pos rfl] at hptr
  unfold tablePtr at hmem ⊢
  unfold State.cleanPageTable State.isPagingEnabled
  cases hp : s.pagingEnabled with
  | true =>
    simp only [hp, if_true, add_zero] at hmem ⊢
    simp only [hptr, ok_bind, hmem, pure_ok]
  | false =>
    simp only [hp, Bool.false_eq_true, if_false, add_zero] at hmem ⊢
    simp only [hmem, ok_bind, pure_ok]

/-- Clearing a page that held no table leaves kernel data mapped. -/
theorem PageOnly.live (hpage : ∀ i q, t i = some q → IsTablePage s q) (hl : Live s t)
    (hf : Fresh s t p) {m : Memory} (hm : PageOnly s p m) : Live (s.withData m) t := by
  refine hl.withData fun q p' _ hp' j hj => ?_
  have hpp := hpage _ p' hp'
  have hc := hpp.cell_toNat hj
  have hin := hpp.inside
  have hlen := segmentPages_le s
  have hne : p' ≠ p := fun he => hf.unused _ (he ▸ hp')
  have hapart := hpp.apart hf.toIsTablePage hne
  exact hm.read32 hf.toIsTablePage (by omega) (by omega)

/-- Memory after a page marked in `m` has become table `i`. -/
def created (s : State) (m : Memory) (w i p : U32int) : Memory :=
  fill (linked (s.withData m) w i p) p 4096 0

/-- A missing table is made in the page just allocated, and the entry is found
in it whatever the mode. -/
theorem getPtEntry_create (h : Tables s t) (hl : Live s t) {lin : U32int}
    (ht : t (tableIndex lin) = none) {m : Memory} (hp : Takes s p m)
    (hw : t (windowIndexOf s) = some w) (hf : Fresh s t p) :
    s.getPtEntry lin s.kernelPageDirectory true =
      .ok (tablePtr s (tableIndex lin) p (4 * pageIndex lin),
        s.withData (created s m w (tableIndex lin) p)) ∧
    Tables (s.withData (created s m w (tableIndex lin) p))
      (Function.update t (tableIndex lin) (some p)) ∧
    Live (s.withData (created s m w (tableIndex lin) p))
      (Function.update t (tableIndex lin) (some p)) := by
  have hi := tableIndex_lt lin
  have hptr := pageTablePtr_eq h hl.toKernelMapped hi
  rw [ht, Option.isSome_none, if_neg Bool.false_ne_true] at hptr
  generalize hidx : tableIndex lin = i at *
  have hne : i ≠ windowIndexOf s := by
    intro he
    subst he
    rw [ht] at hw
    cases hw
  have h1 := hp.only.tables h
  have hl1 := hp.only.live h hl
  have hf1 : Fresh (s.withData m) t p := ⟨hf.toIsTablePage.withData m, hf.unused⟩
  obtain ⟨hlink, hl4⟩ := linkPageTable_eq (p := p) h1 hl1 hw hi ht
  have h4 := linked_tables h1 hw hi ht hf1
  set s4 := (s.withData m).withData (linked (s.withData m) w i p) with hs4
  have hmono : ∀ k q, t k = some q → Function.update t i (some p) k = some q := by
    intro k q hk
    rw [Function.update_of_ne fun he => by rw [he, ht] at hk; cases hk]
    exact hk
  have hself : Function.update t i (some p) i = some p := Function.update_self ..
  have hf4 : Fresh s4 t p := ⟨hf.toIsTablePage.withData _, hf.unused⟩
  have hclean := cleanPageTable_eq h4 (hl4.mono hmono) hi hself hne
  have h5 := (pageOnly_fill s4 p).tables h4 hself hne
  have hpage4 : ∀ k q, t k = some q → IsTablePage s4 q := fun k q hk => (h.page k q hk).withData _
  have hl5 := ((pageOnly_fill s4 p).live hpage4 hl4 hf4).mono hmono
  rw [hs4, State.withData_data, State.withData_withData] at h5 hl5
  refine ⟨?_, h5, hl5⟩
  have hdir : (s.withData m).kernelPageDirectory = s.kernelPageDirectory := rfl
  have hdir4 : s4.kernelPageDirectory = s.kernelPageDirectory := rfl
  rw [hdir] at hlink
  rw [hdir4] at hclean
  simp only [State.getPtEntry, tableIndex_eq, hidx, hptr, ok_bind, null, ne_eq, not_true_eq_false,
    if_false, if_true, hp.alloc, hlink, hclean, pure_ok]
  have htable : tablePtr s4 i p 0 + 4 * (lin / pageSize % 1024) =
      tablePtr s i p (4 * pageIndex lin) := by
    rw [tablePtr_add, zero_add]
    rfl
  rw [htable, hs4, State.withData_data, State.withData_withData]
  rfl

/-- Two memories with the same kernel data below the directory. -/
def SameBelow (s : State) (m m' : Memory) : Prop :=
  ∀ x, x.toNat < s.kernelPageDirectory.toNat → m' x = m x

theorem SameBelow.trans {m m' m'' : Memory} (h : SameBelow s m m') (h' : SameBelow s m' m'') :
    SameBelow s m m'' := fun x hx => (h' x hx).trans (h x hx)

theorem sameBelow_write32 (m : Memory) {a : U32int} (ha : s.kernelPageDirectory.toNat ≤ a.toNat)
    (ha' : a.toNat + 4 ≤ 2^32) (v : U32int) : SameBelow s m (write32 m a v) := by
  intro x hx
  exact write32_of_far _ _ (by bv_omega)

theorem sameBelow_fill (m : Memory) {a : U32int} {n : Nat}
    (ha : s.kernelPageDirectory.toNat ≤ a.toNat) (ha' : a.toNat + n ≤ 2^32) (v : BitVec 8) :
    SameBelow s m (fill m a n v) := by
  intro x hx
  exact fill_of_le _ _ (by bv_omega)

/-- The bitmap lies below the directory. -/
theorem SameBelow.bit (h : Layout s) {m m' : Memory} (hm : SameBelow s m m') {k : Nat}
    (hk : k < segmentPages s) :
    bit m' s.memoryBitmap.dataBitmap k = bit m s.memoryBitmap.dataBitmap k := by
  have hb := h.bitmap_end
  have hlen := segmentPages_le s
  have hbyte : (byteAt s.memoryBitmap.dataBitmap k).toNat < s.kernelPageDirectory.toNat := by
    rw [byteAt]
    bv_omega
  rw [Lib.PackedBits.bit, hm _ hbyte, Lib.PackedBits.bit]

theorem sameBelow_page (hp : IsTablePage s p) (m : Memory) {j : U32int}
    (hj : j.toNat < 1024) (v : U32int) : SameBelow s m (write32 m (p + 4 * j) v) := by
  have habove := hp.above
  have hin := hp.inside
  have hc := hp.cell_toNat hj
  have hlen := segmentPages_le s
  exact sameBelow_write32 m (by omega) (by omega) v

theorem sameBelow_created (h : Tables s t) (hw : t (windowIndexOf s) = some w) (hi : i.toNat < 1024)
    (hf : Fresh s t p) (m : Memory) : SameBelow s m (created s m w i p) := by
  have hwp := h.page _ w hw
  have hwin := hwp.inside
  have hwab := hwp.above
  have hcw := hwp.cell_toNat hi
  have hcp : (ptrCell (s.withData m) i).toNat = _ := h.ptrCell_toNat hi
  have hcd : (pdCell (s.withData m) i).toNat = _ := h.pdCell_toNat hi
  have hab := hf.above
  have hin := hf.inside
  have hend := h.dir_end
  have hlen := segmentPages_le s
  have hwindow := fun v => sameBelow_write32 (s := s) m (a := w + 4 * i) (by omega) (by omega) v
  have hptr := fun m' v => sameBelow_write32 (s := s) m' (a := ptrCell (s.withData m) i) (by omega)
    (by omega) v
  have hpd := fun m' v => sameBelow_write32 (s := s) m' (a := pdCell (s.withData m) i) (by omega)
    (by omega) v
  have hclear := fun m' => sameBelow_fill (s := s) m' (a := p) (n := 4096) (by omega) (by omega) 0
  unfold created linked linkWith
  rw [State.withData_data]
  exact (((hwindow _).trans (hptr _ _)).trans (hpd _ _)).trans (hclear _)

theorem Accounted.sameBelow (h : Tables s t) (hacc : Accounted s t) {m : Memory}
    (hm : SameBelow s s.data m) : Accounted (s.withData m) t where
  kernel := fun k hk => by
    have hend := h.dir_end
    change 4096 * k < s.kernelPageDirectory.toNat + 8192 at hk
    rw [State.withData_data]
    exact (hm.bit h.toLayout (by omega)).trans (hacc.kernel k hk)
  table := fun i p hp => by
    have hin := (h.page i p hp).inside
    rw [State.withData_data]
    exact (hm.bit h.toLayout (by omega)).trans (hacc.table i p hp)

/-- A page taken for a table is marked along with what was marked before. -/
theorem Accounted.take (h : Tables s t) (hacc : Accounted s t) {m m' : Memory} (hp : Takes s p m)
    (hm : SameBelow s m m') : Accounted (s.withData m') (Function.update t i (some p)) where
  kernel := fun k hk => by
    have hend := h.dir_end
    change 4096 * k < s.kernelPageDirectory.toNat + 8192 at hk
    rw [State.withData_data]
    refine (hm.bit h.toLayout (by omega)).trans ?_
    rw [hp.bits k (by omega), hacc.kernel k hk, Bool.or_true]
  table := fun k q hq => by
    have hpin := hp.inside
    rw [State.withData_data]
    obtain ⟨-, rfl⟩ | ⟨-, hq⟩ := update_some hq
    · refine (hm.bit h.toLayout (by omega)).trans ?_
      rw [hp.bits _ (by omega), decide_eq_true rfl, Bool.true_or]
    · have hin := (h.page k q hq).inside
      refine (hm.bit h.toLayout (by omega)).trans ?_
      rw [hp.bits _ (by omega), hacc.table k q hq, Bool.or_true]

theorem page_eq_iff (lin lin' : U32int) : lin' / pageSize = lin / pageSize ↔
    tableIndex lin' = tableIndex lin ∧ pageIndex lin' = pageIndex lin := by
  have ht := tableIndex_toNat lin
  have ht' := tableIndex_toNat lin'
  have hp := pageIndex_toNat lin
  have hp' := pageIndex_toNat lin'
  have hd : (lin / pageSize).toNat = lin.toNat / 4096 := rfl
  have hd' : (lin' / pageSize).toNat = lin'.toNat / 4096 := rfl
  constructor
  · intro h
    have hn := congrArg BitVec.toNat h
    rw [hd, hd'] at hn
    constructor <;> apply BitVec.eq_of_toNat_eq <;> omega
  · intro h
    obtain ⟨hi, hj⟩ := h
    have hin := congrArg BitVec.toNat hi
    have hjn := congrArg BitVec.toNat hj
    apply BitVec.eq_of_toNat_eq
    rw [hd, hd']
    omega

/-- Writing the entry of one page changes the walk of that page only. -/
theorem walk_write (h : Tables s t) {lin : U32int} (ht : t (tableIndex lin) = some p)
    (hne : tableIndex lin ≠ windowIndexOf s) (e : PagingEntry) (lin' : U32int) :
    walk (s.withData (write32 s.data (p + 4 * pageIndex lin) e.toWord)).memory (dirRoot s) lin' =
      if lin' / pageSize = lin / pageSize then visible e
        else walk s.memory (dirRoot s) lin' := by
  have hj := pageIndex_lt lin
  have hj' := pageIndex_lt lin'
  have hp := h.page _ p ht
  have hpa := hp.aligned
  have hc := hp.cell_toNat hj
  have h' := (pageOnly_write32 s p hj e.toWord).tables h ht hne
  have hw := h.walk_eq lin'
  have hw' := h'.walk_eq lin'
  rw [State.withData_data] at hw'
  refine hw'.trans ?_
  cases hq : t (tableIndex lin') with
  | none =>
    have hpage : ¬ lin' / pageSize = lin / pageSize := by
      rw [page_eq_iff]
      intro h
      obtain ⟨hi, -⟩ := h
      rw [hi, ht] at hq
      cases hq
    rw [if_neg hpage, hw, hq, Option.bind_none, Option.bind_none]
  | some q =>
    have hqp := h.page _ q hq
    have hqa := hqp.aligned
    have hcq := hqp.cell_toNat hj'
    by_cases hpage : lin' / pageSize = lin / pageSize
    · obtain ⟨hi, hjj⟩ := (page_eq_iff lin lin').mp hpage
      obtain rfl : q = p := by
        rw [hi, ht] at hq
        exact (Option.some.inj hq).symm
      rw [if_pos hpage, hjj, Option.bind_some, entryAt, read32_write32_same,
        PagingEntry.ofWord_toWord]
    · have hcell : (q + 4 * pageIndex lin').toNat ≠ (p + 4 * pageIndex lin).toNat := by
        intro he
        apply hpage
        rw [page_eq_iff]
        by_cases hqp' : q = p
        · subst hqp'
          have hi := h.inj _ _ _ hq ht
          exact ⟨hi, BitVec.eq_of_toNat_eq (by omega)⟩
        · have hapart := hqp.apart hp hqp'
          omega
      rw [if_neg hpage, hw, hq, Option.bind_some, Option.bind_some, entryAt,
        read32_write32_of_toNat_ne _ _ (by omega) (by omega) hcell, entryAt]

/-- Other tables keep their entries when a table is created. -/
theorem created_other (h : Tables s t) (hw : t (windowIndexOf s) = some w) (hi : i.toNat < 1024)
    {m : Memory} (hm : BitmapOnly s m) (hf : Fresh s t p) {k q j : U32int} (hq : t k = some q)
    (hk : k ≠ windowIndexOf s) (hj : j.toNat < 1024) :
    read32 (created s m w i p) (q + 4 * j) = read32 s.data (q + 4 * j) := by
  have hqp := h.page _ q hq
  have hwp := h.page _ w hw
  have hpa := hf.aligned
  have hin := hf.inside
  have hlen := segmentPages_le s
  have hqa := hqp.aligned
  have hqin := hqp.inside
  have habove := hqp.above
  have hcq := hqp.cell_toNat hj
  have hwa := hwp.aligned
  have hcw := hwp.cell_toNat hi
  have hda := h.dir_aligned
  have hcp : (ptrCell (s.withData m) i).toNat = _ := h.ptrCell_toNat hi
  have hcd : (pdCell (s.withData m) i).toNat = _ := h.pdCell_toNat hi
  have hap := hqp.apart hf.toIsTablePage fun he => hf.unused _ (he ▸ hq)
  have haw := hqp.apart hwp fun he => hk (h.inj _ _ _ hq (he ▸ hw))
  unfold created linked linkWith
  rw [read32_fill_outside _ _ (by bv_omega) (by bv_omega),
    read32_write32_of_toNat_ne _ _ (by omega) (by omega) (by omega),
    read32_write32_of_toNat_ne _ _ (by omega) (by omega) (by omega),
    read32_write32_of_toNat_ne _ _ (by omega) (by omega) (by omega), State.withData_data]
  exact hm.read32 h.toLayout (by omega) (by omega)

/-- The page of a created table holds zeros. -/
theorem created_self (hf : Fresh s t p) (m : Memory) (w i : U32int) {j : U32int}
    (hj : j.toNat < 1024) : read32 (created s m w i p) (p + 4 * j) = 0 := by
  have hin := hf.inside
  have hlen := segmentPages_le s
  have hc := hf.cell_toNat hj
  exact read32_fill_inside _ (by bv_omega) (by decide)

/-- Creating a table changes no walk outside the window. -/
theorem walk_created (h : Tables s t) (hw : t (windowIndexOf s) = some w) (hi : i.toNat < 1024)
    (ht : t i = none) {m : Memory} (hm : BitmapOnly s m) (hf : Fresh s t p)
    (h' : Tables (s.withData (created s m w i p)) (Function.update t i (some p))) {lin : U32int}
    (hlin : tableIndex lin ≠ windowIndexOf s) :
    walk (s.withData (created s m w i p)).memory (dirRoot s) lin =
      walk s.memory (dirRoot s) lin := by
  have hj := pageIndex_lt lin
  have hwalk := h.walk_eq lin
  have hwalk' := h'.walk_eq lin
  rw [State.withData_data] at hwalk'
  refine hwalk'.trans ?_
  rw [hwalk]
  by_cases hk : tableIndex lin = i
  · rw [hk, Function.update_self, ht, Option.bind_some, Option.bind_none, entryAt,
      created_self hf m w i hj, visible, PagingEntry.present_zero, if_neg Bool.false_ne_true]
  · rw [Function.update_of_ne hk]
    cases hq : t (tableIndex lin) with
    | none => rw [Option.bind_none, Option.bind_none]
    | some q =>
      rw [Option.bind_some, Option.bind_some, entryAt, created_other h hw hi hm hf hq hlin hj,
        entryAt]

theorem setPtEntry_eq (h : Walks s t) (hm : WindowMode s) (hi : i.toNat < 1024) (ht : t i = some p)
    {j : U32int} (hj : j.toNat < 1024) (present rw user : Bool) (a : U32int) :
    s.setPtEntry (tablePtr s i p (4 * j)) present rw user a =
      .ok (s.withData (write32 s.data (p + 4 * j) (ptEntry present rw user a).toWord)) :=
  State.store32_data (tablePtr_resolves h hm hi ht (by bv_omega)) _

/-- If the linear address has no table yet, a page can be had for one. -/
def TableAvailable (s : State) (t : TableMap) (lin : U32int) : Prop :=
  t (tableIndex lin) = none → ∃ p s', s.allocDataPage = .ok (p, s') ∧ p ≠ null

/-- One call that set the entry of the page of `lin` to `e`. -/
structure Sets (s : State) (t : TableMap) (lin : U32int) (e : PagingEntry) (s' : State)
    (t' : TableMap) : Prop where
  only_data : s' = s.withData s'.data
  tables : Tables s' t'
  covers : (t' (tableIndex lin)).isSome = true
  other : ∀ k, k ≠ tableIndex lin → t' k = t k
  keeps : ∀ k p, t k = some p → t' k = some p
  accounted : Accounted s' t'
  walk_eq : ∀ lin', tableIndex lin' ≠ windowIndexOf s → walk s'.memory (dirRoot s) lin' =
    if lin' / pageSize = lin / pageSize then visible e else walk s.memory (dirRoot s) lin'

theorem sets_of_present (h : Tables s t) (hacc : Accounted s t) {lin : U32int}
    (ht : t (tableIndex lin) = some p) (hne : tableIndex lin ≠ windowIndexOf s) (e : PagingEntry) :
    Sets s t lin e (s.withData (write32 s.data (p + 4 * pageIndex lin) e.toWord)) t where
  only_data := by rw [State.withData_data]
  tables := (pageOnly_write32 s p (pageIndex_lt lin) e.toWord).tables h ht hne
  covers := by rw [ht]; rfl
  other := fun _ _ => rfl
  keeps := fun _ _ hk => hk
  accounted := hacc.sameBelow h (sameBelow_page (h.page _ p ht) _ (pageIndex_lt lin) _)
  walk_eq := fun lin' _ => walk_write h ht hne e lin'

theorem sets_of_absent (h : Tables s t) (hl : Live s t) (hacc : Accounted s t) {lin : U32int}
    (ht : t (tableIndex lin) = none) {m : Memory} (hp : Takes s p m)
    (hw : t (windowIndexOf s) = some w) (hne : tableIndex lin ≠ windowIndexOf s) (e : PagingEntry) :
    Sets s t lin e (s.withData (write32 (created s m w (tableIndex lin) p)
      (p + 4 * pageIndex lin) e.toWord)) (Function.update t (tableIndex lin) (some p)) := by
  have hi := tableIndex_lt lin
  have hf := hacc.fresh h.toLayout hp
  obtain ⟨-, h1, -⟩ := getPtEntry_create h hl ht hp hw hf
  have hacc1 := hacc.take h hp (sameBelow_created h hw hi hf m) (i := tableIndex lin)
  have hsets := sets_of_present h1 hacc1 (Function.update_self ..) hne e
  rw [State.withData_data, State.withData_withData] at hsets
  refine {
    only_data := by rw [State.withData_data]
    tables := hsets.tables
    covers := hsets.covers
    other := fun k hk => Function.update_of_ne hk _ _
    keeps := fun k q hk => ?_
    accounted := hsets.accounted
    walk_eq := fun l hl => ?_ }
  · rw [Function.update_of_ne fun he => by rw [he, ht] at hk; cases hk]
    exact hk
  · have hwalk := walk_created h hw hi ht hp.only hf h1 hl
    rw [← hwalk]
    exact hsets.walk_eq l hl

theorem mmap_of_present (h : Tables s t) (hl : Live s t) {segment : Segment} {v : U32int}
    (ht : t (tableIndex (v + segment.base)) = some p) (a : U32int) (rw user : Bool) :
    s.mmap segment v a rw user = .ok (true, s.withData (write32 s.data
      (p + 4 * pageIndex (v + segment.base))
          (ptEntry true rw user (a + segment.base)).toWord)) := by
  have hi := tableIndex_lt (v + segment.base)
  have hj := pageIndex_lt (v + segment.base)
  have hne := tablePtr_ne_null h.toWalks hi ht (k := 4 * pageIndex (v + segment.base)) (by bv_omega)
  have hset := setPtEntry_eq h.toWalks hl.toWindowMode hi ht hj true rw user (a + segment.base)
  simp only [State.mmap, getPtEntry_present h hl ht, ok_bind, ne_eq, hne, not_false_eq_true,
    if_true, hset, pure_ok]

theorem munmap_of_present (h : Tables s t) (hl : Live s t) {segment : Segment} {v : U32int}
    (ht : t (tableIndex (v + segment.base)) = some p) :
    s.munmap segment v = .ok (true, s.withData (write32 s.data
      (p + 4 * pageIndex (v + segment.base)) (ptEntry false false false 0).toWord)) := by
  have hi := tableIndex_lt (v + segment.base)
  have hj := pageIndex_lt (v + segment.base)
  have hne := tablePtr_ne_null h.toWalks hi ht (k := 4 * pageIndex (v + segment.base)) (by bv_omega)
  have hset := setPtEntry_eq h.toWalks hl.toWindowMode hi ht hj false false false 0
  simp only [State.munmap, getPtEntry_present h hl ht, ok_bind, ne_eq, hne, not_false_eq_true,
    if_true, hset, pure_ok]

theorem munmap_of_absent (h : Tables s t) (hl : Live s t) {segment : Segment} {v : U32int}
    (ht : t (tableIndex (v + segment.base)) = none) : s.munmap segment v = .ok (false, s) := by
  simp only [State.munmap, getPtEntry_absent h hl ht, ok_bind, ne_eq, not_true_eq_false, if_false,
    pure_ok]

theorem mmap_of_absent (h : Tables s t) (hl : Live s t) {segment : Segment} {v : U32int}
    (ht : t (tableIndex (v + segment.base)) = none) {m : Memory} (hp : Takes s p m)
    (hw : t (windowIndexOf s) = some w) (hf : Fresh s t p) (a : U32int) (rw user : Bool) :
    s.mmap segment v a rw user = .ok (true, s.withData (write32
      (created s m w (tableIndex (v + segment.base)) p) (p + 4 * pageIndex (v + segment.base))
      (ptEntry true rw user (a + segment.base)).toWord)) := by
  have hi := tableIndex_lt (v + segment.base)
  have hj := pageIndex_lt (v + segment.base)
  obtain ⟨hget, h1, hl1⟩ := getPtEntry_create h hl ht hp hw hf
  generalize hlin : v + segment.base = lin at *
  have hself : Function.update t (tableIndex lin) (some p) (tableIndex lin) = some p :=
    Function.update_self ..
  have hset := setPtEntry_eq h1.toWalks hl1.toWindowMode hi hself hj true rw user (a + segment.base)
  have hnull := tablePtr_ne_null h1.toWalks hi hself (k := 4 * pageIndex lin) (by bv_omega)
  rw [State.withData_data, State.withData_withData] at hset
  change tablePtr s (tableIndex lin) p (4 * pageIndex lin) ≠ null at hnull
  change State.setPtEntry _ (tablePtr s (tableIndex lin) p (4 * pageIndex lin)) _ _ _ _ = _ at hset
  simp only [State.mmap, hlin, hget, ok_bind, ne_eq, hnull,
    not_false_eq_true, if_true, hset, pure_ok]

/-- `mmap` sets the entry of its page, through a new table if need be. -/
theorem mmap_sets (h : Tables s t) (hl : Live s t) (hacc : Accounted s t) {segment : Segment}
    {v : U32int} (hne : tableIndex (v + segment.base) ≠ windowIndexOf s)
    (hav : TableAvailable s t (v + segment.base)) (a : U32int) (rw user : Bool) :
    ∃ s' t', s.mmap segment v a rw user = .ok (true, s') ∧
      Sets s t (v + segment.base) (ptEntry true rw user (a + segment.base)) s' t' := by
  cases ht : t (tableIndex (v + segment.base)) with
  | some p => exact ⟨_, t, mmap_of_present h hl ht a rw user, sets_of_present h hacc ht hne _⟩
  | none =>
    obtain ⟨p, s', ha, hnull⟩ := hav ht
    obtain ⟨rfl, -⟩ | ⟨m, -, hp⟩ := allocDataPage_cases h hl ha
    · exact absurd rfl hnull
    · obtain ⟨w, hw⟩ := h.window_some
      exact ⟨_, _, mmap_of_absent h hl ht hp hw (hacc.fresh h.toLayout hp) a rw user,
        sets_of_absent h hl hacc ht hp hw hne _⟩

end

end SimpleOs.Audit.MapCalls
