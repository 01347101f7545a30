import SimpleOs.Kernel.Paging

/-!
# The page tables in kernel data

Which words of the data segment make up the directory, its pointer array and the
page tables, what they hold when table `i` lies in page `t i`, and what the
hardware walk finds there. Everything is read as offsets from the base of the
data segment; how the kernel reaches these words is the subject of `Reach`.
-/

namespace SimpleOs.Audit.PageTables

open SimpleOs.Kernel SimpleOs.Lib.ByteMemory

def entryAt (m : Memory) (a : U32int) : PagingEntry := PagingEntry.ofWord (read32 m a)

/-- A present entry for the frame at `f`. -/
structure Maps (e : PagingEntry) (f : U32int) : Prop where
  present : e.present = true
  frame : e.frame = f

/-- An entry as the processor sees it. -/
def visible (e : PagingEntry) : Option PagingEntry := if e.present then some e else none

theorem Maps.visible {e : PagingEntry} {f : U32int} (h : Maps e f) : visible e = some e := by
  rw [PageTables.visible, if_pos h.present]

/-- Directory index and entry index of a linear address. -/
def tableIndex (lin : U32int) : U32int := lin / tableSpan
def pageIndex (lin : U32int) : U32int := lin / pageSize % 1024

section

variable (s : State)

def pdCell (i : U32int) : U32int := s.kernelPageDirectory + 4 * i
def ptrCell (i : U32int) : U32int := s.kernelPageDirectory + tableSize + 4 * i
def windowIndexOf : U32int := tableIndex (s.pageTablesRelVirtAddr + s.dataBase)
def segmentPages : Nat := s.segmentsInfo.dataSegment.len.toNat / 4096
def dirRoot : U32int := s.kernelPageDirectory + s.dataBase

end

/-- Where `init_paging_tables` puts the directory and the window: two whole pages
above the page bitmap, and a 4 MiB step of the address space above both. -/
structure Layout (s : State) : Prop where
  base_aligned : s.dataBase.toNat % 4096 = 0
  dir_aligned : s.kernelPageDirectory.toNat % 4096 = 0
  dir_end : s.kernelPageDirectory.toNat + 8192 ≤ 4096 * segmentPages s
  window_start : s.pageTablesRelVirtAddr.toNat + s.dataBase.toNat =
    (windowIndexOf s).toNat * 0x400000
  window_above : s.kernelPageDirectory.toNat + 8192 ≤ s.pageTablesRelVirtAddr.toNat
  bitmap_size : (s.bitmapSize s.memoryBitmap.dataBitmap).toNat = segmentPages s
  bitmap_end : s.memoryBitmap.dataBitmap.toNat + (segmentPages s + 7) / 8 ≤
    s.kernelPageDirectory.toNat

/-- A page of the segment above the directory. -/
structure IsTablePage (s : State) (p : U32int) : Prop where
  aligned : p.toNat % 4096 = 0
  above : s.kernelPageDirectory.toNat + 8192 ≤ p.toNat
  inside : p.toNat + 4096 ≤ 4096 * segmentPages s

/-- Which page holds which table. -/
abbrev TableMap := U32int → Option U32int

section

variable {α β : Type} [DecidableEq α] {f : α → Option β} {i k : α} {p q : β}

/-- With an entry added there is that entry and there are the others. -/
theorem update_some (h : Function.update f i (some p) k = some q) :
    (k = i ∧ q = p) ∨ (k ≠ i ∧ f k = some q) := by
  by_cases hk : k = i
  · rw [hk, Function.update_self] at h
    exact .inl ⟨hk, (Option.some.inj h).symm⟩
  · rw [Function.update_of_ne hk] at h
    exact .inr ⟨hk, h⟩

theorem update_none (h : Function.update f i (some p) k = none) : k ≠ i ∧ f k = none := by
  by_cases hk : k = i
  · rw [hk, Function.update_self] at h
    cases h
  · rw [Function.update_of_ne hk] at h
    exact ⟨hk, h⟩

end

/-- What the walk needs: the directory entries, and the entries of the table of
page tables, which is the table of the window itself. -/
structure Walks (s : State) (t : TableMap) : Prop extends Layout s where
  pde_some : ∀ i p, i.toNat < 1024 → t i = some p →
    Maps (entryAt s.data (pdCell s i)) (p + s.dataBase)
  pde_none : ∀ i, i.toNat < 1024 → t i = none → (entryAt s.data (pdCell s i)).present = false
  window : ∀ w, t (windowIndexOf s) = some w → ∀ i p, i.toNat < 1024 → t i = some p →
    Maps (entryAt s.data (w + 4 * i)) (p + s.dataBase)
  window_some : ∃ w, t (windowIndexOf s) = some w
  page : ∀ i p, t i = some p → IsTablePage s p
  inj : ∀ i j p, t i = some p → t j = some p → i = j

/-- The pointer array agrees with the directory. -/
structure Tables (s : State) (t : TableMap) : Prop extends Walks s t where
  ptr : ∀ i, i.toNat < 1024 → read32 s.data (ptrCell s i) =
    if (t i).isSome then s.pageTablesRelVirtAddr + i * pageSize else 0

theorem segmentPages_le (s : State) : 4096 * segmentPages s < 2^32 := by
  have h := s.segmentsInfo.dataSegment.len.isLt
  unfold segmentPages
  omega

theorem tableIndex_lt (lin : U32int) : (tableIndex lin).toNat < 1024 := by
  have h := lin.isLt
  simp only [tableIndex, tableSpan, pageSize, bitvec_to_nat, Nat.reducePow, Nat.reduceMod,
    Nat.reduceMul]
  omega

theorem pageIndex_lt (lin : U32int) : (pageIndex lin).toNat < 1024 := by
  simp only [pageIndex, pageSize, bitvec_to_nat, Nat.reducePow, Nat.reduceMod]
  omega

theorem tableIndex_toNat (lin : U32int) : (tableIndex lin).toNat = lin.toNat / 0x400000 := by
  simp only [tableIndex, tableSpan, pageSize, bitvec_to_nat, Nat.reducePow, Nat.reduceMod,
    Nat.reduceMul]

theorem pageIndex_toNat (lin : U32int) : (pageIndex lin).toNat = lin.toNat / 4096 % 1024 := by
  simp only [pageIndex, pageSize, bitvec_to_nat, Nat.reducePow, Nat.reduceMod]

section

variable {s : State} {t : TableMap}

theorem Layout.root_aligned (h : Layout s) : dirRoot s / pageSize * pageSize = dirRoot s := by
  have hb := h.base_aligned
  have hd := h.dir_aligned
  unfold dirRoot
  apply BitVec.eq_of_toNat_eq
  simp only [pageSize, bitvec_to_nat, Nat.reducePow, Nat.reduceMod]
  omega

/-- The directory entry the processor reads. -/
theorem Layout.walk_pde (h : Layout s) (lin : U32int) :
    PagingEntry.ofWord (read32 s.memory (dirRoot s / pageSize * pageSize + 4 * (lin / 0x400000))) =
      entryAt s.data (pdCell s (tableIndex lin)) := by
  have hspan : (0x400000 : U32int) = tableSpan := rfl
  rw [h.root_aligned, hspan, entryAt, State.data, read32_fromBase, dirRoot, pdCell, tableIndex,
    add_right_comm]

/-- ... and the entry in the table at page `p`. -/
theorem walk_pte (s : State) (p lin : U32int) :
    PagingEntry.ofWord (read32 s.memory (p + s.dataBase + 4 * (lin / pageSize % 1024))) =
      entryAt s.data (p + 4 * pageIndex lin) := by
  rw [entryAt, State.data, read32_fromBase, pageIndex, add_right_comm]

/-- The walk goes through the table of the directory index, if there is one. -/
theorem Walks.walk_eq (h : Walks s t) (lin : U32int) :
    walk s.memory (dirRoot s) lin =
      (t (tableIndex lin)).bind fun p => visible (entryAt s.data (p + 4 * pageIndex lin)) := by
  simp only [walk, h.walk_pde]
  cases ht : t (tableIndex lin) with
  | none =>
    simp only [h.pde_none _ (tableIndex_lt lin) ht, Bool.false_and, Bool.false_eq_true, if_false,
      Option.bind_none]
  | some p =>
    obtain ⟨hp, hf⟩ := h.pde_some _ _ (tableIndex_lt lin) ht
    simp only [hp, hf, walk_pte, Bool.true_and, Option.bind_some, visible]

/-- Linear address of byte `k` of window page `i`. -/
def windowAddr (s : State) (i k : U32int) : U32int :=
  s.pageTablesRelVirtAddr + i * pageSize + k + s.dataBase

theorem Layout.windowAddr_toNat (h : Layout s) {i k : U32int} (hi : i.toNat < 1024)
    (hk : k.toNat < 4096) : (windowAddr s i k).toNat =
      (windowIndexOf s).toNat * 0x400000 + i.toNat * 4096 + k.toNat := by
  have hw := h.window_start
  have hlt := tableIndex_lt (s.pageTablesRelVirtAddr + s.dataBase)
  change (windowIndexOf s).toNat < 1024 at hlt
  simp only [windowAddr, pageSize, bitvec_to_nat, Nat.reducePow, Nat.reduceMod]
  omega

theorem Layout.tableIndex_window (h : Layout s) {i k : U32int} (hi : i.toNat < 1024)
    (hk : k.toNat < 4096) : tableIndex (windowAddr s i k) = windowIndexOf s := by
  apply BitVec.eq_of_toNat_eq
  rw [tableIndex_toNat, h.windowAddr_toNat hi hk]
  omega

theorem Layout.pageIndex_window (h : Layout s) {i k : U32int} (hi : i.toNat < 1024)
    (hk : k.toNat < 4096) : pageIndex (windowAddr s i k) = i := by
  apply BitVec.eq_of_toNat_eq
  rw [pageIndex_toNat, h.windowAddr_toNat hi hk]
  omega

/-- The self-map: window page `i` is the page of table `i`. -/
theorem Walks.walk_window (h : Walks s t) {i p k : U32int} (hi : i.toNat < 1024)
    (ht : t i = some p) (hk : k.toNat < 4096) :
    ∃ e, walk s.memory (dirRoot s) (windowAddr s i k) = some e ∧ e.frame = p + s.dataBase := by
  obtain ⟨w, hw⟩ := h.window_some
  have hm := h.window w hw i p hi ht
  have he := h.walk_eq (windowAddr s i k)
  rw [h.tableIndex_window hi hk, h.pageIndex_window hi hk, hw, Option.bind_some, hm.visible] at he
  exact ⟨_, he, hm.frame⟩

theorem Layout.withData (h : Layout s) (m : Memory) : Layout (s.withData m) :=
  ⟨h.base_aligned, h.dir_aligned, h.dir_end, h.window_start, h.window_above, h.bitmap_size,
    h.bitmap_end⟩

theorem IsTablePage.withData {p : U32int} (h : IsTablePage s p) (m : Memory) :
    IsTablePage (s.withData m) p := ⟨h.aligned, h.above, h.inside⟩

/-- Only the directory entries and the entries of present tables in the table of
page tables matter. -/
theorem Walks.withData (h : Walks s t) {m : Memory}
    (hpd : ∀ i, i.toNat < 1024 → read32 m (pdCell s i) = read32 s.data (pdCell s i))
    (hw : ∀ w, t (windowIndexOf s) = some w → ∀ i, i.toNat < 1024 → (t i).isSome = true →
      read32 m (w + 4 * i) = read32 s.data (w + 4 * i)) : Walks (s.withData m) t where
  toLayout := h.toLayout.withData m
  pde_some := fun i p hi ht => by
    rw [entryAt, State.withData_data]
    change Maps (PagingEntry.ofWord (read32 m (pdCell s i))) _
    rw [hpd i hi]
    exact h.pde_some i p hi ht
  pde_none := fun i hi ht => by
    rw [entryAt, State.withData_data]
    change (PagingEntry.ofWord (read32 m (pdCell s i))).present = false
    rw [hpd i hi]
    exact h.pde_none i hi ht
  window := fun w hwt i p hi ht => by
    rw [entryAt, State.withData_data, hw w hwt i hi (by rw [ht]; rfl)]
    exact h.window w hwt i p hi ht
  window_some := h.window_some
  page := fun i p ht => (h.page i p ht).withData m
  inj := h.inj

theorem Tables.withData (h : Tables s t) {m : Memory}
    (hpd : ∀ i, i.toNat < 1024 → read32 m (pdCell s i) = read32 s.data (pdCell s i))
    (hptr : ∀ i, i.toNat < 1024 → read32 m (ptrCell s i) = read32 s.data (ptrCell s i))
    (hw : ∀ w, t (windowIndexOf s) = some w → ∀ i, i.toNat < 1024 → (t i).isSome = true →
      read32 m (w + 4 * i) = read32 s.data (w + 4 * i)) : Tables (s.withData m) t where
  toWalks := h.toWalks.withData hpd hw
  ptr := fun i hi => by
    rw [State.withData_data]
    exact (hptr i hi).trans (h.ptr i hi)

/-- Offsets below the directory, in it and in table pages are kept apart by their
distance alone. -/
theorem Layout.pdCell_toNat (h : Layout s) {i : U32int} (hi : i.toNat < 1024) :
    (pdCell s i).toNat = s.kernelPageDirectory.toNat + 4 * i.toNat := by
  have hd := h.dir_end
  have hlen := segmentPages_le s
  simp only [pdCell, bitvec_to_nat, Nat.reducePow, Nat.reduceMod]
  omega

theorem Layout.ptrCell_toNat (h : Layout s) {i : U32int} (hi : i.toNat < 1024) :
    (ptrCell s i).toNat = s.kernelPageDirectory.toNat + 4096 + 4 * i.toNat := by
  have hd := h.dir_end
  have hlen := segmentPages_le s
  simp only [ptrCell, tableSize, bitvec_to_nat, Nat.reducePow, Nat.reduceMod]
  omega

theorem IsTablePage.cell_toNat {p j : U32int} (h : IsTablePage s p) (hj : j.toNat < 1024) :
    (p + 4 * j).toNat = p.toNat + 4 * j.toNat := by
  have hp := h.inside
  have hlen := segmentPages_le s
  simp only [bitvec_to_nat, Nat.reducePow, Nat.reduceMod]
  omega

/-- Different pages are 4096 bytes apart. -/
theorem IsTablePage.apart {p q : U32int} (hp : IsTablePage s p) (hq : IsTablePage s q) (h : p ≠ q) :
    p.toNat + 4096 ≤ q.toNat ∨ q.toNat + 4096 ≤ p.toNat := by
  have hpa := hp.aligned
  have hqa := hq.aligned
  have hne : p.toNat ≠ q.toNat := fun he => h (BitVec.eq_of_toNat_eq he)
  omega

end

end SimpleOs.Audit.PageTables
