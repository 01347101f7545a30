import SimpleOs.Audit.ModuleLoad
import SimpleOs.Kernel.Heap

/-!
# Where the pages of a module go

`init_module` leaves one page behind the data of a module, the loader needs two for the
stacks; the heap is placed without a look at the module's data, and the code and the
data segment are taken to lie apart. When exactly all pages are different is settled here.
-/

namespace SimpleOs.Audit.ModulePages

open SimpleOs.Kernel SimpleOs.Lib SimpleOs.Lib.ByteMemory SimpleOs.Lib.Arcs
open SimpleOs.Kernel.State (HeaderAt)
open SimpleOs.Audit.PageTables SimpleOs.Audit.AddressSpace SimpleOs.Audit.LinearView
open SimpleOs.Audit.PageRuns
open SimpleOs.Audit.ModuleLoad
open SimpleOs.Audit.ModuleHeader

section

variable (s : State) (i : ModuleInfo)

/-- What `start_module` hands the loader. -/
def recorded : ModuleHeader :=
  ⟨magic, i.codeOffset, i.codeSize, i.dataOffset, i.dataSize, i.entryPoint⟩

/-- The linear pages `load_module_code_and_data` maps, in the order of its `mmap` calls. -/
def loadedPages : List U32int :=
  (List.range (codeCount (recorded i))).map (fun k => linAt (codeStart s) (4096 * k) / pageSize) ++
    (List.range (dataCount (recorded i))).map
      (fun k => linAt (dataStart s) (4096 * k) / pageSize) ++
    [stackLin s / pageSize]

/-- Offsets of the module's data in the data segment, up to a whole page. -/
def dataRange : Set U32int := arc moduleDataLoadAddr (4096 * dataCount (recorded i))

/-- The heap window as `init_heap` fixes it. -/
def heapRange : Set U32int := arc s.initHeap.heapStartRelVirtAddr s.initHeap.heapSize.toNat

/-- The pages mapped for a module are different and its data collide with nothing else in
the data segment. -/
structure Collisionless : Prop where
  distinct : (loadedPages s i).Nodup
  module_stack : Disjoint (dataRange i) (arc (s.segmentsInfo.dataSegment.len - pageSize * 2) 4096)
  kernel_stack : Disjoint (dataRange i) (arc (s.segmentsInfo.dataSegment.len - pageSize) 4096)
  heap : Disjoint (dataRange i) (heapRange s)

/-- Room for the data and for both stacks. -/
def StackRoom : Prop :=
  i.dataSize = 0 ∨ 0xC00000 + 4096 * dataCount (recorded i) + 8192 ≤
    s.segmentsInfo.dataSegment.len.toNat

/-- Behind the page-table window. -/
def heapStart : U32int := s.pageTablesRelVirtAddr + 0x400000

/-- Half of what the segment has left there, in whole pages and at most 4 MiB. -/
def heapLength : Nat := min 0x400000
    ((s.segmentsInfo.dataSegment.len - heapStart s).toNat / 8192 * 4096)

/-- Neither the data nor the heap begins inside the other. -/
def HeapClear : Prop :=
  i.dataSize = 0 ∨ heapLength s = 0 ∨
    Clear moduleDataLoadAddr (4096 * dataCount (recorded i)) (heapStart s) (heapLength s)

/-- The code pages are no data pages and not the stack page. -/
def CodeClear : Prop :=
  (i.dataSize = 0 ∨
    Clear (pageNumber (codeStart s)) (codeCount (recorded i)) (pageNumber (dataStart s))
      (dataCount (recorded i))) ∧
  Clear (pageNumber (codeStart s)) (codeCount (recorded i)) (pageNumber (stackLin s)) 1

end

section

variable {s : State} {i : ModuleInfo}

theorem dataCount_eq_zero : dataCount (recorded i) = 0 ↔ i.dataSize = 0 := by
  have hsize : (recorded i).dataSize = i.dataSize := rfl
  have hzero : i.dataSize = 0 ↔ i.dataSize.toNat = 0 := BitVec.toNat_inj.symm
  rw [dataCount, pageCountOf_toNat, hsize, hzero]
  omega

theorem count_le (size : U32int) : (pageCountOf size).toNat ≤ 2^20 := by
  have hsize := size.isLt
  rw [pageCountOf_toNat]
  omega

/-- The stacks are what `StackRoom` leaves room for. -/
theorem stackRoom_iff (hlen : 0xC01000 < s.segmentsInfo.dataSegment.len.toNat) : StackRoom s i ↔
      Disjoint (dataRange i) (arc (s.segmentsInfo.dataSegment.len - pageSize * 2) 4096) ∧
      Disjoint (dataRange i) (arc (s.segmentsInfo.dataSegment.len - pageSize) 4096) := by
  have hlt := s.segmentsInfo.dataSegment.len.isLt
  have hload : moduleDataLoadAddr.toNat = 0xC00000 := rfl
  have hlast : (s.segmentsInfo.dataSegment.len - pageSize).toNat =
      s.segmentsInfo.dataSegment.len.toNat - 4096 :=
    BitVec.toNat_sub_of_le (BitVec.le_def.mpr (hlen.le.trans' (by decide)))
  have hstack : (s.segmentsInfo.dataSegment.len - pageSize * 2).toNat =
      s.segmentsInfo.dataSegment.len.toNat - 8192 :=
    BitVec.toNat_sub_of_le (BitVec.le_def.mpr (hlen.le.trans' (by decide)))
  rw [StackRoom, dataRange, ← dataCount_eq_zero]
  rcases Nat.eq_zero_or_pos (dataCount (recorded i)) with hzero | hpos
  · simp only [hzero, true_or, Nat.mul_zero, arc_zero, Set.empty_disjoint, and_self]
  rw [disjoint_iff_clear (by omega) (by decide), disjoint_iff_clear (by omega) (by decide),
    clear_iff_of_lt (b := s.segmentsInfo.dataSegment.len - pageSize) (by omega), hlast, hload]
  rcases lt_trichotomy (0xC00000 + 8192)
    s.segmentsInfo.dataSegment.len.toNat with hlow | hsame | hhigh
  · rw [clear_iff_of_lt (by omega), hstack, hload]
    omega
  · have heq : s.segmentsInfo.dataSegment.len - pageSize * 2 = moduleDataLoadAddr :=
      BitVec.eq_of_toNat_eq (by omega)
    have hnot := clear_self (n := 4096) moduleDataLoadAddr
      (show 0 < 4096 * dataCount (recorded i) by omega)
    rw [heq]
    refine ⟨fun h => by omega, fun h => absurd h.1 hnot⟩
  · refine ⟨fun h => by omega, fun h => ?_⟩
    have hclear := (clear_iff_of_lt (by omega)).mp h.1.symm
    omega

theorem run_nodup (start : U32int) {n : Nat} (hn : n ≤ 2^20) :
    ((List.range n).map fun k => linAt start (4096 * k) / pageSize).Nodup := by
  refine List.Nodup.map_on (fun j hj k hk he => ?_) List.nodup_range
  rw [page_eq_iff_number, pageNumber_linAt, pageNumber_linAt] at he
  have hjk := congrArg BitVec.toNat (add_left_cancel he)
  rw [List.mem_range] at hj hk
  rwa [BitVec.toNat_ofNat, BitVec.toNat_ofNat, Nat.mod_eq_of_lt (by omega),
    Nat.mod_eq_of_lt (by omega)] at hjk

/-- Page runs have no page in common iff neither begins inside the other. -/
theorem runs_disjoint_iff {x y : U32int} {m n : Nat} (hm : m ≤ 2^20) (hn : n ≤ 2^20) :
    List.Disjoint ((List.range m).map fun k => linAt x (4096 * k) / pageSize)
        ((List.range n).map fun k => linAt y (4096 * k) / pageSize) ↔
      Disjoint (arc (pageNumber x) m) (arc (pageNumber y) n) := by
  simp only [Set.disjoint_left, mem_arc_iff hm, mem_arc_iff hn, List.disjoint_left,
    List.mem_map, List.mem_range]
  constructor
  · rintro h q ⟨j, hj, rfl⟩ ⟨k, hk, he⟩
    refine h ⟨j, hj, rfl⟩ ⟨k, hk, ?_⟩
    rw [page_eq_iff_number, pageNumber_linAt, pageNumber_linAt, he]
  · rintro h q ⟨j, hj, rfl⟩ ⟨k, hk, he⟩
    rw [page_eq_iff_number, pageNumber_linAt, pageNumber_linAt] at he
    exact h ⟨j, hj, rfl⟩ ⟨k, hk, he.symm⟩

/-- A single page as a run. -/
theorem single_run (x : U32int) : [x / pageSize] = (List.range 1).map fun k =>
    linAt x (4096 * k) / pageSize := by
  rw [List.range_one, List.map_singleton, Nat.mul_zero, linAt_zero]

theorem loadedPages_nodup_iff : (loadedPages s i).Nodup ↔
    Disjoint (arc (pageNumber (codeStart s)) (codeCount (recorded i)))
    (arc (pageNumber (dataStart s)) (dataCount (recorded i))) ∧
    Disjoint (arc (pageNumber (codeStart s)) (codeCount (recorded i)))
    (arc (pageNumber (stackLin s)) 1) ∧
    Disjoint (arc (pageNumber (dataStart s)) (dataCount (recorded i)))
    (arc (pageNumber (stackLin s)) 1) := by
  have hc : codeCount (recorded i) ≤ 2^20 := count_le _
  have hd : dataCount (recorded i) ≤ 2^20 := count_le _
  rw [loadedPages, single_run, List.nodup_append', List.nodup_append', List.disjoint_append_left,
    runs_disjoint_iff hc hd, runs_disjoint_iff hc (by decide), runs_disjoint_iff hd (by decide)]
  simp only [run_nodup _ hc, run_nodup _ hd, run_nodup (n := 1) _ (by decide), true_and]

/-- With room for the stacks the stack page lies behind the data pages. -/
theorem StackRoom.stack_disjoint (h : StackRoom s i) :
    Disjoint (arc (pageNumber (dataStart s)) (dataCount (recorded i)))
    (arc (pageNumber (stackLin s)) 1) := by
  have hlt := s.segmentsInfo.dataSegment.len.isLt
  rcases h with hzero | hroom
  · rw [dataCount_eq_zero.mpr hzero, arc_zero]
    exact Set.empty_disjoint _
  rcases Nat.eq_zero_or_pos (dataCount (recorded i)) with hzero | hpos
  · rw [hzero, arc_zero]
    exact Set.empty_disjoint _
  have hstack : stackLin s =
      linAt (dataStart s) (s.segmentsInfo.dataSegment.len.toNat - 8192 - 0xC00000) := by
    have hload : moduleDataLoadAddr.toNat = 0xC00000 := rfl
    have htwo : (pageSize * 2).toNat = 8192 := by decide
    apply BitVec.eq_of_toNat_eq
    rw [stackLin, linAt, dataStart, BitVec.toNat_add, BitVec.toNat_sub, BitVec.toNat_add,
      BitVec.toNat_add, BitVec.toNat_ofNat, hload, htwo]
    omega
  have hgap := pageNumber_gap (dataStart s)
    (d := s.segmentsInfo.dataSegment.len.toNat - 8192 - 0xC00000) (by omega)
  rw [← hstack] at hgap
  have hback : (pageNumber (dataStart s) - pageNumber (stackLin s)).toNat ≠ 0 := by
    intro he
    have hsame : pageNumber (dataStart s) - pageNumber (stackLin s) = 0 := BitVec.eq_of_toNat_eq he
    rw [sub_eq_zero.mp hsame, BitVec.sub_self, BitVec.toNat_zero] at hgap
    omega
  rw [disjoint_iff_clear hpos (by decide), Clear, hgap]
  omega

theorem codeClear_iff (hpos : 0 < i.codeSize.toNat) : CodeClear s i ↔
    Disjoint (arc (pageNumber (codeStart s)) (codeCount (recorded i)))
    (arc (pageNumber (dataStart s)) (dataCount (recorded i))) ∧
    Disjoint (arc (pageNumber (codeStart s)) (codeCount (recorded i)))
    (arc (pageNumber (stackLin s)) 1) := by
  have hcount : codeCount (recorded i) = (i.codeSize.toNat + 4095) / 4096 := pageCountOf_toNat _
  have hcode : 0 < codeCount (recorded i) := by omega
  rw [CodeClear, ← dataCount_eq_zero, disjoint_iff, disjoint_iff_clear hcode (by decide)]
  simp only [hcode.ne', false_or]

/-- `init_heap` computes just these. -/
theorem heapRange_eq (s : State) : heapRange s = arc (heapStart s) (heapLength s) := by
  have hstart : s.initHeap.heapStartRelVirtAddr = heapStart s := by
    rw [State.initHeap]
    rfl
  have hhalf : ((s.segmentsInfo.dataSegment.len - heapStart s) / 2 &&& 0xFFFFF000).toNat =
      (s.segmentsInfo.dataSegment.len - heapStart s).toNat / 8192 * 4096 := by
    rw [pageMask_toNat, BitVec.toNat_udiv, show (2 : U32int).toNat = 2 from rfl]
    omega
  have hsize : s.initHeap.heapSize.toNat = heapLength s := by
    have hfield : s.initHeap.heapSize =
        if (s.segmentsInfo.dataSegment.len - heapStart s) / 2 &&& 0xFFFFF000
          > tableSpan then tableSpan
        else (s.segmentsInfo.dataSegment.len - heapStart s) / 2 &&& 0xFFFFF000 := by
      rw [State.initHeap]
      rfl
    have hspan : (tableSpan : U32int).toNat = 0x400000 := rfl
    rw [hfield, heapLength]
    split_ifs with h
    · rw [gt_iff_lt, BitVec.lt_def, hhalf] at h
      omega
    · rw [gt_iff_lt, BitVec.lt_def, hhalf] at h
      omega
  rw [heapRange, hstart, hsize]

theorem heapClear_iff : HeapClear s i ↔ Disjoint (dataRange i) (heapRange s) := by
  have hdata : 4096 * dataCount (recorded i) = 0 ↔ i.dataSize = 0 := by
    rw [← dataCount_eq_zero]
    omega
  rw [HeapClear, dataRange, heapRange_eq, disjoint_iff, hdata]

/-- The pages of an accepted module collide with nothing exactly if its data leave room
for both stacks, miss the heap window, and its code pages are neither data pages nor the
stack page. -/
theorem collisionless_iff {s s' : State} {h : ModuleHeader} (hh : HeaderAt s h)
    (hi : s.moduleInfo.initialized = false) (hs : s.initModule = .ok (true, s')) :
    Collisionless s' s'.moduleInfo ↔
      StackRoom s s'.moduleInfo ∧ HeapClear s s'.moduleInfo ∧ CodeClear s s'.moduleInfo := by
  obtain ⟨ha, rfl⟩ := accepted_of_initModule hh hi hs
  have hpages : loadedPages (s.recordModule h) (s.recordModule h).moduleInfo =
      loadedPages s (s.recordModule h).moduleInfo := rfl
  generalize hr : (s.recordModule h).moduleInfo = i at hpages ⊢
  have hcode : 0 < i.codeSize.toNat := by
    rw [← hr]
    exact ha.code_pos
  rw [stackRoom_iff ha.data_room, heapClear_iff, codeClear_iff hcode]
  constructor
  · intro hc
    have hdistinct := hc.distinct
    rw [hpages, loadedPages_nodup_iff] at hdistinct
    exact ⟨⟨hc.module_stack, hc.kernel_stack⟩, hc.heap, hdistinct.1, hdistinct.2.1⟩
  · intro hc
    obtain ⟨hstacks, hheap, hdata, hstack⟩ := hc
    have hroom := (stackRoom_iff ha.data_room).mpr hstacks
    refine ⟨?_, hstacks.1, hstacks.2, hheap⟩
    rw [hpages, loadedPages_nodup_iff]
    exact ⟨hdata, hstack, hroom.stack_disjoint⟩

end

/-- The header in a module of 4 MiB, the data segment behind it and the code segment behind
that. The base of the data segment puts the page-table window at 0x200000. -/
def placedMachine (h : ModuleHeader) : State :=
  { machineWith h 0x400000 with
    segmentsInfo := ⟨⟨0x1600000, 0x1000000⟩, ⟨0x600000, 0x1000000⟩,
      ⟨videoBaseAddr, 0xFA0⟩, ⟨0x200000, 0x400000⟩⟩
    pageTablesRelVirtAddr := 0x200000 }

theorem headerAt_placedMachine (h : ModuleHeader) : HeaderAt (placedMachine h) h :=
  have hh := headerAt_machineWith h 0x400000
  ⟨hh.magic, hh.codeOffset, hh.codeSize, hh.dataOffset, hh.dataSize, hh.entryPoint⟩

/-- 0x100 bytes of code and as much data as `init_module` lets through. -/
def fullDataHeader : ModuleHeader := ⟨magic, 0, 0x100, 0x100, 0x3FEFFF, 0x400018⟩

theorem placed_accepted : ∀ h ∈ [linkedHeader, fullDataHeader],
    (placedMachine h).initModule = .ok (true, (placedMachine h).recordModule h) := by
  intro h hm
  rw [State.initModule_of_header (headerAt_placedMachine h) rfl, if_pos ?_]
  simp only [List.mem_cons, List.not_mem_nil, or_false] at hm
  rcases hm with rfl | rfl <;> decide

theorem collisionless_linkedHeader :
    Collisionless ((placedMachine linkedHeader).recordModule linkedHeader)
    ((placedMachine linkedHeader).recordModule linkedHeader).moduleInfo :=
  (collisionless_iff (headerAt_placedMachine linkedHeader) rfl (placed_accepted _ (by simp))).mpr
    ⟨.inr (by decide), .inr (.inr (by decide)), .inr (by decide), by decide⟩

/-- The last data page is the page of the module's stack. -/
theorem fullDataHeader_collides : ¬ ∀ (s s' : State) (h : ModuleHeader), HeaderAt s h →
    s.moduleInfo.initialized = false → s.initModule = .ok (true, s') →
    Collisionless s' s'.moduleInfo := by
  intro hall
  have hc := hall _ _ _ (headerAt_placedMachine fullDataHeader) rfl (placed_accepted _ (by simp))
  have hdata : (0xFFE000 : U32int) ∈ arc moduleDataLoadAddr (4096 * 0x3FF) :=
    mem_arc.mpr (by decide)
  have hcount : dataCount (recorded
      ((placedMachine fullDataHeader).recordModule fullDataHeader).moduleInfo) = 0x3FF := by
    decide
  have hmeets := hc.module_stack
  rw [dataRange, hcount] at hmeets
  exact Set.disjoint_left.mp hmeets hdata (mem_arc.mpr (by decide))

end SimpleOs.Audit.ModulePages
