import SimpleOs.Audit.HeapBreak
import SimpleOs.Audit.KernelBoot

/-!
# Growing the heap

`sbrk` maps free pages behind the break and clears them. In a running kernel with
enough free pages it does so for every increment, and the only other bytes that
change are those of the page bitmap, the directory and the page tables.
-/

namespace SimpleOs.Audit.HeapGrowth

open SimpleOs.Kernel SimpleOs.Lib SimpleOs.Lib.ByteMemory SimpleOs.Audit.PageTables
open SimpleOs.Audit.PagingBoot SimpleOs.Audit.AddressSpace SimpleOs.Audit.PageSupply
open SimpleOs.Audit.Bookkeeping
open SimpleOs.Audit.LinearView SimpleOs.Audit.PageRuns SimpleOs.Audit.HeapBreak
open SimpleOs.Audit.CallFrame SimpleOs.Audit.KernelBoot
open SimpleOs.Lib.PackedBits (bit byteAt)

section

variable (s : State) (t : TableMap) (a : Space) (increment : U32int)

def heapLin : U32int := s.heapBrk + s.dataBase
def heapPages : Nat := increment.toNat / 4096

/-- The directory entries the new pages come under. -/
def heapSpans : Finset U32int :=
  (Finset.range (heapPages increment)).image fun k => tableIndex (linAt (heapLin s) (4096 * k))

/-- A running kernel in which the heap can grow by `increment`. -/
structure Growable : Prop where
  ready : Ready s t a
  apart : Apart s
  on : s.pagingEnabled = true
  increment_aligned : increment.toNat % 4096 = 0
  brk_aligned : s.heapBrk.toNat % 4096 = 0
  behind : s.pageTablesRelVirtAddr.toNat + 0x400000 ≤ s.heapBrk.toNat
  no_wrap : s.heapBrk.toNat + increment.toNat < 2^32
  below : s.heapBrk + increment < s.heapStartRelVirtAddr + s.heapSize
  inside : ∀ k < increment.toNat, s.heapBrk.toNat + k ≤ s.segmentsInfo.dataSegment.limit.toNat
  enough : need (heapSpans s increment) a + heapPages increment ≤ (dataFree s).length

/-- Bytes of the data bitmap, of the directory with its pointers, and of the tables. -/
def Accounts (y : U32int) : Prop :=
  (y - s.memoryBitmap.dataBitmap).toNat < (segmentPages s + 7) / 8 ∨
    (y - s.kernelPageDirectory).toNat < 8192 ∨ ∃ i p, t i = some p ∧ (y - p).toNat < 4096

/-- A physical byte a call that ends in `s'` may write: of the accounts, or of a page it
has taken. -/
def Writable (s' : State) (x : U32int) : Prop :=
  Accounts s t (x - s.dataBase) ∨
    ∃ f ∈ dataFree s, f ∉ dataFree s' ∧ x / pageSize = frameOf s.dataBase f

end

section

variable {s s' : State} {t t' : TableMap} {a a' : Space}
  {increment : U32int} {k : Nat} {L' : Memory}

theorem heapLin_aligned (h : Growable s t a increment) : (heapLin s).toNat % 4096 = 0 := by
  have hb := h.brk_aligned
  have hd := h.ready.holds.tables.base_aligned
  rw [heapLin, BitVec.toNat_add]
  omega

theorem heapSpans_card (s : State) (increment : U32int) :
    (heapSpans s increment).card ≤ heapPages increment := by
  refine Finset.card_image_le.trans ?_
  rw [Finset.card_range]

theorem heapPages_le (h : Growable s t a increment) :
    4096 * heapPages increment = increment.toNat ∧ heapPages increment < 2^20 := by
  have hi := h.increment_aligned
  have hlt := increment.isLt
  rw [heapPages]
  omega

theorem heapPage_toNat (s : State) (k : Nat) : (linAt (heapLin s) (4096 * k)).toNat =
    (s.heapBrk.toNat + s.dataBase.toNat + 4096 * k) % 2^32 := by
  rw [linAt, heapLin, BitVec.toNat_add, BitVec.toNat_add, BitVec.toNat_ofNat]
  omega

/-- The range is behind the window, also where linear addresses start again at zero. -/
theorem Growable.outside (h : Growable s t a increment) (hk : k < heapPages increment) :
    Outside a (linAt (heapLin s) (4096 * k)) := by
  have hlin := heapPage_toNat s k
  have hwin := h.ready.holds.tables.window_start
  have hbehind := h.behind
  have hwrap := h.no_wrap
  obtain ⟨hinc, -⟩ := heapPages_le h
  have hbase := s.dataBase.isLt
  rw [Outside, ← h.ready.holds.window]
  intro he
  have hn := congrArg BitVec.toNat he
  rw [tableIndex_toNat, hlin] at hn
  omega

/-- No page of the range is one of kernel data. -/
theorem Growable.not_kernel (h : Growable s t a increment) (hk : k < heapPages increment)
    {q : U32int} (hq : q.toNat < s.kernelPageDirectory.toNat + 8192) :
    (q + s.dataBase) / pageSize ≠ linAt (heapLin s) (4096 * k) / pageSize := by
  intro he
  have hlin := heapPage_toNat s k
  have habove := h.ready.holds.tables.window_above
  have hwin := h.ready.holds.tables.window_start
  have hidx := tableIndex_lt (s.pageTablesRelVirtAddr + s.dataBase)
  change (windowIndexOf s).toNat < 1024 at hidx
  have hd := h.ready.holds.tables.base_aligned
  have hbehind := h.behind
  have hbrk := h.brk_aligned
  have hwrap := h.no_wrap
  obtain ⟨hinc, -⟩ := heapPages_le h
  have hbase := s.dataBase.isLt
  have hn := congrArg BitVec.toNat he
  rw [page_toNat, page_toNat, hlin, BitVec.toNat_add] at hn
  omega

theorem Growable.spares (h : Growable s t a increment) (hk : k < heapPages increment) (f : U32int) :
    SparesKernel s (linAt (heapLin s) (4096 * k)) f :=
  fun _ hq he => absurd he (h.not_kernel hk hq)

/-- After `k` rounds. -/
structure HeapMapped (s : State) (t : TableMap) (a : Space) (increment : U32int) (k : Nat)
    (s' : State) (t' : TableMap) (a' : Space) (L' : Memory) : Prop where
  only_data : s' = s.withData s'.data
  view : View s' t' a' (pagesFrom (heapLin s) k) L'
  window : a'.window = a.window
  supply : need (heapSpans s increment) a' + (heapPages increment - k) ≤ (dataFree s').length
  free : dataFree s' <:+ dataFree s
  codeFree : codeFree s' = codeFree s
  tables : ∀ i p, t' i = some p → t i = some p ∨ ∃ f ∈ dataFree s, p = pageAt f
  low : LowKept s s'
  frame : ∀ y, ¬ Books s t' y → s'.data y = s.data y
  bound : ∀ j < k, ∃ f ∈ dataFree s, a'.bindings (linAt (heapLin s) (4096 * j) / pageSize) =
    some ⟨frameOf s.dataBase f, true, false⟩
  others : ∀ q ∉ pagesFrom (heapLin s) k, a'.bindings q = a.bindings q

theorem HeapMapped.start (h : Growable s t a increment) :
    HeapMapped s t a increment 0 s t a s.memory where
  only_data := (State.withData_self s).symm
  view := by
    rw [pagesFrom_zero]
    exact ⟨h.ready, h.apart, h.on, fun _ hl => hl.elim, fun _ hq => hq.elim,
      fun _ hq => hq.elim, fun _ hl => hl.elim⟩
  window := rfl
  supply := h.enough
  free := List.suffix_rfl
  codeFree := rfl
  tables := fun _ _ hp => .inl hp
  low := fun _ _ _ => rfl
  frame := fun _ _ => rfl
  bound := fun j hj => absurd hj (Nat.not_lt_zero j)
  others := fun _ _ => rfl

/-- A page that is taken and mapped leaves kernel data below the directory alone. -/
theorem low_of_mapData {s1 : State} {f : Nat} {rest : List Nat} {segment : Segment}
    {v p p' : U32int} {rw user : Bool} (h : Ready s t a) (hf : dataFree s = f :: rest)
    (hfree : tableIndex (v + segment.base) ∉ a.covered → rest ≠ [])
    (halloc : s.allocDataPage = .ok (p, s1)) (hmap : State.mmapUnchecked segment v p' rw user s1 =
      .ok s') : LowKept s s' := by
  obtain ⟨s2, halloc', hr1, hd⟩ := h.allocDataPage hf
  cases halloc'.symm.trans halloc
  obtain ⟨⟨b, s3⟩, hcall, hmap⟩ := bind_ok hmap
  cases hmap
  rw [← hd.dataFree] at hfree
  exact (h.allocDataPage_low hf halloc).trans hd.only_data (hr1.mmap_low hfree hcall)

theorem HeapMapped.step (hg : Growable s t a increment) (hk : k < heapPages increment)
    (h : HeapMapped s t a increment k s' t' a' L') : ∃ s'' t'' a'' L'',
      State.sbrkPage (linAt s.heapBrk (4096 * k)) s' = .ok s'' ∧
        HeapMapped s t a increment (k + 1) s'' t'' a'' L'' := by
  have hsupply := h.supply
  have hbase : s'.dataBase = s.dataBase := by rw [h.only_data]; rfl
  obtain ⟨f, rest, hfree⟩ : ∃ f rest, dataFree s' = f :: rest :=
    List.exists_cons_of_length_pos (by omega)
  have hmem : ∀ j ∈ f :: rest, j ∈ dataFree s := fun j hj => h.free.subset (hfree ▸ hj)
  have hlin : linAt s.heapBrk (4096 * k) + s'.dataBase = linAt (heapLin s) (4096 * k) := by
    rw [hbase, linAt_base]
    rfl
  have hnew : linAt (heapLin s) (4096 * k) / pageSize ∉ pagesFrom (heapLin s) k :=
    not_mem_pagesFrom (heapLin_aligned hg) (hk.trans (heapPages_le hg).2)
  have hspan : tableIndex (linAt (heapLin s) (4096 * k)) ∈ heapSpans s increment :=
    Finset.mem_image_of_mem _ (Finset.mem_range.mpr hk)
  have hout : Outside a' (linAt (heapLin s) (4096 * k)) := by
    rw [Outside, h.window]
    exact hg.outside hk
  have hspares : SparesKernel s' (linAt (heapLin s) (4096 * k)) (frameOf s'.dataBase f) := by
    rw [h.only_data]
    exact hg.spares hk _
  obtain ⟨s1, s'', t'', halloc, hnull, hinfo, hmap, hadded, hneed, hcode, hleft, htables⟩ :=
    h.view.mapData (v := linAt s.heapBrk (4096 * k)) (r := heapPages increment - (k + 1))
      (I := heapSpans s increment) true false hfree (by rw [hlin]; exact hspan) (by omega)
      (by rw [hlin]; exact hnew) (by rw [hlin]; exact hout) (by rw [hlin]; exact hspares)
  have hlow : LowKept s' s'' := by
    refine low_of_mapData h.view.ready hfree (fun hcov hnil => ?_) halloc hmap
    rw [hinfo] at hcov
    have hpos := need_pos hspan (hlin ▸ hcov)
    rw [hfree, hnil, List.length_singleton] at hsupply
    omega
  rw [hlin] at hadded hneed
  have hview := hadded.view
  rw [← pagesFrom_succ] at hview
  refine ⟨s'', t'', _, _, ?_, ?_, hview, h.window, hneed, ?_, hcode.trans h.codeFree,
    fun i p hp => ?_, h.low.trans h.only_data hlow, fun y hy => ?_, fun j hj => ?_, fun q hq => ?_⟩
  · rw [State.sbrkPage, bind_of_ok halloc]
    exact (bind_of_ok (assert_ne_null hnull) _).trans hmap
  · rw [hadded.only_data, h.only_data, State.withData_data, State.withData_withData]
  · exact hleft.trans ((hfree ▸ List.suffix_cons f rest).trans h.free)
  · obtain hold | ⟨j, hj, rfl⟩ := htables i p hp
    · exact h.tables i p hold
    · exact .inr ⟨j, hmem j (List.mem_cons_of_mem _ hj), rfl⟩
  · rw [hadded.frame y (by rw [h.only_data]; exact hy)]
    exact h.frame y fun hb => hy (hb.mono hadded.grows)
  · rcases Nat.lt_or_eq_of_le (Nat.le_of_lt_succ hj) with hlt | rfl
    · obtain ⟨g, hg', hb⟩ := h.bound j hlt
      refine ⟨g, hg', (map_bindings_of_ne a' _ fun he => hnew ?_).trans hb⟩
      exact ⟨j, hlt, he.symm⟩
    · exact ⟨f, hmem f List.mem_cons_self, by rw [← hbase]; exact map_bindings_self ..⟩
  · rw [pagesFrom_succ, Set.mem_insert_iff, not_or] at hq
    exact (map_bindings_of_ne a' _ hq.1).trans (h.others q hq.2)

/-- The loop comes back with every page of the range mapped. -/
theorem mapHeapPages (h : Growable s t a increment) : ∃ s' t' a' L',
    s.forLoop (· < s.heapBrk + increment) pageSize s.heapBrk State.sbrkPage = .ok s' ∧
      HeapMapped s t a increment (heapPages increment) s' t' a' L' := by
  obtain ⟨hinc, hpages⟩ := heapPages_le h
  have hwrap := h.no_wrap
  have hbrk := h.brk_aligned
  have hend : (s.heapBrk + increment).toNat = s.heapBrk.toNat + increment.toNat := by
    rw [BitVec.toNat_add, Nat.mod_eq_of_lt hwrap]
  obtain ⟨s', hrun, t', a', L', hmapped⟩ := Loops.foldlM_range_ok
    (P := fun k s' => ∃ t' a' L', HeapMapped s t a increment k s' t' a' L')
    (fun k hk s' hs' => by
      obtain ⟨t', a', L', hm⟩ := hs'
      obtain ⟨s'', t'', a'', L'', hcall, hnext⟩ := hm.step h hk
      exact ⟨s'', hcall, t'', a'', L'', hnext⟩)
    ⟨t, a, s.memory, HeapMapped.start h⟩
  refine ⟨s', t', a', L', ?_, hmapped⟩
  rw [pageLoop_eq (n := heapPages increment) (by omega) (fun k hk => by rw [hend]; omega)]
  exact hrun

/-- The three heap globals are set, ... -/
def setHeap (s : State) (start size brk : U32int) : State :=
  { s with heapStartRelVirtAddr := start, heapSize := size, heapBrk := brk }

/-- ... and what is known about the module. -/
def setGlobals (s : State) (start size brk : U32int) (i : ModuleInfo) : State :=
  { setHeap s start size brk with moduleInfo := i }

variable {V : Set U32int} {L : Memory} (start size brk : U32int) (i : ModuleInfo)

/-- These globals have no part in paging. -/
theorem Ready.setGlobals (h : Ready s t a) : Ready (setGlobals s start size brk i) t a where
  holds :=
    { tables := ⟨⟨⟨h.holds.tables.base_aligned, h.holds.tables.dir_aligned, h.holds.tables.dir_end,
        h.holds.tables.window_start, h.holds.tables.window_above, h.holds.tables.bitmap_size,
        h.holds.tables.bitmap_end⟩, h.holds.tables.pde_some, h.holds.tables.pde_none,
        h.holds.tables.window, h.holds.tables.window_some,
        fun i p hp => ⟨(h.holds.tables.page i p hp).aligned, (h.holds.tables.page i p hp).above,
          (h.holds.tables.page i p hp).inside⟩, h.holds.tables.inj⟩, h.holds.tables.ptr⟩
      accounted := ⟨h.holds.accounted.kernel, h.holds.accounted.table⟩
      cr3 := h.holds.cr3
      window := h.holds.window
      covered := h.holds.covered
      translates := h.holds.translates }
  supply := ⟨h.supply.initialized, h.supply.size, h.supply.bitmap_end⟩
  reach := h.reach

theorem Apart.setGlobals (h : Apart s) : Apart (setGlobals s start size brk i) :=
  ⟨h.code_aligned, h.code_end, h.data_end, h.disjoint⟩

theorem View.setGlobals (h : View s t a V L) : View (setGlobals s start size brk i) t a V L where
  ready := Ready.setGlobals start size brk i h.ready
  apart := Apart.setGlobals start size brk i h.apart
  on := h.on
  outside := h.outside
  bound := fun q hq => by
    obtain ⟨b, hb, hp⟩ := h.bound q hq
    exact ⟨b, hb, ⟨⟨hp.table, hp.data, hp.code⟩, hp.kernel⟩⟩
  own := h.own
  bytes := h.bytes

theorem Ready.setHeap (h : Ready s t a) : Ready (setHeap s start size brk) t a :=
  Ready.setGlobals start size brk s.moduleInfo h

theorem Apart.setHeap (h : Apart s) : Apart (setHeap s start size brk) :=
  Apart.setGlobals start size brk s.moduleInfo h

theorem View.setHeap (h : View s t a V L) : View (setHeap s start size brk) t a V L :=
  View.setGlobals start size brk s.moduleInfo h

/-- What a successful call leaves behind. -/
structure Grown (s : State) (t : TableMap) (a : Space)
    (increment : U32int) (s' : State) : Prop where
  globals : s' = (moved s increment).withMemory s'.memory
  mapped : ∃ page : Nat → Nat, (∀ k < heapPages increment, page k ∈ dataFree s ∧
      bit s'.data s.memoryBitmap.dataBitmap (page k) = true) ∧
    (∀ j < heapPages increment, ∀ k < heapPages increment,
      frameOf s.dataBase (page j) = frameOf s.dataBase (page k) → j = k) ∧
    ∀ k < increment.toNat, translation s' (linAt (heapLin s) k) =
      some ⟨frameOf s.dataBase (page (k / 4096)), true, false⟩
  zero : ∀ k < increment.toNat, s'.load8 (linAt s.heapBrk k) = .ok 0
  translates : ∀ lin, lin / pageSize ∉ pagesFrom (heapLin s) (heapPages increment) → Outside a lin →
    translation s' lin = translation s lin
  contents : ∀ x, ¬ Writable s t s' x → s'.memory x = s.memory x
  data_bits : ∀ i < segmentPages s, bit s.data s.memoryBitmap.dataBitmap i = true →
    bit s'.data s.memoryBitmap.dataBitmap i = true
  code_bits : ∀ i < codePages s,
    bit s'.data s.memoryBitmap.codeBitmap i = bit s.data s.memoryBitmap.codeBitmap i

theorem sbrk_eq (s : State) (increment : U32int) (h : Growable s t a increment) : s.sbrk increment =
    s.forLoop (· < s.heapBrk + increment) pageSize s.heapBrk State.sbrkPage >>= fun s' =>
      (moved s' increment).memset s.heapBrk 0x0 increment.toNat >>= fun s'' =>
          .ok (s.heapBrk, s'') := by
  have hinc : (increment % pageSize == 0) = true := by
    rw [beq_iff_eq, ← BitVec.toNat_inj, BitVec.toNat_umod]
    exact h.increment_aligned
  have hbrk : (s.heapBrk % pageSize == 0) = true := by
    rw [beq_iff_eq, ← BitVec.toNat_inj, BitVec.toNat_umod]
    exact h.brk_aligned
  have hbelow : decide (s.heapBrk + increment < s.heapStartRelVirtAddr + s.heapSize) = true :=
    decide_eq_true h.below
  simp only [State.sbrk, assert, hinc, hbrk, hbelow, if_true, ok_bind, pure_ok]
  rfl

/-- A page table is taken. -/
theorem HeapMapped.table_taken (h : HeapMapped s t a increment k s' t' a' L') {i : U32int}
    {f : Nat} (hp : t' i = some (pageAt f)) (hf : f < segmentPages s) : f ∉ dataFree s' := by
  have hused := h.view.ready.holds.accounted.table i _ hp
  have hpage : (pageAt f).toNat / 4096 = f := by
    rw [pageAt_toNat hf]
    omega
  rw [hpage] at hused
  intro hfree
  exact absurd hused (Bool.eq_false_iff.mp (PackedBits.mem_freeList.mp hfree).2)

/-- A page that is neither taken nor a table keeps its bytes while the range is mapped. -/
theorem HeapMapped.memory_eq (h : HeapMapped s t a increment k s' t' a' L')
    (hg : Growable s t a increment)
    {x : U32int} (hx : ¬ Writable s t s' x) : s'.memory x = s.memory x := by
  have hbase : s'.dataBase = s.dataBase := by rw [h.only_data]; rfl
  have hend := hg.ready.holds.tables.dir_end
  have hlen := segmentPages_le s
  suffices hdata : s'.data (x - s.dataBase) = s.data (x - s.dataBase) by
    rwa [State.data, State.data, fromBase, fromBase, hbase, sub_add_cancel] at hdata
  by_cases hlow : (x - s.dataBase).toNat < s.kernelPageDirectory.toNat
  · refine h.low _ hlow (Nat.not_lt.mp fun hb => hx (.inl (.inl hb)))
  · refine h.frame _ ?_
    intro h
    rcases h with hkernel | ⟨i, p, hp, hin⟩
    · refine hx (.inl (.inr (.inl ?_)))
      rw [BitVec.toNat_sub]
      omega
    · obtain hold | ⟨f, hf, rfl⟩ := h.tables i p hp
      · exact hx (.inl (.inr (.inr ⟨i, p, hold, hin⟩)))
      · have hfs := (PackedBits.mem_freeList.mp hf).1
        have hpage : (pageAt f).toNat = 4096 * f := pageAt_toNat hfs
        refine hx (.inr ⟨f, hf, h.table_taken hp hfs, ?_⟩)
        have halign : (pageAt f + s.dataBase).toNat % 4096 = 0 := by
          have hd := hg.ready.holds.tables.base_aligned
          rw [BitVec.toNat_add]
          omega
        rw [sub_sub, add_comm s.dataBase] at hin
        rw [frameOf]
        apply BitVec.eq_of_toNat_eq
        rw [page_toNat, page_toNat]
        bv_omega

/-- Every page of the range shows the frame of a page that was free and is taken. -/
theorem HeapMapped.frame_writable (h : HeapMapped s t a increment k s' t' a' L') {q : U32int}
    {b : Binding} (hq : q ∈ pagesFrom (heapLin s) k) (hb : a'.bindings q = some b) :
    ∃ f ∈ dataFree s, f ∉ dataFree s' ∧ b.frame = frameOf s.dataBase f := by
  have hbase : s'.dataBase = s.dataBase := by rw [h.only_data]; rfl
  obtain ⟨b', hb', hprivate⟩ := h.view.bound q hq
  obtain rfl := Option.some.inj (hb'.symm.trans hb)
  obtain ⟨j, hj, rfl⟩ := hq
  obtain ⟨f, hf, hbound⟩ := h.bound j hj
  obtain rfl := Option.some.inj (hbound.symm.trans hb)
  exact ⟨f, hf, fun hfree => hprivate.data f hfree (by rw [hbase]), rfl⟩

/-- The range after all its pages are mapped and the break is moved. -/
theorem HeapMapped.range (h : HeapMapped s t a increment (heapPages increment) s' t' a' L')
    (hg : Growable s t a increment) {k : Nat} (hk : k < increment.toNat) :
    linAt s.heapBrk k ≤ s'.segmentsInfo.dataSegment.limit ∧
      linAt s.heapBrk k + s'.dataBase = linAt (heapLin s) k ∧
      linAt (heapLin s) k / pageSize ∈ pagesFrom (heapLin s) (heapPages increment) := by
  obtain ⟨hinc, hpages⟩ := heapPages_le hg
  have hwrap := hg.no_wrap
  have hbase : s'.dataBase = s.dataBase := by rw [h.only_data]; rfl
  have hseg : s'.segmentsInfo = s.segmentsInfo := by rw [h.only_data]; rfl
  refine ⟨?_, ?_, linAt_mem (heapLin_aligned hg) hpages.le (by omega)⟩
  · have hinside := hg.inside k hk
    rw [hseg, BitVec.le_def, linAt, BitVec.toNat_add, BitVec.toNat_ofNat]
    omega
  · rw [hbase, linAt_base]
    rfl

/-- The frames of the range, page by page. -/
theorem HeapMapped.pages (h : HeapMapped s t a increment (heapPages increment) s' t' a' L')
    (hg : Growable s t a increment) : ∃ page : Nat → Nat,
      (∀ k < heapPages increment, page k ∈ dataFree s) ∧
      (∀ j < heapPages increment, ∀ k < heapPages increment,
        frameOf s.dataBase (page j) = frameOf s.dataBase (page k) → j = k) ∧
      ∀ k < heapPages increment, a'.bindings (linAt (heapLin s) (4096 * k) / pageSize) =
        some ⟨frameOf s.dataBase (page k), true, false⟩ := by
  obtain ⟨hinc, hpages⟩ := heapPages_le hg
  choose! page hpage hbound using h.bound
  refine ⟨page, hpage, fun j hj k hk he => ?_, hbound⟩
  have hsame := h.view.own _ ⟨j, hj, rfl⟩ _ ⟨k, hk, rfl⟩ _ _ (hbound j hj) (hbound k hk) he
  have hsub := (page_eq_iff_sub (heapLin_aligned hg) (hk.trans hpages)).mp hsame
  rw [linAt_sub (by omega)] at hsub
  omega

/-- `sbrk` comes back with the range mapped and cleared. -/
theorem Growable.sbrk (h : Growable s t a increment) :
    ∃ s', s.sbrk increment = .ok (s.heapBrk, s') ∧ Grown s t a increment s' := by
  obtain ⟨s1, t1, a1, L1, hrun, hm⟩ := mapHeapPages h
  obtain ⟨hinc, hpages⟩ := heapPages_le h
  have hview : View (moved s1 increment) t1 a1 (pagesFrom (heapLin s) (heapPages increment)) L1 :=
    View.setHeap _ _ _ hm.view
  have hbase : s1.dataBase = s.dataBase := by rw [hm.only_data]; rfl
  have hrange : ∀ k : U32int, k.toNat < increment.toNat →
      s.heapBrk + k ≤ (moved s1 increment).segmentsInfo.dataSegment.limit ∧
        (s.heapBrk + k + (moved s1 increment).dataBase) / pageSize ∈
          pagesFrom (heapLin s) (heapPages increment) := fun k hk => by
    obtain ⟨hlim, hlin, hin⟩ := hm.range h hk
    rw [linAt, BitVec.ofNat_toNat, BitVec.setWidth_eq] at hlim hlin
    exact ⟨hlim, by rw [← hlin] at hin; exact hin⟩
  obtain ⟨s', hset, hst⟩ := hview.memset 0x0 increment.isLt.le hrange
  have hcall : s.sbrk increment = .ok (s.heapBrk, s') := by
    rw [sbrk_eq s increment h, bind_of_ok hrun, bind_of_ok hset]
  have hglobals := (sbrk_spec hcall).2.2
  have hleft : dataFree s' = dataFree s1 := hst.dataFree
  have hfree : dataFree s' <:+ dataFree s := by
    rw [hleft]
    exact hm.free
  have hcode : codeFree s' = codeFree s := hst.codeFree.trans hm.codeFree
  have htr := hst.view.ready.holds.translates
  have hinfo : s'.segmentsInfo = s.segmentsInfo ∧ s'.memoryBitmap = s.memoryBitmap := by
    rw [hglobals]
    exact ⟨rfl, rfl⟩
  have hbase' : s'.dataBase = s.dataBase := by rw [State.dataBase, hinfo.1]; rfl
  refine ⟨s', hcall, hglobals, ?_, fun k hk => ?_, fun lin hlin ho => ?_, fun x hx => ?_,
    fun i hi hused => ?_, fun i hi => ?_⟩
  · obtain ⟨page, hpage, hown, hbound⟩ := hm.pages h
    refine ⟨page, fun k hk => ⟨hpage k hk, ?_⟩, hown, fun k hk => ?_⟩
    · obtain ⟨b, hb, hprivate⟩ := hst.view.bound _ ⟨k, hk, rfl⟩
      obtain rfl := Option.some.inj (hb.symm.trans (hbound k hk))
      have hin := (PackedBits.mem_freeList.mp (hpage k hk)).1
      have hnot : page k ∉ dataFree s' := fun hmem => hprivate.data _ hmem (by rw [hbase'])
      exact PackedBits.bit_of_not_mem (n := segmentPages s) (by
        rwa [dataFree, segmentPages, hinfo.1, hinfo.2] at hnot) hin
    obtain ⟨-, -, hin⟩ := hm.range h hk
    have hsame : linAt (heapLin s) k / pageSize = linAt (heapLin s)
        (4096 * (k / 4096)) / pageSize := by
      rw [page_eq_iff_sub (heapLin_aligned h) (by omega), linAt_sub (by omega)]
    rw [htr _ (hst.view.outside _ hin), hsame]
    exact hbound _ (by omega)
  · obtain ⟨hlim, hlin, hin⟩ := hm.range h hk
    have hseg : s'.segmentsInfo = s1.segmentsInfo := by
      rw [hinfo.1, hm.only_data]
      rfl
    rw [← hseg] at hlim
    rw [hbase, ← hbase'] at hlin
    have hload := hst.view.load hlim (by rw [← hlin] at hin; exact hin)
    refine hload.trans (congrArg Except.ok ?_)
    change fill L1 (s.heapBrk + s1.dataBase) increment.toNat 0 (linAt s.heapBrk k + s'.dataBase) = 0
    rw [hlin, hbase]
    change (if (linAt (heapLin s) k - heapLin s).toNat < increment.toNat then 0 else _) = _
    rw [linAt_sub (by omega), if_pos hk]
  · have houter : Outside a1 lin := by
      rw [Outside, hm.window]
      exact ho
    rw [htr lin houter, hm.others _ hlin, h.ready.holds.translates lin ho]
  · rw [Writable, hleft] at hx
    have hsame : s'.memory x = (moved s1 increment).memory x := by
      refine hview.memset_frame 0x0 (fun q hq b hb he => ?_) increment.isLt.le hrange hset
      obtain ⟨f, hf, htaken, hframe⟩ := hm.frame_writable hq hb
      exact hx (.inr ⟨f, hf, htaken, he.trans hframe⟩)
    exact hsame.trans (hm.memory_eq h hx)
  · refine PackedBits.bit_of_freeList_subset (n := segmentPages s) (fun j hj => ?_) hi hused
    refine hfree.subset ?_
    rwa [dataFree, segmentPages, hinfo.1, hinfo.2]
  · refine PackedBits.bit_of_freeList_eq (n := codePages s) ?_ hi
    rwa [codeFree, codePages, hinfo.1, hinfo.2] at hcode

/-- With pages enough for the range and its tables, `sbrk` maps free pages of their own
behind the break and clears them. Every other page outside the window is translated as
before, and shows the same bytes unless the call had to write them. -/
theorem sbrk_grows (h : Growable s t a increment) :
    ∃ s', s.sbrk increment = .ok (s.heapBrk, s') ∧ Grown s t a increment s' ∧
      ∀ lin, lin / pageSize ∉ pagesFrom (heapLin s) (heapPages increment) → Outside a lin →
        translation s' lin = translation s lin ∧ ∀ b, translation s lin = some b →
          ¬ Writable s t s' (inFrame b.frame lin) →
            s'.memory (inFrame b.frame lin) = s.memory (inFrame b.frame lin) := by
  obtain ⟨s', hcall, hs⟩ := h.sbrk
  exact ⟨s', hcall, hs, fun lin hlin ho => ⟨hs.translates lin hlin ho,
    fun b _ hx => hs.contents _ hx⟩⟩

theorem memset_inside {c : U8int} {n : Nat} :
    ∀ {s s' : State} {rel : U32int}, s.memset rel c n = .ok s' →
    ∀ k < n, linAt rel k ≤ s.segmentsInfo.dataSegment.limit := by
  induction n with
  | zero => exact fun _ k hk => absurd hk (Nat.not_lt_zero k)
  | succ n ih =>
    intro s s' rel h k hk
    obtain ⟨s1, hstore, h⟩ := bind_ok h
    have hsame := store8_memoryOnly hstore
    obtain ⟨x, hx, -⟩ := bind_ok hstore
    cases k with
    | zero =>
      rw [linAt_zero]
      by_contra hlim
      rw [State.dataAddr, State.segAddr, if_neg hlim] at hx
      cases hx
    | succ k =>
      have hnext := ih h k (Nat.lt_of_succ_lt_succ hk)
      rw [hsame] at hnext
      rw [linAt_succ]
      exact hnext

/-- The range is cleared through the data segment, up to its limit and no further. -/
theorem sbrk_inside {address : U32int} (h : s.sbrk increment = .ok (address, s')) {k : Nat}
    (hk : k < increment.toNat) : linAt s.heapBrk k ≤ s.segmentsInfo.dataSegment.limit := by
  obtain ⟨_, -, h⟩ := bind_ok h
  obtain ⟨_, -, h⟩ := bind_ok h
  obtain ⟨_, -, h⟩ := bind_ok h
  obtain ⟨s1, h1, h⟩ := bind_ok h
  obtain ⟨s2, h2, -⟩ := bind_ok h
  have hlim := memset_inside h2 k hk
  have hloop := forLoop_memoryOnly (fun _ _ _ => sbrkPage_memoryOnly) h1
  rw [hloop] at hlim
  exact hlim

/-- The bitmap that hands out the pages is memory of the kernel: one of its bytes, in a
page outside the range, changes. -/
theorem Grown.bitmap_changes (hs : Grown s t a increment s') (h : Growable s t a increment)
    (hpos : 0 < increment.toNat) : ∃ lin b,
      lin / pageSize ∉ pagesFrom (heapLin s) (heapPages increment) ∧ Outside a lin ∧
      translation s lin = some b ∧ translation s' lin = some b ∧
      s'.memory (inFrame b.frame lin) ≠ s.memory (inFrame b.frame lin) := by
  obtain ⟨hinc, -⟩ := heapPages_le h
  obtain ⟨page, hpage, -, -⟩ := hs.mapped
  obtain ⟨hmem, hused⟩ := hpage 0 (by omega)
  obtain ⟨hf, hclear⟩ := PackedBits.mem_freeList.mp hmem
  have hl := h.ready.holds.tables.toLayout
  have hend := hl.bitmap_end
  have hdir := hl.dir_end
  have hlen := segmentPages_le s
  have hq : (byteAt s.memoryBitmap.dataBitmap (page 0)).toNat <
      s.kernelPageDirectory.toNat + 8192 := by
    rw [byteAt]
    bv_omega
  generalize hlin : byteAt s.memoryBitmap.dataBitmap (page 0) + s.dataBase = lin
  have hnot : lin / pageSize ∉ pagesFrom (heapLin s) (heapPages increment) := by
    intro h
    obtain ⟨k, hk, he⟩ := h
    exact h.not_kernel hk hq (hlin ▸ he)
  have hout : Outside a lin := by
    rw [Outside, ← h.ready.holds.window, ← hlin]
    exact KernelAccess.kernel_index_ne hl hq
  obtain ⟨b, hb, hframe⟩ := (h.ready.reach h.on).1 _ hq
  rw [hlin] at hb hframe
  have htr : translation s lin = some b := (h.ready.holds.translates lin hout).trans hb
  refine ⟨lin, b, hnot, hout, htr, (hs.translates lin hnot hout).trans htr, fun he => ?_⟩
  rw [hframe, inFrame_self, ← hlin] at he
  have hbase : s'.dataBase = s.dataBase := by rw [hs.globals]; rfl
  have hbyte : s'.data (byteAt s.memoryBitmap.dataBitmap (page 0)) =
      s.data (byteAt s.memoryBitmap.dataBitmap (page 0)) := by
    rw [State.data, State.data, fromBase, fromBase, hbase]
    exact he
  rw [bit, hbyte, ← bit, hclear] at hused
  cases hused

end

theorem initHeap_eq {s : State} {start size : U32int}
    (hstart : s.pageTablesRelVirtAddr + tableSpan = start)
    (hsize : (if (s.segmentsInfo.dataSegment.len - start) / 2 &&& 0xFFFFF000
    > tableSpan then tableSpan
      else (s.segmentsInfo.dataSegment.len - start) / 2 &&& 0xFFFFF000) = size) :
    s.initHeap = setHeap s start size start := by
  subst hsize hstart
  rfl

section

variable {dirty : Byte} {s : State} {t : TableMap} {a : Space} {r : Nat}
  (h : BootMapped (startState (bootMachine dirty) 6) bootSpans r
    (bootFlags linkedImage (bootState (bootMachine dirty) 6)) s t a)

include h

theorem booted_pageTables : s.pageTablesRelVirtAddr = 0x400000 := by
  obtain ⟨-, -, -, htables⟩ := startState_globals (bootMachine dirty) 6 s.data
  rw [h.only_data, htables, bootMachine_pageTables]

theorem booted_data : s.segmentsInfo.dataSegment = ⟨0x400000, 0x1000000⟩ := by
  rw [(booted_globals h).1]
  rfl

/-- The heap is the 4 MiB behind the window. -/
theorem booted_initHeap : s.initHeap = setHeap s 0x800000 0x400000 0x800000 := by
  refine initHeap_eq ?_ ?_
  · rw [booted_pageTables h]
    decide
  · rw [booted_data h]
    decide

/-- A free page for each new page and one for its table are enough. -/
theorem booted_enough {start size brk increment : U32int} (hr : 2 * heapPages increment ≤ r) :
    need (heapSpans (setHeap s start size brk) increment) a + heapPages
    increment ≤ (dataFree s).length := by
  have hsupply := h.supply
  have hcard := heapSpans_card (setHeap s start size brk) increment
  have hneed : need (heapSpans (setHeap s start size brk) increment) a ≤
    (heapSpans (setHeap s start size brk) increment).card := Finset.card_le_card Finset.sdiff_subset
  omega

end

section

variable {dirty : Byte} {s : State} {t : TableMap} {a : Space} {r : Nat}

theorem booted_growable (h : BootMapped (startState (bootMachine dirty) 6) bootSpans r
      (bootFlags linkedImage (bootState (bootMachine dirty) 6)) s t a)
        (hon : s.pagingEnabled = true)
    {increment : U32int} (ha : increment.toNat % 4096 = 0) (hlt : increment.toNat < 0x400000)
    (hr : 2 * heapPages increment ≤ r) : Growable s.initHeap t a increment := by
  have hstart : (0x800000 : U32int).toNat = 0x800000 := rfl
  have hsize : ((0x800000 : U32int) + 0x400000).toNat = 0xC00000 := rfl
  rw [booted_initHeap h]
  refine ⟨Ready.setHeap _ _ _ h.ready, Apart.setHeap _ _ _ (booted_apart h), hon, ha, ?_, ?_, ?_,
    ?_, fun k hk => ?_, booted_enough h hr⟩
  · change (0x800000 : U32int).toNat % 4096 = 0
    decide
  · change s.pageTablesRelVirtAddr.toNat + 0x400000 ≤ (0x800000 : U32int).toNat
    rw [booted_pageTables h]
    decide
  · change (0x800000 : U32int).toNat + increment.toNat < 2^32
    omega
  · change (0x800000 : U32int) + increment < 0x800000 + 0x400000
    rw [BitVec.lt_def, hsize, BitVec.toNat_add]
    omega
  · change (0x800000 : U32int).toNat + k ≤ s.segmentsInfo.dataSegment.limit.toNat
    rw [booted_data h, Segment.limit_toNat]
    have hlen : (⟨0x400000, 0x1000000⟩ : Segment).len.toNat = 0x1000000 := rfl
    omega

end

/-- Two pages are mapped and the last of their bytes is zero. -/
theorem sbrk_grows_machine : ∃ s s', (bootMachine 0).initPaging linkedImage = .ok s ∧
    s.initHeap.sbrk 0x2000 = .ok (0x800000, s') ∧ s'.load8 (linAt 0x800000 0x1FFF) = .ok 0 := by
  obtain ⟨s, t, a, hinit, hon, h⟩ := (bootMachine_bootable 0 (r := 4) (by decide)).initPaging
  have hbrk : s.initHeap.heapBrk = 0x800000 := by
    rw [booted_initHeap h]
    rfl
  have hg : Growable s.initHeap t a 0x2000 :=
    booted_growable h hon (by decide) (by decide) (by decide)
  obtain ⟨s', hcall, hs, -⟩ := sbrk_grows hg
  rw [hbrk] at hcall
  have hzero := hs.zero 0x1FFF (by decide)
  rw [hbrk] at hzero
  exact ⟨s, s', hinit, hcall, hzero⟩

/-- A call for one page changes a page outside the range. With the break off a page
boundary or beyond the limit of the data segment a call does not come back. -/
theorem sbrk_bitmap_and_limit : ∃ s t a, (bootMachine 0).initPaging linkedImage = .ok s ∧
    Growable s.initHeap t a 0x1000 ∧
    (∃ s' lin b, s.initHeap.sbrk 0x1000 = .ok (0x800000, s') ∧
      lin / pageSize ∉ pagesFrom (heapLin s.initHeap) 1 ∧ Outside a lin ∧
      translation s.initHeap lin = some b ∧ translation s' lin = some b ∧
      s'.memory (inFrame b.frame lin) ≠ s.initHeap.memory (inFrame b.frame lin)) ∧
    (∀ r, (setHeap s 0x800000 0x400000 0x800001).sbrk 0x1000 ≠ .ok r) ∧
    ∀ r, (setHeap s 0x1001000 0x400000 0x1001000).sbrk 0x1000 ≠ .ok r := by
  obtain ⟨s, t, a, hinit, hon, h⟩ := (bootMachine_bootable 0 (r := 2) (by decide)).initPaging
  have hg : Growable s.initHeap t a 0x1000 :=
    booted_growable h hon (by decide) (by decide) (by decide)
  obtain ⟨s', hcall, hs⟩ := hg.sbrk
  obtain ⟨lin, b, hlin, hout, htr, htr', hne⟩ := hs.bitmap_changes hg (by decide)
  have hbrk : s.initHeap.heapBrk = 0x800000 := by
    rw [booted_initHeap h]
    rfl
  rw [hbrk] at hcall
  refine ⟨s, t, a, hinit, hg, ⟨s', lin, b, hcall, hlin, hout, htr, htr', hne⟩,
    fun ⟨address, s2⟩ hok => ?_, fun ⟨address, s2⟩ hok => ?_⟩
  · obtain ⟨⟨-, hbrk', -⟩, -, -⟩ := sbrk_spec hok
    change (0x800001 : U32int) % pageSize = 0 at hbrk'
    exact absurd hbrk' (by decide)
  · have hlim := sbrk_inside hok (k := 0) (by decide)
    change linAt 0x1001000 0 ≤ s.segmentsInfo.dataSegment.limit at hlim
    rw [booted_data h, linAt_zero] at hlim
    exact absurd hlim (by decide)

end SimpleOs.Audit.HeapGrowth
