import SimpleOs.Audit.LoaderRun
import SimpleOs.Audit.ModuleFill
import SimpleOs.Audit.ModulePages

/-!
# Starting a module

The first `start_module` of an accepted module comes back with the entry point when the
pages are there. It maps just the pages of the module, as a run of calls that leaves
every frame its one owner.
-/

namespace SimpleOs.Audit.ModuleStart

open SimpleOs.Kernel SimpleOs.Lib SimpleOs.Lib.ByteMemory SimpleOs.Audit.PageTables
open SimpleOs.Audit.PagingBoot SimpleOs.Audit.AddressSpace SimpleOs.Audit.PageSupply
open SimpleOs.Audit.Bookkeeping SimpleOs.Audit.LinearView SimpleOs.Audit.PageRuns
open SimpleOs.Audit.KernelBoot SimpleOs.Audit.HeapGrowth SimpleOs.Audit.ModuleLoad
open SimpleOs.Audit.ModulePages SimpleOs.Audit.ModuleFill SimpleOs.Audit.PageCalls
open SimpleOs.Audit.KernelStart SimpleOs.Audit.FrameOwners SimpleOs.Audit.LoaderRun
open SimpleOs.Kernel.State (HeaderAt)
open SimpleOs.Lib.PackedBits (bit byteAt)

section

variable {s s' : State} {i : ModuleInfo}

theorem mem_loadedPages {q : U32int} : q ∈ loadedPages s i ↔
    q ∈ pagesFrom (codeStart s) (codeCount (recorded i)) ∨
      q ∈ insert (stackLin s / pageSize) (pagesFrom (dataStart s) (dataCount (recorded i))) := by
  have hrun : ∀ (start : U32int) (n : Nat),
      q ∈ (List.range n).map (fun k => linAt start (4096 * k) / pageSize) ↔
          q ∈ pagesFrom start n := by
    intro start n
    simp only [List.mem_map, List.mem_range, pagesFrom, Set.mem_ofPred_eq, eq_comm]
  rw [loadedPages, List.mem_append, List.mem_append, hrun, hrun, List.mem_singleton,
    Set.mem_insert_iff, or_assoc, or_comm (b := q = _)]

/-- The code pages are mapped for user code to read, the others for it to write, and outside
the window no page of another number is mapped differently. -/
structure Maps (s s' : State) (i : ModuleInfo) : Prop where
  code : ∀ lin, lin / pageSize ∈ pagesFrom (codeStart s) (codeCount (recorded i)) →
    ∃ f, translation s' lin = some ⟨f, false, true⟩
  data : ∀ lin, lin / pageSize ∈ loadedPages s i →
    lin / pageSize ∉ pagesFrom (codeStart s) (codeCount (recorded i)) →
    ∃ f, translation s' lin = some ⟨f, true, true⟩
  others : ∀ lin, tableIndex lin ≠ windowIndexOf s → lin / pageSize ∉ loadedPages s i →
    translation s' lin = translation s lin

/-- The loader maps just these pages. -/
theorem loadModule_maps {t : TableMap} {a : Space} {L : Memory}
    (hl : Loadable s t a L (recorded i)) :
    ∃ s', s.loadModuleCodeAndData i.codeOffset i.codeSize i.dataOffset i.dataSize = .ok s' ∧
      s' = s.withData s'.data ∧ Maps s s' i := by
  obtain ⟨s', t', a', L', hcall, honly, hview, hbinds, -⟩ := loadModule hl
  have hshown : ∀ lin, lin / pageSize ∈ loadedPages s i →
      translation s' lin = a'.bindings (lin / pageSize) := by
    intro lin hlin
    refine hview.ready.holds.translates lin (hview.outside lin ?_)
    rcases mem_loadedPages.mp hlin with hcode | hstack | hdata
    · exact .inr (.inr (.inl hcode))
    · exact .inl hstack
    · exact .inr (.inl hdata)
  refine ⟨s', hcall, honly, fun lin hlin => ?_, fun lin hlin hnot => ?_, fun lin hout hlin => ?_⟩
  · rw [hshown lin (mem_loadedPages.mpr (.inl hlin))]
    exact hbinds.read_only _ hlin
  · rw [hshown lin hlin]
    exact hbinds.writable _ ((mem_loadedPages.mp hlin).resolve_left hnot)
  · have houtside : Outside a lin := by
      rw [Outside, ← hl.view.ready.holds.window]
      exact hout
    have houtside' : Outside a' lin := by
      rw [Outside, hbinds.window]
      exact houtside
    rw [hview.ready.holds.translates lin houtside', hl.view.ready.holds.translates lin houtside]
    exact hbinds.others _ (fun h => hlin (mem_loadedPages.mpr (.inl h))) fun h =>
      hlin (mem_loadedPages.mpr (.inr h))

end

section

variable {s : State} {t : TableMap} {a : Space} {L : Memory} {header : ModuleHeader} {n : Nat}

/-- The heap globals and what is known about the module have no part in loading. -/
theorem Loadable.setGlobals (h : Loadable s t a L header) (start size brk : U32int)
    (i : ModuleInfo) : Loadable (setGlobals s start size brk i) t a L header where
  view := View.setGlobals start size brk i h.view
  accepted := h.accepted
  code_source := h.code_source
  data_source := h.data_source
  vacant :=
    { code := fun k hk => ⟨(h.vacant.code k hk).outside, (h.vacant.code k hk).kernel,
        (h.vacant.code k hk).image⟩
      data := fun k hk => ⟨(h.vacant.data k hk).outside, (h.vacant.data k hk).kernel,
        (h.vacant.data k hk).image⟩
      stack := ⟨h.vacant.stack.outside, h.vacant.stack.kernel, h.vacant.stack.image⟩
      code_data := h.vacant.code_data
      stack_new := h.vacant.stack_new }
  enough := ⟨h.enough.code, h.enough.not_null, h.enough.data⟩

theorem recordModule_eq (s : State) (header : ModuleHeader) :
    s.recordModule header = HeapGrowth.setGlobals s s.heapStartRelVirtAddr s.heapSize s.heapBrk
      (s.recordModule header).moduleInfo := rfl

theorem Loadable.recordModule (h : Loadable s t a L header) (m : ModuleHeader) :
    Loadable (s.recordModule m) t a L header := by
  rw [recordModule_eq]
  exact Loadable.setGlobals h _ _ _ _

theorem Running.recordModule (h : Running s s t a) (m : ModuleHeader) :
    Running (s.recordModule m) (s.recordModule m) t a where
  room := h.room.congr rfl rfl
  globals := rfl
  ready := by
    rw [recordModule_eq]
    exact Ready.setGlobals _ _ _ _ h.ready
  on := h.on
  heap := h.heap
  supervisor := h.supervisor
  user_tables := h.user_tables
  indexed := h.indexed

theorem Owned.recordModule (h : Owned s t a) (m : ModuleHeader) : Owned (s.recordModule m) t a :=
  ⟨fun q b hb => ⟨(h.taken q b hb).table, (h.taken q b hb).data, (h.taken q b hb).code⟩, h.own⟩

/-- A kernel that has the module's pages at hand and runs. -/
structure Startable (s : State) (t : TableMap) (a : Space) (L : Memory)
    (header : ModuleHeader) : Prop where
  loadable : Loadable s t a L header
  running : Running s s t a
  owned : Owned s t a
  stocked : Stocked s (codeCount header + (dataCount header + (1 + 0)))

theorem Startable.recordModule (h : Startable s t a L header) (m : ModuleHeader) :
    Startable (s.recordModule m) t a L header :=
  ⟨Loadable.recordModule h.loadable m, Running.recordModule h.running m,
    Owned.recordModule h.owned m, ⟨h.stocked.data, h.stocked.code, h.stocked.code_zero⟩⟩

theorem recorded_recordModule (hmagic : header.magic = magic) :
    recorded (s.recordModule header).moduleInfo = header := by
  obtain ⟨m, codeOffset, codeSize, dataOffset, dataSize, entryPoint⟩ := header
  obtain rfl : m = magic := hmagic
  rfl

/-- `start_module`, when `init_module` accepts and the loader comes back. -/
theorem startModule_of_load {s1 s2 : State} (hlen : 0 < s.segmentsInfo.moduleSegment.len.toNat)
    (hinit : s.initModule = .ok (true, s1)) (hfirst : s1.moduleInfo.loaded = false)
    (hload : s1.loadModuleCodeAndData s1.moduleInfo.codeOffset s1.moduleInfo.codeSize
      s1.moduleInfo.dataOffset s1.moduleInfo.dataSize = .ok s2)
    (hinfo : s2.moduleInfo = s1.moduleInfo) :
    s.startModule = .ok (some s1.moduleInfo.entryPoint,
      { s2 with moduleInfo := { s1.moduleInfo with loaded := true, running := true } }) := by
  rw [State.startModule, if_pos (show s.segmentsInfo.moduleSegment.len > 0 from hlen), hinit]
  simp only [ok_bind, if_true, hfirst, Bool.not_false, hload, pure_ok, hinfo]

/-- The first start of an accepted module maps its pages, in a run of the calls that take
a page and map it, and comes back with the entry point; no frame has two owners then. -/
theorem startModule_loads (h : Startable s t a L header) (hh : HeaderAt s header)
    (hmagic : header.magic = magic) (hi : s.moduleInfo.initialized = false)
    (hfirst : s.moduleInfo.loaded = false) : ∃ s1 s' log,
    s.startModule = .ok (some header.entryPoint, s') ∧
    s' = { s1 with moduleInfo :=
      { (s.recordModule header).moduleInfo with loaded := true, running := true } } ∧
    Maps s s' (s.recordModule header).moduleInfo ∧
    log.map Prod.fst = (loaderCalls header).reverse ∧
    Runs header (s.recordModule header) log s1 ∧ OwnFrames s' := by
  have ha := h.loadable.accepted
  have hrec := recorded_recordModule (s := s) hmagic
  have hinit : s.initModule = .ok (true, s.recordModule header) := by
    rw [State.initModule_of_header hh hi,
      if_pos ⟨hmagic, (ModuleHeader.fits_iff header s.segmentsInfo).mpr ha⟩]
  have hlen : 0 < s.segmentsInfo.moduleSegment.len.toNat := by
    have hend := ha.code_end
    omega
  obtain ⟨hl, hrun, hown, hs⟩ := h.recordModule header
  rw [← hrec] at hl
  obtain ⟨s1, hload, honly, hmaps⟩ := loadModule_maps hl
  have hinfo : s1.moduleInfo = (s.recordModule header).moduleInfo := by
    rw [honly]
    rfl
  have hmade : Made header (s.recordModule header) []
      (codeCount header + (dataCount header + (1 + 0))) (s.recordModule header) :=
    ⟨[], t, a, rfl, .start, hrun, hown, hs⟩
  obtain ⟨log, t1, a1, hlog, hruns, hrun1, hown1, -⟩ := hmade.loadModule ha hload
  have hframes := hown1.ownFrames hrun1.ready.holds hrun1.on
  rw [List.append_nil] at hlog
  exact ⟨s1, _, log, startModule_of_load hlen hinit hfirst hload hinfo, rfl,
    ⟨hmaps.code, hmaps.data, hmaps.others⟩, hlog, hruns, ⟨hframes.pages, hframes.tables⟩⟩

end

section

variable {dirty : Byte} {s : State} {t : TableMap} {a : Space} {r : Nat}
  (h : BootMapped (startState (bootMachine dirty) 6) bootSpans r
    (bootFlags linkedImage (bootState (bootMachine dirty) 6)) s t a)

include h

theorem booted_room : ModuleRoom s := by
  obtain ⟨hinfo, -⟩ := booted_globals h
  refine ⟨booted_apart h, ?_, ?_, ?_⟩
  · rw [hinfo]
    change (0x1000000 : U32int).toNat % 4096 = 0
    decide
  · rw [hinfo]
    change (0x1000000 : U32int).toNat % 4096 = 0
    decide
  · rw [booted_pageTables h]
    decide

/-- The pages of the sample module are there. -/
theorem booted_stocked (hr : 6 ≤ r) : Stocked s (codeCount sampleHeader +
    (dataCount sampleHeader + (1 + 0))) := by
  have hcount : codeCount sampleHeader + (dataCount sampleHeader + (1 + 0)) = 3 := by decide
  have hsupply := h.supply
  have hbits : ∀ k < 8, bit (startState (bootMachine dirty) 6).data 0x2000 k =
      (0x1F : Byte).getLsbD k := fun k hk => by
    have haddr : byteAt 0x2000 k = 0x2000 := by
      rw [byteAt, Nat.div_eq_of_lt hk]
      rfl
    have hbyte : (bootMachine dirty).data 0x2000 = 0x1F := rfl
    have hbit := startState_code_bit (bootMachine_layout dirty (r := 6) (by decide)) (k := k)
      (hk.trans_le (by change 8 ≤ (0x1000000 : U32int).toNat / 4096; decide))
    rw [show (bootMachine dirty).memoryBitmap.codeBitmap = 0x2000 from rfl] at hbit
    rw [hbit, bit, haddr, hbyte, Nat.mod_eq_of_lt hk]
  rw [hcount]
  refine ⟨by omega, ?_, (booted_codeFree h).elim fun rest hrest => hrest.2⟩
  rw [h.free]
  refine PackedBits.le_length_freeList (k := 5) ?_ fun k hk hlt => ?_
  · change 5 + 3 ≤ (0x1000000 : U32int).toNat / 4096
    decide
  · have hclear : ∀ j < 8, 5 ≤ j → (0x1F : Byte).getLsbD j = false := by decide
    exact (hbits k hlt).trans (hclear k hlt hk)

/-- A byte of the header is the machine's. -/
theorem booted_header {k : Nat} (hk : k < 24) :
    s.memory (linAt 0x3FE000 k) = bootHeader (linAt 0x3FE000 k) := by
  have hx : (linAt 0x3FE000 k).toNat = 0x3FE000 + k := by
    rw [linAt, BitVec.toNat_add, BitVec.toNat_ofNat,
      show (0x3FE000 : U32int).toNat = 0x3FE000 from rfl]
    omega
  generalize linAt 0x3FE000 k = x at hx ⊢
  rw [booted_outside h (by bv_omega)]
  have hne : ∀ c : U32int, 0x402000 ≤ c.toNat → x ≠ c := by
    rintro c hc rfl
    omega
  simp only [bootMachine, hne 0x402000 (by decide), hne 0x403000 (by decide),
    hne 0x4031FF (by decide), hne 0x1405FFF (by decide), if_false]

/-- The module segment starts with the header of the sample module, whatever the heap. -/
theorem booted_headerAt (hon : s.pagingEnabled = true) (start size brk : U32int) :
    HeaderAt (setHeap s start size brk) sampleHeader := by
  obtain ⟨hinfo, -⟩ := booted_globals h
  have hview := View.setHeap start size brk (booted_view h hon)
  have hstart : imageStart s = 0x3FE000 := by
    rw [imageStart, hinfo]
    rfl
  have hlen : s.segmentsInfo.moduleSegment.len.toNat = 0x2000 := by
    rw [hinfo]
    rfl
  have hbyte : ∀ k < 24, (setHeap s start size brk).moduleLoad8 (BitVec.ofNat 32 k) =
      .ok (bootHeader (linAt 0x3FE000 k)) := fun k hk => by
    rw [image_load (s := s) hview rfl (fun _ hq => hq) (hlen ▸ (by omega : k < 0x2000)), hstart,
      booted_header h hk]
  have hword : ∀ j < 6, (setHeap s start size brk).moduleLoad32 (BitVec.ofNat 32 (4 * j)) =
      .ok (read32 bootHeader (linAt 0x3FE000 (4 * j))) := by
    refine fun j hj => State.moduleLoad32_of_bytes fun k hk => ?_
    have hrel : BitVec.ofNat 32 (4 * j) + k = BitVec.ofNat 32 (4 * j + k.toNat) := by
      rw [BitVec.ofNat_add, BitVec.ofNat_toNat, BitVec.setWidth_eq]
    rw [hrel, hbyte _ (by omega), linAt, linAt, ← hrel, add_assoc]
  refine ⟨(hword 0 (by decide)).trans (congrArg _ ?_), (hword 1 (by decide)).trans (congrArg _ ?_),
    (hword 2 (by decide)).trans (congrArg _ ?_), (hword 3 (by decide)).trans (congrArg _ ?_),
    (hword 4 (by decide)).trans (congrArg _ ?_), (hword 5 (by decide)).trans (congrArg _ ?_)⟩ <;>
  decide

end

theorem bootMachine_reserved : Reserved linkedImage (bootMachine 0) where
  code_marked := fun k _ hk => by
    have hsize : linkedImage.kernelCodeSize.toNat = 4096 * 5 := by decide
    rw [hsize] at hk
    have haddr : byteAt 0x2000 k = 0x2000 := by
      rw [byteAt, Nat.div_eq_of_lt (by omega)]
      rfl
    have hbyte : (bootMachine 0).data 0x2000 = 0x1F := rfl
    have hused : ∀ j < 5, (0x1F : Byte).getLsbD j = true := by decide
    change bit (bootMachine 0).data 0x2000 k = true
    rw [bit, haddr, hbyte, Nat.mod_eq_of_lt (by omega)]
    exact hused k (by omega)
  stack_marked := by
    change bit (bootMachine 0).data 0x3000 (segmentPages (bootMachine 0) - 1) = true
    rw [bootMachine_pages, bit, bootMachine_byte 0 (by decide), if_neg (by decide),
      if_pos (by decide)]
    decide
  apart := bootMachine_apart 0
  data_whole := by
    change (0x1000000 : U32int).toNat % 4096 = 0
    decide
  code_inside := by
    change linkedImage.kernelCodeSize.toNat ≤ 4096 * ((0x1000000 : U32int).toNat / 4096)
    decide
  elsewhere := fun _ hq => RangesApart.elsewhere handed_apart rfl hq

/-- The first start of the sample module after boot. -/
theorem startModule_loads_machine : ∃ s s1 s' log,
    (bootMachine 0).initPaging linkedImage = .ok s ∧
    s.initHeap.startModule = .ok (some 0x400050, s') ∧ s'.moduleInfo.loaded = true ∧
    log.map Prod.fst = [.moduleStack, .moduleData 0, .moduleCode 0] ∧
    Runs sampleHeader (s.initHeap.recordModule sampleHeader) log s1 ∧ OwnFrames s' := by
  have hb := bootMachine_bootable 0 (r := 6) (by decide)
  obtain ⟨s, t0, a0, hinit, hon, h0⟩ := hb.initPaging
  obtain ⟨t, a, hrun, h, hkeep⟩ := Bootable.running hb hinit (booted_room h0)
  have hown := Bootable.owned hb bootMachine_reserved h hkeep
  have hs := booted_stocked h le_rfl
  obtain ⟨start, size, hheap, -⟩ := initHeap_sets s
  have hmodule : s.initHeap.moduleInfo = ⟨false, false, false, 0, 0, 0, 0, 0⟩ := by
    rw [hheap, h.only_data]
    rfl
  have hst : Startable s.initHeap t a s.memory sampleHeader := by
    refine ⟨?_, hrun, hown, ?_⟩
    · rw [hheap]
      exact Loadable.setGlobals (booted_loadable h hon (by decide)) start size start s.moduleInfo
    · rw [hheap]
      exact ⟨hs.data, hs.code, hs.code_zero⟩
  have hheader : HeaderAt s.initHeap sampleHeader := by
    rw [hheap]
    exact booted_headerAt h hon start size start
  obtain ⟨s1, s', log, hcall, hs', -, hlog, hruns, hframes⟩ := startModule_loads hst hheader rfl
    (by rw [hmodule]) (by rw [hmodule])
  refine ⟨s, s1, s', log, hinit, hcall, by rw [hs'], hlog.trans ?_, hruns, hframes⟩
  have hcode : codeCount sampleHeader = 1 := by decide
  have hdata : dataCount sampleHeader = 1 := by decide
  rw [loaderCalls, codeCalls, dataCalls, hcode, hdata]
  rfl

end SimpleOs.Audit.ModuleStart
