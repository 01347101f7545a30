import SimpleOs.Audit.FrameOwners
import SimpleOs.Audit.ModuleLoad

/-!
# The loader as a run

Between its calls the loader clears and fills pages of the module. None of them holds a
bitmap, the directory or a page table, so whenever the loader comes back it has made a
run of calls that take a page and map it.
-/

namespace SimpleOs.Audit.LoaderRun

open SimpleOs.Kernel SimpleOs.Lib SimpleOs.Lib.ByteMemory SimpleOs.Audit.PageTables
open SimpleOs.Audit.MapCalls SimpleOs.Audit.PagingBoot SimpleOs.Audit.AddressSpace
open SimpleOs.Audit.PageSupply
open SimpleOs.Audit.Bookkeeping SimpleOs.Audit.LinearView SimpleOs.Audit.PageRuns
open SimpleOs.Audit.KernelBoot SimpleOs.Audit.HeapGrowth SimpleOs.Audit.ModuleLoad
open SimpleOs.Audit.PageCalls SimpleOs.Audit.FrameOwners

section

variable {header : ModuleHeader} {s0 s s' : State} {t : TableMap} {a : Space}
  {c : PageCall} {lin x : U32int} {v : U8int} {n : Nat} {calls : List PageCall}

/-- A page that is bound, outside the window and no kernel data shows a frame that holds
neither. -/
theorem Owned.private_of_bound (ho : Owned s t a) (h : Ready s t a) (hon : s.pagingEnabled = true)
    (hoff : ∀ q, q.toNat < s.kernelPageDirectory.toNat + 8192 →
      (q + s.dataBase) / pageSize ≠ lin / pageSize)
    {b : Binding} (hb : a.bindings (lin / pageSize) = some b) : Private s t b.frame where
  toTaken := ho.taken _ b hb
  kernel := fun q hq he => by
    obtain ⟨b', hb', hframe⟩ := (h.reach hon).1 q hq
    exact hoff q hq (ho.own _ _ _ _ hb' hb (hframe.trans he.symm))

/-- An address that is translated is bound. -/
theorem Ready.bound_of_translate (h : Ready s t a) (hon : s.pagingEnabled = true)
    (hout : tableIndex lin ≠ windowIndexOf s) (hx : s.translate lin = .ok x) :
    ∃ b, a.bindings (lin / pageSize) = some b ∧ x = inFrame b.frame lin ∧ b.frame.toNat < 2^20 := by
  have ho : Outside a lin := by
    rw [Outside, ← h.holds.window]
    exact hout
  cases hb : a.bindings (lin / pageSize) with
  | none =>
    have htr := h.holds.translates lin ho
    rw [hb, translation, ← h.holds.cr3 hon, Option.map_eq_none_iff] at htr
    simp only [State.translate, hon, if_true, htr] at hx
    cases hx
  | some b =>
    obtain ⟨htr, hlt⟩ := Ready.translate_bound h hon ho hb
    exact ⟨b, rfl, Except.ok.inj (hx.symm.trans htr), hlt⟩

/-- Writing one byte of a frame that holds no books is work. -/
theorem work_of_private {f : U32int} (h : Ready s t a) (hf : Private s t f)
    (hx : x / pageSize = f) (v : U8int) : Work s (s.withMemory (write8 s.memory x v)) where
  globals := rfl
  brk := le_rfl
  kernel := fun y _ hy => by
    refine write8_of_ne _ _ fun he => hf.kernel y hy ?_
    rw [← hx, ← he]
    rfl
  tables := fun i hi hpres y hy => by
    refine write8_of_ne _ _ fun he => ?_
    have hw := h.holds.tables.toWalks
    cases ht : t i with
    | none =>
      rw [hw.pde_none i hi ht] at hpres
      cases hpres
    | some p =>
      refine hf.table i p ht ?_
      have halign := frame_aligned hw.toLayout (hw.page i p ht).aligned
      rw [add_comm] at halign
      change (p + s.dataBase).toNat % 4096 = 0 at halign
      rw [(hw.pde_some i p hi ht).frame, he] at hy
      have hn := congrArg BitVec.toNat hy
      rw [BitVec.toNat_mul, page_toNat, show pageSize.toNat = 4096 from rfl] at hn
      rw [← hx]
      apply BitVec.eq_of_toNat_eq
      rw [page_toNat, page_toNat]
      have hlt := x.isLt
      omega

/-- A page on which every address is outside the window and no kernel data. -/
theorem clear_page (h : Clear s c) (hpage : lin / pageSize = c.lin s.segmentsInfo / pageSize) :
    tableIndex lin ≠ windowIndexOf s ∧ ∀ q, q.toNat < s.kernelPageDirectory.toNat + 8192 →
      (q + s.dataBase) / pageSize ≠ lin / pageSize := by
  refine ⟨fun he => h.outside ?_, fun q hq => hpage ▸ h.off_kernel q hq⟩
  rw [← he]
  have hn := congrArg BitVec.toNat hpage
  rw [page_toNat, page_toNat] at hn
  apply BitVec.eq_of_toNat_eq
  rw [tableIndex_toNat, tableIndex_toNat]
  omega

/-- A run that has made these calls, the latest first, and has pages for `n` more. -/
def Made (header : ModuleHeader) (s0 : State) (calls : List PageCall) (n : Nat)
    (s : State) : Prop :=
  ∃ log t a, log.map Prod.fst = calls ∧ Runs header s0 log s ∧ Running s0 s t a ∧ Owned s t a ∧
    Stocked s n

theorem Made.info (h : Made header s0 calls n s) : s.segmentsInfo = s0.segmentsInfo := by
  obtain ⟨log, t, a, -, hr, -⟩ := h
  exact hr.info

theorem Made.running (h : Made header s0 calls n s) : ∃ t a, Running s0 s t a := by
  obtain ⟨log, t, a, -, -, hrun, -⟩ := h
  exact ⟨t, a, hrun⟩

theorem Made.call (h : Made header s0 calls (n + 1) s) (hc : ∀ lin, c ≠ .fault lin)
    (hmod : c.OfModule header s.segmentsInfo) (hdue : c.Due s) (hcall : c.perform s = .ok s') :
    Made header s0 (c :: calls) n s' := by
  obtain ⟨log, t, a, hlog, hr, hrun, ho, hs⟩ := h
  obtain ⟨p, s1, s2, t', a', htake, hhad, hcall', hrun', hmoved, hs'⟩ :=
    hrun.perform hs hc hmod hdue
  cases hcall'.symm.trans hcall
  exact ⟨(c, p) :: log, t', a', by rw [List.map_cons, hlog], .call hr hmod hdue htake hhad hcall,
    hrun', ho.call hrun.ready hrun.room.apart hmoved, hs'⟩

theorem Made.work (h : Made header s0 calls n s) (hw : ∀ t a, Running s0 s t a → Owned s t a →
    Work s s') : Made header s0 calls n s' := by
  obtain ⟨log, t, a, hlog, hr, hrun, ho, hdata, hcode, hzero⟩ := h
  have hwork := hw t a hrun ho
  obtain ⟨hfree, hcfree⟩ := hwork.supply hrun.ready
  refine ⟨log, t, a, hlog, .work hr hwork, hrun.work hwork, ho.work hrun.ready hwork, ?_, ?_, ?_⟩
  · rwa [hfree]
  · rwa [hcfree]
  · rwa [hcfree]

/-- A byte of a page the module owns is written. -/
theorem Made.write (h : Made header s0 calls n s) (hm : c.byModule = true)
    (hmod : c.OfModule header s.segmentsInfo)
    (hpage : lin / pageSize = c.lin s.segmentsInfo / pageSize) (hx : s.translate lin = .ok x)
    (v : U8int) : Made header s0 calls n (s.withMemory (write8 s.memory x v)) := by
  refine h.work fun t a hrun ho => ?_
  obtain ⟨hout, hoff⟩ :=
    clear_page (hrun.room.clear hrun.ready.holds.tables.toLayout hmod hm) hpage
  obtain ⟨b, hb, rfl, hlt⟩ := Ready.bound_of_translate hrun.ready hrun.on hout hx
  exact work_of_private hrun.ready (Owned.private_of_bound ho hrun.ready hrun.on hoff hb)
    (inFrame_page hlt) v

theorem Made.byte (h : Made header s0 calls n s) (hm : c.byModule = true)
    (hmod : c.OfModule header s.segmentsInfo) {rel : U32int}
    (hpage : (rel + (c.segment s.segmentsInfo).base) / pageSize = c.lin s.segmentsInfo / pageSize)
    (hx : s.segAddr (c.segment s.segmentsInfo) rel = .ok x) (v : U8int) :
    Made header s0 calls n (s.withMemory (write8 s.memory x v)) := by
  rw [State.segAddr] at hx
  split_ifs at hx
  exact h.write hm hmod hpage hx v

/-- The page of byte `k` from `load` on, in a segment on a page boundary. -/
theorem byte_page {load base : U32int} (ha : (load + base).toNat % 4096 = 0) {k : Nat}
    (hk : k < 2^32) :
    (linAt load k + base) / pageSize =
      (load + BitVec.ofNat 32 (k / 4096) * pageSize + base) / pageSize := by
  have hpage : BitVec.ofNat 32 (k / 4096) * pageSize = BitVec.ofNat 32 (4096 * (k / 4096)) := by
    rw [BitVec.ofNat_mul, mul_comm]
    rfl
  rw [hpage, linAt_base, add_right_comm]
  change _ = linAt (load + base) (4096 * (k / 4096)) / pageSize
  apply BitVec.eq_of_toNat_eq
  rw [page_toNat, page_toNat, linAt, linAt, BitVec.toNat_add (load + base),
    BitVec.toNat_add (load + base), BitVec.toNat_ofNat, BitVec.toNat_ofNat]
  omega

theorem index_lt {size : U32int} {k : Nat} (hk : k < (pageCountOf size).toNat) :
    BitVec.ofNat 32 k < pageCountOf size := by
  have hlt := (pageCountOf size).isLt
  rw [BitVec.lt_def, BitVec.toNat_ofNat]
  omega

variable {k : Nat}

/-- A byte of the code pages is written, ... -/
theorem Made.codeByte (h : Made header s0 calls n s) (ha : header.Accepted s0.segmentsInfo)
    (hk : k < 4096 * codeCount header)
    (hcall : s.codeStore8 (linAt moduleCodeLoadAddr k) v = .ok s') :
    Made header s0 calls n s' := by
  obtain ⟨x, hx, hs'⟩ := bind_ok hcall
  cases hs'
  have hinfo := h.info
  obtain ⟨t, a, hrun⟩ := h.running
  change k < 4096 * (pageCountOf header.codeSize).toNat at hk
  have halign := codeStart_aligned hrun.room.apart
  refine h.byte (c := .moduleCode (BitVec.ofNat 32 (k / 4096))) rfl ?_ (byte_page halign ?_) hx v
  · rw [hinfo]
    exact ⟨ha, index_lt (by omega)⟩
  · rw [pageCountOf_toNat] at hk
    have hfits := ha.code_fits
    have hlen := s0.segmentsInfo.codeSegment.len.isLt
    omega

/-- ... or of the data pages. -/
theorem Made.dataByte (h : Made header s0 calls n s) (ha : header.Accepted s0.segmentsInfo)
    (hk : k < 4096 * dataCount header)
    (hcall : s.store8 (linAt moduleDataLoadAddr k) v = .ok s') :
    Made header s0 calls n s' := by
  obtain ⟨x, hx, hs'⟩ := bind_ok hcall
  cases hs'
  have hinfo := h.info
  obtain ⟨t, a, hrun⟩ := h.running
  change k < 4096 * (pageCountOf header.dataSize).toNat at hk
  have hbase := hrun.ready.holds.tables.base_aligned
  have hload : moduleDataLoadAddr.toNat = 0xC00000 := rfl
  have halign : (moduleDataLoadAddr + s.dataBase).toNat % 4096 = 0 := by
    rw [BitVec.toNat_add]
    omega
  refine h.byte (c := .moduleData (BitVec.ofNat 32 (k / 4096))) rfl ?_ (byte_page halign ?_) hx v
  · rw [hinfo]
    exact ⟨ha, index_lt (by omega)⟩
  · rw [pageCountOf_toNat] at hk
    have hfits := ha.data_fits
    have hlen := s0.segmentsInfo.dataSegment.len.isLt
    omega

/-- A run of bytes of the data pages is cleared. -/
theorem Made.dataClear {m : Nat} (ha : header.Accepted s0.segmentsInfo) :
    ∀ {s s' : State} {k : Nat}, Made header s0 calls n s → k + m ≤ 4096 * dataCount header →
      s.memset (linAt moduleDataLoadAddr k) 0x0 m = .ok s' → Made header s0 calls n s' := by
  induction m with
  | zero =>
    intro s s' k h _ hcall
    cases hcall
    exact h
  | succ m ih =>
    intro s s' k h hk hcall
    obtain ⟨s1, hstore, hrest⟩ := bind_ok hcall
    rw [linAt_add] at hrest
    exact ih (h.dataByte ha (by omega) hstore) (k := k + 1) (by omega) hrest

end

/-- The calls for the code pages, the data pages and the stack page, in their order. -/
def codeCalls (header : ModuleHeader) : List PageCall :=
  (List.range (codeCount header)).map fun k => .moduleCode (BitVec.ofNat 32 k)

def dataCalls (header : ModuleHeader) : List PageCall :=
  (List.range (dataCount header)).map fun k => .moduleData (BitVec.ofNat 32 k)

def loaderCalls (header : ModuleHeader) : List PageCall :=
  codeCalls header ++ dataCalls header ++ [.moduleStack]

section

variable {header : ModuleHeader} {s0 s s' : State} {n m : Nat} {calls : List PageCall}

/-- A loop that makes one call a round makes them all. -/
theorem Made.loop {call : Nat → PageCall} {body : State → Nat → Except Trap State}
    (hbody : ∀ k < m, ∀ s s' calls n, Made header s0 calls (n + 1) s → body s k = .ok s' →
      Made header s0 (call k :: calls) n s')
    (h : Made header s0 calls (m + n) s) (hcall : (List.range m).foldlM body s = .ok s') :
    Made header s0 (((List.range m).map call).reverse ++ calls) n s' := by
  have hrun := Loops.foldlM_range_keeps
    (P := fun k s => Made header s0 (((List.range k).map call).reverse ++ calls) (m - k + n) s)
    (fun k hk s s' hs hround => by
      have hleft : m - k + n = m - (k + 1) + n + 1 := by omega
      rw [hleft] at hs
      have hnext := hbody k hk s s' _ _ hs hround
      rw [List.range_succ, List.map_append, List.reverse_append]
      exact hnext)
    (by rw [Nat.sub_zero]; exact h) hcall
  rwa [Nat.sub_self, Nat.zero_add] at hrun

theorem Made.codePages (h : Made header s0 calls (codeCount header + n) s)
    (ha : header.Accepted s0.segmentsInfo)
    (hcall : s.forLoop (· < pageCountOf header.codeSize) 1 0 State.loadCodePage = .ok s') :
    Made header s0 ((codeCalls header).reverse ++ calls) n s' := by
  rw [countingLoop_eq] at hcall
  refine h.loop (fun k hk s s' calls n hs hround => ?_) hcall
  refine hs.call (fun lin => PageCall.noConfusion) ?_ trivial hround
  rw [hs.info]
  exact ⟨ha, index_lt hk⟩

/-- A data page is cleared as soon as it is mapped. -/
theorem Made.dataPages (h : Made header s0 calls (dataCount header + n) s)
    (ha : header.Accepted s0.segmentsInfo)
    (hcall : s.forLoop (· < pageCountOf header.dataSize) 1 0 State.loadDataPage = .ok s') :
    Made header s0 ((dataCalls header).reverse ++ calls) n s' := by
  rw [countingLoop_eq] at hcall
  refine h.loop (fun k hk s s' calls n hs hround => ?_) hcall
  rw [loadDataPage_eq] at hround
  obtain ⟨s1, hmap, hclear⟩ := bind_ok hround
  have hmade : Made header s0 (.moduleData (BitVec.ofNat 32 k) :: calls) n s1 := by
    refine hs.call (fun lin => PageCall.noConfusion) ?_ trivial hmap
    rw [hs.info]
    exact ⟨ha, index_lt hk⟩
  have hstart : moduleDataLoadAddr + BitVec.ofNat 32 k * pageSize =
      linAt moduleDataLoadAddr (4096 * k) := by
    rw [linAt, BitVec.ofNat_mul, mul_comm]
    rfl
  rw [hstart] at hclear
  exact Made.dataClear ha hmade (by omega) hclear

theorem Made.clean (h : Made header s0 calls n s) (ha : header.Accepted s0.segmentsInfo)
    (hcall : s.cleanCodePages (pageCountOf header.codeSize) = .ok s') :
    Made header s0 calls n s' := by
  have hpos := ha.code_pos
  have hfits := ha.code_fits
  have hlen := s0.segmentsInfo.codeSegment.len.isLt
  rw [cleanCodePages_eq (by rw [pageCountOf_toNat]; omega)
    (by rw [pageCountOf_toNat]; omega)] at hcall
  refine Loops.foldlM_range_keeps (P := fun _ => Made header s0 calls n)
    (fun k hk s s' hs hround => hs.codeByte ha ?_ hround) h hcall
  exact hk.trans_le (Nat.sub_le ..)

/-- A copy loop writes bytes of its pages only, or none when its range wraps. -/
theorem Made.copy {offset size : U32int} {body : State → U32int → Except Trap State}
    (hbody : ∀ k < size.toNat, ∀ s s', Made header s0 calls n s →
      body s (BitVec.ofNat 32 k) = .ok s' → Made header s0 calls n s')
    (h : Made header s0 calls n s) (hcall : (copyIndices offset size).foldlM body s = .ok s') :
    Made header s0 calls n s' := by
  by_cases hfit : offset.toNat + size.toNat < 2^32
  · rw [copyIndices_of_fits hfit, List.foldlM_map] at hcall
    exact Loops.foldlM_range_keeps (P := fun _ => Made header s0 calls n)
      (fun k hk s s' hs hround => hbody k hk s s' hs hround) h hcall
  · rw [copyIndices_of_wraps (Nat.not_lt.mp hfit)] at hcall
    cases hcall
    exact h

theorem Made.copyCode (h : Made header s0 calls n s) (ha : header.Accepted s0.segmentsInfo)
    (hcall : s.copyCode header.codeOffset header.codeSize = .ok s') :
    Made header s0 calls n s' := by
  rw [State.copyCode_eq] at hcall
  refine h.copy (fun k hk s s' hs hround => ?_) hcall
  obtain ⟨b, -, hstore⟩ := bind_ok hround
  exact hs.codeByte ha (hk.trans_le (codeSize_le header)) hstore

theorem Made.copyData (h : Made header s0 calls n s) (ha : header.Accepted s0.segmentsInfo)
    (hcall : s.copyData header.dataOffset header.dataSize = .ok s') :
    Made header s0 calls n s' := by
  rw [State.copyData_eq] at hcall
  refine h.copy (fun k hk s s' hs hround => ?_) hcall
  obtain ⟨b, -, hstore⟩ := bind_ok hround
  exact hs.dataByte ha (hk.trans_le (dataSize_le header)) hstore

/-- Whenever the loader comes back, it has made its calls and nothing else but work. -/
theorem Made.loadModule
    (h : Made header s0 calls (codeCount header + (dataCount header + (1 + n))) s)
    (ha : header.Accepted s0.segmentsInfo)
    (hcall : s.loadModuleCodeAndData header.codeOffset header.codeSize header.dataOffset
      header.dataSize = .ok s') :
    Made header s0 ((loaderCalls header).reverse ++ calls) n s' := by
  rw [loadModuleCodeAndData_eq] at hcall
  obtain ⟨s1, hmap, hcall⟩ := bind_ok hcall
  obtain ⟨s2, hclean, hcall⟩ := bind_ok hcall
  obtain ⟨s3, hcopy, hcall⟩ := bind_ok hcall
  obtain ⟨s4, hdata, hstack⟩ := bind_ok hcall
  have h3 := ((h.codePages ha hmap).clean ha hclean).copyCode ha hcopy
  have h4 : Made header s0 ((dataCalls header).reverse ++ ((codeCalls header).reverse ++ calls))
      (1 + n) s4 := by
    rw [loadDataPart] at hdata
    split_ifs at hdata with hsize
    · obtain ⟨s5, hpages, hbytes⟩ := bind_ok hdata
      exact (h3.dataPages ha hpages).copyData ha hbytes
    · cases hdata
      have hcount : dataCount header = 0 := by
        rw [dataCount, BitVec.le_zero_iff.mp (BitVec.not_lt.mp hsize)]
        rfl
      rw [hcount, Nat.zero_add] at h3
      rw [dataCalls, hcount]
      exact h3
  rw [Nat.add_comm 1 n] at h4
  have h5 := h4.call (c := .moduleStack) (fun lin => PageCall.noConfusion)
    (by rw [h4.info]; exact ha) trivial hstack
  rw [loaderCalls, List.reverse_append, List.reverse_append, List.append_assoc, List.append_assoc]
  exact h5

end

end SimpleOs.Audit.LoaderRun
