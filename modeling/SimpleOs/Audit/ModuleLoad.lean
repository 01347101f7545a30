import SimpleOs.Audit.PageRuns
import SimpleOs.Audit.ModuleHeader

/-!
# The loops of the module loader

Five loops map, clear and fill the pages of a module. They are followed on linear
memory, from a running kernel that has the pages and the image at hand.
-/

namespace SimpleOs.Audit.ModuleLoad

open SimpleOs.Kernel SimpleOs.Lib SimpleOs.Lib.ByteMemory SimpleOs.Lib.Scatter
open SimpleOs.Audit.PageTables SimpleOs.Audit.PagingBoot SimpleOs.Audit.AddressSpace
open SimpleOs.Audit.PageSupply SimpleOs.Audit.Bookkeeping SimpleOs.Audit.LinearView
open SimpleOs.Audit.PageRuns

section

variable (s : State)

def codeStart : U32int := moduleCodeLoadAddr + codeBase s
def dataStart : U32int := moduleDataLoadAddr + s.dataBase
def stackLin : U32int := s.segmentsInfo.dataSegment.len - pageSize * 2 + s.dataBase
def imageStart : U32int := s.segmentsInfo.moduleSegment.base

/-- The pages the module image lies in. -/
def imagePages : Set U32int :=
  {q | ∃ k < s.segmentsInfo.moduleSegment.len.toNat, q = linAt (imageStart s) k / pageSize}

/-- A page that is not in use: outside the window, no kernel data, no part of the image. -/
structure Vacant (a : Space) (lin : U32int) : Prop where
  outside : Outside a lin
  kernel : ∀ q : U32int, q.toNat < s.kernelPageDirectory.toNat + 8192 →
    (q + s.dataBase) / pageSize ≠ lin / pageSize
  image : lin / pageSize ∉ imagePages s

/-- The pages of a module with `nc` code and `nd` data pages are vacant and different. -/
structure NoCollision (a : Space) (nc nd : Nat) : Prop where
  code : ∀ k < nc, Vacant s a (linAt (codeStart s) (4096 * k))
  data : ∀ k < nd, Vacant s a (linAt (dataStart s) (4096 * k))
  stack : Vacant s a (stackLin s)
  code_data : Disjoint (pagesFrom (codeStart s) nc) (pagesFrom (dataStart s) nd)
  stack_new : stackLin s / pageSize ∉ pagesFrom (codeStart s) nc ∪ pagesFrom (dataStart s) nd

/-- The directory entries the pages of a module come under. -/
def spans (nc nd : Nat) : Finset U32int :=
  (Finset.range nc).image (fun k => tableIndex (linAt (codeStart s) (4096 * k))) ∪
    ((Finset.range nd).image (fun k => tableIndex (linAt (dataStart s) (4096 * k))) ∪
      {tableIndex (stackLin s)})

/-- Every allocation succeeds: of the code pages, and of the data pages, the stack page
and the page tables that are missing. Page 0 of the code segment counts as a failure. -/
structure Enough (a : Space) (nc nd : Nat) : Prop where
  code : nc ≤ (codeFree s).length
  not_null : 0 ∉ codeFree s
  data : need (spans s nc nd) a + (nd + 1) ≤ (dataFree s).length

end

section

variable {s s' : State} {t t' : TableMap} {a a' : Space} {V : Set U32int} {L L' : Memory}

/-- A loop that stores one byte a round from `addr` on writes them all to linear memory. -/
theorem storeLoop (h : View s t a V L) {n : Nat} {seg : Segment} {addr start : U32int}
    {v : Nat → U8int} {body : State → Nat → Except Trap State} (hstart : addr + seg.base = start)
    (hlim : ∀ k < n, linAt addr k ≤ seg.limit) (hV : ∀ k < n, linAt start k / pageSize ∈ V)
    (hbody : ∀ k < n, ∀ s', Stored s t a V (scatter L (linAt start) v k) s' →
      ∀ x, s'.segAddr seg (linAt addr k) = .ok x →
        body s' k = .ok (s'.withMemory (write8 s'.memory x (v k)))) :
    ∃ s', (List.range n).foldlM body s = .ok s' ∧
    Stored s t a V (scatter L (linAt start) v n) s' := by
  refine Loops.foldlM_range_ok (P := fun k s' => Stored s t a V (scatter L (linAt start) v k) s')
    (fun k hk s' hs => ?_) h.stored
  have hlin : linAt addr k + seg.base = linAt start k := by
    rw [← hstart]
    exact linAt_base ..
  obtain ⟨x, hx, hst⟩ := hs.view.store (hlim k hk) (by rw [hlin]; exact hV k hk) (v k)
  rw [hlin] at hst
  exact ⟨_, hbody k hk s' hs x hx, hs.trans hst⟩

/-- From `a` to `a'` the pages of `ro` and `rw` get bindings for user code, and no others do. -/
structure Binds (a a' : Space) (ro rw : Set U32int) : Prop where
  window : a'.window = a.window
  read_only : ∀ q ∈ ro, ∃ f, a'.bindings q = some ⟨f, false, true⟩
  writable : ∀ q ∈ rw, ∃ f, a'.bindings q = some ⟨f, true, true⟩
  others : ∀ q, q ∉ ro → q ∉ rw → a'.bindings q = a.bindings q

section

variable {ro rw : Set U32int} {lin f : U32int}

theorem Binds.refl (a : Space) : Binds a a ∅ ∅ :=
  ⟨rfl, fun _ hq => absurd hq (Set.notMem_empty _), fun _ hq => absurd hq (Set.notMem_empty _),
    fun _ _ _ => rfl⟩

theorem Binds.mapCode (h : Binds a a' ro rw) (hro : lin / pageSize ∉ ro)
    (hrw : lin / pageSize ∉ rw) :
    Binds a (a'.map lin ⟨f, false, true⟩) (insert (lin / pageSize) ro) rw where
  window := h.window
  read_only := by
    rintro q (rfl | hq)
    · exact ⟨f, map_bindings_self ..⟩
    · rw [map_bindings_of_ne a' _ (fun he => hro (he ▸ hq))]
      exact h.read_only q hq
  writable q hq := by
    rw [map_bindings_of_ne a' _ (fun he => hrw (he ▸ hq))]
    exact h.writable q hq
  others q hq hq' := by
    rw [map_bindings_of_ne a' _ (fun he => hq (.inl he))]
    exact h.others q (fun hin => hq (.inr hin)) hq'

theorem Binds.mapData (h : Binds a a' ro rw) (hro : lin / pageSize ∉ ro)
    (hrw : lin / pageSize ∉ rw) :
    Binds a (a'.map lin ⟨f, true, true⟩) ro (insert (lin / pageSize) rw) where
  window := h.window
  read_only q hq := by
    rw [map_bindings_of_ne a' _ (fun he => hro (he ▸ hq))]
    exact h.read_only q hq
  writable := by
    rintro q (rfl | hq)
    · exact ⟨f, map_bindings_self ..⟩
    · rw [map_bindings_of_ne a' _ (fun he => hrw (he ▸ hq))]
      exact h.writable q hq
  others q hq hq' := by
    rw [map_bindings_of_ne a' _ (fun he => hq' (.inl he))]
    exact h.others q hq fun hin => hq' (.inr hin)

end

/-- Frame of the `k`-th free code page. -/
def codeFrame (s : State) (k : Nat) : U32int := frameOf (codeBase s) ((codeFree s).getD k 0)

/-- After `k` rounds: the pages show what was in their frames before. -/
structure CodeMapped (s : State) (t : TableMap) (a : Space) (L : Memory) (nc nd k : Nat)
    (s' : State) (t' : TableMap) (a' : Space) (L' : Memory) : Prop where
  only_data : s' = s.withData s'.data
  view : View s' t' a' (pagesFrom (codeStart s) k ∪ imagePages s) L'
  binds : Binds a a' (pagesFrom (codeStart s) k) ∅
  frame : ∀ y, ¬ Books s t' y → s'.data y = s.data y
  free : codeFree s' = (codeFree s).drop k
  supply : need (spans s nc nd) a' + (nd + 1) ≤ (dataFree s').length
  image : ∀ x, x / pageSize ∈ imagePages s → L' x = L x
  prior : ∀ j < k, ∀ x, x / pageSize = linAt (codeStart s) (4096 * j) / pageSize →
    L' x = s.memory (inFrame (codeFrame s j) x)

theorem code_span (s : State) {nc nd k : Nat} (hk : k < nc) :
    tableIndex (linAt (codeStart s) (4096 * k)) ∈ spans s nc nd :=
  Finset.mem_union_left _ (Finset.mem_image_of_mem _ (Finset.mem_range.mpr hk))

theorem data_span (s : State) {nc nd k : Nat} (hk : k < nd) :
    tableIndex (linAt (dataStart s) (4096 * k)) ∈ spans s nc nd :=
  Finset.mem_union_right _ (Finset.mem_union_left _
    (Finset.mem_image_of_mem _ (Finset.mem_range.mpr hk)))

theorem stack_span (s : State) (nc nd : Nat) : tableIndex (stackLin s) ∈ spans s nc nd :=
  Finset.mem_union_right _ (Finset.mem_union_right _ (Finset.mem_singleton_self _))

/-- A vacant page is no kernel data. -/
theorem Vacant.spares {lin : U32int} (h : Vacant s a lin) (f : U32int) : SparesKernel s lin f :=
  fun q hq hpage => absurd hpage (h.kernel q hq)

theorem codeStart_aligned (h : Apart s) : (codeStart s).toNat % 4096 = 0 := by
  have ha := h.code_aligned
  rw [codeStart, BitVec.toNat_add]
  have hload : moduleCodeLoadAddr.toNat = 0x400000 := rfl
  omega

theorem dataStart_aligned (h : View s t a V L) : (dataStart s).toNat % 4096 = 0 := by
  have ha := h.ready.holds.tables.base_aligned
  rw [dataStart, BitVec.toNat_add]
  have hload : moduleDataLoadAddr.toNat = 0xC00000 := rfl
  omega

theorem pageAt_ne_null {k : Nat} (h0 : k ≠ 0) (hk : k < 2^20) : pageAt k ≠ null := by
  intro he
  have hn := congrArg BitVec.toNat he
  rw [pageAt, BitVec.toNat_ofNat, show null.toNat = 0 from rfl] at hn
  omega

/-- What a page shows when it is mapped was in its frame all along. -/
theorem View.prior (h : View s' t' a' V L') (honly : s' = s.withData s'.data)
    (hframe : ∀ y, ¬ Books s t' y → s'.data y = s.data y) {x : U32int} (hx : x / pageSize ∈ V)
    {b : Binding} (hb : a'.bindings (x / pageSize) = some b) :
    L' x = s.memory (inFrame b.frame x) := by
  obtain ⟨c, hc, hcp, hclt, -, hbyte⟩ := h.resolves hx
  obtain rfl : c = b := Option.some.inj (hc.symm.trans hb)
  rw [← hbyte]
  exact hcp.memory_eq h.ready.holds.tables.toWalks honly hframe (inFrame_page hclt)

/-- The next page of a run is new if it is none of the pages `V`. -/
theorem next_page {start : U32int} (ha : start.toNat % 4096 = 0) {k : Nat} (hk : k < 2^20)
    (hV : linAt start (4096 * k) / pageSize ∉ V) :
    linAt start (4096 * k) / pageSize ∉ pagesFrom start k ∪ V :=
  fun hin => hin.elim (not_mem_pagesFrom ha hk) hV

theorem CodeMapped.start {nc nd : Nat} (h : View s t a (imagePages s) L) (he : Enough s a nc nd) :
    CodeMapped s t a L nc nd 0 s t a L where
  only_data := (State.withData_self s).symm
  view := by rwa [pagesFrom_zero, Set.empty_union]
  binds := by
    rw [pagesFrom_zero]
    exact Binds.refl a
  frame := fun _ _ => rfl
  free := rfl
  supply := he.data
  image := fun _ _ => rfl
  prior := fun j hj => absurd hj (Nat.not_lt_zero j)

theorem CodeMapped.step {nc nd k : Nat} (hv : NoCollision s a nc nd) (he : Enough s a nc nd)
    (hk : k < nc) (h : CodeMapped s t a L nc nd k s' t' a' L') : ∃ s'' t'' a'' L'',
      State.loadCodePage (BitVec.ofNat 32 k) s' = .ok s'' ∧
        CodeMapped s t a L nc nd (k + 1) s'' t'' a'' L'' := by
  have hlen := he.code
  have hlt : k < (codeFree s).length := by omega
  have hbase : codeBase s' = codeBase s := by rw [h.only_data]; rfl
  have hfree : codeFree s' = (codeFree s).getD k 0 :: (codeFree s).drop (k + 1) := by
    rw [h.free, List.drop_eq_getElem_cons hlt, List.getElem_eq_getD 0]
  have hmem : (codeFree s).getD k 0 ∈ codeFree s := by
    rw [← List.getElem_eq_getD (h := hlt)]
    exact List.getElem_mem hlt
  have hpages := (PackedBits.mem_freeList.mp hmem).1
  have hnum := codePages_lt s
  have hlen := PackedBits.freeList_length_le s.data s.memoryBitmap.codeBitmap (codePages s)
  change (codeFree s).length ≤ _ at hlen
  have halign := codeStart_aligned h.view.apart
  have hstart : codeStart s' = codeStart s := by rw [codeStart, hbase]; rfl
  have hlin : moduleCodeLoadAddr + BitVec.ofNat 32 k * pageSize + codeBase s' =
      linAt (codeStart s) (4096 * k) := by
    rw [hbase, page_offset, linAt_base]
    rfl
  have hvac := hv.code k hk
  rw [hstart] at halign
  have hnew := next_page halign (by omega : k < 2^20) hvac.image
  have hout : Outside a' (linAt (codeStart s) (4096 * k)) := by
    rw [Outside, h.binds.window]
    exact hvac.outside
  have hspares : SparesKernel s' (linAt (codeStart s) (4096 * k)) (frameOf (codeBase s')
      ((codeFree s).getD k 0)) := by
    rw [h.only_data]
    exact hvac.spares _
  obtain ⟨s1, s'', t'', halloc, hmap, hadded, hneed, hrest⟩ := h.view.mapCode
    (v := moduleCodeLoadAddr + BitVec.ofNat 32 k * pageSize) false true hfree
    (by rw [hlin]; exact code_span s hk) h.supply (by rw [hlin]; exact hnew)
      (by rw [hlin]; exact hout)
    (by rw [hlin]; exact hspares)
  rw [hlin] at hadded hneed
  have hnull : pageAt ((codeFree s).getD k 0) ≠ null :=
    pageAt_ne_null (fun h0 => he.not_null (h0 ▸ hmem)) (by omega)
  have honly : s'' = s.withData s''.data := by
    rw [hadded.only_data, h.only_data, State.withData_data, State.withData_withData]
  have hframe : ∀ y, ¬ Books s t'' y → s''.data y = s.data y := by
    intro y hy
    rw [hadded.frame y (by rw [h.only_data]; exact hy)]
    exact h.frame y fun hb => hy (hb.mono hadded.grows)
  have hview := hadded.view
  rw [← Set.insert_union, ← pagesFrom_succ] at hview
  have hbinds := h.binds.mapCode (f := frameOf (codeBase s') ((codeFree s).getD k 0))
    (fun hin => hnew (.inl hin)) (Set.notMem_empty _)
  rw [← pagesFrom_succ] at hbinds
  refine ⟨s'', t'', _, _, ?_, honly, hview, hbinds, hframe, hrest, hneed,
    fun x hx => ?_, fun j hj x hx => ?_⟩
  · rw [State.loadCodePage, bind_of_ok halloc]
    exact (bind_of_ok (assert_ne_null hnull) _).trans hmap
  · have hne : x / pageSize ≠ linAt (codeStart s) (4096 * k) / pageSize := fun hpage =>
      hnew (.inr (hpage ▸ hx))
    rw [shown, if_neg hne]
    exact h.image x hx
  · rcases Nat.lt_or_eq_of_le (Nat.le_of_lt_succ hj) with hlt' | rfl
    · have hne : x / pageSize ≠ linAt (codeStart s) (4096 * k) / pageSize := fun hpage =>
        hnew (.inl ⟨j, hlt', hpage.symm.trans hx⟩)
      rw [shown, if_neg hne]
      exact h.prior j hlt' x hx
    · have hin : x / pageSize ∈ pagesFrom (codeStart s) (j + 1) ∪ imagePages s :=
        .inl ⟨j, Nat.lt_succ_self j, hx⟩
      rw [View.prior hview honly hframe hin (by rw [hx]; exact map_bindings_self ..),
        codeFrame, hbase]

/-- The mapping loop comes back with every code page mapped. -/
theorem mapCodePages {nc nd : Nat} (hview : View s t a (imagePages s) L)
    (hv : NoCollision s a nc nd) (he : Enough s a nc nd) : ∃ s' t' a' L',
      (List.range nc).foldlM (fun s k => State.loadCodePage (BitVec.ofNat 32 k) s) s = .ok s' ∧
        CodeMapped s t a L nc nd nc s' t' a' L' := by
  obtain ⟨s', hrun, t', a', L', hmapped⟩ := Loops.foldlM_range_ok
    (P := fun k s' => ∃ t' a' L', CodeMapped s t a L nc nd k s' t' a' L')
    (fun k hk s' ⟨t', a', L', h⟩ => by
      obtain ⟨s'', t'', a'', L'', hcall, hnext⟩ := h.step hv he hk
      exact ⟨s'', hcall, t'', a'', L'', hnext⟩)
    ⟨t, a, L, CodeMapped.start hview he⟩
  exact ⟨s', t', a', L', hrun, hmapped⟩

theorem code_limit {h : ModuleHeader} {info : SegmentsInfo} (ha : h.Accepted info) {k : Nat}
    (hk : k < 4096 * (pageCountOf h.codeSize).toNat) :
    linAt moduleCodeLoadAddr k ≤ info.codeSegment.limit := by
  have hfits := ha.code_fits
  have hlen := info.codeSegment.len.isLt
  rw [pageCountOf_toNat] at hk
  rw [BitVec.le_def, Segment.limit_toNat, linAt, BitVec.toNat_add, BitVec.toNat_ofNat,
    show moduleCodeLoadAddr.toNat = 0x400000 from rfl]
  omega

theorem data_limit {h : ModuleHeader} {info : SegmentsInfo} (ha : h.Accepted info) {k : Nat}
    (hk : k < 4096 * (pageCountOf h.dataSize).toNat) :
    linAt moduleDataLoadAddr k ≤ info.dataSegment.limit := by
  have hfits := ha.data_fits
  have hlen := info.dataSegment.len.isLt
  rw [pageCountOf_toNat] at hk
  rw [BitVec.le_def, Segment.limit_toNat, linAt, BitVec.toNat_add, BitVec.toNat_ofNat,
    show moduleDataLoadAddr.toNat = 0xC00000 from rfl]
  omega

/-- A byte of the image is read as it is seen. -/
theorem image_load (h : View s' t' a' V L') (hseg : s'.segmentsInfo = s.segmentsInfo)
    (hV : imagePages s ⊆ V) {k : Nat} (hk : k < s.segmentsInfo.moduleSegment.len.toNat) :
    s'.moduleLoad8 (BitVec.ofNat 32 k) = .ok (L' (linAt (imageStart s) k)) := by
  have hlen := s.segmentsInfo.moduleSegment.len.isLt
  have hlim : BitVec.ofNat 32 k ≤ s'.segmentsInfo.moduleSegment.limit := by
    rw [BitVec.le_def, Segment.limit_toNat, hseg, BitVec.toNat_ofNat]
    omega
  have hlin : BitVec.ofNat 32 k + s'.segmentsInfo.moduleSegment.base = linAt (imageStart s) k := by
    rw [add_comm, hseg]
    rfl
  have hload := h.load hlim (by rw [hlin]; exact hV ⟨k, hk, rfl⟩)
  rw [hlin] at hload
  exact hload

theorem cleanCodePages_eq {count : U32int} (h0 : 0 < count.toNat)
    (hfit : 0x400000 + 4096 * count.toNat ≤ 2^32) (s : State) :
    s.cleanCodePages count = (List.range (4096 * count.toNat - 3)).foldlM
      (fun s k => s.codeStore8 (linAt moduleCodeLoadAddr k) 0x0) s := by
  have hend : (moduleCodeLoadAddr + count * pageSize - 3).toNat =
      0x400000 + 4096 * count.toNat - 3 := by
    rw [BitVec.toNat_sub, BitVec.toNat_add, BitVec.toNat_mul,
      show moduleCodeLoadAddr.toNat = 0x400000 from rfl,
      show pageSize.toNat = 4096 from rfl, show (3 : U32int).toNat = 3 from rfl]
    omega
  have hindex : ∀ k < 4096 * count.toNat,
      (moduleCodeLoadAddr + BitVec.ofNat 32 k * 1).toNat = 0x400000 + k := by
    intro k hk
    rw [mul_one, BitVec.toNat_add, BitVec.toNat_ofNat,
      show moduleCodeLoadAddr.toNat = 0x400000 from rfl]
    omega
  unfold State.cleanCodePages State.forLoop
  rw [Loops.forLoop_eq_range (n := 4096 * count.toNat - 3) .diverged
    (fun index s => State.codeStore8 s index 0x0) (by unfold loopFuel; omega)]
  · simp only [mul_one, linAt]
  · intro k hk
    rw [decide_eq_true_eq, BitVec.lt_def, hend, hindex k (by omega)]
    omega
  · rw [decide_eq_false_iff_not, BitVec.lt_def, hend, hindex _ (by omega)]
    omega

theorem copyCode_eq_range {offset size : U32int} (h : offset.toNat + size.toNat < 2^32)
    (s : State) : s.copyCode offset size = (List.range size.toNat).foldlM (fun s k => do
      let b ← s.moduleLoad8 (BitVec.ofNat 32 (offset.toNat + k))
      s.codeStore8 (linAt moduleCodeLoadAddr k) b) s := by
  rw [State.copyCode_eq, copyIndices_of_fits h, List.foldlM_map]
  simp only [BitVec.ofNat_add, BitVec.ofNat_toNat, BitVec.setWidth_eq, linAt]

theorem copyData_eq_range {offset size : U32int} (h : offset.toNat + size.toNat < 2^32)
    (s : State) : s.copyData offset size = (List.range size.toNat).foldlM (fun s k => do
      let b ← s.moduleLoad8 (BitVec.ofNat 32 (offset.toNat + k))
      s.store8 (linAt moduleDataLoadAddr k) b) s := by
  rw [State.copyData_eq, copyIndices_of_fits h, List.foldlM_map]
  simp only [BitVec.ofNat_add, BitVec.ofNat_toNat, BitVec.setWidth_eq, linAt]

def codeCount (h : ModuleHeader) : Nat := (pageCountOf h.codeSize).toNat
def dataCount (h : ModuleHeader) : Nat := (pageCountOf h.dataSize).toNat

/-- A running kernel, with `L` in the image's pages, in which the accepted module `h`
can be loaded. -/
structure Loadable (s : State) (t : TableMap) (a : Space) (L : Memory)
    (h : ModuleHeader) : Prop where
  view : View s t a (imagePages s) L
  accepted : h.Accepted s.segmentsInfo
  code_source : h.codeOffset.toNat + h.codeSize.toNat ≤ s.segmentsInfo.moduleSegment.len.toNat
  data_source : h.dataOffset.toNat + h.dataSize.toNat ≤ s.segmentsInfo.moduleSegment.len.toNat
  vacant : NoCollision s a (codeCount h) (dataCount h)
  enough : Enough s a (codeCount h) (dataCount h)

/-- Byte `k` of the range of the image at `offset`. -/
def imageByte (s : State) (L : Memory) (offset : U32int) (k : Nat) : U8int :=
  L (linAt (imageStart s) (offset.toNat + k))

variable {h : ModuleHeader}

theorem Loadable.codeCount_le (hl : Loadable s t a L h) :
    0 < codeCount h ∧ 0x400000 + 4096 * codeCount h ≤ 2^32 := by
  have hpos := hl.accepted.code_pos
  have hfits := hl.accepted.code_fits
  have hlen := s.segmentsInfo.codeSegment.len.isLt
  rw [codeCount, pageCountOf_toNat]
  omega

theorem Loadable.dataCount_le (hl : Loadable s t a L h) : 0xC00000 + 4096 * dataCount h ≤ 2^32 := by
  have hfits := hl.accepted.data_fits
  have hlen := s.segmentsInfo.dataSegment.len.isLt
  rw [dataCount, pageCountOf_toNat]
  omega

theorem codeSize_le (h : ModuleHeader) : h.codeSize.toNat ≤ 4096 * codeCount h := by
  rw [codeCount, pageCountOf_toNat]
  omega

theorem dataSize_le (h : ModuleHeader) : h.dataSize.toNat ≤ 4096 * dataCount h := by
  rw [dataCount, pageCountOf_toNat]
  omega

/-- No page of the module is one of the image. -/
theorem Loadable.image_apart (hl : Loadable s t a L h) {q : U32int} (hq : q ∈ imagePages s) :
    q ∉ pagesFrom (codeStart s) (codeCount h) ∧ q ∉ pagesFrom (dataStart s) (dataCount h) := by
  constructor
  · intro h
    obtain ⟨k, hk, rfl⟩ := h
    exact (hl.vacant.code k hk).image hq
  · intro h
    obtain ⟨k, hk, rfl⟩ := h
    exact (hl.vacant.data k hk).image hq

/-- A run of stores stays in its pages. -/
theorem scatter_outside {start x : U32int} {n j : Nat} {v : Nat → U8int}
    (ha : start.toNat % 4096 = 0)
    (hn : n ≤ 2^20) (hj : j ≤ 4096 * n) (hx : x / pageSize ∉ pagesFrom start n) :
    scatter L (linAt start) v j x = L x := by
  refine scatter_of_ne fun k hk he => hx ?_
  rw [he]
  exact linAt_mem ha hn (by omega)

def cleanedCode (s : State) (h : ModuleHeader) (L : Memory) : Memory :=
  scatter L (linAt (codeStart s)) (fun _ => 0) (4096 * codeCount h - 3)

theorem cleanCode {nd : Nat} {s1 : State} {t1 : TableMap} {a1 : Space} {L1 : Memory}
    (hl : Loadable s t a L h) (hm : CodeMapped s t a L (codeCount h) nd (codeCount h) s1 t1 a1 L1) :
    ∃ s2, s1.cleanCodePages (pageCountOf h.codeSize) = .ok s2 ∧
      Stored s1 t1 a1 (pagesFrom (codeStart s) (codeCount h) ∪ imagePages s)
          (cleanedCode s h L1) s2 := by
  obtain ⟨hpos, hfit⟩ := hl.codeCount_le
  have hcount : codeCount h = (pageCountOf h.codeSize).toNat := rfl
  have hinfo : s1.segmentsInfo = s.segmentsInfo := by rw [hm.only_data]; rfl
  rw [cleanCodePages_eq hpos hfit]
  refine storeLoop hm.view (rfl : moduleCodeLoadAddr + codeBase s = _) (fun k hk => ?_)
    (fun k hk => ?_) fun k hk s' hs x hx => ?_
  · exact code_limit hl.accepted (by omega)
  · exact .inl (linAt_mem (codeStart_aligned hl.view.apart) (by omega) (by omega))
  · have hinfo' : s'.segmentsInfo = s.segmentsInfo := by rw [hs.only_data]; exact hinfo
    simp only [State.codeStore8, hinfo', hx, ok_bind, pure_ok]

/-- A copy loop writes its range of the image to the pages from `start` on. -/
theorem copyLoop (hv : View s' t' a' V L') (hinfo : s'.segmentsInfo = s.segmentsInfo)
    (himage : imagePages s ⊆ V) (hbytes : ∀ x, x / pageSize ∈ imagePages s → L' x = L x)
    {seg : Segment} {addr start offset size : U32int} {n : Nat} (hstart : addr + seg.base = start)
    (ha : start.toNat % 4096 = 0) (hn : n ≤ 2^20) (hsize : size.toNat ≤ 4096 * n)
    (hpages : pagesFrom start n ⊆ V) (hapart : ∀ q ∈ imagePages s, q ∉ pagesFrom start n)
    (hlim : ∀ k < 4096 * n, linAt addr k ≤ seg.limit)
    (hsource : offset.toNat + size.toNat ≤ s.segmentsInfo.moduleSegment.len.toNat)
    {store : State → U32int → U8int → Except Trap State}
    (hstore : ∀ s'' : State, s''.segmentsInfo = s.segmentsInfo →
    ∀ rel v x, s''.segAddr seg rel = .ok x →
      store s'' rel v = .ok (s''.withMemory (write8 s''.memory x v))) :
    ∃ s'', (List.range size.toNat).foldlM (fun s k => do
        let b ← s.moduleLoad8 (BitVec.ofNat 32 (offset.toNat + k))
        store s (linAt addr k) b) s' = .ok s'' ∧
      Stored s' t' a' V (scatter L' (linAt start) (imageByte s L offset) size.toNat) s'' := by
  refine storeLoop hv hstart (fun k hk => hlim k (by omega))
    (fun k hk => hpages (linAt_mem ha hn (by omega))) fun k hk s'' hs x hx => ?_
  have hinfo' : s''.segmentsInfo = s.segmentsInfo := by rw [hs.only_data]; exact hinfo
  have hin : linAt (imageStart s) (offset.toNat + k) / pageSize ∈ imagePages s :=
    ⟨offset.toNat + k, by omega, rfl⟩
  have hload := image_load hs.view hinfo' himage (k := offset.toNat + k) (by omega)
  rw [scatter_outside ha hn (by omega) (hapart _ hin), hbytes _ hin] at hload
  simp only [hload, ok_bind, hstore s'' hinfo' _ _ x hx]
  rfl

def filledCode (s : State) (h : ModuleHeader) (L L1 : Memory) : Memory :=
  scatter (cleanedCode s h L1) (linAt (codeStart s)) (imageByte s L h.codeOffset) h.codeSize.toNat

theorem copyCode {nd : Nat} {s1 s2 : State} {t1 : TableMap} {a1 : Space} {L1 : Memory}
    (hl : Loadable s t a L h) (hm : CodeMapped s t a L (codeCount h) nd (codeCount h) s1 t1 a1 L1)
    (hc : Stored s1 t1 a1 (pagesFrom (codeStart s) (codeCount h) ∪ imagePages s)
    (cleanedCode s h L1) s2) : ∃ s3, s2.copyCode h.codeOffset h.codeSize = .ok s3 ∧
      Stored s1 t1 a1 (pagesFrom (codeStart s) (codeCount h) ∪ imagePages s)
          (filledCode s h L L1) s3 := by
  obtain ⟨hpos, hfit⟩ := hl.codeCount_le
  have halign := codeStart_aligned hl.view.apart
  have hsource := hl.code_source
  have hlen := s.segmentsInfo.moduleSegment.len.isLt
  have hinfo : s2.segmentsInfo = s.segmentsInfo := by
    rw [hc.only_data, hm.only_data]
    rfl
  have hapart : ∀ q ∈ imagePages s, q ∉ pagesFrom (codeStart s) (codeCount h) := fun q hq =>
    (hl.image_apart hq).1
  have hbytes : ∀ x, x / pageSize ∈ imagePages s → cleanedCode s h L1 x = L x := fun x hx =>
    (scatter_outside halign (by omega) (Nat.sub_le ..) (hapart _ hx)).trans (hm.image x hx)
  have hstore : ∀ s'' : State, s''.segmentsInfo = s.segmentsInfo → ∀ rel v x,
      s''.segAddr s.segmentsInfo.codeSegment rel = .ok x →
        s''.codeStore8 rel v = .ok (s''.withMemory (write8 s''.memory x v)) := by
    intro s'' hi rel v x hx
    rw [← hi] at hx
    simp only [State.codeStore8, hx, ok_bind, pure_ok]
  rw [copyCode_eq_range (by omega)]
  obtain ⟨s3, hrun, hs3⟩ := copyLoop hc.view hinfo Set.subset_union_right
    hbytes rfl halign (by omega) (codeSize_le h) Set.subset_union_left hapart
    (fun k hk => code_limit hl.accepted hk) hl.code_source hstore
  exact ⟨s3, hrun, hc.trans hs3⟩

/-- After `k` rounds: the data pages are zero and the pages `V` are as they were. -/
structure DataMapped (s : State) (a : Space) (V : Set U32int) (L : Memory) (nc nd k : Nat)
    (s' : State) (t' : TableMap) (a' : Space) (L' : Memory) : Prop where
  only_data : s' = s.withData s'.data
  view : View s' t' a' (pagesFrom (dataStart s) k ∪ V) L'
  binds : Binds a a' (pagesFrom (codeStart s) nc) (pagesFrom (dataStart s) k)
  supply : need (spans s nc nd) a' + (nd - k + 1) ≤ (dataFree s').length
  kept : ∀ x, x / pageSize ∈ V → L' x = L x
  zero : ∀ x, x / pageSize ∈ pagesFrom (dataStart s) k → L' x = 0

/-- The next data page is zero, the others are not touched. -/
theorem fill_page {lin x : U32int} (ha : lin.toNat % 4096 = 0) :
    fill L lin 4096 0 x = if x / pageSize = lin / pageSize then 0 else L x := by
  have hx := x.isLt
  have hlin := lin.isLt
  have hpage : x / pageSize = lin / pageSize ↔ (x - lin).toNat < 4096 := by
    rw [← BitVec.toNat_inj, page_toNat, page_toNat, BitVec.toNat_sub]
    omega
  rw [fill]
  exact if_congr hpage.symm rfl rfl

/-- A data page that has just been mapped is cleared. -/
theorem clearDataPage {k : Nat} {header : ModuleHeader}
    (hview : View s' t' a' (pagesFrom (dataStart s) (k + 1) ∪ V) L')
    (hseg : s'.segmentsInfo = s.segmentsInfo) (halign : (dataStart s).toNat % 4096 = 0)
    (hinfo : header.Accepted s.segmentsInfo) (hk : k < dataCount header) (hlt : k < 2^20) :
    ∃ s'', s'.memset (moduleDataLoadAddr + BitVec.ofNat 32 k * pageSize) 0x0 4096 = .ok s'' ∧
      Stored s' t' a' (pagesFrom (dataStart s) (k + 1) ∪ V)
        (fill L' (linAt (dataStart s) (4096 * k)) 4096 0x0) s'' := by
  have hbase : s'.dataBase = s.dataBase := congrArg (fun info => info.dataSegment.base) hseg
  have hrange : ∀ j : U32int, j.toNat < 4096 →
      moduleDataLoadAddr + BitVec.ofNat 32 k * pageSize + j ≤ s'.segmentsInfo.dataSegment.limit ∧
        (moduleDataLoadAddr + BitVec.ofNat 32 k * pageSize + j + s'.dataBase) / pageSize ∈
          pagesFrom (dataStart s) (k + 1) ∪ V := by
    intro j hj
    have hin : 4096 * k + j.toNat < 4096 * dataCount header := by omega
    rw [page_offset, linAt_add, hbase, linAt_base, hseg]
    exact ⟨data_limit hinfo hin, .inl (linAt_mem halign (by omega) (by omega))⟩
  obtain ⟨s'', hfill, hst⟩ := hview.memset 0x0 (by decide) hrange
  rw [hbase, page_offset, linAt_base] at hst
  exact ⟨s'', hfill, hst⟩

theorem DataMapped.step {nc nd k : Nat} {header : ModuleHeader}
    (hinfo : header.Accepted s.segmentsInfo)
    (hnd : nd = dataCount header) (hV : ∀ k < nd, linAt (dataStart s) (4096 * k) / pageSize ∉ V)
    (hv : NoCollision s a nc nd) (hk : k < nd) (h : DataMapped s a V L nc nd k s' t' a' L') :
    ∃ s'' t'' a'' L'', State.loadDataPage (BitVec.ofNat 32 k) s' = .ok s'' ∧
      DataMapped s a V L nc nd (k + 1) s'' t'' a'' L'' := by
  have hsupply := h.supply
  have hbase : s'.dataBase = s.dataBase := by rw [h.only_data]; rfl
  have hseg : s'.segmentsInfo = s.segmentsInfo := by rw [h.only_data]; rfl
  obtain ⟨page, rest, hfree⟩ : ∃ page rest, dataFree s' = page :: rest :=
    List.exists_cons_of_length_pos (by omega)
  have hstart : dataStart s' = dataStart s := by rw [dataStart, hbase]; rfl
  have halign : (dataStart s).toNat % 4096 = 0 := by
    rw [← hstart]
    exact dataStart_aligned h.view
  have hlin : moduleDataLoadAddr + BitVec.ofNat 32 k * pageSize + s'.dataBase =
      linAt (dataStart s) (4096 * k) := by
    rw [hbase, page_offset, linAt_base]
    rfl
  have hcount : nd ≤ 2^20 := by
    have hfits := hinfo.data_fits
    have hlen := s.segmentsInfo.dataSegment.len.isLt
    rw [hnd, dataCount, pageCountOf_toNat]
    omega
  have hvac := hv.data k hk
  have hnew := next_page halign (by omega : k < 2^20) (hV k hk)
  have hout : Outside a' (linAt (dataStart s) (4096 * k)) := by
    rw [Outside, h.binds.window]
    exact hvac.outside
  have hspares : SparesKernel s' (linAt (dataStart s) (4096 * k)) (frameOf s'.dataBase page) := by
    rw [h.only_data]
    exact hvac.spares _
  obtain ⟨s1, s2, t2, halloc, hnull, -, hmap, hadded, hneed, -⟩ := h.view.mapData
    (v := moduleDataLoadAddr + BitVec.ofNat 32 k * pageSize) (r := nd - (k + 1) + 1)
    (I := spans s nc nd) true true hfree
    (by rw [hlin]; exact data_span s hk) (by omega) (by rw [hlin]; exact hnew)
      (by rw [hlin]; exact hout)
    (by rw [hlin]; exact hspares)
  rw [hlin] at hadded hneed
  have hview := hadded.view
  rw [← Set.insert_union, ← pagesFrom_succ] at hview
  have hseg2 : s2.segmentsInfo = s.segmentsInfo := by rw [hadded.only_data]; exact hseg
  obtain ⟨s3, hfill, hst⟩ := clearDataPage hview hseg2 halign hinfo (hnd ▸ hk) (by omega)
  have hlinAlign := linAt_aligned halign k
  have hbinds := h.binds.mapData (f := frameOf s'.dataBase page)
    (fun hin => Set.disjoint_left.mp hv.code_data hin ⟨k, hk, rfl⟩) (fun hin => hnew (.inl hin))
  rw [← pagesFrom_succ] at hbinds
  refine ⟨s3, t2, _, _, ?_, ?_, hst.view, hbinds, ?_, fun x hx => ?_, fun x hx => ?_⟩
  · rw [State.loadDataPage, bind_of_ok halloc]
    exact (bind_of_ok (assert_ne_null hnull) _).trans ((bind_of_ok hmap _).trans hfill)
  · rw [hst.only_data, hadded.only_data, h.only_data]
    simp only [State.withData_data, State.withData_withData]
  · rw [hst.dataFree]
    exact hneed
  · have hne : x / pageSize ≠ linAt (dataStart s) (4096 * k) / pageSize := fun hpage =>
      hV k hk (hpage ▸ hx)
    rw [fill_page hlinAlign, if_neg hne, shown, if_neg hne]
    exact h.kept x hx
  · rw [fill_page hlinAlign]
    split_ifs with hpage
    · rfl
    · rw [pagesFrom_succ] at hx
      rw [shown, if_neg hpage]
      exact h.zero x (hx.resolve_left hpage)

/-- The pages `V` once the code is loaded. -/
def codePagesOf (s : State) (h : ModuleHeader) : Set U32int :=
  pagesFrom (codeStart s) (codeCount h) ∪ imagePages s

theorem Loadable.data_apart (hl : Loadable s t a L h) {q : U32int}
    (hq : q ∈ pagesFrom (dataStart s) (dataCount h)) : q ∉ codePagesOf s h := by
  intro h
  rcases h with hin | hin
  · exact Set.disjoint_left.mp hl.vacant.code_data hin hq
  · exact (hl.image_apart hin).2 hq

theorem mapDataPages {s3 : State} {t3 : TableMap} {a3 : Space}
    {L3 : Memory} (hl : Loadable s t a L h)
    (honly : s3 = s.withData s3.data) (hview : View s3 t3 a3 (codePagesOf s h) L3)
    (hbinds : Binds a a3 (pagesFrom (codeStart s) (codeCount h)) ∅)
    (hsupply : need (spans s (codeCount h) (dataCount h)) a3 + (dataCount h + 1) ≤
      (dataFree s3).length) : ∃ s' t' a' L', (List.range (dataCount h)).foldlM
        (fun s k => State.loadDataPage (BitVec.ofNat 32 k) s) s3 = .ok s' ∧
      DataMapped s a (codePagesOf s h) L3 (codeCount h) (dataCount h)
          (dataCount h) s' t' a' L' := by
  have hV : ∀ k < dataCount h, linAt (dataStart s) (4096 * k) / pageSize ∉ codePagesOf s h :=
    fun k hk => hl.data_apart ⟨k, hk, rfl⟩
  have h0 : DataMapped s a (codePagesOf s h) L3 (codeCount h) (dataCount h) 0 s3 t3 a3 L3 := by
    refine ⟨honly, ?_, ?_, hsupply, fun _ _ => rfl, fun x hx => ?_⟩
    · rwa [pagesFrom_zero, Set.empty_union]
    · rwa [pagesFrom_zero]
    · rw [pagesFrom_zero] at hx
      exact absurd hx (Set.notMem_empty _)
  obtain ⟨s', hrun, t', a', L', hmapped⟩ := Loops.foldlM_range_ok
    (P := fun k s' => ∃ t' a' L',
      DataMapped s a (codePagesOf s h) L3 (codeCount h) (dataCount h) k s' t' a' L')
    (fun k hk s' ⟨t', a', L', hm⟩ => by
      obtain ⟨s'', t'', a'', L'', hcall, hnext⟩ := hm.step hl.accepted rfl hV hl.vacant hk
      exact ⟨s'', hcall, t'', a'', L'', hnext⟩)
    ⟨t3, a3, L3, h0⟩
  exact ⟨s', t', a', L', hrun, hmapped⟩

def filledData (s : State) (h : ModuleHeader) (L L4 : Memory) : Memory :=
  scatter L4 (linAt (dataStart s)) (imageByte s L h.dataOffset) h.dataSize.toNat

theorem copyData {s4 : State} {t4 : TableMap} {a4 : Space} {L3 L4 : Memory}
    (hl : Loadable s t a L h) (hbytes : ∀ x, x / pageSize ∈ imagePages s → L3 x = L x)
    (hm : DataMapped s a (codePagesOf s h) L3 (codeCount h) (dataCount h) (dataCount h) s4 t4 a4
    L4) : ∃ s5, s4.copyData h.dataOffset h.dataSize = .ok s5 ∧
      Stored s4 t4 a4 (pagesFrom (dataStart s) (dataCount h) ∪ codePagesOf s h)
          (filledData s h L L4) s5 := by
  have hfit := hl.dataCount_le
  have hsource := hl.data_source
  have hlen := s.segmentsInfo.moduleSegment.len.isLt
  have hinfo : s4.segmentsInfo = s.segmentsInfo := by rw [hm.only_data]; rfl
  have halign := dataStart_aligned hl.view
  have hapart : ∀ q ∈ imagePages s, q ∉ pagesFrom (dataStart s) (dataCount h) := fun q hq =>
    (hl.image_apart hq).2
  have hbytes4 : ∀ x, x / pageSize ∈ imagePages s → L4 x = L x := fun x hx =>
    (hm.kept x (.inr hx)).trans (hbytes x hx)
  have hstore : ∀ s'' : State, s''.segmentsInfo = s.segmentsInfo → ∀ rel v x,
      s''.segAddr s.segmentsInfo.dataSegment rel = .ok x →
        s''.store8 rel v = .ok (s''.withMemory (write8 s''.memory x v)) := by
    intro s'' hi rel v x hx
    rw [← hi] at hx
    exact State.store8_of_resolves hx v
  rw [copyData_eq_range (by omega)]
  exact copyLoop hm.view hinfo (fun q hq => .inr (.inr hq)) hbytes4 rfl halign
    (by omega) (dataSize_le h) Set.subset_union_left hapart (fun k hk => data_limit hl.accepted hk)
    hl.data_source hstore

/-- The stack page is the last one to be mapped. -/
theorem loadStack {s5 : State} {t5 : TableMap} {a5 : Space} {V5 : Set U32int}
    {L5 : Memory} {nc nd : Nat}
    (hv : NoCollision s a nc nd) (honly : s5 = s.withData s5.data) (hview : View s5 t5 a5 V5 L5)
    (hbinds : Binds a a5 (pagesFrom (codeStart s) nc) (pagesFrom (dataStart s) nd))
    (hnew : stackLin s / pageSize ∉ V5)
    (hsupply : need (spans s nc nd) a5 + 1 ≤ (dataFree s5).length) :
    ∃ s' t' a' L', s5.loadStackPage = .ok s' ∧ s' = s.withData s'.data ∧
      View s' t' a' (insert (stackLin s / pageSize) V5) L' ∧
      Binds a a' (pagesFrom (codeStart s) nc)
        (insert (stackLin s / pageSize) (pagesFrom (dataStart s) nd)) ∧
      ∀ x, x / pageSize ∈ V5 → L' x = L5 x := by
  have hbase : s5.dataBase = s.dataBase := by rw [honly]; rfl
  have hinfo : s5.segmentsInfo = s.segmentsInfo := by rw [honly]; rfl
  obtain ⟨page, rest, hfree⟩ : ∃ page rest, dataFree s5 = page :: rest :=
    List.exists_cons_of_length_pos (by omega)
  have hlin : s.segmentsInfo.dataSegment.len - pageSize * 2 + s5.dataBase = stackLin s := by
    rw [hbase]
    rfl
  have hout : Outside a5 (stackLin s) := by
    rw [Outside, hbinds.window]
    exact hv.stack.outside
  have hspares : SparesKernel s5 (stackLin s) (frameOf s5.dataBase page) := by
    rw [honly]
    exact hv.stack.spares _
  obtain ⟨s1, s', t', halloc, hnull, hinfo1, hmap, hadded, -, -⟩ := hview.mapData
    (v := s.segmentsInfo.dataSegment.len - pageSize * 2) (r := 0)
      (I := spans s nc nd) true true hfree
    (by rw [hlin]; exact stack_span s nc nd) hsupply (by rw [hlin]; exact hnew)
      (by rw [hlin]; exact hout)
    (by rw [hlin]; exact hspares)
  rw [hlin] at hadded
  rw [hinfo] at hinfo1
  have hbinds' := hbinds.mapData (f := frameOf s5.dataBase page)
    (fun hin => hv.stack_new (.inl hin)) (fun hin => hv.stack_new (.inr hin))
  refine ⟨s', t', _, _, ?_, ?_, hadded.view, hbinds', fun x hx => ?_⟩
  · rw [hinfo1] at hmap
    rw [State.loadStackPage, bind_of_ok halloc]
    refine (bind_of_ok (assert_ne_null hnull) _).trans ?_
    rw [hinfo1]
    exact hmap
  · rw [hadded.only_data, honly, State.withData_data, State.withData_withData]
  · have hne : x / pageSize ≠ stackLin s / pageSize := fun hpage => hnew (hpage ▸ hx)
    rw [shown, if_neg hne]

/-- Code bytes as the loops leave them: the image, zeros, and what was in the frame. -/
theorem filledCode_at {s1 : State} {t1 : TableMap} {a1 : Space} {L1 : Memory} {nd k : Nat}
    (hl : Loadable s t a L h) (hm : CodeMapped s t a L (codeCount h) nd (codeCount h) s1 t1 a1 L1)
    (hk : k < 4096 * codeCount h) : filledCode s h L L1 (linAt (codeStart s) k) =
      if k < h.codeSize.toNat then imageByte s L h.codeOffset k
      else if k < 4096 * codeCount h - 3 then 0
      else s.memory (inFrame (codeFrame s (codeCount h - 1)) (linAt (codeStart s) k)) := by
  obtain ⟨hpos, hfit⟩ := hl.codeCount_le
  have hsize := codeSize_le h
  have hinj : ∀ n ≤ 4096 * codeCount h, ∀ i < n, ∀ j < n,
      linAt (codeStart s) i = linAt (codeStart s) j → i = j := fun n hn i hi j hj he =>
    linAt_inj (by omega) (by omega) he
  have hfar : ∀ n ≤ k, ∀ j < n, linAt (codeStart s) k ≠ linAt (codeStart s) j :=
      fun n hn j hj he => by
    have hkj := linAt_inj (by omega) (by omega) he
    omega
  rw [filledCode, cleanedCode]
  split_ifs with hcode hclean
  · exact scatter_at (hinj _ hsize) hcode
  · rw [scatter_of_ne (hfar _ (Nat.not_lt.mp hcode))]
    exact scatter_at (hinj _ (Nat.sub_le ..)) hclean
  · rw [scatter_of_ne (hfar _ (Nat.not_lt.mp hcode)), scatter_of_ne (hfar _ (Nat.not_lt.mp hclean))]
    have hpage : linAt (codeStart s) k / pageSize =
        linAt (codeStart s) (4096 * (codeCount h - 1)) / pageSize := by
      rw [page_eq_iff_sub (codeStart_aligned hl.view.apart) (by omega), linAt_sub (by omega)]
      omega
    exact hm.prior _ (Nat.sub_lt hpos Nat.one_pos) _ hpage

theorem filledData_at {s4 : State} {t4 : TableMap} {a4 : Space} {V : Set U32int} {L3 L4 : Memory}
    {nc k : Nat} (hl : Loadable s t a L h)
    (hm : DataMapped s a V L3 nc (dataCount h) (dataCount h) s4 t4 a4 L4)
    (hk : k < 4096 * dataCount h) : filledData s h L L4 (linAt (dataStart s) k) =
      if k < h.dataSize.toNat then imageByte s L h.dataOffset k else 0 := by
  have hfit := hl.dataCount_le
  have hsize := dataSize_le h
  rw [filledData]
  split_ifs with hdata
  · exact scatter_at (fun i hi j hj he => linAt_inj (by omega) (by omega) he) hdata
  · have hfar : ∀ j < h.dataSize.toNat, linAt (dataStart s) k ≠ linAt (dataStart s) j :=
        fun j hj he => by
      have hkj := linAt_inj (by omega) (by omega) he
      omega
    rw [scatter_of_ne hfar]
    exact hm.zero _ (linAt_mem (dataStart_aligned hl.view) (by omega) hk)

/-- The data part, which is left out when there are no data. -/
def loadDataPart (dataOffset dataSize : U32int) (s : State) : Except Trap State :=
  if dataSize > 0 then do
    let s ← s.forLoop (· < pageCountOf dataSize) 1 0 State.loadDataPage
    s.copyData dataOffset dataSize
  else .ok s

theorem loadModuleCodeAndData_eq (s : State) (codeOffset codeSize dataOffset dataSize : U32int) :
    s.loadModuleCodeAndData codeOffset codeSize dataOffset dataSize =
      s.forLoop (· < pageCountOf codeSize) 1 0 State.loadCodePage >>= fun s =>
        s.cleanCodePages (pageCountOf codeSize) >>= fun s =>
            s.copyCode codeOffset codeSize >>= fun s =>
          loadDataPart dataOffset dataSize s >>= fun s => s.loadStackPage := by
  unfold State.loadModuleCodeAndData loadDataPart
  by_cases hsize : dataSize > 0
  · simp only [hsize, if_true, bind_assoc]
  · simp only [hsize, if_false, pure_ok]

theorem loadData {s3 : State} {t3 : TableMap} {a3 : Space} {L3 : Memory} (hl : Loadable s t a L h)
    (honly : s3 = s.withData s3.data) (hview : View s3 t3 a3 (codePagesOf s h) L3)
    (hbinds : Binds a a3 (pagesFrom (codeStart s) (codeCount h)) ∅)
    (hsupply : need (spans s (codeCount h) (dataCount h)) a3 + (dataCount h + 1) ≤
      (dataFree s3).length) (hbytes : ∀ x, x / pageSize ∈ imagePages s → L3 x = L x) :
    ∃ s4 s5 t4 a4 L4, loadDataPart h.dataOffset h.dataSize s3 = .ok s5 ∧
      DataMapped s a (codePagesOf s h) L3 (codeCount h) (dataCount h) (dataCount h) s4 t4 a4 L4 ∧
      Stored s4 t4 a4 (pagesFrom (dataStart s) (dataCount h) ∪ codePagesOf s h)
          (filledData s h L L4) s5 := by
  obtain ⟨s4, t4, a4, L4, hmap, hm⟩ := mapDataPages hl honly hview hbinds hsupply
  obtain ⟨s5, hcopy, hs5⟩ := copyData hl hbytes hm
  refine ⟨s4, s5, t4, a4, L4, ?_, hm, hs5⟩
  rw [loadDataPart]
  by_cases hsize : h.dataSize > 0
  · rw [if_pos hsize, countingLoop_eq]
    exact (bind_of_ok hmap _).trans hcopy
  · have hzero : h.dataSize = 0 := by
      have hle := BitVec.not_lt.mp hsize
      exact BitVec.le_zero_iff.mp hle
    have hcount : dataCount h = 0 := by rw [dataCount, hzero]; rfl
    rw [hcount] at hmap
    rw [hzero, copyData_eq_range (by have hd := h.dataOffset.isLt; simpa using hd)] at hcopy
    rw [if_neg hsize]
    cases hmap
    exact hcopy

/-- What the pages of the module hold in the end. -/
def moduleBytes (s : State) (L : Memory) (h : ModuleHeader) (L' : Memory) : Prop :=
  (∀ k < 4096 * codeCount h, L' (linAt (codeStart s) k) =
    if k < h.codeSize.toNat then imageByte s L h.codeOffset k
    else if k < 4096 * codeCount h - 3 then 0
    else s.memory (inFrame (codeFrame s (codeCount h - 1)) (linAt (codeStart s) k))) ∧
  ∀ k < 4096 * dataCount h, L' (linAt (dataStart s) k) =
    if k < h.dataSize.toNat then imageByte s L h.dataOffset k else 0

/-- The loader comes back, with every page of the module in view. -/
theorem loadModule (hl : Loadable s t a L h) : ∃ s' t' a' L',
    s.loadModuleCodeAndData h.codeOffset h.codeSize h.dataOffset h.dataSize = .ok s' ∧
      s' = s.withData s'.data ∧
      View s' t' a' (insert (stackLin s / pageSize)
        (pagesFrom (dataStart s) (dataCount h) ∪ codePagesOf s h)) L' ∧
      Binds a a' (pagesFrom (codeStart s) (codeCount h))
        (insert (stackLin s / pageSize) (pagesFrom (dataStart s) (dataCount h))) ∧
            moduleBytes s L h L' := by
  obtain ⟨hpos, hfit⟩ := hl.codeCount_le
  obtain ⟨s1, t1, a1, L1, hmap, hm⟩ := mapCodePages hl.view hl.vacant hl.enough
  obtain ⟨s2, hclean, hs2⟩ := cleanCode hl hm
  obtain ⟨s3, hcopy, hs3⟩ := copyCode hl hm hs2
  have honly3 : s3 = s.withData s3.data := by
    rw [hs3.only_data, hm.only_data, State.withData_data, State.withData_withData]
  have hsupply := hm.supply
  rw [← hs3.dataFree] at hsupply
  have hbytes : ∀ x, x / pageSize ∈ imagePages s → filledCode s h L L1 x = L x := by
    intro x hx
    have halign := codeStart_aligned hl.view.apart
    have hapart := (hl.image_apart hx).1
    rw [filledCode, scatter_outside halign (by omega) (codeSize_le h) hapart, cleanedCode,
      scatter_outside halign (by omega) (Nat.sub_le ..) hapart, hm.image x hx]
  obtain ⟨s4, s5, t4, a4, L4, hdata, hm4, hs5⟩ :=
    loadData hl honly3 hs3.view hm.binds hsupply hbytes
  have honly5 : s5 = s.withData s5.data := by
    rw [hs5.only_data, hm4.only_data, State.withData_data, State.withData_withData]
  have hsupply5 := hm4.supply
  rw [Nat.sub_self, Nat.zero_add, ← hs5.dataFree] at hsupply5
  have hnew : stackLin s / pageSize ∉ pagesFrom (dataStart s) (dataCount h) ∪ codePagesOf s h := by
    intro h
    rcases h with hin | hin | hin
    · exact hl.vacant.stack_new (.inr hin)
    · exact hl.vacant.stack_new (.inl hin)
    · exact hl.vacant.stack.image hin
  obtain ⟨s', t', a', L', hstack, honly, hview, hbinds, hkept⟩ :=
    loadStack hl.vacant honly5 hs5.view hm4.binds hnew hsupply5
  refine ⟨s', t', a', L', ?_, honly, hview, hbinds, fun k hk => ?_, fun k hk => ?_⟩
  · rw [loadModuleCodeAndData_eq, countingLoop_eq]
    exact (bind_of_ok hmap _).trans ((bind_of_ok hclean _).trans ((bind_of_ok hcopy _).trans
      ((bind_of_ok hdata _).trans hstack)))
  · have hin : linAt (codeStart s) k / pageSize ∈ pagesFrom (codeStart s) (codeCount h) :=
      linAt_mem (codeStart_aligned hl.view.apart) (by omega) hk
    have hdfit := hl.dataCount_le
    have hfar : linAt (codeStart s) k / pageSize ∉ pagesFrom (dataStart s) (dataCount h) :=
        fun hd =>
      Set.disjoint_left.mp hl.vacant.code_data hin hd
    have hdsize := dataSize_le h
    rw [hkept _ (.inr (.inl hin)), filledData,
      scatter_outside (dataStart_aligned hl.view) (by omega) hdsize hfar, hm4.kept _ (.inl hin)]
    exact filledCode_at hl hm hk
  · have hdfit := hl.dataCount_le
    have hin : linAt (dataStart s) k / pageSize ∈ pagesFrom (dataStart s) (dataCount h) :=
      linAt_mem (dataStart_aligned hl.view) (by omega) hk
    rw [hkept _ (.inl hin)]
    exact filledData_at hl hm4 hk

end

end SimpleOs.Audit.ModuleLoad
