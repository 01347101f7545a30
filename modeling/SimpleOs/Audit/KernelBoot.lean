import SimpleOs.Audit.PageRuns

/-!
# The kernel `init_paging` starts

The boot code maps kernel data, the stack page, the code, the screen and the module
image to themselves, for the supervisor only, and turns paging on. With enough pages
for the tables every one of these calls succeeds, and the later of two mappings of a
page says whether it is writable.
-/

namespace SimpleOs.Audit.KernelBoot

open SimpleOs.Kernel SimpleOs.Lib SimpleOs.Lib.ByteMemory SimpleOs.Audit.PageTables
open SimpleOs.Audit.KernelAccess SimpleOs.Audit.PagingBoot SimpleOs.Audit.AddressSpace
open SimpleOs.Audit.PageSupply SimpleOs.Audit.Bookkeeping SimpleOs.Audit.LinearView
open SimpleOs.Audit.PageRuns
open SimpleOs.Lib.PackedBits (bit byteAt)

/-- The window is for the supervisor only. -/
def WindowSupervisor (s : State) : Prop :=
    (entryAt s.data (pdCell s (windowIndexOf s))).user = false

/-- Which pages are mapped, and whether they are writable. -/
abbrev Flags := U32int → Option Bool

open Classical in
/-- The pages `P` mapped anew. -/
noncomputable def overlay (P : Set U32int) (rw : Bool) (F : Flags) : Flags := fun q =>
  if q ∈ P then some rw else F q

theorem overlay_insert (P : Set U32int) (rw : Bool) (F : Flags) (q : U32int) :
    overlay (insert q P) rw F = Function.update (overlay P rw F) q (some rw) := by
  funext q'
  by_cases hq : q' = q
  · subst hq
    rw [Function.update_self]
    exact if_pos (Set.mem_insert _ _)
  · rw [Function.update_of_ne hq, overlay, overlay]
    by_cases hP : q' ∈ P
    · rw [if_pos hP, if_pos (Set.mem_insert_of_mem q hP)]
    · rw [if_neg hP, if_neg fun h => hP (h.resolve_left hq)]

theorem overlay_empty (rw : Bool) (F : Flags) : overlay ∅ rw F = F :=
  funext fun _ => if_neg (Set.notMem_empty _)

theorem overlay_singleton (q : U32int) (rw : Bool) (F : Flags) :
    overlay {q} rw F = Function.update F q (some rw) := by
  rw [← insert_empty_eq q, overlay_insert, overlay_empty]

/-- So far the pages of `F` are mapped, each to itself. With `r` more pages than the
tables of the spans `I` still need. -/
structure BootMapped (s0 : State) (I : Finset U32int) (r : Nat) (F : Flags)
    (s : State) (t : TableMap) (a : Space) : Prop where
  only_data : s = s0.withData s.data
  ready : Ready s t a
  window : a.window = windowIndexOf s0
  free : codeFree s = codeFree s0
  supply : need I a + r ≤ (dataFree s).length
  frame : ∀ y, ¬ Books s0 t y → s.data y = s0.data y
  bindings : ∀ q, a.bindings q = (F q).map fun rw => ⟨q, rw, false⟩
  supervisor : WindowSupervisor s

/-- What every mapping outside the window keeps. -/
def Steady (Q : State → TableMap → Prop) : Prop :=
  ∀ ⦃s s' : State⦄ ⦃t t' : TableMap⦄ ⦃a a' : Space⦄ ⦃segment : Segment⦄ ⦃v p : U32int⦄
    ⦃rw user : Bool⦄,
    Ready s t a → Outside a (v + segment.base) → s.mmap segment v p rw user = .ok (true, s') →
    s' = s.withData s'.data → Ready s' t' a' →
      MapEffect s t (v + segment.base) s' t' → Q s t → Q s' t'

section

variable {s0 s s' : State} {t t' : TableMap} {a : Space} {I : Finset U32int} {r : Nat} {F : Flags}

/-- Mapping leaves the directory entry of the window as it is. -/
theorem WindowSupervisor.mmap {lin : U32int} (h : WindowSupervisor s) (hw : Walks s t)
    (honly : s' = s.withData s'.data) (he : MapEffect s t lin s' t') : WindowSupervisor s' := by
  obtain ⟨w, hwin⟩ := hw.window_some
  have hcell : pdCell s' (windowIndexOf s') = pdCell s (windowIndexOf s) := by rw [honly]; rfl
  have hidx : (windowIndexOf s).toNat < 1024 := tableIndex_lt _
  rw [WindowSupervisor, hcell, entryAt, he.directory _ w hidx hwin]
  exact h

theorem BootMapped.mapPage (h : BootMapped s0 I r F s t a) {segment : Segment}
    {v lin : U32int} (rw : Bool)
    (hlin : v + segment.base = lin) (ho : tableIndex lin ≠ windowIndexOf s0)
    (hI : tableIndex lin ∈ I) : ∃ s' t' a', State.mmapUnchecked segment v v rw false s = .ok s' ∧
      BootMapped s0 I r (overlay {lin / pageSize} rw F) s' t' a' ∧ ∀ Q,
          Steady Q → Q s t → Q s' t' := by
  have hout : Outside a (v + segment.base) := by
    rw [hlin, Outside, h.window]
    exact ho
  have hfree : tableIndex (v + segment.base) ∉ a.covered → dataFree s ≠ [] := by
    intro hcov hnil
    have hsupply := h.supply
    have hpos := need_pos (hlin ▸ hI) hcov
    rw [hnil, List.length_nil] at hsupply
    omega
  have hspares : SparesKernel s (v + segment.base) ((v + segment.base) / pageSize) :=
    fun _ _ _ => rfl
  obtain ⟨s', t', hcall, honly, hready, he⟩ := h.ready.mmap rw false hout hfree hspares
  have hkeep : ∀ Q, Steady Q → Q s t → Q s' t' := fun Q hQ => hQ h.ready hout hcall honly hready he
  rw [hlin] at he hready
  refine ⟨s', t', _, ?_, ⟨?_, hready, h.window, ?_, ?_, fun y hy => ?_, fun q => ?_, ?_⟩, hkeep⟩
  · simp only [State.mmapUnchecked, hcall, ok_bind, pure_ok]
  · rw [honly, h.only_data, State.withData_data, State.withData_withData]
  · exact he.codeFree.trans h.free
  · exact MapEffect.need_le h.ready.holds he hI _ h.supply
  · have hy' : ¬ Books s t' y := by rwa [h.only_data]
    rw [he.frame y hy']
    exact h.frame y fun hb => hy (hb.mono fun i p => he.grows)
  · rw [overlay_singleton]
    by_cases hq : q = lin / pageSize
    · subst hq
      rw [map_bindings_self, Function.update_self, Option.map_some]
    · rw [map_bindings_of_ne a _ hq, Function.update_of_ne hq, h.bindings]
  · exact h.supervisor.mmap h.ready.holds.tables.toWalks honly he

/-- Pages of the `size` bytes at `base`. -/
def pagesOf (base size : U32int) : Set U32int := pagesFrom base ((size.toNat + 4095) / 4096)

theorem pagesOf_zero (base : U32int) : pagesOf base 0 = ∅ := pagesFrom_zero base

/-- `for (index = 0; index < top; index += PAGE_SIZE)` -/
theorem identityLoop_eq (top : U32int) (htop : top.toNat ≤ 2^32 - 4096)
    (body : U32int → State → Except Trap State) (s : State) : s.forLoop (· < top) pageSize 0 body =
      (List.range ((top.toNat + 4095) / 4096)).foldlM
          (fun s k => body (linAt 0 (4096 * k)) s) s := by
  have hzero : (0 : U32int).toNat = 0 := rfl
  exact pageLoop_eq (by omega) (fun k _ => by omega) body s

theorem BootMapped.mapIdentity (h : BootMapped s0 I r F s t a) (segment : Segment) {top : U32int}
    (rw : Bool) (htop : top.toNat ≤ 2^32 - 4096)
    (hpages : ∀ lin, lin / pageSize ∈ pagesOf segment.base top →
      tableIndex lin ≠ windowIndexOf s0 ∧ tableIndex lin ∈ I) :
    ∃ s' t' a', State.mapIdentity segment top rw s = .ok s' ∧
      BootMapped s0 I r (overlay (pagesOf segment.base top) rw F) s' t' a' ∧
        ∀ Q, Steady Q → Q s t → Q s' t' := by
  rw [State.mapIdentity, identityLoop_eq top htop]
  obtain ⟨s', hrun, t', a', hmapped⟩ := Loops.foldlM_range_ok
    (P := fun k s' => ∃ t' a', BootMapped s0 I r (overlay (pagesFrom segment.base k) rw F) s' t'
      a' ∧ ∀ Q, Steady Q → Q s t → Q s' t')
    (fun k hk s' hs' => by
      obtain ⟨t', a', hm, hkeep⟩ := hs'
      obtain ⟨ho, hI⟩ := hpages (linAt segment.base (4096 * k)) ⟨k, hk, rfl⟩
      have hlin : linAt 0 (4096 * k) + segment.base = linAt segment.base (4096 * k) := by
        rw [linAt_base, zero_add]
      obtain ⟨s'', t'', a'', hcall, hnext, hkeep'⟩ := hm.mapPage rw hlin ho hI
      rw [overlay_singleton, ← overlay_insert, ← pagesFrom_succ] at hnext
      exact ⟨s'', hcall, t'', a'', hnext, fun Q hQ hq => hkeep' Q hQ (hkeep Q hQ hq)⟩)
    ⟨t, a, by rwa [pagesFrom_zero, overlay_empty], fun _ _ hq => hq⟩
  exact ⟨s', t', a', hrun, hmapped⟩

end

section

variable (image : KernelImage) (s : State)

def dataPages : Set U32int :=
  pagesOf s.dataBase (s.kernelPageDirectory + directorySize)

def stackPage : U32int :=
  (s.segmentsInfo.dataSegment.len - pageSize + s.dataBase) / pageSize

def kernelCodePages : Set U32int := pagesOf (codeBase s) image.kernelCodeSize

def videoPage : U32int := s.segmentsInfo.videoSegment.base / pageSize

def modulePages : Set U32int :=
  pagesOf s.segmentsInfo.moduleSegment.base s.segmentsInfo.moduleSegment.len

/-- The pages `map_kernel_pages` maps. -/
def bootPages : Set U32int :=
  dataPages s ∪ {stackPage s} ∪ kernelCodePages image s ∪ {videoPage s} ∪ modulePages s

/-- ... in its order. -/
noncomputable def bootFlags : Flags :=
  overlay (modulePages s) true (overlay {videoPage s} true (overlay (kernelCodePages image s) false
    (overlay {stackPage s} true (overlay (dataPages s) true fun _ => none))))

end

theorem bootFlags_none {image : KernelImage} {s : State} {q : U32int} :
    bootFlags image s q = none ↔ q ∉ bootPages image s := by
  simp only [bootFlags, overlay, bootPages, Set.mem_union, Set.mem_singleton_iff]
  split_ifs <;> simp_all

/-- Kernel code is read-only, unless the page is the screen's or the module's too. -/
theorem bootFlags_some {image : KernelImage} {s : State} {q : U32int} (hq : q ∈ bootPages image s) :
    ∃ rw, bootFlags image s q = some rw ∧ (rw = false ↔
      q ∈ kernelCodePages image s ∧ q ≠ videoPage s ∧ q ∉ modulePages s) := by
  simp only [bootPages, Set.mem_union, Set.mem_singleton_iff] at hq
  simp only [bootFlags, overlay, Set.mem_singleton_iff]
  split_ifs <;> simp_all

/-- What the boot code finds: `n` pages handed out, both bitmaps in place, the data segment
below 4 GiB, no boot page in the window, and pages for the tables of the spans `I`,
with `r` more. -/
structure BootLayout (image : KernelImage) (s : State) (n : Nat) (I : Finset U32int) (r : Nat) :
    Prop extends BootReady s n where
  base_aligned : s.dataBase.toNat % 4096 = 0
  data_end : s.dataBase.toNat + 4096 * segmentPages s ≤ 2^32
  video : s.segmentsInfo.videoSegment.base = videoBaseAddr
  code_size : s.memoryBitmap.codeSize.toNat = codePages s
  code_bitmap_end : s.memoryBitmap.codeBitmap.toNat + (codePages s + 7) / 8 ≤
    s.memoryBitmap.dataBitmap.toNat
  outside : ∀ lin, lin / pageSize ∈ bootPages image (bootState s n) →
    tableIndex lin ≠ windowIndexOf (bootState s n)
  spans : ∀ lin, lin / pageSize ∈ bootPages image (bootState s n) → tableIndex lin ∈ I
  enough : need I (Space.opening (windowIndexOf (bootState s n))) + r ≤
    (dataFree (bootState s n)).length

section

variable {s s' : State} {t : TableMap} {a : Space} {image : KernelImage}
  {n r : Nat} {I : Finset U32int}

/-- Otherwise the window would begin at 4 GiB, which is 0, and hold the screen. -/
theorem BootLayout.placeable (h : BootLayout image s n I r) : Placeable s n := by
  refine ⟨h.toBootReady, h.base_aligned, ?_⟩
  by_contra hhigh
  have hroom := h.room
  have hend := h.data_end
  have halign := h.base_aligned
  have htop : (bootDir n + directorySize + s.dataBase).toNat =
      s.dataBase.toNat + 4096 * n + 8192 := by
    rw [BitVec.toNat_add, BitVec.toNat_add, bootDir, pageAt_toNat (s := s) (by omega),
      show directorySize.toNat = 8192 from rfl]
    omega
  have hindex : (bootIndex s n).toNat = 1024 := by
    rw [bootIndex, State.windowIndex_toNat, htop]
    omega
  have hwindow : windowIndexOf (bootState s n) = 0 := by
    have hstart : bootWindow s n + s.dataBase = 0 := by
      rw [bootWindow, sub_add_cancel]
      apply BitVec.eq_of_toNat_eq
      rw [BitVec.toNat_mul, hindex]
      rfl
    change tableIndex (bootWindow s n + s.dataBase) = 0
    rw [hstart]
    rfl
  have hscreen : videoBaseAddr / pageSize ∈ bootPages image (bootState s n) := by
    refine .inl (.inr ?_)
    rw [Set.mem_singleton_iff, videoPage]
    exact congrArg (· / pageSize) h.video.symm
  exact h.outside _ hscreen (hwindow.trans (by decide)).symm

theorem boot_supervisor (h : Placeable s n) : WindowSupervisor (bootState s n) := by
  have hidx : windowIndexOf (bootState s n) = bootIndex s n := windowIndexOf_boot h _
  have hcell : pdCell (bootState s n) (bootIndex s n) = bootDir n + 4 * bootIndex s n := rfl
  have hdata : (bootState s n).data = bootMemory s n := bootWith_data ..
  rw [WindowSupervisor, hidx, hcell, entryAt, hdata, boot_pdCell h (bootIndex_lt h), if_pos rfl,
    bootEntry, PagingEntry.ofWord_toWord]
  rfl

theorem BootLayout.start (h : BootLayout image s n I r) :
    BootMapped (bootState s n) I r (fun _ => none) (bootState s n) (bootTables s n)
      (Space.opening (windowIndexOf (bootState s n))) where
  only_data := (State.withData_self _).symm
  ready := ⟨boot_holds h.placeable, ⟨h.initialized, h.code_size, h.code_bitmap_end⟩, fun hp => by
    have hoff : s.pagingEnabled = true := hp
    rw [h.disabled] at hoff
    cases hoff⟩
  window := rfl
  free := rfl
  supply := h.enough
  frame := fun _ _ => rfl
  bindings := fun _ => rfl
  supervisor := boot_supervisor h.placeable

/-- A module that reached to the last page would fill the window. -/
theorem BootLayout.module_len (h : BootLayout image s n I r) :
    s.segmentsInfo.moduleSegment.len.toNat ≤ 2^32 - 4096 := by
  by_contra hlong
  have hall : ∀ lin, lin / pageSize ∈ pagesOf s.segmentsInfo.moduleSegment.base
      s.segmentsInfo.moduleSegment.len := by
    intro lin
    have hlin := lin.isLt
    have hbase := s.segmentsInfo.moduleSegment.base.isLt
    have hlen := s.segmentsInfo.moduleSegment.len.isLt
    refine ⟨(lin.toNat / 4096 + 2^20 - s.segmentsInfo.moduleSegment.base.toNat / 4096) % 2^20,
      by omega, ?_⟩
    apply BitVec.eq_of_toNat_eq
    rw [page_toNat, page_toNat, linAt, BitVec.toNat_add, BitVec.toNat_ofNat]
    omega
  refine h.outside (windowIndexOf (bootState s n) * tableSpan) (.inr (hall _)) ?_
  apply BitVec.eq_of_toNat_eq
  have hidx := tableIndex_lt ((bootState s n).pageTablesRelVirtAddr + (bootState s n).dataBase)
  change (windowIndexOf (bootState s n)).toNat < 1024 at hidx
  rw [tableIndex_toNat, BitVec.toNat_mul, show tableSpan.toNat = 0x400000 from rfl]
  omega

theorem BootLayout.mapKernelPages (h : BootLayout image s n I r) : ∃ s' t a,
    State.mapKernelPages image (bootState s n) = .ok s' ∧
      BootMapped (bootState s n) I r (bootFlags image (bootState s n)) s' t a ∧
      ∀ Q, Steady Q → Q (bootState s n) (bootTables s n) → Q s' t := by
  have hdir := bootDir_toNat h.placeable
  have hroom := h.room
  have hlen := segmentPages_le s
  have hdirTop : ((bootState s n).kernelPageDirectory + directorySize).toNat ≤ 2^32 - 4096 := by
    change (bootDir n + directorySize).toNat ≤ _
    rw [BitVec.toNat_add, show directorySize.toNat = 8192 from rfl]
    omega
  have hcodeTop : image.kernelCodeSize.toNat ≤ 2^32 - 4096 := by
    have hlt := image.kernelCodeSize.isLt
    have halign := image.code_aligned
    omega
  have hpage := fun lin hlin => And.intro (h.outside lin hlin) (h.spans lin hlin)
  obtain ⟨s1, t1, a1, hdata, h1, k1⟩ := h.start.mapIdentity s.segmentsInfo.dataSegment true hdirTop
    fun lin hlin => hpage lin (.inl (.inl (.inl (.inl hlin))))
  have hstackPage := hpage (s.segmentsInfo.dataSegment.len - pageSize + s.dataBase)
    (.inl (.inl (.inl (.inr rfl))))
  obtain ⟨s2, t2, a2, hstack, h2, k2⟩ := h1.mapPage true
    (rfl : s.segmentsInfo.dataSegment.len - pageSize + s.dataBase = _) hstackPage.1 hstackPage.2
  obtain ⟨s3, t3, a3, hcode, h3, k3⟩ := h2.mapIdentity s.segmentsInfo.codeSegment false hcodeTop
    fun lin hlin => hpage lin (.inl (.inl (.inr hlin)))
  have hvideoPage := hpage s.segmentsInfo.videoSegment.base (.inl (.inr rfl))
  obtain ⟨s4, t4, a4, hvideo, h4, k4⟩ := h3.mapPage true
    (zero_add s.segmentsInfo.videoSegment.base) hvideoPage.1 hvideoPage.2
  obtain ⟨s5, t5, a5, hmodule, h5, k5⟩ :=
    h4.mapIdentity s.segmentsInfo.moduleSegment true h.module_len
    fun lin hlin => hpage lin (.inr hlin)
  refine ⟨s5, t5, a5, ?_, h5, fun Q hQ hq => k5 Q hQ (k4 Q hQ (k3 Q hQ (k2 Q hQ (k1 Q hQ hq))))⟩
  have hlast : (if 0 < s.segmentsInfo.moduleSegment.len then
      State.mapIdentity s.segmentsInfo.moduleSegment s.segmentsInfo.moduleSegment.len true s4
      else .ok s4) = .ok s5 := by
    split_ifs with hm
    · exact hmodule
    · have hzero : s.segmentsInfo.moduleSegment.len = 0 := by bv_omega
      rw [hzero, State.mapIdentity, identityLoop_eq _ (Nat.zero_le _)] at hmodule
      exact hmodule
  rw [State.mapKernelPages]
  refine (bind_of_ok hdata _).trans ?_
  refine (bind_of_ok hstack _).trans ?_
  refine (bind_of_ok hcode _).trans ?_
  refine (bind_of_ok hvideo _).trans ?_
  exact hlast

theorem BootMapped.translation_eq {s0 : State} {F : Flags} (h : BootMapped s0 I r F s t a)
    {lin : U32int} (ho : tableIndex lin ≠ windowIndexOf s0) :
    translation s lin = (F (lin / pageSize)).map fun rw => ⟨lin / pageSize, rw, false⟩ := by
  rw [h.ready.holds.translates lin (by rwa [Outside, h.window]), h.bindings]

end

/-- After the boot mappings every page of kernel data, the stack page, kernel code, the
screen and the module is bound to itself for the supervisor alone. It is read-only if
it is kernel code and neither the screen nor the module, writable if not. No other
page outside the window is present. -/
theorem boot_translation {image : KernelImage} {s : State} {n r : Nat} {I : Finset U32int}
    (h : BootLayout image s n I r) : ∃ s1 s2, s.initPagingTables = .ok s1 ∧
    s1.mapKernelPages image = .ok s2 ∧ ∀ lin, tableIndex lin ≠ windowIndexOf s1 →
      (lin / pageSize ∈ bootPages image s1 →
        ∃ rw, translation s2 lin = some ⟨lin / pageSize, rw, false⟩ ∧
        (rw = false ↔ lin / pageSize ∈ kernelCodePages image s1 ∧ lin / pageSize ≠ videoPage s1 ∧
          lin / pageSize ∉ modulePages s1)) ∧
      (lin / pageSize ∉ bootPages image s1 → translation s2 lin = none) := by
  obtain ⟨s2, t, a, hmap, hmapped, -⟩ := h.mapKernelPages
  refine ⟨_, s2, initPagingTables_eq h.toBootReady, hmap,
    fun lin ho => ⟨fun hin => ?_, fun hout => ?_⟩⟩
  · obtain ⟨rw, hflag, hcode⟩ := bootFlags_some hin
    refine ⟨rw, ?_, hcode⟩
    rw [hmapped.translation_eq ho, hflag, Option.map_some]
  · rw [hmapped.translation_eq ho, bootFlags_none.mpr hout, Option.map_none]

/-- ... and a window within the limit of the data segment. -/
structure Bootable (image : KernelImage) (s : State) (n : Nat) (I : Finset U32int) (r : Nat) : Prop
    extends BootLayout image s n I r where
  window_reachable : WindowReachable (bootState s n)

/-- The machine as it was before the first mapping, but with paging on. -/
def startState (s : State) (n : Nat) : State :=
  State.switchPageDirectory (bootState s n).kernelPageDirectory (bootState s n)

theorem startState_window (s : State) (n : Nat) :
    windowIndexOf (startState s n) = windowIndexOf (bootState s n) := rfl

theorem startState_data (s : State) (n : Nat) : (startState s n).data = bootMemory s n := by
  change (bootState s n).data = _
  exact bootWith_data ..

theorem startState_globals (s : State) (n : Nat) (m : Memory) :
    ((startState s n).withData m).segmentsInfo = s.segmentsInfo ∧
    ((startState s n).withData m).memoryBitmap = s.memoryBitmap ∧
    ((startState s n).withData m).kernelPageDirectory = bootDir n ∧
    ((startState s n).withData m).pageTablesRelVirtAddr = (bootState s n).pageTablesRelVirtAddr :=
  ⟨rfl, rfl, rfl, rfl⟩

/-- The code bitmap lies below everything that is written. -/
theorem startState_code_bit {image : KernelImage} {s : State} {n r k : Nat} {I : Finset U32int}
    (h : BootLayout image s n I r) (hk : k < codePages s) :
    bit (startState s n).data s.memoryBitmap.codeBitmap k =
      bit s.data s.memoryBitmap.codeBitmap k := by
  have hend := h.code_bitmap_end
  have hbyte : (byteAt s.memoryBitmap.codeBitmap k).toNat < s.memoryBitmap.dataBitmap.toNat := by
    rw [byteAt]
    bv_omega
  rw [bit, startState_data, bootMemory_frame h.placeable (.inl hbyte), bit]

/-- With the first five code pages marked the sixth is the first free one. -/
theorem startState_codeFree {s : State} {n : Nat} (h : Placeable s n)
    (hbelow : s.memoryBitmap.codeBitmap.toNat < s.memoryBitmap.dataBitmap.toNat)
    (hpages : 8 ≤ codePages s) (hbyte : s.data s.memoryBitmap.codeBitmap = 0x1F) :
    ∃ rest, codeFree (startState s n) = 5 :: rest ∧ 0 ∉ codeFree (startState s n) := by
  have hbits : ∀ k < 8, bit (startState s n).data s.memoryBitmap.codeBitmap k =
      (0x1F : Byte).getLsbD k := by
    intro k hk
    have haddr : byteAt s.memoryBitmap.codeBitmap k = s.memoryBitmap.codeBitmap := by
      rw [byteAt, Nat.div_eq_of_lt hk]
      exact add_zero _
    rw [bit, haddr, startState_data, bootMemory_frame h (.inl hbelow), hbyte, Nat.mod_eq_of_lt hk]
  have hfree : codeFree (startState s n) =
      PackedBits.freeList (startState s n).data s.memoryBitmap.codeBitmap (codePages s) := rfl
  rw [hfree]
  obtain ⟨rest, hrest⟩ := PackedBits.freeList_cons (k := 5) (n := codePages s) (by omega)
    (by rw [hbits 5 (by decide)]; decide) (fun i hi => by
      rw [hbits i (by omega)]
      have hused : ∀ j < 5, (0x1F : Byte).getLsbD j = true := by decide
      exact hused i hi)
  refine ⟨rest, hrest, fun hmem => ?_⟩
  have hclear := (PackedBits.mem_freeList.mp hmem).2
  rw [hbits 0 (by decide)] at hclear
  exact absurd hclear (by decide)

section

variable {s0 s : State} {t : TableMap} {a : Space} {image : KernelImage} {n r : Nat}
  {I : Finset U32int} {F : Flags}

theorem mem_dataPages (h : Layout s) {q : U32int}
    (hq : q.toNat < s.kernelPageDirectory.toNat + 8192) :
    (q + s.dataBase) / pageSize ∈ dataPages s := by
  have hend := h.dir_end
  have hlen := segmentPages_le s
  have htop : (s.kernelPageDirectory + directorySize).toNat =
      s.kernelPageDirectory.toNat + 8192 := by
    rw [BitVec.toNat_add, show directorySize.toNat = 8192 from rfl]
    omega
  rw [dataPages, pagesOf, mem_pagesFrom h.base_aligned (by omega), add_sub_cancel_right, htop]
  omega

theorem BootMapped.kernelBound (h : BootMapped s0 I r (bootFlags image s0) s t a) :
    KernelBound s a := by
  intro q hq
  have hsame : s.kernelPageDirectory = s0.kernelPageDirectory ∧ s.dataBase = s0.dataBase := by
    rw [h.only_data]
    exact ⟨rfl, rfl⟩
  have hl : Layout s := h.ready.holds.tables.toLayout
  have hin : (q + s.dataBase) / pageSize ∈ bootPages image s0 := by
    have hmem := mem_dataPages hl hq
    rw [dataPages, hsame.1, hsame.2] at hmem
    rw [hsame.2]
    exact .inl (.inl (.inl (.inl hmem)))
  obtain ⟨rw, hflag, -⟩ := bootFlags_some hin
  refine ⟨⟨(q + s.dataBase) / pageSize, rw, false⟩, ?_, rfl⟩
  rw [h.bindings, hflag, Option.map_some]

theorem BootMapped.enablePaging (h : BootMapped s0 I r F s t a) (hk : KernelBound s a)
    (hw : WindowReachable s0) :
    BootMapped (s0.switchPageDirectory s0.kernelPageDirectory) I r F
      (s.switchPageDirectory s.kernelPageDirectory) t a where
  only_data := by
    obtain ⟨m, hm⟩ : ∃ m, s = s0.withData m := ⟨_, h.only_data⟩
    rw [hm]
    change _ = State.withData _ (s0.withData m).data
    rw [State.withData_data]
    rfl
  ready := by
    have hwin : WindowReachable s := by
      rw [h.only_data]
      exact hw
    exact ⟨h.ready.holds.enablePaging, ⟨h.ready.supply.initialized, h.ready.supply.size,
      h.ready.supply.bitmap_end⟩, fun _ => ⟨hk, hwin⟩⟩
  window := h.window
  free := h.free
  supply := h.supply
  frame := h.frame
  bindings := h.bindings
  supervisor := h.supervisor

/-- `init_paging` comes back with paging on and the boot pages mapped. What every mapping
keeps, and turning paging on with it, is as it was. -/
theorem Bootable.initPaging_steady (h : Bootable image s n I r) :
    ∃ s' t a, s.initPaging image = .ok s' ∧ s'.pagingEnabled = true ∧
    BootMapped (startState s n) I r (bootFlags image (bootState s n)) s' t a ∧
    ∀ Q, Steady Q → (∀ s t, Q s t → Q (s.switchPageDirectory s.kernelPageDirectory) t) →
      Q (bootState s n) (bootTables s n) → Q s' t := by
  obtain ⟨s', t, a, hmap, hmapped, hkeep⟩ := h.mapKernelPages
  refine ⟨_, t, a, ?_, rfl, hmapped.enablePaging hmapped.kernelBound h.window_reachable,
    fun Q hQ hswitch hq => hswitch _ _ (hkeep Q hQ hq)⟩
  rw [State.initPaging]
  refine (bind_of_ok (initPagingTables_eq h.toBootReady) _).trans ?_
  exact bind_of_ok hmap _

theorem Bootable.initPaging (h : Bootable image s n I r) : ∃ s' t a, s.initPaging image = .ok s' ∧
    s'.pagingEnabled = true ∧
    BootMapped (startState s n) I r (bootFlags image (bootState s n)) s' t a := by
  obtain ⟨s', t, a, hcall, hon, hmapped, -⟩ := h.initPaging_steady
  exact ⟨s', t, a, hcall, hon, hmapped⟩

end

/-- The header of a module of 0x100 bytes of code and 0x10 of data, as it lies at 0x3FE000. -/
def bootHeader (x : U32int) : Byte :=
  ([0xDEADBEEF, 0x40, 0x100, 0x200, 0x10, 0x400050].getD ((x - 0x3FE000).toNat / 4)
    (0 : U32int)).extractLsb' (8 * ((x - 0x3FE000).toNat % 4)) 8

theorem bootHeader_behind {x : U32int} (h : 24 ≤ (x - 0x3FE000).toNat) : bootHeader x = 0 := by
  have hlong : [0xDEADBEEF, 0x40, 0x100, 0x200, 0x10, (0x400050 : U32int)].length ≤
      (x - 0x3FE000).toNat / 4 := by
    change 6 ≤ _
    omega
  rw [bootHeader, List.getD_eq_getElem?_getD, List.getElem?_eq_none hlong]
  exact BitVec.extractLsb'_zero

/-- 16 MiB of data at 4 MiB, its bitmaps in pages 2 and 3 and six pages handed out, 16 MiB
of code behind, a module of two pages below, and the last byte of the first free
code page as given. -/
def bootMachine (dirty : Byte) : State where
  memory := fun x => if x = 0x402000 then 0x1F else if x = 0x403000 then 0x3F
    else if x = 0x4031FF then 0x80 else if x = 0x1405FFF then dirty else bootHeader x
  pagingEnabled := false
  cr3 := 0
  segmentsInfo := ⟨⟨0x1400000, 0x1000000⟩, ⟨0x400000, 0x1000000⟩,
    ⟨videoBaseAddr, 0xFA0⟩, ⟨0x3FE000, 0x2000⟩⟩
  memoryBitmap := ⟨0x2000, 0x3000, 4096, 4096⟩
  memoryBitmapInitialized := true
  dataTopAddress := 0x4000
  kernelPageDirectory := 0
  pageTablesRelVirtAddr := 0
  heapStartRelVirtAddr := 0
  heapBrk := 0
  heapSize := 0
  moduleInfo := ⟨false, false, false, 0, 0, 0, 0, 0⟩

/-- The spans of the boot pages. -/
def bootSpans : Finset U32int := {0, 1, 4, 5}

theorem bootSpans_ne_window : ∀ i ∈ bootSpans, i ≠ 2 := by
  intro i hi
  simp only [bootSpans, Finset.mem_insert, Finset.mem_singleton] at hi
  rcases hi with rfl | rfl | rfl | rfl <;> decide

/-- A run of pages inside one span. -/
theorem tableIndex_of_mem {base size lin i : U32int} (ha : base.toNat % 4096 = 0)
    (hi : i.toNat < 1024) (hlow : i.toNat * 0x400000 ≤ base.toNat)
    (hhigh : base.toNat + size.toNat ≤ (i.toNat + 1) * 0x400000)
    (hm : lin / pageSize ∈ pagesOf base size) : tableIndex lin = i := by
  rw [pagesOf, mem_pagesFrom ha (by omega)] at hm
  apply BitVec.eq_of_toNat_eq
  rw [tableIndex_toNat]
  rw [BitVec.toNat_sub] at hm
  have hlin := lin.isLt
  omega

theorem tableIndex_of_page {lin q i : U32int} (hq : lin / pageSize = q) (hi : q / 1024 = i) :
    tableIndex lin = i := by
  subst hq hi
  apply BitVec.eq_of_toNat_eq
  rw [tableIndex_toNat, BitVec.toNat_udiv, page_toNat, show (1024 : U32int).toNat = 1024 from rfl]
  omega

section

variable (dirty : Byte)

/-- The bytes of the data bitmap. -/
theorem bootMachine_byte {k : Nat} (hk : k < 4096) : (bootMachine dirty).data (byteAt 0x3000 k) =
    if k / 8 = 0 then 0x3F else if k / 8 = 511 then 0x80 else 0 := by
  have haddr : (byteAt 0x3000 k + 0x400000).toNat = 0x403000 + k / 8 := by
    rw [byteAt, BitVec.toNat_add, BitVec.toNat_add, BitVec.toNat_ofNat,
      show (0x3000 : U32int).toNat = 0x3000 from rfl,
        show (0x400000 : U32int).toNat = 0x400000 from rfl]
    omega
  have hat : ∀ c : U32int, byteAt 0x3000 k + 0x400000 = c ↔
      0x403000 + k / 8 = c.toNat := fun c => by
    rw [← BitVec.toNat_inj, haddr]
  change (bootMachine dirty).memory (byteAt 0x3000 k + 0x400000) = _
  have h0 : (0x402000 : U32int).toNat = 0x402000 := rfl
  have h1 : (0x403000 : U32int).toNat = 0x403000 := rfl
  have h2 : (0x4031FF : U32int).toNat = 0x4031FF := rfl
  have h3 : (0x1405FFF : U32int).toNat = 0x1405FFF := rfl
  have hbehind : bootHeader (byteAt 0x3000 k + 0x400000) = 0 := by
    refine bootHeader_behind ?_
    rw [BitVec.toNat_sub, haddr]
    change 24 ≤ (2^32 - 0x3FE000 + _) % _
    omega
  simp only [bootMachine, hat, h0, h1, h2, h3, hbehind]
  split_ifs <;> first | rfl | omega

theorem bootMachine_free {k : Nat} (hk : 6 ≤ k) (hlast : k < 4095) :
    bit (bootMachine dirty).data 0x3000 k = false := by
  rw [bit, bootMachine_byte dirty (by omega)]
  split_ifs with h0 h1
  · obtain rfl | rfl : k = 6 ∨ k = 7 := by omega
    · rfl
    · rfl
  · have hlow : ∀ j < 7, (0x80 : Byte).getLsbD j = false := by decide
    exact hlow _ (by omega)
  · exact BitVec.getLsbD_zero

theorem bootMachine_apart : Apart (bootMachine dirty) := by
  refine ⟨?_, ?_, ?_, ?_⟩
  · change (0x1400000 : U32int).toNat % 4096 = 0
    decide
  · change (0x1400000 : U32int).toNat + 4096 * ((0x1000000 : U32int).toNat / 4096) ≤ 2^32
    decide
  · change (0x400000 : U32int).toNat + 4096 * ((0x1000000 : U32int).toNat / 4096) ≤ 2^32
    decide
  · change (0x400000 : U32int).toNat + 4096 * ((0x1000000 : U32int).toNat / 4096) ≤
      (0x1400000 : U32int).toNat ∨ _
    exact .inl (by decide)

theorem bootMachine_pages : segmentPages (bootMachine dirty) = 4096 := by
  change (0x1000000 : U32int).toNat / 4096 = 4096
  decide

theorem segmentPages_bootState (s : State) (n : Nat) :
    segmentPages (bootState s n) = segmentPages s := rfl

theorem bootMachine_ready : BootReady (bootMachine dirty) 6 where
  disabled := rfl
  initialized := rfl
  size := by
    rw [bootMachine_pages]
    change (4096 : U32int).toNat = 4096
    decide
  bitmap_end := by
    rw [bootMachine_pages]
    change (0x3000 : U32int).toNat + (4096 + 7) / 8 ≤ 4096 * 6
    decide
  next := by
    refine ⟨fun i hi => ?_, fun i hi hlt => bootMachine_free dirty hi (by omega)⟩
    change bit (bootMachine dirty).data 0x3000 i = true
    rw [bit, bootMachine_byte dirty (by omega), if_pos (by omega), Nat.mod_eq_of_lt (by omega)]
    have hused : ∀ j < 6, (0x3F : Byte).getLsbD j = true := by decide
    exact hused i hi
  room := by
    rw [bootMachine_pages]
    decide

theorem bootMachine_placeable : Placeable (bootMachine dirty) 6 where
  toBootReady := bootMachine_ready dirty
  base_aligned := by
    change (0x400000 : U32int).toNat % 4096 = 0
    decide
  window_below := by
    change (0x400000 : U32int).toNat + 4096 * 6 + 8192 ≤ 0xFFC00000
    decide

theorem bootMachine_window : windowIndexOf (bootState (bootMachine dirty) 6) = 2 := by
  rw [bootState, windowIndexOf_boot (bootMachine_placeable dirty)]
  change State.windowIndex (bootDir 6 + directorySize + 0x400000) = 2
  decide

theorem booted_window : windowIndexOf (startState (bootMachine dirty) 6) = 2 :=
  (startState_window ..).trans (bootMachine_window dirty)

theorem bootMachine_pageTables :
    (bootState (bootMachine dirty) 6).pageTablesRelVirtAddr = 0x400000 := by
  change State.windowIndex (bootDir 6 + directorySize + 0x400000) * tableSpan - 0x400000 = 0x400000
  decide

theorem bootMachine_stack : stackPage (bootState (bootMachine dirty) 6) = 0x13FF := by
  change ((0x1000000 : U32int) - pageSize + 0x400000) / pageSize = 0x13FF
  decide

theorem bootMachine_video : videoPage (bootState (bootMachine dirty) 6) = 0xB8 := by
  change videoBaseAddr / pageSize = 0xB8
  decide

/-- The boot pages lie in four spans, none of them the window. -/
theorem bootMachine_spans {lin : U32int}
    (hlin : lin / pageSize ∈ bootPages linkedImage (bootState (bootMachine dirty) 6)) :
    tableIndex lin ∈ bootSpans ∧ tableIndex lin ≠ 2 := by
  suffices hmem : tableIndex lin ∈ bootSpans from ⟨hmem, bootSpans_ne_window _ hmem⟩
  rcases hlin with (((hdata | hstack) | hcode) | hvideo) | hmodule
  · change lin / pageSize ∈ pagesOf 0x400000 (bootDir 6 + directorySize) at hdata
    rw [tableIndex_of_mem (i := 1) (by decide) (by decide) (by decide) (by decide) hdata]
    decide
  · rw [Set.mem_singleton_iff, bootMachine_stack] at hstack
    rw [tableIndex_of_page (i := 4) hstack (by decide)]
    decide
  · change lin / pageSize ∈ pagesOf 0x1400000 0x5000 at hcode
    rw [tableIndex_of_mem (i := 5) (by decide) (by decide) (by decide) (by decide) hcode]
    decide
  · rw [Set.mem_singleton_iff, bootMachine_video] at hvideo
    rw [tableIndex_of_page (i := 0) hvideo (by decide)]
    decide
  · change lin / pageSize ∈ pagesOf 0x3FE000 0x2000 at hmodule
    rw [tableIndex_of_mem (i := 0) (by decide) (by decide) (by decide) (by decide) hmodule]
    decide

theorem bootMachine_layout {r : Nat} (hr : r ≤ 4000) :
    BootLayout linkedImage (bootMachine dirty) 6 bootSpans r where
  toBootReady := bootMachine_ready dirty
  base_aligned := (bootMachine_placeable dirty).base_aligned
  data_end := by
    rw [bootMachine_pages]
    change (0x400000 : U32int).toNat + 4096 * 4096 ≤ 2^32
    decide
  video := rfl
  code_size := by
    change (4096 : U32int).toNat = (0x1000000 : U32int).toNat / 4096
    decide
  code_bitmap_end := by
    change (0x2000 : U32int).toNat + ((0x1000000 : U32int).toNat / 4096 + 7) / 8 ≤
      (0x3000 : U32int).toNat
    decide
  outside := fun _ hlin => by
    rw [bootMachine_window]
    exact (bootMachine_spans dirty hlin).2
  spans := fun _ hlin => (bootMachine_spans dirty hlin).1
  enough := by
    have hneed : need bootSpans (Space.opening (windowIndexOf (bootState (bootMachine dirty) 6))) =
        4 := by
      rw [bootMachine_window]
      decide
    have hfree : 4086 ≤ (dataFree (bootState (bootMachine dirty) 6)).length := by
      have hpages := (segmentPages_bootState (bootMachine dirty) 6).trans (bootMachine_pages dirty)
      have hplace := bootMachine_placeable dirty
      rw [dataFree, hpages]
      refine PackedBits.le_length_freeList (k := 9) (by decide) fun i hi hlt => ?_
      rw [bootState, bootAt, bootWith_data]
      refine (boot_bits_above hplace hi ?_).trans (bootMachine_free dirty (by omega) (by omega))
      rw [bootMachine_pages]
      omega
    omega

theorem bootMachine_bootable {r : Nat} (hr : r ≤ 4000) :
    Bootable linkedImage (bootMachine dirty) 6 bootSpans r where
  toBootLayout := bootMachine_layout dirty hr
  window_reachable := by
    rw [WindowReachable, bootMachine_pageTables]
    change (0x400000 : U32int).toNat + 0x400000 ≤ (⟨0x400000, 0x1000000⟩ : Segment).limit.toNat + 1
    decide

end

section

variable {dirty : Byte} {s : State} {t : TableMap} {a : Space} {r : Nat}
  (h : BootMapped (startState (bootMachine dirty) 6) bootSpans r
    (bootFlags linkedImage (bootState (bootMachine dirty) 6)) s t a)

include h

theorem booted_globals : s.segmentsInfo = (bootMachine dirty).segmentsInfo ∧
    s.kernelPageDirectory = bootDir 6 ∧ s.memoryBitmap = (bootMachine dirty).memoryBitmap := by
  obtain ⟨hinfo, hbitmap, hdir, -⟩ := startState_globals (bootMachine dirty) 6 s.data
  rw [h.only_data]
  exact ⟨hinfo, hdir, hbitmap⟩

theorem booted_apart : Apart s := (bootMachine_apart dirty).congr (booted_globals h).1

end

/-- The first code page is mapped read-only. -/
theorem boot_translation_machine : ∃ s1 s2, (bootMachine 0).initPagingTables = .ok s1 ∧
    s1.mapKernelPages linkedImage = .ok s2 ∧
    translation s2 0x1400000 = some ⟨0x1400, false, false⟩ := by
  obtain ⟨s1, s2, hinit, hmap, hall⟩ := boot_translation (bootMachine_layout 0 (r := 0) (by decide))
  obtain rfl : bootState (bootMachine 0) 6 = s1 :=
    Except.ok.inj ((initPagingTables_eq (bootMachine_ready 0)).symm.trans hinit)
  have hcode : (0x1400000 : U32int) / pageSize ∈ kernelCodePages linkedImage
      (bootState (bootMachine 0) 6) :=
    ⟨0, by decide, rfl⟩
  have hvideo : (0x1400000 : U32int) / pageSize ≠ videoPage (bootState (bootMachine 0) 6) := by
    rw [bootMachine_video]
    decide
  have hmodule : (0x1400000 : U32int) / pageSize ∉ modulePages (bootState (bootMachine 0) 6) := by
    change (0x1400000 : U32int) / pageSize ∉ pagesOf 0x3FE000 0x2000
    rw [pagesOf, mem_pagesFrom (by decide) (by decide)]
    decide
  have hout : tableIndex 0x1400000 ≠ windowIndexOf (bootState (bootMachine 0) 6) := by
    rw [bootMachine_window]
    decide
  obtain ⟨rw, htr, hro⟩ := (hall 0x1400000 hout).1 (.inl (.inl (.inr hcode)))
  obtain rfl := hro.mpr ⟨hcode, hvideo, hmodule⟩
  exact ⟨_, s2, hinit, hmap, htr⟩

end SimpleOs.Audit.KernelBoot
