import SimpleOs.Audit.KernelBoot
import SimpleOs.Audit.ModuleLoad

/-!
# What the loader leaves in the module's pages

The pages of a loaded module next to its image, byte by byte. The cleaning loop of the
code pages ends three bytes early.
-/

namespace SimpleOs.Audit.ModuleFill

open SimpleOs.Kernel SimpleOs.Lib SimpleOs.Lib.ByteMemory SimpleOs.Audit.PageTables
open SimpleOs.Audit.KernelAccess SimpleOs.Audit.PagingBoot SimpleOs.Audit.AddressSpace
open SimpleOs.Audit.PageSupply SimpleOs.Audit.Bookkeeping SimpleOs.Audit.LinearView
open SimpleOs.Audit.PageRuns SimpleOs.Audit.KernelBoot SimpleOs.Audit.ModuleLoad
open SimpleOs.Lib.PackedBits (bit byteAt)

section

variable {s s' : State} {t t' : TableMap} {a a' : Space} {L L' : Memory} {h : ModuleHeader}

/-- A byte of code, read as the loader wrote it. -/
def codeLoad8 (s : State) (rel : U32int) : Except Trap U8int := do
  let x ← s.segAddr s.segmentsInfo.codeSegment rel
  return s.memory x

/-- In `s'` the pages of the module hold the two ranges of the image of `s`, and zeros
behind them. -/
structure Filled (s s' : State) (h : ModuleHeader) : Prop where
  code : ∀ k < h.codeSize.toNat, ∃ b, s.moduleLoad8 (linAt h.codeOffset k) = .ok b ∧
    codeLoad8 s' (linAt moduleCodeLoadAddr k) = .ok b
  code_rest : ∀ k < 4096 * codeCount h, h.codeSize.toNat ≤ k →
    codeLoad8 s' (linAt moduleCodeLoadAddr k) = .ok 0
  data : ∀ k < h.dataSize.toNat, ∃ b, s.moduleLoad8 (linAt h.dataOffset k) = .ok b ∧
    s'.load8 (linAt moduleDataLoadAddr k) = .ok b
  data_rest : ∀ k < 4096 * dataCount h, h.dataSize.toNat ≤ k →
    s'.load8 (linAt moduleDataLoadAddr k) = .ok 0

/-- The rest of the last code page among its last three bytes, which the cleaning loop
leaves out, is zero in the frame the page gets. -/
def CleanTail (s : State) (h : ModuleHeader) : Prop :=
  ∀ k < 4096 * codeCount h, 4096 * codeCount h - 3 ≤ k → h.codeSize.toNat ≤ k →
    s.memory (inFrame (codeFrame s (codeCount h - 1)) (linAt (codeStart s) k)) = 0

section

variable {V' : Set U32int} {k : Nat}

theorem code_read (hl : Loadable s t a L h) (honly : s' = s.withData s'.data)
    (hv : View s' t' a' V' L')
    (hpages : pagesFrom (codeStart s) (codeCount h) ⊆ V') (hk : k < 4096 * codeCount h) :
    codeLoad8 s' (linAt moduleCodeLoadAddr k) = .ok (L' (linAt (codeStart s) k)) := by
  obtain ⟨hpos, hfit⟩ := hl.codeCount_le
  have hinfo : s'.segmentsInfo = s.segmentsInfo := by rw [honly]; rfl
  have hin : linAt (codeStart s) k / pageSize ∈ V' :=
    hpages (linAt_mem (codeStart_aligned hl.view.apart) (by omega) hk)
  rw [codeLoad8, hinfo]
  have hload := hv.load (code_limit hl.accepted hk) (by rw [linAt_base]; exact hin)
  rw [linAt_base] at hload
  exact hload

theorem data_read (hl : Loadable s t a L h) (honly : s' = s.withData s'.data)
    (hv : View s' t' a' V' L')
    (hpages : pagesFrom (dataStart s) (dataCount h) ⊆ V') (hk : k < 4096 * dataCount h) :
    s'.load8 (linAt moduleDataLoadAddr k) = .ok (L' (linAt (dataStart s) k)) := by
  have hfit := hl.dataCount_le
  have hinfo : s'.segmentsInfo = s.segmentsInfo := by rw [honly]; rfl
  have hin : linAt (dataStart s) k / pageSize ∈ V' :=
    hpages (linAt_mem (dataStart_aligned hl.view) (by omega) hk)
  rw [State.load8, State.dataAddr, hinfo]
  have hload := hv.load (data_limit hl.accepted hk) (by rw [linAt_base]; exact hin)
  rw [linAt_base] at hload
  exact hload

theorem source_read (hl : Loadable s t a L h) {offset : U32int}
    (hk : offset.toNat + k < s.segmentsInfo.moduleSegment.len.toNat) :
    s.moduleLoad8 (linAt offset k) = .ok (imageByte s L offset k) := by
  have hload := image_load hl.view rfl (Set.Subset.refl _) hk
  rwa [BitVec.ofNat_add, BitVec.ofNat_toNat, BitVec.setWidth_eq] at hload

end

/-- The loader comes back, and the module's pages are filled exactly if the bytes the
cleaning loop leaves out were zero before. -/
theorem filled_iff_cleanTail (hl : Loadable s t a L h) : ∃ s',
    s.loadModuleCodeAndData h.codeOffset h.codeSize h.dataOffset h.dataSize = .ok s' ∧
      (Filled s s' h ↔ CleanTail s h) := by
  obtain ⟨s', t', a', L', hcall, honly, hview, -, hcode, hdata⟩ := loadModule hl
  have hcsize := codeSize_le h
  have hdsize := dataSize_le h
  have hcsource := hl.code_source
  have hdsource := hl.data_source
  have hcread : ∀ k < 4096 * codeCount h, codeLoad8 s' (linAt moduleCodeLoadAddr k) =
      .ok (L' (linAt (codeStart s) k)) := fun k hk =>
    code_read hl honly hview (fun q hq => .inr (.inr (.inl hq))) hk
  have hdread : ∀ k < 4096 * dataCount h, s'.load8 (linAt moduleDataLoadAddr k) =
      .ok (L' (linAt (dataStart s) k)) := fun k hk =>
    data_read hl honly hview (fun q hq => .inr (.inl hq)) hk
  refine ⟨s', hcall, fun hfilled k hk hclean hrest => ?_, fun htail => ⟨?_, ?_, ?_, ?_⟩⟩
  · have hzero := hfilled.code_rest k hk hrest
    rw [hcread k hk, hcode k hk, if_neg (by omega), if_neg (by omega)] at hzero
    exact Except.ok.inj hzero
  · intro k hk
    refine ⟨_, source_read hl (by omega), ?_⟩
    rw [hcread k (by omega), hcode k (by omega), if_pos hk]
  · intro k hk hrest
    rw [hcread k hk, hcode k hk, if_neg (by omega)]
    split_ifs with hclean
    · rfl
    · rw [htail k hk (by omega) hrest]
  · intro k hk
    refine ⟨_, source_read hl (by omega), ?_⟩
    rw [hdread k (by omega), hdata k (by omega), if_pos hk]
  · intro k hk hrest
    rw [hdread k hk, hdata k hk, if_neg (by omega)]

end

section

variable {s0 s : State} {t : TableMap} {a : Space} {I : Finset U32int} {r : Nat} {F : Flags}
  {f : U32int} {V : Set U32int}

theorem page_eq_frameOf {base q : U32int} (ha : base.toNat % 4096 = 0) :
    (q + base) / pageSize = frameOf base (q.toNat / 4096) := by
  have hq := q.isLt
  apply BitVec.eq_of_toNat_eq
  rw [frameOf, page_toNat, page_toNat, BitVec.toNat_add, BitVec.toNat_add,
    pageAt, BitVec.toNat_ofNat]
  omega

/-- A frame of neither segment is nothing the kernel manages. -/
theorem private_of_outside (h : Ready s t a)
    (hdata : ∀ k < segmentPages s, f ≠ frameOf s.dataBase k)
    (hcode : ∀ k < codePages s, f ≠ frameOf (codeBase s) k) : Private s t f where
  table := fun i p hp => by
    have hin := (h.holds.tables.page i p hp).inside
    rw [page_eq_frameOf h.holds.tables.base_aligned]
    exact hdata _ (by omega)
  data := fun k hk => hdata k (PackedBits.mem_freeList.mp hk).1
  code := fun k hk => hcode k (PackedBits.mem_freeList.mp hk).1
  kernel := fun q hq => by
    have hend := h.holds.tables.dir_end
    rw [page_eq_frameOf h.holds.tables.base_aligned]
    exact hdata _ (by omega)

theorem BootMapped.frame_eq (h : BootMapped s0 I r F s t a) {q : U32int} {b : Binding}
    (hb : a.bindings q = some b) : b.frame = q := by
  rw [h.bindings] at hb
  obtain ⟨rw, -, rfl⟩ := Option.map_eq_some_iff.mp hb
  rfl

/-- Pages bound to themselves show memory as it is. -/
theorem identityView (h : BootMapped s0 I r F s t a) (hon : s.pagingEnabled = true)
    (hapart : Apart s) (hout : ∀ lin, lin / pageSize ∈ V → tableIndex lin ≠ windowIndexOf s0)
    (hbound : ∀ q ∈ V, F q ≠ none)
    (hdata : ∀ q ∈ V, ∀ k < segmentPages s, q ≠ frameOf s.dataBase k)
    (hcode : ∀ q ∈ V, ∀ k < codePages s, q ≠ frameOf (codeBase s) k) :
    View s t a V s.memory where
  ready := h.ready
  apart := hapart
  on := hon
  outside := fun lin hlin => by
    rw [Outside, h.window]
    exact hout lin hlin
  bound := fun q hq => by
    obtain ⟨rw, hrw⟩ := Option.ne_none_iff_exists'.mp (hbound q hq)
    refine ⟨⟨q, rw, false⟩, ?_, private_of_outside h.ready (hdata q hq) (hcode q hq)⟩
    rw [h.bindings, hrw, Option.map_some]
  own := fun q _ q' _ b b' hb hb' hf => by
    rwa [BootMapped.frame_eq h hb, BootMapped.frame_eq h hb'] at hf
  bytes := fun lin _ b hb => by
    rw [BootMapped.frame_eq h hb, inFrame_self]

end

def sampleHeader : ModuleHeader := ⟨magic, 0x40, 0x100, 0x200, 0x10, 0x400050⟩

theorem sample_codeCount : codeCount sampleHeader = 1 := by
  change (pageCountOf 0x100).toNat = 1
  decide

section

variable {dirty : Byte} {s : State} {t : TableMap} {a : Space} {r : Nat}
  (h : BootMapped (startState (bootMachine dirty) 6) bootSpans r
    (bootFlags linkedImage (bootState (bootMachine dirty) 6)) s t a)

include h

/-- The image is in the frames 0x3FE and 0x3FF. -/
theorem booted_image {q : U32int} (hq : q ∈ imagePages s) : q.toNat = 0x3FE ∨ q.toNat = 0x3FF := by
  obtain ⟨k, hk, rfl⟩ := hq
  obtain ⟨hinfo, -⟩ := booted_globals h
  rw [hinfo] at hk
  change k < (0x2000 : U32int).toNat at hk
  have hstart : imageStart s = 0x3FE000 := by
    rw [imageStart, hinfo]
    rfl
  rw [hstart, linAt, page_toNat, BitVec.toNat_add, BitVec.toNat_ofNat]
  have hbase : (0x3FE000 : U32int).toNat = 0x3FE000 := rfl
  have hlen : (0x2000 : U32int).toNat = 0x2000 := rfl
  omega

/-- Behind kernel data and outside the window nothing is in use. -/
theorem booted_vacant {lin : U32int} (hlow : 0x408000 ≤ lin.toNat) (hidx : tableIndex lin ≠ 2) :
    Vacant s a lin where
  outside := by
    rw [Outside, h.window, booted_window]
    exact hidx
  kernel := fun q hq he => by
    obtain ⟨hinfo, hdir, -⟩ := booted_globals h
    have hbase : s.dataBase = 0x400000 := by
      rw [State.dataBase, hinfo]
      rfl
    have hdir' : (bootDir 6).toNat = 0x6000 := by decide
    rw [hdir, hdir'] at hq
    have hn := congrArg BitVec.toNat he
    rw [hbase, page_toNat, page_toNat, BitVec.toNat_add,
      show (0x400000 : U32int).toNat = 0x400000 from rfl] at hn
    omega
  image := fun hin => by
    have hq := booted_image h hin
    rw [page_toNat] at hq
    omega

/-- Page 5 is the first free page of code. -/
theorem booted_codeFree : ∃ rest, codeFree s = 5 :: rest ∧ 0 ∉ codeFree s := by
  rw [h.free]
  have hbyte : (bootMachine dirty).data 0x2000 = 0x1F := rfl
  refine startState_codeFree (bootMachine_placeable dirty) ?_ ?_ hbyte
  · change (0x2000 : U32int).toNat < (0x3000 : U32int).toNat
    decide
  · change 8 ≤ (0x1000000 : U32int).toNat / 4096
    decide

/-- Outside the data segment memory is as the machine had it. -/
theorem booted_outside {x : U32int} (hx : 0x1000000 ≤ (x - 0x400000).toNat) :
    s.memory x = (bootMachine dirty).memory x := by
  have hbase : s.dataBase = 0x400000 := by
    rw [State.dataBase, (booted_globals h).1]
    rfl
  have hbase' : (bootMachine dirty).dataBase = 0x400000 := rfl
  have hnot : ¬ Books (startState (bootMachine dirty) 6) t (x - 0x400000) := by
    intro hbooks
    have hb : Books s t (x - 0x400000) := by
      rw [h.only_data]
      exact books_withData.mpr hbooks
    have hlt := hb.lt h.ready.holds.tables.toWalks
    have hpages : segmentPages s = 4096 := by
      rw [segmentPages, (booted_globals h).1]
      change (0x1000000 : U32int).toNat / 4096 = 4096
      decide
    omega
  have hdata := h.frame _ hnot
  rwa [startState_data, bootMemory_frame (bootMachine_placeable dirty) (.inr (by omega)),
    State.data, State.data, fromBase, fromBase, hbase, hbase', sub_add_cancel] at hdata

/-- The first free page of code is as it was. -/
theorem booted_page {x : U32int} (hlow : 0x1405000 ≤ x.toNat) (hhigh : x.toNat < 0x1406000) :
    s.memory x = if x = 0x1405FFF then dirty else 0 := by
  rw [booted_outside h (by bv_omega)]
  have hne : ∀ c : U32int, c.toNat < 0x1405000 → x ≠ c := by
    rintro c hc rfl
    omega
  have hbehind : bootHeader x = 0 := bootHeader_behind (by bv_omega)
  simp only [bootMachine, hne 0x402000 (by decide), hne 0x403000 (by decide),
    hne 0x4031FF (by decide), if_false, hbehind]

theorem booted_view (hon : s.pagingEnabled = true) : View s t a (imagePages s) s.memory := by
  obtain ⟨hinfo, -⟩ := booted_globals h
  have hapart := booted_apart h
  have hdata : s.dataBase.toNat = 0x400000 := by
    rw [State.dataBase, hinfo]
    rfl
  have hcode : (codeBase s).toNat = 0x1400000 := by
    rw [codeBase, hinfo]
    rfl
  refine identityView h hon hapart (fun lin hlin => ?_) (fun q hq => ?_) (fun q hq k hk he => ?_)
    (fun q hq k hk he => ?_)
  · have hq := booted_image h hlin
    rw [page_toNat] at hq
    rw [booted_window]
    intro hidx
    have hn := congrArg BitVec.toNat hidx
    rw [tableIndex_toNat, show (2 : U32int).toNat = 2 from rfl] at hn
    omega
  · obtain ⟨k, hk, rfl⟩ := hq
    rw [hinfo] at hk
    refine fun hnone => bootFlags_none.mp hnone (.inr ?_)
    change _ ∈ pagesOf 0x3FE000 0x2000
    have hstart : imageStart s = 0x3FE000 := by
      rw [imageStart, hinfo]
      rfl
    have hlen : k < (0x2000 : U32int).toNat := hk
    rw [hstart]
    exact linAt_mem (by decide) (by decide) (by
      rw [show (0x2000 : U32int).toNat = 0x2000 from rfl] at hlen ⊢
      omega)
  · have hq' := booted_image h hq
    have hn := congrArg BitVec.toNat he
    rw [dataFrame_toNat h.ready.holds.tables.toLayout hapart hk, hdata] at hn
    omega
  · have hq' := booted_image h hq
    have hn := congrArg BitVec.toNat he
    rw [codeFrame_toNat hapart hk, hcode] at hn
    omega

theorem booted_starts : codeStart s = 0x1800000 ∧ dataStart s = 0x1000000 ∧
    stackLin s = 0x13FE000 := by
  obtain ⟨hinfo, -⟩ := booted_globals h
  refine ⟨?_, ?_, ?_⟩
  · rw [codeStart, codeBase, hinfo]
    change moduleCodeLoadAddr + 0x1400000 = 0x1800000
    decide
  · rw [dataStart, State.dataBase, hinfo]
    change moduleDataLoadAddr + 0x400000 = 0x1000000
    decide
  · rw [stackLin, State.dataBase, hinfo]
    change (0x1000000 : U32int) - pageSize * 2 + 0x400000 = 0x13FE000
    decide

/-- One page of code, one of data and the stack page are free to use. -/
theorem booted_vacant_pages : NoCollision s a 1 1 := by
  obtain ⟨hcode, hdata, hstack⟩ := booted_starts h
  have hfirst : ∀ (start : U32int) (k : Nat), k < 1 → linAt start (4096 * k) = start := by
    intro start k hk
    rw [Nat.lt_one_iff.mp hk, Nat.mul_zero, linAt_zero]
  refine ⟨fun k hk => ?_, fun k hk => ?_, ?_, ?_, ?_⟩
  · rw [hfirst _ k hk, hcode]
    exact booted_vacant h (by decide) (by decide)
  · rw [hfirst _ k hk, hdata]
    exact booted_vacant h (by decide) (by decide)
  · rw [hstack]
    exact booted_vacant h (by decide) (by decide)
  · rw [pagesFrom_one, pagesFrom_one, hcode, hdata, Set.disjoint_singleton]
    decide
  · rw [pagesFrom_one, pagesFrom_one, hcode, hdata, hstack, Set.mem_union,
      Set.mem_singleton_iff, Set.mem_singleton_iff]
    decide

theorem booted_enough (hr : 5 ≤ r) : Enough s a 1 1 := by
  obtain ⟨rest, hcons, hnull⟩ := booted_codeFree h
  refine ⟨?_, hnull, ?_⟩
  · rw [hcons, List.length_cons]
    omega
  · have hsupply := h.supply
    have hcard : (spans s 1 1).card ≤ 3 := by
      refine (Finset.card_union_le _ _).trans ?_
      refine (Nat.add_le_add Finset.card_image_le (Finset.card_union_le _ _)).trans ?_
      refine (Nat.add_le_add_left (Nat.add_le_add_right Finset.card_image_le _) _).trans ?_
      rw [Finset.card_range, Finset.card_singleton]
    have hneed : need (spans s 1 1) a ≤ (spans s 1 1).card :=
      Finset.card_le_card Finset.sdiff_subset
    omega

theorem booted_loadable (hon : s.pagingEnabled = true) (hr : 5 ≤ r) :
    Loadable s t a s.memory sampleHeader where
  view := booted_view h hon
  accepted := by
    rw [(booted_globals h).1, ← ModuleHeader.fits_iff]
    change sampleHeader.fits ⟨⟨0x1400000, 0x1000000⟩, ⟨0x400000, 0x1000000⟩, ⟨videoBaseAddr, 0xFA0⟩,
      ⟨0x3FE000, 0x2000⟩⟩ = true
    decide
  code_source := by
    rw [(booted_globals h).1]
    change (0x40 : U32int).toNat + (0x100 : U32int).toNat ≤ (0x2000 : U32int).toNat
    decide
  data_source := by
    rw [(booted_globals h).1]
    change (0x200 : U32int).toNat + (0x10 : U32int).toNat ≤ (0x2000 : U32int).toNat
    decide
  vacant := booted_vacant_pages h
  enough := booted_enough h hr

/-- What the frame of the code page held before. -/
theorem booted_prior {k : Nat} (hk : k < 4096) :
    s.memory (inFrame (codeFrame s (codeCount sampleHeader - 1)) (linAt (codeStart s) k)) =
      if k = 4095 then dirty else 0 := by
  obtain ⟨rest, hcons, -⟩ := booted_codeFree h
  have hframe : codeFrame s (codeCount sampleHeader - 1) = 0x1405 := by
    rw [sample_codeCount, codeFrame, hcons, codeBase, (booted_globals h).1]
    change frameOf 0x1400000 5 = 0x1405
    decide
  have hx : (inFrame 0x1405 (linAt 0x1800000 k)).toNat = 0x1405000 + k := by
    rw [inFrame, linAt, BitVec.toNat_add, BitVec.toNat_mul, BitVec.toNat_umod, BitVec.toNat_add,
      BitVec.toNat_ofNat, show (0x1405 : U32int).toNat = 0x1405 from rfl,
      show (0x1800000 : U32int).toNat = 0x1800000 from rfl, show pageSize.toNat = 4096 from rfl]
    omega
  rw [hframe, (booted_starts h).1, booted_page h (by omega) (by omega)]
  refine if_congr ?_ rfl rfl
  rw [← BitVec.toNat_inj, hx, show (0x1405FFF : U32int).toNat = 0x1405FFF from rfl]
  omega

/-- The last byte of the page is one the cleaning loop leaves out. -/
theorem booted_cleanTail : CleanTail s sampleHeader ↔ dirty = 0 := by
  have hcount := sample_codeCount
  refine ⟨fun htail => ?_, fun hclean k hk hlow hsize => ?_⟩
  · have hlast := htail 4095 (by omega) (by omega) (by decide)
    rwa [booted_prior h (by decide), if_pos rfl] at hlast
  · rw [booted_prior h (by omega), hclean, ite_self]

end

/-- With a clean frame the sample module is filled. -/
theorem filled_cleanFrame : ∃ s s', (bootMachine 0).initPaging linkedImage = .ok s ∧
    s.loadModuleCodeAndData 0x40 0x100 0x200 0x10 = .ok s' ∧ Filled s s' sampleHeader := by
  obtain ⟨s, t, a, hinit, hon, h⟩ := (bootMachine_bootable 0 (r := 5) (by decide)).initPaging
  obtain ⟨s', hload, hiff⟩ := filled_iff_cleanTail (booted_loadable h hon le_rfl)
  exact ⟨s, s', hinit, hload, hiff.mpr ((booted_cleanTail h).mpr rfl)⟩

/-- A byte 0xAA at the end of the frame is still there after the module is loaded. -/
theorem dirtyFrame_not_filled : ∃ s t a s', (bootMachine 0xAA).initPaging linkedImage = .ok s ∧
    Loadable s t a s.memory sampleHeader ∧
    s.loadModuleCodeAndData 0x40 0x100 0x200 0x10 = .ok s' ∧
    codeLoad8 s' 0x400FFF = .ok 0xAA ∧ ¬ Filled s s' sampleHeader := by
  obtain ⟨s, t, a, hinit, hon, h⟩ := (bootMachine_bootable 0xAA (r := 5) (by decide)).initPaging
  have hl := booted_loadable h hon le_rfl
  obtain ⟨s', t', a', L', hload, honly, hview, -, hcode, -⟩ := loadModule hl
  have hk : 4095 < 4096 * codeCount sampleHeader := by
    rw [sample_codeCount]
    decide
  have hread : codeLoad8 s' (linAt moduleCodeLoadAddr 4095) = .ok 0xAA := by
    rw [code_read hl honly hview (fun q hq => .inr (.inr (.inl hq))) hk, hcode 4095 hk,
      if_neg (by decide), if_neg (by rw [sample_codeCount]; decide),
        booted_prior h (by decide), if_pos rfl]
  refine ⟨s, t, a, s', hinit, hl, hload, hread, fun hfilled => ?_⟩
  have hzero := hfilled.code_rest 4095 hk (by decide)
  exact absurd (Except.ok.inj (hread.symm.trans hzero)) (by decide)

end SimpleOs.Audit.ModuleFill
