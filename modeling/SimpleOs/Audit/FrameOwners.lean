import SimpleOs.Audit.KernelStart

/-!
# Who owns a frame

The bitmaps hand a page out once, and the boot pages are marked in them or lie elsewhere.
In every run a frame then has one owner: one page outside the window or one page table.
-/

namespace SimpleOs.Audit.FrameOwners

open SimpleOs.Kernel SimpleOs.Lib SimpleOs.Lib.ByteMemory SimpleOs.Audit.PageTables
open SimpleOs.Audit.MapCalls SimpleOs.Audit.PagingBoot SimpleOs.Audit.AddressSpace
open SimpleOs.Audit.PageSupply SimpleOs.Audit.Bookkeeping SimpleOs.Audit.LinearView
open SimpleOs.Audit.PageRuns SimpleOs.Audit.KernelBoot SimpleOs.Audit.HeapGrowth
open SimpleOs.Audit.PageCalls SimpleOs.Audit.KernelStart
open SimpleOs.Audit.ModuleHeader (linkedHeader)
open SimpleOs.Audit.BootRanges (pagingStart segmentsOf)
open SimpleOs.Audit.BitmapBoot (onesMachine)
open SimpleOs.Lib.PackedBits (bit)

/-- Different pages outside the window have different frames, and none of them holds a
page table. -/
structure OwnFrames (s : State) : Prop where
  pages : ∀ lin lin' e e', tableIndex lin ≠ windowIndexOf s → tableIndex lin' ≠ windowIndexOf s →
    walk s.memory s.cr3 lin = some e → walk s.memory s.cr3 lin' = some e' → e.frame = e'.frame →
    lin / pageSize = lin' / pageSize
  tables : ∀ lin e i, tableIndex lin ≠ windowIndexOf s →
    walk s.memory s.cr3 lin = some e → i.toNat < 1024 →
    (entryAt s.data (pdCell s i)).present = true → e.frame ≠ (entryAt s.data (pdCell s i)).frame

/-- Each bound page has a frame of its own, neither free nor a table. -/
structure Owned (s : State) (t : TableMap) (a : Space) : Prop where
  taken : ∀ q b, a.bindings q = some b → Taken s t b.frame
  own : ∀ q q' b b', a.bindings q = some b → a.bindings q' = some b' → b.frame = b'.frame → q = q'

section

variable {s s1 s' : State} {t t' : TableMap} {a a' : Space} {c : PageCall} {p : U32int}

theorem entry_frame_inj {e e' : PagingEntry} (h : e.frame = e'.frame) :
    e.address.setWidth 32 = e'.address.setWidth 32 := by
  have he := e.address.isLt
  have he' := e'.address.isLt
  have hn := congrArg BitVec.toNat h
  rw [PagingEntry.frame, PagingEntry.frame, BitVec.toNat_mul, BitVec.toNat_mul,
    BitVec.toNat_setWidth, BitVec.toNat_setWidth, show pageSize.toNat = 4096 from rfl] at hn
  apply BitVec.eq_of_toNat_eq
  rw [BitVec.toNat_setWidth, BitVec.toNat_setWidth]
  omega

theorem bound_of_walk (h : Holds s t a) (hon : s.pagingEnabled = true)
    {lin : U32int} {e : PagingEntry}
    (ho : tableIndex lin ≠ windowIndexOf s) (he : walk s.memory s.cr3 lin = some e) :
    a.bindings (lin / pageSize) = some ⟨e.address.setWidth 32, e.rw, e.user⟩ := by
  have hout : Outside a lin := by
    rw [Outside, ← h.window]
    exact ho
  rw [← h.translates lin hout, translation, ← h.cr3 hon, he, Option.map_some]

theorem Owned.ownFrames (ho : Owned s t a) (h : Holds s t a)
    (hon : s.pagingEnabled = true) : OwnFrames s where
  pages := fun lin lin' e e' hlin hlin' he he' hf => by
    have hb := bound_of_walk h hon hlin he
    have hb' := bound_of_walk h hon hlin' he'
    exact ho.own _ _ _ _ hb hb' (entry_frame_inj hf)
  tables := fun lin e i hlin he hi hpres hf => by
    have hw := h.tables.toWalks
    have htaken := ho.taken _ _ (bound_of_walk h hon hlin he)
    cases ht : t i with
    | none =>
      rw [hw.pde_none i hi ht] at hpres
      cases hpres
    | some q =>
      refine htaken.table i q ht ?_
      rw [(hw.pde_some i q hi ht).frame, PagingEntry.frame] at hf
      have haddr := e.address.isLt
      rw [← hf]
      apply BitVec.eq_of_toNat_eq
      rw [page_toNat, BitVec.toNat_mul, BitVec.toNat_setWidth, show pageSize.toNat = 4096 from rfl]
      omega

/-- A taken page leaves the other frames to their owners and gets one of its own. -/
theorem PageCall.TakenBy.taken (htaken : c.TakenBy s t p s1) (h : Ready s t a) (ha : Apart s) :
    Taken s1 t (c.frame s.segmentsInfo p) ∧
    ∀ f, Taken s t f → Taken s1 t f ∧ f ≠ c.frame s.segmentsInfo p := by
  rw [PageCall.TakenBy] at htaken
  split_ifs at htaken with hcode
  · obtain ⟨k, rest, hf, rfl, hc⟩ := htaken
    have hframe : c.frame s.segmentsInfo (pageAt k) = frameOf (codeBase s) k := by
      rw [PageCall.frame, PageCall.segment, if_pos hcode]
      rfl
    rw [hframe]
    refine ⟨(Ready.codeFrame_private h ha hf hc).toTaken, fun f hold => ⟨hold.allocCode hf hc, ?_⟩⟩
    exact hold.code k (hf ▸ List.mem_cons_self)
  · obtain ⟨k, rest, hf, rfl, hd⟩ := htaken
    have hframe : c.frame s.segmentsInfo (pageAt k) = frameOf s.dataBase k := by
      rw [PageCall.frame, PageCall.segment, if_neg hcode]
      rfl
    rw [hframe]
    refine ⟨(Ready.dataFrame_private h ha hf hd).toTaken, fun f hold => ⟨hold.allocData hf hd, ?_⟩⟩
    exact hold.data k (hf ▸ List.mem_cons_self)

theorem Owned.call (ho : Owned s t a) (h : Ready s t a) (ha : Apart s)
    (hm : Moved s t a c p s1 s' t' a') : Owned s' t' a' := by
  obtain ⟨hnew, hold⟩ := PageCall.TakenBy.taken hm.taken h ha
  have hkeep : ∀ f, Taken s1 t f → Taken s' t' f := fun f hf => hf.mmap hm.only_data hm.effect
  obtain rfl | ⟨rfl, -⟩ := hm.space
  · refine ⟨fun q b hb => ?_, fun q q' b b' hb hb' hf => ?_⟩
    · obtain ⟨-, rfl⟩ | ⟨-, hb⟩ := update_some hb
      · exact hkeep _ hnew
      · exact hkeep _ (hold _ (ho.taken q b hb)).1
    · obtain ⟨hq, hnewb⟩ | ⟨-, hbound⟩ := update_some hb <;>
        obtain ⟨hq', hnewb'⟩ | ⟨-, hbound'⟩ := update_some hb'
      · rw [hq, hq']
      · subst hnewb
        exact absurd hf.symm (hold _ (ho.taken q' b' hbound')).2
      · subst hnewb'
        exact absurd hf (hold _ (ho.taken q b hbound)).2
      · exact ho.own q q' b b' hbound hbound' hf
  · exact ⟨fun q b hb => hkeep _ (hold _ (ho.taken q b hb)).1, ho.own⟩

theorem Owned.work (ho : Owned s t a) (h : Ready s t a) (hw : Work s s') : Owned s' t a := by
  obtain ⟨hdata, hcode⟩ := hw.supply h
  have hbase : s'.dataBase = s.dataBase ∧ codeBase s' = codeBase s := by
    rw [hw.globals]
    exact ⟨rfl, rfl⟩
  refine ⟨fun q b hb => ?_, ho.own⟩
  obtain ⟨htable, hfree, hcfree⟩ := ho.taken q b hb
  refine ⟨?_, ?_, ?_⟩
  · rwa [hbase.1]
  · rwa [hdata, hbase.1]
  · rwa [hcode, hbase.2]

end

section

variable {header : ModuleHeader} {s0 s : State} {t : TableMap} {a : Space}
  {log : List (PageCall × U32int)}

theorem Runs.owned (h0 : Running s0 s0 t a) (ho : Owned s0 t a) (hr : Runs header s0 log s) :
    ∃ t a, Running s0 s t a ∧ Owned s t a := by
  induction hr with
  | start => exact ⟨t, a, h0, ho⟩
  | call _ hmod hdue htake hhad hcall ih =>
    obtain ⟨t1, a1, h1, ho1⟩ := ih
    obtain ⟨t2, a2, h2, hmoved⟩ := h1.call hmod hdue htake hhad hcall
    exact ⟨t2, a2, h2, ho1.call h1.ready h1.room.apart hmoved⟩
  | work _ hw ih =>
    obtain ⟨t1, a1, h1, ho1⟩ := ih
    exact ⟨t1, a1, h1.work hw, ho1.work h1.ready hw⟩

end

/-- The bits of kernel code and of the stack page are set. -/
structure Marked (image : KernelImage) (s : State) : Prop where
  code_marked : ∀ k < codePages s, 4096 * k < image.kernelCodeSize.toNat →
    bit s.data s.memoryBitmap.codeBitmap k = true
  stack_marked : bit s.data s.memoryBitmap.dataBitmap (segmentPages s - 1) = true

/-- What the bitmaps reserve and the boot segments leave free: the segments lie apart,
with kernel code in its own, and the screen and the module image lie outside both. -/
structure Reserved (image : KernelImage) (s : State) : Prop extends Marked image s where
  apart : Apart s
  data_whole : s.segmentsInfo.dataSegment.len.toNat % 4096 = 0
  code_inside : image.kernelCodeSize.toNat ≤ 4096 * codePages s
  elsewhere : ∀ q, q = videoPage s ∨ q ∈ modulePages s →
    (∀ k < segmentPages s, q ≠ frameOf s.dataBase k) ∧ ∀ k < codePages s, q ≠ frameOf (codeBase s) k

section

variable {image : KernelImage} {s : State} {n r : Nat} {I : Finset U32int}

theorem bootState_reserved (h : Placeable s n) (hr : Reserved image s) {k : Nat}
    (hk : k ∈ dataFree (bootState s n)) : n + 3 ≤ k ∧ k + 1 < segmentPages s := by
  obtain ⟨hlt, hclear⟩ := PackedBits.mem_freeList.mp hk
  rw [segmentPages_bootState] at hlt
  change bit (bootState s n).data s.memoryBitmap.dataBitmap k = false at hclear
  rw [bootState, bootAt, bootWith_data] at hclear
  by_cases hlow : k < n + 3
  · rw [boot_bits h hlow] at hclear
    cases hclear
  refine ⟨by omega, ?_⟩
  by_contra hlast
  obtain rfl : k = segmentPages s - 1 := by omega
  rw [boot_bits_above h (by omega) hlt, hr.stack_marked] at hclear
  cases hclear

theorem frameOf_linAt (base : U32int) (k : Nat) :
    linAt base (4096 * k) / pageSize = frameOf base k := by
  rw [linAt, frameOf, pageAt, add_comm, mul_comm]

theorem Reserved.apart_boot (hr : Reserved image s) (n : Nat) : Apart (bootState s n) :=
  ⟨hr.apart.code_aligned, hr.apart.code_end, hr.apart.data_end, hr.apart.disjoint⟩

/-- Boot pages are reserved pages of the two segments, or none of theirs. -/
theorem bootPages_cases (h : Placeable s n) (hr : Reserved image s) {q : U32int}
    (hq : q ∈ bootPages image (bootState s n)) :
    (∃ j < segmentPages s, (j < n + 2 ∨ j = segmentPages s - 1) ∧ q = frameOf s.dataBase j) ∨
    (∃ j < codePages s, 4096 * j < image.kernelCodeSize.toNat ∧ q = frameOf (codeBase s) j) ∨
    q = videoPage s ∨ q ∈ modulePages s := by
  have hroom := h.room
  rcases hq with (((hdata | hstack) | hcode) | hvideo) | hmodule
  · obtain ⟨j, hj, rfl⟩ := hdata
    have htop : (bootDir n + directorySize).toNat = 4096 * n + 8192 := by
      have hlen := segmentPages_le s
      rw [BitVec.toNat_add, bootDir_toNat h, show directorySize.toNat = 8192 from rfl]
      omega
    change j < ((bootDir n + directorySize).toNat + 4095) / 4096 at hj
    refine .inl ⟨j, by omega, .inl (by omega), frameOf_linAt ..⟩
  · have hlen : s.segmentsInfo.dataSegment.len.toNat = 4096 * segmentPages s := by
      have hwhole := hr.data_whole
      rw [segmentPages]
      omega
    have hpage : s.segmentsInfo.dataSegment.len - pageSize = pageAt (segmentPages s - 1) := by
      apply BitVec.eq_of_toNat_eq
      rw [pageAt_toNat (s := s) (by omega), BitVec.toNat_sub, show pageSize.toNat = 4096 from rfl]
      omega
    rw [Set.mem_singleton_iff] at hstack
    refine .inl ⟨segmentPages s - 1, by omega, .inr rfl, ?_⟩
    rw [hstack, frameOf, ← hpage]
    rfl
  · obtain ⟨j, hj, rfl⟩ := hcode
    have hin := hr.code_inside
    exact .inr (.inl ⟨j, by omega, by omega, frameOf_linAt ..⟩)
  · exact .inr (.inr (.inl hvideo))
  · exact .inr (.inr (.inr hmodule))

/-- A code page that is free after boot was not marked. -/
theorem codeFree_bootState (h : BootLayout image s n I r) {k : Nat}
    (hk : k ∈ codeFree (bootState s n)) :
    k < codePages s ∧ bit s.data s.memoryBitmap.codeBitmap k = false := by
  obtain ⟨hlt, hclear⟩ := PackedBits.mem_freeList.mp hk
  change k < codePages s at hlt
  exact ⟨hlt, (startState_code_bit h hlt).symm.trans hclear⟩

theorem boot_taken (h : BootLayout image s n I r) (hr : Reserved image s) {q : U32int}
    (hq : q ∈ bootPages image (bootState s n)) : Taken (bootState s n) (bootTables s n) q := by
  have hp := h.placeable
  have hl : Layout (bootState s n) := (boot_holds hp).tables.toLayout
  have ha := hr.apart_boot n
  have hroom := h.room
  have hlast : n + 3 < segmentPages s := by
    by_contra hshort
    have hclear := h.next.2 (segmentPages s - 1) (by omega) (by omega)
    rw [hr.stack_marked] at hclear
    cases hclear
  -- the page of the window's table is free until boot takes it
  have hfree : ∀ k, n + 2 ≤ k → k + 1 < segmentPages s → q ≠ frameOf s.dataBase k := by
    intro k hk hklast he
    have hkn := dataFrame_toNat hl ha (k := k) (by rw [segmentPages_bootState]; omega)
    change (frameOf s.dataBase k).toNat = s.dataBase.toNat / 4096 + k at hkn
    rcases bootPages_cases hp hr hq with ⟨j, hj, hres, rfl⟩ | ⟨j, hj, -, rfl⟩ | hother
    · have hjn := dataFrame_toNat hl ha (k := j) (by rwa [segmentPages_bootState])
      change (frameOf s.dataBase j).toNat = s.dataBase.toNat / 4096 + j at hjn
      rw [he] at hjn
      omega
    · exact frames_ne hl ha (k := k) (j := j) (by rw [segmentPages_bootState]; omega) hj he.symm
    · exact (hr.elsewhere q hother).1 k (by omega) he
  refine ⟨fun i p hip => ?_, fun k hk => ?_, fun k hk => ?_⟩
  · obtain ⟨-, rfl⟩ := bootTables_some hip
    exact hfree (n + 2) le_rfl (by omega)
  · obtain ⟨hlow, hhigh⟩ := bootState_reserved hp hr hk
    exact hfree k (by omega) hhigh
  · intro he
    obtain ⟨hlt, hclear⟩ := codeFree_bootState h hk
    rcases bootPages_cases hp hr hq with ⟨j, hj, -, rfl⟩ | ⟨j, hj, hused, rfl⟩ | hother
    · exact frames_ne hl ha (k := j) (j := k) (by rwa [segmentPages_bootState]) hlt he
    · have hjn := codeFrame_toNat ha (k := j) hj
      have hkn := codeFrame_toNat ha (k := k) hlt
      change frameOf (codeBase (bootState s n)) j = _ at he
      rw [he, hkn] at hjn
      obtain rfl : k = j := by omega
      rw [hr.code_marked k hlt hused] at hclear
      cases hclear
    · exact (hr.elsewhere q hother).2 k hlt he

theorem steady_taken (f : U32int) : Steady fun s t => Taken s t f :=
  fun _ _ _ _ _ _ _ _ _ _ _ _ _ _ honly _ he h => h.mmap honly he

theorem taken_switch {s : State} {t : TableMap} {f : U32int} (h : Taken s t f) :
    Taken (s.switchPageDirectory s.kernelPageDirectory) t f := ⟨h.table, h.data, h.code⟩

theorem Taken.setHeap {s : State} {t : TableMap} {f start size brk : U32int} (h : Taken s t f) :
    Taken (setHeap s start size brk) t f := ⟨h.table, h.data, h.code⟩

end

section

variable {image : KernelImage} {p : SegmentsParameters} {s s0 s1 : State}
  {n r : Nat} {I : Finset U32int}

/-- A page of whole pages from `x` on. -/
theorem frame_of_range {q x : U32int} {m k : Nat} (hx : x.toNat % 4096 = 0) (hm : m % 4096 = 0)
    (hk : 4096 * k < m) (hq : q.toNat = x.toNat / 4096 + k) :
    4096 * q.toNat ∈ Set.Ico x.toNat (x.toNat + m) := by
  rw [Set.mem_Ico]
  omega

/-- Screen and module image lie in neither of the two segments. -/
theorem RangesApart.elsewhere (hr : RangesApart (bootSegments p))
    (hinfo : s0.segmentsInfo = segmentsOf p)
    {q : U32int} (hq : q = videoPage s0 ∨ q ∈ modulePages s0) :
    (∀ k < segmentPages s0, q ≠ frameOf s0.dataBase k) ∧ ∀ k < codePages s0,
    q ≠ frameOf (codeBase s0) k := by
  obtain ⟨hwhole, hapart⟩ := hr
  simp only [bootSegments, codeAndData, List.cons_append, List.nil_append, List.forall_mem_cons,
    List.pairwise_cons] at hwhole hapart
  obtain ⟨⟨hda, hdw, hde⟩, ⟨hca, hcw, hce⟩, ⟨hma, hmw, hme⟩, -⟩ := hwhole
  obtain ⟨⟨-, hdm, hdv, -⟩, ⟨hcm, hcv, -⟩, -⟩ := hapart
  rw [segmentPages, codePages, codeBase, State.dataBase, hinfo]
  rw [videoPage, modulePages, hinfo] at hq
  -- the page of the screen or of the module image, as an address
  have hrange : 4096 * q.toNat ∈ Set.Ico videoBaseAddr.toNat (videoBaseAddr.toNat + 4096) ∨
      4096 * q.toNat ∈ Set.Ico p.moduleBaseAddr.toNat
          (p.moduleBaseAddr.toNat + p.moduleSegmentLen.toNat) := by
    rcases hq with rfl | ⟨k, hk, rfl⟩
    · left
      change 4096 * (videoBaseAddr / pageSize).toNat ∈ _
      rw [page_toNat]
      decide
    · right
      change k < (p.moduleSegmentLen.toNat + 4095) / 4096 at hk
      refine frame_of_range (k := k) hma hmw (by omega) ?_
      change (linAt p.moduleBaseAddr (4096 * k) / pageSize).toNat = _
      rw [page_toNat, linAt, BitVec.toNat_add, BitVec.toNat_ofNat]
      omega
  refine ⟨fun k hk he => ?_, fun k hk he => ?_⟩
  · change k < p.dataSegmentLen.toNat / 4096 at hk
    have hin := frame_of_range (k := k) hda hdw (by omega)
      (frameOf_toNat (n := p.dataSegmentLen.toNat / 4096) hda (by omega) hk)
    rw [he] at hrange
    exact hrange.elim (Set.disjoint_left.mp hdv hin) (Set.disjoint_left.mp hdm hin)
  · change k < p.codeSegmentLen.toNat / 4096 at hk
    have hin := frame_of_range (k := k) hca hcw (by omega)
      (frameOf_toNat (n := p.codeSegmentLen.toNat / 4096) hca (by omega) hk)
    rw [he] at hrange
    exact hrange.elim (Set.disjoint_left.mp hcv hin) (Set.disjoint_left.mp hcm hin)

theorem Entered.reserved (h : Entered image p s) (hc : Compact image)
    (hr : RangesApart (bootSegments p))
    (hstart : pagingStart image p s = .ok s0) (hb : BootReady s0 n) (hm : Marked image s0) :
    Reserved image s0 := by
  obtain ⟨hinfo, -⟩ := BootRanges.pagingStart_globals hstart
  obtain ⟨hd, hrest⟩ := List.forall_mem_cons.mp (codeAndData_apart hr).whole
  have hcw := (hrest _ List.mem_cons_self).2.1
  change p.codeSegmentLen.toNat % 4096 = 0 at hcw
  have hpages := hb.room
  rw [segmentPages, hinfo] at hpages
  change n + 3 ≤ p.dataSegmentLen.toNat / 4096 at hpages
  have hin := h.code_inside
  have hpos := hc.code_pos
  refine ⟨hm, (codeAndData_apart hr).apart_segments hinfo (by omega) (by omega), ?_, ?_,
    fun q hq => RangesApart.elsewhere hr hinfo hq⟩
  · rw [hinfo]
    exact hd.2.1
  · rw [codePages, hinfo]
    change image.kernelCodeSize.toNat ≤ 4096 * (p.codeSegmentLen.toNat / 4096)
    omega

/-- After boot every boot page is its own frame. -/
theorem Bootable.owned {t : TableMap} {a : Space} (h : Bootable image s0 n I r)
    (hres : Reserved image s0)
    (hmapped : BootMapped (startState s0 n) I r (bootFlags image (bootState s0 n)) s1 t a)
    (hkeep : ∀ Q, Steady Q → (∀ s t, Q s t → Q (s.switchPageDirectory s.kernelPageDirectory) t) →
      Q (bootState s0 n) (bootTables s0 n) → Q s1 t) : Owned s1.initHeap t a := by
  obtain ⟨start, size, hheap, -⟩ := initHeap_sets s1
  rw [hheap]
  refine ⟨fun q b hb => ?_, fun q q' b b' hb hb' hf => ?_⟩
  · rw [hmapped.bindings] at hb
    obtain ⟨rw, hflag, rfl⟩ := Option.map_eq_some_iff.mp hb
    have hq : q ∈ bootPages image (bootState s0 n) := by
      by_contra hnot
      rw [bootFlags_none.mpr hnot] at hflag
      cases hflag
    exact Taken.setHeap (hkeep (fun s t => Taken s t q) (steady_taken q) (fun _ _ => taken_switch)
      (boot_taken h.toBootLayout hres hq))
  · rw [hmapped.bindings] at hb hb'
    obtain ⟨rw, -, rfl⟩ := Option.map_eq_some_iff.mp hb
    obtain ⟨rw', -, rfl⟩ := Option.map_eq_some_iff.mp hb'
    exact hf

/-- From any state in which `init_paging` was called with the segments so reserved. -/
theorem Bootable.ownFrames {s2 : State} {header : ModuleHeader} {log : List (PageCall × U32int)}
    (h : Bootable image s0 n I r) (hres : Reserved image s0) (hinit : s0.initPaging image = .ok s1)
    (hroom : ModuleRoom s1) (hr : Runs header s1.initHeap log s2) : OwnFrames s2 := by
  obtain ⟨t, a, h0, hmapped, hkeep⟩ := Bootable.running h hinit hroom
  obtain ⟨t', a', hrun, hown⟩ := Runs.owned h0 (Bootable.owned h hres hmapped hkeep) hr
  exact hown.ownFrames hrun.ready.holds hrun.on

end

/-- Whatever the heap, the page fault handler and the loader map, in whatever order, no
frame gets a second owner. -/
theorem frames_owned {p : SegmentsParameters} {s s0 s1 s2 : State} {n r : Nat} {I : Finset U32int}
    {header : ModuleHeader} {log : List (PageCall × U32int)} (h : Entered linkedImage p s)
    (hr : RangesApart (bootSegments p)) (hstart : pagingStart linkedImage p s = .ok s0)
    (hb : Bootable linkedImage s0 n I r) (hm : Marked linkedImage s0)
    (hinit : s0.initPaging linkedImage = .ok s1)
    (hruns : Runs header s1.initHeap log s2) : OwnFrames s2 :=
  Bootable.ownFrames hb (Entered.reserved h linkedImage_compact hr hstart hb.toBootReady hm) hinit
    (h.room linkedImage_compact (codeAndData_apart hr) hstart hb hinit) hruns

theorem handed_marked : Marked linkedImage (described linkedImage handed (onesMachine 0)) where
  code_marked := fun k hk hlt => by
    have hsize : linkedImage.kernelCodeSize.toNat = 4096 * 5 := by decide
    rw [hsize] at hlt
    rw [described_code handed_entered linkedImage_compact (by decide) hk (by omega), hsize]
    exact decide_eq_true (by omega)
  stack_marked := described_stack handed_entered linkedImage_compact (by decide)

/-- With a page of the heap and pages of the module's code, data and stack mapped. -/
theorem frames_owned_handed : ∃ s1 s2 log q,
    (described linkedImage handed (onesMachine 0)).initPaging linkedImage = .ok s1 ∧
    log.map Prod.fst = [.moduleData 0, .moduleCode 0, .heap 0x800000] ∧
    Runs linkedHeader s1.initHeap ((.moduleStack, q) :: log) s2 ∧ OwnFrames s2 := by
  obtain ⟨s1, s2, log, q, t, a, hinit, hlog, hruns, -⟩ := handed_run
  exact ⟨s1, s2, log, q, hinit, hlog, hruns,
    frames_owned handed_entered handed_apart handed_start handed_bootable handed_marked hinit hruns⟩

end SimpleOs.Audit.FrameOwners
