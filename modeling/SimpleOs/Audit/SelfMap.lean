import SimpleOs.Audit.LinearView

/-!
# The self-map

The pointer array names a window page for every table of the directory, and that page
shows the table. `get_pt_entry` then comes to the same word through the window and
through the directory.
-/

namespace SimpleOs.Audit.SelfMap

open SimpleOs.Kernel SimpleOs.Lib.ByteMemory SimpleOs.Audit.PageTables
open SimpleOs.Audit.KernelAccess SimpleOs.Audit.MapCalls SimpleOs.Audit.PagingBoot
open SimpleOs.Audit.AddressSpace SimpleOs.Audit.LinearView
open SimpleOs.Lib.Refinement

structure SelfMapped (s : State) : Prop where
  ptr : ∀ i : U32int, i.toNat < 1024 →
    (read32 s.data (ptrCell s i) ≠ null ↔ (entryAt s.data (pdCell s i)).present = true)
  window : ∀ i : U32int, i.toNat < 1024 → (entryAt s.data (pdCell s i)).present = true →
    ∃ e, walk s.memory (dirRoot s) (windowAddr s i 0) = some e ∧
      e.frame = (entryAt s.data (pdCell s i)).frame
  inj : ∀ i j : U32int, i.toNat < 1024 → j.toNat < 1024 →
    (entryAt s.data (pdCell s i)).present = true → (entryAt s.data (pdCell s j)).present = true →
    (entryAt s.data (pdCell s i)).frame = (entryAt s.data (pdCell s j)).frame → i = j

/-- `get_pt_entry` comes back with a pointer to the word at physical address `cell`,
or with NULL if there is none. -/
def Reaches (s : State) (lin : U32int) (cell : Option U32int) : Prop :=
  ∃ entry, s.getPtEntry lin s.kernelPageDirectory false = .ok (entry, s) ∧
    match cell with
    | none => entry = null
    | some c => entry ≠ null ∧ s.ResolvesTo entry c 4

def pagingOn (s : State) : State := s.switchPageDirectory s.kernelPageDirectory
def pagingOff (s : State) : State := { s with pagingEnabled := false }

/-- Both modes come to the same word, or both to none. -/
def SameCell (s : State) (lin : U32int) : Prop :=
  ∃ cell, Reaches (pagingOn s) lin cell ∧ Reaches (pagingOff s) lin cell

section

variable {s : State} {t : TableMap} {a : Space}

theorem present_iff (h : Walks s t) {i : U32int} (hi : i.toNat < 1024) :
    (entryAt s.data (pdCell s i)).present = true ↔ ∃ p, t i = some p := by
  cases ht : t i with
  | none => simp only [h.pde_none i hi ht, Bool.false_eq_true, reduceCtorEq, exists_false]
  | some p => simp only [(h.pde_some i p hi ht).present, Option.some.injEq, exists_eq']

theorem selfMapped (h : Tables s t) : SelfMapped s where
  ptr := fun i hi => by
    have hne : s.pageTablesRelVirtAddr + i * pageSize ≠ null := by
      simpa using windowPtr_ne_null h.toLayout hi (k := 0) (by decide)
    rw [h.ptr i hi, present_iff h.toWalks hi]
    cases ht : t i with
    | none => simp only [Option.isSome_none, Bool.false_eq_true, if_false, ne_eq, not_true_eq_false,
        reduceCtorEq, exists_false]
    | some p => simp only [Option.isSome_some, if_true, hne, ne_eq, not_false_eq_true,
        Option.some.injEq, exists_eq']
  window := fun i hi hpres => by
    obtain ⟨p, hp⟩ := (present_iff h.toWalks hi).mp hpres
    obtain ⟨e, hwalk, hframe⟩ := h.walk_window hi hp (k := 0) (by decide)
    exact ⟨e, hwalk, hframe.trans (h.pde_some i p hi hp).frame.symm⟩
  inj := fun i j hi hj hpi hpj hframe => by
    obtain ⟨p, hp⟩ := (present_iff h.toWalks hi).mp hpi
    obtain ⟨q, hq⟩ := (present_iff h.toWalks hj).mp hpj
    rw [(h.pde_some i p hi hp).frame, (h.pde_some j q hj hq).frame] at hframe
    obtain rfl := frame_inj hframe
    exact h.inj i j p hp hq

/-- The word of the entry, if the linear address has a table. -/
def entryCell (s : State) (t : TableMap) (lin : U32int) : Option U32int :=
  (t (tableIndex lin)).map fun p => p + 4 * pageIndex lin + s.dataBase

theorem reaches_entryCell (h : Tables s t) (hl : Live s t) (lin : U32int) :
    Reaches s lin (entryCell s t lin) := by
  have hi := tableIndex_lt lin
  have hj := pageIndex_lt lin
  unfold entryCell
  cases ht : t (tableIndex lin) with
  | none => exact ⟨null, getPtEntry_absent h hl ht, rfl⟩
  | some p =>
    exact ⟨_, getPtEntry_present h hl ht false, tablePtr_ne_null h.toWalks hi ht (by bv_omega),
      tablePtr_resolves h.toWalks hl.toWindowMode hi ht (by bv_omega)⟩

/-- Switching paging off leaves the tables as they are. -/
theorem tables_pagingOff (h : Tables s t) : Tables (pagingOff s) t :=
  ⟨⟨⟨h.base_aligned, h.dir_aligned, h.dir_end, h.window_start, h.window_above, h.bitmap_size,
    h.bitmap_end⟩, h.pde_some, h.pde_none, h.window, h.window_some,
    fun i p hp => ⟨(h.page i p hp).aligned, (h.page i p hp).above, (h.page i p hp).inside⟩, h.inj⟩,
      h.ptr⟩

theorem sameCell (h : Holds s t a) (hk : KernelBound s a) (hw : WindowReachable s) (lin : U32int) :
    SameCell s lin := by
  have hon : Holds (pagingOn s) t a := h.enablePaging
  refine ⟨entryCell s t lin, ?_, ?_⟩
  · exact reaches_entryCell hon.tables (hon.live fun _ => ⟨hk, hw⟩) lin
  · exact reaches_entryCell (tables_pagingOff h.tables) (live_of_disabled rfl) lin

end

section

variable {s : State} {t : TableMap} {a : Space} {p lin : U32int}

/-- Kernel data stay bound when another page is mapped. -/
theorem kernelBound_map {b : Binding} (h : KernelBound s a) {m : Memory}
    (hne : ∀ q, q.toNat < s.kernelPageDirectory.toNat + 8192 →
    (q + s.dataBase) / pageSize ≠ lin / pageSize) : KernelBound (s.withData m) (a.map lin b) := by
  intro q hq
  obtain ⟨b', hb, hf⟩ := h q hq
  exact ⟨b', (map_bindings_of_ne a b (hne q hq)).trans hb, hf⟩

/-- `mmap` under a table that exists writes one entry. -/
theorem mmap_entry (h : Holds s t a) (hr : Reachable s a) (segment : Segment) {v : U32int}
    (hv : v + segment.base = lin) (ht : t (tableIndex lin) = some p) (ho : Outside a lin)
    (x : U32int) (rw user : Bool) :
    let m := write32 s.data (p + 4 * pageIndex lin) (ptEntry true rw user (x + segment.base)).toWord
    s.mmap segment v x rw user = .ok (true, s.withData m) ∧
      Holds (s.withData m) t (a.map lin ⟨(x + segment.base) / pageSize, rw, user⟩) := by
  subst hv
  refine ⟨mmap_of_present h.tables (h.live hr) ht x rw user, ?_⟩
  have hset := sets_of_present h.tables h.accounted ht (by rwa [h.window])
    (ptEntry true rw user (x + segment.base))
  refine h.of_sets hset rfl ?_ fun i => Finset.mem_insert
  rw [translation_ptEntry]
  rfl

/-- Bytes of a page that is walked to frame `f` are reached there. -/
theorem resolves_walked (hp : s.pagingEnabled = true) {q f : U32int} {n : Nat}
    (hq : q.toNat + n ≤ s.segmentsInfo.dataSegment.limit.toNat + 1)
    (hn : (q + s.dataBase).toNat % 4096 + n ≤ 4096)
    (hwalk : ∀ lin, lin / pageSize = (q + s.dataBase) / pageSize →
      ∃ e, walk s.memory s.cr3 lin = some e ∧ e.frame = f * pageSize) :
    s.ResolvesTo q (inFrame f (q + s.dataBase)) n := by
  intro k hk
  have hle : q + k ≤ s.segmentsInfo.dataSegment.limit := by bv_omega
  have hlin : q + k + s.dataBase = q + s.dataBase + k := add_right_comm ..
  have hpage : (q + k + s.dataBase) / pageSize = (q + s.dataBase) / pageSize := by
    rw [hlin]
    apply BitVec.eq_of_toNat_eq
    rw [page_toNat, page_toNat, BitVec.toNat_add]
    omega
  have hoff : (q + k + s.dataBase) % pageSize = (q + s.dataBase) % pageSize + k := by
    rw [hlin]
    apply BitVec.eq_of_toNat_eq
    simp only [pageSize, bitvec_to_nat, Nat.reducePow, Nat.reduceMod] at hn ⊢
    omega
  obtain ⟨e, he, hframe⟩ := hwalk _ hpage
  have hbase : s.segmentsInfo.dataSegment.base = s.dataBase := rfl
  simp only [State.dataAddr, State.segAddr, hle, if_true, State.translate,
    hp, hbase, he, hframe, hoff]
  rw [inFrame, add_assoc]

/-- A bound page is walked to its frame. -/
theorem walk_bound (h : Holds s t a) (hp : s.pagingEnabled = true) {b : Binding}
    (ho : Outside a lin) (hb : a.bindings (lin / pageSize) = some b) :
    ∃ e, walk s.memory s.cr3 lin = some e ∧ e.frame = b.frame * pageSize := by
  have htr := h.translates lin ho
  rw [hb, translation, ← h.cr3 hp] at htr
  obtain ⟨e, hwalk, he⟩ := Option.map_eq_some_iff.mp htr
  exact ⟨e, hwalk, by rw [PagingEntry.frame, ← he]⟩

/-- Bytes of a bound page are reached in its frame. -/
theorem resolves_bound (h : Holds s t a) (hp : s.pagingEnabled = true) {q : U32int} {n : Nat}
    {b : Binding} (hq : q.toNat + n ≤ s.segmentsInfo.dataSegment.limit.toNat + 1)
    (hn : (q + s.dataBase).toNat % 4096 + n ≤ 4096) (ho : Outside a (q + s.dataBase))
    (hb : a.bindings ((q + s.dataBase) / pageSize) = some b) :
    s.ResolvesTo q (inFrame b.frame (q + s.dataBase)) n :=
  resolves_walked hp hq hn fun _ hpage => walk_bound h hp (outside_page ho hpage) (hpage ▸ hb)

theorem entryAt_present (m : Memory) (c : U32int) : (entryAt m c).present = (m c).getLsbD 0 := by
  simp only [entryAt, PagingEntry.ofWord, read32, BitVec.getLsbD_append, Nat.ofNat_pos, if_true]

/-- With paging on the entry is looked for where the pointer array says. -/
theorem getPtEntry_through (hp : s.pagingEnabled = true) {ptr : U32int}
    (hptr : s.pageTablePtr s.kernelPageDirectory (tableIndex lin) = .ok ptr)
    (hne : ptr ≠ null) (make : Bool) :
    s.getPtEntry lin s.kernelPageDirectory make = .ok (ptr + 4 * pageIndex lin, s) := by
  have hbase : s.tableBase s.kernelPageDirectory (tableIndex lin) = .ok ptr :=
    (if_pos hp).trans hptr
  have hpage : lin / pageSize % 1024 = pageIndex lin := rfl
  simp only [State.getPtEntry, tableIndex_eq, hptr, ok_bind, ne_eq, hne, not_false_eq_true, if_true,
    hbase, hpage, pure_ok]

/-- `munmap` writes through whatever the pointer array shows. -/
theorem munmap_through (hp : s.pagingEnabled = true) (segment : Segment)
    {v ptr entry : U32int} {s' : State}
    (hv : v + segment.base = lin) (hptr : s.pageTablePtr s.kernelPageDirectory (tableIndex lin) =
      .ok ptr) (hne : ptr ≠ null) (he : ptr + 4 * pageIndex lin = entry) (hnull : entry ≠ null)
    (hset : s.setPtEntry entry false false false 0 = .ok s') :
    s.munmap segment v = .ok (true, s') := by
  subst hv he
  simp only [State.munmap, getPtEntry_through hp hptr hne, ok_bind, ne_eq, hnull, not_false_eq_true,
    if_true, hset, pure_ok]

end

section

variable {s : State} {len : U32int}

theorem booted_windowReachable (hs : Booted s 0x2000000) : WindowReachable s := by
  rw [WindowReachable, hs.window, hs.segment]
  decide

/-- Kernel data of these machines end at page 0x108. -/
theorem booted_kernel_ne (hs : Booted s len) {lin : U32int} (hlin : 0x108000 ≤ lin.toNat)
    (q : U32int) (hq : q.toNat < s.kernelPageDirectory.toNat + 8192) :
    (q + s.dataBase) / pageSize ≠ lin / pageSize := by
  rw [hs.dir, show (0x6000 : U32int).toNat + 8192 = 0x8000 from rfl] at hq
  rw [hs.base]
  intro he
  have hn := congrArg BitVec.toNat he
  rw [BitVec.toNat_udiv, BitVec.toNat_udiv, BitVec.toNat_add, show pageSize.toNat = 4096 from rfl,
    show (0x100000 : U32int).toNat = 0x100000 from rfl] at hn
  omega

/-- Page 0x200 is bound to frame 5 and the second page of the directory to the page
table this went into, whose entry then passes for a pointer into the directory. -/
theorem machine_strays : ∃ s t a p, t 0 = some p ∧ Holds s t a ∧ s.pagingEnabled = true ∧
    Booted s 0x2000000 ∧ Run anyMappings (Opens (bootState (machine 0x100000 0x2000000) 6)) s a ∧
    read32 s.data (p + 0x800) = 0x5019 ∧
    a.bindings 0x107 = some ⟨(p + 0x100000) / pageSize, true, false⟩ ∧
    a.bindings 0x106 = some ⟨0x106, true, false⟩ ∧ a.window = 1 := by
  obtain ⟨s, t, h, hon, hs, hr⟩ :=
    machine_boots (by simp : (0x2000000 : U32int) ∈ [0x2000000, 0x100000])
  obtain ⟨p, hp⟩ : ∃ p, t 0 = some p :=
    Option.isSome_iff_exists.mp ((h.covered 0 (by decide)).mp (by decide))
  have hpage := h.tables.page 0 p hp
  have hreach : Reachable s machineSpace := fun _ => ⟨hs.kernelBound, booted_windowReachable hs⟩
  have hidx : tableIndex 0x200000 = 0 ∧ tableIndex 0x107000 = 0 := by decide
  obtain ⟨hcall1, h1⟩ := mmap_entry h hreach ⟨0x100000, 0x2000000⟩
    (show 0x100000 + 0x100000 = (0x200000 : U32int) by decide) (hidx.1 ▸ hp) (by decide)
    (0x5000 - 0x100000) false false
  have hr1 := Run.call (I := anyMappings)
    (i := .mmap ⟨0x100000, 0x2000000⟩ 0x100000 (0x5000 - 0x100000) false false)
    (hr.weaken unguarded_of_permitted) ⟨by decide, fun hn => absurd (by decide) hn⟩ hcall1
  have hs1 := hs.withData (write32 s.data (p + 4 * pageIndex 0x200000)
    (ptEntry true false false (0x5000 - 0x100000 + 0x100000)).toWord)
  have hk1 := kernelBound_map (b := ⟨(0x5000 - 0x100000 + 0x100000) / pageSize, false, false⟩)
    hs.kernelBound (m := write32 s.data (p + 4 * pageIndex 0x200000)
      (ptEntry true false false (0x5000 - 0x100000 + 0x100000)).toWord)
    (booted_kernel_ne hs (show 0x108000 ≤ (0x200000 : U32int).toNat by decide))
  obtain ⟨hcall2, h2⟩ := mmap_entry h1 (fun _ => ⟨hk1, booted_windowReachable hs1⟩)
    ⟨0x100000, 0x2000000⟩
    (show 0x7000 + 0x100000 = (0x107000 : U32int) by decide) (hidx.2 ▸ hp) (by decide) p true false
  have hr2 := Run.call (I := anyMappings) (i := .mmap ⟨0x100000, 0x2000000⟩ 0x7000 p true false)
    hr1 ⟨by decide, fun hn => absurd (by decide) hn⟩ hcall2
  refine ⟨_, t, _, p, hp, h2, hon, (hs1.withData _), hr2, ?_, ?_, ?_, rfl⟩
  · have hcell := hpage.cell_toNat (j := pageIndex 0x200000) (by decide)
    have hcell' := hpage.cell_toNat (j := pageIndex 0x107000) (by decide)
    have halign := hpage.aligned
    have hval : (pageIndex 0x200000).toNat = 0x200 ∧ (pageIndex 0x107000).toNat = 0x107 := by decide
    have hsame : p + 0x800 = p + 4 * pageIndex 0x200000 := by
      rw [show 4 * pageIndex 0x200000 = 0x800 by decide]
    rw [State.withData_data, hsame, State.withData_data,
      read32_write32_of_toNat_ne _ _ (by omega) (by omega) (by omega), read32_write32_same]
    decide
  · exact map_bindings_self _ 0x107000 _
  · rw [map_bindings_of_ne _ _ (by decide), map_bindings_of_ne _ _ (by decide)]
    exact machineSpace_bindings (q := 0x6000) (by decide)

theorem tableFrame_addr {p : U32int} (hp : p.toNat % 4096 = 0) :
    inFrame ((p + 0x100000) / pageSize) (0x7800 + 0x100000) = p + 0x800 + 0x100000 := by
  have hpn := p.isLt
  have hoff : (0x7800 + 0x100000 : U32int) % pageSize = 0x800 := by decide
  rw [inFrame, hoff]
  apply BitVec.eq_of_toNat_eq
  rw [BitVec.toNat_add, BitVec.toNat_mul, page_toNat, BitVec.toNat_add,
    BitVec.toNat_add, BitVec.toNat_add,
    show pageSize.toNat = 4096 from rfl, show (0x100000 : U32int).toNat = 0x100000 from rfl,
    show (0x800 : U32int).toNat = 0x800 from rfl]
  omega

/-- A `munmap` through this pointer takes the window out of the directory. -/
theorem machine_loses : ∃ s a,
    Run anyMappings (Opens (bootState (machine 0x100000 0x2000000) 6)) s a ∧ ¬ SelfMapped s := by
  obtain ⟨s, t, a, p, hp, h, hon, hs, hr, hword, hbp, hbd, hwin⟩ := machine_strays
  have hpage := h.tables.page 0 p hp
  have hlim : s.segmentsInfo.dataSegment.limit.toNat + 1 = 0x2001000 := by
    rw [hs.segment]
    decide
  have hbase := hs.base
  have hout : ∀ x : U32int, tableIndex x = 0 → Outside a x := by
    intro x hx
    rw [Outside, hx, hwin]
    decide
  -- the pointer array shows the page table
  have hptr : s.ResolvesTo 0x7800 (p + 0x800 + s.dataBase) 4 := by
    have hr := resolves_bound h hon (q := 0x7800) (n := 4) (by rw [hlim]; decide)
      (by rw [hbase]; decide) (by rw [hbase]; exact hout _ (by decide)) (by rw [hbase]; exact hbp)
    rw [hbase] at hr ⊢
    exact tableFrame_addr hpage.aligned ▸ hr
  have hdir : s.ResolvesTo 0x6001 (0x6001 + s.dataBase) 4 := by
    have hr := resolves_bound h hon (q := 0x6001) (n := 4) (by rw [hlim]; decide)
      (by rw [hbase]; decide) (by rw [hbase]; exact hout _ (by decide)) (by rw [hbase]; exact hbd)
    rw [hbase] at hr ⊢
    exact hr
  have hload : s.pageTablePtr s.kernelPageDirectory (tableIndex 0x803FA000) = .ok 0x5019 := by
    rw [State.pageTablePtr, hs.dir, ← hword]
    exact State.load32_data hptr
  have hcall := munmap_through hon ⟨0x100000, 0x2000000⟩
    (show 0x802FA000 + 0x100000 = (0x803FA000 : U32int) by decide) hload (by decide)
    (show 0x5019 + 4 * pageIndex 0x803FA000 = 0x6001 by decide) (by decide)
      (State.store32_data hdir _)
  have hrun := Run.call (I := anyMappings) (i := .munmap ⟨0x100000, 0x2000000⟩ 0x802FA000) hr
    (by change tableIndex 0x803FA000 ≠ a.window; rw [hwin]; decide) hcall
  refine ⟨_, _, hrun, fun hself => ?_⟩
  have hiff := hself.ptr 1 (by decide)
  have hdirCell : pdCell s 1 = 0x6004 ∧ ptrCell s 1 = 0x7004 := by
    rw [pdCell, ptrCell, hs.dir]
    decide
  -- the pointer is still there
  have hptr1 : read32 s.data (ptrCell s 1) ≠ null := by
    obtain ⟨w, hw⟩ := h.tables.window_some
    rw [h.window, hwin] at hw
    rw [h.tables.ptr 1 (by decide), hw, hs.window, Option.isSome_some, if_pos rfl]
    decide
  -- ... but not the directory entry
  have hentry : (entryAt (write32 s.data 0x6001 (ptEntry false false false 0).toWord)
      0x6004).present = false := by
    rw [entryAt_present]
    change ((ptEntry false false false 0).toWord.extractLsb' 24 8).getLsbD 0 = false
    decide
  have hkept : read32 (write32 s.data 0x6001 (ptEntry false false false 0).toWord)
      0x7004 = read32 s.data 0x7004 :=
    read32_congr fun k hk => write32_of_far _ _ (by bv_omega)
  rw [State.withData_data] at hiff
  change read32 _ (ptrCell s 1) ≠ null ↔ (entryAt _ (pdCell s 1)).present = true at hiff
  rw [hdirCell.1, hdirCell.2, hkept, hentry, ← hdirCell.2] at hiff
  cases hiff.mp hptr1

/-- With the window above the limit the pointer in the array reaches nothing. -/
theorem machine_out_of_reach :
    ∃ s a, Run anyMappings (Opens (bootState (machine 0x100000 0x100000) 6)) s a ∧
    ¬ SameCell s 0x109000 := by
  obtain ⟨s, t, h, hon, hs, hr⟩ :=
    machine_boots (by simp : (0x100000 : U32int) ∈ [0x2000000, 0x100000])
  refine ⟨s, _, hr.weaken unguarded_of_permitted, ?_⟩
  intro hsame
  obtain ⟨cell, ⟨entry, hget, hcell⟩, -⟩ := hsame
  have h' : Holds (pagingOn s) t machineSpace := h.enablePaging
  have hptr := pageTablePtr_eq h'.tables (h'.kernelMapped fun _ => hs.kernelBound)
    (i := 0) (by decide)
  have hwindow : (pagingOn s).pageTablesRelVirtAddr = 0x300000 := hs.window
  rw [if_pos ((h'.covered 0 (by decide)).mp (by decide)), hwindow] at hptr
  have hindex : tableIndex 0x109000 = 0 := by decide
  rw [← hindex] at hptr
  have hthrough := getPtEntry_through rfl hptr (by decide) false
  rw [hget, Except.ok.injEq, Prod.mk.injEq] at hthrough
  have hentry : entry = 0x300424 := by
    rw [hthrough.1]
    decide
  cases cell with
  | none => cases hentry.symm.trans hcell
  | some c =>
    have haddr := hcell.2.head (by decide)
    have hlimit : ¬ entry ≤ (pagingOn s).segmentsInfo.dataSegment.limit := by
      change ¬ entry ≤ s.segmentsInfo.dataSegment.limit
      rw [hentry, hs.segment]
      decide
    simp only [State.dataAddr, State.segAddr, hlimit, if_false] at haddr
    cases haddr

end

/-- After every history of permitted calls the tables map themselves, and `get_pt_entry`
comes to the same word for every linear address with paging on and off. -/
theorem self_mapped {s0 s1 s : State} {n : Nat} {a : Space} (h : Placeable s0 n)
    (hinit : s0.initPagingTables = .ok s1) (hr : Run mappings (Opens s1) s a) :
    SelfMapped s ∧ (KernelBound s a → WindowReachable s → ∀ lin, SameCell s lin) := by
  rw [initPagingTables_eq h.toBootReady] at hinit
  cases hinit
  obtain ⟨t, ht⟩ := (mappings_simulate (boot_holds h)).run hr
  exact ⟨selfMapped ht.tables, sameCell ht⟩

/-- With kernel data mapped and paging on, window and directory agree. -/
theorem self_mapped_machine : ∃ s1 s a, (machine 0x100000 0x2000000).initPagingTables = .ok s1 ∧
    Run mappings (Opens s1) s a ∧ s.pagingEnabled = true ∧ SelfMapped s ∧
    ∀ lin, SameCell s lin := by
  have h := machine_placeable 0x2000000 (by simp)
  have hinit := initPagingTables_eq h.toBootReady
  obtain ⟨s, t, -, hon, hs, hr⟩ :=
    machine_boots (by simp : (0x2000000 : U32int) ∈ [0x2000000, 0x100000])
  obtain ⟨hself, hcell⟩ := self_mapped h hinit hr
  exact ⟨_, s, _, hinit, hr, hon, hself, hcell hs.kernelBound (booted_windowReachable hs)⟩

/-- Each condition is needed: with a base inside a page the window does not show its own
table, with a window at 4 GiB the pointer array gets an entry of the directory, with the
window above the limit it cannot be read, and once kernel data are not where they were a
call can take the window out of the directory. -/
theorem self_map_lost :
    (∃ s, (machine 0x100800 0x100000).initPagingTables = .ok s ∧ ¬ SelfMapped s) ∧
    (∃ s, (machine 0xFFBF9000 0x100000).initPagingTables = .ok s ∧ ¬ SelfMapped s) ∧
    (∃ s1 s a, (machine 0x100000 0x100000).initPagingTables = .ok s1 ∧
      Run anyMappings (Opens s1) s a ∧ ¬ ∀ lin, SameCell s lin) ∧
    (∃ s1 s a, (machine 0x100000 0x2000000).initPagingTables = .ok s1 ∧
      Run anyMappings (Opens s1) s a ∧ ¬ SelfMapped s) := by
  have hready := fun s hs => initPagingTables_eq (machine_ready s hs)
  refine ⟨⟨_, hready _ (by simp), fun hself => ?_⟩,
    ⟨_, hready _ (by simp), fun hself => ?_⟩, ?_, ?_⟩
  · obtain ⟨e, hwalk, -⟩ := hself.window 1 (by decide) (by decide +kernel)
    have hnone : walk (bootState (machine 0x100800 0x100000) 6).memory
        (dirRoot (bootState (machine 0x100800 0x100000) 6))
        (windowAddr (bootState (machine 0x100800 0x100000) 6) 1 0) = none := by decide +kernel
    cases hnone.symm.trans hwalk
  · have habsent : (entryAt (bootState (machine 0xFFBF9000 0x100000) 6).data
        (pdCell (bootState (machine 0xFFBF9000 0x100000) 6) 0)).present = false := by decide +kernel
    have hpresent := (hself.ptr 0 (by decide)).mp (by decide +kernel)
    cases habsent.symm.trans hpresent
  · obtain ⟨s, a, hr, hnot⟩ := machine_out_of_reach
    exact ⟨_, s, a, hready _ (by simp), hr, fun hall => hnot (hall _)⟩
  · obtain ⟨s, a, hr, hnot⟩ := machine_loses
    exact ⟨_, s, a, hready _ (by simp), hr, hnot⟩

end SimpleOs.Audit.SelfMap
