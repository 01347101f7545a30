import SimpleOs.Audit.PagingBoot
import SimpleOs.Lib.Refinement
import Mathlib.Data.Finset.Insert

/-!
# The page tables as an address space

An address space binds pages to frames and knows which 4 MiB spans have a page
table. Every history of `mmap` and `munmap` outside the window moves the tables
as it moves the address space. Paging may be switched on at any point; from then
on the calls need kernel data mapped to itself and the window within the limit
of the data segment.
-/

namespace SimpleOs.Audit.AddressSpace

open SimpleOs.Kernel SimpleOs.Lib.ByteMemory SimpleOs.Audit.PageTables
open SimpleOs.Audit.KernelAccess SimpleOs.Audit.MapCalls SimpleOs.Audit.PagingBoot
open SimpleOs.Lib.Refinement

/-- Frame number and flags of a mapped page. -/
structure Binding where
  frame : U32int
  rw : Bool
  user : Bool
deriving DecidableEq

structure Space where
  window : U32int
  bindings : U32int → Option Binding
  covered : Finset U32int

/-- Nothing is bound, and only the window has a page table. -/
def Space.opening (window : U32int) : Space := ⟨window, fun _ => none, {window}⟩

def Space.map (a : Space) (lin : U32int) (b : Binding) : Space where
  window := a.window
  bindings := Function.update a.bindings (lin / pageSize) (some b)
  covered := insert (tableIndex lin) a.covered

def Space.unmap (a : Space) (lin : U32int) : Space where
  window := a.window
  bindings := Function.update a.bindings (lin / pageSize) none
  covered := a.covered

theorem map_bindings_self (a : Space) (lin : U32int) (b : Binding) :
    (a.map lin b).bindings (lin / pageSize) = some b := Function.update_self ..

theorem map_bindings_of_ne (a : Space) {lin q : U32int} (b : Binding) (h : q ≠ lin / pageSize) :
    (a.map lin b).bindings q = a.bindings q := Function.update_of_ne h ..

inductive Call where
  | mmap (segment : Segment) (virtRelAddress physRelAddress : U32int) (rw user : Bool)
  | munmap (segment : Segment) (virtRelAddress : U32int)
  | enablePaging

def call : Call → State → Except Trap (Bool × State)
  | .mmap segment v p rw user, s => s.mmap segment v p rw user
  | .munmap segment v, s => s.munmap segment v
  | .enablePaging, s => .ok (true, s.switchPageDirectory s.kernelPageDirectory)

def spec : Call → Space → Bool × Space
  | .mmap segment v p rw user, a =>
    (true, a.map (v + segment.base) ⟨(p + segment.base) / pageSize, rw, user⟩)
  | .munmap segment v, a =>
    (decide (tableIndex (v + segment.base) ∈ a.covered), a.unmap (v + segment.base))
  | .enablePaging, a => (true, a)

/-- The window is the span of one directory entry. -/
def Outside (a : Space) (lin : U32int) : Prop := tableIndex lin ≠ a.window

instance (a : Space) (lin : U32int) : Decidable (Outside a lin) :=
    inferInstanceAs (Decidable (_ ≠ _))

/-- Kernel data up to the end of the directory is bound to itself. -/
def KernelBound (s : State) (a : Space) : Prop :=
  ∀ q, q.toNat < s.kernelPageDirectory.toNat + 8192 →
    ∃ b, a.bindings ((q + s.dataBase) / pageSize) = some b ∧ b.frame = (q + s.dataBase) / pageSize

def WindowReachable (s : State) : Prop :=
  s.pageTablesRelVirtAddr.toNat + 0x400000 ≤ s.segmentsInfo.dataSegment.limit.toNat + 1

def Reachable (s : State) (a : Space) : Prop :=
  s.pagingEnabled = true → KernelBound s a ∧ WindowReachable s

/-- A span without a page table can get one. -/
def Coverable (s : State) (a : Space) (lin : U32int) : Prop :=
  tableIndex lin ∉ a.covered → ∃ p s', s.allocDataPage = .ok (p, s') ∧ p ≠ null

def Permitted : Call → State → Space → Prop
  | .mmap segment v _ _ _, s, a =>
    Outside a (v + segment.base) ∧ Reachable s a ∧ Coverable s a (v + segment.base)
  | .munmap segment v, s, a => Outside a (v + segment.base) ∧ Reachable s a
  | .enablePaging, _, _ => True

def mappings : Interface State Space Call Bool Trap := ⟨call, spec, Permitted⟩

/-- Right after `init_paging_tables` only the window has a table. -/
def Opens (s0 s : State) (a : Space) : Prop :=
  s = s0 ∧ a = Space.opening (windowIndexOf s0)

/-- What the processor makes of a linear address, starting at the directory. -/
def translation (s : State) (lin : U32int) : Option Binding :=
  (walk s.memory (dirRoot s) lin).map fun e => ⟨e.address.setWidth 32, e.rw, e.user⟩

/-- The tables hold the address space. -/
structure Holds (s : State) (t : TableMap) (a : Space) : Prop where
  tables : Tables s t
  accounted : Accounted s t
  cr3 : s.pagingEnabled = true → s.cr3 = dirRoot s
  window : windowIndexOf s = a.window
  covered : ∀ i, i.toNat < 1024 → (i ∈ a.covered ↔ (t i).isSome = true)
  translates : ∀ lin, Outside a lin → translation s lin = a.bindings (lin / pageSize)

section

variable {s : State} {t : TableMap} {a : Space}

theorem translation_ptEntry (rw user : Bool) (p : U32int) :
    (visible (ptEntry true rw user p)).map
      (fun e => (⟨e.address.setWidth 32, e.rw, e.user⟩ : Binding)) =
          some ⟨p / pageSize, rw, user⟩ := by
  have hframe : (p.extractLsb' 12 20).setWidth 32 = p / pageSize := by
    have hp := p.isLt
    apply BitVec.eq_of_toNat_eq
    rw [BitVec.toNat_setWidth, BitVec.extractLsb'_toNat, BitVec.toNat_udiv,
      show pageSize.toNat = 4096 from rfl, Nat.shiftRight_eq_div_pow]
    omega
  change some (Binding.mk ((p.extractLsb' 12 20).setWidth 32) rw user) = _
  rw [hframe]

/-- A bound kernel page is one the kernel can reach. -/
theorem Holds.kernelMapped (h : Holds s t a) (hr : s.pagingEnabled = true → KernelBound s a) :
    KernelMapped s t where
  cr3 := h.cr3
  kernel := fun hp q hq => by
    obtain ⟨b, hb, hf⟩ := hr hp q hq
    have hne := kernel_index_ne h.tables.toLayout hq
    rw [h.window] at hne
    have htr := h.translates (q + s.dataBase) hne
    rw [hb, translation, h.tables.walk_eq] at htr
    cases ht : t (tableIndex (q + s.dataBase)) with
    | none =>
      rw [ht] at htr
      cases htr
    | some p =>
      rw [ht, Option.bind_some] at htr
      refine ⟨p, rfl, ?_⟩
      generalize entryAt s.data (p + 4 * pageIndex (q + s.dataBase)) = e at htr ⊢
      cases he : e.present with
      | false =>
        rw [visible, he] at htr
        cases htr
      | true =>
        rw [visible, he, if_pos rfl, Option.map_some] at htr
        have hframe : e.address.setWidth 32 = (q + s.dataBase) / pageSize := by
          rw [← hf, ← Option.some.inj htr]
        refine ⟨he, ?_⟩
        rw [PagingEntry.frame, hframe]

theorem Holds.live (h : Holds s t a) (hr : Reachable s a) : Live s t where
  toWindowMode := ⟨h.cr3, fun hp => (hr hp).2⟩
  kernel := (h.kernelMapped fun hp => (hr hp).1).kernel

theorem Holds.coverable (h : Holds s t a) {lin : U32int} (hc : Coverable s a lin) :
    TableAvailable s t lin := by
  intro ht
  refine hc fun hmem => ?_
  rw [h.covered _ (tableIndex_lt lin), ht] at hmem
  cases hmem

/-- The globals are those of the state before. -/
theorem Sets.globals {lin : U32int} {e : PagingEntry} {s' : State} {t' : TableMap}
    (hs : Sets s t lin e s' t') : dirRoot s' = dirRoot s ∧ windowIndexOf s' = windowIndexOf s ∧
      s'.pagingEnabled = s.pagingEnabled ∧ s'.cr3 = s.cr3 := by
  rw [hs.only_data]
  exact ⟨rfl, rfl, rfl, rfl⟩

/-- One entry set is one binding changed. -/
theorem Holds.of_sets (h : Holds s t a) {lin : U32int} {e : PagingEntry} {s' : State}
    {t' : TableMap} (hs : Sets s t lin e s' t') {a' : Space} (hwindow : a'.window = a.window)
    (hbind : a'.bindings = Function.update a.bindings (lin / pageSize)
      ((visible e).map fun e => ⟨e.address.setWidth 32, e.rw, e.user⟩))
    (hcov : ∀ i, i ∈ a'.covered ↔ i = tableIndex lin ∨ i ∈ a.covered) : Holds s' t' a' := by
  obtain ⟨hroot, hwin, hpg, hcr⟩ := Sets.globals hs
  refine ⟨hs.tables, hs.accounted, ?_, ?_, ?_, ?_⟩
  · rw [hpg, hcr, hroot]
    exact h.cr3
  · rw [hwin, hwindow]
    exact h.window
  · intro i hi
    rw [hcov i]
    by_cases hidx : i = tableIndex lin
    · subst hidx
      simp only [true_or, hs.covers]
    · rw [hs.other i hidx, ← h.covered i hi]
      simp only [hidx, false_or]
  · intro l hl
    rw [Outside, hwindow] at hl
    rw [translation, hroot, hs.walk_eq l (by rwa [h.window]), hbind]
    by_cases hpage : l / pageSize = lin / pageSize
    · rw [if_pos hpage, hpage, Function.update_self]
    · rw [if_neg hpage, Function.update_of_ne hpage]
      exact h.translates l hl

theorem Holds.mmap (h : Holds s t a) (segment : Segment) (v : U32int)
    (ho : Outside a (v + segment.base)) (hr : Reachable s a)
    (hc : Coverable s a (v + segment.base)) (p : U32int) (rw user : Bool) :
    ∃ s' t', s.mmap segment v p rw user = .ok (true, s') ∧ s' = s.withData s'.data ∧
      Holds s' t' (a.map (v + segment.base) ⟨(p + segment.base) / pageSize, rw, user⟩) := by
  obtain ⟨s', t', hcall, hs⟩ := mmap_sets h.tables (h.live hr) h.accounted (by rwa [h.window])
    (h.coverable hc) p rw user
  refine ⟨s', t', hcall, hs.only_data, h.of_sets hs rfl ?_ fun i => Finset.mem_insert⟩
  rw [translation_ptEntry]
  rfl

/-- Without a table there is nothing to remove. -/
theorem Holds.unmap_absent (h : Holds s t a) {lin : U32int} (ho : Outside a lin)
    (ht : t (tableIndex lin) = none) : Holds s t (a.unmap lin) where
  tables := h.tables
  accounted := h.accounted
  cr3 := h.cr3
  window := h.window
  covered := h.covered
  translates := fun l hl => by
    rw [h.translates l hl]
    change _ = Function.update a.bindings (lin / pageSize) none (l / pageSize)
    by_cases hpage : l / pageSize = lin / pageSize
    · have hnone := h.translates lin ho
      rw [translation, h.tables.walk_eq, ht, Option.bind_none, Option.map_none] at hnone
      rw [hpage, Function.update_self, ← hnone]
    · rw [Function.update_of_ne hpage]

theorem Holds.munmap (h : Holds s t a) (segment : Segment) (v : U32int)
    (ho : Outside a (v + segment.base)) (hr : Reachable s a) :
    ∃ s', s.munmap segment v = .ok (decide (tableIndex (v + segment.base) ∈ a.covered), s') ∧
      s' = s.withData s'.data ∧ Holds s' t (a.unmap (v + segment.base)) := by
  have hl := h.live hr
  have hcov := h.covered _ (tableIndex_lt (v + segment.base))
  cases ht : t (tableIndex (v + segment.base)) with
  | none =>
    rw [ht] at hcov
    refine ⟨s, ?_, (State.withData_self s).symm, h.unmap_absent ho ht⟩
    rw [munmap_of_absent h.tables hl ht, decide_eq_false fun hm => by cases hcov.mp hm]
  | some p =>
    rw [ht] at hcov
    have hmem := hcov.mpr rfl
    have hs := sets_of_present h.tables h.accounted ht (by rwa [h.window])
      (ptEntry false false false 0)
    refine ⟨_, ?_, hs.only_data, h.of_sets hs rfl rfl fun i => ?_⟩
    · rw [munmap_of_present h.tables hl ht, decide_eq_true hmem]
    · constructor
      · exact Or.inr
      · intro h
        rcases h with rfl | hi
        · exact hmem
        · exact hi

/-- Loading CR3 leaves memory alone. -/
theorem Holds.enablePaging (h : Holds s t a) :
    Holds (s.switchPageDirectory s.kernelPageDirectory) t a where
  tables := ⟨⟨⟨h.tables.base_aligned, h.tables.dir_aligned, h.tables.dir_end, h.tables.window_start,
    h.tables.window_above, h.tables.bitmap_size, h.tables.bitmap_end⟩, h.tables.pde_some,
    h.tables.pde_none, h.tables.window, h.tables.window_some,
    fun i p hp => ⟨(h.tables.page i p hp).aligned, (h.tables.page i p hp).above,
      (h.tables.page i p hp).inside⟩, h.tables.inj⟩, h.tables.ptr⟩
  accounted := ⟨h.accounted.kernel, h.accounted.table⟩
  cr3 := fun _ => rfl
  window := h.window
  covered := h.covered
  translates := h.translates

/-- Page tables simulate the address space. -/
theorem mappings_simulate {s0 : State} {t0 : TableMap}
    (h0 : Holds s0 t0 (Space.opening (windowIndexOf s0))) :
    Simulation mappings (Opens s0) fun s a => ∃ t, Holds s t a where
  start := by
    rintro s a ⟨rfl, rfl⟩
    exact ⟨t0, h0⟩
  step := by
    rintro i s a ⟨t, h⟩ hp
    cases i with
    | mmap segment v p rw user =>
      obtain ⟨ho, hr, hc⟩ := hp
      obtain ⟨s', t', hcall, -, h'⟩ := h.mmap _ _ ho hr hc p rw user
      exact ⟨s', hcall, t', h'⟩
    | munmap segment v =>
      obtain ⟨ho, hr⟩ := hp
      obtain ⟨s', hcall, -, h'⟩ := h.munmap _ _ ho hr
      exact ⟨s', hcall, t, h'⟩
    | enablePaging => exact ⟨_, rfl, t, h.enablePaging⟩

end

/-- `init_paging_tables` opens an empty address space. -/
theorem boot_holds {s0 : State} {n : Nat} (h : Placeable s0 n) :
    Holds (bootState s0 n) (bootTables s0 n) (Space.opening (windowIndexOf (bootState s0 n))) where
  tables := boot_tables h
  accounted := boot_accounted h
  cr3 := fun hp => by
    have hoff : s0.pagingEnabled = true := hp
    rw [h.disabled] at hoff
    cases hoff
  window := rfl
  covered := fun i _ => by
    rw [bootState, windowIndexOf_boot h, Space.opening, Finset.mem_singleton, bootTables]
    by_cases hi : i = bootIndex s0 n
    · simp only [hi, Function.update_self, Option.isSome_some]
    · simp only [hi, Function.update_of_ne hi, Option.isSome_none, Bool.false_eq_true]
  translates := fun lin hlin => by
    rw [translation, boot_walk h hlin, Option.map_none, Space.opening]

/-- On a machine that can hold the window, every history of permitted calls leaves
the processor with the bindings made and not removed since, and a page table over
exactly the spans that ever had a binding. The next permitted call returns and
answers as specified: `munmap` TRUE if a page table covers its page. -/
theorem mappings_follow_calls {s0 s1 s : State} {n : Nat} {a : Space} (h : Placeable s0 n)
    (hinit : s0.initPagingTables = .ok s1) (hr : Run mappings (Opens s1) s a) :
    (∀ lin, Outside a lin → translation s lin = a.bindings (lin / pageSize)) ∧
    (∀ i, i.toNat < 1024 → (i ∈ a.covered ↔ (entryAt s.data (pdCell s i)).present = true)) ∧
    ∀ c, Permitted c s a → ∃ s', call c s = .ok ((spec c a).1, s') ∧
      Run mappings (Opens s1) s' (spec c a).2 := by
  rw [initPagingTables_eq h.toBootReady] at hinit
  cases hinit
  have hsim := mappings_simulate (boot_holds h)
  obtain ⟨t, ht⟩ := hsim.run hr
  refine ⟨ht.translates, fun i hi => ?_, fun c hc => hsim.next hr hc⟩
  rw [ht.covered i hi]
  cases hti : t i with
  | none => simp only [ht.tables.pde_none i hi hti, Option.isSome_none]
  | some p => simp only [(ht.tables.pde_some i p hi hti).present, Option.isSome_some]

/-- The conditions without those on kernel data and the window. -/
def Unguarded : Call → State → Space → Prop
  | .mmap segment v _ _ _, s, a => Outside a (v + segment.base) ∧ Coverable s a (v + segment.base)
  | .munmap segment v, _, a => Outside a (v + segment.base)
  | .enablePaging, _, _ => True

def anyMappings : Interface State Space Call Bool Trap := { mappings with permitted := Unguarded }

theorem unguarded_of_permitted (c : Call) (s : State) (a : Space) (h : Permitted c s a) :
    Unguarded c s a := by
  cases c with
  | mmap segment v p rw user => exact ⟨h.1, h.2.2⟩
  | munmap segment v => exact h.1
  | enablePaging => trivial

section

variable {s : State} {t : TableMap} {a : Space}

/-- An offset whose page is unbound faults once paging is on. -/
theorem Holds.dataAddr_unbound (h : Holds s t a) (hp : s.pagingEnabled = true) {q : U32int}
    (hq : q ≤ s.segmentsInfo.dataSegment.limit) (ho : Outside a (q + s.dataBase))
    (hb : a.bindings ((q + s.dataBase) / pageSize) = none) :
    s.dataAddr q = .error (.pageFault (q + s.dataBase)) := by
  have htr := h.translates _ ho
  rw [hb, translation, Option.map_eq_none_iff, ← h.cr3 hp] at htr
  have hbase : s.segmentsInfo.dataSegment.base = s.dataBase := rfl
  simp only [State.dataAddr, State.segAddr, hq, if_true, State.translate, hp, hbase, htr]

theorem Holds.mmap_faults (h : Holds s t a) (hp : s.pagingEnabled = true) (segment : Segment)
    (v : U32int) {i q : U32int} (hi : tableIndex (v + segment.base) = i) (hc : ptrCell s i = q)
    (hq : q ≤ s.segmentsInfo.dataSegment.limit) (ho : Outside a (q + s.dataBase))
    (hb : a.bindings ((q + s.dataBase) / pageSize) = none) (p : U32int) (rw user : Bool) :
    s.mmap segment v p rw user = .error (.pageFault (q + s.dataBase)) := by
  subst hi hc
  have hload : s.load32 (s.kernelPageDirectory + tableSize + 4 * tableIndex
      (v + segment.base)) = _ :=
    (congrArg (· >>= _) (h.dataAddr_unbound hp hq ho hb)).trans (error_bind _ _)
  simp only [State.mmap, State.getPtEntry, tableIndex_eq, State.pageTablePtr, hload, error_bind]

/-- An entry in a window page above the limit cannot be written. -/
theorem Holds.mmap_exceeds (h : Holds s t a) (hp : s.pagingEnabled = true) (hk : KernelBound s a)
    (segment : Segment) (v : U32int) {i e : U32int} (hi : tableIndex (v + segment.base) = i)
    (hc : i ∈ a.covered) (he : s.pageTablesRelVirtAddr + i * pageSize +
      4 * pageIndex (v + segment.base) = e) (hnull : s.pageTablesRelVirtAddr + i * pageSize ≠ null)
    (hlimit : ¬ e ≤ s.segmentsInfo.dataSegment.limit) (p : U32int) (rw user : Bool) :
    s.mmap segment v p rw user = .error .generalProtection := by
  subst hi he
  have hlt := tableIndex_lt (v + segment.base)
  have hptr := pageTablePtr_eq h.tables (h.kernelMapped fun _ => hk) hlt
  rw [if_pos ((h.covered _ hlt).mp hc)] at hptr
  have hnz : s.pageTablesRelVirtAddr + tableIndex (v + segment.base) * pageSize +
      4 * pageIndex (v + segment.base) ≠ null := by
    intro hz
    rw [hz] at hlimit
    exact hlimit (Nat.zero_le _)
  have hbase : s.tableBase s.kernelPageDirectory (tableIndex (v + segment.base)) = _ :=
    (if_pos hp).trans hptr
  have hpage : (v + segment.base) / pageSize % 1024 = pageIndex (v + segment.base) := rfl
  have hstore : ∀ w, s.store32 (s.pageTablesRelVirtAddr + tableIndex (v + segment.base) * pageSize +
      4 * pageIndex (v + segment.base)) w = .error .generalProtection := fun w => by
    simp only [State.store32, State.dataAddr, State.segAddr, hlimit, if_false, error_bind]
  simp only [State.mmap, State.getPtEntry, tableIndex_eq, hptr, ok_bind, ne_eq, hnull,
    not_false_eq_true, if_true, hbase, hpage, pure_ok, hnz, State.setPtEntry, hstore, error_bind]

/-- The mappings of pages to themselves at the offsets `vs` from a base. -/
def Space.identity (base : U32int) (vs : List U32int) (a : Space) : Space :=
  vs.foldl (fun a v => a.map (v + base) ⟨(v + base) / pageSize, true, false⟩) a

theorem identity_bindings {base q : U32int} (vs : List U32int) {a : Space}
    (h : (∃ v ∈ vs, (v + base) / pageSize = q) ∨ a.bindings q = some ⟨q, true, false⟩) :
    (a.identity base vs).bindings q = some ⟨q, true, false⟩ := by
  induction vs generalizing a with
  | nil =>
    rcases h with ⟨v, hv, -⟩ | h
    · cases hv
    · exact h
  | cons v vs ih =>
    refine ih ?_
    by_cases hq : (v + base) / pageSize = q
    · right
      subst hq
      exact Function.update_self ..
    · rcases h with ⟨u, hu, he⟩ | h
      · rcases List.mem_cons.mp hu with rfl | hu
        · exact absurd he hq
        · exact Or.inl ⟨u, hu, he⟩
      · right
        exact (Function.update_of_ne (Ne.symm hq) _ _).trans h

/-- Before paging, pages under an existing table can be mapped in any number. -/
theorem run_identity {s0 : State} (segment : Segment) (vs : List U32int) {s : State} {t : TableMap}
    {a : Space} (h : Holds s t a) (hp : s.pagingEnabled = false) (hr : Run mappings (Opens s0) s a)
    (hv : ∀ v ∈ vs, Outside a (v + segment.base) ∧ tableIndex (v + segment.base) ∈ a.covered) :
    ∃ s' t', Holds s' t' (a.identity segment.base vs) ∧ s' = s.withData s'.data ∧
      Run mappings (Opens s0) s' (a.identity segment.base vs) := by
  induction vs generalizing s t a with
  | nil => exact ⟨s, t, h, (State.withData_self s).symm, hr⟩
  | cons v vs ih =>
    obtain ⟨ho, hcov⟩ := hv v List.mem_cons_self
    have hreach : Reachable s a := fun hon => by rw [hp] at hon; cases hon
    have hcoverable : Coverable s a (v + segment.base) := fun hn => absurd hcov hn
    obtain ⟨s1, t1, hcall, honly, h1⟩ := h.mmap segment v ho hreach hcoverable v true false
    have hperm : Permitted (.mmap segment v v true false) s a := ⟨ho, hreach, hcoverable⟩
    have hr1 := Run.call (I := mappings) (i := .mmap segment v v true false) hr hperm hcall
    have hp1 : s1.pagingEnabled = false := by
      rw [honly]
      exact hp
    obtain ⟨s', t', h', honly', hr'⟩ := ih h1 hp1 hr1 fun u hu => by
      obtain ⟨hou, hcu⟩ := hv u (List.mem_cons_of_mem _ hu)
      exact ⟨hou, Finset.mem_insert_of_mem hcu⟩
    refine ⟨s', t', h', ?_, hr'⟩
    rw [honly', honly, State.withData_data, State.withData_withData]

end

/-- A kernel of two pages of data, its bitmaps in pages 2 and 3 and the GDT and
IDT in pages 4 and 5. -/
def machine (base len : U32int) : State where
  memory := fun x => if x = base + 0x2000 then 0x1F else if x = base + 0x3000 then 0x3F
    else if x = base + 0x3000 + (len / pageSize - 1) / 8 then 0x80 else 0
  pagingEnabled := false
  cr3 := 0
  segmentsInfo := ⟨⟨base + len, len⟩, ⟨base, len⟩, ⟨videoBaseAddr, 0xFA0⟩, ⟨0, 0⟩⟩
  memoryBitmap := ⟨0x2000, 0x3000, len / pageSize, len / pageSize⟩
  memoryBitmapInitialized := true
  dataTopAddress := 0x4000
  kernelPageDirectory := 0
  pageTablesRelVirtAddr := 0
  heapStartRelVirtAddr := 0
  heapBrk := 0
  heapSize := 0
  moduleInfo := ⟨false, false, false, 0, 0, 0, 0, 0⟩

/-- 32 MiB and 1 MiB of data, a base inside a page, and one just below 4 GiB. -/
theorem machine_ready : ∀ s ∈ [machine 0x100000 0x2000000, machine 0x100000 0x100000,
    machine 0x100800 0x100000, machine 0xFFBF9000 0x100000], BootReady s 6 := by
  simp only [List.mem_cons, List.not_mem_nil, or_false]
  rintro s (rfl | rfl | rfl | rfl) <;>
    exact ⟨rfl, rfl, by decide, by decide, ⟨by decide, by decide⟩, by decide⟩

theorem machine_placeable : ∀ len ∈ [0x2000000, 0x100000], Placeable (machine 0x100000 len) 6 := by
  simp only [List.mem_cons, List.not_mem_nil, or_false]
  rintro len (rfl | rfl) <;>
    exact ⟨machine_ready _ (by simp), by decide, by decide⟩

theorem mappings_follow_calls_machine : ∃ s1 s2,
    (machine 0x100000 0x2000000).initPagingTables = .ok s1 ∧
    s1.mmap ⟨0x100000, 0x2000000⟩ 0xC00000 0x9000 true true = .ok (true, s2) ∧
    translation s2 0xD00000 = some ⟨0x109, true, true⟩ := by
  have h := machine_placeable 0x2000000 (by simp)
  have hinit := initPagingTables_eq h.toBootReady
  obtain ⟨-, -, hnext⟩ := mappings_follow_calls h hinit (Run.start ⟨rfl, rfl⟩)
  obtain ⟨s2, hcall, hr⟩ := hnext (.mmap ⟨0x100000, 0x2000000⟩ 0xC00000 0x9000 true true)
    ⟨by decide, fun hp => (by cases hp), fun _ => ⟨_, _, rfl, by decide⟩⟩
  obtain ⟨htr, -, -⟩ := mappings_follow_calls h hinit hr
  exact ⟨_, s2, hinit, hcall, (htr 0xD00000 (by decide)).trans (by decide)⟩

/-- Kernel data of these machines, in pages. -/
def machinePages : List U32int := [0x0, 0x1000, 0x2000, 0x3000, 0x4000, 0x5000, 0x6000, 0x7000]

/-- ... mapped to themselves. -/
def machineSpace : Space := (Space.opening 1).identity 0x100000 machinePages

theorem machineSpace_bindings {q : U32int} (hq : q.toNat < 0x8000) :
    machineSpace.bindings ((q + 0x100000) / pageSize) =
      some ⟨(q + 0x100000) / pageSize, true, false⟩ := by
  refine identity_bindings _ (Or.inl ⟨pageAt (q.toNat / 4096), ?_, ?_⟩)
  · have hpage : ∀ k < 8, pageAt k ∈ machinePages := by decide
    exact hpage _ (by omega)
  · apply BitVec.eq_of_toNat_eq
    rw [BitVec.toNat_udiv, BitVec.toNat_udiv, BitVec.toNat_add, BitVec.toNat_add, pageAt,
      BitVec.toNat_ofNat, show pageSize.toNat = 4096 from rfl,
      show (0x100000 : U32int).toNat = 0x100000 from rfl]
    omega

/-- The globals of these machines. -/
structure Booted (s : State) (len : U32int) : Prop where
  segment : s.segmentsInfo.dataSegment = ⟨0x100000, len⟩
  dir : s.kernelPageDirectory = 0x6000
  window : s.pageTablesRelVirtAddr = 0x300000

section

variable {s : State} {len : U32int}

theorem Booted.base (h : Booted s len) : s.dataBase = 0x100000 := congrArg Segment.base h.segment

theorem Booted.withData (h : Booted s len) (m : Memory) : Booted (s.withData m) len :=
  ⟨h.segment, h.dir, h.window⟩

theorem Booted.kernelBound (h : Booted s len) : KernelBound s machineSpace := by
  intro q hq
  rw [h.dir] at hq
  rw [h.base]
  exact ⟨_, machineSpace_bindings hq, rfl⟩

theorem booted_bootAt (hw : bootWindow (machine 0x100000 len) 6 = 0x300000) (m : Memory) :
    Booted (bootAt (machine 0x100000 len) 6 m) len where
  segment := rfl
  dir := by
    change bootDir 6 = 0x6000
    decide
  window := hw

theorem machine_window (hlen : len ∈ [0x2000000, 0x100000]) :
    bootIndex (machine 0x100000 len) 6 = 1 ∧ bootWindow (machine 0x100000 len) 6 = 0x300000 := by
  have hpl := machine_placeable len hlen
  have hbase : (machine 0x100000 len).dataBase.toNat = 0x100000 := rfl
  have hidx : bootIndex (machine 0x100000 len) 6 = 1 := by
    apply BitVec.eq_of_toNat_eq
    rw [bootIndex_toNat hpl, hbase]
    rfl
  have hwin := bootWindow_toNat hpl
  rw [hidx, hbase] at hwin
  refine ⟨hidx, BitVec.eq_of_toNat_eq ?_⟩
  have hone : (1 : U32int).toNat = 1 := rfl
  have hval : (0x300000 : U32int).toNat = 0x300000 := rfl
  omega

/-- Both machines come up with kernel data mapped and paging on. -/
theorem machine_boots (hlen : len ∈ [0x2000000, 0x100000]) :
    ∃ s t, Holds s t machineSpace ∧ s.pagingEnabled = true ∧ Booted s len ∧
      Run mappings (Opens (bootState (machine 0x100000 len) 6)) s machineSpace := by
  have h := boot_holds (machine_placeable len hlen)
  have hopen : Opens (bootState (machine 0x100000 len) 6) (bootState (machine 0x100000 len) 6)
      (Space.opening (windowIndexOf (bootState (machine 0x100000 len) 6))) := ⟨rfl, rfl⟩
  have hr := Run.start (I := mappings) hopen
  obtain ⟨hidx, hwindow⟩ := machine_window hlen
  have hwin : windowIndexOf (bootState (machine 0x100000 len) 6) = 1 :=
    (windowIndexOf_boot (machine_placeable len hlen) _).trans hidx
  rw [hwin] at h hr
  have hreach : Reachable (bootState (machine 0x100000 len) 6) (Space.opening 1) := fun hp => by
    cases hp
  have hout : Outside (Space.opening 1) (0 + 0x100000) := by decide
  have hcov : Coverable (bootState (machine 0x100000 len) 6) (Space.opening 1) (0 + 0x100000) := by
    simp only [List.mem_cons, List.not_mem_nil, or_false] at hlen
    intro _
    rcases hlen with rfl | rfl <;> exact ⟨_, _, rfl, by decide⟩
  obtain ⟨s1, t1, hcall, honly, h1⟩ := h.mmap ⟨0x100000, len⟩ 0 hout hreach hcov
    0 true false
  have hperm : Permitted (.mmap ⟨0x100000, len⟩ 0 0 true false) (bootState (machine 0x100000 len) 6)
      (Space.opening 1) := ⟨hout, hreach, hcov⟩
  have hr1 := Run.call (I := mappings) (i := .mmap ⟨0x100000, len⟩ 0 0 true false) hr hperm hcall
  have hcovered : ∀ v ∈ machinePages.tail,
      Outside ((Space.opening 1).map (0 + 0x100000) ⟨(0 + 0x100000) / pageSize, true, false⟩)
        (v + 0x100000) ∧
      tableIndex (v + 0x100000) ∈ ((Space.opening 1).map (0 + 0x100000)
        ⟨(0 + 0x100000) / pageSize, true, false⟩).covered := by
    simp only [machinePages, List.tail_cons, List.forall_mem_cons]
    refine ⟨?_, ?_, ?_, ?_, ?_, ?_, ?_, fun v hv => (by cases hv)⟩ <;> decide
  obtain ⟨s2, t2, h2, honly2, hr2⟩ := run_identity ⟨0x100000, len⟩
    machinePages.tail h1 (by rw [honly]; rfl) hr1 hcovered
  have hglobals : Booted (bootState (machine 0x100000 len) 6) len := booted_bootAt hwindow _
  have hglobals2 : Booted s2 len := by
    rw [honly2, honly]
    exact (hglobals.withData _).withData _
  have hr3 := Run.call (I := mappings) (i := .enablePaging) hr2 trivial rfl
  exact ⟨_, t2, h2.enablePaging, rfl, ⟨hglobals2.segment, hglobals2.dir, hglobals2.window⟩, hr3⟩

/-- With the window above the limit the first call that needs it ends in a `#GP`. -/
theorem machine_exceeds : ∃ s a,
    Run anyMappings (Opens (bootState (machine 0x100000 0x100000) 6)) s a ∧
    ∃ c, Unguarded c s a ∧ call c s = .error .generalProtection := by
  obtain ⟨s, t, h, hon, hs, hr⟩ :=
    machine_boots (by simp : (0x100000 : U32int) ∈ [0x2000000, 0x100000])
  have hcov : tableIndex (0x9000 + 0x100000) ∈ machineSpace.covered := by decide
  refine ⟨s, machineSpace, hr.weaken unguarded_of_permitted,
    .mmap ⟨0x100000, 0x100000⟩ 0x9000 0x9000 true false, ⟨by decide, fun hn => absurd hcov hn⟩, ?_⟩
  have hlimit : ¬ (0x300424 : U32int) ≤ (⟨0x100000, 0x100000⟩ : Segment).limit := by decide
  exact h.mmap_exceeds hon hs.kernelBound ⟨0x100000, 0x100000⟩ 0x9000
    (i := 0) (e := 0x300424) (by decide) (by decide) (by rw [hs.window]; decide)
    (by rw [hs.window]; decide) (by rw [hs.segment]; exact hlimit) _ _ _

/-- Once the second page of the directory is unmapped, every call that comes to
the pointer array faults. -/
theorem machine_faults : ∃ s a,
    Run anyMappings (Opens (bootState (machine 0x100000 0x2000000) 6)) s a ∧
    ∃ c, Unguarded c s a ∧ call c s = .error (.pageFault 0x107000) := by
  obtain ⟨s, t, h, hon, hs, hr⟩ :=
    machine_boots (by simp : (0x2000000 : U32int) ∈ [0x2000000, 0x100000])
  have hreach : Reachable s machineSpace := fun _ => by
    refine ⟨hs.kernelBound, ?_⟩
    rw [WindowReachable, hs.window, hs.segment]
    decide
  obtain ⟨s', hcall, honly, h'⟩ := h.munmap ⟨0x100000, 0x2000000⟩ 0x7000
    (by decide) hreach
  have hr' := Run.call (I := mappings) (i := .munmap ⟨0x100000, 0x2000000⟩ 0x7000) hr
    ⟨by decide, hreach⟩ hcall
  have hs' : Booted s' 0x2000000 := by
    rw [honly]
    exact hs.withData _
  have hon' : s'.pagingEnabled = true := by
    rw [honly]
    exact hon
  have hcov : tableIndex (0x9000 + 0x100000) ∈ machineSpace.covered := by decide
  refine ⟨s', _, hr'.weaken unguarded_of_permitted,
    .mmap ⟨0x100000, 0x2000000⟩ 0x9000 0x9000 true false, ⟨by decide, fun hn => absurd hcov hn⟩, ?_⟩
  have hcell : ptrCell s' 0 = 0x7000 := by
    rw [ptrCell, hs'.dir]
    decide
  have hlimit : (0x7000 : U32int) ≤ (⟨0x100000, 0x2000000⟩ : Segment).limit := by decide
  have hfault := h'.mmap_faults hon' ⟨0x100000, 0x2000000⟩ 0x9000
    (i := 0) (by decide) hcell (by rw [hs'.segment]; exact hlimit) (by rw [hs'.base]; decide)
    (by rw [hs'.base]; decide) 0x9000 true false
  rw [hs'.base] at hfault
  exact hfault

end

/-- Without the four conditions the tables do not follow the calls: a base inside
a page binds a page before any call, a window at 4 GiB or above the limit ends the
call in a `#GP`, and unmapped kernel data in a page fault. -/
theorem mappings_not_followed :
    (∃ s, (machine 0x100800 0x100000).initPagingTables = .ok s ∧
      Outside (Space.opening (windowIndexOf s)) 0x80601000 ∧ translation s 0x80601000 ≠ none) ∧
    (∃ s c, (machine 0xFFBF9000 0x100000).initPagingTables = .ok s ∧
      Unguarded c s (Space.opening (windowIndexOf s)) ∧ call c s = .error .generalProtection) ∧
    (∃ s1 s a c, (machine 0x100000 0x100000).initPagingTables = .ok s1 ∧
      Run anyMappings (Opens s1) s a ∧ Unguarded c s a ∧ call c s = .error .generalProtection) ∧
    (∃ s1 s a c, (machine 0x100000 0x2000000).initPagingTables = .ok s1 ∧
      Run anyMappings (Opens s1) s a ∧ Unguarded c s a ∧
          call c s = .error (.pageFault 0x107000)) := by
  have hready := fun s hs => initPagingTables_eq (machine_ready s hs)
  refine ⟨⟨_, hready _ (by simp), by decide, by decide +kernel⟩,
    ⟨_, .mmap ⟨0xFFBF9000, 0x100000⟩ 0x807000 0x9000 true false, hready _ (by simp),
      ⟨by decide, fun _ => ⟨_, _, rfl, by decide⟩⟩, rfl⟩, ?_, ?_⟩
  · obtain ⟨s, a, hr, c, hc, hcall⟩ := machine_exceeds
    exact ⟨_, s, a, c, hready _ (by simp), hr, hc, hcall⟩
  · obtain ⟨s, a, hr, c, hc, hcall⟩ := machine_faults
    exact ⟨_, s, a, c, hready _ (by simp), hr, hc, hcall⟩

end SimpleOs.Audit.AddressSpace
