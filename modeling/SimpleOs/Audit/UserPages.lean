import SimpleOs.Audit.KernelStart

/-!
# What user mode can reach

Nearly every table is open to user mode in the directory, so the page entries alone keep
the module away from the kernel. In every run the pages with the user bit are those the
loader mapped last, to the frames it took for them.
-/

namespace SimpleOs.Audit.UserPages

open SimpleOs.Kernel SimpleOs.Lib SimpleOs.Lib.ByteMemory SimpleOs.Audit.PageTables
open SimpleOs.Audit.PagingBoot SimpleOs.Audit.AddressSpace SimpleOs.Audit.PageSupply
open SimpleOs.Audit.Bookkeeping SimpleOs.Audit.LinearView SimpleOs.Audit.KernelBoot
open SimpleOs.Audit.HeapGrowth SimpleOs.Audit.PageCalls SimpleOs.Audit.KernelStart
open SimpleOs.Audit.ModuleHeader (linkedHeader)
open SimpleOs.Audit.BootRanges (pagingStart)
open SimpleOs.Audit.BitmapBoot (onesMachine)

/-- The page entry user mode gets to: the directory entry and the page entry are present
and have the user bit. -/
def userEntry (s : State) (lin : U32int) : Option PagingEntry :=
  let pde := PagingEntry.ofWord
    (read32 s.memory (s.cr3 / pageSize * pageSize + 4 * (lin / 0x400000)))
  if pde.user then (walk s.memory s.cr3 lin).filter (·.user) else none

section

variable {s : State} {t : TableMap} {a : Space} {lin : U32int} {e : PagingEntry}

theorem userEntry_eq (hl : Layout s) (hcr3 : s.cr3 = dirRoot s) (lin : U32int) : userEntry s lin =
    if (entryAt s.data (pdCell s (tableIndex lin))).user then (walk s.memory (dirRoot s) lin).filter
    (·.user) else none := by
  rw [userEntry, hcr3, hl.walk_pde]

/-- The window is closed to user mode; elsewhere a page it reaches is bound with the user bit. -/
theorem bound_of_userEntry (h : Holds s t a) (hon : s.pagingEnabled = true)
    (hsup : WindowSupervisor s) (he : userEntry s lin = some e) :
    Outside a lin ∧ a.bindings (lin / pageSize) = some ⟨e.address.setWidth 32, e.rw, true⟩ := by
  rw [userEntry_eq h.tables.toLayout (h.cr3 hon)] at he
  split_ifs at he with hpde
  obtain ⟨hwalk, huser⟩ := Option.filter_eq_some_iff.mp he
  have ho : Outside a lin := by
    intro hi
    rw [hi, ← h.window] at hpde
    rw [WindowSupervisor, hpde] at hsup
    cases hsup
  refine ⟨ho, ?_⟩
  rw [← h.translates lin ho, translation, hwalk, Option.map_some, huser]

/-- ... and the other way round. -/
theorem userEntry_of_bound (h : Holds s t a) (hon : s.pagingEnabled = true) (hu : TablesUser s t)
    (ho : Outside a lin) {b : Binding} (hb : a.bindings (lin / pageSize) = some b) (huser : b.user =
      true) : ∃ e, userEntry s lin = some e ∧ b = ⟨e.address.setWidth 32, e.rw, true⟩ := by
  have htr := h.translates lin ho
  rw [hb, translation] at htr
  obtain ⟨e, hwalk, rfl⟩ := Option.map_eq_some_iff.mp htr
  change e.user = true at huser
  have hpde : (entryAt s.data (pdCell s (tableIndex lin))).user = true := by
    cases ht : t (tableIndex lin) with
    | none =>
      rw [h.tables.walk_eq, ht] at hwalk
      cases hwalk
    | some p =>
      refine hu _ p (tableIndex_lt lin) ht ?_
      rw [h.window]
      exact ho
  refine ⟨e, ?_, by rw [huser]⟩
  rw [userEntry_eq h.tables.toLayout (h.cr3 hon), if_pos hpde, hwalk]
  exact Option.filter_eq_some_iff.mpr ⟨rfl, huser⟩

end

/-- A page bound for user mode was mapped by the loader, to a page it took. -/
def Logged (info : SegmentsInfo) (log : List (PageCall × U32int)) (a : Space) : Prop :=
  ∀ q b, a.bindings q = some b → b.user = true → ∃ c p, (c, p) ∈ log ∧ c.byModule = true ∧
    c.lin info / pageSize = q ∧ b = ⟨c.frame info p, !c.ofCode, true⟩

section

variable {header : ModuleHeader} {s0 s s1 s' : State} {t t' : TableMap} {a a' : Space}
  {c d : PageCall} {p q : U32int} {log : List (PageCall × U32int)}

theorem Logged.call (h : Logged s.segmentsInfo log a) (hm : Moved s t a c p s1 s' t' a') :
    Logged s.segmentsInfo ((c, p) :: log) a' := by
  have hold : ∀ q b, a.bindings q = some b → b.user = true → ∃ d r, (d, r) ∈ (c, p) :: log ∧
      d.byModule = true ∧ d.lin s.segmentsInfo / pageSize = q ∧
          b = ⟨d.frame s.segmentsInfo r, !d.ofCode, true⟩ := by
    intro q b hb huser
    obtain ⟨d, r, hmem, hrest⟩ := h q b hb huser
    exact ⟨d, r, List.mem_cons_of_mem _ hmem, hrest⟩
  intro q b hb huser
  obtain rfl | ⟨rfl, -⟩ := hm.space
  · obtain ⟨rfl, rfl⟩ | ⟨-, hb⟩ := update_some hb
    · change c.byModule = true at huser
      exact ⟨c, p, List.mem_cons_self, huser, rfl, by rw [huser]⟩
    · exact hold q b hb huser
  · exact hold q b hb huser

theorem Runs.logged (h0 : Running s0 s0 t a) (hlog : Logged s0.segmentsInfo [] a)
    (hr : Runs header s0 log s) : ∃ t a, Running s0 s t a ∧ Logged s0.segmentsInfo log a := by
  induction hr with
  | start => exact ⟨t, a, h0, hlog⟩
  | call _ hmod hdue htake hhad hcall ih =>
    obtain ⟨t1, a1, h1, hlog1⟩ := ih
    obtain ⟨t2, a2, h2, hmoved⟩ := h1.call hmod hdue htake hhad hcall
    rw [← h1.info] at hlog1 ⊢
    exact ⟨t2, a2, h2, Logged.call hlog1 hmoved⟩
  | work _ hw ih =>
    obtain ⟨t1, a1, h1, hlog1⟩ := ih
    exact ⟨t1, a1, h1.work hw, hlog1⟩

/-- Code pages lie in the code segment, the others in the data segment. -/
theorem code_data_ne (hl : Layout s) (ha : Apart s) (hc : Clear s c) (hcode : c.ofCode = false)
    (hd : Clear s d) (hdcode : d.ofCode = true) :
    d.lin s.segmentsInfo / pageSize ≠ c.lin s.segmentsInfo / pageSize := by
  have hcin := hc.inside
  have hdin := hd.inside
  have hcseg : c.segment s.segmentsInfo = s.segmentsInfo.dataSegment := by
    rw [PageCall.segment, hcode, if_neg Bool.false_ne_true]
  have hdseg : d.segment s.segmentsInfo = s.segmentsInfo.codeSegment := if_pos hdcode
  have hclin : (c.lin s.segmentsInfo).toNat =
      ((c.virt s.segmentsInfo).toNat + s.dataBase.toNat) % 2^32 := by
    rw [PageCall.lin, hcseg]
    exact BitVec.toNat_add ..
  have hdlin : (d.lin s.segmentsInfo).toNat =
      ((d.virt s.segmentsInfo).toNat + (codeBase s).toNat) % 2^32 := by
    rw [PageCall.lin, hdseg]
    exact BitVec.toNat_add ..
  have hbase := hl.base_aligned
  obtain ⟨hcalign, hcend, hdend, hdisj⟩ := ha
  rw [hcseg] at hcin
  rw [hdseg] at hdin
  rw [codePages] at hcend hdisj
  rw [segmentPages] at hdend hdisj
  intro he
  have hn := congrArg BitVec.toNat he
  rw [page_toNat, page_toNat, hclin, hdlin] at hn
  omega

end

section

variable {header : ModuleHeader} {s0 s : State} {t : TableMap} {a : Space} {lin : U32int}
  {e : PagingEntry} {log : List (PageCall × U32int)}

/-- From any running kernel that has opened no page to user mode yet. -/
theorem Runs.user_pages (h0 : Running s0 s0 t a)
    (hclosed : ∀ q b, a.bindings q = some b → b.user = false)
    (hr : Runs header s0 log s) (he : userEntry s lin = some e) :
    ∃ c p, (c, p) ∈ log ∧ c.byModule = true ∧ c.lin s0.segmentsInfo / pageSize = lin / pageSize ∧
      e.frame = c.frame s0.segmentsInfo p * pageSize ∧
      (e.rw = true → c.ofCode = false ∧ ∀ d q, (d, q) ∈ log → d.ofCode = true →
        d.lin s0.segmentsInfo / pageSize ≠ lin / pageSize) := by
  have hlog0 : Logged s0.segmentsInfo [] a := by
    intro q b hb huser
    rw [hclosed q b hb] at huser
    cases huser
  obtain ⟨t', a', hrun, hlog⟩ := Runs.logged h0 hlog0 hr
  obtain ⟨-, hb⟩ := bound_of_userEntry hrun.ready.holds hrun.on hrun.supervisor he
  obtain ⟨c, p, hmem, hc, hlin, heq⟩ := hlog _ _ hb rfl
  obtain ⟨hframe, hrwc, -⟩ := Binding.mk.inj heq
  refine ⟨c, p, hmem, hc, hlin, by rw [PagingEntry.frame, hframe], fun hrw => ?_⟩
  have hcode : c.ofCode = false := by
    rw [hrw] at hrwc
    simpa using hrwc.symm
  refine ⟨hcode, fun d q hdmem hd => ?_⟩
  have hl := hrun.ready.holds.tables.toLayout
  have hdm : d.byModule = true := by
    cases d with
    | moduleCode index => rfl
    | _ => cases hd
  have hne := code_data_ne hl hrun.room.apart (hrun.room.clear hl (hrun.info ▸ hr.ofModule hmem) hc)
    hcode (hrun.room.clear hl (hrun.info ▸ hr.ofModule hdmem) hdm) hd
  rw [hrun.info, hlin] at hne
  exact hne

end

/-- Whatever the heap, the page fault handler and the loader map, in whatever order: a page
user mode can reach was mapped by the loader, the frame behind it is one the loader took
for it, and a page it can write is a data or stack page and no code page. -/
theorem user_pages_loaded {p : SegmentsParameters} {s s0 s1 s2 : State}
    {n r : Nat} {I : Finset U32int}
    {header : ModuleHeader} {log : List (PageCall × U32int)} {lin : U32int} {e : PagingEntry}
    (h : Entered linkedImage p s) (hr : RangesApart (codeAndData p))
    (hstart : pagingStart linkedImage p s = .ok s0)
    (hb : Bootable linkedImage s0 n I r) (hinit : s0.initPaging linkedImage = .ok s1)
    (hruns : Runs header s1.initHeap log s2) (he : userEntry s2 lin = some e) :
    ∃ c q, (c, q) ∈ log ∧ c.byModule = true ∧ c.lin s1.segmentsInfo / pageSize = lin / pageSize ∧
      e.frame = c.frame s1.segmentsInfo q * pageSize ∧
      (e.rw = true → c.ofCode = false ∧ ∀ d q', (d, q') ∈ log → d.ofCode = true →
        d.lin s1.segmentsInfo / pageSize ≠ lin / pageSize) := by
  obtain ⟨t, a, h0, hmapped, -⟩ :=
    Bootable.running hb hinit (h.room linkedImage_compact hr hstart hb hinit)
  have hinfo := initHeap_info s1
  generalize s1.initHeap = s3 at h0 hruns hinfo
  rw [← hinfo]
  refine Runs.user_pages h0 (fun q b hq => ?_) hruns he
  rw [hmapped.bindings] at hq
  obtain ⟨rw, -, rfl⟩ := Option.map_eq_some_iff.mp hq
  rfl

/-- The stack page, mapped after a page of the heap and pages of the module's code and data. -/
theorem user_pages_loaded_handed : ∃ s1 s2 log q e,
    (described linkedImage handed (onesMachine 0)).initPaging linkedImage = .ok s1 ∧
    log.map Prod.fst = [.moduleData 0, .moduleCode 0, .heap 0x800000] ∧
    Runs linkedHeader s1.initHeap ((.moduleStack, q) :: log) s2 ∧ userEntry s2 0x13FE000 = some e ∧
    ∃ c q', (c, q') ∈ (.moduleStack, q) :: log ∧ c.byModule = true ∧
      c.lin s1.segmentsInfo / pageSize = 0x13FE ∧
          e.frame = c.frame s1.segmentsInfo q' * pageSize := by
  obtain ⟨s1, s2, log, q, t, a, hinit, hlog, hruns, hrun, hout, hb⟩ := handed_run
  obtain ⟨e, he, -⟩ := userEntry_of_bound hrun.ready.holds hrun.on hrun.user_tables hout hb rfl
  obtain ⟨c, q', hmem, hc, hlin, hframe, -⟩ :=
    user_pages_loaded handed_entered (codeAndData_apart handed_apart) handed_start
      handed_bootable hinit hruns he
  exact ⟨s1, s2, log, q, e, hinit, hlog, hruns, he, c, q', hmem, hc, hlin, hframe⟩

end SimpleOs.Audit.UserPages
