import SimpleOs.Audit.AddressSpace
import SimpleOs.Lib.Lookaside

/-!
# Translations the processor keeps

Nothing in the kernel invalidates a page, and CR3 is loaded once. The processor reads the
tables like any reader of a changing table; the calls of the address space are the
updates, and the load of CR3 is the only flush. The accesses the calls make themselves go
by the tables.
-/

namespace SimpleOs.Audit.StaleTranslation

open SimpleOs.Kernel SimpleOs.Audit.PageTables SimpleOs.Audit.KernelAccess
open SimpleOs.Audit.PagingBoot SimpleOs.Audit.AddressSpace
open SimpleOs.Lib.Refinement SimpleOs.Lib.Lookaside

/-- What the processor finds for a page. -/
def lookup (x : State × Space) (page : U32int) : Option Binding :=
  if x.1.pagingEnabled then
    (walk x.1.memory x.1.cr3 (page * pageSize)).map fun e => ⟨e.address.setWidth 32, e.rw, e.user⟩
  else none

def processor : Table (State × Space) U32int Binding Call where
  lookup := lookup
  next c x x' := Permitted c x.1 x.2 ∧ ∃ r, call c x.1 = .ok (r, x'.1) ∧ x'.2 = (spec c x.2).2
  flushes c := c = .enablePaging

/-- The page a call is about and what it is bound to afterwards. -/
def effect : Call → Option (U32int × Option Binding)
  | .mmap segment v p rw user =>
    some ((v + segment.base) / pageSize, some ⟨(p + segment.base) / pageSize, rw, user⟩)
  | .munmap segment v => some ((v + segment.base) / pageSize, none)
  | .enablePaging => none

/-- CR3 is not loaded and the page not bound so again. -/
def Spares (page : U32int) (b : Binding) (c : Call) (_ : State × Space) : Prop :=
  c ≠ .enablePaging ∧ effect c ≠ some (page, some b)

/-- With paging on a bound page stays bound as it is. -/
def Keeps (page : U32int) (c : Call) (x : State × Space) : Prop :=
  x.1.pagingEnabled = true → ∀ b o, x.2.bindings page = some b →
    effect c = some (page, o) → o = some b

/-- Every history, starting right after `init_paging_tables`. -/
def History (s1 : State) (ok : Call → State × Space → Prop) :
    List (Event U32int Binding Call) → Reader (State × Space) U32int Binding → Prop :=
  Path processor ok (.opening (s1, Space.opening (windowIndexOf s1)))

/-- The tables hold the address space, and the globals are those of `s1`. -/
structure Sound (s1 : State) (x : State × Space) : Prop where
  holds : ∃ t, Holds x.1 t x.2
  window : x.2.window = windowIndexOf s1
  directory : x.1.kernelPageDirectory = s1.kernelPageDirectory
  base : x.1.dataBase = s1.dataBase

section

variable {s1 : State} {x x' : State × Space} {c : Call} {lin : U32int} {b : Binding}

theorem page_lin (lin : U32int) : lin / pageSize * pageSize / pageSize = lin / pageSize := by
  have h := lin.isLt
  apply BitVec.eq_of_toNat_eq
  simp only [pageSize, bitvec_to_nat, Nat.reducePow, Nat.reduceMod]
  omega

theorem tableIndex_page (lin : U32int) :
    tableIndex (lin / pageSize * pageSize) = tableIndex lin := by
  have h := lin.isLt
  apply BitVec.eq_of_toNat_eq
  simp only [tableIndex, tableSpan, pageSize, bitvec_to_nat, Nat.reducePow, Nat.reduceMod,
    Nat.reduceMul]
  omega

/-- The processor finds what the address space binds. -/
theorem Sound.lookup_eq (h : Sound s1 x) (hon : x.1.pagingEnabled = true) (ho : Outside x.2 lin) :
    lookup x (lin / pageSize) = x.2.bindings (lin / pageSize) := by
  obtain ⟨t, ht⟩ := h.holds
  have htr := ht.translates (lin / pageSize * pageSize) (by rwa [Outside, tableIndex_page])
  rw [page_lin] at htr
  rw [lookup, if_pos hon, ht.cr3 hon]
  exact htr

theorem paging_of_lookup {page : U32int} (h : lookup x page = some b) :
    x.1.pagingEnabled = true := by
  rw [lookup] at h
  split_ifs at h with hon
  exact hon

theorem spec_window (c : Call) (a : Space) : (spec c a).2.window = a.window := by
  cases c <;> rfl

/-- A call changes the binding of its own page only. -/
theorem spec_bindings {page : U32int} (hother : ∀ o, effect c ≠ some (page, o)) (a : Space) :
    (spec c a).2.bindings page = a.bindings page := by
  cases c with
  | mmap segment v p rw user =>
    refine Function.update_of_ne (fun hp => ?_) _ _
    subst hp
    exact hother _ rfl
  | munmap segment v =>
    refine Function.update_of_ne (fun hp => ?_) _ _
    subst hp
    exact hother _ rfl
  | enablePaging => rfl

theorem spec_bindings_self {page : U32int} {o : Option Binding} (h : effect c = some (page, o))
    (a : Space) : (spec c a).2.bindings page = o := by
  cases c with
  | mmap segment v p rw user =>
    cases h
    exact Function.update_self ..
  | munmap segment v =>
    cases h
    exact Function.update_self ..
  | enablePaging => cases h

theorem globals_of_only_data {s s' : State} (honly : s' = s.withData s'.data) :
    s'.kernelPageDirectory = s.kernelPageDirectory ∧ s'.dataBase = s.dataBase ∧
      (s.pagingEnabled = true → s'.pagingEnabled = true) := by
  rw [honly]
  exact ⟨rfl, rfl, id⟩

/-- The calls leave the globals alone, and only the load of CR3 switches paging. -/
theorem next_globals (hn : processor.next c x x') (h : Sound s1 x) :
    x'.1.kernelPageDirectory = x.1.kernelPageDirectory ∧ x'.1.dataBase = x.1.dataBase ∧
      (x.1.pagingEnabled = true → x'.1.pagingEnabled = true) ∧
      ∃ t, Holds x'.1 t x'.2 := by
  obtain ⟨hperm, r, hcall, hspace⟩ := hn
  obtain ⟨t, ht⟩ := h.holds
  rw [hspace]
  cases c with
  | mmap segment v p rw user =>
    obtain ⟨ho, hreach, hcov⟩ := hperm
    obtain ⟨s', t', hok, honly, h'⟩ := ht.mmap segment v ho hreach hcov p rw user
    cases hok.symm.trans hcall
    obtain ⟨hdir, hbase, hon⟩ := globals_of_only_data honly
    exact ⟨hdir, hbase, hon, t', h'⟩
  | munmap segment v =>
    obtain ⟨ho, hreach⟩ := hperm
    obtain ⟨s', hok, honly, h'⟩ := ht.munmap segment v ho hreach
    cases hok.symm.trans hcall
    obtain ⟨hdir, hbase, hon⟩ := globals_of_only_data honly
    exact ⟨hdir, hbase, hon, t, h'⟩
  | enablePaging =>
    have hload : x'.1 = x.1.switchPageDirectory x.1.kernelPageDirectory :=
      (Prod.mk.inj (Except.ok.inj hcall)).2.symm
    rw [hload]
    exact ⟨rfl, rfl, fun _ => rfl, t, ht.enablePaging⟩

theorem Sound.next (hn : processor.next c x x') (h : Sound s1 x) : Sound s1 x' := by
  obtain ⟨hdir, hbase, -, ht⟩ := next_globals hn h
  refine ⟨ht, ?_, hdir.trans h.directory, hbase.trans h.base⟩
  rw [hn.2.choose_spec.2, spec_window]
  exact h.window

end

section

variable {s0 s1 : State} {n : Nat} {ok : Call → State × Space → Prop}
  {es : List (Event U32int Binding Call)} {m : Reader (State × Space) U32int Binding}

theorem opening_sound (h : Placeable s0 n) (hinit : s0.initPagingTables = .ok s1) :
    Sound s1 (s1, Space.opening (windowIndexOf s1)) := by
  rw [initPagingTables_eq h.toBootReady] at hinit
  cases hinit
  exact ⟨⟨_, boot_holds h⟩, rfl, rfl, rfl⟩

theorem opening_kept (s : State × Space) (page : U32int) (P : Binding → Prop) :
    ∀ b ∈ (Reader.opening s : Reader (State × Space) U32int Binding).kept page, P b :=
  fun b hb => absurd hb (Set.notMem_empty b)

theorem History.sound (h : Placeable s0 n) (hinit : s0.initPagingTables = .ok s1)
    (hr : History s1 ok es m) : Sound s1 m.state :=
  (Path.kept_inv (k := 0) (G := fun _ _ => True) (opening_sound h hinit) (opening_kept _ _ _)
    (fun _ _ _ hn hs => hs.next hn) (fun _ _ _ _ => trivial)
    (fun _ _ _ _ _ _ _ _ _ => trivial) hr).1

/-- What the processor finds for a page is bound by the last call about it. -/
theorem lookup_next {x x' : State × Space} {c : Call} (hs : Sound s1 x)
    (hon : x.1.pagingEnabled = true) (hn : processor.next c x x') {lin : U32int}
    (ho : tableIndex lin ≠ windowIndexOf s1) :
    (∀ o, effect c = some (lin / pageSize, o) → lookup x' (lin / pageSize) = o) ∧
    ((∀ o, effect c ≠ some (lin / pageSize, o)) →
      lookup x' (lin / pageSize) = lookup x (lin / pageSize)) := by
  have hs' := hs.next hn
  have hon' := (next_globals hn hs).2.2.1 hon
  have hspace : x'.2 = (spec c x.2).2 := hn.2.choose_spec.2
  have hout : Outside x.2 lin := by rwa [Outside, hs.window]
  have hout' : Outside x'.2 lin := by rwa [Outside, hs'.window]
  have hx := hs.lookup_eq hon hout
  have hx' := hs'.lookup_eq hon' hout'
  rw [hspace] at hx'
  refine ⟨fun o hc => hx'.trans (spec_bindings_self hc x.2), fun hother => ?_⟩
  rw [hx', hx, spec_bindings hother]

/-- After a call that took a binding away or changed it, nothing but what is kept can
bring it back. -/
theorem served_after {m m' m'' : Reader (State × Space) U32int Binding} (hs : Sound s1 m.state)
    {lin : U32int} (ho : tableIndex lin ≠ windowIndexOf s1) {b : Binding}
    (hb : lookup m.state (lin / pageSize) = some b) {c : Call} {o : Option Binding}
    (hc : effect c = some (lin / pageSize, o)) (hne : o ≠ some b)
    (hstep : Step processor m (.update c) m') {es' : List (Event U32int Binding Call)}
    (hlater : Path processor (Spares (lin / pageSize) b) m' es' m'') :
    Serves processor m'' (lin / pageSize) b ↔ b ∈ m.kept (lin / pageSize) := by
  have hon := paging_of_lookup hb
  have hn := update_next hstep
  have hlost : lookup m'.state (lin / pageSize) ≠ some b := by
    rw [(lookup_next hs hon hn ho).1 o hc]
    exact hne
  have hkept : b ∈ m'.kept (lin / pageSize) ↔ b ∈ m.kept (lin / pageSize) := by
    rw [update_kept hstep, and_iff_right]
    intro he
    subst he
    cases hc
  obtain ⟨-, habsent, hkept'⟩ := Path.kept_of_absent
    (J := fun x => Sound s1 x ∧ x.1.pagingEnabled = true)
    ⟨hs.next hn, (next_globals hn hs).2.2.1 hon⟩ hlost
    (fun _ _ _ hn hJ => ⟨hJ.1.next hn, (next_globals hn hJ.1).2.2.1 hJ.2⟩)
    (fun _ _ hok => hok.1)
    (fun i s s' hok hn hJ hmiss => by
      by_cases hother : ∀ o, effect i ≠ some (lin / pageSize, o)
      · rw [show processor.lookup s' _ = _ from (lookup_next hJ.1 hJ.2 hn ho).2 hother]
        exact hmiss
      · obtain ⟨o', ho'⟩ := not_forall_not.mp hother
        rw [show processor.lookup s' _ = _ from (lookup_next hJ.1 hJ.2 hn ho).1 o' ho']
        intro he
        subst he
        exact hok.2 ho')
    hlater
  rw [serves_iff, or_iff_right habsent, hkept', hkept]

/-- A page that stays bound as it is answers as the tables do. -/
theorem served_fresh {m₀ : Reader (State × Space) U32int Binding} (hs : Sound s1 m₀.state)
    {lin : U32int} (ho : tableIndex lin ≠ windowIndexOf s1)
    (hempty : ∀ b, b ∉ m₀.kept (lin / pageSize))
    (hr : Path processor (Keeps (lin / pageSize)) m₀ es m) {b : Binding} :
    Serves processor m (lin / pageSize) b ↔ lookup m.state (lin / pageSize) = some b := by
  have hfresh := (Path.kept_inv (J := Sound s1) (G := fun x b => lookup x (lin / pageSize) = some b)
    hs (fun b hb => absurd hb (hempty b)) (fun _ _ _ hn hs => hs.next hn) (fun _ _ _ h => h)
    (fun i x x' hok hn _ hs b hb => by
      have hon := paging_of_lookup hb
      by_cases hother : ∀ o, effect i ≠ some (lin / pageSize, o)
      · exact ((lookup_next hs hon hn ho).2 hother).trans hb
      · obtain ⟨o, hc⟩ := not_forall_not.mp hother
        rw [(lookup_next hs hon hn ho).1 o hc]
        refine hok hon b o ?_ hc
        rw [← hs.lookup_eq hon (by rwa [Outside, hs.window]), hb])
    hr).2
  rw [serves_iff]
  exact or_iff_left_of_imp (hfresh b)

/-- Before a call, what is kept of kernel data is where the tables have it. -/
theorem kernel_fresh {m₀ : Reader (State × Space) U32int Binding} (hs : Sound s1 m₀.state)
    {q : U32int} (hq : q.toNat < s1.kernelPageDirectory.toNat + 8192)
    (hempty : ∀ b, b ∉ m₀.kept ((q + s1.dataBase) / pageSize))
    (hr : Path processor ok m₀ es m) (hbound : KernelBound m.state.1 m.state.2) {b : Binding}
    (hb : Serves processor m ((q + s1.dataBase) / pageSize) b) :
    b.frame = (q + s1.dataBase) / pageSize := by
  have hfound : ∀ (x : State × Space) (b : Binding), Sound s1 x →
      lookup x ((q + s1.dataBase) / pageSize) = some b → KernelBound x.1 x.2 →
      b.frame = (q + s1.dataBase) / pageSize := by
    intro x b hs hb hk
    obtain ⟨t, ht⟩ := hs.holds
    rw [← hs.directory] at hq
    obtain ⟨b', hb', hframe⟩ := hk q hq
    have hne := kernel_index_ne ht.tables.toLayout hq
    rw [ht.window] at hne
    rw [← hs.base] at hb ⊢
    rw [hs.lookup_eq (paging_of_lookup hb) hne, hb'] at hb
    rw [← Option.some.inj hb, hframe]
  obtain ⟨hsound, hkept⟩ := Path.kept_inv (k := (q + s1.dataBase) / pageSize) (J := Sound s1)
    (G := fun x b => x.1.pagingEnabled = true ∧
      (KernelBound x.1 x.2 → b.frame = (q + s1.dataBase) / pageSize))
    hs (fun b hb => absurd hb (hempty b)) (fun _ _ _ hn hs => hs.next hn)
    (fun x b hs hb => ⟨paging_of_lookup hb, hfound x b hs hb⟩)
    (fun i x x' _ hn hflush hs b hG => by
      -- the call itself needed kernel data in place
      have hreach : Reachable x.1 x.2 := by
        obtain ⟨hperm, -⟩ := hn
        cases i with
        | mmap segment v p rw user => exact hperm.2.1
        | munmap segment v => exact hperm.2
        | enablePaging => exact absurd rfl hflush
      exact ⟨(next_globals hn hs).2.2.1 hG.1, fun _ => hG.2 (hreach hG.1).1⟩)
    hr
  rcases serves_iff.mp hb with h | h
  · exact hfound _ b hsound h hbound
  · exact (hkept b h).2 hbound

/-- A history of calls is one in which nothing was accessed. -/
theorem run_history {s : State} {a : Space} (hr : Run mappings (Opens s1) s a) :
    ∃ es, History s1 (fun _ _ => True) es (.opening (s, a)) := by
  induction hr with
  | start h =>
    obtain ⟨rfl, rfl⟩ := h
    exact ⟨[], .refl⟩
  | @call s s' a c w _ hperm hcall ih =>
    obtain ⟨es, hes⟩ := ih
    have hn : processor.next c (s, a) (s', (spec c a).2) := ⟨hperm, w, hcall, rfl⟩
    refine ⟨.update c :: es, .step hes (fun _ _ => trivial) ?_⟩
    by_cases hf : processor.flushes c
    · exact .flush hn hf
    · exact .update hn hf

end

/-- An answer the page had before a call took it away or changed it, and no later call
brought back, is given from then on if and only if an access before that call was
answered so; a page no call took away or changed answers as the tables do; and where a
call may be made, kernel data is where the tables have it. -/
theorem stale_iff_used {s0 s1 : State} {n : Nat} (h : Placeable s0 n)
    (hinit : s0.initPagingTables = .ok s1) {lin : U32int}
    (ho : Outside (Space.opening (windowIndexOf s1)) lin) :
    (∀ es m, History s1 (fun _ _ => True) es m → ∀ b c o m' es' m'',
      lookup m.state (lin / pageSize) = some b → effect c = some (lin / pageSize, o) →
      o ≠ some b → Step processor m (.update c) m' →
      Path processor (Spares (lin / pageSize) b) m' es' m'' →
      (Serves processor m'' (lin / pageSize) b ↔ UsedSince processor es (lin / pageSize) b)) ∧
    (∀ es m, History s1 (Keeps (lin / pageSize)) es m → ∀ b,
      Serves processor m (lin / pageSize) b ↔ lookup m.state (lin / pageSize) = some b) ∧
    ∀ es m, History s1 (fun _ _ => True) es m → KernelBound m.state.1 m.state.2 →
      ∀ q, q.toNat < s1.kernelPageDirectory.toNat + 8192 →
      ∀ b, Serves processor m ((q + s1.dataBase) / pageSize) b →
        b.frame = (q + s1.dataBase) / pageSize := by
  have hopen := opening_sound h hinit
  refine ⟨fun es m hr b c o m' es' m'' hb hc hne hstep hlater => ?_, fun es m hr b => ?_,
    fun es m hr hbound q hq b hb => ?_⟩
  · rw [served_after (hr.sound h hinit) ho hb hc hne hstep hlater]
    exact Path.kept_iff hr
  · exact served_fresh hopen ho (fun b => Set.notMem_empty b) hr
  · exact kernel_fresh hopen hq (fun b => Set.notMem_empty b) hr hbound hb

/-- The page at 0x109000 is bound to itself and read. -/
def used : Binding := ⟨0x109, true, false⟩

/-- The calls that take the page away and that bind it to the next frame. -/
def removals : List Call :=
  [.munmap ⟨0x100000, 0x2000000⟩ 0x9000, .mmap ⟨0x100000, 0x2000000⟩ 0x9000 0xA000 true false]

/-- The address space with the page bound. -/
def usedSpace : Space := machineSpace.map (0x9000 + 0x100000) used

theorem usedSpace_kernelBound {s : State} {len : U32int} (hs : Booted s len) :
    KernelBound s usedSpace := by
  intro q hq
  rw [hs.dir] at hq
  rw [hs.base]
  have hlt : q.toNat < 0x8000 := hq.trans_le (by decide)
  clear hq
  have hne : (q + 0x100000) / pageSize ≠ (0x9000 + 0x100000) / pageSize := by
    intro hpage
    have hnat := congrArg BitVec.toNat hpage
    rw [BitVec.toNat_udiv, BitVec.toNat_udiv, BitVec.toNat_add,
      show pageSize.toNat = 4096 from rfl, show (0x100000 : U32int).toNat = 0x100000 from rfl,
      show (0x9000 + 0x100000 : U32int).toNat = 0x109000 from rfl] at hnat
    omega
  refine ⟨⟨(q + 0x100000) / pageSize, true, false⟩, ?_, rfl⟩
  rw [usedSpace, map_bindings_of_ne _ _ hne, machineSpace_bindings hlt]

theorem machine_used : ∃ s1 es m, (machine 0x100000 0x2000000).initPagingTables = .ok s1 ∧
    windowIndexOf s1 = 1 ∧ History s1 (fun _ _ => True) es m ∧
    lookup m.state (0x109000 / pageSize) = some used ∧
    UsedSince processor es (0x109000 / pageSize) used ∧
    ∀ c ∈ removals, ∃ m', Step processor m (.update c) m' := by
  have hplace : Placeable (machine 0x100000 0x2000000) 6 := machine_placeable _ (by simp)
  have hinit := initPagingTables_eq hplace.toBootReady
  obtain ⟨s, t, h, hon, hs, hr⟩ :=
    machine_boots (by simp : (0x2000000 : U32int) ∈ [0x2000000, 0x100000])
  have hwin : windowIndexOf (bootState (machine 0x100000 0x2000000) 6) = 1 :=
    (windowIndexOf_boot hplace _).trans (machine_window (by simp)).1
  have hreachable : ∀ (s : State) (a : Space), Booted s 0x2000000 →
      KernelBound s a → Reachable s a := by
    intro s a hs hk _
    refine ⟨hk, ?_⟩
    rw [WindowReachable, hs.window, hs.segment]
    decide
  obtain ⟨es, hes⟩ := run_history hr
  -- the page is bound
  have hcov : tableIndex (0x9000 + 0x100000) ∈ machineSpace.covered := by decide
  have hperm : Permitted (.mmap ⟨0x100000, 0x2000000⟩ 0x9000 0x9000 true false) s machineSpace :=
    ⟨by decide, hreachable s _ hs hs.kernelBound, fun hn => absurd hcov hn⟩
  obtain ⟨s2, t2, hcall, honly, h2⟩ := h.mmap ⟨0x100000, 0x2000000⟩ 0x9000 hperm.1 hperm.2.1
    hperm.2.2 0x9000 true false
  have hs2 : Booted s2 0x2000000 := by
    rw [honly]
    exact hs.withData _
  have hmapped : History (bootState (machine 0x100000 0x2000000) 6) (fun _ _ => True) _
      (.opening (s2, usedSpace)) :=
    .step hes (fun _ _ => trivial) (.update ⟨hperm, _, hcall, rfl⟩ fun hf => by cases hf)
  -- ... and read
  have hout : Outside usedSpace 0x109000 := by decide
  have hbind : usedSpace.bindings (0x109000 / pageSize) = some used := by decide
  have hon2 : s2.pagingEnabled = true := by
    rw [honly]
    exact hon
  have hlook : lookup (s2, usedSpace) (0x109000 / pageSize) = some used :=
    ((hmapped.sound hplace hinit).lookup_eq hon2 hout).trans hbind
  have hread := Path.step hmapped
    (fun i hi => by cases hi) (.found (k := 0x109000 / pageSize) hlook)
  refine ⟨_, _, _, hinit, hwin, hread, hlook, .inl ⟨rfl, rfl⟩, ?_⟩
  have hreach2 := hreachable s2 usedSpace hs2 (usedSpace_kernelBound hs2)
  simp only [removals, List.forall_mem_cons]
  refine ⟨?_, ?_, fun c hc => by cases hc⟩
  · obtain ⟨s3, hcall3, -, -⟩ := h2.munmap ⟨0x100000, 0x2000000⟩ 0x9000 (by decide) hreach2
    have hnext : processor.next (.munmap ⟨0x100000, 0x2000000⟩ 0x9000) (s2, usedSpace)
        (s3, (spec (.munmap ⟨0x100000, 0x2000000⟩ 0x9000) usedSpace).2) :=
      ⟨⟨hout, hreach2⟩, _, hcall3, rfl⟩
    exact ⟨_, .update hnext fun hf => by cases hf⟩
  · have hcov2 : tableIndex (0x9000 + 0x100000) ∈ usedSpace.covered := by decide
    obtain ⟨s3, t3, hcall3, -, -⟩ := h2.mmap ⟨0x100000, 0x2000000⟩ 0x9000 (by decide) hreach2
      (fun hn => absurd hcov2 hn) 0xA000 true false
    have hnext : processor.next (.mmap ⟨0x100000, 0x2000000⟩ 0x9000 0xA000 true false)
        (s2, usedSpace)
        (s3, (spec (.mmap ⟨0x100000, 0x2000000⟩ 0x9000 0xA000 true false) usedSpace).2) :=
      ⟨⟨hout, hreach2, fun hn => absurd hcov2 hn⟩, _, hcall3, rfl⟩
    exact ⟨_, .update hnext fun hf => by cases hf⟩

theorem removals_effect : ∀ c ∈ removals, ∃ o,
    effect c = some (0x109000 / pageSize, o) ∧ o ≠ some used := by
  simp only [removals, List.forall_mem_cons]
  exact ⟨⟨none, by decide, by decide⟩, ⟨some ⟨0x10A, true, false⟩, by decide, by decide⟩,
    fun c hc => by cases hc⟩

theorem machine_outside {s1 : State} (hwin : windowIndexOf s1 = 1) :
    Outside (Space.opening (windowIndexOf s1)) 0x109000 := by
  rw [hwin]
  decide

/-- After the `munmap` the page is still served as before. -/
theorem stale_iff_used_machine : ∃ s1 es m m', History s1 (fun _ _ => True) es m ∧
    Step processor m (.update (.munmap ⟨0x100000, 0x2000000⟩ 0x9000)) m' ∧
    Serves processor m' (0x109000 / pageSize) used := by
  have hc : Call.munmap ⟨0x100000, 0x2000000⟩ 0x9000 ∈ removals := List.mem_cons_self
  obtain ⟨s1, es, m, hinit, hwin, hr, hlook, hused, hsteps⟩ := machine_used
  obtain ⟨m', hstep⟩ := hsteps _ hc
  obtain ⟨o, heff, hne⟩ := removals_effect _ hc
  have hstale := (stale_iff_used (machine_placeable _ (by simp)) hinit (machine_outside hwin)).1
  exact ⟨s1, es, m, m', hr, hstep,
    (hstale es m hr used _ o m' [] m' hlook heff hne hstep .refl).mpr hused⟩

/-- Neither removing a page nor binding it anew stops its old translation. -/
theorem removed_page_served : ¬ ∃ c ∈ removals, (∀ (s0 s1 : State) (n : Nat) (lin : U32int),
    Placeable s0 n → s0.initPagingTables = .ok s1 → Outside (Space.opening (windowIndexOf s1)) lin →
    ∀ es m, History s1 (fun _ _ => True) es m → ∀ b o m' es' m'',
      lookup m.state (lin / pageSize) = some b → effect c = some (lin / pageSize, o) →
      o ≠ some b → Step processor m (.update c) m' →
      Path processor (Spares (lin / pageSize) b) m' es' m'' →
      ¬ Serves processor m'' (lin / pageSize) b) := by
  intro h
  obtain ⟨c, hc, hall⟩ := h
  obtain ⟨s1, es, m, hinit, hwin, hr, hlook, hused, hsteps⟩ := machine_used
  obtain ⟨m', hstep⟩ := hsteps c hc
  obtain ⟨o, heff, hne⟩ := removals_effect c hc
  have hkept : used ∈ m.kept (0x109000 / pageSize) :=
    (Path.kept_iff hr).mpr hused
  have hload : c ≠ .enablePaging := by
    intro he
    subst he
    cases heff
  refine hall _ s1 _ 0x109000 (machine_placeable 0x2000000 (by simp)) hinit (machine_outside hwin)
    es m hr used o m' [] m' hlook heff hne hstep .refl (serves_iff.mpr (.inr ?_))
  exact (update_kept hstep).mpr ⟨hload, hkept⟩

end SimpleOs.Audit.StaleTranslation
