import SimpleOs.Audit.AddressSpace
import SimpleOs.Audit.PageSupply

/-!
# The books of the kernel

Translation and allocation rest on kernel data up to the end of the directory and
on the pages of the tables. Whatever is written elsewhere leaves both as they are,
and `mmap` writes nowhere else.
-/

namespace SimpleOs.Audit.Bookkeeping

open SimpleOs.Kernel SimpleOs.Lib SimpleOs.Lib.ByteMemory SimpleOs.Audit.PageTables
open SimpleOs.Audit.KernelAccess SimpleOs.Audit.MapCalls SimpleOs.Audit.PagingBoot
open SimpleOs.Audit.AddressSpace SimpleOs.Audit.PageSupply
open SimpleOs.Kernel.State (markUsed)
open SimpleOs.Lib.PackedBits (bit byteAt freeList)

/-- Offsets in the data segment that are kernel data or in the page of a table. -/
def Books (s : State) (t : TableMap) (y : U32int) : Prop :=
  y.toNat < s.kernelPageDirectory.toNat + 8192 ∨ ∃ i p, t i = some p ∧ (y - p).toNat < 4096

section

variable {s : State} {t : TableMap} {a : Space} {m : Memory} {y : U32int}

theorem books_withData {m : Memory} {y : U32int} : Books (s.withData m) t y ↔ Books s t y := Iff.rfl

theorem Books.lt (h : Walks s t) (hy : Books s t y) : y.toNat < 4096 * segmentPages s := by
  have hend := h.dir_end
  rcases hy with hlow | ⟨i, p, hp, hin⟩
  · omega
  · have hinside := (h.page i p hp).inside
    have hlen := segmentPages_le s
    bv_omega

theorem Books.mono {t' : TableMap} (h : ∀ i p, t i = some p → t' i = some p) (hy : Books s t y) :
    Books s t' y := by
  rcases hy with hlow | ⟨i, p, hp, hin⟩
  · exact .inl hlow
  · exact .inr ⟨i, p, h i p hp, hin⟩

/-- A word of kernel data. -/
theorem read32_kernel (h : Layout s) (hm : ∀ y, Books s t y → m y = s.data y) {c : U32int}
    (hc : c.toNat + 4 ≤ s.kernelPageDirectory.toNat + 8192) : read32 m c = read32 s.data c := by
  have hend := h.dir_end
  have hlen := segmentPages_le s
  apply read32_congr
  intro k hk
  exact hm _ (.inl (by bv_omega))

/-- An entry of a table. -/
theorem read32_table (hm : ∀ y, Books s t y → m y = s.data y) {i p j : U32int} (hp : t i = some p)
    (hj : j.toNat < 1024) : read32 m (p + 4 * j) = read32 s.data (p + 4 * j) := by
  apply read32_congr
  intro k hk
  refine hm _ (.inr ⟨i, p, hp, ?_⟩)
  bv_omega

theorem tables_of_books (h : Tables s t) (hm : ∀ y, Books s t y → m y = s.data y) :
    Tables (s.withData m) t := by
  refine h.withData (fun i hi => ?_) (fun i hi => ?_) fun w hw i hi _ => read32_table hm hw hi
  · have hc := h.pdCell_toNat hi
    exact read32_kernel h.toLayout hm (by omega)
  · have hc := h.ptrCell_toNat hi
    exact read32_kernel h.toLayout hm (by omega)

theorem sameBelow_of_books (hm : ∀ y, Books s t y → m y = s.data y) : SameBelow s s.data m :=
  fun x hx => hm x (.inl (by omega))

/-- Only the entries of the tables outside the window say what is bound. -/
theorem holds_withTables (h : Holds s t a) (ht : Tables (s.withData m) t)
    (hacc : Accounted (s.withData m) t)
    (hm : ∀ i p j, i ≠ windowIndexOf s → t i = some p → j.toNat < 1024 →
      read32 m (p + 4 * j) = read32 s.data (p + 4 * j)) : Holds (s.withData m) t a where
  tables := ht
  accounted := hacc
  cr3 := h.cr3
  window := h.window
  covered := h.covered
  translates := fun lin hlin => by
    have hwalk' := ht.walk_eq lin
    rw [State.withData_data] at hwalk'
    rw [← h.translates lin hlin, translation, translation, h.tables.walk_eq]
    refine (congrArg _ hwalk').trans ?_
    cases hq : t (tableIndex lin) with
    | none => rfl
    | some q =>
      have hne : tableIndex lin ≠ windowIndexOf s := by
        rw [h.window]
        exact hlin
      rw [Option.bind_some, Option.bind_some, entryAt, hm _ q _ hne hq (pageIndex_lt lin), entryAt]

/-- Writing off the books leaves the address space alone. -/
theorem holds_withBooks (h : Holds s t a) (hm : ∀ y, Books s t y → m y = s.data y) :
    Holds (s.withData m) t a :=
  holds_withTables h (tables_of_books h.tables hm)
    (h.accounted.sameBelow h.tables (sameBelow_of_books hm))
    fun _ _ _ _ hp hj => read32_table hm hp hj

theorem dataFree_congr (h : Layout s) (hm : SameBelow s s.data m) :
    dataFree (s.withData m) = dataFree s := by
  rw [dataFree, State.withData_data]
  exact PackedBits.freeList_congr fun i hi => hm.bit h hi

theorem codeFree_congr (h : Layout s) (hs : Supply s) {m m' : Memory} (hm : SameBelow s m m') :
    codeFree (s.withData m') = codeFree (s.withData m) := by
  have hend := h.bitmap_end
  have hcend := hs.bitmap_end
  rw [codeFree, codeFree, State.withData_data, State.withData_data]
  refine PackedBits.freeList_congr fun i (hi : i < codePages s) => ?_
  have hbyte : (byteAt s.memoryBitmap.codeBitmap i).toNat < s.kernelPageDirectory.toNat := by
    rw [byteAt]
    bv_omega
  change bit m' s.memoryBitmap.codeBitmap i = bit m s.memoryBitmap.codeBitmap i
  rw [bit, hm _ hbyte, bit]

/-- A mapping that may have taken the first free page for a table. -/
structure MapEffect (s : State) (t : TableMap) (lin : U32int) (s' : State)
    (t' : TableMap) : Prop where
  frame : ∀ y, ¬ Books s t' y → s'.data y = s.data y
  supply : (t' = t ∧ dataFree s' = dataFree s) ∨ ∃ k rest, t (tableIndex lin) = none ∧
    dataFree s = k :: rest ∧ t' = Function.update t (tableIndex lin) (some (pageAt k)) ∧
    dataFree s' = rest
  codeFree : codeFree s' = codeFree s
  directory : ∀ i p, i.toNat < 1024 → t i = some p →
    read32 s'.data (pdCell s i) = read32 s.data (pdCell s i)

theorem MapEffect.grows {lin : U32int} {s' : State} {t' : TableMap} (he : MapEffect s t lin s' t')
    {i p : U32int} (hp : t i = some p) : t' i = some p := by
  obtain ⟨rfl, -⟩ | ⟨k, rest, ht, -, rfl, -⟩ := he.supply
  · exact hp
  · rw [Function.update_of_ne fun hi => by rw [hi, ht] at hp; cases hp]
    exact hp

/-- Another table is in a page that was free. -/
theorem MapEffect.table_cases {lin : U32int} {s' : State} {t' : TableMap}
    (he : MapEffect s t lin s' t')
    {i p : U32int} (hp : t' i = some p) : t i = some p ∨ ∃ k ∈ dataFree s, p = pageAt k := by
  obtain ⟨rfl, -⟩ | ⟨k, rest, -, hf, rfl, -⟩ := he.supply
  · exact .inl hp
  · obtain ⟨-, rfl⟩ | ⟨-, hp⟩ := update_some hp
    · exact .inr ⟨k, by rw [hf]; exact List.mem_cons_self, rfl⟩
    · exact .inl hp

theorem MapEffect.dataFree_suffix {lin : U32int} {s' : State} {t' : TableMap}
    (he : MapEffect s t lin s' t') : dataFree s' <:+ dataFree s := by
  obtain ⟨-, hsame⟩ | ⟨k, rest, -, hf, -, hrest⟩ := he.supply
  · rw [hsame]
  · rw [hf, hrest]
    exact List.suffix_cons k rest

theorem write_page_frame (m : Memory) {p i j : U32int} (hp : t i = some p) (hj : j.toNat < 1024)
    (v : U32int) (hy : ¬ Books s t y) : write32 m (p + 4 * j) v y = m y := by
  refine write32_of_far _ _ ?_
  by_contra hnear
  exact hy (.inr ⟨i, p, hp, by bv_omega⟩)

theorem write_kernel_frame (h : Layout s) (m : Memory) {c : U32int}
    (hc : c.toNat + 4 ≤ s.kernelPageDirectory.toNat + 8192) (v : U32int) (hy : ¬ Books s t y) :
    write32 m c v y = m y := by
  have hend := h.dir_end
  have hlen := segmentPages_le s
  refine write32_of_far _ _ ?_
  by_contra hnear
  exact hy (.inl (by bv_omega))

theorem fill_page_frame (m : Memory) {p i : U32int} (hp : t i = some p) (hy : ¬ Books s t y) :
    fill m p 4096 0 y = m y := by
  refine fill_of_le _ _ ?_
  by_contra hin
  exact hy (.inr ⟨i, p, hp, by omega⟩)

theorem marked_frame (h : Layout s) {k : Nat} (hk : k < segmentPages s) (hy : ¬ Books s t y) :
    marked s k y = s.data y := by
  have hend := h.bitmap_end
  have hdir := h.dir_end
  have hlen := segmentPages_le s
  refine bitmapOnly_marked h hk y ?_
  by_contra hin
  exact hy (.inl (by bv_omega))

/-- Writing an entry of a table leaves the directory alone. -/
theorem pdCell_page (h : Layout s) {p i j : U32int} (hp : IsTablePage s p) (hi : i.toNat < 1024)
    (hj : j.toNat < 1024) (m : Memory) (v : U32int) :
    read32 (write32 m (p + 4 * j) v) (pdCell s i) = read32 m (pdCell s i) := by
  have hc := h.pdCell_toNat hi
  have hcj := hp.cell_toNat hj
  have habove := hp.above
  have hpa := hp.aligned
  have hda := h.dir_aligned
  exact read32_write32_of_toNat_ne _ _ (by omega) (by omega) (by omega)

theorem effect_of_present (h : Tables s t) (hs : Supply s) {lin p : U32int}
    (ht : t (tableIndex lin) = some p) (e : PagingEntry) :
    MapEffect s t lin (s.withData (write32 s.data (p + 4 * pageIndex lin) e.toWord)) t where
  frame := fun y hy => by
    rw [State.withData_data]
    exact write_page_frame _ ht (pageIndex_lt lin) _ hy
  supply := .inl ⟨rfl, dataFree_congr h.toLayout
    (sameBelow_page (h.page _ p ht) _ (pageIndex_lt lin) _)⟩
  codeFree := by
    have hsame := sameBelow_page (h.page _ p ht) s.data (pageIndex_lt lin) e.toWord
    have hfree := codeFree_congr h.toLayout hs hsame
    rwa [State.withData_self] at hfree
  directory := fun i _ hi _ => by
    rw [State.withData_data]
    exact pdCell_page h.toLayout (h.page _ p ht) hi (pageIndex_lt lin) _ _

/-- Every write for a new table is in kernel data, in the window's table or in the new
page. -/
theorem created_frame (h : Tables s t) {w p i : U32int} (hw : t (windowIndexOf s) = some w)
    (hi : i.toNat < 1024) (ht : t i = none) {n : Nat} (hn : n < segmentPages s)
    (hy : ¬ Books s (Function.update t i (some p)) y) :
    created s (marked s n) w i p y = s.data y := by
  have hself : Function.update t i (some p) i = some p := Function.update_self ..
  have hne : windowIndexOf s ≠ i := by
    intro he
    subst he
    rw [ht] at hw
    cases hw
  have hwin : Function.update t i (some p) (windowIndexOf s) = some w := by
    rw [Function.update_of_ne hne]
    exact hw
  have hcp := h.ptrCell_toNat hi
  have hcd := h.pdCell_toNat hi
  rw [created, fill_page_frame _ hself hy, linked, linkWith, State.withData_data]
  have hdir := write_kernel_frame h.toLayout
    (write32 (write32 (marked s n) (w + 4 * i)
      (ptEntry true true false (s.dataBase + p)).toWord) (ptrCell s i)
      (s.pageTablesRelVirtAddr + i * pageSize)) (c := pdCell s i) (by omega)
    (ptEntry true true true (s.dataBase + p)).toWord hy
  have hptr := write_kernel_frame h.toLayout
    (write32 (marked s n) (w + 4 * i) (ptEntry true true false (s.dataBase + p)).toWord)
    (c := ptrCell s i) (by omega) (s.pageTablesRelVirtAddr + i * pageSize) hy
  refine hdir.trans (hptr.trans ?_)
  rw [write_page_frame _ hwin hi _ hy]
  exact marked_frame h.toLayout hn hy

theorem effect_of_absent (h : Tables s t) (hl : Live s t) (hs : Supply s) (hacc : Accounted s t)
    {lin w : U32int} (ht : t (tableIndex lin) = none) (hw : t (windowIndexOf s) = some w) {k : Nat}
    {rest : List Nat} (hf : dataFree s = k :: rest) (e : PagingEntry) :
    MapEffect s t lin (s.withData (write32 (created s (marked s k) w (tableIndex lin) (pageAt k))
      (pageAt k + 4 * pageIndex lin) e.toWord))
      (Function.update t (tableIndex lin) (some (pageAt k))) := by
  have hi := tableIndex_lt lin
  have hj := pageIndex_lt lin
  obtain ⟨htakes, hdata, hcode⟩ := allocDataPage_of_free h hl hs hf
  have hfresh := hacc.fresh h.toLayout htakes
  have hself : Function.update t (tableIndex lin) (some (pageAt k)) (tableIndex lin) =
      some (pageAt k) := Function.update_self ..
  have hsame : SameBelow s (marked s k)
      (write32 (created s (marked s k) w (tableIndex lin) (pageAt k))
      (pageAt k + 4 * pageIndex lin) e.toWord) :=
    (sameBelow_created h hw hi hfresh _).trans (sameBelow_page hfresh.toIsTablePage _ hj _)
  have hk := (PackedBits.freeList_head hf).1
  have hend := h.bitmap_end
  have hlen := segmentPages_le s
  have hdirEnd := h.dir_end
  have hbelow : BelowDir s (marked s k) := belowDir_marked (by omega) hk
  refine ⟨fun y hy => ?_, .inr ⟨k, rest, ht, hf, rfl, ?_⟩, ?_, fun i p hi' hp => ?_⟩
  · rw [State.withData_data, write_page_frame _ hself hj _ hy]
    exact created_frame h hw hi ht hk hy
  · rw [← hdata, dataFree, dataFree, State.withData_data, State.withData_data]
    exact PackedBits.freeList_congr fun i hi' => hsame.bit h.toLayout hi'
  · rw [codeFree_congr h.toLayout hs hsame, hcode]
  · have hne : i ≠ tableIndex lin := by
      intro he
      subst he
      rw [ht] at hp
      cases hp
    have hc := h.pdCell_toNat hi'
    have habove := hfresh.toIsTablePage.above
    have hinside := hfresh.toIsTablePage.inside
    have hlink : read32 (linked (s.withData (marked s k)) w (tableIndex lin) (pageAt k))
        (pdCell s i) = read32 (s.withData (marked s k)).data (pdCell s i) :=
      (linked_pdCell (hbelow.tables h) hw hi hi').trans (if_neg hne)
    have hmark : read32 (marked s k) (pdCell s i) = read32 s.data (pdCell s i) :=
      hbelow.read32 (by omega) (by omega)
    rw [State.withData_data, pdCell_page h.toLayout hfresh.toIsTablePage hi' hj, created,
      read32_fill_outside _ _ (by bv_omega) (by bv_omega), hlink, State.withData_data, hmark]

/-- The address space the tables hold, with the means to change it. -/
structure Ready (s : State) (t : TableMap) (a : Space) : Prop where
  holds : Holds s t a
  supply : Supply s
  reach : Reachable s a

theorem holds_belowDir (h : Holds s t a) (hm : BelowDir s m)
    (hbits : ∀ i < segmentPages s, bit s.data s.memoryBitmap.dataBitmap i = true →
      bit m s.memoryBitmap.dataBitmap i = true) : Holds (s.withData m) t a := by
  have hend := h.tables.dir_end
  have hlen := segmentPages_le s
  refine holds_withTables h (hm.tables h.tables)
    ⟨fun k hk => ?_, fun i p hp => ?_⟩ fun i p j _ hp hj => ?_
  · change 4096 * k < s.kernelPageDirectory.toNat + 8192 at hk
    rw [State.withData_data]
    exact hbits k (by omega) (h.accounted.kernel k hk)
  · have hin := (h.tables.page i p hp).inside
    rw [State.withData_data]
    exact hbits _ (by omega) (h.accounted.table i p hp)
  · have habove := (h.tables.page i p hp).above
    have hin := (h.tables.page i p hp).inside
    have hc := (h.tables.page i p hp).cell_toNat hj
    exact hm.read32 (by omega) (by omega)

theorem Ready.withBooks (h : Ready s t a) (hm : ∀ y, Books s t y → m y = s.data y) :
    Ready (s.withData m) t a := ⟨holds_withBooks h.holds hm, h.supply.withData m, h.reach⟩

/-- One free data page is taken. -/
structure DataTaken (s : State) (t : TableMap) (k : Nat) (rest : List Nat) (s' : State) : Prop where
  only_data : s' = s.withData s'.data
  frame : ∀ y, ¬ Books s t y → s'.data y = s.data y
  dataFree : dataFree s' = rest
  codeFree : codeFree s' = codeFree s
  fresh : Fresh s t (pageAt k)
  ne_null : pageAt k ≠ null

theorem Ready.allocDataPage (h : Ready s t a) {k : Nat} {rest : List Nat}
    (hf : dataFree s = k :: rest) :
    ∃ s', s.allocDataPage = .ok (pageAt k, s') ∧ Ready s' t a ∧ DataTaken s t k rest s' := by
  have ht := h.holds.tables
  obtain ⟨htakes, hdata, hcode⟩ := allocDataPage_of_free ht (h.holds.live h.reach) h.supply hf
  have hk := (PackedBits.freeList_head hf).1
  have hpage : (pageAt k).toNat = 4096 * k := pageAt_toNat hk
  have hbend := ht.bitmap_end
  have hend := ht.dir_end
  refine ⟨_, htakes.alloc, ⟨holds_belowDir h.holds ?_ fun i hi hb => ?_, h.supply.withData _,
    h.reach⟩, ⟨?_, fun y hy => ?_, hdata, hcode, h.holds.accounted.fresh ht.toLayout htakes,
      h.holds.accounted.ne_null htakes⟩⟩
  · exact belowDir_marked (by omega) hk
  · rw [htakes.bits i hi, hb, Bool.or_true]
  · rw [State.withData_data]
  · rw [State.withData_data]
    exact marked_frame ht.toLayout hk hy

/-- One free code page is taken. -/
structure CodeTaken (s : State) (t : TableMap) (rest : List Nat) (s' : State) : Prop where
  only_data : s' = s.withData s'.data
  frame : ∀ y, ¬ Books s t y → s'.data y = s.data y
  dataFree : dataFree s' = dataFree s
  codeFree : codeFree s' = rest

theorem Ready.allocCodePage (h : Ready s t a) {k : Nat} {rest : List Nat}
    (hf : codeFree s = k :: rest) :
    ∃ s', s.allocCodePage = .ok (pageAt k, s') ∧ Ready s' t a ∧ CodeTaken s t rest s' := by
  have ht := h.holds.tables
  obtain ⟨halloc, hcode, hbits⟩ := allocCodePage_of_free ht (h.holds.live h.reach) h.supply hf
  have hk := (PackedBits.freeList_head hf).1
  have hbend := ht.bitmap_end
  have hcend := h.supply.bitmap_end
  have hbelow : BelowDir s (markUsed s.data s.memoryBitmap.codeBitmap k) :=
    belowDir_marked (by omega) hk
  refine ⟨_, halloc, ⟨holds_belowDir h.holds hbelow fun i hi hb => ?_, h.supply.withData _,
    h.reach⟩, ⟨?_, fun y hy => ?_, ?_, hcode⟩⟩
  · rw [hbits i hi, hb]
  · rw [State.withData_data]
  · rw [State.withData_data]
    exact hbelow y (by
      by_contra hlow
      exact hy (.inl (by omega)))
  · rw [dataFree, State.withData_data]
    exact PackedBits.freeList_congr hbits

/-- A page of kernel data keeps its own frame. -/
def SparesKernel (s : State) (lin frame : U32int) : Prop :=
  ∀ q : U32int, q.toNat < s.kernelPageDirectory.toNat + 8192 →
    (q + s.dataBase) / pageSize = lin / pageSize → frame = lin / pageSize

theorem reachable_map (h : Reachable s a) {lin : U32int} {b : Binding}
    (hk : SparesKernel s lin b.frame) : Reachable s (a.map lin b) := by
  intro hp
  obtain ⟨hbound, hwin⟩ := h hp
  refine ⟨fun q hq => ?_, hwin⟩
  change ∃ c, Function.update a.bindings (lin / pageSize) (some b) _ = some c ∧ _
  by_cases hpage : (q + s.dataBase) / pageSize = lin / pageSize
  · rw [hpage, Function.update_self]
    exact ⟨b, rfl, hk q hq hpage⟩
  · rw [Function.update_of_ne hpage]
    exact hbound q hq

/-- With a page left for a missing table, `mmap` outside the window binds its page. -/
theorem Ready.mmap (h : Ready s t a) {segment : Segment} {v p : U32int} (rw user : Bool)
    (ho : Outside a (v + segment.base))
    (hfree : tableIndex (v + segment.base) ∉ a.covered → dataFree s ≠ [])
    (hk : SparesKernel s (v + segment.base) ((p + segment.base) / pageSize)) :
    ∃ s' t', s.mmap segment v p rw user = .ok (true, s') ∧ s' = s.withData s'.data ∧
      Ready s' t' (a.map (v + segment.base) ⟨(p + segment.base) / pageSize, rw, user⟩) ∧
      MapEffect s t (v + segment.base) s' t' := by
  have ht := h.holds.tables
  have hl := h.holds.live h.reach
  have hcov := h.holds.covered _ (tableIndex_lt (v + segment.base))
  have hne : tableIndex (v + segment.base) ≠ windowIndexOf s := by
    rw [h.holds.window]
    exact ho
  have hbind := translation_ptEntry rw user (p + segment.base)
  cases hti : t (tableIndex (v + segment.base)) with
  | some q =>
    have hsets := sets_of_present ht h.holds.accounted hti hne
      (ptEntry true rw user (p + segment.base))
    refine ⟨_, t, mmap_of_present ht hl hti p rw user, hsets.only_data,
      ⟨h.holds.of_sets hsets rfl ?_ fun i => Finset.mem_insert, h.supply.withData _,
        reachable_map h.reach hk⟩,
      effect_of_present ht h.supply hti _⟩
    rw [hbind]
    rfl
  | none =>
    rw [hti] at hcov
    obtain ⟨k, rest, hf⟩ := List.exists_cons_of_ne_nil (hfree fun hmem => by cases hcov.mp hmem)
    obtain ⟨w, hw⟩ := ht.window_some
    obtain ⟨htakes, -, -⟩ := allocDataPage_of_free ht hl h.supply hf
    have hfresh := h.holds.accounted.fresh ht.toLayout htakes
    have hsets := sets_of_absent ht hl h.holds.accounted hti htakes hw hne
      (ptEntry true rw user (p + segment.base))
    refine ⟨_, _, mmap_of_absent ht hl hti htakes hw hfresh p rw user, hsets.only_data,
      ⟨h.holds.of_sets hsets rfl ?_ fun i => Finset.mem_insert, h.supply.withData _,
        reachable_map h.reach hk⟩,
      effect_of_absent ht hl h.supply h.holds.accounted hti hw hf _⟩
    rw [hbind]
    rfl

/-- Below the directory at most the data bitmap differs. -/
def LowKept (s s' : State) : Prop :=
  ∀ y, y.toNat < s.kernelPageDirectory.toNat →
    (segmentPages s + 7) / 8 ≤ (y - s.memoryBitmap.dataBitmap).toNat → s'.data y = s.data y

theorem LowKept.trans {s' s'' : State} (h : LowKept s s') (honly : s' = s.withData s'.data)
    (h' : LowKept s' s'') : LowKept s s'' := by
  rw [honly] at h'
  intro y hy hb
  rw [h' y hy hb, State.withData_data]
  exact h y hy hb

theorem Ready.allocDataPage_low (h : Ready s t a) {k : Nat} {rest : List Nat}
    (hf : dataFree s = k :: rest)
    {p : U32int} {s' : State} (hcall : s.allocDataPage = .ok (p, s')) : LowKept s s' := by
  have ht := h.holds.tables
  obtain ⟨htakes, -, -⟩ := allocDataPage_of_free ht (h.holds.live h.reach) h.supply hf
  cases htakes.alloc.symm.trans hcall
  intro y _ hb
  rw [State.withData_data]
  exact bitmapOnly_marked ht.toLayout (PackedBits.freeList_head hf).1 y hb

/-- A page for a table is marked in the bitmap; everything else `mmap` writes is in the
directory and behind it. -/
theorem Ready.mmap_low (h : Ready s t a) {segment : Segment} {v p : U32int} {rw user b : Bool}
    {s' : State} (hfree : tableIndex (v + segment.base) ∉ a.covered → dataFree s ≠ [])
    (hcall : s.mmap segment v p rw user = .ok (b, s')) : LowKept s s' := by
  have ht := h.holds.tables
  have hl := h.holds.live h.reach
  have hj := pageIndex_lt (v + segment.base)
  have hcov := h.holds.covered _ (tableIndex_lt (v + segment.base))
  cases hti : t (tableIndex (v + segment.base)) with
  | some q =>
    cases (mmap_of_present ht hl hti p rw user).symm.trans hcall
    intro y hy _
    rw [State.withData_data]
    exact sameBelow_page (ht.page _ q hti) _ hj _ y hy
  | none =>
    rw [hti] at hcov
    obtain ⟨k, rest, hf⟩ := List.exists_cons_of_ne_nil (hfree fun hmem => by cases hcov.mp hmem)
    obtain ⟨w, hw⟩ := ht.window_some
    obtain ⟨htakes, -, -⟩ := allocDataPage_of_free ht hl h.supply hf
    have hfresh := h.holds.accounted.fresh ht.toLayout htakes
    cases (mmap_of_absent ht hl hti htakes hw hfresh p rw user).symm.trans hcall
    intro y hy hb
    rw [State.withData_data, sameBelow_page hfresh.toIsTablePage _ hj _ y hy,
      sameBelow_created ht hw (tableIndex_lt _) hfresh _ y hy]
    exact bitmapOnly_marked ht.toLayout (PackedBits.freeList_head hf).1 y hb

end

end SimpleOs.Audit.Bookkeeping
