import SimpleOs.Audit.SlabIndex

/-!
# Pages of cells

A page keeps its free cells on a stack and stands in the list of its bin as long as it
has any. A cell is popped or pushed, a page enters or leaves the list, and a new page is
cut into cells.
-/

namespace SimpleOs.Audit.SlabCells

open SimpleOs.Kernel SimpleOs.Lib.WordProgram SimpleOs.Lib.LinkedList SimpleOs.Lib.SkipList
open SimpleOs.Audit.SlabHeap SimpleOs.Audit.SlabIndex

section

variable {g : SlabStatics} {b : Bounds} {h h' : Heap} {A : Arena} {bins : U32int → List U32int}
  {levels : Nat → List U32int} {top : Nat} {p q x i c : U32int}
    {free free' l : List U32int} {S : Set U32int}

/-- Words of a bin: the head of its list and a page. -/
def BinWords (g : SlabStatics) (i p : U32int) : Set U32int :=
  { x | x = g.bin i ∨ p.toNat ≤ x.toNat ∧ x.toNat < p.toNat + 4096 }

/-- A page that is one of the bin's, or that nobody has. -/
structure BinPage (A : Arena) (i p : U32int) : Prop where
  cells : ∀ c, A p = some c → ∃ free, c = .cells i free
  alone : ∀ q x, Owns A q x → p.toNat ≤ x.toNat → x.toNat < p.toNat + 4096 → q = p

theorem in_page (hp : A p = some (.cells i free)) (ho : Owns A p x) :
    p.toNat ≤ x.toNat ∧ x.toNat < p.toNat + 4096 := by
  obtain ⟨c, hc, hlow, hhigh⟩ := ho
  obtain rfl := Option.some.inj (hp.symm.trans hc)
  exact ⟨hlow, hhigh⟩

theorem binPage_of_cells (hA : ArenaAt b h A)
    (hp : A p = some (.cells i free)) : BinPage A i p where
  cells := fun _ hc => ⟨free, Option.some.inj (hc.symm.trans hp)⟩
  alone := fun _ _ ho hlow hhigh => hA.owner_unique ho ⟨_, hp, hlow, hhigh⟩

/-- Nobody has a page behind the break. -/
theorem binPage_of_brk (hA : ArenaAt b h A) (hp : h.brk.toNat ≤ p.toNat) : BinPage A i p where
  cells := fun c hc => by
    have := hA.page_below hc
    omega
  alone := fun q x ⟨c, hq, _, hx⟩ hlow _ => by
    have := hA.below q c hq
    omega

theorem next_owned (hs : Stands g b h A bins) (hp : A p = some (.cells i free)) : Owns A p p := by
  simpa using hs.arena.owns_offset hp (k := 0) (by decide)

theorem bin_ne_owned (hs : Stands g b h A bins) (hi : i < bigBin)
    (ho : Owns A q x) : x ≠ g.bin i := by
  rintro rfl
  have := hs.arena.owned_above ho
  have := (hs.bin_static hi).1
  omega

/-- What the other chunks keep is not written. -/
theorem binWords_other (hs : Stands g b h A bins) (hi : i < bigBin) (hbp : BinPage A i p)
    (hqp : q ≠ p) (ho : Owns A q x) : x ∉ BinWords g i p := by
  rintro (he | ⟨hlow, hhigh⟩)
  · exact bin_ne_owned hs hi ho he
  · exact hqp (hbp.alone q x ho hlow hhigh)

theorem static_not_bin (hstart : b.start ≤ p.toNat) (hx : x.toNat < b.start) (hne : x ≠ g.bin i) :
    x ∉ BinWords g i p := by
  rintro (he | ⟨hlow, -⟩)
  · exact hne he
  · omega

theorem newest_not_bin (hs : Stands g b h A bins) (hi : i < bigBin) (hstart : b.start ≤ p.toNat) :
    g.newestBig ∉ BinWords g i p :=
  static_not_bin hstart hs.newest_static fun he => hs.placed.newest_bins (he ▸ (hs.bin_static hi).2)

/-- The page of one bin has other free cells, and the list of the bin follows. -/
theorem Stands.page (hs : Stands g b h A bins) (hi : i < bigBin) (hbp : BinPage A i p)
    (hw : Writes (BinWords g i p) h h')
    (hA : ArenaAt b h' (Function.update A p (some (.cells i free'))))
    (hl : Linked h'.words null (g.bin i) l) (hnodup : l.Nodup)
    (hmem : ∀ q, q ∈ l ↔ if q = p then free' ≠ [] else q ∈ bins i) :
    Stands g b h' (Function.update A p (some (.cells i free'))) (Function.update bins i l) := by
  have hstart := hA.above p _ (Function.update_self p _ A)
  refine ⟨hs.placed, hw.brk ▸ hs.brk_aligned, hw.brk ▸ hs.brk_above, hA,
    ⟨fun j hj => ?_, fun j hj => ?_, fun j hj q => ?_⟩, ?_⟩
  · by_cases hji : j = i
    · subst hji
      rwa [Function.update_self]
    · rw [Function.update_of_ne hji]
      refine (hs.pages.linked j hj).congr fun x hx => hw.words x ?_
      rcases List.mem_cons.mp hx with rfl | hin
      · exact static_not_bin hstart (hs.bin_static hj).1 fun he => hji (bin_inj hs.placed hj hi he)
      · obtain ⟨f, -, hx⟩ := hs.page_of_mem hj hin
        refine binWords_other hs hi hbp (fun he => ?_) (next_owned hs hx)
        subst he
        obtain ⟨f', hf'⟩ := hbp.cells _ hx
        exact hji (Chunk.cells.inj hf').1
  · by_cases hji : j = i
    · subst hji
      rwa [Function.update_self]
    · rw [Function.update_of_ne hji]
      exact hs.pages.nodup j hj
  · by_cases hqp : q = p
    · subst hqp
      rw [Function.update_self]
      by_cases hji : j = i
      · subst hji
        rw [Function.update_self, hmem, if_pos rfl]
        exact ⟨fun hf => ⟨free', hf, rfl⟩,
          fun ⟨f, hf, he⟩ => (Chunk.cells.inj (Option.some.inj he)).2 ▸ hf⟩
      · rw [Function.update_of_ne hji, hs.pages.mem j hj]
        refine iff_of_false (fun ⟨f, _, he⟩ => ?_) fun ⟨f, _, he⟩ => ?_
        · obtain ⟨f', hf'⟩ := hbp.cells _ he
          exact hji (Chunk.cells.inj hf').1
        · exact hji (Chunk.cells.inj (Option.some.inj he)).1.symm
    · rw [Function.update_of_ne hqp]
      by_cases hji : j = i
      · subst hji
        rw [Function.update_self, hmem, if_neg hqp]
        exact hs.pages.mem j hj q
      · rw [Function.update_of_ne hji]
        exact hs.pages.mem j hj q
  · rw [hw.words _ (newest_not_bin hs hi hstart)]
    refine hs.newest.imp_right fun ⟨n, f, hn⟩ => ⟨n, f, ?_⟩
    rw [Function.update_of_ne fun he => ?_]
    · exact hn
    · obtain ⟨f', hf'⟩ := hbp.cells _ (he ▸ hn)
      cases hf'

/-- A page of the bin changes in place. -/
theorem Stands.cells (free' l : List U32int) (hs : Stands g b h A bins)
    (hp : A p = some (.cells i free)) (hw : Writes (BinWords g i p) h h')
    (hd : Cells h'.words p i free') (hl : Linked h'.words null (g.bin i) l) (hnodup : l.Nodup)
    (hmem : ∀ q, q ∈ l ↔ if q = p then free' ≠ [] else q ∈ bins i) :
    Stands g b h' (Function.update A p (some (.cells i free'))) (Function.update bins i l) := by
  have hbp := binPage_of_cells hs.arena hp
  refine Stands.page hs hd.bin_lt hbp hw
    (hs.arena.update hw hp rfl (fun q e x hqp hq hr => ?_) hd) hl hnodup hmem
  exact binWords_other hs hd.bin_lt hbp hqp (hs.arena.reads_owned hq hr)

/-- The skip list has nothing in a page of a bin. -/
theorem Index.page (hx : Index g h.words levels top) (hs : Stands g b h A bins)
    (hb : ∀ q ∈ levels 0, IsBlock A q)
    (hi : i < bigBin) (hbp : BinPage A i p) (hstart : b.start ≤ p.toNat)
    (hw : Writes (BinWords g i p) h h') : Index g h'.words levels top := by
  have hblock : ∀ q, IsBlock A q → q ≠ p := by
    rintro q ⟨n, f, hn⟩ rfl
    obtain ⟨f', hf'⟩ := hbp.cells _ hn
    cases hf'
  refine Index.frame hx hs hb (fun x hx => hw.words x ?_) fun q hq => hw.words _ ?_
  · rcases hs.index_cases hx with hlow | ⟨q, n, f, hq, hoq, -, -⟩
    · exact static_not_bin hstart hlow fun he => hs.index_not_link hi (he ▸ List.mem_cons_self) hx
    · exact binWords_other hs hi hbp (hblock q ⟨n, f, hq⟩) hoq
  · obtain ⟨n, f, hn⟩ := hq
    exact binWords_other hs hi hbp (hblock q ⟨n, f, hn⟩) (hs.arena.reads_owned hn (.inr (.inl rfl)))

theorem cell_reaches (hs : Stands g b h A bins) (hp : A p = some (.cells i free))
    (hc : IsCell p i c) : Reaches b h c := by
  have ha := hs.arena.aligned p _ hp
  obtain ⟨hlow, hhigh⟩ := hc.bounds
  have habove := hs.arena.above p _ hp
  have hbelow := hs.arena.page_below hp
  have hpos := (cellBytes_pos i).1
  exact reaches_heap (hc.aligned ha) (by omega) (by omega)

theorem field_reaches (hs : Stands g b h A bins) (hp : A p = some (.cells i free)) :
    Reaches b h (BinHeader.next p) ∧ Reaches b h (BinHeader.head p) ∧
    Reaches b h (BinHeader.size p) := by
  refine ⟨?_, hs.arena.reaches_offset hp (by decide) (by decide),
    hs.arena.reaches_offset hp (by decide) (by decide)⟩
  have hr := hs.arena.reaches_offset hp (k := 0) (by decide) (by decide)
  rwa [add_zero] at hr

/-- The size field of a page of cells is the number of its bin. -/
theorem small_size (hs : Stands g b h A bins) (hp : A p = some (.cells i free)) :
    ¬ h.words (BinHeader.size p) > numBins := by
  have hc := hs.arena.chunk p _ hp
  have hi : i.toNat < 10 := hc.bin_lt
  rw [hc.size, gt_iff_lt, BitVec.lt_def]
  change ¬ 11 < i.toNat
  omega

theorem page_end (hs : Stands g b h A bins) (hp : A p = some (.cells i free)) :
    (p + pageSize).toNat = p.toNat + 4096 := by
  have hbelow := hs.arena.page_below hp
  have hlt := h.brk.isLt
  rw [BitVec.toNat_add, show pageSize.toNat = 4096 from rfl, Nat.mod_eq_of_lt (by omega)]

/-- The top of the stack is taken off. -/
theorem stackPop_run (hs : Stands g b h A bins) (hp : A p = some (.cells i (c :: free))) :
    (Slab.stackPop p).run (heapMachine b) h = .ok (c, h.set (BinHeader.head p) (h.words c)) := by
  have hc := hs.arena.chunk p _ hp
  obtain ⟨hhead, hnull, -⟩ := hc.linked
  have hcell := hc.cell c List.mem_cons_self
  obtain ⟨hlow, hhigh⟩ := hcell.bounds
  have hpos := (cellBytes_pos i).1
  obtain ⟨-, hrhead, hrsize⟩ := field_reaches hs hp
  have hend := page_end hs hp
  have hfirst := offset_toNat (hs.arena.aligned p _ hp) (k := binHeaderSize) (by decide)
  have hafter : c > p := by
    rw [gt_iff_lt, BitVec.lt_def]
    omega
  have hinside : c < p + pageSize := by
    rw [BitVec.lt_def, hend]
    omega
  have hbehind : c > p + binHeaderSize - 1 := by
    rw [gt_iff_lt, BitVec.lt_def]
    change (p + binHeaderSize).toNat = p.toNat + 16 at hfirst
    bv_omega
  rw [Slab.stackPop, run_bind_of_ok (run_check (decide_eq_true (hs.arena.ne_null hp)) h),
    run_bind_of_ok (run_load (load_heap hrhead)), hhead,
      run_bind_of_ok (run_check (decide_eq_true hnull) h),
    run_bind_of_ok (run_check (decide_eq_true hafter) h),
      run_bind_of_ok (run_load (load_heap hrsize))]
  dsimp only
  rw [if_neg (small_size hs hp), run_bind_of_ok (run_check (decide_eq_true hinside) h),
    run_bind_of_ok (run_check (decide_eq_true hbehind) h),
    run_bind_of_ok (run_load (load_heap (cell_reaches hs hp hcell))),
    run_bind_of_ok (run_store (store_heap hrhead _)), run_pure]

/-- Nothing that is handed out is a field of the page or the head of its list. -/
theorem handedOut_ne (hs : Stands g b h A bins) (hp : A p = some (.cells i free))
    (hx : HandedOut A x) : x ≠ g.bin i ∧ x ≠ BinHeader.next p ∧ x ≠ BinHeader.head p := by
  obtain ⟨q, d, hq, hoq, hlow, -, -⟩ := hx.owner hs.arena
  refine ⟨bin_ne_owned hs (hs.arena.chunk p _ hp).bin_lt hoq, ?_, ?_⟩
  · rintro rfl
    obtain rfl := hs.arena.owner_unique hoq (next_owned hs hp)
    exact absurd hlow (by omega)
  · rintro rfl
    exact hx.not_reads hs.arena hp (.inr (.inr (.inl rfl)))

theorem stackEmpty_run (hs : Stands g b h A bins) (hp : A p = some (.cells i free)) (h' : Heap)
    (hbrk : h'.brk = h.brk) : (Slab.stackEmpty p).run (heapMachine b) h' =
      .ok (decide (h'.words (BinHeader.head p) = null), h') := by
  have hr : Reaches b h' (BinHeader.head p) := by
    rw [Reaches, hbrk]
    exact (field_reaches hs hp).2.1
  rw [Slab.stackEmpty, run_bind_of_ok (run_load (load_heap hr)), run_pure]

theorem listDecouple_run {head : U32int} (hh : Reaches b h head)
    (hp : Reaches b h (BinHeader.next p)) : (Slab.listDecouple head p).run (heapMachine b) h =
      .ok ((), (h.set head (h.words (BinHeader.next p))).set (BinHeader.next p) null) := by
  rw [Slab.listDecouple, run_bind_of_ok (run_load (load_heap hp)),
    run_bind_of_ok (run_store (store_heap hh _)),
    run_store (store_heap (hp.writes (writes_set (Set.mem_univ _))) _)]

theorem listInsert_run {head : U32int} (hh : Reaches b h head)
    (hp : Reaches b h (BinHeader.next p)) : (Slab.listInsert head p).run (heapMachine b) h =
      .ok ((), (h.set (BinHeader.next p) (h.words head)).set head p) := by
  rw [Slab.listInsert, run_bind_of_ok (run_load (load_heap hh)),
    run_bind_of_ok (run_store (store_heap hp _)),
    run_store (store_heap (hh.writes (writes_set (Set.mem_univ _))) _)]

/-- The links of the lists stand at the beginning of pages. -/
theorem link_ne_offset (hs : Stands g b h A bins) (hi : i < bigBin) (hx : x ∈ bins i) {k : Nat}
    (hq : q.toNat % 4096 = 0) (hk : 0 < k) (hk' : k < 4096) {y : U32int}
    (hy : y.toNat = q.toNat + k) : x ≠ y := by
  obtain ⟨f, -, hp⟩ := hs.page_of_mem hi hx
  have ha := hs.arena.aligned x _ hp
  rintro rfl
  omega

/-- The stack without its first cell. -/
theorem pop_cells (hs : Stands g b h A bins) (hp : A p = some (.cells i (c :: free))) :
    Cells (h.set (BinHeader.head p) (h.words c)).words p i free := by
  have hc := hs.arena.chunk p _ hp
  obtain ⟨-, hhead, hsize, hmagic, -⟩ := header_toNat (hs.arena.aligned p _ hp)
  obtain ⟨-, -, hlinked⟩ := hc.linked
  have hne : ∀ {x y : U32int}, x.toNat ≠ y.toNat → x ≠ y :=
    fun hn he => hn (congrArg BitVec.toNat he)
  have hcell : ∀ d ∈ free, IsCell p i d := fun d hd => hc.cell d (List.mem_cons_of_mem _ hd)
  refine ⟨(Heap.set_of_ne (hne (by omega))).trans hc.magic,
    (Heap.set_of_ne (hne (by omega))).trans hc.size,
    hlinked.moved Heap.set_same fun d hd => Heap.set_of_ne (hne ?_), hc.bin_lt,
      (List.nodup_cons.mp hc.nodup).2, hcell⟩
  have := (hcell d hd).bounds.1
  omega

/-- Its last cell gone, the first page in the list is taken out. -/
theorem decouple_page (hs : Stands g b h A bins)
    (hp : A p = some (.cells i free)) {rest : List U32int}
    (hbin : bins i = p :: rest) {h1 : Heap} (hw1 : Writes { x | x = BinHeader.head p } h h1)
    (hd : Cells h1.words p i []) {h3 : Heap}
    (h3eq : h3 = (h1.set (g.bin i) (h.words p)).set (BinHeader.next p) null) :
    Writes (BinWords g i p) h h3 ∧ Stands g b h3 (Function.update A p (some (.cells i [])))
      (Function.update bins i rest) := by
  have hi := hd.bin_lt
  have ha := hs.arena.aligned p _ hp
  obtain ⟨hnext, hhead, hsize, hmagic, -⟩ := header_toNat ha
  have hlist := hs.pages.linked i hi
  have hnodup := hs.pages.nodup i hi
  rw [hbin] at hlist hnodup
  have hne : ∀ {x y : U32int}, x.toNat ≠ y.toNat → x ≠ y :=
    fun hn he => hn (congrArg BitVec.toNat he)
  have hbinne : ∀ {x : U32int}, Owns A p x → x ≠ g.bin i := fun ho => bin_ne_owned hs hi ho
  have hohead : Owns A p (BinHeader.head p) := hs.arena.owns_offset hp (by decide)
  have honext : Owns A p (BinHeader.next p) := next_owned hs hp
  have hother : ∀ x, x ≠ g.bin i → x ≠ BinHeader.next p →
      h3.words x = h1.words x := fun x hx hx' => by
    rw [h3eq]
    exact (Heap.set_of_ne hx').trans (Heap.set_of_ne hx)
  have hw3 : Writes (BinWords g i p) h h3 := by
    have hpage : Writes (BinWords g i p) h h1 :=
      hw1.mono fun x (he : x = BinHeader.head p) => he ▸ .inr (in_page hp hohead)
    rw [h3eq]
    exact (hpage.set (.inl rfl)).set (.inr (in_page hp honext))
  refine ⟨hw3, Stands.cells [] rest hs hp hw3 ⟨?_, ?_, ?_, hi, List.nodup_nil, hd.cell⟩
    (hlist.2.2.moved ?_ fun q hq => ?_) (List.nodup_cons.mp hnodup).2 fun q => ?_⟩
  · rw [hother _ (hbinne (hs.arena.reads_owned hp (.inl rfl))) (hne (by omega)), hd.magic]
  · rw [hother _ (hbinne (hs.arena.reads_owned hp (.inr (.inl rfl)))) (hne (by omega)), hd.size]
  · change h3.words (BinHeader.head p) = null
    rw [hother _ (hbinne hohead) (hne (by omega))]
    exact hd.linked
  · rw [h3eq, Heap.set_of_ne (hbinne honext).symm, Heap.set_same]
  · have hin : q ∈ bins i := hbin ▸ List.mem_cons_of_mem _ hq
    obtain ⟨f', -, hq'⟩ := hs.page_of_mem hi hin
    have hqp : q ≠ p := fun he => (List.nodup_cons.mp hnodup).1 (he ▸ hq)
    rw [hother q (bin_ne_owned hs hi (next_owned hs hq')) hqp]
    exact hw1.words q (link_ne_offset hs hi hin ha (k := 4) (by decide) (by decide) hhead)
  · rw [hbin]
    split_ifs with hqp
    · subst hqp
      exact iff_of_false (List.nodup_cons.mp hnodup).1 (fun h => h rfl)
    · rw [List.mem_cons]
      exact ⟨.inr, fun h => h.resolve_left hqp⟩

/-- A cell is taken from the first page in the list; the page leaves the list with its last. -/
theorem takeCell_yields (hs : Stands g b h A bins) (hi : i < bigBin) {rest : List U32int}
    (hbin : bins i = p :: rest) : Yields (heapMachine b) (do
      let item ← Slab.stackPop p
      let empty ← Slab.stackEmpty p
      if empty then Slab.listDecouple (g.bin i) p
      return item) h fun c h' => ∃ free bins', A p = some (.cells i (c :: free)) ∧
        Stands g b h' (Function.update A p (some (.cells i free))) bins' ∧
          Writes (BinWords g i p) h h' ∧
        ∀ x, HandedOut A x → h'.words x = h.words x := by
  obtain ⟨f, hf, hp⟩ := hs.page_of_mem hi (hbin ▸ List.mem_cons_self : p ∈ bins i)
  obtain ⟨c, free, rfl⟩ := List.exists_cons_of_ne_nil hf
  have hlinked := (hs.arena.chunk p _ hp).linked.2.2
  obtain ⟨hnext, hhead, -, -, -⟩ := header_toNat (hs.arena.aligned p _ hp)
  obtain ⟨hrn, -, -⟩ := field_reaches hs hp
  have hohead : Owns A p (BinHeader.head p) := hs.arena.owns_offset hp (by decide)
  have hd := pop_cells hs hp
  refine .run (stackPop_run hs hp) (.run (stackEmpty_run hs hp _ rfl) ?_)
  rw [Heap.set_same]
  set h1 := h.set (BinHeader.head p) (h.words c) with hh1
  have hw1 : Writes { x | x = BinHeader.head p } h h1 := writes_set rfl
  have hkept : ∀ x, HandedOut A x → h1.words x = h.words x :=
    fun x hx => Heap.set_of_ne (handedOut_ne hs hp hx).2.2
  cases free with
  | nil =>
    have hlast : h.words c = null := hlinked
    have hn1 : h1.words (BinHeader.next p) = h.words p := Heap.set_of_ne fun he => by
      have := congrArg BitVec.toNat he
      omega
    simp only [hlast, decide_true, if_true]
    refine .run (listDecouple_run (reaches_bin hs.placed hi) (hrn.writes hw1)) (.ret ?_)
    rw [hn1]
    obtain ⟨hw3, hs3⟩ := decouple_page hs hp hbin hw1 hd rfl
    refine ⟨[], _, hp, hs3, hw3, fun x hx => ?_⟩
    obtain ⟨hxb, hxn, -⟩ := handedOut_ne hs hp hx
    rw [Heap.set_of_ne hxn, Heap.set_of_ne hxb]
    exact hkept x hx
  | cons d free =>
    have hnot : ¬ h.words c = null := fun he => hlinked.2.1 (hlinked.1.symm.trans he)
    have hw : Writes (BinWords g i p) h h1 := writes_set (.inr (in_page hp hohead))
    have hlist := hs.pages.linked i hi
    simp only [hnot, decide_false, Bool.false_eq_true, if_false]
    refine .ret ⟨d :: free, _, hp, Stands.cells (d :: free) (bins i) hs hp hw hd
      (hlist.congr fun x hx => Heap.set_of_ne ?_) (hs.pages.nodup i hi) fun q => ?_, hw, hkept⟩
    · rcases List.mem_cons.mp hx with rfl | hin
      · exact (bin_ne_owned hs hi hohead).symm
      · exact link_ne_offset hs hi hin (hs.arena.aligned p _ hp) (k := 4)
          (by decide) (by decide) hhead
    · rw [hbin]
      split_ifs with hqp
      · exact iff_of_true (hqp ▸ List.mem_cons_self) (List.cons_ne_nil _ _)
      · rfl

/-- A cell is put on the stack. -/
theorem stackPush_run (hs : Stands g b h A bins)
    (hp : A p = some (.cells i free)) (hc : IsCell p i c)
    (hw : Writes S h h') (hsize : BinHeader.size p ∉ S) :
    (Slab.stackPush p c).run (heapMachine b) h' =
      .ok ((), (h'.set c (h'.words (BinHeader.head p))).set (BinHeader.head p) c) := by
  obtain ⟨hlow, hhigh⟩ := hc.bounds
  have hpos := (cellBytes_pos i).1
  obtain ⟨-, hrhead, hrsize⟩ := field_reaches hs hp
  have hend := page_end hs hp
  have hnull : c ≠ null := by
    rintro rfl
    exact absurd hlow (by change ¬ p.toNat + 16 ≤ 0; omega)
  have hafter : c > p := by
    rw [gt_iff_lt, BitVec.lt_def]
    omega
  have hinside : c < p + pageSize := by
    rw [BitVec.lt_def, hend]
    omega
  have hsmall := small_size hs hp
  rw [← hw.words _ hsize] at hsmall
  rw [Slab.stackPush, run_bind_of_ok (run_check (decide_eq_true hnull) h'),
    run_bind_of_ok (run_check (decide_eq_true hafter) h'),
      run_bind_of_ok (run_load (load_heap (hrsize.writes hw)))]
  dsimp only
  rw [if_neg hsmall, run_bind_of_ok (run_check (decide_eq_true hinside) h'),
    run_bind_of_ok (run_load (load_heap (hrhead.writes hw))),
    run_bind_of_ok (run_store (store_heap ((cell_reaches hs hp hc).writes hw) _)),
    run_store (store_heap ((hrhead.writes hw).writes (writes_set (Set.mem_univ _))) _)]

/-- ... of a page that is in the list of its bin. -/
theorem pushCell_yields (hs : Stands g b h A bins)
    (hp : A p = some (.cells i free)) (hc : IsCell p i c)
    (hfree : c ∉ free) (hw : Writes { x | x = g.bin i ∨ x = BinHeader.next p } h h')
    (hl : Linked h'.words null (g.bin i) l) (hnodup : l.Nodup)
    (hmem : ∀ q, q ∈ l ↔ q = p ∨ q ∈ bins i) :
    Yields (heapMachine b) (Slab.stackPush p c) h' fun _ h2 => ∃ bins',
      Stands g b h2 (Function.update A p (some (.cells i (c :: free)))) bins' ∧
        Writes (BinWords g i p) h h2 ∧ ∀ x, HandedOut A x → x ≠ c → h2.words x = h.words x := by
  have hk := hs.arena.chunk p _ hp
  have hi : i < bigBin := hk.bin_lt
  have ha := hs.arena.aligned p _ hp
  obtain ⟨hnext, hhead, hsize, hmagic, -⟩ := header_toNat ha
  have hohead : Owns A p (BinHeader.head p) := hs.arena.reads_owned hp (.inr (.inr (.inl rfl)))
  have hne : ∀ {x y : U32int}, x.toNat ≠ y.toNat → x ≠ y :=
    fun hn he => hn (congrArg BitVec.toNat he)
  have hold : ∀ {x : U32int}, Owns A p x → x.toNat ≠ p.toNat →
      h'.words x = h.words x := fun ho hx => by
    refine hw.words _ ?_
    rintro (rfl | rfl)
    · exact bin_ne_owned hs hi ho rfl
    · exact hx hnext
  have hcell : ∀ d ∈ free, IsCell p i d := hk.cell
  have hlow := hc.bounds.1
  have hrun := stackPush_run hs hp hc hw (by
    rintro (he | he)
    · exact bin_ne_owned hs hi (hs.arena.reads_owned hp (.inr (.inl rfl))) he
    · exact hne (by omega) he)
  set h2 := (h'.set c (h'.words (BinHeader.head p))).set (BinHeader.head p) c with hh2
  have hset : ∀ x, x ≠ c → x ≠ BinHeader.head p → h2.words x = h'.words x := fun x hx hx' =>
    (Heap.set_of_ne hx').trans (Heap.set_of_ne hx)
  have hbin : Writes (BinWords g i p) h h' := hw.mono fun x hx =>
    hx.imp_right fun (he : x = BinHeader.next p) => he ▸ in_page hp (next_owned hs hp)
  have hw2 : Writes (BinWords g i p) h h2 :=
    (hbin.set (.inr (in_page hp (hc.owned hp)))).set (.inr (in_page hp hohead))
  have hfreeNe : ∀ d ∈ free, d ≠ c ∧ d ≠ BinHeader.head p := fun d hd =>
    ⟨fun he => hfree (he ▸ hd), hne (by have := (hcell d hd).bounds.1; omega)⟩
  refine ⟨(), h2, hrun, _, Stands.cells (c :: free) l hs hp hw2
    ⟨?_, ?_, ⟨Heap.set_same, ?_, ?_⟩, hi,
    List.nodup_cons.mpr ⟨hfree, hk.nodup⟩, List.forall_mem_cons.mpr ⟨hc, hcell⟩⟩
      (hl.congr fun x hx => ?_) hnodup fun q => ?_, hw2, fun x hx hxc => ?_⟩
  · rw [hset _ (hne (by omega)) (hne (by omega)),
      hold (hs.arena.reads_owned hp (.inl rfl)) (by omega), hk.magic]
  · rw [hset _ (hne (by omega)) (hne (by omega)),
      hold (hs.arena.reads_owned hp (.inr (.inl rfl))) (by omega), hk.size]
  · rintro rfl
    exact absurd hlow (by change ¬ p.toNat + 16 ≤ 0; omega)
  · refine hk.linked.moved ?_ fun d hd => ?_
    · rw [Heap.set_of_ne (hne (by omega)), Heap.set_same, hold hohead (by omega)]
    · obtain ⟨hdc, hdh⟩ := hfreeNe d hd
      have hdlow := (hcell d hd).bounds.1
      rw [hset d hdc hdh, hold ((hcell d hd).owned hp) (by omega)]
  · rcases List.mem_cons.mp hx with rfl | hin
    · exact hset _ (bin_ne_owned hs hi (hc.owned hp)).symm (bin_ne_owned hs hi hohead).symm
    · -- a page does not begin with a cell or a head
      have hxa : x.toNat % 4096 = 0 := by
        rcases (hmem x).mp hin with rfl | hin
        · exact ha
        · obtain ⟨f, -, hx'⟩ := hs.page_of_mem hi hin
          exact hs.arena.aligned x _ hx'
      have hhigh := hc.bounds.2
      have hpos := (cellBytes_pos i).1
      exact hset x (hne (by omega)) (hne (by omega))
  · rw [hmem]
    split_ifs with hqp
    · exact iff_of_true (.inl hqp) (List.cons_ne_nil _ _)
    · exact ⟨fun h => h.resolve_left hqp, .inr⟩
  · obtain ⟨hxb, hxn, hxh⟩ := handedOut_ne hs hp hx
    rw [hset x hxc hxh, hw.words x fun h => h.elim hxb hxn]

/-- A cell goes back to its page, which enters the list if it had none. -/
theorem freeSmall_yields (hs : Stands g b h A bins)
    (hp : A p = some (.cells i free)) (hc : IsCell p i c)
    (hfree : c ∉ free) : Yields (heapMachine b) (Slab.freeSmall g p i c) h fun _ h' => ∃ bins',
      Stands g b h' (Function.update A p (some (.cells i (c :: free)))) bins' ∧
        Writes (BinWords g i p) h h' ∧ ∀ x, HandedOut A x → x ≠ c → h'.words x = h.words x := by
  have hk := hs.arena.chunk p _ hp
  have hi : i < bigBin := hk.bin_lt
  obtain ⟨hrn, -, -⟩ := field_reaches hs hp
  refine .run (stackEmpty_run hs hp h rfl) ?_
  cases free with
  | nil =>
    have hhead : h.words (BinHeader.head p) = null := hk.linked
    have hpn : p ∉ bins i := fun hin => by
      obtain ⟨f, hf, hp'⟩ := hs.page_of_mem hi hin
      exact hf (Chunk.cells.inj (Option.some.inj (hp'.symm.trans hp))).2
    simp only [hhead, decide_true, if_true]
    refine .run (listInsert_run (reaches_bin hs.placed hi) hrn) ?_
    refine pushCell_yields hs hp hc hfree (((Writes.refl _ _).set (.inr rfl)).set (.inl rfl))
      (l := p :: bins i)
      ⟨Heap.set_same, hs.arena.ne_null hp, (hs.pages.linked i hi).moved ?_ fun q hq => ?_⟩
      (List.nodup_cons.mpr ⟨hpn, hs.pages.nodup i hi⟩) fun q => List.mem_cons
    · exact (Heap.set_of_ne (bin_ne_owned hs hi (next_owned hs hp))).trans Heap.set_same
    · obtain ⟨f, -, hq'⟩ := hs.page_of_mem hi hq
      exact (Heap.set_of_ne (bin_ne_owned hs hi (next_owned hs hq'))).trans
        (Heap.set_of_ne fun (he : q = p) => hpn (he ▸ hq))
  | cons d free =>
    have hnot : ¬ h.words (BinHeader.head p) = null :=
      fun he => hk.linked.2.1 (hk.linked.1.symm.trans he)
    have hin : p ∈ bins i := (hs.pages.mem i hi p).mpr ⟨_, List.cons_ne_nil _ _, hp⟩
    simp only [hnot, decide_false, Bool.false_eq_true, if_false]
    refine pushCell_yields hs hp hc hfree (.refl _ _) (hs.pages.linked i hi)
      (hs.pages.nodup i hi) fun q => ?_
    exact ⟨.inr, fun h => h.elim (fun he => he ▸ hin) id⟩

/-- Below the break nothing changes when the heap grows. -/
theorem grown_words {n : U32int} (hx : x.toNat < h.brk.toNat) : (h.grown n).words x = h.words x :=
  Heap.grown_below hx

theorem grown_brk {n : U32int} (hg : Grows b h n) :
    (h.grown n).brk.toNat = h.brk.toNat + n.toNat := by
  have hlim := b.limit_le
  obtain ⟨-, -, hlt⟩ := hg
  change (h.brk + n).toNat = _
  rw [BitVec.toNat_add, Nat.mod_eq_of_lt (by omega)]

theorem Stands.grown {n : U32int} (hs : Stands g b h A bins) (hg : Grows b h n) :
    Stands g b (h.grown n) A bins where
  placed := hs.placed
  brk_aligned := by
    have ha := hs.brk_aligned
    have hn := hg.1
    rw [grown_brk hg]
    omega
  brk_above := by
    have ha := hs.brk_above
    rw [grown_brk hg]
    omega
  arena := hs.arena.grown hg
  pages := ⟨fun j hj => (hs.pages.linked j hj).congr fun x hx => grown_words (by
    have hbrk := hs.brk_above
    rcases List.mem_cons.mp hx with rfl | hin
    · exact (hs.bin_static hj).1.trans_le hbrk
    · obtain ⟨f, -, hx⟩ := hs.page_of_mem hj hin
      have := hs.arena.page_below hx
      omega), hs.pages.nodup, hs.pages.mem⟩
  newest := by
    rw [grown_words (hs.newest_static.trans_le hs.brk_above)]
    exact hs.newest

theorem Index.grown {n : U32int} (hx : Index g h.words levels top) (hs : Stands g b h A bins)
    (hb : ∀ q ∈ levels 0, IsBlock A q) : Index g (h.grown n).words levels top := by
  have hbrk := hs.brk_above
  refine Index.frame hx hs hb (fun x hx => grown_words ?_) fun q hq => grown_words ?_
  · rcases hs.index_cases hx with hlow | ⟨q, m, f, hq, -, -, hhigh⟩
    · omega
    · have := hs.arena.page_below hq
      omega
  · obtain ⟨m, f, hm⟩ := hq
    obtain ⟨-, -, hsize, -, -⟩ := header_toNat (hs.arena.aligned q _ hm)
    have := hs.arena.page_below hm
    omega

theorem cellAt_toNat (ha : p.toNat % 4096 = 0) (hi : i < bigBin) {j : Nat}
    (hj : 16 + (j + 1) * cellBytes i ≤ 4096) :
    (Slab.cellAt (p + binHeaderSize) i j).toNat = p.toNat + 16 + j * cellBytes i := by
  have hi' : i.toNat < 10 := hi
  have hfirst := offset_toNat ha (k := binHeaderSize) (by decide)
  change _ = _ + 16 at hfirst
  have hp := p.isLt
  have hbytes : cellBytes i = 4 * 2^i.toNat := by
    rw [cellBytes, Nat.pow_add, Nat.mul_comm]
  have hmul : j * cellBytes i = 4 * (j * 2^i.toNat) := by
    rw [hbytes]
    ring
  have hpos := Nat.two_pow_pos i.toNat
  rw [Nat.succ_mul] at hj
  have hjlt : j ≤ j * 2^i.toNat := Nat.le_mul_of_pos_right j hpos
  have hshift : (BitVec.ofNat 32 j <<< i).toNat = j * 2^i.toNat := by
    have hj32 : j % 2^32 = j := Nat.mod_eq_of_lt (by omega)
    rw [BitVec.shiftLeft_eq', BitVec.toNat_shiftLeft, BitVec.toNat_ofNat, hj32, Nat.shiftLeft_eq,
      Nat.mod_eq_of_lt (by omega)]
  rw [Slab.cellAt, BitVec.toNat_add, BitVec.toNat_mul, hshift, hfirst]
  change (_ + (4 * _) % _) % _ = _
  omega

/-- The cells of a page, but for the last, are counted. -/
theorem available_toNat (hi : i < bigBin) : (Slab.available i).toNat + 1 = 4080 / cellBytes i := by
  obtain ⟨k, hk, rfl⟩ : ∃ k < 10, i = BitVec.ofNat 32 k :=
    ⟨i.toNat, hi, by rw [BitVec.ofNat_toNat, BitVec.setWidth_eq]⟩
  interval_cases k <;> rfl

theorem isCell_cellAt (ha : p.toNat % 4096 = 0) (hi : i < bigBin) {j : Nat}
    (hj : j ≤ (Slab.available i).toNat) :
    16 + (j + 1) * cellBytes i ≤ 4096 ∧ IsCell p i (Slab.cellAt (p + binHeaderSize) i j) := by
  have hcount := available_toNat hi
  have hle := Nat.mul_le_mul_right (cellBytes i) (show j + 1 ≤ 4080 / cellBytes i by omega)
  have hdiv := Nat.div_mul_le_self 4080 (cellBytes i)
  have hroom : 16 + (j + 1) * cellBytes i ≤ 4096 := by omega
  exact ⟨hroom, j, hroom, cellAt_toNat ha hi hroom⟩

/-- Every cell of the page is one of those that are linked. -/
theorem cellAt_of_isCell (ha : p.toNat % 4096 = 0) (hi : i < bigBin) (hc : IsCell p i c) :
    ∃ j ≤ (Slab.available i).toNat, c = Slab.cellAt (p + binHeaderSize) i j := by
  obtain ⟨j, hj, hcj⟩ := hc
  have hcount := available_toNat hi
  have hpos := (cellBytes_pos i).1
  have hle : j + 1 ≤ 4080 / cellBytes i := (Nat.le_div_iff_mul_le (by omega)).mpr (by omega)
  exact ⟨j, by omega, BitVec.eq_of_toNat_eq (hcj.trans (cellAt_toNat ha hi hj).symm)⟩

theorem cellAt_inj (ha : p.toNat % 4096 = 0) (hi : i < bigBin) {j k : Nat}
    (hj : j ≤ (Slab.available i).toNat) (hk : k ≤ (Slab.available i).toNat)
    (he : Slab.cellAt (p + binHeaderSize) i j = Slab.cellAt (p + binHeaderSize) i k) : j = k := by
  have hn := congrArg BitVec.toNat he
  rw [cellAt_toNat ha hi (isCell_cellAt ha hi hj).1,
    cellAt_toNat ha hi (isCell_cellAt ha hi hk).1] at hn
  have hpos := (cellBytes_pos i).1
  exact Nat.eq_of_mul_eq_mul_right (by omega) (show j * cellBytes i = k * cellBytes i by omega)

/-- The cells of a new page in the order in which they are linked. -/
def freshCells (p i : U32int) : List U32int :=
  (List.range' 0 ((Slab.available i).toNat + 1)).map (Slab.cellAt (p + binHeaderSize) i)

theorem mem_freshCells (ha : p.toNat % 4096 = 0) (hi : i < bigBin)
    (hc : IsCell p i c) : c ∈ freshCells p i := by
  obtain ⟨j, hj, rfl⟩ := cellAt_of_isCell ha hi hc
  exact List.mem_map.mpr ⟨j, List.mem_range'_1.mpr (by omega), rfl⟩

/-- Each cell linked to the next one, and the last one to nothing. -/
def Chained (w : U32int → U32int) (p i : U32int) : Prop :=
  ∀ j ≤ (Slab.available i).toNat, w (Slab.cellAt (p + binHeaderSize) i j) =
    if j < (Slab.available i).toNat then Slab.cellAt (p + binHeaderSize) i (j + 1) else null

/-- A header whose stack starts with the first cell, and the chain of cells behind it. -/
theorem Chained.cells {w : U32int → U32int} (hchain : Chained w p i) (ha : p.toNat % 4096 = 0)
    (hi : i < bigBin) (hmagic : w (BinHeader.magic p) = binMagic) (hsize : w (BinHeader.size p) = i)
    (hhead : w (BinHeader.head p) = p + binHeaderSize) : Cells w p i (freshCells p i) := by
  refine ⟨hmagic, hsize, linked_range' ?_ (fun j _ hj => ?_) ?_ (fun j _ hj => ?_), hi,
    ?_, fun c hc => ?_⟩
  · have hzero : (0 : Nat) ≤ (Slab.available i).toNat := Nat.zero_le _
    rw [hhead]
    apply BitVec.eq_of_toNat_eq
    rw [cellAt_toNat ha hi (isCell_cellAt ha hi hzero).1, offset_toNat ha (by decide), Nat.zero_mul]
    rfl
  · rw [hchain j (by omega), if_pos (by omega)]
  · rw [hchain _ (by omega), if_neg (by omega)]
  · intro he
    have hlow := (isCell_cellAt ha hi (j := j) (by omega)).2.bounds.1
    rw [he] at hlow
    change _ ≤ 0 at hlow
    omega
  · refine List.Nodup.map_on (fun j hj k hk he => ?_) List.nodup_range'
    rw [List.mem_range'_1] at hj hk
    exact cellAt_inj ha hi (by omega) (by omega) he
  · obtain ⟨j, hj, rfl⟩ := List.mem_map.mp hc
    rw [List.mem_range'_1] at hj
    exact (isCell_cellAt ha hi (by omega)).2

theorem chainCells_yields {base : U32int} {n : Nat}
    (hr : ∀ j < n, Reaches b h (Slab.cellAt base i j))
    (hinj : ∀ j < n, ∀ k < n, Slab.cellAt base i j = Slab.cellAt base i k → j = k) :
    Yields (heapMachine b) (Slab.chainCells base i n) h fun _ h' =>
      Writes { x | ∃ j < n, x = Slab.cellAt base i j } h h' ∧
        ∀ j < n, h'.words (Slab.cellAt base i j) = Slab.cellAt base i (j + 1) := by
  induction n with
  | zero => exact .ret ⟨.refl _ _, fun j hj => absurd hj (Nat.not_lt_zero j)⟩
  | succ n ih =>
    refine (ih (fun j hj => hr j (by omega)) fun j hj k hk => hinj j (by omega) k (by omega)).bind
      fun _ h1 ⟨hw, hall⟩ => ?_
    refine .store_last (store_heap ((hr n (by omega)).writes hw) _)
      ⟨Writes.set (hw.mono fun x ⟨j, hj, he⟩ => ⟨j, by omega, he⟩) ⟨n, by omega, rfl⟩,
        fun j hj => ?_⟩
    by_cases hjn : j = n
    · subst hjn
      exact Heap.set_same
    · rw [Heap.set_of_ne fun he => hjn (hinj j hj n (by omega) he)]
      exact hall j (by omega)

theorem pageSize_room (hs : Stands g b h A bins) (hg : Grows b h pageSize) (hx : x.toNat % 4 = 0)
    (hlow : h.brk.toNat ≤ x.toNat) (hhigh : x.toNat + 4 ≤ h.brk.toNat + 4096) (h' : Heap)
    (hbrk : h'.brk = (h.grown pageSize).brk) : Reaches b h' x := by
  have hb := grown_brk hg
  have habove := hs.brk_above
  refine reaches_heap hx (habove.trans hlow) ?_
  rw [hbrk, hb]
  exact hhigh

/-- What is left to do for the chain once all links but the last are there. -/
theorem chained_of_links {h : Heap} (ha : p.toNat % 4096 = 0) (hi : i < bigBin)
    (hlinks : ∀ j < (Slab.available i).toNat, h.words (Slab.cellAt (p + binHeaderSize) i j) =
      Slab.cellAt (p + binHeaderSize) i (j + 1)) :
    Chained (h.set (Slab.cellAt (p + binHeaderSize) i (Slab.available i).toNat) null).words p
    i := by
  intro j hj
  split_ifs with hlt
  · rw [Heap.set_of_ne fun he => absurd (cellAt_inj ha hi hj le_rfl he) (by omega)]
    exact hlinks j hlt
  · obtain rfl : j = (Slab.available i).toNat := by omega
    exact Heap.set_same

/-- The page's header, with the page put in front of its list. -/
def enterBin (g : SlabStatics) (i p : U32int) (h : Heap) : Heap :=
  let h3 := (h.set (BinHeader.magic p) binMagic).set (BinHeader.head p) (p + binHeaderSize)
  (h3.set (BinHeader.next p) (h3.words (g.bin i))).set (g.bin i) p

/-- What the four words of `enterBin` hold. -/
structure BinEntered (g : SlabStatics) (i p : U32int) (h h' : Heap) : Prop where
  head : h'.words (BinHeader.head p) = p + binHeaderSize
  magic : h'.words (BinHeader.magic p) = binMagic
  next : h'.words (BinHeader.next p) = h.words (g.bin i)
  bin : h'.words (g.bin i) = p
  writes : Writes (BinWords g i p) h h'

theorem enterBin_entered (ha : p.toNat % 4096 = 0) (hbin : (g.bin i).toNat < p.toNat) :
    BinEntered g i p h (enterBin g i p h) := by
  obtain ⟨hnext, hhead, hsize, hmagic, -⟩ := header_toNat ha
  have hne : ∀ {x y : U32int}, x.toNat ≠ y.toNat → x ≠ y :=
    fun hn he => hn (congrArg BitVec.toNat he)
  refine ⟨?_, ?_, ?_, Heap.set_same, ?_⟩
  · rw [enterBin, Heap.set_of_ne (hne (by omega)), Heap.set_of_ne (hne (by omega)), Heap.set_same]
  · rw [enterBin, Heap.set_of_ne (hne (by omega)), Heap.set_of_ne (hne (by omega)),
      Heap.set_of_ne (hne (by omega)), Heap.set_same]
  · rw [enterBin, Heap.set_of_ne (hne (by omega)), Heap.set_same, Heap.set_of_ne (hne (by omega)),
      Heap.set_of_ne (hne (by omega))]
  · exact ((((Writes.refl _ _).set (.inr (by omega))).set (.inr (by omega))).set
      (.inr (by omega))).set (.inl rfl)

/-- The page's words once its cells are linked and its bin is written. -/
structure BinFilled (g : SlabStatics) (i p : U32int) (h h4 h7 : Heap) : Prop where
  cells : Cells h7.words p i (freshCells p i)
  header : ∀ x : U32int, x.toNat < p.toNat + 16 → x ≠ BinHeader.size p → h7.words x = h4.words x
  writes : Writes (BinWords g i p) h h7

/-- Nothing but cells is written after the header. -/
theorem binFilled_of_links (ha : p.toNat % 4096 = 0) (hi : i < bigBin) {h4 h5 h7 : Heap}
    (he : BinEntered g i p h h4)
    (hw5 : Writes { x | ∃ j < (Slab.available i).toNat, x = Slab.cellAt (p + binHeaderSize) i j } h4
    h5) (hlinks : ∀ j < (Slab.available i).toNat, h5.words (Slab.cellAt (p + binHeaderSize) i j) =
      Slab.cellAt (p + binHeaderSize) i (j + 1))
    (h7eq : h7 = (h5.set (Slab.cellAt (p + binHeaderSize) i (Slab.available i).toNat) null).set
    (BinHeader.size p) i) : BinFilled g i p h h4 h7 := by
  obtain ⟨hnext, hhead, hsize, hmagic, -⟩ := header_toNat ha
  have hne : ∀ {x y : U32int}, x.toNat ≠ y.toNat → x ≠ y :=
    fun hn he => hn (congrArg BitVec.toNat he)
  have hcell : ∀ j ≤ (Slab.available i).toNat,
      p.toNat + 16 ≤ (Slab.cellAt (p + binHeaderSize) i j).toNat ∧
      (Slab.cellAt (p + binHeaderSize) i j).toNat + 4 ≤ p.toNat + 4096 := fun j hj => by
    have hbounds := (isCell_cellAt ha hi hj).2.bounds
    have hpos := (cellBytes_pos i).1
    omega
  have hkept : ∀ x : U32int, x.toNat < p.toNat + 16 → x ≠ BinHeader.size p →
      h7.words x = h4.words x := by
    intro x hx hxs
    have hxc : ∀ j ≤ (Slab.available i).toNat,
        x ≠ Slab.cellAt (p + binHeaderSize) i j := fun j hj =>
      hne (by have := (hcell j hj).1; omega)
    rw [h7eq, Heap.set_of_ne hxs, Heap.set_of_ne (hxc _ le_rfl)]
    refine hw5.words x ?_
    rintro ⟨j, hj, he⟩
    exact hxc j hj.le he
  have hchained : Chained h7.words p i := fun j hj => by
    rw [h7eq, Heap.set_of_ne (hne (by have := (hcell j hj).1; omega))]
    exact chained_of_links ha hi hlinks j hj
  refine ⟨hchained.cells ha hi ?_ ?_ ?_, hkept, ?_⟩
  · exact (hkept _ (by omega) (hne (by omega))).trans he.magic
  · rw [h7eq, Heap.set_same]
  · exact (hkept _ (by omega) (hne (by omega))).trans he.head
  · have hin : ∀ j ≤ (Slab.available i).toNat,
        Slab.cellAt (p + binHeaderSize) i j ∈ BinWords g i p := fun j hj => by
      have hbounds := hcell j hj
      exact .inr ⟨by omega, by omega⟩
    have hchain : Writes (BinWords g i p) h h5 := by
      refine he.writes.trans (hw5.mono ?_)
      rintro x ⟨j, hj, rfl⟩
      exact hin j hj.le
    rw [h7eq]
    exact (hchain.set (hin _ le_rfl)).set (.inr (by omega))

/-- A new page has all its cells free, and is the only one in its list. -/
theorem newBin_yields (hs : Stands g b h A bins) (hi : i < bigBin) (hempty : bins i = [])
    (hg : Grows b h pageSize) :
    Yields (heapMachine b) (Slab.newBin g i) h fun p h' => p = h.brk ∧ ∃ free bins', bins' i = [p] ∧
      (∀ c, IsCell p i c → c ∈ free) ∧
        Stands g b h' (Function.update A p (some (.cells i free))) bins' ∧
        Writes (BinWords g i p) (h.grown pageSize) h' := by
  set p := h.brk with hp
  set h1 := h.grown pageSize with hh1
  have ha : p.toNat % 4096 = 0 := hs.brk_aligned
  have hs1 : Stands g b h1 A bins := Stands.grown hs hg
  have hreach : ∀ x : U32int, x.toNat % 4 = 0 → p.toNat ≤ x.toNat → x.toNat + 4 ≤ p.toNat + 4096 →
      ∀ h', h'.brk = h1.brk → Reaches b h' x :=
        fun x hx hlow hhigh => pageSize_room hs hg hx hlow hhigh
  obtain ⟨hnext, hhead, hsize, hmagic, -⟩ := header_toNat ha
  have hne : ∀ {x y : U32int}, x.toNat ≠ y.toNat → x ≠ y :=
    fun hn he => hn (congrArg BitVec.toNat he)
  have hbin : (g.bin i).toNat < p.toNat := (hs.bin_static hi).1.trans_le hs.brk_above
  have hcellreach : ∀ j ≤ (Slab.available i).toNat, ∀ h', h'.brk = h1.brk →
      Reaches b h' (Slab.cellAt (p + binHeaderSize) i j) := fun j hj => by
    have hc := (isCell_cellAt ha hi hj).2
    have hbounds := hc.bounds
    have hpos := (cellBytes_pos i).1
    exact hreach _ (hc.aligned ha) (by omega) (by omega)
  -- the header
  have hrmagic := hreach (BinHeader.magic p) (by omega) (by omega) (by omega)
  have hrhead := hreach (BinHeader.head p) (by omega) (by omega) (by omega)
  have hrnext := hreach (BinHeader.next p) (by omega) (by omega) (by omega)
  have hrsize := hreach (BinHeader.size p) (by omega) (by omega) (by omega)
  refine .grow (grow_heap hg) (.store (store_heap (hrmagic _ rfl) _) (.check (page_whole ha) ?_))
  refine .store (store_heap (by exact hrhead _ rfl) _)
    (.run (listInsert_run (reaches_bin hs.placed hi) (by exact hrnext _ rfl)) ?_)
  change Yields _ _ (enterBin g i p h1) _
  have hentered : BinEntered g i p h1 (enterBin g i p h1) := enterBin_entered ha hbin
  set h4 := enterBin g i p h1 with hh4
  refine .load (load_heap (by exact hrhead _ rfl)) ?_
  rw [hentered.head]
  -- the cells
  refine (chainCells_yields (fun j hj => hcellreach j hj.le h4 rfl)
    fun j hj k hk => cellAt_inj ha hi hj.le hk.le).bind fun _ h5 hstored => ?_
  obtain ⟨hw5, hlinks⟩ := hstored
  have hbrk5 : h5.brk = h1.brk := hw5.brk
  refine .store (store_heap (hcellreach _ le_rfl _ hbrk5) _)
    (.store (store_heap (by exact hrsize _ hbrk5) _) (.ret ?_))
  set h7 := (h5.set (Slab.cellAt (p + binHeaderSize) i (Slab.available i).toNat) null).set
    (BinHeader.size p) i with hh7
  have hfilled : BinFilled g i p h1 h4 h7 := binFilled_of_links ha hi hentered hw5 hlinks hh7
  have hlist : Linked h7.words null (g.bin i) [p] := by
    have hfirst : h1.words (g.bin i) = null := by
      have hl := hs1.pages.linked i hi
      rwa [hempty] at hl
    refine ⟨?_, ?_, ?_⟩
    · exact (hfilled.header _ (by omega) (hne (by omega))).trans hentered.bin
    · exact hne (by have := hs.brk_above; have := b.start_pos; change _ ≠ 0; omega)
    · exact (hfilled.header p (by omega) (hne (by omega))).trans (hentered.next.trans hfirst)
  have hend : h1.brk.toNat = p.toNat + 4096 := grown_brk hg
  have hbp : BinPage A i p := binPage_of_brk hs.arena le_rfl
  refine ⟨rfl, _, _, Function.update_self .., fun c hc => mem_freshCells ha hi hc,
    Stands.page hs1 hi hbp hfilled.writes
    (hs1.arena.put hfilled.writes ha hs.brk_above (by rw [hend]; exact le_rfl)
      (fun q e hq hlt => ?_) (fun q e hq _ => hs.arena.below q e hq)
      (fun q e x hqp hq hr => binWords_other hs1 hi hbp hqp (hs.arena.reads_owned hq hr))
        hfilled.cells) hlist
    (List.nodup_singleton p) fun q => ?_, hfilled.writes⟩
  · have := hs.arena.page_below hq
    omega
  · rw [hempty, List.mem_singleton]
    split_ifs with hqp
    · refine iff_of_true hqp ?_
      simp [freshCells]
    · exact iff_of_false hqp List.not_mem_nil

end

end SimpleOs.Audit.SlabCells
