import SimpleOs.Audit.SlabCells

/-!
# Blocks of pages

A block has a stack of one cell, itself. A free block is taken or a block is freed by its
head alone; a new one goes behind the break and behind the newest one.
-/

namespace SimpleOs.Audit.SlabBlocks

open SimpleOs.Kernel SimpleOs.Lib.WordProgram SimpleOs.Lib.LinkedList SimpleOs.Lib.SkipList
open SimpleOs.Audit.SlabHeap SimpleOs.Audit.SlabIndex SimpleOs.Audit.SlabCells

/-- Pages a request is given as a block. -/
def blockPages (size : U32int) : U32int := (size + bigBinHeaderSize) / pageSize + 1

theorem blockPages_toNat (size : U32int) :
    (blockPages size).toNat = (size.toNat + 48) % 2^32 / 4096 + 1 := by
  have hsum : ((size + bigBinHeaderSize) / pageSize).toNat = (size.toNat + 48) % 2^32 / 4096 := by
    rw [BitVec.toNat_udiv, BitVec.toNat_add]
    rfl
  rw [blockPages, BitVec.toNat_add, hsum, show (1 : U32int).toNat = 1 from rfl,
    Nat.mod_eq_of_lt (by omega)]

/-- The stack of a block. -/
def StackWords (q : U32int) : Set U32int := { x | x = BinHeader.head q ∨ x = q + bigBinHeaderSize }

section

variable {g : SlabStatics} {b : Bounds} {h h' : Heap} {A : Arena} {bins : U32int → List U32int}
  {levels : Nat → List U32int} {top : Nat} {p q x size : U32int} {n : Nat} {f f' : Bool}

theorem stackWords_owned (hA : ArenaAt b h A) (hq : A q = some (.block n f))
    (hx : x ∈ StackWords q) : Owns A q x := by
  rcases hx with rfl | rfl <;> exact hA.owns_offset hq (by decide)

/-- A block is taken or freed. -/
theorem Stands.block (hs : Stands g b h A bins) (hq : A q = some (.block n f))
    (hw : Writes (StackWords q) h h')
    (hd : Block h'.words q n f') :
    Stands g b h' (Function.update A q (some (.block n f'))) bins := by
  have hA := hs.arena.update hw hq (d := .block n f') rfl (fun r e x hrq hr hx hin =>
    hrq (hs.arena.owner_unique (hs.arena.reads_owned hr hx) (stackWords_owned hs.arena hq hin))) hd
  have hstatic : ∀ x : U32int, x.toNat < b.start → x ∉ StackWords q := fun x hx hin => by
    have := hs.arena.owned_above (stackWords_owned hs.arena hq hin)
    omega
  refine ⟨hs.placed, hw.brk ▸ hs.brk_aligned, hw.brk ▸ hs.brk_above, hA,
    ⟨fun j hj => ?_, hs.pages.nodup, fun j hj r => ?_⟩, ?_⟩
  · refine (hs.pages.linked j hj).congr fun x hx => hw.words x ?_
    rcases List.mem_cons.mp hx with rfl | hin
    · exact hstatic _ (hs.bin_static hj).1
    · obtain ⟨l, -, hp⟩ := hs.page_of_mem hj hin
      intro hxs
      obtain rfl := hs.arena.owner_unique (next_owned hs hp) (stackWords_owned hs.arena hq hxs)
      rw [hp] at hq
      cases hq
  · rw [hs.pages.mem j hj]
    by_cases hrq : r = q
    · subst hrq
      rw [Function.update_self, hq]
      exact iff_of_false (fun ⟨l, _, he⟩ => by cases he) fun ⟨l, _, he⟩ => by cases he
    · rw [Function.update_of_ne hrq]
  · rw [hw.words _ (hstatic _ hs.newest_static)]
    refine hs.newest.imp_right fun ⟨m, e, hm⟩ => ?_
    by_cases hqn : h.words g.newestBig = q
    · rw [hqn, Function.update_self]
      exact ⟨n, f', rfl⟩
    · rw [Function.update_of_ne hqn]
      exact ⟨m, e, hm⟩

theorem stackWords_not_index (hs : Stands g b h A bins) (hq : A q = some (.block n f))
    (hx : x ∈ IndexWords g A) : x ∉ StackWords q := by
  intro hin
  obtain ⟨-, hhead, -, -, hbody⟩ := header_toNat (hs.arena.aligned q _ hq)
  have ho := stackWords_owned hs.arena hq hin
  rcases hs.index_cases hx with hlow | ⟨r, m, e, hr, hor, hlow, hhigh⟩
  · have := hs.arena.owned_above ho
    omega
  · obtain rfl := hs.arena.owner_unique hor ho
    rcases hin with rfl | rfl <;> omega

/-- The skip list does not see the stack. -/
theorem Index.stack (hx : Index g h.words levels top) (hs : Stands g b h A bins)
    (hb : ∀ q ∈ levels 0, IsBlock A q)
    (hq : A q = some (.block n f)) (hw : Writes (StackWords q) h h') :
    Index g h'.words levels top := by
  refine Index.frame hx hs hb (fun x hx => hw.words x (stackWords_not_index hs hq hx)) fun r hr =>
    hw.words _ ?_
  obtain ⟨m, e, hm⟩ := hr
  intro hin
  have ho : Owns A r (BinHeader.size r) := hs.arena.reads_owned hm (.inr (.inl rfl))
  obtain rfl := hs.arena.owner_unique ho (stackWords_owned hs.arena hq hin)
  obtain ⟨-, hhead, hsize, -, hbody⟩ := header_toNat (hs.arena.aligned r _ hq)
  rcases hin with he | he
  · have hn := congrArg BitVec.toNat he
    omega
  · have hn := congrArg BitVec.toNat he
    omega

theorem none_of_brk (hA : ArenaAt b h A) : A h.brk = none := by
  cases he : A h.brk with
  | none => rfl
  | some c =>
    have := hA.page_below he
    omega

/-- Where the stack of a block is. -/
theorem block_stack (hs : Stands g b h A bins) (hq : A q = some (.block n f)) :
    q + bigBinHeaderSize ≠ null ∧ q + bigBinHeaderSize > q ∧ h.words (BinHeader.size q) > numBins ∧
      q + bigBinHeaderSize < q + h.words (BinHeader.size q) ∧
          Reaches b h (q + bigBinHeaderSize) := by
  obtain ⟨hkey, hend, hbelow⟩ := key_eq hs hq
  obtain ⟨-, -, -, -, hoff⟩ := header_toNat (hs.arena.aligned q _ hq)
  have hlt := h.brk.isLt
  have hpos : 0 < n := (hs.arena.chunk q _ hq).pages_pos
  have hsize : (h.words (BinHeader.size q)).toNat = blockBytes n := hkey
  refine ⟨fun he => ?_, ?_, ?_, ?_, hs.arena.reaches_offset hq (by decide) (by decide)⟩
  · have hn := congrArg BitVec.toNat he
    rw [hoff] at hn
    exact absurd hn (by change _ ≠ 0; omega)
  · rw [gt_iff_lt, BitVec.lt_def, hoff]
    omega
  · rw [gt_iff_lt, BitVec.lt_def, hsize]
    change 11 < _
    omega
  · rw [BitVec.lt_def, hoff, BitVec.toNat_add, hsize]
    omega

/-- A free block is popped. -/
theorem popBlock_yields (hs : Stands g b h A bins) (hq : A q = some (.block n true)) :
    Yields (heapMachine b) (Slab.stackPop q) h fun p h' => p = q + bigBinHeaderSize ∧
    Writes (StackWords q) h h' ∧
      Stands g b h' (Function.update A q (some (.block n false))) bins := by
  have hk := hs.arena.chunk q _ hq
  have hhead : h.words (BinHeader.head q) = q + bigBinHeaderSize := hk.head
  obtain ⟨hnull, hafter, hbig, hinside, hr⟩ := block_stack hs hq
  have hrh := head_reaches hs ⟨n, true, hq⟩
  have hrs := size_reaches hs ⟨n, true, hq⟩
  refine .check (decide_eq_true (hs.arena.ne_null hq)) (.load (load_heap hrh) ?_)
  rw [hhead]
  refine .check (decide_eq_true hnull) (.check (decide_eq_true hafter) (.load (load_heap hrs) ?_))
  rw [if_pos hbig]
  refine .check (decide_eq_true hinside)
    (.load (load_heap hr) (.store (store_heap hrh _) (.ret ?_)))
  have hw : Writes (StackWords q) h (h.set (BinHeader.head q) (h.words (q + bigBinHeaderSize))) :=
    writes_set (.inl rfl)
  obtain ⟨-, hh, hz, hm, -⟩ := header_toNat (hs.arena.aligned q _ hq)
  have hne : ∀ {x y : U32int}, x.toNat ≠ y.toNat → x ≠ y :=
    fun hn he => hn (congrArg BitVec.toNat he)
  refine ⟨rfl, hw, Stands.block hs hq hw ⟨?_, ?_, ?_, fun hf => Bool.noConfusion hf, hk.pages_pos⟩⟩
  · rw [Heap.set_of_ne (hne (by omega)), hk.magic]
  · rw [Heap.set_of_ne (hne (by omega)), hk.size]
  · rw [Heap.set_same, hk.empty rfl]
    rfl

/-- A block that is not free is pushed on its own stack. -/
theorem pushBlock_yields (hs : Stands g b h A bins) (hq : A q = some (.block n false)) :
    Yields (heapMachine b) (Slab.stackPush q (q + bigBinHeaderSize)) h fun _ h' =>
    Writes (StackWords q) h h' ∧
      Stands g b h' (Function.update A q (some (.block n true))) bins := by
  have hk := hs.arena.chunk q _ hq
  have hhead : h.words (BinHeader.head q) = null := hk.head
  obtain ⟨hnull, hafter, hbig, hinside, hr⟩ := block_stack hs hq
  have hrh := head_reaches hs ⟨n, false, hq⟩
  have hrs := size_reaches hs ⟨n, false, hq⟩
  refine .check (decide_eq_true hnull) (.check (decide_eq_true hafter) (.load (load_heap hrs) ?_))
  dsimp only
  rw [if_pos hbig]
  refine .check (decide_eq_true hinside) (.load (load_heap hrh) (.store (store_heap hr _) ?_))
  refine .store_last (store_heap (hrh.writes (writes_set (Set.mem_univ _))) _) ?_
  have hw : Writes (StackWords q) h ((h.set (q + bigBinHeaderSize) (h.words (BinHeader.head q))).set
    (BinHeader.head q) (q + bigBinHeaderSize)) := ((Writes.refl _ _).set (.inr rfl)).set (.inl rfl)
  obtain ⟨-, hh, hz, hm, ho⟩ := header_toNat (hs.arena.aligned q _ hq)
  have hne : ∀ {x y : U32int}, x.toNat ≠ y.toNat → x ≠ y :=
    fun hn he => hn (congrArg BitVec.toNat he)
  refine ⟨hw, Stands.block hs hq hw ⟨?_, ?_, Heap.set_same, fun _ => ?_, hk.pages_pos⟩⟩
  · rw [Heap.set_of_ne (hne (by omega)), Heap.set_of_ne (hne (by omega)), hk.magic]
  · rw [Heap.set_of_ne (hne (by omega)), Heap.set_of_ne (hne (by omega)), hk.size]
  · rw [Heap.set_of_ne (hne (by omega)), Heap.set_same, hhead]

/-- The header of a new block, and the links to it. -/
def NewWords (g : SlabStatics) (A : Arena) (p : U32int) : Set U32int :=
  { x | x = g.newestBig ∨ p.toNat ≤ x.toNat ∧ x.toNat < p.toNat + 48 ∨ IsBlock A x }

/-- What chunks keep is not written. -/
theorem newWords_other (hs : Stands g b h A bins) (ho : Owns A q x) (hx : IsBlock A q → x ≠ q) :
    x ∉ NewWords g A h.brk := by
  rintro (rfl | ⟨hlow, -⟩ | ⟨n, f, hn⟩)
  · have := hs.arena.owned_above ho
    have := hs.newest_static
    omega
  · obtain ⟨c, hq, -, hhigh⟩ := ho
    have := hs.arena.below q c hq
    omega
  · have hown : Owns A x x := by simpa using hs.arena.owns_offset hn (k := 0) (by decide)
    obtain rfl := hs.arena.owner_unique hown ho
    exact hx ⟨n, f, hn⟩ rfl

theorem newWords_static (hs : Stands g b h A bins) (hx : x.toNat < b.start)
    (hne : x ≠ g.newestBig) : x ∉ NewWords g A h.brk := by
  have hbrk := hs.brk_above
  rintro (he | ⟨hlow, -⟩ | ⟨n, f, hn⟩)
  · exact hne he
  · omega
  · have := hs.arena.above x _ hn
    omega

/-- No chunk begins with something it reads. -/
theorem reads_ne (hA : ArenaAt b h A) {d : Chunk} (hq : A q = some d)
    (hr : Reads q d x) : IsBlock A q → x ≠ q := by
  rintro ⟨n, f, hn⟩ rfl
  obtain rfl := Option.some.inj (hq.symm.trans hn)
  obtain ⟨-, hh, hz, hm, ho⟩ := header_toNat (hA.aligned x _ hn)
  rcases hr with he | he | he | ⟨-, he⟩
  all_goals
    have hx := congrArg BitVec.toNat he
    omega

theorem newWords_not_index (hs : Stands g b h A bins) (hx : x ∈ IndexWords g A) :
    x ∉ NewWords g A h.brk := by
  rcases hs.index_cases hx with hlow | ⟨q, n, f, hq, ho, hlow, -⟩
  · exact newWords_static hs hlow fun he => hs.newest_not_index (he ▸ hx)
  · refine newWords_other hs ho fun _ he => ?_
    rw [he] at hlow
    omega

theorem Stands.newBlock {k : U32int} (hs : Stands g b h A bins) (hg : Grows b h k)
    (hw : Writes (NewWords g A h.brk) (h.grown k) h') (hk : k.toNat = 4096 * n)
    (hd : Block h'.words h.brk n false) (hnewest : h'.words g.newestBig = h.brk) :
    Stands g b h' (Function.update A h.brk (some (.block n false))) bins := by
  have hs1 := Stands.grown hs hg
  have hnone := none_of_brk hs.arena
  have hA := hs1.arena.put hw hs.brk_aligned hs.brk_above (d := .block n false)
    (by rw [grown_brk hg, hk]; exact le_rfl) (fun q e hq hlt => by
      have := hs.arena.page_below hq
      omega) (fun q e hq _ => hs.arena.below q e hq)
    (fun q e x _ hq hr => newWords_other hs (hs.arena.reads_owned hq hr) (reads_ne hs.arena hq hr))
      hd
  refine ⟨hs.placed, hw.brk ▸ hs1.brk_aligned, hw.brk ▸ hs1.brk_above, hA,
    ⟨fun j hj => ?_, hs.pages.nodup, fun j hj q => ?_⟩, .inr ⟨n, false, ?_⟩⟩
  · refine (hs1.pages.linked j hj).congr fun x hx => hw.words x ?_
    rcases List.mem_cons.mp hx with rfl | hin
    · exact newWords_static hs (hs.bin_static hj).1 fun he =>
        hs.placed.newest_bins (he ▸ (hs.bin_static hj).2)
    · obtain ⟨l, -, hp⟩ := hs.page_of_mem hj hin
      refine newWords_other hs (next_owned hs hp) ?_
      rintro ⟨m, e, hm⟩
      rw [hp] at hm
      cases hm
  · rw [hs.pages.mem j hj]
    by_cases hqp : q = h.brk
    · subst hqp
      rw [Function.update_self, hnone]
      exact iff_of_false (fun ⟨l, _, he⟩ => by cases he) fun ⟨l, _, he⟩ => by cases he
    · rw [Function.update_of_ne hqp]
  · rw [hnewest, Function.update_self]

theorem blockPages_pos (size : U32int) : 0 < (blockPages size).toNat := by
  rw [blockPages_toNat]
  omega

theorem pages_toNat (hn : (blockPages size).toNat < 2^20) :
    (pageSize * blockPages size).toNat = 4096 * (blockPages size).toNat := by
  rw [BitVec.toNat_mul, show pageSize.toNat = 4096 from rfl, Nat.mod_eq_of_lt (by omega)]

/-- The size a new block's header is given. -/
theorem blockSize_eq (hn : (blockPages size).toNat < 2^20) :
    blockPages size * pageSize - bigBinHeaderSize = BitVec.ofNat 32
    (blockBytes (blockPages size).toNat) := by
  have hpos := blockPages_pos size
  have hmul : (blockPages size * pageSize).toNat = 4096 * (blockPages size).toNat := by
    rw [mul_comm, pages_toNat hn]
  apply BitVec.eq_of_toNat_eq
  rw [BitVec.toNat_sub, hmul, BitVec.toNat_ofNat, blockBytes]
  change (2^32 - 48 + _) % 2^32 = _
  omega

theorem blockBytes_whole (hpos : 0 < n) :
    Slab.sizeWhole (BitVec.ofNat 32 (blockBytes n)) = true := by
  have hend := blockBytes_eq hpos
  rw [Slab.sizeWhole, beq_iff_eq]
  apply BitVec.eq_of_toNat_eq
  rw [BitVec.toNat_umod, BitVec.toNat_add, BitVec.toNat_ofNat]
  change (_ % 2^32 + 48) % 2^32 % 4096 = 0
  omega

theorem reaches_newest (hs : Stands g b h A bins) (h' : Heap) : Reaches b h' g.newestBig :=
  reaches_static (hs.placed.aligned g.newestBig (by simp))
    (hs.placed.word_end g.newestBig (by simp))

/-- Words of the first page behind the break. -/
theorem reaches_new (hs : Stands g b h A bins) (hg : Grows b h (pageSize * blockPages size))
    (hn : (blockPages size).toNat < 2^20) {k : U32int} (hk : k.toNat < 4096)
    (hk4 : k.toNat % 4 = 0) (h' : Heap)
    (hbrk : h'.brk = (h.grown (pageSize * blockPages size)).brk) : Reaches b h' (h.brk + k) := by
  have hoff := offset_toNat hs.brk_aligned hk
  have habove := hs.brk_above
  have hpos := blockPages_pos size
  have hend := grown_brk hg
  rw [pages_toNat hn] at hend
  have ha := hs.brk_aligned
  refine reaches_heap (by omega) (by omega) ?_
  rw [hbrk, hend]
  omega

theorem newWords_header (hlow : p.toNat ≤ x.toNat)
    (hhigh : x.toNat < p.toNat + 48) : x ∈ NewWords g A p :=
  .inr (.inl ⟨hlow, hhigh⟩)

/-- The last stores, whether or not there was an older block to link. -/
theorem newBigBin_rest (hs : Stands g b h A bins) (hg : Grows b h (pageSize * blockPages size))
    (hn : (blockPages size).toNat < 2^20)
    (hw : Writes (NewWords g A h.brk) (h.grown (pageSize * blockPages size)) h')
    (hmagic' : h'.words (BinHeader.magic h.brk) = binMagic)
    (hsize' : h'.words (BinHeader.size h.brk) = BitVec.ofNat 32
    (blockBytes (blockPages size).toNat)) : Yields (heapMachine b) (do
      store g.newestBig h.brk
      store (BinHeader.next h.brk) null
      store (BinHeader.head h.brk) null
      return h.brk + bigBinHeaderSize) h' fun p h'' => p = h.brk + bigBinHeaderSize ∧
        Stands g b h'' (Function.update A h.brk (some (.block (blockPages size).toNat false)))
          bins ∧ Writes (NewWords g A h.brk) (h.grown (pageSize * blockPages size)) h'' := by
  obtain ⟨hnext, hhead, hsize, hmagic, -⟩ := header_toNat hs.brk_aligned
  have hne : ∀ {x y : U32int}, x.toNat ≠ y.toNat → x ≠ y :=
    fun hn he => hn (congrArg BitVec.toNat he)
  have hnewest : g.newestBig.toNat < h.brk.toNat := hs.newest_static.trans_le hs.brk_above
  have hrnext : ∀ h'', h''.brk = (h.grown (pageSize * blockPages size)).brk →
      Reaches b h'' (BinHeader.next h.brk) := by
    intro h'' hbrk
    have hr := reaches_new hs hg hn (k := 0) (by decide) (by decide) h'' hbrk
    rwa [add_zero] at hr
  have hw3 : Writes (NewWords g A h.brk) (h.grown (pageSize * blockPages size))
      (((h'.set g.newestBig h.brk).set (BinHeader.next h.brk) null).set
          (BinHeader.head h.brk) null) :=
    ((hw.set (.inl rfl)).set (newWords_header (by omega) (by omega))).set
      (newWords_header (by omega) (by omega))
  refine .store (store_heap (reaches_newest hs _) _)
    (.store (store_heap (by exact hrnext _ hw.brk) _) ?_)
  refine .store (store_heap
    (by exact reaches_new hs hg hn (k := 4) (by decide) (by decide) _ hw.brk) _)
    (.ret ⟨rfl, Stands.newBlock hs hg hw3 (pages_toNat hn)
      ⟨?_, ?_, Heap.set_same, fun hf => Bool.noConfusion hf, blockPages_pos size⟩ ?_, hw3⟩)
  · rw [Heap.set_of_ne (hne (by omega)), Heap.set_of_ne (hne (by omega)),
      Heap.set_of_ne (hne (by omega)), hmagic']
  · rw [Heap.set_of_ne (hne (by omega)), Heap.set_of_ne (hne (by omega)),
      Heap.set_of_ne (hne (by omega)), hsize']
  · rw [Heap.set_of_ne (hne (by omega)), Heap.set_of_ne (hne (by omega)), Heap.set_same]

/-- A new block stands behind the break and is the newest. -/
theorem newBigBin_yields (hs : Stands g b h A bins) (hg : Grows b h (pageSize * blockPages size))
    (hn : (blockPages size).toNat < 2^20) :
    Yields (heapMachine b) (Slab.newBigBin g size) h fun p h' => p = h.brk + bigBinHeaderSize ∧
      Stands g b h' (Function.update A h.brk (some (.block (blockPages size).toNat false))) bins ∧
        Writes (NewWords g A h.brk) (h.grown (pageSize * blockPages size)) h' := by
  set p := h.brk with hp
  set h1 := h.grown (pageSize * blockPages size) with hh1
  have ha : p.toNat % 4096 = 0 := hs.brk_aligned
  have hreach : ∀ k : U32int, k.toNat < 4096 → k.toNat % 4 = 0 →
      ∀ h', h'.brk = h1.brk → Reaches b h' (p + k) :=
    fun k hk hk4 => reaches_new hs hg hn hk hk4
  obtain ⟨hnext, hhead, hsize, hmagic, -⟩ := header_toNat ha
  have hprev : (BinHeader.prev p).toNat = p.toNat + 16 := offset_toNat ha (by decide)
  have hne : ∀ {x y : U32int}, x.toNat ≠ y.toNat → x ≠ y :=
    fun hn he => hn (congrArg BitVec.toNat he)
  have hnewest : g.newestBig.toNat < p.toNat := hs.newest_static.trans_le hs.brk_above
  have hv := blockSize_eq hn
  set v := BitVec.ofNat 32 (blockBytes (blockPages size).toNat)
  have hvwhole : Slab.sizeWhole (blockPages size * pageSize - bigBinHeaderSize) = true := by
    rw [hv]
    exact blockBytes_whole (blockPages_pos size)
  refine .grow (grow_heap hg) (.store (store_heap (hreach 12 (by decide) (by decide) _ rfl) _)
    (.check (page_whole ha) ?_))
  refine .store (store_heap (by exact hreach 8 (by decide) (by decide) _ rfl) _) (.check hvwhole ?_)
  change Yields _ _ ((h1.set (BinHeader.magic p) binMagic).set (BinHeader.size p)
    (blockPages size * pageSize - bigBinHeaderSize)) _
  rw [hv]
  have hold : ((h1.set (BinHeader.magic p) binMagic).set (BinHeader.size p) v).words g.newestBig =
      h.words g.newestBig := by
    rw [Heap.set_of_ne (hne (by omega)), Heap.set_of_ne (hne (by omega)), Heap.grown_below hnewest]
  refine .load ((load_heap (reaches_newest hs _)).trans (congrArg Except.ok hold)) ?_
  refine .store (store_heap (by exact hreach 16 (by decide) (by decide) _ rfl) _) ?_
  set h4 := ((h1.set (BinHeader.magic p) binMagic).set (BinHeader.size p) v).set (BinHeader.prev p)
    (h.words g.newestBig) with hh4
  have hw4 : Writes (NewWords g A p) h1 h4 :=
    (((Writes.refl _ _).set (newWords_header (by omega) (by omega))).set
    (newWords_header (by omega) (by omega))).set (newWords_header (by omega) (by omega))
  have hm4 : h4.words (BinHeader.magic p) = binMagic := by
    rw [Heap.set_of_ne (hne (by omega)), Heap.set_of_ne (hne (by omega)), Heap.set_same]
  have hz4 : h4.words (BinHeader.size p) = v := by
    rw [Heap.set_of_ne (hne (by omega)), Heap.set_same]
  rcases hs.newest with hnull | ⟨m, e, hm⟩
  · rw [if_neg (not_not.mpr hnull)]
    exact newBigBin_rest hs hg hn hw4 hm4 hz4
  · -- the older block is linked to the new one
    have hbelow : (h.words g.newestBig).toNat + 4096 ≤ p.toNat := hs.arena.page_below hm
    have hfar : ∀ x : U32int, p.toNat ≤ x.toNat →
        x ≠ BinHeader.next (h.words g.newestBig) := fun x hx =>
      hne (by change _ ≠ (h.words g.newestBig).toNat; omega)
    have hrn : Reaches b h4 (BinHeader.next (h.words g.newestBig)) := by
      have hr := hs.arena.reaches_offset hm (k := 0) (by decide) (by decide)
      rw [add_zero] at hr
      obtain ⟨hr4, hr⟩ := hr
      refine ⟨hr4, hr.imp_right fun hheap => ⟨hheap.1, ?_⟩⟩
      rw [hw4.brk, hh1, grown_brk hg]
      exact hheap.2.trans (Nat.le_add_right _ _)
    rw [if_pos (hs.arena.ne_null hm)]
    refine .store (store_heap hrn _)
      (newBigBin_rest hs hg hn (hw4.set (.inr (.inr ⟨m, e, hm⟩))) ?_ ?_)
    · rw [← hp, Heap.set_of_ne (hfar _ (by omega)), hm4]
    · rw [← hp, Heap.set_of_ne (hfar _ (by omega)), hz4]

end

end SimpleOs.Audit.SlabBlocks
