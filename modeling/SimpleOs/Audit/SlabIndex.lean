import SimpleOs.Audit.SlabHeap

/-!
# The skip list of free blocks

Seven levels of lists through the links in the blocks, ordered by size. A search ends at
the last block that is too small, an insertion links a block in and a deletion takes one
out on all its levels; the level in use follows.
-/

namespace SimpleOs.Audit.SlabIndex

open SimpleOs.Kernel SimpleOs.Lib.WordProgram SimpleOs.Lib.LinkedList SimpleOs.Lib.SkipList
open SimpleOs.Audit.SlabHeap

/-- Blocks are ordered by the size in their header. -/
def key (w : U32int → U32int) (q : U32int) : Nat := (w (BinHeader.size q)).toNat

def link (w : U32int → U32int) (i : Nat) (q : U32int) : U32int := w (BinHeader.forward q i)

structure Index (g : SlabStatics) (w : U32int → U32int)
    (levels : Nat → List U32int) (top : Nat) : Prop where
  ordered : Levels (key w) levels
  linked : ∀ i ≤ 6, Linked (link w i) null g.bigBins (levels i)
  above : ∀ i, top < i → levels i = []
  top_le : top ≤ 6
  level : w g.level = BitVec.ofNat 32 top

def IsBlock (A : Arena) (q : U32int) : Prop := ∃ n f, A q = some (.block n f)

/-- Something with links: the head or a block. -/
def Node (g : SlabStatics) (A : Arena) (q : U32int) : Prop := q = g.bigBins ∨ IsBlock A q

section

variable {g : SlabStatics} {b : Bounds} {h h' : Heap} {A : Arena} {bins : U32int → List U32int}
  {levels : Nat → List U32int} {top i j : Nat} {p q x size node : U32int}

theorem forward_toNat (hs : Stands g b h A bins) (hq : Node g A q) (hi : i ≤ 6) :
    (BinHeader.forward q i).toNat = q.toNat + 20 + 4 * i := by
  have hk : (BitVec.ofNat 32 (20 + 4 * i)).toNat = 20 + 4 * i := by
    rw [BitVec.toNat_ofNat]
    omega
  rcases hq with rfl | ⟨n, f, hq⟩
  · have hend := hs.placed.index_end
    have hle := b.statics_le.trans (b.start_le.trans b.limit_le)
    rw [BinHeader.forward, BitVec.toNat_add, hk]
    omega
  · rw [BinHeader.forward, offset_toNat (hs.arena.aligned q _ hq) (by omega), hk]
    omega

theorem forward_index (hs : Stands g b h A bins) (hq : Node g A q) (hi : i ≤ 6) :
    BinHeader.forward q i ∈ IndexWords g A := by
  have hoff := forward_toNat hs hq hi
  rcases hq with rfl | ⟨n, f, hq⟩
  · exact .inl ⟨by omega, by omega⟩
  · exact .inr (.inr ⟨q, n, f, hq, by omega, by omega⟩)

theorem forward_reaches (hs : Stands g b h A bins) (hq : Node g A q) (hi : i ≤ 6) :
    Reaches b h (BinHeader.forward q i) := by
  have hoff := forward_toNat hs hq hi
  rcases hq with rfl | ⟨n, f, hq⟩
  · have hend := hs.placed.index_end
    have ha := hs.placed.aligned g.bigBins (by simp)
    exact reaches_static (by omega) (by omega)
  · have ha := hs.arena.aligned q _ hq
    have habove := hs.arena.above q _ hq
    have hbelow := hs.arena.page_below hq
    exact reaches_heap (by omega) (by omega) (by omega)

theorem forward_inj (hs : Stands g b h A bins) (hp : Node g A p) (hq : Node g A q) (hi : i ≤ 6)
    (hj : j ≤ 6) (he : BinHeader.forward p i = BinHeader.forward q j) : p = q ∧ i = j := by
  have hpo := forward_toNat hs hp hi
  have hqo := forward_toNat hs hq hj
  have hn := congrArg BitVec.toNat he
  have hend := hs.placed.index_end
  have hle := b.statics_le
  rcases hp with rfl | ⟨n, f, hp⟩ <;> rcases hq with rfl | ⟨n', f', hq⟩
  · exact ⟨rfl, by omega⟩
  · have := hs.arena.above q _ hq
    omega
  · have := hs.arena.above p _ hp
    omega
  · have hpa := hs.arena.aligned p _ hp
    have hqa := hs.arena.aligned q _ hq
    have hpq : p = q := BitVec.eq_of_toNat_eq (by omega)
    subst hpq
    exact ⟨rfl, by omega⟩

theorem level_toNat (hs : Stands g b h A bins) : g.level.toNat = g.bigBins.toNat + 48 := by
  have hend := hs.placed.index_end
  have hle := b.statics_le.trans (b.start_le.trans b.limit_le)
  rw [SlabStatics.level, BitVec.toNat_add]
  change (_ + 48) % _ = _
  omega

theorem level_index (hs : Stands g b h A bins) : g.level ∈ IndexWords g A := by
  have hoff := level_toNat hs
  exact .inl ⟨by omega, by omega⟩

theorem level_reaches (hs : Stands g b h A bins) : Reaches b h g.level := by
  have hoff := level_toNat hs
  have hend := hs.placed.index_end
  have ha := hs.placed.aligned g.bigBins (by simp)
  exact reaches_static (by omega) (by omega)

theorem forward_ne_level (hs : Stands g b h A bins) (hq : Node g A q) (hi : i ≤ 6) :
    BinHeader.forward q i ≠ g.level := by
  intro he
  have hoff := forward_toNat hs hq hi
  have hlev := level_toNat hs
  have hn := congrArg BitVec.toNat he
  have hend := hs.placed.index_end
  have hle := b.statics_le
  rcases hq with rfl | ⟨n, f, hq⟩
  · omega
  · have := hs.arena.above q _ hq
    omega

theorem size_reaches (hs : Stands g b h A bins) (hq : IsBlock A q) :
    Reaches b h (BinHeader.size q) := by
  obtain ⟨n, f, hq⟩ := hq
  exact hs.arena.reaches_offset hq (by decide) (by decide)

theorem head_reaches (hs : Stands g b h A bins) (hq : IsBlock A q) :
    Reaches b h (BinHeader.head q) := by
  obtain ⟨n, f, hq⟩ := hq
  exact hs.arena.reaches_offset hq (by decide) (by decide)

theorem size_not_index (hs : Stands g b h A bins) (hq : IsBlock A q) :
    BinHeader.size q ∉ IndexWords g A := by
  obtain ⟨n, f, hq⟩ := hq
  exact fun hx => hs.index_not_reads hx hq (.inr (.inl rfl))

theorem key_eq (hs : Stands g b h A bins) {n : Nat} {f : Bool} (hq : A q = some (.block n f)) :
    key h.words q = blockBytes n ∧ 48 + blockBytes n = 4096 * n ∧
    q.toNat + 4096 * n ≤ h.brk.toNat := by
  have hb := hs.arena.chunk q _ hq
  have hend : 48 + blockBytes n = 4096 * n := blockBytes_eq hb.pages_pos
  have hbelow : q.toNat + 4096 * n ≤ h.brk.toNat := hs.arena.below q _ hq
  have hlt := h.brk.isLt
  refine ⟨?_, hend, hbelow⟩
  rw [key, hb.size, BitVec.toNat_ofNat, Nat.mod_eq_of_lt (by omega)]

/-- Sizes are those of whole pages. -/
theorem sizeWhole_block (hs : Stands g b h A bins) (hq : IsBlock A q) :
    Slab.sizeWhole (h.words (BinHeader.size q)) = true := by
  obtain ⟨n, f, hq⟩ := hq
  obtain ⟨hkey, hend, hbelow⟩ := key_eq hs hq
  have hlt := h.brk.isLt
  rw [Slab.sizeWhole, beq_iff_eq]
  apply BitVec.eq_of_toNat_eq
  rw [BitVec.toNat_umod, BitVec.toNat_add]
  change ((key h.words q + 48) % 2^32) % 4096 = 0
  rw [hkey]
  omega

theorem aligned_block (hs : Stands g b h A bins) (hq : IsBlock A q) :
    (q % pageSize == 0) = true := by
  obtain ⟨n, f, hq⟩ := hq
  exact page_whole (hs.arena.aligned q _ hq)

/-- On one level the search goes on to the last block that is too small. -/
theorem skipAdvance_run (size : U32int) (hs : Stands g b h A bins) (hi : i ≤ 6)
    {l : List U32int} (hnode : Node g A node)
    (hl : Linked (link h.words i) null node l) (hord : Ordered (key h.words) l)
    (hb : ∀ q ∈ l, IsBlock A q)
    {fuel : Nat} (hfuel : l.length < fuel) :
    (Slab.skipAdvance size i fuel node).run (heapMachine b) h =
      .ok (pred (key h.words) node size.toNat l, h) := by
  induction l generalizing node fuel with
  | nil =>
    obtain ⟨fuel, rfl⟩ : ∃ k, fuel = k + 1 :=
      ⟨fuel - 1, by simp only [List.length_nil] at hfuel; omega⟩
    have hnext : h.words (BinHeader.forward node i) = null := hl
    rw [Slab.skipAdvance, run_bind_of_ok (run_load (load_heap (forward_reaches hs hnode hi))),
      hnext]
    rfl
  | cons q l ih =>
    obtain ⟨fuel, rfl⟩ : ∃ k, fuel = k + 1 :=
      ⟨fuel - 1, by simp only [List.length_cons] at hfuel; omega⟩
    obtain ⟨hnext, hnull, hrest⟩ := hl
    have hblock := hb q List.mem_cons_self
    change h.words (BinHeader.forward node i) = q at hnext
    rw [Slab.skipAdvance, run_bind_of_ok (run_load (load_heap (forward_reaches hs hnode hi))),
      hnext, if_pos hnull, run_bind_of_ok (run_load (load_heap (size_reaches hs hblock)))]
    by_cases hlt : h.words (BinHeader.size q) < size
    · rw [if_pos hlt, run_bind_of_ok (run_check (sizeWhole_block hs hblock) h),
        ih (.inr hblock) hrest (List.pairwise_cons.mp hord).2
          (fun r hr => hb r (List.mem_cons_of_mem _ hr)) (by simpa using hfuel)]
      rw [pred, pred, below_cons_of_lt hlt, List.getLastD_cons]
    · rw [if_neg hlt, pred, hord.below_nil (Nat.not_lt.mp hlt)]
      rfl

theorem nodup_length_le {l : List U32int} (hl : l.Nodup) : l.length ≤ 2^32 := by
  have hnodup : (l.map BitVec.toNat).Nodup := hl.map fun _ _ => BitVec.eq_of_toNat_eq
  have hsub : l.map BitVec.toNat ⊆ List.range (2^32) := fun n hn => by
    obtain ⟨x, -, rfl⟩ := List.mem_map.mp hn
    exact List.mem_range.mpr x.isLt
  have hle := (hnodup.subperm hsub).length_le
  rwa [List.length_map, List.length_range] at hle

/-- What a search finds on a level. -/
def found (g : SlabStatics) (w : U32int → U32int)
    (levels : Nat → List U32int) (k i : Nat) : U32int :=
  pred (key w) g.bigBins k (levels i)

theorem found_mem (g : SlabStatics) (w : U32int → U32int) (levels : Nat → List U32int) (k i : Nat) :
    found g w levels k i ∈ g.bigBins :: below (key w) k (levels i) := List.getLastD_mem_cons

/-- Each level is searched from where the one above was left. -/
theorem skipDescend_run (size : U32int) (hs : Stands g b h A bins) (hx : Index g h.words levels top)
    (hb : ∀ q ∈ levels 0, IsBlock A q) {n : Nat} (hn : n ≤ 7) (update : Nat → U32int) :
    ∃ update', (Slab.skipDescend size n (found g h.words levels size.toNat n) update).run
    (heapMachine b) h =
        .ok ((found g h.words levels size.toNat 0, update'), h) ∧
      ∀ i, update' i = if i < n then found g h.words levels size.toNat i else update i := by
  induction n generalizing update with
  | zero => exact ⟨update, rfl, fun i => rfl⟩
  | succ n ih =>
    have hmem : found g h.words levels size.toNat (n + 1) ∈
        g.bigBins :: below (key h.words) size.toNat (levels n) := by
      rcases List.mem_cons.mp (found_mem g h.words levels size.toNat (n + 1)) with he | hin
      · exact he ▸ List.mem_cons_self
      · exact List.mem_cons_of_mem _ (hx.ordered.below_subset size.toNat n hin)
    obtain ⟨l₁, l₂, hsplit, hlast, hpred⟩ := (hx.ordered.ordered_at n).resume hmem
    have hl := hx.linked n (by omega)
    rw [hsplit] at hl
    have hrest := hl.drop
    rw [hlast] at hrest
    have hsub : ∀ q ∈ l₂, q ∈ levels n := fun q hq => hsplit ▸ List.mem_append_right _ hq
    have hblock : ∀ q ∈ levels n, IsBlock A q :=
      fun q hq => hb q ((hx.ordered.sub_zero n).subset hq)
    have hnode : Node g A (found g h.words levels size.toNat (n + 1)) := by
      rcases List.mem_cons.mp hmem with he | hin
      · exact .inl he
      · exact .inr (hblock _ (mem_below.mp hin).1)
    have hord : Ordered (key h.words) l₂ := by
      have hall := hx.ordered.ordered_at n
      rw [hsplit] at hall
      exact (List.pairwise_append.mp hall).2.1
    have hlen : l₂.length < loopFuel := by
      have hle := nodup_length_le (hx.ordered.nodup_at n)
      rw [hsplit, List.length_append] at hle
      unfold loopFuel
      omega
    have hrun := skipAdvance_run size hs (by omega) hnode hrest hord
      (fun q hq => hblock q (hsub q hq)) hlen
    rw [hpred] at hrun
    obtain ⟨update', hdown, hupd⟩ :=
      ih (by omega) (Function.update update n (found g h.words levels size.toNat n))
    refine ⟨update', (run_bind_of_ok hrun _).trans hdown, fun i => ?_⟩
    rw [hupd i]
    rcases Nat.lt_trichotomy i n with hlt | rfl | hgt
    · rw [if_pos hlt, if_pos (by omega)]
    · rw [if_neg (lt_irrefl _), if_pos (by omega), Function.update_self]
    · rw [if_neg (by omega), if_neg (by omega), Function.update_of_ne (by omega)]

theorem level_load (hs : Stands g b h A bins) (hx : Index g h.words levels top) :
    (load g.level : SlabProgram U32int).run (heapMachine b) h = .ok (BitVec.ofNat 32 top, h) :=
  run_load ((load_heap (level_reaches hs)).trans (congrArg Except.ok hx.level))

theorem level_toInt (ht : top ≤ 6) : (BitVec.ofNat 32 top).toInt = top := by
  have hn : (BitVec.ofNat 32 top).toNat = top := by
    rw [BitVec.toNat_ofNat]
    omega
  rw [BitVec.toInt_eq_toNat_of_lt (by omega), hn]

theorem skipSearch_run (hs : Stands g b h A bins) (hx : Index g h.words levels top)
    (hb : ∀ q ∈ levels 0, IsBlock A q) {k : Nat} (hk : size.toNat = k) :
    ∃ update, (Slab.skipSearch g size).run (heapMachine b) h =
      .ok ((found g h.words levels k 0, update), h) ∧
      ∀ i ≤ top, update i = found g h.words levels k i := by
  subst hk
  have htop := hx.top_le
  have hfront : found g h.words levels size.toNat (top + 1) = g.bigBins := by
    rw [found, hx.above _ (Nat.lt_succ_self top)]
    rfl
  obtain ⟨update, hrun, hupd⟩ :=
    skipDescend_run size hs hx hb (by omega : top + 1 ≤ 7) fun _ => null
  rw [hfront] at hrun
  refine ⟨update, ?_, fun i hi => ?_⟩
  · have hrounds : Slab.roundsDown (BitVec.ofNat 32 top) = top + 1 := by
      rw [Slab.roundsDown, level_toInt htop]
      omega
    rw [Slab.skipSearch, run_bind_of_ok (level_load hs hx), hrounds]
    exact hrun
  · rw [hupd i, if_pos (by omega)]

/-- Behind the last block that is too small stands the first that is not. -/
theorem link_found {w w' : U32int → U32int} (hlev : Levels (key w) levels)
    (hl : Linked (link w' i) null g.bigBins (levels i)) (k : Nat) :
    link w' i (found g w levels k i) = (above (key w) k (levels i)).head?.getD null := by
  rw [← (hlev.ordered_at i).below_append_above (k := k)] at hl
  exact hl.drop.next_eq

theorem found_node {w : U32int → U32int} (hlev : Levels (key w) levels)
    (hb : ∀ q ∈ levels 0, IsBlock A q) (k i : Nat) : Node g A (found g w levels k i) := by
  rcases List.mem_cons.mp (found_mem g w levels k i) with he | hin
  · exact .inl he
  · exact .inr (hb _ ((hlev.sub_zero i).subset (mem_below.mp hin).1))

/-- The search for a fit finds the first block that is big enough, if any. -/
theorem skipListFindbest_run (hs : Stands g b h A bins) (hx : Index g h.words levels top)
    (hb : ∀ q ∈ levels 0, IsBlock A q) (size : U32int) :
    (Slab.skipListFindbest g size).run (heapMachine b) h =
      .ok ((above (key h.words) size.toNat (levels 0)).head?.getD null, h) := by
  obtain ⟨update, hrun, -⟩ := skipSearch_run hs hx hb (rfl : size.toNat = _)
  have hnode : Node g A (found g h.words levels size.toNat 0) := found_node hx.ordered hb _ 0
  have hnext := link_found hx.ordered (hx.linked 0 (Nat.zero_le 6)) size.toNat
  rw [link] at hnext
  rw [Slab.skipListFindbest, run_bind_of_ok hrun]
  dsimp only
  rw [run_bind_of_ok (run_load (load_heap (forward_reaches hs hnode (Nat.zero_le 6)))), hnext]
  cases habove : above (key h.words) size.toNat (levels 0) with
  | nil => rfl
  | cons q l =>
    have hin : q ∈ levels 0 := (mem_above.mp
      (habove ▸ List.mem_cons_self : q ∈ above (key h.words) size.toNat _)).1
    have hblock := hb q hin
    have hnull : q ≠ null := (hx.linked 0 (Nat.zero_le 6)).ne_null hin
    simp only [List.head?_cons, Option.getD_some, ne_eq, hnull, not_false_eq_true, if_true]
    rw [run_bind_of_ok (run_check (aligned_block hs hblock) h),
      run_bind_of_ok (run_load (load_heap (size_reaches hs hblock))),
      run_bind_of_ok (run_check (sizeWhole_block hs hblock) h)]
    rfl

theorem node_of_mem {l : List U32int} (hb : ∀ q ∈ l, IsBlock A q)
    (hq : q ∈ g.bigBins :: l) : Node g A q := by
  rcases List.mem_cons.mp hq with rfl | hin
  · exact .inl rfl
  · exact .inr (hb q hin)

/-- One link is stored. -/
theorem link_set_of_ne (hs : Stands g b h A bins) (hp : Node g A p)
    (hq : Node g A q) (hi : i ≤ 6) (hj : j ≤ 6)
    (hne : q = p → j ≠ i) (v : U32int) :
    link (h.set (BinHeader.forward p i) v).words j q = link h.words j q :=
  Heap.set_of_ne fun he => by
    obtain ⟨rfl, rfl⟩ := forward_inj hs hq hp hj hi he
    exact hne rfl rfl

theorem linked_set_other (hs : Stands g b h A bins) (hp : Node g A p) (hi : i ≤ 6)
    (hj : j ≤ 6) (hne : j ≠ i)
    (v : U32int) {l : List U32int} (hb : ∀ q ∈ l, IsBlock A q)
    (hl : Linked (link h.words j) null g.bigBins l) :
    Linked (link (h.set (BinHeader.forward p i) v).words j) null g.bigBins l := by
  exact hl.congr fun q hq => link_set_of_ne hs hp (node_of_mem hb hq) hi hj (fun _ => hne) v

/-- The checks on a block that is on the list, or about to be. -/
theorem checkHead_run (hs : Stands g b h A bins) {n : Nat} (hv : A q = some (.block n true)) :
    (Slab.checkHead q (h.words (BinHeader.head q)) (h.words (BinHeader.size q))).run
    (heapMachine b) h =
      .ok ((), h) := by
  obtain ⟨hkey, hend, hbelow⟩ := key_eq hs hv
  obtain ⟨-, -, -, -, hoff⟩ := header_toNat (hs.arena.aligned q _ hv)
  have hlt := h.brk.isLt
  have hpos : 0 < n := (hs.arena.chunk q _ hv).pages_pos
  have hhead : h.words (BinHeader.head q) = q + bigBinHeaderSize := (hs.arena.chunk q _ hv).head
  have hsize : (h.words (BinHeader.size q)).toNat = blockBytes n := hkey
  have hnull := hs.arena.ne_null hv
  have hnull' : q + bigBinHeaderSize ≠ null := fun he => by
    have hn := congrArg BitVec.toNat he
    rw [hoff] at hn
    exact absurd hn (by change _ ≠ 0; omega)
  have hbig : h.words (BinHeader.size q) > numBins := by
    rw [gt_iff_lt, BitVec.lt_def, hsize]
    change 11 < _
    omega
  have hafter : q + bigBinHeaderSize > q := by
    rw [gt_iff_lt, BitVec.lt_def, hoff]
    omega
  have hinside : q + bigBinHeaderSize < q + h.words (BinHeader.size q) := by
    rw [BitVec.lt_def, hoff, BitVec.toNat_add, hsize]
    omega
  rw [hhead, Slab.checkHead, run_bind_of_ok (run_check (decide_eq_true hnull) h),
    run_bind_of_ok (run_check (decide_eq_true hnull') h),
      run_bind_of_ok (run_check (decide_eq_true hafter) h),
    if_pos hbig, run_check (decide_eq_true hinside) h]

variable {v : U32int} {l : List U32int} {w : U32int → U32int}

theorem head_not_block (hs : Stands g b h A bins) : ¬ IsBlock A g.bigBins := by
  rintro ⟨n, f, hq⟩
  have habove := hs.arena.above _ _ hq
  have hend := hs.placed.index_end
  have hle := b.statics_le
  omega

/-- On one level the block is taken out by a store to the link in front of it. -/
theorem linked_unlink (hlev : Levels (key w) levels)
    (hfirst : above (key w) (key w v) (levels 0) = v :: l)
    (hb : ∀ q ∈ levels 0, IsBlock A q) (hs : Stands g b h A bins) (hi : i ≤ 6) (hv : v ∈ levels i)
    (hl : Linked (link h.words i) null g.bigBins (levels i)) :
    h.words (BinHeader.forward (found g w levels (key w v) i) i) = v ∧
      (h.words (BinHeader.forward v i) ≠ null → IsBlock A (h.words (BinHeader.forward v i))) ∧
      Linked (link (h.set (BinHeader.forward (found g w levels (key w v) i) i)
        (h.words (BinHeader.forward v i))).words i) null g.bigBins (removed levels v i) := by
  obtain ⟨r, hsplit, hrem⟩ := hlev.split_first hfirst hv
  have hnodup : (below (key w) (key w v) (levels i) ++ v :: r).Nodup := hsplit ▸ hlev.nodup_at i
  have hblock : ∀ q ∈ below (key w) (key w v) (levels i) ++ v :: r, IsBlock A q := fun q hq =>
    hb q ((hlev.sub_zero i).subset (hsplit ▸ hq))
  have hu : found g w levels (key w v) i ∈ g.bigBins :: below (key w) (key w v) (levels i) :=
    found_mem g w levels (key w v) i
  have hnodes : ∀ q ∈ g.bigBins :: below (key w) (key w v) (levels i), Node g A q := fun q hq =>
    node_of_mem (fun r hr => hblock r (List.mem_append_left _ hr)) hq
  rw [hsplit] at hl
  refine ⟨hl.drop.1, fun hnull => ?_, ?_⟩
  · have hnext : h.words (BinHeader.forward v i) = r.head?.getD null := hl.drop.2.2.next_eq
    cases r with
    | nil => exact absurd hnext hnull
    | cons q r =>
      rw [hnext]
      exact hblock q (by simp)
  rw [hrem]
  refine hl.erase (List.nodup_cons.mpr ⟨fun hmem => ?_, (List.nodup_append.mp hnodup).1⟩)
    Heap.set_same ?_ ?_
  · exact head_not_block hs (hblock _ (List.mem_append_left _ hmem))
  · exact fun q hq hne => link_set_of_ne hs (hnodes _ hu) (hnodes q hq) hi hi
      (fun he => absurd he hne) _
  · intro q hq
    have hqb := hblock q (List.mem_append_right _ (List.mem_cons_of_mem _ hq))
    refine link_set_of_ne hs (hnodes _ hu) (.inr hqb) hi hi (fun he => ?_) _
    exfalso
    rcases List.mem_cons.mp hu with hfront | hmem
    · exact head_not_block hs (hfront ▸ he ▸ hqb)
    · exact (List.nodup_append.mp hnodup).2.2 _ hmem _ (List.mem_cons_of_mem _ hq) he.symm

/-- Levels from `i` on do not have the block. -/
theorem linked_removed (hlev : Levels (key w) levels)
    {next : Nat → U32int → U32int} (hv : v ∉ levels i)
    (hl : ∀ j ≤ 6, Linked (next j) null g.bigBins
    (if j < i then removed levels v j else levels j)) :
    ∀ j ≤ 6, Linked (next j) null g.bigBins (removed levels v j) := by
  intro j hj
  have hlj := hl j hj
  by_cases hji : j < i
  · rwa [if_pos hji] at hlj
  · rw [removed_of_not_mem fun hin => hv ((hlev.sub_of_le (Nat.not_lt.mp hji)).subset hin)]
    rwa [if_neg hji] at hlj

/-- The check on what a link is set to. -/
theorem check_next (hs : Stands g b h A bins) (hp : p ≠ null → IsBlock A p) {x : SlabProgram Unit}
    {Q : Unit → Heap → Prop} (hx : Yields (heapMachine b) x h Q) :
    Yields (heapMachine b) (if p ≠ null then do
      Slab.assert (p % pageSize == 0)
      let size ← load (BinHeader.size p)
      Slab.assert (Slab.sizeWhole size)
      x
    else x) h Q := by
  by_cases hn : p = null
  · rw [if_neg (not_not.mpr hn)]
    exact hx
  · have hblock := hp hn
    rw [if_pos hn]
    exact .check (aligned_block hs hblock) (.load (load_heap (size_reaches hs hblock))
      (.check (sizeWhole_block hs hblock) hx))

/-- From level `i` on the block is taken out, as far up as it is on the list. -/
theorem skipUnlink_yields (hlev : Levels (key w) levels)
    (hfirst : above (key w) (key w v) (levels 0) = v :: l)
    (hb : ∀ q ∈ levels 0, IsBlock A q) (htop : top ≤ 6) (hnone : ∀ i, top < i → levels i = [])
    {update : Nat → U32int} (hupd : ∀ i ≤ top, update i = found g w levels (key w v) i) {n : Nat}
    (hs : Stands g b h A bins) (hin : i + n = top + 1)
    (hl : ∀ j ≤ 6, Linked (link h.words j) null g.bigBins
    (if j < i then removed levels v j else levels j)) :
    Yields (heapMachine b) (Slab.skipUnlink v update n i) h fun _ h' =>
    Writes (IndexWords g A) h h' ∧
      h'.words g.level = h.words g.level ∧
      ∀ j ≤ 6, Linked (link h'.words j) null g.bigBins (removed levels v j) := by
  have hv0 : v ∈ levels 0 := (mem_above.mp
    (hfirst ▸ List.mem_cons_self : v ∈ above (key w) (key w v) (levels 0))).1
  have hsub : ∀ j, ∀ q ∈ levels j, IsBlock A q := fun j q hq => hb q ((hlev.sub_zero j).subset hq)
  have hvnode : Node g A v := .inr (hb v hv0)
  induction n generalizing i h with
  | zero =>
    have hnot : v ∉ levels i := by
      rw [hnone i (by omega)]
      exact List.not_mem_nil
    exact .ret ⟨.refl _ _, rfl, linked_removed hlev hnot hl⟩
  | succ n ih =>
    have hi : i ≤ 6 := by omega
    have hli := hl i hi
    rw [if_neg (lt_irrefl i)] at hli
    have hunode : Node g A (update i) := by
      rw [hupd i (by omega)]
      exact found_node hlev hb _ i
    refine .load (load_heap (forward_reaches hs hunode hi)) ?_
    by_cases hvi : v ∈ levels i
    · obtain ⟨hat, hnext, hlinked⟩ := linked_unlink hlev hfirst hb hs hi hvi hli
      rw [← hupd i (by omega)] at hat hlinked
      rw [if_neg (not_not.mpr hat)]
      refine .load (load_heap (forward_reaches hs hvnode hi))
        (.store (store_heap (forward_reaches hs hunode hi) _) ?_)
      set h1 := h.set (BinHeader.forward (update i) i) (h.words (BinHeader.forward v i)) with hh1
      have hw : Writes (IndexWords g A) h h1 := writes_set (forward_index hs hunode hi)
      have hs1 : Stands g b h1 A bins := hs.index hw
      refine check_next hs1 hnext ?_
      refine (ih hs1 (by omega) fun j hj => ?_).mono fun _ h' ⟨hw', hlevel, hall⟩ =>
        ⟨hw.trans hw', hlevel.trans (Heap.set_of_ne (forward_ne_level hs hunode hi).symm), hall⟩
      by_cases hji : j = i
      · subst hji
        rw [if_pos (Nat.lt_succ_self j)]
        exact hlinked
      · have hsame : (if j < i + 1 then removed levels v j else levels j) =
            if j < i then removed levels v j else levels j := if_congr (by omega) rfl rfl
        rw [hsame]
        refine linked_set_other hs hunode hi hj hji _ (fun q hq => ?_) (hl j hj)
        split_ifs at hq
        · exact hsub j q (List.erase_subset hq)
        · exact hsub j q hq
    · have hat : h.words (BinHeader.forward (update i) i) ≠ v := by
        have hnext := link_found hlev hli (key w v)
        rw [← hupd i (by omega), link] at hnext
        rw [hnext]
        cases habove : above (key w) (key w v) (levels i) with
        | nil => exact (hs.arena.ne_null (hb v hv0).choose_spec.choose_spec).symm
        | cons q r =>
          rintro rfl
          exact hvi (mem_above.mp (habove ▸ List.mem_cons_self)).1
      rw [if_pos hat]
      exact .ret ⟨.refl _ _, rfl, linked_removed hlev hvi hl⟩

theorem linked_set_level (hs : Stands g b h A bins) (hj : j ≤ 6) (v : U32int) {l : List U32int}
    (hb : ∀ q ∈ l, IsBlock A q) (hl : Linked (link h.words j) null g.bigBins l) :
    Linked (link (h.set g.level v).words j) null g.bigBins l :=
  hl.congr fun _ hq => Heap.set_of_ne (forward_ne_level hs (node_of_mem hb hq) hj)

/-- The level in use goes down as long as it is empty. -/
theorem skipLower_yields (hs : Stands g b h A bins) (hb : ∀ j, ∀ q ∈ levels j, IsBlock A q)
    {n : Nat} (hn : n ≤ 6)
    (hl : ∀ j ≤ 6, Linked (link h.words j) null g.bigBins (levels j)) (hnone : ∀ i, n < i →
    levels i = []) (hlevel : h.words g.level = BitVec.ofNat 32 n) :
    Yields (heapMachine b) (Slab.skipLower g n) h fun _ h' => Writes (IndexWords g A) h h' ∧
      (∀ j ≤ 6, Linked (link h'.words j) null g.bigBins (levels j)) ∧
      ∃ n' ≤ n, h'.words g.level = BitVec.ofNat 32 n' ∧ ∀ i, n' < i → levels i = [] := by
  induction n generalizing h with
  | zero => exact .ret ⟨.refl _ _, hl, 0, le_rfl, hlevel, hnone⟩
  | succ n ih =>
    have hfront : Node g A g.bigBins := .inl rfl
    refine .load (load_heap (forward_reaches hs hfront hn)) ?_
    by_cases hfirst : h.words (BinHeader.forward g.bigBins (n + 1)) = null
    · rw [if_pos hfirst]
      refine .store (store_heap (level_reaches hs) _) ?_
      have hw : Writes (IndexWords g A) h (h.set g.level (BitVec.ofNat 32 n)) :=
        writes_set (level_index hs)
      have hempty : levels (n + 1) = [] := (hl (n + 1) hn).next_eq_null_iff.mp hfirst
      refine (ih (hs.index hw) (by omega) (fun j hj => linked_set_level hs hj _ (hb j) (hl j hj))
        (fun i hi => ?_) Heap.set_same).mono fun _ h' ⟨hw', hl', n', hle, hlev', hall⟩ =>
          ⟨hw.trans hw', hl', n', by omega, hlev', hall⟩
      rcases Nat.lt_or_ge (n + 1) i with hlt | hge
      · exact hnone i hlt
      · obtain rfl : i = n + 1 := by omega
        exact hempty
    · rw [if_neg hfirst]
      exact .ret ⟨.refl _ _, hl, n + 1, le_rfl, hlevel, hnone⟩

theorem skipWalkTo_self (v : U32int) :
    (Slab.skipWalkTo v loopFuel v).run (heapMachine b) h = .ok (v, h) := by
  rw [show loopFuel = 2^32 + 1 from rfl, Slab.skipWalkTo, if_neg (not_not.mpr rfl)]
  rfl

theorem key_writes (hs : Stands g b h A bins) (hw : Writes (IndexWords g A) h h')
    (hq : IsBlock A q) :
    key h'.words q = key h.words q := congrArg BitVec.toNat (hw.words _ (size_not_index hs hq))

/-- The first block of its size or a larger one is taken off the list. -/
theorem skipListDelete_yields (hs : Stands g b h A bins) (hx : Index g h.words levels top)
    (hb : ∀ q ∈ levels 0, IsBlock A q) {n : Nat} (hv : A v = some (.block n true))
    (hfirst : above (key h.words) (key h.words v) (levels 0) = v :: l) :
    Yields (heapMachine b) (Slab.skipListDelete g v) h fun _ h' => Writes (IndexWords g A) h h' ∧
      ∃ top', Index g h'.words (removed levels v) top' := by
  have hvb : IsBlock A v := ⟨n, true, hv⟩
  have htop := hx.top_le
  have hsub : ∀ j, ∀ q ∈ removed levels v j, IsBlock A q := fun j q hq =>
    hb q ((hx.ordered.sub_zero j).subset (List.erase_subset hq))
  obtain ⟨update, hsearch, hupd⟩ := skipSearch_run hs hx hb (k := key h.words v) rfl
  have hnode : Node g A (found g h.words levels (key h.words v) 0) := found_node hx.ordered hb _ 0
  have hnext := link_found hx.ordered (hx.linked 0 (Nat.zero_le 6)) (key h.words v)
  rw [hfirst, link] at hnext
  refine .load (load_heap (head_reaches hs hvb)) (.load (load_heap (size_reaches hs hvb)) ?_)
  refine .run (checkHead_run hs hv)
    (.run hsearch (.load (load_heap (forward_reaches hs hnode (Nat.zero_le 6))) ?_))
  rw [hnext]
  refine .run (skipWalkTo_self v) (.run (level_load hs hx) ?_)
  have hrounds : Slab.roundsDown (BitVec.ofNat 32 top) = top + 1 := by
    rw [Slab.roundsDown, level_toInt htop]
    omega
  rw [hrounds]
  refine (skipUnlink_yields hx.ordered hfirst hb htop hx.above hupd hs (Nat.zero_add _)
    fun j hj => ?_).bind fun _ h1 ⟨hw1, hlev1, hl1⟩ => ?_
  · rw [if_neg (Nat.not_lt_zero j)]
    exact hx.linked j hj
  have hs1 := hs.index hw1
  rw [hx.level] at hlev1
  refine .load (load_heap (level_reaches hs1)) ?_
  rw [hlev1, level_toInt htop]
  refine (skipLower_yields hs1 hsub (n := top) htop hl1 (fun i hi => ?_) hlev1).mono
    fun _ h2 ⟨hw2, hl2, top', hle, hlev2, hnone2⟩ =>
      ⟨hw1.trans hw2, top', ?_, hl2, hnone2, by omega, hlev2⟩
  · rw [removed, hx.above i hi]
    rfl
  · exact (hx.ordered.removed v).congr fun q hq => key_writes hs (hw1.trans hw2) (hsub 0 q hq)

/-- Nothing but the words of the list and the sizes of blocks matters. -/
theorem Index.frame (hx : Index g h.words levels top) (hs : Stands g b h A bins)
    (hb : ∀ q ∈ levels 0, IsBlock A q) (hindex : ∀ x ∈ IndexWords g A, h'.words x = h.words x)
    (hsize : ∀ q, IsBlock A q → h'.words (BinHeader.size q) = h.words (BinHeader.size q)) :
    Index g h'.words levels top where
  ordered := hx.ordered.congr fun q hq => congrArg BitVec.toNat (hsize q (hb q hq))
  linked := fun j hj => (hx.linked j hj).congr fun _ hq => hindex _
    (forward_index hs (node_of_mem (fun r hr => hb r ((hx.ordered.sub_zero j).subset hr)) hq) hj)
  above := hx.above
  top_le := hx.top_le
  level := (hindex _ (level_index hs)).trans hx.level

theorem rand_reaches (hs : Stands g b h A bins) (hr : InRand g x) (h' : Heap) : Reaches b h' x := by
  have hmem : x ∈ [g.newestBig, g.x, g.y, g.z, g.w] := by
    rcases hr with rfl | rfl | rfl | rfl <;> simp
  exact reaches_static (hs.placed.aligned x (by simp at hmem ⊢; tauto)) (hs.placed.word_end x hmem)

theorem skipRand_yields (hs : Stands g b h A bins) :
    Yields (heapMachine b) (Slab.skipRand g) h fun _ h' => Writes { x | InRand g x } h h' := by
  have hx : InRand g g.x := .inl rfl
  have hy : InRand g g.y := .inr (.inl rfl)
  have hz : InRand g g.z := .inr (.inr (.inl rfl))
  have hw : InRand g g.w := .inr (.inr (.inr rfl))
  refine .load (load_heap (rand_reaches hs hx _)) (.load (load_heap (rand_reaches hs hy _)) ?_)
  refine .store (store_heap (rand_reaches hs hx _) _) (.load (load_heap (rand_reaches hs hz _)) ?_)
  refine .store (store_heap (rand_reaches hs hy _) _) (.load (load_heap (rand_reaches hs hw _)) ?_)
  refine .store (store_heap (rand_reaches hs hz _) _)
    (.store (store_heap (rand_reaches hs hw _) _) (.ret ?_))
  exact (((Writes.set (.refl _ _) hx).set hy).set hz).set hw

/-- A level is drawn, which is six at most. -/
theorem randomLevelFrom_yields {n : Nat} (hs : Stands g b h A bins) (hi : i ≤ 6) :
    Yields (heapMachine b) (Slab.randomLevelFrom g n i) h fun m h' =>
    m ≤ 6 ∧ Writes { x | InRand g x } h h' := by
  induction n generalizing h i with
  | zero => exact .ret ⟨hi, .refl _ _⟩
  | succ n ih =>
    refine (skipRand_yields hs).bind fun r h1 hw => ?_
    have hs1 := hs.index (hw.mono fun x hx => .inr (.inl hx))
    by_cases hgo : r < skipP ∧ i < skipMaxLevel
    · rw [if_pos hgo]
      exact (ih hs1 (Nat.succ_le_iff.mpr hgo.2)).mono fun m h2 ⟨hm, hw2⟩ => ⟨hm, hw.trans hw2⟩
    · rw [if_neg hgo]
      exact .ret ⟨hi, hw⟩

theorem forward_not_rand (hs : Stands g b h A bins) (hq : Node g A q) (hi : i ≤ 6) :
    ¬ InRand g (BinHeader.forward q i) := by
  intro hr
  have hoff := forward_toNat hs hq hi
  rcases hq with rfl | ⟨n, f, hq⟩
  · exact hs.placed.rand_index _ hr ⟨by omega, by omega⟩
  · have hmem : BinHeader.forward q i ∈ [g.newestBig, g.x, g.y, g.z, g.w] := by
      rcases hr with he | he | he | he <;> simp [he]
    have hend := hs.placed.word_end _ hmem
    have habove := hs.arena.above q _ hq
    have hle := b.statics_le
    omega

/-- The random numbers are no part of the list. -/
theorem Index.rand (hx : Index g h.words levels top) (hs : Stands g b h A bins)
    (hb : ∀ q ∈ levels 0, IsBlock A q)
    (hw : Writes { x | InRand g x } h h') : Index g h'.words levels top where
  ordered := hx.ordered.congr fun q hq =>
    key_writes hs (hw.mono fun x hx => .inr (.inl hx)) (hb q hq)
  linked := fun i hi => (hx.linked i hi).congr fun q hq => hw.words _ <| forward_not_rand hs
    (node_of_mem (fun r hr => hb r ((hx.ordered.sub_zero i).subset hr)) hq) hi
  above := hx.above
  top_le := hx.top_le
  level := by
    have hlev := level_toNat hs
    rw [hw.words _ fun hr => hs.placed.rand_index _ hr ⟨by omega, by omega⟩]
    exact hx.level

/-- On one level a block is linked in behind the last one that is smaller. -/
theorem linked_insert {u : U32int} (hlev : Levels (key w) levels) (hb : ∀ q ∈ levels 0, IsBlock A q)
    (hs : Stands g b h A bins) (hi : i ≤ 6) (hv : IsBlock A v) (hnew : v ∉ levels 0)
    (hu : u = found g w levels (key w v) i)
    (hl : Linked (link h.words i) null g.bigBins (levels i)) :
    Linked (link ((h.set (BinHeader.forward v i) (h.words (BinHeader.forward u i))).set
      (BinHeader.forward u i) v).words i) null g.bigBins (insertAt (key w) v (levels i)) := by
  have hsplit := (hlev.ordered_at i).below_append_above (k := key w v)
  have hblock : ∀ q ∈ levels i, IsBlock A q := fun q hq => hb q ((hlev.sub_zero i).subset hq)
  have hne : ∀ q ∈ g.bigBins :: levels i, q ≠ v := by
    rintro q hq rfl
    rcases List.mem_cons.mp hq with he | hin
    · exact head_not_block hs (he ▸ hv)
    · exact hnew ((hlev.sub_zero i).subset hin)
  have hnodup : (below (key w) (key w v) (levels i) ++ above (key w) (key w v) (levels i)).Nodup :=
    hsplit.symm ▸ hlev.nodup_at i
  have hbelow : ∀ q ∈ g.bigBins :: below (key w) (key w v) (levels i),
      q ∈ g.bigBins :: levels i := fun q hq => by
    rcases List.mem_cons.mp hq with rfl | hin
    · exact List.mem_cons_self
    · exact List.mem_cons_of_mem _ (mem_below.mp hin).1
  have hmem : u ∈ g.bigBins :: below (key w) (key w v) (levels i) :=
    hu ▸ found_mem g w levels (key w v) i
  have hunode : Node g A u := node_of_mem hblock (hbelow u hmem)
  have hlast : (below (key w) (key w v) (levels i)).getLastD g.bigBins = u := hu.symm
  have hs1 := hs.index (writes_set (v := h.words (BinHeader.forward u i))
    (forward_index hs (.inr hv) hi))
  have hsame : ∀ q ∈ g.bigBins :: levels i, q ≠ u → link ((h.set (BinHeader.forward v i)
      (h.words (BinHeader.forward u i))).set (BinHeader.forward u i) v).words i q =
          link h.words i q := fun q hq hqu =>
    (link_set_of_ne hs1 hunode (node_of_mem hblock hq) hi hi (fun he => absurd he hqu) _).trans
      (link_set_of_ne hs (.inr hv) (node_of_mem hblock hq) hi hi (fun he => absurd he (hne q hq)) _)
  rw [← hsplit] at hl
  refine hl.insert (List.nodup_cons.mpr ⟨fun hin => ?_, (List.nodup_append.mp hnodup).1⟩) ?_ ?_ ?_
    (fun q hq hqu => hsame q (hbelow q hq) (hlast ▸ hqu)) fun q hq =>
      hsame q (List.mem_cons_of_mem _ (mem_above.mp hq).1) ?_
  · exact head_not_block hs (hblock _ (mem_below.mp hin).1)
  · exact hs.arena.ne_null hv.choose_spec.choose_spec
  · rw [hlast]
    refine (link_set_of_ne hs1 hunode (.inr hv) hi hi (fun he => ?_) _).trans Heap.set_same
    exact absurd he.symm (hne _ (hbelow _ hmem))
  · rw [hlast]
    exact Heap.set_same
  · rintro rfl
    rcases List.mem_cons.mp hmem with he | hin
    · exact head_not_block hs (he ▸ hblock _ (mem_above.mp hq).1)
    · exact (List.nodup_append.mp hnodup).2.2 _ hin _ hq rfl

/-- The block is linked in on the levels below `n`. -/
theorem skipLinks_yields (hlev : Levels (key w) levels) (hb : ∀ q ∈ levels 0, IsBlock A q)
    (hs : Stands g b h A bins) (hv : IsBlock A v) (hnew : v ∉ levels 0) {update : Nat → U32int}
    {n : Nat} (hn : n ≤ 7) (hupd : ∀ i < n, update i = found g w levels (key w v) i)
    (hl : ∀ j ≤ 6, Linked (link h.words j) null g.bigBins (levels j)) :
    Yields (heapMachine b) (Slab.skipLinks v update n) h fun _ h' => Writes (IndexWords g A) h h' ∧
      h'.words g.level = h.words g.level ∧ ∀ j ≤ 6, Linked (link h'.words j) null g.bigBins
        (if j < n then insertAt (key w) v (levels j) else levels j) := by
  have hsub : ∀ j, ∀ q ∈ levels j, IsBlock A q := fun j q hq => hb q ((hlev.sub_zero j).subset hq)
  induction n with
  | zero => exact .ret ⟨.refl _ _, rfl, fun j hj => hl j hj⟩
  | succ n ih =>
    refine (ih (by omega) fun i hi => hupd i (by omega)).bind fun _ h1 ⟨hw1, hlevel1, hl1⟩ => ?_
    have hi : n ≤ 6 := by omega
    have hu := hupd n (Nat.lt_succ_self n)
    have hunode : Node g A (update n) := by
      rw [hu]
      exact found_node hlev hb _ n
    have hs1 := hs.index hw1
    have hln := hl1 n hi
    rw [if_neg (lt_irrefl n)] at hln
    have hw2 : Writes (IndexWords g A) h1
        (h1.set (BinHeader.forward v n) (h1.words (BinHeader.forward (update n) n))) :=
      writes_set (forward_index hs (.inr hv) hi)
    have hs2 := hs1.index hw2
    have hnext := link_found hlev hln (key w v)
    rw [← hu, link] at hnext
    refine .load (load_heap (forward_reaches hs1 hunode hi))
      (.store (store_heap (forward_reaches hs1 (.inr hv) hi) _) ?_)
    have hlast : Yields (heapMachine b) (store (BinHeader.forward (update n) n) v)
        (h1.set (BinHeader.forward v n) (h1.words (BinHeader.forward (update n) n))) fun _ h' =>
          Writes (IndexWords g A) h h' ∧ h'.words g.level = h.words g.level ∧ ∀ j ≤ 6,
            Linked (link h'.words j) null g.bigBins
              (if j < n + 1 then insertAt (key w) v (levels j) else levels j) := by
      refine .store_last (store_heap (forward_reaches hs2 hunode hi) _)
        ⟨(hw1.trans hw2).set (forward_index hs hunode hi), ?_, fun j hj => ?_⟩
      · rw [Heap.set_of_ne (forward_ne_level hs hunode hi).symm,
          Heap.set_of_ne (forward_ne_level hs (.inr hv) hi).symm, hlevel1]
      · by_cases hjn : j = n
        · subst hjn
          rw [if_pos (Nat.lt_succ_self j)]
          exact linked_insert hlev hb hs1 hi hv hnew hu hln
        · have hsame : (if j < n + 1 then insertAt (key w) v (levels j) else levels j) =
              if j < n then insertAt (key w) v (levels j) else levels j :=
                if_congr (by omega) rfl rfl
          have hblock : ∀ q ∈ if j < n then insertAt (key w) v (levels j) else levels j,
              IsBlock A q := by
            intro q hq
            split_ifs at hq
            · rcases (mem_insertAt (hlev.ordered_at j)).mp hq with rfl | hin
              · exact hv
              · exact hsub j q hin
            · exact hsub j q hq
          rw [hsame]
          exact linked_set_other hs2 hunode hi hj hjn _ hblock
            (linked_set_other hs1 (.inr hv) hi hj hjn _ hblock (hl1 j hj))
    by_cases hnull : h1.words (BinHeader.forward (update n) n) = null
    · simp only [hnull, ne_eq, not_true_eq_false, if_false] at hlast ⊢
      exact hlast
    · have hblock : IsBlock A (h1.words (BinHeader.forward (update n) n)) := by
        rw [hnext] at hnull ⊢
        cases habove : above (key w) (key w v) (levels n) with
        | nil => exact absurd (by rw [habove]; rfl) hnull
        | cons q l => exact hsub n q (mem_above.mp (habove ▸ List.mem_cons_self)).1
      simp only [ne_eq, hnull, not_false_eq_true, if_true]
      exact .load (load_heap (size_reaches hs2 hblock)) (.check (sizeWhole_block hs2 hblock) hlast)

/-- The links below `m + 1`, once the level in use is no lower than `m`. -/
theorem skipLinks_index (hs : Stands g b h A bins) (hx : Index g h.words levels top)
    (hb : ∀ q ∈ levels 0, IsBlock A q) (hv : IsBlock A v)
    (hnew : v ∉ levels 0) {m : Nat} (hm : m ≤ 6)
    {update : Nat → U32int} (hupd : ∀ i < m + 1,
    update i = found g h.words levels (key h.words v) i) {h2 : Heap}
    (hw2 : Writes (IndexWords g A) h h2)
    (hl2 : ∀ j ≤ 6, Linked (link h2.words j) null g.bigBins (levels j))
    (hlev2 : h2.words g.level = BitVec.ofNat 32 (max top m)) :
    Yields (heapMachine b) (Slab.skipLinks v update (m + 1)) h2 fun _ h' =>
    Writes (IndexWords g A) h h' ∧
      ∃ m top', Index g h'.words (inserted (key h.words) levels v m) top' := by
  have htop := hx.top_le
  refine (skipLinks_yields hx.ordered hb (hs.index hw2) hv hnew (by omega) hupd hl2).mono
    fun _ h3 hlinked => ?_
  obtain ⟨hw3, hlev3, hl3⟩ := hlinked
  refine ⟨hw2.trans hw3, m, max top m, ?_, fun j hj => ?_,
    fun i hi => ?_, by omega, hlev3.trans hlev2⟩
  · refine (hx.ordered.inserted hnew).congr fun q hq => key_writes hs (hw2.trans hw3) ?_
    rw [inserted, if_pos (Nat.zero_le m)] at hq
    rcases (mem_insertAt hx.ordered.ordered).mp hq with rfl | hin
    · exact hv
    · exact hb q hin
  · simpa only [inserted, Nat.lt_succ_iff] using hl3 j hj
  · rw [inserted, if_neg (by omega)]
    exact hx.above i (by omega)

/-- A block that is not on the list is put there, on some levels. -/
theorem skipListInsert_yields (hs : Stands g b h A bins) (hx : Index g h.words levels top)
    (hb : ∀ q ∈ levels 0, IsBlock A q) {n : Nat}
    (hv : A v = some (.block n true)) (hnew : v ∉ levels 0) :
    Yields (heapMachine b) (Slab.skipListInsert g v) h fun _ h' => Writes (IndexWords g A) h h' ∧
      ∃ m top', Index g h'.words (inserted (key h.words) levels v m) top' := by
  have hvb : IsBlock A v := ⟨n, true, hv⟩
  have htop := hx.top_le
  obtain ⟨update, hsearch, hupd⟩ := skipSearch_run hs hx hb (k := key h.words v) rfl
  have hnode : Node g A (found g h.words levels (key h.words v) 0) := found_node hx.ordered hb _ 0
  have hnext := link_found hx.ordered (hx.linked 0 (Nat.zero_le 6)) (key h.words v)
  have hother : h.words (BinHeader.forward (found g h.words levels (key h.words v) 0) 0) ≠ v := by
    rw [link] at hnext
    rw [hnext]
    cases habove : above (key h.words) (key h.words v) (levels 0) with
    | nil => exact (hs.arena.ne_null hv).symm
    | cons q l =>
      rintro rfl
      exact hnew (mem_above.mp (habove ▸ List.mem_cons_self)).1
  have hsize : h.words (BinHeader.size v) ≠ 0 := by
    intro he
    obtain ⟨hkey, hend, -⟩ := key_eq hs hv
    have hpos : 0 < n := (hs.arena.chunk v _ hv).pages_pos
    rw [key, he] at hkey
    change 0 = _ at hkey
    omega
  refine .load (load_heap (head_reaches hs hvb)) (.load (load_heap (size_reaches hs hvb)) ?_)
  refine .run (checkHead_run hs hv)
    (.check (aligned_block hs hvb) (.check (sizeWhole_block hs hvb) ?_))
  refine .check (decide_eq_true hsize)
    (.run hsearch (.load (load_heap (forward_reaches hs hnode (Nat.zero_le 6))) ?_))
  rw [if_pos hother]
  refine (randomLevelFrom_yields hs (Nat.zero_le 6)).bind fun m h1 hlevel => ?_
  obtain ⟨hm, hw1⟩ := hlevel
  have hidx1 : Writes (IndexWords g A) h h1 := hw1.mono fun x hx => .inr (.inl hx)
  have hs1 := hs.index hidx1
  have hx1 := hx.rand hs hb hw1
  refine .run (level_load hs1 hx1) ?_
  rw [level_toInt htop]
  have hupd' : ∀ i < m + 1, (if (top : Int) < i ∧ i ≤ m then g.bigBins else update i) =
      found g h.words levels (key h.words v) i := by
    intro i hi
    by_cases hti : top < i
    · rw [if_pos ⟨by omega, by omega⟩, found, hx.above i hti]
      rfl
    · rw [if_neg (by omega)]
      exact hupd i (by omega)
  dsimp only
  -- the links are the same whether the level in use goes up or not
  by_cases hup : (top : Int) < m
  · rw [if_pos hup]
    have hset : Writes (IndexWords g A) h1 (h1.set g.level (BitVec.ofNat 32 m)) :=
      writes_set (level_index hs)
    refine .store (store_heap (level_reaches hs1) _)
      (skipLinks_index hs hx hb hvb hnew hm hupd' (hidx1.trans hset) (fun j hj => ?_) ?_)
    · exact linked_set_level hs1 hj _ (fun q hq => hb q ((hx.ordered.sub_zero j).subset hq))
        (hx1.linked j hj)
    · rw [Heap.set_same, max_eq_right (by omega)]
  · rw [if_neg hup]
    refine skipLinks_index hs hx hb hvb hnew hm hupd' hidx1 hx1.linked ?_
    rw [hx1.level, max_eq_left (by omega)]

end

end SimpleOs.Audit.SlabIndex
