import SimpleOs.Audit.SlabBlocks

/-!
# `klmalloc` and `klfree` on the heap

On an arena a request takes a free cell of its bin or the smallest free block that fits,
and a new chunk only if there is none; what is freed goes back to its chunk. The two
functions do that, and leave all other memory that is handed out alone.
-/

namespace SimpleOs.Audit.SlabCalls

open SimpleOs.Kernel SimpleOs.Lib.WordProgram SimpleOs.Lib.LinkedList SimpleOs.Lib.SkipList
open SimpleOs.Audit.SlabHeap SimpleOs.Audit.SlabIndex SimpleOs.Audit.SlabCells
open SimpleOs.Audit.SlabBlocks

/-- How a request is met: where, with how many bytes, and what the arena is afterwards. -/
inductive Serves (A : Arena) (brk size : U32int) : U32int → Nat → Arena → Prop
  | cell {p c : U32int} {free : List U32int} (hbin : Slab.binSize size < bigBin)
      (hp : A p = some (.cells (Slab.binSize size) (c :: free))) :
      Serves A brk size c (cellBytes (Slab.binSize size))
        (Function.update A p (some (.cells (Slab.binSize size) free)))
  | page {c : U32int} {free : List U32int} (hbin : Slab.binSize size < bigBin)
      (hnone : ∀ p l, A p = some (.cells (Slab.binSize size) l) → l = [])
      (hall : ∀ d, IsCell brk (Slab.binSize size) d ↔ d ∈ c :: free) (hnot : c ∉ free) :
      Serves A brk size c (cellBytes (Slab.binSize size))
        (Function.update A brk (some (.cells (Slab.binSize size) free)))
  | block {q : U32int} {n : Nat} (hbin : ¬ Slab.binSize size < bigBin)
      (hq : A q = some (.block n true)) (hfit : size.toNat ≤ blockBytes n)
      (hbest : ∀ r m, A r = some (.block m true) → size.toNat ≤ blockBytes m →
        blockBytes n ≤ blockBytes m) :
      Serves A brk size (q + bigBinHeaderSize) (blockBytes n)
        (Function.update A q (some (.block n false)))
  | grow (hbin : ¬ Slab.binSize size < bigBin)
      (hnone : ∀ r m, A r = some (.block m true) → blockBytes m < size.toNat) :
      Serves A brk size (brk + bigBinHeaderSize) (blockBytes (blockPages size).toNat)
        (Function.update A brk (some (.block (blockPages size).toNat false)))

/-- Something free is there for the request. -/
def Fits (A : Arena) (size : U32int) : Prop :=
  if Slab.binSize size < bigBin then ∃ p c free, A p = some (.cells (Slab.binSize size) (c :: free))
  else ∃ q n, A q = some (.block n true) ∧ size.toNat ≤ blockBytes n

/-- What the heap grows by otherwise. -/
def growth (size : U32int) : U32int :=
  if Slab.binSize size < bigBin then pageSize else pageSize * blockPages size

/-- In `A'` one more address is handed out. -/
structure Hands (A A' : Arena) (p : U32int) (bytes : Nat) : Prop where
  fresh : ∀ k, ¬ Live A p k
  live : ∀ q k, Live A' q k ↔ Live A q k ∨ q = p ∧ k = bytes

/-- One address has come, and another one has gone. -/
theorem Hands.exchanged {A A' A'' : Arena} {p p' : U32int} {bytes bytes' : Nat}
    (h : Hands A A' p' bytes') (h' : Hands A'' A' p bytes) (hne : p ≠ p') (r : U32int) (k : Nat) :
    Live A'' r k ↔ Live A r k ∧ r ≠ p ∨ r = p' ∧ k = bytes' := by
  have h1 := h.live r k
  have h3 := h'.live r k
  constructor
  · intro hr
    rcases h1.mp (h3.mpr (.inl hr)) with hr' | hr'
    · exact .inl ⟨hr', fun he => h'.fresh k (he ▸ hr)⟩
    · exact .inr hr'
  · rintro (⟨hr, hrp⟩ | hr)
    · exact (h3.mp (h1.mpr (.inl hr))).resolve_right fun hp => hrp hp.1
    · exact (h3.mp (h1.mpr (.inr hr))).resolve_right fun hp => hne (hp.1.symm.trans hr.1)

/-- The words of the heap are those of the arena. -/
structure Sound (g : SlabStatics) (b : Bounds) (h : Heap) (A : Arena) (bins : U32int → List U32int)
    (levels : Nat → List U32int) (top : Nat) : Prop where
  stands : Stands g b h A bins
  index : Index g h.words levels top
  free : ∀ q, q ∈ levels 0 ↔ ∃ n, A q = some (.block n true)

def Consistent (g : SlabStatics) (b : Bounds) (h : Heap) (A : Arena) : Prop :=
  ∃ bins levels top, Sound g b h A bins levels top

/-- What is handed out keeps its words. -/
def Kept (A : Arena) (h h' : Heap) : Prop := ∀ x, HandedOut A x → h'.words x = h.words x

/-- The heap can grow for the request. -/
def Room (b : Bounds) (h : Heap) (size : U32int) : Prop := growth size ≠ 0 ∧ Grows b h (growth size)

/-- The request is met, and the heap has grown only if nothing was free for it. -/
structure Served (g : SlabStatics) (b : Bounds) (h : Heap) (A : Arena) (size p : U32int) (h' : Heap)
    (bytes : Nat) (A' : Arena) : Prop where
  serves : Serves A h.brk size p bytes A'
  consistent : Consistent g b h' A'
  kept : Kept A h h'
  fit : Fits A size → h'.brk = h.brk ∧ h'.room = h.room
  grown : ¬ Fits A size → h'.brk = (h.grown (growth size)).brk ∧
    h'.room = (h.grown (growth size)).room

/-- What is freed goes back to its chunk. -/
inductive Releases (A : Arena) : U32int → Nat → Arena → Prop
  | cell {p i c : U32int} {free : List U32int} (hp : A p = some (.cells i free)) (hc : IsCell p i c)
      (hfree : c ∉ free) :
      Releases A c (cellBytes i) (Function.update A p (some (.cells i (c :: free))))
  | block {q : U32int} {n : Nat} (hq : A q = some (.block n false)) :
      Releases A (q + bigBinHeaderSize) (blockBytes n) (Function.update A q (some (.block n true)))

/-- What is at the address goes back to the heap, which stays as large as it is. -/
structure Released (g : SlabStatics) (b : Bounds) (h : Heap) (A : Arena) (p : U32int) (bytes : Nat)
    (h' : Heap) (A' : Arena) : Prop where
  releases : Releases A p bytes A'
  consistent : Consistent g b h' A'
  kept : Kept A' h h'
  brk : h'.brk = h.brk
  room : h'.room = h.room

section

variable {g : SlabStatics} {b : Bounds} {h h' : Heap} {A : Arena} {bins : U32int → List U32int}
  {levels : Nat → List U32int} {top : Nat} {p q x i c size : U32int}
    {free l : List U32int} {d : Chunk} {k n : Nat}

theorem live_split (p : U32int) : Live A q k ↔ (∃ c, A p = some c ∧ Gives p c q k) ∨
    ∃ r, r ≠ p ∧ ∃ c, A r = some c ∧ Gives r c q k := by
  constructor
  · rintro ⟨r, c, hr, hg⟩
    by_cases hrp : r = p
    · exact .inl ⟨c, hrp ▸ hr, hrp ▸ hg⟩
    · exact .inr ⟨r, hrp, c, hr, hg⟩
  · rintro (⟨c, hp, hg⟩ | ⟨r, -, c, hr, hg⟩)
    · exact ⟨p, c, hp, hg⟩
    · exact ⟨r, c, hr, hg⟩

theorem live_update : Live (Function.update A p (some d)) q k ↔ Gives p d q k ∨
    ∃ r, r ≠ p ∧ ∃ c, A r = some c ∧ Gives r c q k := by
  rw [live_split p, Function.update_self]
  refine or_congr ⟨fun ⟨c, hc, hg⟩ => Option.some.inj hc ▸ hg, fun hg => ⟨d, rfl, hg⟩⟩ ?_
  refine exists_congr fun r => and_congr_right fun hr => ?_
  rw [Function.update_of_ne hr]

/-- A chunk that gives one more address hands it out. -/
theorem Hands.update {bytes : Nat} {e : Chunk} (hp : A p = some e)
    (hg : ∀ q k, Gives p d q k ↔ Gives p e q k ∨ q = c ∧ k = bytes) (hfresh : ∀ k, ¬ Live A c k) :
    Hands A (Function.update A p (some d)) c bytes where
  fresh := hfresh
  live := fun q k => by
    have hgiven : (∃ c, A p = some c ∧ Gives p c q k) ↔ Gives p e q k :=
      ⟨fun ⟨c, hc, hg⟩ => Option.some.inj (hc.symm.trans hp) ▸ hg, fun hg => ⟨e, hp, hg⟩⟩
    rw [live_update, hg, live_split p, hgiven, or_assoc, or_assoc, or_comm (a := q = c ∧ k = bytes)]

/-- A new chunk, where there was none, gives what it gives. -/
theorem Hands.put {bytes : Nat} (hp : A p = none) (hg : ∀ q k, Gives p d q k ↔ q = c ∧ k = bytes)
    (hfresh : ∀ k, ¬ Live A c k) : Hands A (Function.update A p (some d)) c bytes where
  fresh := hfresh
  live := fun q k => by
    have hnone : ¬ ∃ c, A p = some c ∧ Gives p c q k := fun ⟨c, hc, _⟩ => by simp [hp] at hc
    rw [live_update, hg, live_split p, or_iff_right hnone, or_comm]

/-- Nothing of a cell that is free is handed out, and of a block that is. -/
theorem not_live_of_gives (hA : ArenaAt b h A) (hp : A p = some d) (ho : Owns A p q)
    (hg : ∀ k, ¬ Gives p d q k) (k : Nat) : ¬ Live A q k := by
  rintro ⟨r, c, hr, hgr⟩
  obtain ⟨-, hlow, hhigh, hpos, -⟩ := hgr.inside hA hr
  obtain rfl := hA.owner_unique ⟨c, hr, by omega, by omega⟩ ho
  obtain rfl := Option.some.inj (hr.symm.trans hp)
  exact hg k hgr

/-- Nothing behind the break is handed out. -/
theorem not_live_of_brk (hA : ArenaAt b h A) (hx : h.brk.toNat ≤ x.toNat)
    (k : Nat) : ¬ Live A x k := by
  intro hl
  obtain ⟨-, -, -, hend, hpos, -⟩ := hl.bounds hA
  omega

/-- A request that is met hands out what it says. -/
theorem Serves.hands (hs : Stands g b h A bins) {bytes : Nat} {A' : Arena}
    (hv : Serves A h.brk size p bytes A') : Hands A A' p bytes := by
  cases hv with
  | cell hbin hp =>
    rename_i q free
    have hk := hs.arena.chunk q _ hp
    have hcell := hk.cell p List.mem_cons_self
    have hnot := (List.nodup_cons.mp hk.nodup).1
    refine .update hp (fun r k => ?_)
      (not_live_of_gives hs.arena hp (hcell.owned hp) fun k hg => hg.2.1 List.mem_cons_self)
    constructor
    · rintro ⟨hr, hrf, rfl⟩
      by_cases hrp : r = p
      · exact .inr ⟨hrp, rfl⟩
      · exact .inl ⟨hr, fun hin => (List.mem_cons.mp hin).elim hrp hrf, rfl⟩
    · rintro (⟨hr, hrf, rfl⟩ | ⟨rfl, rfl⟩)
      · exact ⟨hr, fun hin => hrf (List.mem_cons_of_mem _ hin), rfl⟩
      · exact ⟨hcell, hnot, rfl⟩
  | page hbin hnone hall hnot =>
    rename_i free
    have hcell := (hall p).mpr List.mem_cons_self
    have hlow := hcell.bounds.1
    refine .put (none_of_brk hs.arena) (fun r k => ?_) (not_live_of_brk hs.arena (by omega))
    constructor
    · rintro ⟨hr, hrf, hk⟩
      exact ⟨(List.mem_cons.mp ((hall r).mp hr)).resolve_right hrf, hk⟩
    · rintro ⟨rfl, hk⟩
      exact ⟨hcell, hnot, hk⟩
  | block hbin hq hfit hbest =>
    rename_i q n
    have ho := hs.arena.owns_offset hq (k := bigBinHeaderSize) (by decide)
    refine .update hq (fun r k => ?_)
      (not_live_of_gives hs.arena hq ho fun k hg => Bool.noConfusion hg.1)
    constructor
    · rintro ⟨-, hr, hk⟩
      exact .inr ⟨hr, hk⟩
    · rintro (⟨hf, -⟩ | ⟨hr, hk⟩)
      · cases hf
      · exact ⟨rfl, hr, hk⟩
  | grow hbin hnone =>
    have hoff := (header_toNat hs.brk_aligned).2.2.2.2
    refine .put (none_of_brk hs.arena) (fun r k => ?_) (not_live_of_brk hs.arena (by omega))
    exact ⟨fun ⟨_, hr, hk⟩ => ⟨hr, hk⟩, fun ⟨hr, hk⟩ => ⟨rfl, hr, hk⟩⟩

/-- What is released is not handed out any more. -/
theorem Releases.hands (hA : ArenaAt b h A) {bytes : Nat} {A' : Arena}
    (hr : Releases A p bytes A') : Hands A' A p bytes := by
  have hback : ∀ q d e, A q = some e → (∀ r k, Gives q e r k ↔ Gives q d r k ∨ r = p ∧ k = bytes) →
      (∀ k, ¬ Gives q d p k) → Owns A q p → Hands (Function.update A q (some d)) A p bytes := by
    intro q d e hq hg hnot ho
    refine ⟨fun k hl => ?_, fun r k => ?_⟩
    · rcases live_update.mp hl with hgd | ⟨r, hrq, c, hr, hgr⟩
      · exact hnot k hgd
      · obtain ⟨-, hlow, hhigh, hpos, -⟩ := hgr.inside hA hr
        exact hrq (hA.owner_unique ⟨c, hr, by omega, by omega⟩ ho)
    · have hgiven : (∃ c, A q = some c ∧ Gives q c r k) ↔ Gives q e r k :=
        ⟨fun ⟨c, hc, hg⟩ => Option.some.inj (hc.symm.trans hq) ▸ hg, fun hg => ⟨e, hq, hg⟩⟩
      rw [live_update, live_split q, hgiven, hg, or_assoc, or_assoc,
        or_comm (a := r = p ∧ k = bytes)]
  cases hr with
  | cell hq hc hfree =>
    refine hback _ _ _ hq (fun r k => ?_) (fun k hg => hg.2.1 List.mem_cons_self) (hc.owned hq)
    constructor
    · rintro ⟨hr, hrf, rfl⟩
      by_cases hrp : r = p
      · exact .inr ⟨hrp, rfl⟩
      · exact .inl ⟨hr, fun hin => (List.mem_cons.mp hin).elim hrp hrf, rfl⟩
    · rintro (⟨hr, hrf, rfl⟩ | ⟨rfl, rfl⟩)
      · exact ⟨hr, fun hin => hrf (List.mem_cons_of_mem _ hin), rfl⟩
      · exact ⟨hc, hfree, rfl⟩
  | block hq =>
    refine hback _ _ _ hq (fun r k => ?_) (fun k hg => Bool.noConfusion hg.1)
      (hA.owns_offset hq (by decide))
    constructor
    · rintro ⟨-, hr, hk⟩
      exact .inr ⟨hr, hk⟩
    · rintro (⟨hf, -⟩ | ⟨hr, hk⟩)
      · cases hf
      · exact ⟨rfl, hr, hk⟩

theorem handedOut_put (hp : A p = none) (hx : HandedOut A x) :
    HandedOut (Function.update A p (some d)) x := by
  obtain ⟨q, k, ⟨r, c, hr, hg⟩, hlow, hhigh⟩ := hx
  have hrp : r ≠ p := fun he => by simp [he ▸ hr] at hp
  exact ⟨q, k, ⟨r, c, (Function.update_of_ne hrp _ A).trans hr, hg⟩, hlow, hhigh⟩

theorem handedOut_below (hA : ArenaAt b h A) (hx : HandedOut A x) : x.toNat < h.brk.toNat := by
  obtain ⟨p, k, hl, -, hhigh⟩ := hx
  obtain ⟨-, -, -, hend, -⟩ := hl.bounds hA
  omega

theorem Sound.blocks (hc : Sound g b h A bins levels top) :
    ∀ q ∈ levels 0, IsBlock A q := fun q hq =>
  let ⟨n, hn⟩ := (hc.free q).mp hq
  ⟨n, true, hn⟩

/-- The free blocks are the same when cells change. -/
theorem free_update_cells (hp : ∀ e, A p = some e → ∃ l, e = .cells i l) (q : U32int) :
    (∃ n, Function.update A p (some (.cells i free)) q = some (.block n true)) ↔
      ∃ n, A q = some (.block n true) := by
  by_cases hqp : q = p
  · subst hqp
    rw [Function.update_self]
    refine iff_of_false (fun ⟨n, hn⟩ => by cases hn) fun ⟨n, hn⟩ => ?_
    obtain ⟨l, hl⟩ := hp _ hn
    cases hl
  · rw [Function.update_of_ne hqp]

/-- A cell is taken from a page that has one. -/
theorem Sound.takeCell (hc : Sound g b h A bins levels top) (hi : i < bigBin) {rest : List U32int}
    (hbin : bins i = p :: rest) : Yields (heapMachine b) (do
      let item ← Slab.stackPop p
      let empty ← Slab.stackEmpty p
      if empty then Slab.listDecouple (g.bin i) p
      return item) h fun c h' => ∃ free, A p = some (.cells i (c :: free)) ∧
        Consistent g b h' (Function.update A p (some (.cells i free))) ∧ h'.brk = h.brk ∧
          h'.room = h.room ∧ Kept A h h' := by
  refine (takeCell_yields hc.stands hi hbin).mono fun c h' ⟨free, bins', hp, hs', hw, hkept⟩ =>
    ⟨free, hp, ?_, hw.brk, hw.room, hkept⟩
  have hbp := binPage_of_cells hc.stands.arena hp
  refine ⟨bins', levels, top, hs',
    Index.page hc.index hc.stands hc.blocks hi hbp (hc.stands.arena.above p _ hp) hw, fun q => ?_⟩
  rw [hc.free, free_update_cells hbp.cells]

theorem mallocSmall_yields (hc : Sound g b h A bins levels top) (hbin : Slab.binSize size < bigBin)
    (hroom : Fits A size ∨ Room b h size) :
    Yields (heapMachine b) (Slab.mallocSmall g (Slab.binSize size)) h fun p h' => ∃ bytes A',
      Served g b h A size p h' bytes A' := by
  have hs := hc.stands
  have hlist := hs.pages.linked _ hbin
  have hfits : Fits A size ↔ ∃ p c free, A p = some (.cells (Slab.binSize size) (c :: free)) := by
    rw [Fits, if_pos hbin]
  refine .load (load_heap (reaches_bin hs.placed hbin)) ?_
  cases hl : bins (Slab.binSize size) with
  | cons q rest =>
    rw [hl] at hlist
    obtain ⟨hfirst, hnull, -⟩ := hlist
    rw [hfirst, if_neg hnull]
    refine .run (run_pure _ q h) ?_
    refine (hc.takeCell hbin hl).mono fun c h' ⟨free, hp, hcons, hbrk, hrm, hkept⟩ =>
      ⟨_, _, .cell hbin hp, hcons, hkept, fun _ => ⟨hbrk, hrm⟩,
        fun hn => absurd (hfits.mpr ⟨_, c, free, hp⟩) hn⟩
  | nil =>
    have hnone : ∀ p l, A p = some (.cells (Slab.binSize size) l) → l = [] := fun p l hp => by
      by_contra hne
      have hin := (hs.pages.mem _ hbin p).mpr ⟨l, hne, hp⟩
      rw [hl] at hin
      cases hin
    have hnot : ¬ Fits A size := fun hf => by
      obtain ⟨p, c, free, hp⟩ := hfits.mp hf
      exact List.cons_ne_nil _ _ (hnone p _ hp)
    have hgrow : growth size = pageSize := if_pos hbin
    have hg : Grows b h pageSize := hgrow ▸ (hroom.resolve_left hnot).2
    rw [hl] at hlist
    have hfirst : h.words (g.bin (Slab.binSize size)) = null := hlist
    rw [if_pos hfirst]
    refine (newBin_yields hs hbin hl hg).bind fun p h1 ⟨hp, free, bins1, hb1, hall, hs1, hw1⟩ => ?_
    subst hp
    have hbp : BinPage A (Slab.binSize size) h.brk := binPage_of_brk hs.arena le_rfl
    have hgs := Stands.grown hs hg
    have hx1 := Index.page (Index.grown hc.index hs hc.blocks) hgs
      hc.blocks hbin hbp hs.brk_above hw1
    have hc1 : Sound g b h1 (Function.update A h.brk
        (some (.cells (Slab.binSize size) free))) bins1 levels top :=
      ⟨hs1, hx1, fun q => by rw [hc.free, free_update_cells hbp.cells]⟩
    refine (hc1.takeCell hbin hb1).mono fun c h' ⟨free', hp1, hcons, hbrk, hrm, hkept⟩ => ?_
    rw [Function.update_self] at hp1
    obtain ⟨-, rfl⟩ := Chunk.cells.inj (Option.some.inj hp1)
    have hk := hs1.arena.chunk h.brk _ (Function.update_self _ _ A)
    rw [Function.update_idem] at hcons
    refine ⟨_, _, .page hbin hnone (fun d => ⟨hall d, fun hd => hk.cell d hd⟩)
      (List.nodup_cons.mp hk.nodup).1, hcons, ?_, fun hf => absurd hf hnot, fun _ => ⟨?_, ?_⟩⟩
    · intro x hx
      have hbelow := handedOut_below hs.arena hx
      obtain ⟨q, e, hq, ho, -⟩ := hx.owner hs.arena
      have hqp : q ≠ h.brk := fun he => by simp [none_of_brk hs.arena, he] at hq
      rw [hkept x (handedOut_put (none_of_brk hs.arena) hx),
        hw1.words x (binWords_other hs hbin hbp hqp ho), grown_words hbelow]
    · rw [hbrk, hw1.brk, hgrow]
    · rw [hrm, hw1.room, hgrow]

theorem growth_big (hbin : ¬ Slab.binSize size < bigBin) :
    growth size = pageSize * blockPages size := if_neg hbin

theorem blockPages_lt (hbin : ¬ Slab.binSize size < bigBin) (hg : growth size ≠ 0) :
    (blockPages size).toNat < 2^20 := by
  rw [growth_big hbin] at hg
  have hn := blockPages_toNat size
  by_contra hle
  refine hg (BitVec.eq_of_toNat_eq ?_)
  rw [BitVec.toNat_mul, show (blockPages size).toNat = 2^20 by omega]
  rfl

theorem fits_block (hbin : ¬ Slab.binSize size < bigBin) :
    Fits A size ↔ ∃ q n, A q = some (.block n true) ∧ size.toNat ≤ blockBytes n := by
  rw [Fits, if_neg hbin]

/-- The first block that is large enough leaves the skip list. -/
theorem takeBlock_yields (hc : Sound g b h A bins levels top) (hbin : ¬ Slab.binSize size < bigBin)
    (hl : above (key h.words) size.toNat (levels 0) = q :: l) :
    Yields (heapMachine b) (do
      Slab.skipListDelete g q
      Slab.stackPop q) h fun p h' => ∃ bytes A', Served g b h A size p h' bytes A' := by
  have hs := hc.stands
  have hmem := mem_above.mp (hl ▸ List.mem_cons_self : q ∈
    above (key h.words) size.toNat (levels 0))
  obtain ⟨n, hq⟩ := (hc.free q).mp hmem.1
  have hkey := (key_eq hs hq).1
  have hfit : size.toNat ≤ blockBytes n := hkey ▸ hmem.2
  have hfirst := hc.index.ordered.ordered.above_self hl
  refine (skipListDelete_yields hs hc.index hc.blocks hq hfirst).bind fun _ h1 hdeleted => ?_
  obtain ⟨hw1, top', hx1⟩ := hdeleted
  have hs1 := hs.index hw1
  have hb1 : ∀ r ∈ removed levels q 0, IsBlock A r := fun r hr => hc.blocks r (List.erase_subset hr)
  refine (popBlock_yields hs1 hq).mono fun p h2 hpopped => ?_
  obtain ⟨rfl, hw2, hs2⟩ := hpopped
  refine ⟨_, _, .block hbin hq hfit fun r m hr hm => ?_,
    ⟨bins, _, top', hs2, Index.stack hx1 hs1 hb1 hq hw2, fun r => ?_⟩,
    fun x hx => ?_, fun _ => ⟨hw2.brk.trans hw1.brk, hw2.room.trans hw1.room⟩,
    fun hn => absurd ((fits_block hbin).mpr ⟨q, n, hq, hfit⟩) hn⟩
  · rw [← (key_eq hs hr).1, ← hkey]
    exact hc.index.ordered.ordered.le_of_above hl ((hc.free r).mpr ⟨m, hr⟩) ((key_eq hs hr).1 ▸ hm)
  · rw [removed, hc.index.ordered.nodup.mem_erase_iff, hc.free]
    by_cases hrq : r = q
    · subst hrq
      rw [Function.update_self]
      refine iff_of_false (fun h => h.1 rfl) ?_
      rintro ⟨m, hm⟩
      cases hm
    · rw [Function.update_of_ne hrq]
      exact and_iff_right hrq
  · rw [hw2.words x fun hin => ?_, hw1.words x fun hin => hs.index_not_handedOut hin hx]
    refine hx.not_reads hs.arena hq ?_
    exact hin.elim (fun he => .inr (.inr (.inl he))) fun he => .inr (.inr (.inr ⟨rfl, he⟩))

/-- The skip list stays when no block on it is large enough. -/
theorem growBlock_yields (hc : Sound g b h A bins levels top) (hbin : ¬ Slab.binSize size < bigBin)
    (hl : above (key h.words) size.toNat (levels 0) = []) (hroom : Fits A size ∨ Room b h size) :
    Yields (heapMachine b) (Slab.newBigBin g size) h fun p h' =>
    ∃ bytes A', Served g b h A size p h' bytes A' := by
  have hs := hc.stands
  have hnone : ∀ r m, A r = some (.block m true) → blockBytes m < size.toNat := fun r m hr =>
    (key_eq hs hr).1 ▸ above_nil_iff.mp hl r ((hc.free r).mpr ⟨m, hr⟩)
  have hnot : ¬ Fits A size := fun hf => by
    obtain ⟨q, n, hq, hle⟩ := (fits_block hbin).mp hf
    exact absurd (hnone q n hq) (Nat.not_lt.mpr hle)
  obtain ⟨hg0, hg⟩ := hroom.resolve_left hnot
  have hpages := blockPages_lt hbin hg0
  rw [growth_big hbin] at hg
  refine (newBigBin_yields hs hg hpages).mono fun p h' hgrown => ?_
  obtain ⟨rfl, hs', hw⟩ := hgrown
  have hgs := Stands.grown hs hg
  refine ⟨_, _, .grow hbin hnone,
    ⟨bins, levels, top, hs', Index.frame (Index.grown hc.index hs hc.blocks) hgs hc.blocks
    (fun x hx => hw.words x (newWords_not_index hs hx)) (fun r hr => hw.words _ ?_), fun r => ?_⟩,
      fun x hx => ?_,
    fun hf => absurd hf hnot, fun _ => by rw [growth_big hbin]; exact ⟨hw.brk, hw.room⟩⟩
  · obtain ⟨m, e, hm⟩ := hr
    exact newWords_other hs (hs.arena.reads_owned hm (.inr (.inl rfl)))
      (reads_ne hs.arena hm (.inr (.inl rfl)))
  · rw [hc.free]
    by_cases hrq : r = h.brk
    · subst hrq
      rw [Function.update_self, none_of_brk hs.arena]
      constructor <;>
      · rintro ⟨m, hm⟩
        cases hm
    · rw [Function.update_of_ne hrq]
  · obtain ⟨q, e, hq, ho, hlow, -⟩ := hx.owner hs.arena
    rw [hw.words x (newWords_other hs ho fun _ he => by rw [he] at hlow; omega),
      grown_words (handedOut_below hs.arena hx)]

theorem mallocBig_yields (hc : Sound g b h A bins levels top) (hbin : ¬ Slab.binSize size < bigBin)
    (hroom : Fits A size ∨ Room b h size) :
    Yields (heapMachine b) (Slab.mallocBig g size) h fun p h' =>
    ∃ bytes A', Served g b h A size p h' bytes A' := by
  have hs := hc.stands
  refine .run (skipListFindbest_run hs hc.index hc.blocks size) ?_
  cases hl : above (key h.words) size.toNat (levels 0) with
  | cons q l =>
    have hmem := mem_above.mp (hl ▸ List.mem_cons_self : q ∈
      above (key h.words) size.toNat (levels 0))
    obtain ⟨n, hq⟩ := (hc.free q).mp hmem.1
    simp only [List.head?_cons, Option.getD_some, ne_eq, hs.arena.ne_null hq,
      not_false_eq_true, if_true]
    refine .load (load_heap (size_reaches hs ⟨n, true, hq⟩)) (.check (decide_eq_true hmem.2) ?_)
    exact takeBlock_yields hc hbin hl
  | nil =>
    simp only [List.head?_nil, Option.getD_none, ne_eq, not_true_eq_false, if_false]
    exact growBlock_yields hc hbin hl hroom

/-- A request that is not empty is met if something fits or the heap can grow. -/
theorem klmalloc_yields (hc : Consistent g b h A) (hsize : size ≠ 0)
    (hroom : Fits A size ∨ Room b h size) :
    Yields (heapMachine b) (Slab.klmalloc g size) h fun p h' =>
    ∃ bytes A', Served g b h A size p h' bytes A' := by
  obtain ⟨bins, levels, top, hs⟩ := hc
  rw [Slab.klmalloc, if_neg hsize]
  split_ifs with hbin
  · exact mallocSmall_yields hs hbin hroom
  · exact mallocBig_yields hs hbin hroom

/-- Where the page of an address begins. -/
theorem header_eq (ha : q.toNat % 4096 = 0) (hlow : q.toNat ≤ p.toNat)
    (hhigh : p.toNat < q.toNat + 4096) : p &&& ~~~pageMask = q := by
  have hmask := pageMask_toNat p
  apply BitVec.eq_of_toNat_eq
  change (p &&& 0xFFFFF000).toNat = _
  omega

/-- An address that is not the first of its page, in the page that begins at `q`; or the
first one of the next page. -/
theorem klfree_header (ha : q.toNat % 4096 = 0) (hlow : q.toNat < p.toNat)
    (hhigh : p.toNat ≤ q.toNat + 4096) :
    (if p % pageSize = 0 then p - 1 else p) &&& ~~~pageMask = q := by
  have hmod : (p % pageSize).toNat = p.toNat % 4096 := BitVec.toNat_umod
  split_ifs with hp
  · have hz : p.toNat % 4096 = 0 := hmod.symm.trans (congrArg BitVec.toNat hp)
    have hsub : (p - 1).toNat = p.toNat - 1 := by bv_omega
    exact header_eq ha (by omega) (by omega)
  · have hz : p.toNat % 4096 ≠ 0 := fun he => hp (BitVec.eq_of_toNat_eq (hmod.trans he))
    exact header_eq ha (by omega) (by omega)

theorem freeBig_yields (hc : Sound g b h A bins levels top) (hq : A q = some (.block n false)) :
    Yields (heapMachine b) (Slab.freeBig g q (h.words (BinHeader.size q))) h fun _ h' => ∃ A',
      Released g b h A (q + bigBinHeaderSize) (blockBytes n) h' A' := by
  have hs := hc.stands
  have hk := hs.arena.chunk q _ hq
  have hhead : h.words (BinHeader.head q) = null := hk.head
  have hb : IsBlock A q := ⟨n, false, hq⟩
  refine .check (decide_eq_true (hs.arena.ne_null hq)) (.load (load_heap (head_reaches hs hb)) ?_)
  refine .check (decide_eq_true hhead) (.check (sizeWhole_block hs hb) ?_)
  refine (pushBlock_yields hs hq).bind fun _ h1 ⟨hw1, hs1⟩ => ?_
  have hx1 := Index.stack hc.index hs hc.blocks hq hw1
  set A' := Function.update A q (some (.block n true)) with hA'
  have hq' : A' q = some (.block n true) := Function.update_self q _ A
  have hb1 : ∀ r ∈ levels 0, IsBlock A' r := by
    intro r hr
    by_cases hrq : r = q
    · exact ⟨n, true, hrq ▸ hq'⟩
    · obtain ⟨m, f, hm⟩ := hc.blocks r hr
      exact ⟨m, f, (Function.update_of_ne hrq _ A).trans hm⟩
  have hnew : q ∉ levels 0 := fun hin => by
    obtain ⟨m, hm⟩ := (hc.free q).mp hin
    rw [hq] at hm
    cases hm
  have hhead1 : h1.words (BinHeader.head q) = q + bigBinHeaderSize := (hs1.arena.chunk q _ hq').head
  refine .load (load_heap (head_reaches hs1 ⟨n, true, hq'⟩)) (.check (decide_eq_true ?_) ?_)
  · rw [hhead1]
    exact (block_stack hs hq).1
  refine (skipListInsert_yields hs1 hx1 hb1 hq' hnew).mono fun _ h' ⟨hw2, m, top', hx2⟩ => ⟨A', ?_⟩
  refine ⟨.block hq, ⟨bins, _, top', hs1.index hw2, hx2, fun r => ?_⟩, fun x hx => ?_,
    hw2.brk.trans hw1.brk, hw2.room.trans hw1.room⟩
  · rw [inserted, if_pos (Nat.zero_le m), mem_insertAt hx1.ordered.ordered, hc.free]
    by_cases hrq : r = q
    · subst hrq
      exact iff_of_true (.inl rfl) ⟨n, hq'⟩
    · rw [hA', Function.update_of_ne hrq]
      exact or_iff_right hrq
  · rw [hw2.words x fun hin => hs1.index_not_handedOut hin hx, hw1.words x fun hin => ?_]
    refine hx.not_reads hs1.arena hq' ?_
    exact hin.elim (fun he => .inr (.inr (.inl he))) fun he => .inr (.inr (.inr ⟨rfl, he⟩))

/-- A block is freed by each address behind its first one up to the end of its first page. -/
theorem klfree_block (hc : Consistent g b h A) (hq : A q = some (.block n false))
    (hlow : q.toNat < p.toNat)
    (hhigh : p.toNat ≤ q.toNat + 4096) :
    Yields (heapMachine b) (Slab.klfree g p) h fun _ h' => ∃ A',
      Released g b h A (q + bigBinHeaderSize) (blockBytes n) h' A' := by
  obtain ⟨bins, levels, top, hs⟩ := hc
  have hA := hs.stands.arena
  have hk := hA.chunk q _ hq
  have hb : IsBlock A q := ⟨n, false, hq⟩
  have hp : p ≠ null := fun he => by
    rw [he] at hlow
    exact absurd hlow (Nat.not_lt_zero _)
  rw [Slab.klfree, if_neg hp]
  dsimp only
  rw [klfree_header (hA.aligned q _ hq) hlow hhigh]
  refine .check (aligned_block hs.stands hb)
    (.load (load_heap (hA.reaches_offset hq (by decide) (by decide))) ?_)
  rw [if_neg (not_not.mpr hk.magic)]
  refine .load (load_heap (size_reaches hs.stands hb)) ?_
  rw [if_pos (block_stack hs.stands hq).2.2.1]
  exact freeBig_yields hs hq

theorem klfree_cell (hc : Consistent g b h A)
    (hp : A p = some (.cells i free)) (hcell : IsCell p i c)
    (hfree : c ∉ free) : Yields (heapMachine b) (Slab.klfree g c) h fun _ h' => ∃ A',
      Released g b h A c (cellBytes i) h' A' := by
  obtain ⟨bins, levels, top, hs⟩ := hc
  have hA := hs.stands.arena
  have hk := hA.chunk p _ hp
  have ha := hA.aligned p _ hp
  obtain ⟨hlow, hhigh⟩ := hcell.bounds
  have hpos := (cellBytes_pos i).1
  have hcn : c ≠ null := fun he => by
    rw [he] at hlow
    exact absurd hlow (by change ¬ _ ≤ 0; omega)
  have hmod : (c % pageSize).toNat = c.toNat % 4096 := BitVec.toNat_umod
  have hoff : c % pageSize ≠ 0 := fun he => by
    have hz : c.toNat % 4096 = 0 := hmod.symm.trans (congrArg BitVec.toNat he)
    omega
  rw [Slab.klfree, if_neg hcn]
  dsimp only
  rw [if_neg hoff, header_eq ha (by omega) (by omega)]
  refine .check (page_whole ha)
    (.load (load_heap (hA.reaches_offset hp (by decide) (by decide))) ?_)
  rw [if_neg (not_not.mpr hk.magic)]
  refine .load (load_heap (hA.reaches_offset hp (by decide) (by decide))) ?_
  rw [if_neg (small_size hs.stands hp), hk.size]
  refine (freeSmall_yields hs.stands hp hcell hfree).mono fun _ h' ⟨bins', hs', hw, hkept⟩ =>
    ⟨_, .cell hp hcell hfree, ?_, fun x hx => ?_, hw.brk, hw.room⟩
  · have hbp := binPage_of_cells hA hp
    refine ⟨bins', levels, top, hs',
      Index.page hs.index hs.stands hs.blocks hk.bin_lt hbp (hA.above p _ hp) hw, fun q => ?_⟩
    rw [hs.free, free_update_cells hbp.cells]
  · have hr : Releases A c (cellBytes i) (Function.update A p (some (.cells i (c :: free)))) :=
      .cell hp hcell hfree
    have hh := hr.hands hA
    obtain ⟨r, k, hl, hrlow, hrhigh⟩ := hx
    refine hkept x ⟨r, k, (hh.live r k).mpr (.inl hl), hrlow, hrhigh⟩ ?_
    rintro rfl
    -- the cell that is freed is apart from what is still handed out
    have hold : Live A r k := (hh.live r k).mpr (.inl hl)
    have hnow : Live A x (cellBytes i) := (hh.live x _).mpr (.inr ⟨rfl, rfl⟩)
    rcases hold.eq_or_apart hA hnow with ⟨rfl, rfl⟩ | hap
    · exact hh.fresh _ hl
    · omega

/-- What is handed out goes back when it is freed. -/
theorem klfree_yields (hc : Consistent g b h A) {bytes : Nat} (hl : Live A p bytes) :
    Yields (heapMachine b) (Slab.klfree g p) h fun _ h' =>
    ∃ A', Released g b h A p bytes h' A' := by
  obtain ⟨q, d, hq, hg⟩ := hl
  cases d with
  | cells i free =>
    obtain ⟨hcell, hfree, rfl⟩ := hg
    exact klfree_cell hc hq hcell hfree
  | block n f =>
    obtain ⟨rfl, rfl, rfl⟩ := hg
    obtain ⟨bins, levels, top, hs⟩ := id hc
    have hoff := (header_toNat (hs.stands.arena.aligned q _ hq)).2.2.2.2
    exact klfree_block hc hq (by omega) (by omega)

end

end SimpleOs.Audit.SlabCalls
