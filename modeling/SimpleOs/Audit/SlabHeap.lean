import SimpleOs.Kernel.Slab
import SimpleOs.Lib.LinkedList
import SimpleOs.Lib.SkipList

/-!
# The heap of the slab allocator

The allocator runs here on plain words: static data, and a heap that ends at a break.
An arena says what stands where: pages of cells and blocks of whole pages, each with what
is free in it. The invariant relates the words to an arena, to the lists of its pages with
free cells and to the skip list of its free blocks.
-/

namespace SimpleOs.Audit.SlabHeap

open SimpleOs.Kernel SimpleOs.Lib.WordProgram SimpleOs.Lib.LinkedList SimpleOs.Lib.SkipList

/-- Static data below `statics`, the heap between `start` and `limit`. -/
structure Bounds where
  statics : Nat
  start : Nat
  limit : Nat
  statics_le : statics ≤ start
  start_pos : 0 < start
  start_le : start ≤ limit
  limit_le : limit ≤ 2^32

structure Heap where
  words : U32int → U32int
  brk : U32int
  /-- Pages that are left to grow by. -/
  room : Nat

namespace Heap

def set (h : Heap) (p v : U32int) : Heap := { h with words := Function.update h.words p v }

/-- The new words are zero. -/
def grown (h : Heap) (n : U32int) : Heap where
  words := fun p => if h.brk ≤ p ∧ p < h.brk + n then 0 else h.words p
  brk := h.brk + n
  room := h.room - n.toNat / 4096

end Heap

section

variable (b : Bounds) (h : Heap)

def Reaches (p : U32int) : Prop :=
  p.toNat % 4 = 0 ∧ (p.toNat + 4 ≤ b.statics ∨ b.start ≤ p.toNat ∧ p.toNat + 4 ≤ h.brk.toNat)

def Grows (n : U32int) : Prop :=
  n.toNat % 4096 = 0 ∧ n.toNat / 4096 ≤ h.room ∧ h.brk.toNat + n.toNat < b.limit

instance (p : U32int) : Decidable (Reaches b h p) := inferInstanceAs (Decidable (_ ∧ _))
instance (n : U32int) : Decidable (Grows b h n) := inferInstanceAs (Decidable (_ ∧ _))

def heapMachine : Machine Heap U32int Trap where
  load := fun p h => if Reaches b h p then .ok (h.words p) else .error (.pageFault p)
  store := fun p v h => if Reaches b h p then .ok (h.set p v) else .error (.pageFault p)
  grow := fun n h => if Grows b h n then .ok (h.brk, h.grown n) else .error .assertion

end

/-- Only words in `S` differ. -/
structure Writes (S : Set U32int) (h h' : Heap) : Prop where
  words : ∀ x, x ∉ S → h'.words x = h.words x
  brk : h'.brk = h.brk
  room : h'.room = h.room

section

variable {b : Bounds} {h h' h'' : Heap} {p v x n : U32int} {S S' : Set U32int}

theorem load_heap (hp : Reaches b h p) : (heapMachine b).load p h = .ok (h.words p) := if_pos hp

theorem store_heap (hp : Reaches b h p) (v : U32int) :
    (heapMachine b).store p v h = .ok (h.set p v) := if_pos hp

theorem grow_heap (hn : Grows b h n) : (heapMachine b).grow n h = .ok (h.brk, h.grown n) :=
    if_pos hn

@[simp] theorem Heap.set_same : (h.set p v).words p = v := by
  simp only [Heap.set, Function.update_self]

theorem Heap.set_of_ne (hx : x ≠ p) : (h.set p v).words x = h.words x := by
  simp only [Heap.set, Function.update_of_ne hx]

theorem Heap.grown_inside (hle : h.brk ≤ x) (hlt : x < h.brk + n) : (h.grown n).words x = 0 :=
  if_pos ⟨hle, hlt⟩

theorem Heap.grown_below (hlt : x < h.brk) : (h.grown n).words x = h.words x :=
  if_neg fun hx => absurd hlt (BitVec.not_lt.mpr hx.1)

theorem Writes.refl (S : Set U32int) (h : Heap) : Writes S h h := ⟨fun _ _ => rfl, rfl, rfl⟩

theorem Writes.trans (hw : Writes S h h') (hw' : Writes S h' h'') : Writes S h h'' where
  words := fun x hx => (hw'.words x hx).trans (hw.words x hx)
  brk := hw'.brk.trans hw.brk
  room := hw'.room.trans hw.room

theorem Writes.mono (hw : Writes S h h') (hS : S ⊆ S') : Writes S' h h' :=
  ⟨fun x hx => hw.words x fun hin => hx (hS hin), hw.brk, hw.room⟩

theorem writes_set (hp : p ∈ S) : Writes S h (h.set p v) :=
  ⟨fun _ hx => Heap.set_of_ne fun he => hx (he ▸ hp), rfl, rfl⟩

theorem Writes.set (hw : Writes S h h') (hp : p ∈ S) : Writes S h (h'.set p v) :=
    hw.trans (writes_set hp)

theorem Reaches.writes (hp : Reaches b h p) (hw : Writes S h h') : Reaches b h' p := by
  rw [Reaches, hw.brk]
  exact hp

theorem reaches_static (ha : p.toNat % 4 = 0) (hp : p.toNat + 4 ≤ b.statics) :
    Reaches b h p := ⟨ha, .inl hp⟩

theorem reaches_heap (ha : p.toNat % 4 = 0) (hs : b.start ≤ p.toNat)
    (he : p.toNat + 4 ≤ h.brk.toNat) : Reaches b h p := ⟨ha, .inr ⟨hs, he⟩⟩

end

/-- A page of cells with its free ones, or a block of pages that is free or not. -/
inductive Chunk where
  | cells (bin : U32int) (free : List U32int)
  | block (pages : Nat) (free : Bool)

def Chunk.pages : Chunk → Nat
  | .cells _ _ => 1
  | .block n _ => n

/-- The chunk that begins at an address. -/
abbrev Arena := U32int → Option Chunk

def cellBytes (bin : U32int) : Nat := 2^(bin.toNat + 2)
def blockBytes (pages : Nat) : Nat := 4096 * pages - 48

/-- `c` is one of the cells of the page `p`. -/
def IsCell (p bin c : U32int) : Prop :=
  ∃ i, 16 + (i + 1) * cellBytes bin ≤ 4096 ∧ c.toNat = p.toNat + 16 + i * cellBytes bin

structure Cells (w : U32int → U32int) (p bin : U32int) (free : List U32int) : Prop where
  magic : w (BinHeader.magic p) = binMagic
  size : w (BinHeader.size p) = bin
  linked : Linked w null (BinHeader.head p) free
  bin_lt : bin < bigBin
  nodup : free.Nodup
  cell : ∀ c ∈ free, IsCell p bin c

structure Block (w : U32int → U32int) (p : U32int) (pages : Nat) (free : Bool) : Prop where
  magic : w (BinHeader.magic p) = binMagic
  size : w (BinHeader.size p) = BitVec.ofNat 32 (blockBytes pages)
  head : w (BinHeader.head p) = if free then p + bigBinHeaderSize else null
  empty : free = true → w (p + bigBinHeaderSize) = null
  pages_pos : 0 < pages

def ChunkAt (w : U32int → U32int) (p : U32int) : Chunk → Prop
  | .cells bin free => Cells w p bin free
  | .block pages free => Block w p pages free

structure ArenaAt (b : Bounds) (h : Heap) (A : Arena) : Prop where
  aligned : ∀ p c, A p = some c → p.toNat % 4096 = 0
  above : ∀ p c, A p = some c → b.start ≤ p.toNat
  below : ∀ p c, A p = some c → p.toNat + 4096 * c.pages ≤ h.brk.toNat
  apart : ∀ p c q d, A p = some c → A q = some d → p.toNat < q.toNat →
    p.toNat + 4096 * c.pages ≤ q.toNat
  chunk : ∀ p c, A p = some c → ChunkAt h.words p c

/-- `x` is an address in the chunk at `q`. -/
def Owns (A : Arena) (q x : U32int) : Prop :=
  ∃ c, A q = some c ∧ q.toNat ≤ x.toNat ∧ x.toNat < q.toNat + 4096 * c.pages

/-- What a chunk has handed out, and how many bytes that are: cells that are not free, or
the block behind its header. -/
def Gives (q : U32int) : Chunk → U32int → Nat → Prop
  | .cells bin free, p, bytes => IsCell q bin p ∧ p ∉ free ∧ bytes = cellBytes bin
  | .block pages free, p, bytes =>
    free = false ∧ p = q + bigBinHeaderSize ∧ bytes = blockBytes pages

/-- What the allocator has handed out. -/
def Live (A : Arena) (p : U32int) (bytes : Nat) : Prop := ∃ q c, A q = some c ∧ Gives q c p bytes

/-- `x` is an address in a cell or block that is handed out. -/
def HandedOut (A : Arena) (x : U32int) : Prop :=
  ∃ p bytes, Live A p bytes ∧ p.toNat ≤ x.toNat ∧ x.toNat < p.toNat + bytes

/-- The words that say what is free in a chunk. -/
def Reads (p : U32int) : Chunk → U32int → Prop
  | .cells _ free, x => x = BinHeader.magic p ∨ x = BinHeader.size p ∨
    x = BinHeader.head p ∨ x ∈ free
  | .block _ free, x => x = BinHeader.magic p ∨ x = BinHeader.size p ∨ x = BinHeader.head p ∨
      free = true ∧ x = p + bigBinHeaderSize

section

variable {b : Bounds} {h h' : Heap} {A : Arena} {w w' : U32int → U32int} {p q x k bin : U32int}
  {c d : Chunk} {free : List U32int} {S : Set U32int} {n : Nat}

theorem ChunkAt.congr (hc : ChunkAt w p c)
    (hw : ∀ x, Reads p c x → w' x = w x) : ChunkAt w' p c := by
  cases c with
  | cells bin free =>
    refine ⟨(hw _ (.inl rfl)).trans hc.magic, (hw _ (.inr (.inl rfl))).trans hc.size,
      hc.linked.congr fun x hx => ?_, hc.bin_lt, hc.nodup, hc.cell⟩
    rcases List.mem_cons.mp hx with rfl | hin
    · exact hw _ (.inr (.inr (.inl rfl)))
    · exact hw _ (.inr (.inr (.inr hin)))
  | block n f =>
    exact ⟨(hw _ (.inl rfl)).trans hc.magic, (hw _ (.inr (.inl rfl))).trans hc.size,
      (hw _ (.inr (.inr (.inl rfl)))).trans hc.head,
      fun hf => (hw _ (.inr (.inr (.inr ⟨hf, rfl⟩)))).trans (hc.empty hf), hc.pages_pos⟩

theorem ChunkAt.pages_pos (hc : ChunkAt w p c) : 0 < c.pages := by
  cases c with
  | cells bin free => exact Nat.one_pos
  | block n f => exact hc.pages_pos

/-- An address in the page of a chunk's header. -/
theorem offset_toNat (ha : p.toNat % 4096 = 0) (hk : k.toNat < 4096) :
    (p + k).toNat = p.toNat + k.toNat := by
  bv_omega

theorem page_whole (ha : p.toNat % 4096 = 0) : (p % pageSize == 0) = true := by
  rw [beq_iff_eq]
  exact BitVec.eq_of_toNat_eq (BitVec.toNat_umod.trans ha)

theorem IsCell.bounds (hc : IsCell p bin x) :
    p.toNat + 16 ≤ x.toNat ∧ x.toNat + cellBytes bin ≤ p.toNat + 4096 := by
  obtain ⟨i, hi, hx⟩ := hc
  rw [Nat.succ_mul] at hi
  omega

theorem cellBytes_pos (bin : U32int) : 4 ≤ cellBytes bin ∧ cellBytes bin % 4 = 0 := by
  rw [cellBytes, Nat.pow_add]
  have := Nat.two_pow_pos bin.toNat
  omega

theorem IsCell.owned (hx : IsCell p bin x) (hp : A p = some (.cells bin free)) : Owns A p x := by
  obtain ⟨hlow, hhigh⟩ := hx.bounds
  have hpos := (cellBytes_pos bin).1
  exact ⟨_, hp, by omega, by simp only [Chunk.pages]; omega⟩

namespace ArenaAt

theorem page_below (hA : ArenaAt b h A) (hp : A p = some c) : p.toNat + 4096 ≤ h.brk.toNat := by
  have hpos := (hA.chunk p c hp).pages_pos
  have hbelow := hA.below p c hp
  omega

theorem ne_null (hA : ArenaAt b h A) (hp : A p = some c) : p ≠ null := by
  have habove := hA.above p c hp
  have hpos := b.start_pos
  have hnull : null.toNat = 0 := rfl
  rintro rfl
  omega

/-- An offset in the first page. -/
theorem owns_offset (hA : ArenaAt b h A) (hp : A p = some c)
    (hk : k.toNat < 4096) : Owns A p (p + k) := by
  have hpos := (hA.chunk p c hp).pages_pos
  have hoff := offset_toNat (hA.aligned p c hp) hk
  exact ⟨c, hp, by omega, by omega⟩

theorem reaches_offset (hA : ArenaAt b h A) (hp : A p = some c) (hk : k.toNat < 4096)
    (h4 : k.toNat % 4 = 0) : Reaches b h (p + k) := by
  have ha := hA.aligned p c hp
  have hoff := offset_toNat ha hk
  have habove := hA.above p c hp
  have hbelow := hA.page_below hp
  exact reaches_heap (by omega) (by omega) (by omega)

theorem owner_unique (hA : ArenaAt b h A) (hp : Owns A p x) (hq : Owns A q x) : p = q := by
  obtain ⟨c, hp, hp1, hp2⟩ := hp
  obtain ⟨d, hq, hq1, hq2⟩ := hq
  by_contra hne
  have hnn : p.toNat ≠ q.toNat := fun he => hne (BitVec.eq_of_toNat_eq he)
  rcases Nat.lt_or_gt_of_ne hnn with hlt | hlt
  · have := hA.apart p c q d hp hq hlt
    omega
  · have := hA.apart q d p c hq hp hlt
    omega

theorem reads_owned (hA : ArenaAt b h A) (hp : A p = some c) (hx : Reads p c x) : Owns A p x := by
  cases c with
  | cells bin free =>
    rcases hx with rfl | rfl | rfl | hx
    · exact hA.owns_offset hp (by decide)
    · exact hA.owns_offset hp (by decide)
    · exact hA.owns_offset hp (by decide)
    · exact ((hA.chunk p _ hp).cell x hx).owned hp
  | block n f =>
    rcases hx with rfl | rfl | rfl | ⟨-, rfl⟩ <;> exact hA.owns_offset hp (by decide)

/-- Writing what no chunk reads changes no chunk. -/
theorem write (hA : ArenaAt b h A) (hw : Writes S h h')
    (hS : ∀ p c x, A p = some c → Reads p c x → x ∉ S) : ArenaAt b h' A where
  aligned := hA.aligned
  above := hA.above
  below := fun p c hp => by
    rw [hw.brk]
    exact hA.below p c hp
  apart := hA.apart
  chunk := fun p c hp => (hA.chunk p c hp).congr fun x hx => hw.words x (hS p c x hp hx)

/-- A chunk is put where there is room for it. -/
theorem put (hA : ArenaAt b h A) (hw : Writes S h h') (ha : p.toNat % 4096 = 0)
    (habove : b.start ≤ p.toNat) (hbelow : p.toNat + 4096 * d.pages ≤ h.brk.toNat)
    (hafter : ∀ q e, A q = some e → p.toNat < q.toNat → p.toNat + 4096 * d.pages ≤ q.toNat)
    (hbefore : ∀ q e, A q = some e → q.toNat < p.toNat → q.toNat + 4096 * e.pages ≤ p.toNat)
    (hS : ∀ q e x, q ≠ p → A q = some e → Reads q e x → x ∉ S) (hd : ChunkAt h'.words p d) :
    ArenaAt b h' (Function.update A p (some d)) := by
  have hcases : ∀ q e, Function.update A p (some d) q = some e →
      q = p ∧ e = d ∨ q ≠ p ∧ A q = some e := by
    intro q e hq
    by_cases hqp : q = p
    · subst hqp
      rw [Function.update_self] at hq
      exact .inl ⟨rfl, (Option.some.inj hq).symm⟩
    · rw [Function.update_of_ne hqp] at hq
      exact .inr ⟨hqp, hq⟩
  refine ⟨fun q e hq => ?_, fun q e hq => ?_, fun q e hq => ?_,
    fun q e r f hq hr hlt => ?_, fun q e hq => ?_⟩
  · obtain ⟨rfl, -⟩ | ⟨-, hq⟩ := hcases q e hq
    · exact ha
    · exact hA.aligned q e hq
  · obtain ⟨rfl, -⟩ | ⟨-, hq⟩ := hcases q e hq
    · exact habove
    · exact hA.above q e hq
  · rw [hw.brk]
    obtain ⟨rfl, rfl⟩ | ⟨-, hq⟩ := hcases q e hq
    · exact hbelow
    · exact hA.below q e hq
  · obtain ⟨rfl, rfl⟩ | ⟨-, hq'⟩ := hcases q e hq
    · obtain ⟨rfl, -⟩ | ⟨-, hr'⟩ := hcases r f hr
      · exact absurd hlt (lt_irrefl _)
      · exact hafter r f hr' hlt
    · obtain ⟨rfl, -⟩ | ⟨-, hr'⟩ := hcases r f hr
      · exact hbefore q e hq' hlt
      · exact hA.apart q e r f hq' hr' hlt
  · obtain ⟨rfl, rfl⟩ | ⟨hqp, hq⟩ := hcases q e hq
    · exact hd
    · exact (hA.chunk q e hq).congr fun x hx => hw.words x (hS q e x hqp hq hx)

/-- A chunk is changed in place. -/
theorem update (hA : ArenaAt b h A) (hw : Writes S h h') (hp : A p = some c)
    (hpages : d.pages = c.pages)
    (hS : ∀ q e x, q ≠ p → A q = some e → Reads q e x → x ∉ S) (hd : ChunkAt h'.words p d) :
    ArenaAt b h' (Function.update A p (some d)) :=
  hA.put hw (hA.aligned p c hp) (hA.above p c hp) (hpages ▸ hA.below p c hp)
    (fun q e hq hlt => hpages ▸ hA.apart p c q e hp hq hlt)
      (fun q e hq hlt => hA.apart q e p c hq hp hlt) hS hd

/-- More room behind the break. -/
theorem grown (hA : ArenaAt b h A) (hn : Grows b h k) : ArenaAt b (h.grown k) A := by
  have hlim := b.limit_le
  obtain ⟨-, -, hlt⟩ := hn
  have hbrk : (h.grown k).brk.toNat = h.brk.toNat + k.toNat := by
    change (h.brk + k).toNat = _
    rw [BitVec.toNat_add, Nat.mod_eq_of_lt (by omega)]
  refine ⟨hA.aligned, hA.above, fun p c hp => ?_, hA.apart,
    fun p c hp => (hA.chunk p c hp).congr fun x hx => ?_⟩
  · have := hA.below p c hp
    omega
  · obtain ⟨c', hp', -, hx2⟩ := hA.reads_owned hp hx
    have hbelow := hA.below p c' hp'
    refine Heap.grown_below ?_
    rw [BitVec.lt_def]
    omega

end ArenaAt

end

section

variable {b : Bounds} {h : Heap} {A : Arena} {p q x y bin : U32int}
  {c : Chunk} {bytes bytes' n : Nat}

theorem multiple_eq {i j s : Nat} (hle : i * s ≤ j * s) (hlt : j * s < i * s + s) : i = j := by
  have hs : 0 < s := by omega
  have hij := Nat.le_of_mul_le_mul_right hle hs
  have hji : j < i + 1 := Nat.lt_of_mul_lt_mul_right (a := s) (by rwa [Nat.succ_mul])
  omega

/-- Cells of a page are equal or apart. -/
theorem IsCell.eq_or_apart (hx : IsCell p bin x) (hy : IsCell p bin y) :
    x = y ∨ x.toNat + cellBytes bin ≤ y.toNat ∨ y.toNat + cellBytes bin ≤ x.toNat := by
  obtain ⟨i, -, hi⟩ := hx
  obtain ⟨j, -, hj⟩ := hy
  by_contra hne
  simp only [not_or, not_le] at hne
  obtain ⟨hxy, h1, h2⟩ := hne
  have hij : i = j := by
    rcases Nat.le_total (i * cellBytes bin) (j * cellBytes bin) with hle | hle
    · exact multiple_eq hle (by omega)
    · exact (multiple_eq hle (by omega)).symm
  subst hij
  exact hxy (BitVec.eq_of_toNat_eq (by omega))

theorem IsCell.aligned (hx : IsCell p bin x) (ha : p.toNat % 4096 = 0) : x.toNat % 4 = 0 := by
  obtain ⟨i, -, hi⟩ := hx
  have hmod := Nat.mul_mod i (cellBytes bin) 4
  rw [(cellBytes_pos bin).2, Nat.mul_zero, Nat.zero_mod] at hmod
  omega

theorem header_toNat (ha : q.toNat % 4096 = 0) : (BinHeader.next q).toNat = q.toNat ∧
    (BinHeader.head q).toNat = q.toNat + 4 ∧ (BinHeader.size q).toNat = q.toNat + 8 ∧
      (BinHeader.magic q).toNat = q.toNat + 12 ∧ (q + bigBinHeaderSize).toNat = q.toNat + 48 :=
  ⟨rfl, offset_toNat ha (by decide), offset_toNat ha (by decide), offset_toNat ha (by decide),
    offset_toNat ha (by decide)⟩

theorem blockBytes_eq (hn : 0 < n) : 48 + blockBytes n = 4096 * n := by
  rw [blockBytes]
  omega

/-- What is handed out lies in the chunk behind its header. -/
theorem Gives.inside (hA : ArenaAt b h A) (hq : A q = some c) (hg : Gives q c p bytes) :
    p.toNat % 4 = 0 ∧
    q.toNat + 16 ≤ p.toNat ∧ p.toNat + bytes ≤ q.toNat + 4096 * c.pages ∧
    4 ≤ bytes ∧ bytes % 4 = 0 := by
  have ha := hA.aligned q c hq
  cases c with
  | cells bin free =>
    obtain ⟨hc, -, rfl⟩ := hg
    obtain ⟨hlow, hhigh⟩ := hc.bounds
    obtain ⟨hpos, hmod⟩ := cellBytes_pos bin
    exact ⟨hc.aligned ha, hlow, by simp only [Chunk.pages]; omega, hpos, hmod⟩
  | block n f =>
    obtain ⟨-, rfl, rfl⟩ := hg
    obtain ⟨-, -, -, -, hoff⟩ := header_toNat ha
    have hend := blockBytes_eq (hA.chunk q _ hq).pages_pos
    have hpos := (hA.chunk q _ hq).pages_pos
    simp only [Chunk.pages] at hend hpos ⊢
    omega

/-- The allocator keeps nothing in it. -/
theorem Gives.not_reads (hA : ArenaAt b h A) (hq : A q = some c) (hg : Gives q c p bytes)
    (hlow : p.toNat ≤ x.toNat) (hhigh : x.toNat < p.toNat + bytes) : ¬ Reads q c x := by
  obtain ⟨-, hhead, hsize, hmagic, -⟩ := header_toNat (hA.aligned q c hq)
  obtain ⟨-, hin, -, -, -⟩ := hg.inside hA hq
  cases c with
  | cells bin free =>
    obtain ⟨hc, hfree, rfl⟩ := hg
    rintro (rfl | rfl | rfl | hx)
    · omega
    · omega
    · omega
    · obtain ⟨hpos, -⟩ := cellBytes_pos bin
      rcases hc.eq_or_apart ((hA.chunk q _ hq).cell x hx) with rfl | hap
      · exact hfree hx
      · omega
  | block n f =>
    obtain ⟨rfl, -, -⟩ := hg
    rintro (rfl | rfl | rfl | ⟨hf, -⟩)
    · omega
    · omega
    · omega
    · cases hf

theorem Gives.eq_or_apart (hg : Gives q c p bytes) (hg' : Gives q c y bytes') :
    p = y ∧ bytes = bytes' ∨ p.toNat + bytes ≤ y.toNat ∨ y.toNat + bytes' ≤ p.toNat := by
  cases c with
  | cells bin free =>
    obtain ⟨hc, -, rfl⟩ := hg
    obtain ⟨hc', -, rfl⟩ := hg'
    rcases hc.eq_or_apart hc' with rfl | hap
    · exact .inl ⟨rfl, rfl⟩
    · exact .inr hap
  | block n f =>
    obtain ⟨-, rfl, rfl⟩ := hg
    obtain ⟨-, rfl, rfl⟩ := hg'
    exact .inl ⟨rfl, rfl⟩

theorem Live.bounds (hA : ArenaAt b h A) (hl : Live A p bytes) : p ≠ null ∧ p.toNat % 4 = 0 ∧
    b.start ≤ p.toNat ∧ p.toNat + bytes ≤ h.brk.toNat ∧ 4 ≤ bytes ∧ bytes % 4 = 0 := by
  obtain ⟨q, c, hq, hg⟩ := hl
  obtain ⟨ha, hlow, hhigh, hpos, hmod⟩ := hg.inside hA hq
  have habove := hA.above q c hq
  have hbelow := hA.below q c hq
  have hnull : null.toNat = 0 := rfl
  refine ⟨?_, ha, by omega, by omega, hpos, hmod⟩
  rintro rfl
  omega

/-- What is handed out under two addresses does not overlap. -/
theorem Live.eq_or_apart (hA : ArenaAt b h A) (hp : Live A p bytes) (hy : Live A y bytes') :
    p = y ∧ bytes = bytes' ∨ p.toNat + bytes ≤ y.toNat ∨ y.toNat + bytes' ≤ p.toNat := by
  obtain ⟨q, c, hq, hg⟩ := hp
  obtain ⟨r, d, hr, hg'⟩ := hy
  by_cases hqr : q = r
  · subst hqr
    obtain rfl := Option.some.inj (hq.symm.trans hr)
    exact hg.eq_or_apart hg'
  · obtain ⟨-, hlow, hhigh, -, -⟩ := hg.inside hA hq
    obtain ⟨-, hlow', hhigh', -, -⟩ := hg'.inside hA hr
    have hnn : q.toNat ≠ r.toNat := fun he => hqr (BitVec.eq_of_toNat_eq he)
    rcases Nat.lt_or_gt_of_ne hnn with hlt | hlt
    · have := hA.apart q c r d hq hr hlt
      omega
    · have := hA.apart r d q c hr hq hlt
      omega

/-- An address that is handed out belongs to a chunk, which keeps nothing there. -/
theorem HandedOut.owner (hA : ArenaAt b h A) (hx : HandedOut A x) :
    ∃ q c, A q = some c ∧ Owns A q x ∧
    q.toNat + 16 ≤ x.toNat ∧ ¬ Reads q c x ∧ ∀ n f, c = .block n f → q.toNat + 48 ≤ x.toNat := by
  obtain ⟨p, bytes, ⟨q, c, hq, hg⟩, hlow, hhigh⟩ := hx
  obtain ⟨-, hin, hend, -, -⟩ := hg.inside hA hq
  refine ⟨q, c, hq, ⟨c, hq, by omega, by omega⟩, by omega,
    hg.not_reads hA hq hlow hhigh, fun n f he => ?_⟩
  subst he
  obtain ⟨-, -, -, -, hoff⟩ := header_toNat (hA.aligned q _ hq)
  obtain ⟨-, rfl, -⟩ := hg
  omega

theorem HandedOut.not_reads (hA : ArenaAt b h A) (hx : HandedOut A x)
    (hp : A p = some c) : ¬ Reads p c x := by
  obtain ⟨q, d, hq, howns, -, hnot, -⟩ := hx.owner hA
  intro hr
  obtain rfl := hA.owner_unique (hA.reads_owned hp hr) howns
  obtain rfl := Option.some.inj (hp.symm.trans hq)
  exact hnot hr

end

section

variable (g : SlabStatics)

def InBins (x : U32int) : Prop := g.binHead.toNat ≤ x.toNat ∧ x.toNat < g.binHead.toNat + 40
/-- The head of the skip list, or its level. -/
def InIndex (x : U32int) : Prop := g.bigBins.toNat ≤ x.toNat ∧ x.toNat < g.bigBins.toNat + 52
def InRand (x : U32int) : Prop := x = g.x ∨ x = g.y ∨ x = g.z ∨ x = g.w

instance (x : U32int) : Decidable (InBins g x) := inferInstanceAs (Decidable (_ ∧ _))
instance (x : U32int) : Decidable (InIndex g x) := inferInstanceAs (Decidable (_ ∧ _))

/-- The variables lie apart in the static data. -/
structure Placed (b : Bounds) : Prop where
  aligned : ∀ p ∈ [g.binHead, g.bigBins, g.newestBig, g.x, g.y, g.z, g.w], p.toNat % 4 = 0
  bins_end : g.binHead.toNat + 40 ≤ b.statics
  index_end : g.bigBins.toNat + 52 ≤ b.statics
  word_end : ∀ p ∈ [g.newestBig, g.x, g.y, g.z, g.w], p.toNat + 4 ≤ b.statics
  index_bins : ∀ x, InIndex g x → ¬ InBins g x
  newest_bins : ¬ InBins g g.newestBig
  newest_index : ¬ InIndex g g.newestBig
  rand_bins : ∀ x, InRand g x → ¬ InBins g x
  rand_index : ∀ x, InRand g x → ¬ InIndex g x
  rand_newest : ∀ x, InRand g x → x ≠ g.newestBig

/-- The lists of pages with free cells. -/
structure Pages (w : U32int → U32int) (A : Arena) (bins : U32int → List U32int) : Prop where
  linked : ∀ i < bigBin, Linked w null (g.bin i) (bins i)
  nodup : ∀ i < bigBin, (bins i).Nodup
  mem : ∀ i < bigBin, ∀ p, p ∈ bins i ↔ ∃ free, free ≠ [] ∧ A p = some (.cells i free)

/-- Everything but the skip list. -/
structure Stands (b : Bounds) (h : Heap) (A : Arena) (bins : U32int → List U32int) : Prop where
  placed : Placed g b
  brk_aligned : h.brk.toNat % 4096 = 0
  brk_above : b.start ≤ h.brk.toNat
  arena : ArenaAt b h A
  pages : Pages g h.words A bins
  newest : h.words g.newestBig = null ∨ ∃ n f, A (h.words g.newestBig) = some (.block n f)

/-- The words of the skip list: its head and level, the links in blocks, and the variables
of its random numbers. -/
def IndexWords (A : Arena) : Set U32int :=
  { x | InIndex g x ∨ InRand g x ∨
    ∃ q n f, A q = some (.block n f) ∧ q.toNat + 20 ≤ x.toNat ∧ x.toNat < q.toNat + 48 }

end

section

variable {g : SlabStatics} {b : Bounds} {h h' : Heap} {A : Arena} {bins : U32int → List U32int}
  {p q x i : U32int} {c : Chunk} {S : Set U32int}

theorem bin_toNat (h : Placed g b) (hi : i < bigBin) :
    (g.bin i).toNat = g.binHead.toNat + 4 * i.toNat ∧ i.toNat < 10 := by
  have hend := h.bins_end
  have hle := b.statics_le.trans (b.start_le.trans b.limit_le)
  have hi' : i.toNat < 10 := hi
  refine ⟨?_, hi'⟩
  rw [SlabStatics.bin]
  bv_omega

theorem bin_inj {j : U32int} (h : Placed g b) (hi : i < bigBin) (hj : j < bigBin)
    (he : g.bin i = g.bin j) : i = j := by
  have hn := congrArg BitVec.toNat he
  rw [(bin_toNat h hi).1, (bin_toNat h hj).1] at hn
  exact BitVec.eq_of_toNat_eq (by omega)

theorem reaches_bin (hs : Placed g b) (hi : i < bigBin) : Reaches b h (g.bin i) := by
  obtain ⟨hbin, hlt⟩ := bin_toNat hs hi
  have hend := hs.bins_end
  have ha := hs.aligned g.binHead (by simp)
  exact reaches_static (by omega) (by omega)

theorem ArenaAt.owned_above (hA : ArenaAt b h A) (ho : Owns A q x) : b.start ≤ x.toNat := by
  obtain ⟨c, hq, hle, -⟩ := ho
  exact (hA.above q c hq).trans hle

namespace Stands

theorem bin_static (hs : Stands g b h A bins) (hi : i < bigBin) :
    (g.bin i).toNat < b.start ∧ InBins g (g.bin i) := by
  obtain ⟨hbin, hlt⟩ := bin_toNat hs.placed hi
  have hend := hs.placed.bins_end
  have hle := b.statics_le
  exact ⟨by omega, by omega, by omega⟩

theorem newest_static (hs : Stands g b h A bins) : g.newestBig.toNat < b.start := by
  have hend := hs.placed.word_end g.newestBig (by simp)
  have hle := b.statics_le
  omega

/-- A word of the skip list is static, or is one of the links of a block. -/
theorem index_cases (hs : Stands g b h A bins) (hx : x ∈ IndexWords g A) : x.toNat < b.start ∨
    ∃ q n f, A q = some (.block n f) ∧ Owns A q x ∧ q.toNat + 20 ≤ x.toNat ∧
    x.toNat < q.toNat + 48 := by
  have hle := b.statics_le
  rcases hx with hidx | hrand | ⟨q, n, f, hq, hlow, hhigh⟩
  · have hend := hs.placed.index_end
    obtain ⟨-, hlt⟩ := hidx
    exact .inl (by omega)
  · have hend : x.toNat + 4 ≤ b.statics := by
      refine hs.placed.word_end x ?_
      rcases hrand with rfl | rfl | rfl | rfl <;> simp
    exact .inl (by omega)
  · have hpos := (hs.arena.chunk q _ hq).pages_pos
    exact .inr ⟨q, n, f, hq, ⟨_, hq, by omega, by omega⟩, hlow, hhigh⟩

theorem index_not_reads (hs : Stands g b h A bins) (hx : x ∈ IndexWords g A) (hp : A p = some c) :
    ¬ Reads p c x := by
  intro hr
  have ho := hs.arena.reads_owned hp hr
  rcases hs.index_cases hx with hlow | ⟨q, n, f, hq, hoq, hlow, hhigh⟩
  · have := hs.arena.owned_above ho
    omega
  · obtain rfl := hs.arena.owner_unique ho hoq
    obtain rfl := Option.some.inj (hp.symm.trans hq)
    obtain ⟨-, hhead, hsize, hmagic, hbody⟩ := header_toNat (hs.arena.aligned p _ hp)
    rcases hr with rfl | rfl | rfl | ⟨-, rfl⟩ <;> omega

theorem index_not_handedOut (hs : Stands g b h A bins)
    (hx : x ∈ IndexWords g A) : ¬ HandedOut A x := by
  intro ho
  obtain ⟨q, c, hq, hoq, -, -, hblock⟩ := ho.owner hs.arena
  rcases hs.index_cases hx with hlow | ⟨r, n, f, hr, hor, hlow, hhigh⟩
  · have := hs.arena.owned_above hoq
    omega
  · obtain rfl := hs.arena.owner_unique hor hoq
    have := hblock n f (Option.some.inj (hq.symm.trans hr))
    omega

theorem handedOut_above (hs : Stands g b h A bins) (hx : HandedOut A x) : b.start ≤ x.toNat := by
  obtain ⟨q, c, -, hoq, -⟩ := hx.owner hs.arena
  exact hs.arena.owned_above hoq

/-- The page of cells in a list is a chunk. -/
theorem page_of_mem (hs : Stands g b h A bins) (hi : i < bigBin) (hp : p ∈ bins i) :
    ∃ free, free ≠ [] ∧ A p = some (.cells i free) := (hs.pages.mem i hi p).mp hp

/-- The links of the lists of pages are no words of the skip list. -/
theorem index_not_link (hs : Stands g b h A bins) (hi : i < bigBin) (hx : x ∈ g.bin i :: bins i) :
    x ∉ IndexWords g A := by
  intro hidx
  rcases List.mem_cons.mp hx with rfl | hin
  · obtain ⟨hstatic, hbins⟩ := hs.bin_static hi
    rcases hidx with hidx | hrand | hblock
    · exact hs.placed.index_bins _ hidx hbins
    · exact hs.placed.rand_bins _ hrand hbins
    · obtain ⟨q, n, f, hq, hlow, -⟩ := hblock
      have := hs.arena.above q _ hq
      omega
  · obtain ⟨free, -, hp⟩ := hs.page_of_mem hi hin
    have hown : Owns A x x := by simpa using hs.arena.owns_offset hp (k := 0) (by decide)
    rcases hs.index_cases hidx with hlow | ⟨q, n, f, hq, hoq, hlow, -⟩
    · have := hs.arena.above x _ hp
      omega
    · obtain rfl := hs.arena.owner_unique hown hoq
      omega

theorem newest_not_index (hs : Stands g b h A bins) : g.newestBig ∉ IndexWords g A := by
  rintro (hidx | hrand | ⟨q, n, f, hq, hlow, -⟩)
  · exact hs.placed.newest_index hidx
  · exact hs.placed.rand_newest _ hrand rfl
  · have := hs.arena.above q _ hq
    have := hs.newest_static
    omega

/-- What is written elsewhere does not matter. -/
theorem frame (hs : Stands g b h A bins) (hw : Writes S h h')
    (hreads : ∀ p c x, A p = some c → Reads p c x → x ∉ S)
    (hlink : ∀ i < bigBin, ∀ x ∈ g.bin i :: bins i, x ∉ S) (hnewest : g.newestBig ∉ S) :
    Stands g b h' A bins where
  placed := hs.placed
  brk_aligned := hw.brk ▸ hs.brk_aligned
  brk_above := hw.brk ▸ hs.brk_above
  arena := hs.arena.write hw hreads
  pages := ⟨fun i hi => (hs.pages.linked i hi).congr fun x hx => hw.words x (hlink i hi x hx),
    hs.pages.nodup, hs.pages.mem⟩
  newest := by
    rw [hw.words _ hnewest]
    exact hs.newest

theorem index (hs : Stands g b h A bins)
    (hw : Writes (IndexWords g A) h h') : Stands g b h' A bins :=
  hs.frame hw (fun _ _ _ hp hr hx => hs.index_not_reads hx hp hr)
    (fun _ hi _ hx => hs.index_not_link hi hx) hs.newest_not_index

/-- A store to what is handed out changes nothing for the allocator. -/
theorem handedOut (hs : Stands g b h A bins) (hw : Writes (HandedOut A) h h') :
    Stands g b h' A bins := by
  refine hs.frame hw (fun p c x hp hr hx => HandedOut.not_reads hs.arena hx hp hr)
    (fun i hi x hx ho => ?_) fun ho => ?_
  · rcases List.mem_cons.mp hx with rfl | hin
    · have := hs.handedOut_above ho
      have := (hs.bin_static hi).1
      omega
    · obtain ⟨free, -, hp⟩ := hs.page_of_mem hi hin
      obtain ⟨q, c, hq, hoq, hlow, -, -⟩ := ho.owner hs.arena
      have hown : Owns A x x := by simpa using hs.arena.owns_offset hp (k := 0) (by decide)
      obtain rfl := hs.arena.owner_unique hown hoq
      omega
  · have := hs.handedOut_above ho
    have := hs.newest_static
    omega

end Stands

end

end SimpleOs.Audit.SlabHeap
