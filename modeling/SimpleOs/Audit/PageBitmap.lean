import SimpleOs.Kernel.MemoryManager
import SimpleOs.Lib.Refinement
import Mathlib.Data.Finset.Lattice.Basic
import Mathlib.Data.Set.Finite.Basic
import Mathlib.Data.Fintype.EquivFin

/-!
# The page bitmaps as two sets of page numbers

A ledger keeps, for the code and the data segment, the pages reserved at boot
and the pages currently held by a caller. The byte-packed bitmaps follow the
ledger through every history of allocations and frees.
-/

namespace SimpleOs.Audit.PageBitmap

open SimpleOs.Kernel SimpleOs.Lib SimpleOs.Lib.ByteMemory
open SimpleOs.Lib.PackedBits (byteAt bit bit_set bit_clear)
open SimpleOs.Lib.Refinement

inductive Kind where
  | code
  | data
deriving DecidableEq

structure Ledger where
  count : Kind → Nat
  reserved : Kind → Finset Nat
  held : Kind → Finset Nat
  disjoint : ∀ k, Disjoint (reserved k) (held k)

namespace Ledger

def used (l : Ledger) (k : Kind) : Finset Nat := l.reserved k ∪ l.held k

theorem exists_free (l : Ledger) (k : Kind) : ∃ i, i ∉ l.used k := Infinite.exists_notMem_finset _

/-- Least page number that is not in use. -/
def least (l : Ledger) (k : Kind) : Nat := Nat.find (l.exists_free k)

theorem least_isLeast (l : Ledger) (k : Kind) : IsLeast {i | i ∉ l.used k} (l.least k) :=
  ⟨Nat.find_spec (l.exists_free k), fun _ hi => Nat.find_min' (l.exists_free k) hi⟩

def alloc (l : Ledger) (k : Kind) : Ledger where
  count := l.count
  reserved := l.reserved
  held := Function.update l.held k (insert (l.least k) (l.held k))
  disjoint := by
    intro k'
    by_cases h : k' = k
    · subst h
      have hfree := (l.least_isLeast k').1
      simp only [used, Set.mem_ofPred_eq, Finset.mem_union, not_or] at hfree
      simpa using ⟨hfree.1, l.disjoint k'⟩
    · simpa [h] using l.disjoint k'

def free (l : Ledger) (k : Kind) (i : Nat) : Ledger where
  count := l.count
  reserved := l.reserved
  held := Function.update l.held k ((l.held k).erase i)
  disjoint := by
    intro k'
    by_cases h : k' = k
    · subst h
      simpa using (l.disjoint k').mono_right (Finset.erase_subset i _)
    · simpa [h] using l.disjoint k'

theorem used_alloc (l : Ledger) (k : Kind) :
    (l.alloc k).used = Function.update l.used k (insert (l.least k) (l.used k)) := by
  funext k'
  by_cases h : k' = k
  · subst h
    simp [used, alloc]
  · simp [used, alloc, h]

/-- A held page is not a reserved one, so freeing it takes it out of use. -/
theorem used_free (l : Ledger) {k : Kind} {i : Nat} (hi : i ∈ l.held k) :
    (l.free k i).used = Function.update l.used k ((l.used k).erase i) := by
  funext k'
  by_cases h : k' = k
  · subst h
    have hres : i ∉ l.reserved k' := fun hr => Finset.disjoint_left.mp (l.disjoint k') hr hi
    simp [used, free, Finset.erase_union_distrib, Finset.erase_eq_of_notMem hres]
  · simp [used, free, h]

end Ledger

def bitmapOf (s : State) : Kind → U32int
  | .code => s.memoryBitmap.codeBitmap
  | .data => s.memoryBitmap.dataBitmap

/-- Page count of the segment itself. -/
def pageCount (s : State) : Kind → Nat
  | .code => s.segmentsInfo.codeSegment.len.toNat / 4096
  | .data => s.segmentsInfo.dataSegment.len.toNat / 4096

inductive Call where
  | alloc (k : Kind)
  | free (k : Kind) (relAddress : U32int)

inductive Answer where
  | page (relAddress : U32int)
  | freed (success : Bool)
deriving DecidableEq

def allocOf (s : State) : Kind → Except Trap (U32int × State)
  | .code => s.allocCodePage
  | .data => s.allocDataPage

def freeOf (s : State) (relAddress : U32int) : Kind → Except Trap (Bool × State)
  | .code => s.freeCodePage relAddress
  | .data => s.freeDataPage relAddress

def call : Call → State → Except Trap (Answer × State)
  | .alloc k, s => do
    let (p, s) ← allocOf s k
    return (.page p, s)
  | .free k relAddress, s => do
    let (b, s) ← freeOf s relAddress k
    return (.freed b, s)

def spec : Call → Ledger → Answer × Ledger
  | .alloc k, l => (.page (BitVec.ofNat 32 (l.least k * 4096)), l.alloc k)
  | .free k relAddress, l => (.freed true, l.free k (relAddress.toNat / 4096))

/-- An allocation needs a free page, a free needs a page that is held. -/
def Permitted : Call → State → Ledger → Prop
  | .alloc k, _, l => ∃ i < l.count k, i ∉ l.used k
  | .free k relAddress, _, l => ∃ i ∈ l.held k, relAddress = BitVec.ofNat 32 (i * 4096)

def pages : Interface State Ledger Call Answer Trap := ⟨call, spec, Permitted⟩

/-- Bytes that hold one bit for each page. -/
def bitmapBytes (s : State) (k : Kind) : Nat := (pageCount s k + 7) / 8

/-- Physical address of a bitmap, the code bitmap being at `a`. -/
def bitmapAddr (s : State) (a : U32int) : Kind → U32int
  | .code => a
  | .data => a + (s.memoryBitmap.dataBitmap - s.memoryBitmap.codeBitmap)

/-- The data bitmap follows the code bitmap in one plain stretch of kernel data,
and the recorded sizes are those of the segments. -/
structure Placed (s : State) (a : U32int) : Prop where
  initialized : s.memoryBitmapInitialized = true
  code_size : s.memoryBitmap.codeSize.toNat = pageCount s .code
  data_size : s.memoryBitmap.dataSize.toNat = pageCount s .data
  after : bitmapBytes s .code ≤ (s.memoryBitmap.dataBitmap - s.memoryBitmap.codeBitmap).toNat
  fits : (s.memoryBitmap.dataBitmap - s.memoryBitmap.codeBitmap).toNat + bitmapBytes s .data ≤ 2^32
  plain : s.PlainAt s.memoryBitmap.codeBitmap a
    ((s.memoryBitmap.dataBitmap - s.memoryBitmap.codeBitmap).toNat + bitmapBytes s .data)

structure Initialised (s : State) (a : U32int) : Prop extends Placed s a where
  count_pos : ∀ k, 0 < pageCount s k
  first_reserved : ∀ k, bit s.memory (bitmapAddr s a k) 0 = true

/-- The pages of a segment whose bits are set. -/
def usedPages (s : State) (a : U32int) (k : Kind) : Finset Nat :=
  (Finset.range (pageCount s k)).filter fun i => bit s.memory (bitmapAddr s a k) i

/-- Everything marked at the start is reserved, nothing is held yet. -/
def openingLedger (s : State) (a : U32int) : Ledger where
  count := pageCount s
  reserved := usedPages s a
  held := fun _ => ∅
  disjoint := fun _ => Finset.disjoint_empty_right _

theorem pageCount_le (s : State) (k : Kind) : pageCount s k < 2^20 := by
  cases k with
  | code => simp only [pageCount]; omega
  | data => simp only [pageCount]; omega

section

variable {s : State} {a : U32int}

theorem Placed.bitmap_ne (h : Placed s a) (hpos : 0 < pageCount s .code) :
    s.memoryBitmap.dataBitmap ≠ s.memoryBitmap.codeBitmap := by
  intro he
  have hd := h.after
  rw [he, BitVec.sub_self, bitmapBytes] at hd
  simp only [BitVec.toNat_ofNat, Nat.zero_mod] at hd
  omega

/-- Recognising a bitmap by its address finds its own size. -/
theorem Placed.bitmapSize (h : Placed s a) (hpos : 0 < pageCount s .code) (k : Kind) :
    (s.bitmapSize (bitmapOf s k)).toNat = pageCount s k := by
  cases k with
  | code => simpa [State.bitmapSize, bitmapOf] using h.code_size
  | data => simpa [State.bitmapSize, bitmapOf, h.bitmap_ne hpos] using h.data_size

theorem Placed.bitmap_plain (h : Placed s a) (k : Kind) :
    s.PlainAt (bitmapOf s k) (bitmapAddr s a k) (bitmapBytes s k) := by
  have hafter := h.after
  cases k with
  | code =>
    have hle : (0 : U32int).toNat + bitmapBytes s .code ≤
        (s.memoryBitmap.dataBitmap - s.memoryBitmap.codeBitmap).toNat + bitmapBytes s .data := by
      rw [show (0 : U32int).toNat = 0 from rfl]
      omega
    simpa [bitmapOf, bitmapAddr] using h.plain.sub hle
  | data =>
    have hsub := h.plain.sub (l := bitmapBytes s .data) le_rfl
    rwa [BitVec.add_comm s.memoryBitmap.codeBitmap, BitVec.sub_add_cancel] at hsub

/-- Writing a byte of either bitmap leaves both where they are. -/
theorem Placed.write (h : Placed s a) {k : Kind} {i : Nat} (hi : i < pageCount s k) (v : Byte) :
    Placed (s.withMemory (write8 s.memory (byteAt (bitmapAddr s a k) i) v)) a where
  initialized := h.initialized
  code_size := h.code_size
  data_size := h.data_size
  after := h.after
  fits := h.fits
  plain := by
    refine h.plain.withMemory fun x hx => write8_of_ne _ _ ?_
    have hafter := h.after
    have hfits := h.fits
    have hlt : i / 8 < bitmapBytes s k := by unfold bitmapBytes; omega
    intro he
    subst he
    cases k with
    | code =>
      simp only [bitmapAddr, byteAt] at hx
      bv_omega
    | data =>
      simp only [bitmapAddr, byteAt] at hx
      bv_omega

/-- A byte of one bitmap is no byte of the other. -/
theorem Placed.byteAt_ne (h : Placed s a) {k k' : Kind} (hk : k ≠ k') {i j : Nat}
    (hi : i < pageCount s k) (hj : j < pageCount s k') :
    byteAt (bitmapAddr s a k) i ≠ byteAt (bitmapAddr s a k') j := by
  have hafter := h.after
  have hfits := h.fits
  have hi' : i / 8 < bitmapBytes s k := by unfold bitmapBytes; omega
  have hj' : j / 8 < bitmapBytes s k' := by unfold bitmapBytes; omega
  cases k <;> cases k' <;> simp only [ne_eq, reduceCtorEq, not_true_eq_false, not_false_eq_true,
    bitmapAddr, byteAt] at hk ⊢ <;> bv_omega

/-- The bits below the page counts are these sets. -/
def Marks (s : State) (a : U32int) (u : Kind → Finset Nat) : Prop :=
  ∀ k, ∀ i < pageCount s k, bit s.memory (bitmapAddr s a k) i = true ↔ i ∈ u k

theorem Placed.marks_set (h : Placed s a) {u : Kind → Finset Nat} (hm : Marks s a u) {k : Kind}
    {i : Nat} (hi : i < pageCount s k) :
    Marks (s.withMemory (State.markUsed s.memory (bitmapAddr s a k) i)) a
      (Function.update u k (insert i (u k))) := by
  have hle := pageCount_le s k
  intro k' j hj
  change j < pageCount s k' at hj
  have hle' := pageCount_le s k'
  by_cases hk : k' = k
  · subst hk
    rw [Function.update_self, Finset.mem_insert, ← hm k' j hj]
    change bit (State.markUsed s.memory (bitmapAddr s a k') i) (bitmapAddr s a k') j = true ↔ _
    rw [State.markUsed, bit_set s.memory _ (by omega) (by omega)]
    simp
  · rw [Function.update_of_ne hk, ← hm k' j hj]
    change bit (State.markUsed s.memory (bitmapAddr s a k) i) (bitmapAddr s a k') j = true ↔ _
    rw [State.markUsed, PackedBits.bit_write8_other _ _ (h.byteAt_ne hk hj hi)]

theorem Placed.marks_clear (h : Placed s a) {u : Kind → Finset Nat} (hm : Marks s a u) {k : Kind}
    {i : Nat} (hi : i < pageCount s k) :
    Marks (s.withMemory (State.markFree s.memory (bitmapAddr s a k) i)) a
      (Function.update u k ((u k).erase i)) := by
  have hle := pageCount_le s k
  intro k' j hj
  change j < pageCount s k' at hj
  have hle' := pageCount_le s k'
  by_cases hk : k' = k
  · subst hk
    rw [Function.update_self, Finset.mem_erase, ← hm k' j hj]
    change bit (State.markFree s.memory (bitmapAddr s a k') i) (bitmapAddr s a k') j = true ↔ _
    rw [State.markFree, bit_clear s.memory _ (by omega) (by omega)]
    simp
  · rw [Function.update_of_ne hk, ← hm k' j hj]
    change bit (State.markFree s.memory (bitmapAddr s a k) i) (bitmapAddr s a k') j = true ↔ _
    rw [State.markFree, PackedBits.bit_write8_other _ _ (h.byteAt_ne hk hj hi)]

/-- The scan reaches the least page that is not in use. -/
theorem Marks.scan {u : Kind → Finset Nat} (hm : Marks s a u) {k : Kind} {i : Nat}
    (hi : i < pageCount s k) (hleast : IsLeast {i | i ∉ u k} i) :
    PackedBits.clearFrom s.memory (bitmapAddr s a k) 0 (bitmapBytes s k) = some i := by
  apply PackedBits.clearFrom_isLeast
  · constructor
    · have hni : i ∉ u k := hleast.1
      rw [← hm k i hi] at hni
      simpa using hni
    · intro j hj
      by_contra hlt
      have hju : j ∉ u k := by
        rw [← hm k j (by omega)]
        simpa using hj
      exact hlt (hleast.2 hju)
  · unfold bitmapBytes
    omega

theorem allocOf_eq (s : State) (k : Kind) : allocOf s k = s.allocPage (bitmapOf s k) := by
  cases k <;> rfl

theorem freeOf_eq (s : State) (p : U32int) (k : Kind) :
    freeOf s p k = s.freePage p (bitmapOf s k) := by
  cases k <;> rfl

theorem Placed.alloc (h : Placed s a) (hpos : 0 < pageCount s .code) {u : Kind → Finset Nat}
    (hm : Marks s a u) {k : Kind} {i : Nat} (hi : i < pageCount s k)
    (hleast : IsLeast {i | i ∉ u k} i) :
    allocOf s k = .ok (BitVec.ofNat 32 (i * 4096),
      s.withMemory (State.markUsed s.memory (bitmapAddr s a k) i)) := by
  have hsize := h.bitmapSize hpos k
  have hle := pageCount_le s k
  have hplain := h.bitmap_plain k
  have hscan := hm.scan hi hleast
  unfold bitmapBytes at hplain hscan
  rw [allocOf_eq, State.allocPage_of_scan h.initialized rfl (by omega) (by rwa [hsize])
    (by rwa [hsize]), if_pos (by omega)]

theorem Placed.free (h : Placed s a) (hpos : 0 < pageCount s .code) {k : Kind} {i : Nat}
    (hi : i < pageCount s k) :
    freeOf s (BitVec.ofNat 32 (i * 4096)) k = .ok (true,
      s.withMemory (State.markFree s.memory (bitmapAddr s a k) i)) := by
  have hsize := h.bitmapSize hpos k
  have hle := pageCount_le s k
  have hplain := h.bitmap_plain k
  unfold bitmapBytes at hplain
  rw [freeOf_eq, State.freePage_of_held h.initialized rfl (by omega) (by rwa [hsize]) (by omega)]

end

/-- A run from `s0` follows its ledger: only memory has changed, the bits are
the pages in use and what is held lies in the segment. -/
structure Tracks (s0 : State) (a : U32int) (s : State) (l : Ledger) : Prop where
  only_memory : s = s0.withMemory s.memory
  placed : Placed s a
  marks : Marks s a l.used
  count : l.count = pageCount s0
  reserved : l.reserved = usedPages s0 a
  held_lt : ∀ k, ∀ i ∈ l.held k, i < pageCount s0 k

/-- The run starts in `s0` with its opening ledger. -/
def Opens (s0 : State) (a : U32int) (s : State) (l : Ledger) : Prop :=
  s = s0 ∧ l = openingLedger s0 a

section

variable {s0 s : State} {a : U32int} {l : Ledger}

theorem tracks_start (h : Initialised s0 a) (hs : Opens s0 a s l) : Tracks s0 a s l := by
  obtain ⟨rfl, rfl⟩ := hs
  refine ⟨rfl, h.toPlaced, fun k i hi => ?_, rfl, rfl, fun k i hi => ?_⟩
  · simp [Ledger.used, openingLedger, usedPages, hi]
  · simp [openingLedger] at hi

theorem Tracks.pageCount_eq (h : Tracks s0 a s l) : pageCount s = pageCount s0 := by
  rw [h.only_memory]
  rfl

theorem Tracks.alloc_step (h : Tracks s0 a s l) (hpos : ∀ k, 0 < pageCount s0 k) {k : Kind}
    (hfree : ∃ i < pageCount s0 k, i ∉ l.used k) :
    l.least k < pageCount s0 k ∧
    ∃ s', allocOf s k = .ok (BitVec.ofNat 32 (l.least k * 4096), s') ∧
      Tracks s0 a s' (l.alloc k) := by
  have hc := h.pageCount_eq
  obtain ⟨i, hi, hiu⟩ := hfree
  have hleast := l.least_isLeast k
  have hlt : l.least k < pageCount s0 k := lt_of_le_of_lt (hleast.2 hiu) hi
  have hlt' : l.least k < pageCount s k := by rwa [hc]
  refine ⟨hlt, _, h.placed.alloc (by rw [hc]; exact hpos .code) h.marks hlt' hleast, ?_⟩
  refine ⟨?_, h.placed.write hlt' _, ?_, h.count, h.reserved, fun k' j hj => ?_⟩
  · rw [h.only_memory]
    rfl
  · rw [l.used_alloc k]
    exact h.placed.marks_set h.marks hlt'
  · by_cases hk : k' = k
    · subst hk
      simp only [Ledger.alloc, Function.update_self, Finset.mem_insert] at hj
      rcases hj with rfl | hj
      · exact hlt
      · exact h.held_lt k' j hj
    · simp only [Ledger.alloc, Function.update_of_ne hk] at hj
      exact h.held_lt k' j hj

theorem Tracks.free_step (h : Tracks s0 a s l) (hpos : ∀ k, 0 < pageCount s0 k) {k : Kind}
    {i : Nat} (hi : i ∈ l.held k) :
    ∃ s', freeOf s (BitVec.ofNat 32 (i * 4096)) k = .ok (true, s') ∧
      Tracks s0 a s' (l.free k i) := by
  have hc := h.pageCount_eq
  have hlt' : i < pageCount s k := by rw [hc]; exact h.held_lt k i hi
  refine ⟨_, h.placed.free (by rw [hc]; exact hpos .code) hlt', ?_⟩
  refine ⟨?_, h.placed.write hlt' _, ?_, h.count, h.reserved, fun k' j hj => ?_⟩
  · rw [h.only_memory]
    rfl
  · rw [l.used_free hi]
    exact h.placed.marks_clear h.marks hlt'
  · by_cases hk : k' = k
    · subst hk
      simp only [Ledger.free, Function.update_self] at hj
      exact h.held_lt k' j (Finset.mem_of_mem_erase hj)
    · simp only [Ledger.free, Function.update_of_ne hk] at hj
      exact h.held_lt k' j hj

theorem page_toNat {i : Nat} (hi : i < 2^20) : (BitVec.ofNat 32 (i * 4096)).toNat = i * 4096 := by
  rw [BitVec.toNat_ofNat, Nat.mod_eq_of_lt (by omega)]

/-- The bitmaps simulate the ledger. -/
theorem pages_simulate (h : Initialised s0 a) :
    Simulation pages (Opens s0 a) (Tracks s0 a) where
  start := fun _ _ hs => tracks_start h hs
  step := by
    intro i s l ht hp
    cases i with
    | alloc k =>
      have hfree : ∃ i < pageCount s0 k, i ∉ l.used k := by
        have hp' : ∃ i < l.count k, i ∉ l.used k := hp
        rwa [ht.count] at hp'
      obtain ⟨-, s', hs', ht'⟩ := ht.alloc_step h.count_pos hfree
      refine ⟨s', ?_, ht'⟩
      simp only [pages, call, hs', ok_bind, pure_ok, spec]
    | free k p =>
      obtain ⟨i, hi, rfl⟩ := hp
      obtain ⟨s', hs', ht'⟩ := ht.free_step h.count_pos hi
      have hlt := ht.held_lt k i hi
      have hle := pageCount_le s0 k
      have hpage : (BitVec.ofNat 32 (i * 4096)).toNat / 4096 = i := by
        rw [page_toNat (by omega)]
        omega
      refine ⟨s', ?_, ?_⟩
      · simp only [pages, call, hs', ok_bind, pure_ok, spec]
      · simp only [pages, spec, hpage]
        exact ht'

end

/-- From an initialised bitmap, after any permitted history: the bits are the two
sets of the ledger; an allocation returns the least page of its segment that is
in neither the reserved nor the held pages, which is not NULL, and adds it; a free
of a held page succeeds and removes that page. Neither touches the other set. -/
theorem bitmaps_follow_sets {s0 s : State} {a : U32int} {l : Ledger} (h : Initialised s0 a)
    (hr : Run pages (Opens s0 a) s l) :
    Marks s a l.used ∧ (∀ k, l.used k = usedPages s0 a k ∪ l.held k) ∧
    (∀ k, (∃ i < pageCount s0 k, i ∉ l.used k) →
      ∃ i s', IsLeast {i | i < pageCount s0 k ∧ i ∉ l.used k} i ∧
        i ∉ usedPages s0 a k ∧ i ∉ l.held k ∧
        allocOf s k = .ok (BitVec.ofNat 32 (i * 4096), s') ∧
        (BitVec.ofNat 32 (i * 4096)).toNat = i * 4096 ∧ BitVec.ofNat 32 (i * 4096) ≠ null ∧
        Marks s' a (Function.update l.used k (insert i (l.used k))) ∧
        ∃ l', l'.held = Function.update l.held k (insert i (l.held k)) ∧
          Run pages (Opens s0 a) s' l') ∧
    (∀ k, ∀ i ∈ l.held k,
      ∃ s', freeOf s (BitVec.ofNat 32 (i * 4096)) k = .ok (true, s') ∧
        Marks s' a (Function.update l.used k ((l.used k).erase i)) ∧
        ∃ l', l'.held = Function.update l.held k ((l.held k).erase i) ∧
          Run pages (Opens s0 a) s' l') := by
  have hsim := pages_simulate h
  have ht := hsim.run hr
  have hused : ∀ k, l.used k = usedPages s0 a k ∪ l.held k := fun k => by
    rw [Ledger.used, ht.reserved]
  refine ⟨ht.marks, hused, fun k hfree => ?_, fun k i hi => ?_⟩
  · obtain ⟨hlt, s', hs', ht'⟩ := ht.alloc_step h.count_pos hfree
    have hleast := l.least_isLeast k
    have hni : l.least k ∉ l.used k := hleast.1
    have hnat := page_toNat (lt_trans hlt (pageCount_le s0 k))
    -- page 0 is reserved, so the page handed out has a positive number
    have hzero : 0 ∈ l.used k := by
      rw [hused k]
      refine Finset.mem_union_left _ (Finset.mem_filter.mpr ⟨?_, h.first_reserved k⟩)
      exact Finset.mem_range.mpr (h.count_pos k)
    have hpos : l.least k ≠ 0 := fun he => hni (he ▸ hzero)
    rw [hused k, Finset.mem_union, not_or] at hni
    refine ⟨l.least k, s', ⟨⟨hlt, hleast.1⟩, fun j hj => hleast.2 hj.2⟩, hni.1, hni.2, hs', hnat,
      ?_, ?_, ?_⟩
    · intro he
      rw [he] at hnat
      exact hpos (by simpa using hnat.symm)
    · rw [← l.used_alloc k]
      exact ht'.marks
    · have hp : pages.permitted (.alloc k) s l := by
        change ∃ i < l.count k, i ∉ l.used k
        rwa [ht.count]
      have hc : pages.call (.alloc k) s = .ok (.page (BitVec.ofNat 32 (l.least k * 4096)), s') := by
        simp only [pages, call, hs', ok_bind, pure_ok]
      exact ⟨l.alloc k, rfl, hr.call hp hc⟩
  · obtain ⟨s', hs', ht'⟩ := ht.free_step h.count_pos hi
    refine ⟨s', hs', ?_, ?_⟩
    · rw [← l.used_free hi]
      exact ht'.marks
    · have hp : pages.permitted (.free k (BitVec.ofNat 32 (i * 4096))) s l := ⟨i, hi, rfl⟩
      have hc : pages.call (.free k (BitVec.ofNat 32 (i * 4096))) s = .ok (.freed true, s') := by
        simp only [pages, call, hs', ok_bind, pure_ok]
      have hlt := ht.held_lt k i hi
      have hle := pageCount_le s0 k
      have hpage : (BitVec.ofNat 32 (i * 4096)).toNat / 4096 = i := by
        rw [page_toNat (by omega)]
        omega
      have hrun := hr.call hp hc
      refine ⟨l.free k i, rfl, ?_⟩
      simpa only [pages, spec, hpage] using hrun

/-- Sixteen pages a segment, five reserved in the code segment and four in the
data segment, whose bitmaps are at 0x2000 and 0x3000. -/
def smallMachine : State where
  memory := fun x => if x = 0x102000 then 0x1F else if x = 0x103000 then 0x0F else 0
  pagingEnabled := false
  cr3 := 0
  segmentsInfo := ⟨⟨0x110000, 0x10000⟩, ⟨0x100000, 0x10000⟩, ⟨videoBaseAddr, 0xFA0⟩, ⟨0, 0⟩⟩
  memoryBitmap := ⟨0x2000, 0x3000, 16, 16⟩
  memoryBitmapInitialized := true
  dataTopAddress := 0x4000
  kernelPageDirectory := 0
  pageTablesRelVirtAddr := 0
  heapStartRelVirtAddr := 0
  heapBrk := 0
  heapSize := 0
  moduleInfo := ⟨false, false, false, 0, 0, 0, 0, 0⟩

theorem smallMachine_initialised : Initialised smallMachine 0x102000 where
  initialized := rfl
  code_size := rfl
  data_size := rfl
  after := by decide
  fits := by decide
  plain := (State.plainAt_of_disabled rfl (by decide) : State.PlainAt _ 0x2000 _ _)
  count_pos := fun k => by cases k <;> decide
  first_reserved := fun k => by cases k <;> decide

theorem bitmaps_follow_sets_smallMachine : ∃ i s1 s2, i ∉ usedPages smallMachine 0x102000 .data ∧
    allocOf smallMachine .data = .ok (BitVec.ofNat 32 (i * 4096), s1) ∧
    freeOf s1 (BitVec.ofNat 32 (i * 4096)) .data = .ok (true, s2) := by
  obtain ⟨-, -, halloc, -⟩ := bitmaps_follow_sets smallMachine_initialised
    (Run.start (I := pages) ⟨rfl, rfl⟩)
  obtain ⟨i, s1, -, hres, -, hs1, -, -, -, l1, hheld, hr⟩ := halloc .data ⟨4, by decide, by decide⟩
  obtain ⟨-, -, -, hfree⟩ := bitmaps_follow_sets smallMachine_initialised hr
  obtain ⟨s2, hs2, -⟩ := hfree .data i (by simp [hheld])
  exact ⟨i, s1, s2, hres, hs1, hs2⟩

end SimpleOs.Audit.PageBitmap
