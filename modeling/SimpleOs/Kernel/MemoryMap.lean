import SimpleOs.Kernel.Loader

/-!
# The memory map in memory

`get_biggest_memory_chunk` as it walks the entries GRUB left behind, by their
addresses. The loader runs before paging with segments that cover everything, so
that a pointer is a physical address.
-/

namespace SimpleOs.Kernel

open SimpleOs.Lib.ByteMemory

def read64 (m : Memory) (a : U32int) : BitVec 64 := read32 m (a + 4) ++ read32 m a

/-- `multiboot_memory_map_t` is packed: `size`, `addr`, `len`, `type`. -/
def memoryMapEntryAt (m : Memory) (mmap : U32int) : MemoryMapEntry where
  addr := read64 m (mmap + 4)
  len := read64 m (mmap + 12)
  available := read32 m (mmap + 20) == 1

/-- `mmap->size` does not count itself. -/
def nextMemoryMap (m : Memory) (mmap : U32int) : U32int := mmap + read32 m mmap + 4

/-- The accumulators of `get_biggest_memory_chunk`, with `max_mmap` a pointer. -/
structure ChunkWalk where
  maxLen : U32int
  upperMemSize : U32int
  maxMmap : U32int

def ChunkWalk.visit (m : Memory) (memUpper : U32int) (c : ChunkWalk) (mmap : U32int) : ChunkWalk :=
  if read32 m (mmap + 20) = 1 then
    let len := read64 m (mmap + 12)
    let upper := (c.upperMemSize.setWidth 64 + len).setWidth 32
    if c.maxLen.setWidth 64 < len ∧ upper ≠ memUpper * 1000 then ⟨len.setWidth 32, upper, mmap⟩
    else { c with upperMemSize := upper }
  else c

/-- `while ((u32)mmap < end)`. A pointer that comes back makes the loop endless. -/
def walkMemoryMap (m : Memory) (memUpper stop : U32int) :
    Nat → U32int → ChunkWalk → Except Trap ChunkWalk
  | 0, _, _ => .error .diverged
  | fuel + 1, mmap, c =>
    if mmap < stop then
      walkMemoryMap m memUpper stop fuel (nextMemoryMap m mmap) (c.visit m memUpper mmap)
    else .ok c

/-- `get_biggest_memory_chunk` for the `mem_upper`, `mmap_addr` and `mmap_length` of `mbi`. -/
def biggestMemoryChunkAt (m : Memory) (memUpper mmapAddr mmapLength : U32int) :
    Except Trap U32int := do
  let c ← walkMemoryMap m memUpper (mmapAddr + mmapLength) loopFuel mmapAddr ⟨0, 0, null⟩
  return c.maxMmap

/-- Entries one behind the other from `start` to exactly `stop`, each with room for
its three fields. -/
inductive Chained (m : Memory) (stop : Nat) : Nat → List U32int → Prop
  | done : Chained m stop stop []
  | entry {mmap : U32int} {l : List U32int} (hsize : 20 ≤ (read32 m mmap).toNat)
      (rest : Chained m stop (mmap.toNat + (read32 m mmap).toNat + 4) l) :
      Chained m stop mmap.toNat (mmap :: l)

/-- The map at `mmap_addr` with `mmap_length` bytes has its entries at `l`. -/
structure WellFormedMap (m : Memory) (mmapAddr mmapLength : U32int) (l : List U32int) : Prop where
  nonnull : mmapAddr ≠ null
  stop_lt : mmapAddr.toNat + mmapLength.toNat < 2^32
  chained : Chained m (mmapAddr.toNat + mmapLength.toNat) mmapAddr.toNat l

section

variable {m : Memory} {memUpper : U32int} {stop : Nat}

theorem Chained.start_le {start : Nat} {l : List U32int} (h : Chained m stop start l) :
    start ≤ stop := by
  induction h with
  | done => exact le_rfl
  | entry _ _ ih => omega

theorem Chained.le_mem {start : Nat} {l : List U32int} (h : Chained m stop start l) :
    ∀ p ∈ l, start ≤ p.toNat := by
  induction h with
  | done => exact fun p hp => absurd hp List.not_mem_nil
  | entry _ _ ih =>
    intro p hp
    rcases List.mem_cons.mp hp with rfl | hp
    · exact le_rfl
    · have hle := ih p hp
      omega

theorem Chained.length_le {start : Nat} {l : List U32int} (h : Chained m stop start l) :
    start + 24 * l.length ≤ stop := by
  induction h with
  | done => simp
  | entry _ _ ih =>
    rw [List.length_cons]
    omega

/-- The walk over a chain visits its entries in order and ends. -/
theorem walkMemoryMap_of_chained (hstop : stop < 2^32) {l : List U32int} {start : Nat}
    (h : Chained m stop start l) (c : ChunkWalk) {fuel : Nat} (hfuel : l.length < fuel) :
    walkMemoryMap m memUpper (BitVec.ofNat 32 stop) fuel (BitVec.ofNat 32 start) c =
      .ok (l.foldl (ChunkWalk.visit m memUpper) c) := by
  induction h generalizing c fuel with
  | done =>
    obtain ⟨fuel, rfl⟩ := Nat.exists_eq_succ_of_ne_zero (by omega : fuel ≠ 0)
    rw [walkMemoryMap, if_neg (BitVec.lt_irrefl _)]
    rfl
  | @entry mmap l hsize rest ih =>
    obtain ⟨fuel, rfl⟩ := Nat.exists_eq_succ_of_ne_zero (by omega : fuel ≠ 0)
    have hself : BitVec.ofNat 32 mmap.toNat = mmap := by simp
    have hsize' : BitVec.ofNat 32 (read32 m mmap).toNat = read32 m mmap := by simp
    have hnext : BitVec.ofNat 32 (mmap.toNat + (read32 m mmap).toNat + 4) =
        nextMemoryMap m mmap := by
      rw [BitVec.ofNat_add, BitVec.ofNat_add, hself, hsize']
      rfl
    have hlt : mmap < BitVec.ofNat 32 stop := by
      have hle := rest.start_le
      rw [BitVec.lt_def, BitVec.toNat_ofNat, Nat.mod_eq_of_lt hstop]
      omega
    rw [hself, walkMemoryMap, if_pos hlt, ← hnext, List.foldl_cons]
    exact ih _ (by rw [List.length_cons] at hfuel; omega)

/-- The pointer names an entry of the list, NULL none. -/
def Names (m : Memory) (l : List U32int) (p : U32int) (e : Option MemoryMapEntry) : Prop :=
  (p = null ∧ e = none) ∨ (p ≠ null ∧ p ∈ l ∧ e = some (memoryMapEntryAt m p))

structure ChunkWalk.Follows (m : Memory) (l : List U32int) (c : ChunkWalk) (d : ChunkSearch) :
    Prop where
  maxLen : c.maxLen = d.maxLen
  upperMemSize : c.upperMemSize = d.upperMemSize
  maxMmap : Names m l c.maxMmap d.maxMmap

theorem ChunkWalk.Follows.visit {l : List U32int} {c : ChunkWalk} {d : ChunkSearch}
    (h : c.Follows m l d) {p : U32int} (hp : p ∈ l) (hnull : p ≠ null) :
    (c.visit m memUpper p).Follows m l (d.visit memUpper (memoryMapEntryAt m p)) := by
  obtain ⟨hlen, hupper, hmax⟩ := h
  have havail : (memoryMapEntryAt m p).available = decide (read32 m (p + 20) = 1) := rfl
  have hread : (memoryMapEntryAt m p).len = read64 m (p + 12) := rfl
  simp only [ChunkWalk.visit, ChunkSearch.visit, havail, hread, decide_eq_true_eq, hlen, hupper]
  split_ifs with ha hpass
  · exact ⟨rfl, rfl, .inr ⟨hnull, hp, rfl⟩⟩
  · exact ⟨rfl, rfl, hmax⟩
  · exact ⟨hlen, hupper, hmax⟩

theorem ChunkWalk.Follows.foldl {l : List U32int} {c : ChunkWalk} {d : ChunkSearch}
    (h : c.Follows m l d) (memUpper : U32int) (hnull : ∀ p ∈ l, p ≠ null) (l' : List U32int)
    (hsub : ∀ p ∈ l', p ∈ l) :
    (l'.foldl (ChunkWalk.visit m memUpper) c).Follows m l
      ((l'.map (memoryMapEntryAt m)).foldl (ChunkSearch.visit memUpper) d) := by
  induction l' generalizing c d with
  | nil => exact h
  | cons p l' ih =>
    have hp := hsub p List.mem_cons_self
    exact ih (h.visit hp (hnull p hp)) fun q hq => hsub q (List.mem_cons_of_mem p hq)

/-- On a well-formed map the walk ends with the entry the search over its entries finds. -/
theorem biggestMemoryChunkAt_eq {mmapAddr mmapLength : U32int} {l : List U32int}
    (h : WellFormedMap m mmapAddr mmapLength l) (memUpper : U32int) :
    ∃ p, biggestMemoryChunkAt m memUpper mmapAddr mmapLength = .ok p ∧
      Names m l p (getBiggestMemoryChunk memUpper (l.map (memoryMapEntryAt m))) := by
  have hfuel : l.length < loopFuel := by
    have hlen := h.chained.length_le
    have hlt := h.stop_lt
    rw [loopFuel]
    omega
  have hwalk : walkMemoryMap m memUpper _ _ _ _ = _ :=
    walkMemoryMap_of_chained h.stop_lt h.chained ⟨0, 0, null⟩ hfuel
  have hstop : BitVec.ofNat 32 (mmapAddr.toNat + mmapLength.toNat) = mmapAddr + mmapLength := by
    apply BitVec.eq_of_toNat_eq
    rw [BitVec.toNat_ofNat, BitVec.toNat_add]
  have hself : BitVec.ofNat 32 mmapAddr.toNat = mmapAddr := by simp
  rw [hstop, hself] at hwalk
  have hnull : ∀ p ∈ l, p ≠ null := by
    rintro p hp rfl
    have hle := h.chained.le_mem _ hp
    exact h.nonnull (BitVec.eq_of_toNat_eq (Nat.eq_zero_of_le_zero hle))
  have hstart : ChunkWalk.Follows m l ⟨0, 0, null⟩ ⟨0, 0, none⟩ := ⟨rfl, rfl, .inl ⟨rfl, rfl⟩⟩
  have hfollow := hstart.foldl memUpper hnull l fun _ hp => hp
  refine ⟨_, ?_, hfollow.maxMmap⟩
  rw [biggestMemoryChunkAt, hwalk]
  rfl

end

end SimpleOs.Kernel
