import SimpleOs.Kernel.MemoryMap
import SimpleOs.Lib.RunningMax

/-!
# The chunk the loader chooses

The search is a running maximum over the available entries that are not vetoed by
the comparison of the running total with `mem_upper`. It remembers 32 bits of a
64-bit length.
-/

namespace SimpleOs.Audit.BiggestChunk

open SimpleOs.Lib.ByteMemory SimpleOs.Lib.RunningMax
open SimpleOs.Kernel

def lenOf (e : MemoryMapEntry) : Nat := e.len.toNat

/-- What `max_len` keeps of a length. -/
def low32 (n : Nat) : Nat := n % 2^32

theorem low32_le (n : Nat) : low32 n ≤ n := Nat.mod_le _ _

/-- The available entries, except where the running total equals `mem_upper * 1000`. -/
def candidates (memUpper : U32int) : U32int → List MemoryMapEntry → List MemoryMapEntry
  | _, [] => []
  | total, e :: es =>
    if e.available then
      let total := (total.setWidth 64 + e.len).setWidth 32
      if total ≠ memUpper * 1000 then e :: candidates memUpper total es
      else candidates memUpper total es
    else candidates memUpper total es

section

variable {memUpper : U32int}

theorem mem_candidates {e : MemoryMapEntry} {es : List MemoryMapEntry} {total : U32int}
    (h : e ∈ candidates memUpper total es) : e ∈ es ∧ e.available = true := by
  induction es generalizing total with
  | nil => exact absurd h List.not_mem_nil
  | cons e' es ih =>
    have htail : ∀ {total'}, e ∈ candidates memUpper total' es →
        e ∈ e' :: es ∧ e.available = true :=
      fun h' => ⟨List.mem_cons_of_mem _ (ih h').1, (ih h').2⟩
    simp only [candidates] at h
    split_ifs at h with ha hv
    · rcases List.mem_cons.mp h with rfl | h
      · exact ⟨List.mem_cons_self, ha⟩
      · exact htail h
    · exact htail h
    · exact htail h

theorem visit_candidate {c : ChunkSearch} {e : MemoryMapEntry}
    (hlen : c.maxLen.toNat = remembered lenOf low32 c.maxMmap) (ha : e.available = true)
    (hv : (c.upperMemSize.setWidth 64 + e.len).setWidth 32 ≠ memUpper * 1000) :
    (c.visit memUpper e).maxMmap = keep lenOf low32 c.maxMmap e ∧
    (c.visit memUpper e).maxLen.toNat = remembered lenOf low32 (c.visit memUpper e).maxMmap := by
  have hcmp : c.maxLen.setWidth 64 < e.len ↔ remembered lenOf low32 c.maxMmap < lenOf e := by
    rw [← hlen, BitVec.lt_def, BitVec.toNat_setWidth_of_le (by decide)]
    rfl
  simp only [ChunkSearch.visit, if_pos ha, keep]
  by_cases hpass : remembered lenOf low32 c.maxMmap < lenOf e
  · rw [if_pos ⟨hcmp.mpr hpass, hv⟩, if_pos hpass]
    exact ⟨rfl, BitVec.toNat_setWidth ..⟩
  · rw [if_neg fun h => hpass (hcmp.mp h.1), if_neg hpass]
    exact ⟨rfl, hlen⟩

/-- The search keeps its maximum over the candidates. -/
theorem foldl_visit_eq (es : List MemoryMapEntry) (c : ChunkSearch)
    (hlen : c.maxLen.toNat = remembered lenOf low32 c.maxMmap) :
    (es.foldl (ChunkSearch.visit memUpper) c).maxMmap =
      lastKept lenOf low32 (candidates memUpper c.upperMemSize es) c.maxMmap := by
  induction es generalizing c with
  | nil => rfl
  | cons e es ih =>
    rw [List.foldl_cons]
    by_cases ha : e.available
    · have htotal : (c.visit memUpper e).upperMemSize =
          (c.upperMemSize.setWidth 64 + e.len).setWidth 32 := by
        simp only [ChunkSearch.visit, if_pos ha]
        split_ifs <;> rfl
      by_cases hv : (c.upperMemSize.setWidth 64 + e.len).setWidth 32 = memUpper * 1000
      · have hstay : c.visit memUpper e =
            { c with upperMemSize := (c.upperMemSize.setWidth 64 + e.len).setWidth 32 } := by
          simp only [ChunkSearch.visit, if_pos ha]
          exact if_neg fun h => h.2 hv
        rw [candidates, if_pos ha, if_neg (not_not.mpr hv), hstay]
        exact ih _ hlen
      · obtain ⟨hkeep, hlen'⟩ := visit_candidate hlen ha hv
        rw [candidates, if_pos ha, if_pos hv, lastKept_cons, ← hkeep, ← htotal]
        exact ih _ hlen'
    · have hskip : c.visit memUpper e = c := if_neg ha
      rw [candidates, if_neg ha, hskip]
      exact ih c hlen

theorem getBiggestMemoryChunk_eq (memUpper : U32int) (es : List MemoryMapEntry) :
    getBiggestMemoryChunk memUpper es = lastKept lenOf low32 (candidates memUpper 0 es) none :=
  foldl_visit_eq es ⟨0, 0, none⟩ rfl

end

/-- The pointer is that of a longest available entry, and NULL only if no available
entry has a length. -/
structure ChunkFound (m : Memory) (l : List U32int) (p : U32int) : Prop where
  null_only : p = null → ∀ q ∈ l, (memoryMapEntryAt m q).available = true →
    (memoryMapEntryAt m q).len = 0
  biggest : p ≠ null → p ∈ l ∧ (memoryMapEntryAt m p).available = true ∧
    ∀ q ∈ l, (memoryMapEntryAt m q).available = true →
      (memoryMapEntryAt m q).len ≤ (memoryMapEntryAt m p).len

/-- No available entry has a length, or a longest one is a candidate and no candidate
behind it is longer than the low half of its length. -/
def Unhindered (memUpper : U32int) (es : List MemoryMapEntry) : Prop :=
  (∀ e ∈ es, e.available = true → e.len = 0) ∨
  ∃ before f behind, candidates memUpper 0 es = before ++ f :: behind ∧
    (∀ e ∈ es, e.available = true → e.len ≤ f.len) ∧ ∀ e ∈ behind, e.len.toNat ≤ f.len.toNat % 2^32

/-- The choice over a list of entries. -/
theorem biggest_chosen_iff (memUpper : U32int) (es : List MemoryMapEntry) :
    Biggest lenOf (es.filter (·.available)) (getBiggestMemoryChunk memUpper es) ↔
      Unhindered memUpper es := by
  have hmem : ∀ {P : MemoryMapEntry → Prop}, (∀ e ∈ es.filter (·.available), P e) ↔
      ∀ e ∈ es, e.available = true → P e := fun {P} =>
    ⟨fun h e he ha => h e (List.mem_filter.mpr ⟨he, ha⟩),
      fun h e he => h e (List.mem_filter.mp he).1 (List.mem_filter.mp he).2⟩
  rw [getBiggestMemoryChunk_eq, biggest_lastKept_iff low32_le fun e he =>
    List.mem_filter.mpr ⟨(mem_candidates he).1, (mem_candidates he).2⟩]
  rw [Unhindered, hmem]
  have hzero : ∀ e : MemoryMapEntry, lenOf e = 0 ↔ e.len = 0 := fun e =>
    ⟨fun h => BitVec.eq_of_toNat_eq h, fun h => congrArg BitVec.toNat h⟩
  simp only [hmem, hzero]
  rfl

theorem Biggest.chunkFound {m : Memory} {l : List U32int} {p : U32int} {e : Option MemoryMapEntry}
    (hp : Names m l p e) :
    Biggest lenOf ((l.map (memoryMapEntryAt m)).filter (·.available)) e ↔ ChunkFound m l p := by
  have hmem : ∀ {P : MemoryMapEntry → Prop},
      (∀ e ∈ (l.map (memoryMapEntryAt m)).filter (·.available), P e) ↔
      ∀ q ∈ l, (memoryMapEntryAt m q).available = true → P (memoryMapEntryAt m q) := by
    intro P
    constructor
    · exact fun h q hq ha => h _ (List.mem_filter.mpr ⟨List.mem_map_of_mem hq, ha⟩)
    · intro h e he
      obtain ⟨hin, ha⟩ := List.mem_filter.mp he
      obtain ⟨q, hq, rfl⟩ := List.mem_map.mp hin
      exact h q hq ha
  have hzero : ∀ e : MemoryMapEntry, lenOf e = 0 ↔ e.len = 0 := fun e =>
    ⟨fun h => BitVec.eq_of_toNat_eq h, fun h => congrArg BitVec.toNat h⟩
  rcases hp with ⟨rfl, rfl⟩ | ⟨hnull, hin, rfl⟩
  · constructor
    · intro h
      obtain ⟨hnone, -⟩ := h
      exact ⟨fun _ q hq ha => (hzero _).mp (hmem.mp (hnone rfl) q hq ha), fun h => absurd rfl h⟩
    · intro h
      obtain ⟨hnull, -⟩ := h
      exact ⟨fun _ => hmem.mpr fun q hq ha => (hzero _).mpr (hnull rfl q hq ha),
        fun r hr => absurd hr.symm (Option.some_ne_none r)⟩
  · constructor
    · intro h
      obtain ⟨-, hsome⟩ := h
      obtain ⟨hr, hle⟩ := hsome _ rfl
      exact ⟨fun h => absurd h hnull, fun _ => ⟨hin, (List.mem_filter.mp hr).2, hmem.mp hle⟩⟩
    · intro h
      obtain ⟨-, hbig⟩ := h
      obtain ⟨-, ha, hle⟩ := hbig hnull
      refine ⟨fun h => absurd h (Option.some_ne_none _), ?_⟩
      rintro r ⟨⟩
      exact ⟨List.mem_filter.mpr ⟨List.mem_map_of_mem hin, ha⟩, hmem.mpr hle⟩

/-- The loader walks every well-formed map to its end, and its choice is right exactly
on the maps that do not hinder it. -/
theorem chunkFound_iff {m : Memory} {mmapAddr mmapLength : U32int} {l : List U32int}
    (h : WellFormedMap m mmapAddr mmapLength l) (memUpper : U32int) :
    ∃ p, biggestMemoryChunkAt m memUpper mmapAddr mmapLength = .ok p ∧
      (ChunkFound m l p ↔ Unhindered memUpper (l.map (memoryMapEntryAt m))) := by
  obtain ⟨p, hrun, hp⟩ := biggestMemoryChunkAt_eq h memUpper
  exact ⟨p, hrun, (Biggest.chunkFound hp).symm.trans (biggest_chosen_iff memUpper _)⟩

/-- The map of a machine with 512 MiB at 0x2000: low memory, a reserved KiB, the memory from
1 MiB on, reserved pages behind it, and one more available MiB. -/
def machineMap : Memory := fun x =>
  [20, 0, 0, 0,  0, 0, 0, 0, 0, 0, 0, 0,  0, 0xFC, 9, 0, 0, 0, 0, 0,  1, 0, 0, 0,
   20, 0, 0, 0,  0, 0xFC, 9, 0, 0, 0, 0, 0,  0, 4, 0, 0, 0, 0, 0, 0,  2, 0, 0, 0,
   20, 0, 0, 0,  0, 0, 0x10, 0, 0, 0, 0, 0,  0, 0, 0xEE, 0x1F, 0, 0, 0, 0,  1, 0, 0, 0,
   20, 0, 0, 0,  0, 0, 0xFE, 0x1F, 0, 0, 0, 0,  0, 0, 2, 0, 0, 0, 0, 0,  2, 0, 0, 0,
   20, 0, 0, 0,  0, 0, 0, 0, 1, 0, 0, 0,  0, 0, 0x10, 0, 0, 0, 0, 0,  1, 0, 0, 0].getD
    (x.toNat - 0x2000) 0

theorem machineMap_wellFormed :
    WellFormedMap machineMap 0x2000 120 [0x2000, 0x2018, 0x2030, 0x2048, 0x2060] where
  nonnull := by decide
  stop_lt := by decide
  chained := @Chained.entry _ _ 0x2000 _ (by decide) (@Chained.entry _ _ 0x2018 _ (by decide)
    (@Chained.entry _ _ 0x2030 _ (by decide) (@Chained.entry _ _ 0x2048 _ (by decide)
      (@Chained.entry _ _ 0x2060 _ (by decide) .done))))

/-- Of three available entries the one in the middle is taken. -/
theorem chunkFound_machineMap :
    biggestMemoryChunkAt machineMap 0x7FB80 0x2000 120 = .ok 0x2030 ∧
    ChunkFound machineMap [0x2000, 0x2018, 0x2030, 0x2048, 0x2060] 0x2030 := by
  have hwalk : biggestMemoryChunkAt machineMap 0x7FB80 0x2000 120 = .ok 0x2030 := rfl
  obtain ⟨p, hrun, hiff⟩ := chunkFound_iff machineMap_wellFormed 0x7FB80
  obtain rfl : 0x2030 = p := Except.ok.inj (hwalk.symm.trans hrun)
  refine ⟨hwalk, hiff.mpr (.inr ⟨[memoryMapEntryAt machineMap 0x2000],
    memoryMapEntryAt machineMap 0x2030, [memoryMapEntryAt machineMap 0x2060], rfl, ?_, ?_⟩)⟩
  · simp only [List.map_cons, List.map_nil, List.forall_mem_cons, List.not_mem_nil,
      false_implies, implies_true, and_true]
    decide
  · simp only [List.forall_mem_cons, List.not_mem_nil, false_implies, implies_true, and_true]
    decide

/-- A map of two available entries at 0x1000: 4 GiB from 1 MiB on, then a page. -/
def twoChunks : Memory := fun x =>
  [20, 0, 0, 0,  0, 0, 0x10, 0, 0, 0, 0, 0,  0, 0, 0, 0, 1, 0, 0, 0,  1, 0, 0, 0,
   20, 0, 0, 0,  0, 0, 0, 0, 2, 0, 0, 0,  0, 0x10, 0, 0, 0, 0, 0, 0,  1, 0, 0, 0].getD
    (x.toNat - 0x1000) 0

theorem twoChunks_wellFormed : WellFormedMap twoChunks 0x1000 48 [0x1000, 0x1018] where
  nonnull := by decide
  stop_lt := by decide
  chained := @Chained.entry _ _ 0x1000 _ (by decide) (@Chained.entry _ _ 0x1018 _ (by decide) .done)

/-- The page takes the place of the 4 GiB, of which `max_len` holds 0. -/
theorem smallerChunk_chosen : WellFormedMap twoChunks 0x1000 48 [0x1000, 0x1018] ∧
    ∃ p, biggestMemoryChunkAt twoChunks 0x3FFC00 0x1000 48 = .ok p ∧
      ¬ ChunkFound twoChunks [0x1000, 0x1018] p := by
  refine ⟨twoChunks_wellFormed, 0x1018, rfl, fun h => ?_⟩
  obtain ⟨-, -, hle⟩ := h.biggest (by decide)
  exact absurd (hle 0x1000 (by decide) (by decide)) (by decide)

end SimpleOs.Audit.BiggestChunk
