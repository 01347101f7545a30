import SimpleOs.Kernel.Paging
import SimpleOs.Kernel.Access

/-!
# What the memory calls leave alone

Allocation, mapping and clearing write memory and no global, whatever they find
and wherever they write.
-/

namespace SimpleOs.Audit.CallFrame

open SimpleOs.Lib SimpleOs.Lib.ByteMemory
open SimpleOs.Kernel

def MemoryOnly (s s' : State) : Prop := s' = s.withMemory s'.memory

section

variable {s s' s'' : State}

theorem MemoryOnly.refl (s : State) : MemoryOnly s s := rfl

theorem MemoryOnly.trans (h : MemoryOnly s s') (h' : MemoryOnly s' s'') : MemoryOnly s s'' := by
  rw [MemoryOnly, h', h]
  rfl

theorem store8_memoryOnly {rel : U32int} {v : U8int} (h : s.store8 rel v = .ok s') :
    MemoryOnly s s' := by
  obtain ⟨a, -, hrest⟩ := bind_ok h
  cases hrest
  rfl

theorem store32_memoryOnly {rel v : U32int} (h : s.store32 rel v = .ok s') : MemoryOnly s s' := by
  obtain ⟨a0, -, h⟩ := bind_ok h
  obtain ⟨a1, -, h⟩ := bind_ok h
  obtain ⟨a2, -, h⟩ := bind_ok h
  obtain ⟨a3, -, h⟩ := bind_ok h
  cases h
  rfl

theorem memset_memoryOnly {p : U32int} {c : U8int} {n : Nat} (h : s.memset p c n = .ok s') :
    MemoryOnly s s' := by
  induction n generalizing s p with
  | zero =>
    cases h
    exact .refl _
  | succ n ih =>
    obtain ⟨t, ht, hrest⟩ := bind_ok h
    exact (store8_memoryOnly ht).trans (ih hrest)

theorem setBit_memoryOnly {bitmap num : U32int} (h : s.setBit bitmap num = .ok s') :
    MemoryOnly s s' := by
  obtain ⟨b, -, hrest⟩ := bind_ok h
  exact store8_memoryOnly hrest

theorem allocPage_memoryOnly {bitmap p : U32int} (h : s.allocPage bitmap = .ok (p, s')) :
    MemoryOnly s s' := by
  rw [State.allocPage] at h
  split_ifs at h
  · obtain ⟨i, -, h⟩ := bind_ok h
    split_ifs at h
    · obtain ⟨-, -, h⟩ := bind_ok h
      obtain ⟨t, ht, h⟩ := bind_ok h
      cases h
      exact setBit_memoryOnly ht
    · cases h
      exact .refl _
  · cases h
    exact .refl _

theorem allocDataPage_memoryOnly {p : U32int} (h : s.allocDataPage = .ok (p, s')) :
    MemoryOnly s s' := allocPage_memoryOnly h

theorem linkPageTable_memoryOnly {dir i pt : U32int} (h : s.linkPageTable dir i pt = .ok s') :
    MemoryOnly s s' := by
  obtain ⟨ptt, -, h⟩ := bind_ok h
  obtain ⟨s1, h1, h⟩ := bind_ok h
  obtain ⟨s2, h2, h⟩ := bind_ok h
  exact (store32_memoryOnly h1).trans ((store32_memoryOnly h2).trans (store32_memoryOnly h))

theorem cleanPageTable_memoryOnly {dir i pt p : U32int}
    (h : s.cleanPageTable dir i pt = .ok (p, s')) : MemoryOnly s s' := by
  rw [State.cleanPageTable] at h
  split_ifs at h
  · obtain ⟨table, -, h⟩ := bind_ok h
    obtain ⟨t, ht, h⟩ := bind_ok h
    cases h
    exact memset_memoryOnly ht
  · obtain ⟨t, ht, h⟩ := bind_ok h
    cases h
    exact memset_memoryOnly ht

theorem getPtEntry_memoryOnly {lin dir p : U32int} {make : Bool}
    (h : s.getPtEntry lin dir make = .ok (p, s')) : MemoryOnly s s' := by
  obtain ⟨ptr, -, h⟩ := bind_ok h
  split_ifs at h
  · obtain ⟨pt, -, h⟩ := bind_ok h
    cases h
    exact .refl _
  · obtain ⟨⟨pt, s1⟩, h1, h⟩ := bind_ok h
    obtain ⟨s2, h2, h⟩ := bind_ok h
    obtain ⟨⟨table, s3⟩, h3, h⟩ := bind_ok h
    cases h
    exact (allocDataPage_memoryOnly h1).trans
      ((linkPageTable_memoryOnly h2).trans (cleanPageTable_memoryOnly h3))
  · cases h
    exact .refl _

theorem mmap_memoryOnly {segment : Segment} {v p : U32int} {rw user b : Bool}
    (h : s.mmap segment v p rw user = .ok (b, s')) : MemoryOnly s s' := by
  obtain ⟨⟨entry, s1⟩, h1, h⟩ := bind_ok h
  simp only at h
  split_ifs at h
  · obtain ⟨s2, h2, h⟩ := bind_ok h
    cases h
    exact (getPtEntry_memoryOnly h1).trans (store32_memoryOnly h2)
  · cases h
    exact getPtEntry_memoryOnly h1

theorem mmapUnchecked_memoryOnly {segment : Segment} {v p : U32int} {rw user : Bool}
    (h : s.mmapUnchecked segment v p rw user = .ok s') : MemoryOnly s s' := by
  obtain ⟨⟨b, s1⟩, h1, h⟩ := bind_ok h
  cases h
  exact mmap_memoryOnly h1

/-- A loop whose rounds write memory only writes memory only. -/
theorem forLoop_memoryOnly {cond : U32int → Bool} {step i : U32int}
    {body : U32int → State → Except Trap State}
    (hbody : ∀ i s s', body i s = .ok s' → MemoryOnly s s') {fuel : Nat}
    (h : Loops.forLoop .diverged cond step body fuel i s = .ok s') : MemoryOnly s s' := by
  induction fuel generalizing i s with
  | zero => cases h
  | succ fuel ih =>
    rw [Loops.forLoop] at h
    split_ifs at h
    · obtain ⟨t, ht, hrest⟩ := bind_ok h
      exact (hbody i s t ht).trans (ih hrest)
    · cases h
      exact .refl _

end

end SimpleOs.Audit.CallFrame
