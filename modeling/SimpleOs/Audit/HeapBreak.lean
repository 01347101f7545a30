import SimpleOs.Kernel.Heap
import SimpleOs.Audit.CallFrame

/-!
# The heap break

`sbrk` checks a 32-bit sum against a 32-bit sum. The check is compared with the
integers it is meant for, call by call and then along any history of successful
calls, with anything in between that leaves the three heap globals alone.
-/

namespace SimpleOs.Audit.HeapBreak

open SimpleOs.Kernel
open SimpleOs.Audit.CallFrame

/-- The break is page-aligned inside a page-aligned window. -/
structure Window (s : State) : Prop where
  start_aligned : s.heapStartRelVirtAddr.toNat % 4096 = 0
  brk_aligned : s.heapBrk.toNat % 4096 = 0
  start_le : s.heapStartRelVirtAddr.toNat ≤ s.heapBrk.toNat
  le_end : s.heapBrk.toNat ≤ s.heapStartRelVirtAddr.toNat + s.heapSize.toNat

/-- The three assertions `sbrk` makes on entry. -/
def Passes (s : State) (increment : U32int) : Prop :=
  increment % pageSize = 0 ∧ s.heapBrk % pageSize = 0 ∧
    s.heapBrk + increment < s.heapStartRelVirtAddr + s.heapSize

/-- The break that `heap_brk += increment` leaves. -/
def moved (s : State) (increment : U32int) : State := { s with heapBrk := s.heapBrk + increment }

/-- The break goes up by the increment and stays in the window. -/
structure Advances (s : State) (increment : U32int) : Prop where
  sum_le : s.heapBrk.toNat + increment.toNat ≤ s.heapStartRelVirtAddr.toNat + s.heapSize.toNat
  grows : s.heapBrk.toNat ≤ (moved s increment).heapBrk.toNat
  window : Window (moved s increment)

section

variable {s s' : State} {increment address : U32int}

/-- The sum of the third assertion stays below the window's end unless it wraps and
the end does not. -/
theorem sum_le_iff (h : Window s) (hp : Passes s increment) :
    s.heapBrk.toNat + increment.toNat ≤ s.heapStartRelVirtAddr.toNat + s.heapSize.toNat ↔
      s.heapBrk.toNat + increment.toNat < 2^32 ∨
        2^32 ≤ s.heapStartRelVirtAddr.toNat + s.heapSize.toNat := by
  obtain ⟨-, -, hlt⟩ := hp
  have hle := h.le_end
  have hbrk := s.heapBrk.isLt
  have hinc := increment.isLt
  rw [BitVec.lt_def, BitVec.toNat_add, BitVec.toNat_add] at hlt
  omega

theorem advances_iff (h : Window s) (hp : Passes s increment) :
    Advances s increment ↔ s.heapBrk.toNat + increment.toNat < 2^32 := by
  have hbrk := s.heapBrk.isLt
  have hinc := increment.isLt
  have hmoved : (moved s increment).heapBrk.toNat =
      (s.heapBrk.toNat + increment.toNat) % 2^32 := BitVec.toNat_add ..
  constructor
  · intro ha
    have hgrows := ha.grows
    omega
  · intro hfits
    have hsum := (sum_le_iff h hp).mpr (.inl hfits)
    have haligned : increment.toNat % 4096 = 0 := congrArg BitVec.toNat hp.1
    have hbaligned := h.brk_aligned
    have hstart := h.start_le
    rw [Nat.mod_eq_of_lt hfits] at hmoved
    refine ⟨hsum, by omega, h.start_aligned, by omega, ?_, ?_⟩
    · exact hstart.trans (by omega)
    · rw [hmoved]
      exact hsum

theorem sbrkPage_memoryOnly {i : U32int} (h : State.sbrkPage i s = .ok s') : MemoryOnly s s' := by
  obtain ⟨⟨ptr, s1⟩, h1, h⟩ := bind_ok h
  obtain ⟨-, -, h⟩ := bind_ok h
  exact (allocDataPage_memoryOnly h1).trans (mmapUnchecked_memoryOnly h)

/-- A call that comes back has passed its assertions, returns the old break and has
moved the break by the increment. -/
theorem sbrk_spec (h : s.sbrk increment = .ok (address, s')) :
    Passes s increment ∧ address = s.heapBrk ∧
      s' = (moved s increment).withMemory s'.memory := by
  obtain ⟨_, hinc, h⟩ := bind_ok h
  obtain ⟨_, hbrk, h⟩ := bind_ok h
  obtain ⟨_, hsum, h⟩ := bind_ok h
  obtain ⟨s1, h1, h⟩ := bind_ok h
  obtain ⟨s2, h2, h⟩ := bind_ok h
  cases h
  have hpass : Passes s increment :=
    ⟨beq_iff_eq.mp (assert_ok hinc), beq_iff_eq.mp (assert_ok hbrk),
      of_decide_eq_true (assert_ok hsum)⟩
  have hloop : MemoryOnly s s1 := forLoop_memoryOnly (fun _ _ _ => sbrkPage_memoryOnly) h1
  have hset : MemoryOnly { s1 with heapBrk := s1.heapBrk + increment } s' := memset_memoryOnly h2
  refine ⟨hpass, rfl, ?_⟩
  rw [MemoryOnly] at hloop hset
  rw [hset, hloop]
  rfl

end

/-- Successful calls, oldest first, as the ranges they returned. Between calls
anything may happen that leaves the heap globals alone. -/
inductive History (s₀ : State) : List (U32int × U32int) → State → Prop
  | start : History s₀ [] s₀
  | call {ranges : List (U32int × U32int)} {s s' : State} {increment address : U32int} :
      History s₀ ranges s → s.heapBrk.toNat + increment.toNat < 2^32 →
      s.sbrk increment = .ok (address, s') → History s₀ (ranges ++ [(address, increment)]) s'
  | other {ranges : List (U32int × U32int)} {s s' : State} : History s₀ ranges s →
      s'.heapBrk = s.heapBrk → s'.heapStartRelVirtAddr = s.heapStartRelVirtAddr →
      s'.heapSize = s.heapSize → History s₀ ranges s'

/-- The ranges follow each other without a gap from one break to the other. -/
def Consecutive : Nat → List (U32int × U32int) → Nat → Prop
  | start, [], stop => start = stop
  | start, (address, increment) :: ranges, stop =>
    address.toNat = start ∧ Consecutive (start + increment.toNat) ranges stop

theorem Consecutive.snoc {ranges : List (U32int × U32int)} {start stop : Nat}
    (h : Consecutive start ranges stop) {address increment : U32int} (ha : address.toNat = stop) :
    Consecutive start (ranges ++ [(address, increment)]) (stop + increment.toNat) := by
  induction ranges generalizing start with
  | nil =>
    cases h
    exact ⟨ha, rfl⟩
  | cons range ranges ih => exact ⟨h.1, ih h.2⟩

theorem Consecutive.le {ranges : List (U32int × U32int)} {start stop : Nat}
    (h : Consecutive start ranges stop) : start ≤ stop ∧ ∀ r ∈ ranges, start ≤ r.1.toNat := by
  induction ranges generalizing start with
  | nil => exact ⟨le_of_eq h, fun r hr => absurd hr List.not_mem_nil⟩
  | cons range ranges ih =>
    obtain ⟨hhead, hrest⟩ := h
    obtain ⟨hle, hall⟩ := ih hrest
    refine ⟨by omega, fun r hr => ?_⟩
    rcases List.mem_cons.mp hr with rfl | hr
    · exact hhead.ge
    · exact (Nat.le_add_right ..).trans (hall r hr)

/-- Consecutive ranges are disjoint, each before the later ones. -/
theorem Consecutive.pairwise {ranges : List (U32int × U32int)} {start stop : Nat}
    (h : Consecutive start ranges stop) :
    ranges.Pairwise fun r r' => r.1.toNat + r.2.toNat ≤ r'.1.toNat := by
  induction ranges generalizing start with
  | nil => exact List.Pairwise.nil
  | cons range ranges ih =>
    obtain ⟨hhead, hrest⟩ := h
    refine List.Pairwise.cons (fun r hr => ?_) (ih hrest)
    have hle := hrest.le.2 r hr
    rw [← hhead] at hle
    exact hle

theorem History.window {s₀ s : State} {ranges : List (U32int × U32int)} (h₀ : Window s₀)
    (h : History s₀ ranges s) : Window s ∧
      s.heapStartRelVirtAddr = s₀.heapStartRelVirtAddr ∧ s.heapSize = s₀.heapSize ∧
      Consecutive s₀.heapBrk.toNat ranges s.heapBrk.toNat := by
  induction h with
  | start => exact ⟨h₀, rfl, rfl, rfl⟩
  | @call ranges s s' increment address _ hfits hcall ih =>
    obtain ⟨hw, hstart, hsize, hranges⟩ := ih
    obtain ⟨hpass, haddress, hs'⟩ := sbrk_spec hcall
    have hadv := (advances_iff hw hpass).mpr hfits
    have hmoved : (moved s increment).heapBrk.toNat = s.heapBrk.toNat + increment.toNat :=
      (BitVec.toNat_add ..).trans (Nat.mod_eq_of_lt hfits)
    have hsnoc := @Consecutive.snoc _ _ _ hranges _ increment (congrArg BitVec.toNat haddress)
    rw [← hmoved] at hsnoc
    rw [hs']
    exact ⟨⟨hw.start_aligned, hadv.window.brk_aligned, hadv.window.start_le, hadv.window.le_end⟩,
      hstart, hsize, hsnoc⟩
  | other _ hbrk hstart hsize ih =>
    obtain ⟨hw, hstart', hsize', hranges⟩ := ih
    rw [hstart, hsize, hbrk]
    refine ⟨⟨?_, ?_, ?_, ?_⟩, hstart', hsize', hranges⟩
    · rw [hstart]
      exact hw.start_aligned
    · rw [hbrk]
      exact hw.brk_aligned
    · rw [hstart, hbrk]
      exact hw.start_le
    · rw [hstart, hbrk, hsize]
      exact hw.le_end

/-- The increment is accepted for what it is exactly when its sum with the break
does not wrap; along a history of such calls the break only grows inside the window
and the ranges handed out are consecutive and disjoint. -/
theorem break_advances_iff {s₀ : State} (h₀ : Window s₀) :
    (∀ increment : U32int, Passes s₀ increment →
      (Advances s₀ increment ↔ s₀.heapBrk.toNat + increment.toNat < 2^32) ∧
      (s₀.heapBrk.toNat + increment.toNat ≤ s₀.heapStartRelVirtAddr.toNat + s₀.heapSize.toNat ↔
        s₀.heapBrk.toNat + increment.toNat < 2^32 ∨
          2^32 ≤ s₀.heapStartRelVirtAddr.toNat + s₀.heapSize.toNat)) ∧
    (∀ (s : State) (ranges : List (U32int × U32int)), History s₀ ranges s →
      Window s ∧ s₀.heapBrk.toNat ≤ s.heapBrk.toNat ∧
      Consecutive s₀.heapBrk.toNat ranges s.heapBrk.toNat ∧
      ranges.Pairwise fun r r' => r.1.toNat + r.2.toNat ≤ r'.1.toNat) := by
  refine ⟨fun increment hp => ⟨advances_iff h₀ hp, sum_le_iff h₀ hp⟩, fun s ranges h => ?_⟩
  obtain ⟨hw, -, -, hranges⟩ := h.window h₀
  exact ⟨hw, hranges.le.1, hranges, hranges.pairwise⟩

/-- One page of the window at 7 MiB is handed out. -/
def onePage : State where
  memory := fun _ => 0
  pagingEnabled := false
  cr3 := 0
  segmentsInfo := ⟨⟨0x1100000, 0x1000000⟩, ⟨0x100000, 0x1000000⟩, ⟨videoBaseAddr, 0xFA0⟩, ⟨0, 0⟩⟩
  memoryBitmap := ⟨0x2000, 0x3000, 4096, 4096⟩
  memoryBitmapInitialized := true
  dataTopAddress := 0x4000
  kernelPageDirectory := 0x4000
  pageTablesRelVirtAddr := 0x300000
  heapStartRelVirtAddr := 0x700000
  heapBrk := 0x701000
  heapSize := 0x400000
  moduleInfo := ⟨false, false, false, 0, 0, 0, 0, 0⟩

theorem onePage_window : Window onePage := ⟨rfl, rfl, by decide, by decide⟩

/-- The increment that brings the 32-bit sum to 0x1000. -/
theorem onePage_passes : Passes onePage 0xFF900000 := by
  unfold Passes
  decide

/-- An increment of almost 4 GiB passes all three assertions, and the break that the
call would leave is before the window. -/
theorem wrapped_increment_passes :
    ¬ (∀ (s : State) (increment : U32int), Window s → Passes s increment →
      s.heapBrk.toNat + increment.toNat ≤ s.heapStartRelVirtAddr.toNat + s.heapSize.toNat) ∧
    (moved onePage 0xFF900000).heapBrk < onePage.heapStartRelVirtAddr := by
  refine ⟨fun h => ?_, by decide⟩
  have hle := h onePage 0xFF900000 onePage_window onePage_passes
  revert hle
  decide

end SimpleOs.Audit.HeapBreak
