import SimpleOs.Kernel.State

/-!
# Accesses to plain memory

A stretch of a segment is plain when its offsets are consecutive physical bytes
and writing those bytes does not move it. Before paging every stretch inside
the limit is plain; afterwards plainness has to come from the tables. The loads,
stores and `memset` of the kernel are ordinary memory operations there.
-/

namespace SimpleOs.Kernel

open SimpleOs.Lib.ByteMemory

/-- Peel one computation off a sequence that came back. -/
theorem bind_ok {ε α β : Type} {x : Except ε α} {f : α → Except ε β} {b : β}
    (h : (x >>= f) = .ok b) : ∃ a, x = .ok a ∧ f a = .ok b := by
  cases x with
  | error e => cases h
  | ok a => exact ⟨a, rfl, h⟩

/-- Run the first computation of a sequence. -/
theorem bind_of_ok {ε α β : Type} {x : Except ε α} {a : α} (h : x = .ok a) (f : α → Except ε β) :
    (x >>= f) = f a := by
  rw [h]
  rfl

@[simp] theorem ok_bind {ε α β : Type} (a : α) (f : α → Except ε β) :
    ((Except.ok a : Except ε α) >>= f) = f a := rfl

@[simp] theorem error_bind {ε α β : Type} (e : ε) (f : α → Except ε β) :
    ((Except.error e : Except ε α) >>= f) = .error e := rfl

@[simp] theorem pure_ok {ε α : Type} (a : α) : (pure a : Except ε α) = .ok a := rfl

theorem assert_ok {b : Bool} {u : Unit} (h : assert b = .ok u) : b = true := by
  cases b with
  | false => cases h
  | true => rfl

theorem assert_ne_null {p : U32int} (h : p ≠ null) : assert (p ≠ null) = .ok () := by
  rw [decide_eq_true h]
  rfl

namespace State

@[simp] theorem withMemory_memory (s : State) (m : Memory) : (s.withMemory m).memory = m := rfl
@[simp] theorem withMemory_self (s : State) : s.withMemory s.memory = s := rfl
@[simp] theorem withMemory_withMemory (s : State) (m m' : Memory) :
    (s.withMemory m).withMemory m' = s.withMemory m' := rfl
@[simp] theorem withMemory_pagingEnabled (s : State) (m : Memory) :
    (s.withMemory m).pagingEnabled = s.pagingEnabled := rfl
@[simp] theorem withMemory_cr3 (s : State) (m : Memory) : (s.withMemory m).cr3 = s.cr3 := rfl
@[simp] theorem withMemory_segmentsInfo (s : State) (m : Memory) :
    (s.withMemory m).segmentsInfo = s.segmentsInfo := rfl
@[simp] theorem withMemory_memoryBitmap (s : State) (m : Memory) :
    (s.withMemory m).memoryBitmap = s.memoryBitmap := rfl
@[simp] theorem withMemory_memoryBitmapInitialized (s : State) (m : Memory) :
    (s.withMemory m).memoryBitmapInitialized = s.memoryBitmapInitialized := rfl
@[simp] theorem withMemory_kernelPageDirectory (s : State) (m : Memory) :
    (s.withMemory m).kernelPageDirectory = s.kernelPageDirectory := rfl
@[simp] theorem withMemory_pageTablesRelVirtAddr (s : State) (m : Memory) :
    (s.withMemory m).pageTablesRelVirtAddr = s.pageTablesRelVirtAddr := rfl
@[simp] theorem withMemory_heapStartRelVirtAddr (s : State) (m : Memory) :
    (s.withMemory m).heapStartRelVirtAddr = s.heapStartRelVirtAddr := rfl
@[simp] theorem withMemory_heapBrk (s : State) (m : Memory) :
    (s.withMemory m).heapBrk = s.heapBrk := rfl
@[simp] theorem withMemory_heapSize (s : State) (m : Memory) :
    (s.withMemory m).heapSize = s.heapSize := rfl

/-- Base of the data segment, which every kernel pointer is relative to. -/
def dataBase (s : State) : U32int := s.segmentsInfo.dataSegment.base

@[simp] theorem withMemory_dataBase (s : State) (m : Memory) :
    (s.withMemory m).dataBase = s.dataBase := rfl

/-- `n` bytes at `rel` are the physical bytes from `a` on. -/
def ResolvesTo (s : State) (rel a : U32int) (n : Nat) : Prop :=
  ∀ k : U32int, k.toNat < n → s.dataAddr (rel + k) = .ok (a + k)

/-- Whatever those bytes hold, they stay where they are. -/
def PlainAt (s : State) (rel a : U32int) (n : Nat) : Prop :=
  ∀ m : Memory, (∀ x, n ≤ (x - a).toNat → m x = s.memory x) → (s.withMemory m).ResolvesTo rel a n

variable {s : State} {rel a : U32int} {n : Nat}

theorem PlainAt.resolves (h : s.PlainAt rel a n) : s.ResolvesTo rel a n := by
  simpa using h s.memory fun _ _ => rfl

theorem ResolvesTo.sub (h : s.ResolvesTo rel a n) {k : U32int} {l : Nat}
    (hk : k.toNat + l ≤ n) : s.ResolvesTo (rel + k) (a + k) l := by
  intro j hj
  have hkj : (k + j).toNat < n := by bv_omega
  rw [BitVec.add_assoc, h (k + j) hkj, BitVec.add_assoc]

theorem ResolvesTo.head (h : s.ResolvesTo rel a n) (hn : 0 < n) : s.dataAddr rel = .ok a := by
  simpa using h 0 (by simpa using hn)

/-- A plain stretch is plain in every state that differs only inside it. -/
theorem PlainAt.withMemory (h : s.PlainAt rel a n) {m : Memory}
    (hm : ∀ x, n ≤ (x - a).toNat → m x = s.memory x) : (s.withMemory m).PlainAt rel a n := by
  intro m' hm'
  rw [withMemory_withMemory]
  exact h m' fun x hx => (hm' x hx).trans (hm x hx)

theorem PlainAt.sub (h : s.PlainAt rel a n) {k : U32int} {l : Nat}
    (hk : k.toNat + l ≤ n) : s.PlainAt (rel + k) (a + k) l := by
  intro m hm
  refine (h m fun x hx => hm x ?_).sub hk
  bv_omega

theorem load8_of_resolves (h : s.dataAddr rel = .ok a) : s.load8 rel = .ok (s.memory a) := by
  simp [load8, h]

theorem store8_of_resolves (h : s.dataAddr rel = .ok a) (v : U8int) :
    s.store8 rel v = .ok (s.withMemory (write8 s.memory a v)) := by
  simp [store8, h]

theorem load32_of_resolves (h : s.ResolvesTo rel a 4) : s.load32 rel = .ok (read32 s.memory a) := by
  have h0 : s.dataAddr rel = .ok a := h.head (by decide)
  simp only [load32, h0, h 1 (by decide), h 2 (by decide),
    h 3 (by decide), ok_bind, pure_ok, read32]

theorem store32_of_resolves (h : s.ResolvesTo rel a 4) (v : U32int) :
    s.store32 rel v = .ok (s.withMemory (write32 s.memory a v)) := by
  have h0 : s.dataAddr rel = .ok a := h.head (by decide)
  simp only [store32, h0, h 1 (by decide), h 2 (by decide), h 3 (by decide), ok_bind, pure_ok,
    write32_eq_write8]

/-- `memset` over a plain stretch is a fill. -/
theorem memset_of_plain (c : U8int) (hn : n ≤ 2^32) :
    ∀ {s : State} {rel a : U32int}, s.PlainAt rel a n →
      s.memset rel c n = .ok (s.withMemory (fill s.memory a n c)) := by
  induction n with
  | zero =>
    intro s rel a _
    simp [memset]
  | succ n ih =>
    intro s rel a h
    have hstore := store8_of_resolves (h.resolves.head (Nat.succ_pos n)) c
    have hplain : (s.withMemory (write8 s.memory a c)).PlainAt (rel + 1) (a + 1) n := by
      refine (h.withMemory fun x hx => write8_of_ne _ _ (by bv_omega)).sub ?_
      simp [Nat.add_comm]
    simp only [memset, hstore, ok_bind, ih (by omega) hplain, withMemory_memory,
      withMemory_withMemory, fill_succ s.memory a c (show n < 2^32 by omega)]

def data (s : State) : Memory := fromBase s.memory s.dataBase

def withData (s : State) (m : Memory) : State := s.withMemory (fromBase m (-s.dataBase))

@[simp] theorem withData_data (s : State) (m : Memory) : (s.withData m).data = m := by
  funext x
  simp [data, withData, fromBase]

@[simp] theorem withData_self (s : State) : s.withData s.data = s := by
  have h : fromBase s.data (-s.dataBase) = s.memory := by
    funext x
    simp [data, fromBase]
  rw [withData, h, withMemory_self]

@[simp] theorem withData_withData (s : State) (m m' : Memory) :
    (s.withData m).withData m' = s.withData m' := rfl

@[simp] theorem withData_dataBase (s : State) (m : Memory) :
    (s.withData m).dataBase = s.dataBase := rfl

theorem withMemory_eq_withData (s : State) (m : Memory) :
    s.withMemory m = s.withData (fromBase m s.dataBase) := by
  have h : fromBase (fromBase m s.dataBase) (-s.dataBase) = m := by
    funext x
    simp [fromBase]
  rw [withData, h]

theorem load32_data (h : s.ResolvesTo rel (a + s.dataBase) 4) :
    s.load32 rel = .ok (read32 s.data a) := by
  rw [load32_of_resolves h, data, read32_fromBase]

theorem store32_data (h : s.ResolvesTo rel (a + s.dataBase) 4) (v : U32int) :
    s.store32 rel v = .ok (s.withData (write32 s.data a v)) := by
  rw [store32_of_resolves h, withMemory_eq_withData, fromBase_write32, data]

theorem memset_data (c : U8int) (hn : n ≤ 2^32) (h : s.PlainAt rel (a + s.dataBase) n) :
    s.memset rel c n = .ok (s.withData (fill s.data a n c)) := by
  rw [memset_of_plain c hn h, withMemory_eq_withData, fromBase_fill, data]

theorem dataAddr_of_disabled (hp : s.pagingEnabled = false)
    (hl : rel ≤ s.segmentsInfo.dataSegment.limit) : s.dataAddr rel = .ok (rel + s.dataBase) := by
  simp [dataAddr, segAddr, hl, translate, hp, dataBase]

/-- Before paging, offsets inside the limit are plain. -/
theorem plainAt_of_disabled (hp : s.pagingEnabled = false)
    (hl : rel.toNat + n ≤ s.segmentsInfo.dataSegment.limit.toNat + 1) :
    s.PlainAt rel (rel + s.dataBase) n := by
  intro m _ k hk
  have hle : rel + k ≤ s.segmentsInfo.dataSegment.limit := by bv_omega
  rw [dataAddr_of_disabled (by simpa using hp) (by simpa using hle)]
  congr 1
  simp only [withMemory_dataBase]
  bv_omega

theorem store32_of_disabled (hp : s.pagingEnabled = false) (v : U32int)
    (hl : rel.toNat + 4 ≤ s.segmentsInfo.dataSegment.limit.toNat + 1) :
    s.store32 rel v = .ok (s.withData (write32 s.data rel v)) :=
  store32_data (plainAt_of_disabled hp hl).resolves v

theorem memset_of_disabled (hp : s.pagingEnabled = false) (c : U8int) (hn : n ≤ 2^32)
    (hl : rel.toNat + n ≤ s.segmentsInfo.dataSegment.limit.toNat + 1) :
    s.memset rel c n = .ok (s.withData (fill s.data rel n c)) :=
  memset_data c hn (plainAt_of_disabled hp hl)

end State

theorem Segment.limit_toNat (seg : Segment) :
    seg.limit.toNat = seg.len.toNat / 4096 * 4096 + 4095 := by
  simp only [Segment.limit, pageSize, bitvec_to_nat, Nat.reducePow, Nat.reduceMod]
  omega

end SimpleOs.Kernel
