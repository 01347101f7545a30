import SimpleOs.Kernel.InterruptTables
import SimpleOs.Audit.PackedDescriptors

/-!
# The tables the processor finds

Every gate of the IDT and every descriptor of the GDT after both functions, whatever the
pages held before. A load leaves a mark in its descriptor and nothing else.
-/

namespace SimpleOs.Audit.InterruptTables

open SimpleOs.Kernel SimpleOs.Lib.ByteMemory PackedDescriptors

variable {m m' : Memory} {a b idt : U32int} {symbols : StubSymbols}

theorem idtEntryAt_congr (h : ∀ k : U32int, k.toNat < 8 → m' (a + k) = m (a + k)) :
    idtEntryAt m' a = idtEntryAt m a := by
  have h0 : m' a = m a := by simpa using h 0 (by decide)
  have h2 : m' (a + 2 + 1) = m (a + 2 + 1) := second_byte a 2 ▸ h 3 (by decide)
  have h6 : m' (a + 6 + 1) = m (a + 6 + 1) := second_byte a 6 ▸ h 7 (by decide)
  simp only [idtEntryAt, read16, h0, h 1 (by decide), h 2 (by decide), h2, h 4 (by decide),
    h 5 (by decide), h 6 (by decide), h6]

theorem gdtEntryAt_congr (h : ∀ k : U32int, k.toNat < 8 → m' (a + k) = m (a + k)) :
    gdtEntryAt m' a = gdtEntryAt m a := by
  have h0 : m' a = m a := by simpa using h 0 (by decide)
  have h2 : m' (a + 2 + 1) = m (a + 2 + 1) := second_byte a 2 ▸ h 3 (by decide)
  simp only [gdtEntryAt, read16, h0, h 1 (by decide), h 2 (by decide), h2, h 4 (by decide),
    h 5 (by decide), h 6 (by decide), h 7 (by decide)]

/-- What `init_idt` is to put at a vector. -/
def installedGate (symbols : StubSymbols) (vector : U8int) : IdtEntry :=
  if (stub vector).isSome then
    { baseLow := (symbols vector).setWidth 16
      selector := 0x08
      alwaysZero := 0
      flags := if vector = 0x80 then 0xEF else 0x8E
      baseHigh := (symbols vector >>> 16).setWidth 16 }
  else ⟨0, 0, 0, 0, 0⟩

theorem idtEntryAt_of_far (base : U32int) (selector : BitVec 16)
    (flags : U8int) (h : 8 ≤ (a - b).toNat)
    (h' : 8 ≤ (b - a).toNat) : idtEntryAt
    (setInterruptGateAt m b base selector flags) a = idtEntryAt m a :=
  idtEntryAt_congr fun k hk => setInterruptGateAt_of_far m b base selector flags (by bv_omega)

theorem gate_far {i j : Nat} (hi : i < 256) (hj : j < 256) (hij : i ≠ j) :
    8 ≤ (idt + 8 * BitVec.ofNat 32 i - (idt + 8 * BitVec.ofNat 32 j)).toNat := by
  bv_omega

theorem setGates_gate {n i : Nat} (hn : n ≤ 128) (hi : i < 256) :
    idtEntryAt (setGates symbols idt n m) (idt + 8 * BitVec.ofNat 32 i) =
      if i < n then
        { baseLow := (symbols (BitVec.ofNat 8 i)).setWidth 16
          selector := 0x08
          alwaysZero := 0
          flags := 0x8E
          baseHigh := (symbols (BitVec.ofNat 8 i) >>> 16).setWidth 16 }
      else idtEntryAt m (idt + 8 * BitVec.ofNat 32 i) := by
  induction n with
  | zero => rfl
  | succ n ih =>
    rw [setGates]
    by_cases heq : i = n
    · subst i
      rw [idtEntryAt_set, if_pos (Nat.lt_succ_self n)]
    · rw [idtEntryAt_of_far _ _ _ (gate_far hi (by omega) heq)
        (gate_far (by omega) hi (Ne.symm heq)), ih (by omega)]
      exact if_congr (by omega) rfl rfl

theorem cleared_gate {i : Nat} (hi : i < 256) :
    idtEntryAt (fill m idt 2048 0) (idt + 8 * BitVec.ofNat 32 i) = ⟨0, 0, 0, 0, 0⟩ := by
  have hzero : idtEntryAt (fill m idt 2048 0) (idt + 8 * BitVec.ofNat 32 i) =
      idtEntryAt (fun _ => 0) (idt + 8 * BitVec.ofNat 32 i) :=
    idtEntryAt_congr fun k hk => fill_of_lt m 0 (by bv_omega)
  rw [hzero]
  simp only [idtEntryAt, read16]
  decide

theorem stub_isSome (vector : U8int) :
    (stub vector).isSome = decide (vector.toNat < 48 ∨ vector = 0x80) := by
  unfold stub
  split_ifs with h1 h2
  · exact (decide_eq_true (by bv_omega)).symm
  · exact (decide_eq_true (by bv_omega)).symm
  · exact (decide_eq_false (by bv_omega)).symm

/-- Every gate, of a vector with a stub or without. -/
theorem initIdtAt_gate (vector : U8int) :
    idtEntryAt (initIdtAt symbols idt m) (idt + 8 * vector.setWidth 32) =
      installedGate symbols vector := by
  have hindex : vector.setWidth 32 = BitVec.ofNat 32 vector.toNat :=
    (BitVec.ofNat_toNat 32 vector).symm
  have hback : BitVec.ofNat 8 vector.toNat = vector :=
    (BitVec.ofNat_toNat 8 vector).trans (BitVec.setWidth_eq vector)
  have hi := vector.isLt
  rw [initIdtAt, installedGate, stub_isSome]
  by_cases h128 : vector = 0x80
  · subst h128
    have hentry : (8 : U32int) * BitVec.setWidth 32 (0x80 : U8int) = 8 * 128 := by decide
    rw [hentry, idtEntryAt_set]
    rfl
  · have hne : vector.toNat ≠ 128 := fun h => h128 (BitVec.eq_of_toNat_eq h)
    have hsyscall : (128 : U32int) = BitVec.ofNat 32 128 := rfl
    rw [hindex, hsyscall, idtEntryAt_of_far _ _ _ (gate_far hi (by decide) hne)
      (gate_far (by decide) hi (Ne.symm hne)),
      setGates_gate (by decide) hi, hback, cleared_gate hi, if_neg h128]
    simp only [h128, or_false, decide_eq_true_eq]

/-- Nothing outside the page is written. -/
theorem initIdtAt_of_far {x : U32int} (h : 2048 ≤ (x - idt).toNat) :
    initIdtAt symbols idt m x = m x := by
  have hgates : ∀ n ≤ 256, setGates symbols idt n (fill m idt 2048 0) x = m x := by
    intro n hn
    induction n with
    | zero => exact fill_of_le m 0 h
    | succ n ih => rw [setGates, setInterruptGateAt_of_far _ _ _ _ _ (by bv_omega), ih (by omega)]
  rw [initIdtAt, setInterruptGateAt_of_far _ _ _ _ _ (by bv_omega), hgates 48 (by decide)]

/-- What `init_gdt` is to put at an index. -/
def installedDescriptor (info : SegmentsInfo) (tssEntry : U32int) : Nat → GdtEntry
  | 1 => gdtEntry info .kernelCode
  | 2 => gdtEntry info .kernelData
  | 3 => gdtEntry info .userCode
  | 4 => gdtEntry info .userData
  | 5 => gdtEntry info .kernelVideo
  | 6 => gdtEntry info .kernelModule
  | 7 => gdtEntry info .kernelCodeData
  | 8 => setGlobalDescriptor (tssEntry + info.dataSegment.base) tssEntrySize 0xE9 0x00
  | _ => ⟨0, 0, 0, 0, 0, 0⟩

/-- What `init_gdt` leaves there: the segments it loads are accessed, the task is busy. -/
def loadedDescriptor (info : SegmentsInfo) (tssEntry : U32int) (i : Nat) : GdtEntry :=
  let e := installedDescriptor info tssEntry i
  if i ∈ [1, 2, 5, 6] then { e with access := e.access ||| 0x01 }
  else if i = 8 then { e with access := e.access ||| 0x02 }
  else e

/-- A mark does not change which bit marks. -/
theorem marked_mark (e : GdtEntry) : e.marked.mark = e.mark := by
  have hbit : ∀ b : Bool, (if b then (0x01 : U8int) else 0x02).getLsbD 4 = false := by decide
  rw [GdtEntry.mark, GdtEntry.segment, GdtEntry.marked, BitVec.getLsbD_or,
    GdtEntry.mark, hbit, Bool.or_false]
  rfl

theorem marked_marked (e : GdtEntry) : e.marked.marked = e.marked := by
  rw [GdtEntry.marked, marked_mark]
  simp only [GdtEntry.marked, BitVec.or_assoc, BitVec.or_self]

theorem marked_unmarked (e : GdtEntry) : e.marked.unmarked = e.unmarked := by
  rw [GdtEntry.unmarked, marked_mark]
  simp [GdtEntry.marked, GdtEntry.unmarked, BitVec.and_or_distrib_right]

theorem unmarked_dpl (e : GdtEntry) : e.unmarked.dpl = e.dpl := by
  have hmark : (~~~e.mark).extractLsb' 5 2 = BitVec.allOnes 2 := by
    rw [GdtEntry.mark]
    split_ifs <;> decide
  rw [GdtEntry.dpl, GdtEntry.unmarked, BitVec.extractLsb'_and, hmark, BitVec.and_allOnes]
  rfl

theorem installedDescriptor_mark (info : SegmentsInfo) (tssEntry : U32int) {i : Nat} (hi : i < 20) :
    (installedDescriptor info tssEntry i).mark = if i ∈
      [1, 2, 3, 4, 5, 6, 7] then 0x01 else 0x02 := by
  interval_cases i <;> simp [GdtEntry.mark, GdtEntry.segment, installedDescriptor,
    gdtEntry, setGlobalDescriptor]

/-- The source sets no mark itself. -/
theorem installedDescriptor_unmarked (info : SegmentsInfo)
    (tssEntry : U32int) {i : Nat} (hi : i < 20) :
    (installedDescriptor info tssEntry i).unmarked = installedDescriptor info tssEntry i := by
  rw [GdtEntry.unmarked, installedDescriptor_mark info tssEntry hi]
  interval_cases i <;> simp [installedDescriptor, gdtEntry, setGlobalDescriptor]

theorem loadedDescriptor_eq (info : SegmentsInfo) (tssEntry : U32int) {i : Nat} (hi : i < 20) :
    loadedDescriptor info tssEntry i = if i ∈ initGdtLoads.map descriptorIndex then
      (installedDescriptor info tssEntry i).marked else installedDescriptor info tssEntry i := by
  rw [GdtEntry.marked, installedDescriptor_mark info tssEntry hi]
  interval_cases i <;> rfl

theorem gdtEntryAt_of_far (base limit : U32int) (access gran : U8int) (h : 8 ≤ (a - b).toNat)
    (h' : 8 ≤ (b - a).toNat) : gdtEntryAt
    (setGlobalDescriptorAt m b base limit access gran) a = gdtEntryAt m a :=
  gdtEntryAt_congr fun k hk => setGlobalDescriptorAt_of_far m b base limit access gran (by bv_omega)

theorem gdtEntryAt_write32 (v : U32int) (h : 4 ≤ (a - b).toNat) (h' : 8 ≤ (b - a).toNat) :
    gdtEntryAt (write32 m b v) a = gdtEntryAt m a :=
  gdtEntryAt_congr fun k hk => write32_of_far m v (by bv_omega)

theorem gdtEntryAt_fill {n : Nat} (h : n ≤ (a - b).toNat) (h' : 8 ≤ (b - a).toNat) :
    gdtEntryAt (fill m b n 0) a = gdtEntryAt m a :=
  gdtEntryAt_congr fun k hk => fill_of_le m 0 (by bv_omega)

/-- A write to the access byte. -/
theorem gdtEntryAt_access (v : Byte) :
    gdtEntryAt (write8 m (a + 5) v) a = { gdtEntryAt m a with access := v } := by
  have hne : ∀ k : U32int, k ≠ 5 → write8 m (a + 5) v (a + k) = m (a + k) := fun k hk =>
    write8_of_ne _ _ fun h => hk (add_left_cancel h)
  have h0 : write8 m (a + 5) v a = m a := by simpa using hne 0 (by decide)
  have h3 : write8 m (a + 5) v (a + 2 + 1) = m (a + 2 + 1) := second_byte a 2 ▸ hne 3 (by decide)
  simp only [gdtEntryAt, read16, h0, hne 1 (by decide), hne 2 (by decide), h3, hne 4 (by decide),
    hne 6 (by decide), hne 7 (by decide), write8_same]

theorem gdtEntryAt_access_of_far (v : Byte) (h : 8 ≤ (a - b).toNat) (h' : 8 ≤ (b - a).toNat) :
    gdtEntryAt (write8 m (b + 5) v) a = gdtEntryAt m a :=
  gdtEntryAt_congr fun k hk => write8_of_ne _ _ (by bv_omega)

theorem cleared_descriptor {n : Nat} (h : (a - b).toNat + 7 < n) (hn : n ≤ 2^32) :
    gdtEntryAt (fill m b n 0) a = ⟨0, 0, 0, 0, 0, 0⟩ := by
  have hzero : gdtEntryAt (fill m b n 0) a = gdtEntryAt (fun _ => 0) a :=
    gdtEntryAt_congr fun k hk => fill_of_lt m 0 (by bv_omega)
  rw [hzero]
  simp only [gdtEntryAt, read16]
  decide

section

variable {info : SegmentsInfo} {tssEntry gdt : U32int}

theorem descriptor_set (j : Nat) (entry : U32int) {i : Nat} {base limit : U32int}
    {access gran : U8int} (hi : i < 20) (hj : j < 20)
    (hentry : entry = gdt + 8 * BitVec.ofNat 32 j) :
    gdtEntryAt (setGlobalDescriptorAt m entry base limit access gran)
    (gdt + 8 * BitVec.ofNat 32 i) =
      if i = j then setGlobalDescriptor base limit access gran else gdtEntryAt m
          (gdt + 8 * BitVec.ofNat 32 i) := by
  subst hentry
  by_cases heq : i = j
  · subst heq
    rw [gdtEntryAt_set, if_pos rfl]
  · rw [gdtEntryAt_of_far _ _ _ _ (gate_far (by omega) (by omega) heq)
      (gate_far (by omega) (by omega) (Ne.symm heq)), if_neg heq]

theorem loadSelector_descriptor {selector : BitVec 16} {i : Nat}
    (hselector : descriptorIndex selector < 20)
    (hi : i < 20) : gdtEntryAt (loadSelector gdt selector m) (gdt + 8 * BitVec.ofNat 32 i) =
      if i = descriptorIndex selector then (gdtEntryAt m (gdt + 8 * BitVec.ofNat 32 i)).marked
      else gdtEntryAt m (gdt + 8 * BitVec.ofNat 32 i) := by
  rw [loadSelector]
  by_cases heq : i = descriptorIndex selector
  · rw [if_pos heq, heq, gdtEntryAt_access]
    rfl
  · rw [if_neg heq, gdtEntryAt_access_of_far _ (gate_far (by omega) (by omega) heq)
      (gate_far (by omega) (by omega) (Ne.symm heq))]

/-- However often a selector is loaded, its descriptor is marked once. -/
theorem loadSelectors_descriptor {selectors : List (BitVec 16)}
    (h : ∀ j ∈ selectors.map descriptorIndex, j < 20)
    {i : Nat} (hi : i < 20) : gdtEntryAt (loadSelectors gdt selectors m)
    (gdt + 8 * BitVec.ofNat 32 i) =
      if i ∈ selectors.map descriptorIndex then (gdtEntryAt m (gdt + 8 * BitVec.ofNat 32 i)).marked
      else gdtEntryAt m (gdt + 8 * BitVec.ofNat 32 i) := by
  induction selectors generalizing m with
  | nil => simp [loadSelectors]
  | cons selector selectors ih =>
    have hrest := ih (m := loadSelector gdt selector m) fun j hj => h j (List.mem_cons_of_mem _ hj)
    rw [loadSelector_descriptor (h _ List.mem_cons_self) hi] at hrest
    refine hrest.trans ?_
    have hmem : i ∈ (selector :: selectors).map descriptorIndex ↔
        i = descriptorIndex selector ∨ i ∈ selectors.map descriptorIndex := by
      rw [List.map_cons, List.mem_cons]
    by_cases hfirst : i = descriptorIndex selector
    · rw [if_pos hfirst, if_pos (hmem.mpr (.inl hfirst)), marked_marked, ite_self]
    · rw [if_neg hfirst]
      exact if_congr ((or_iff_right hfirst).symm.trans hmem.symm) rfl rfl

theorem loadSelectors_of_far {selectors : List (BitVec 16)}
    (h : ∀ j ∈ selectors.map descriptorIndex, j < 20)
    {x : U32int} (hx : 160 ≤ (x - gdt).toNat) : loadSelectors gdt selectors m x = m x := by
  induction selectors generalizing m with
  | nil => rfl
  | cons selector selectors ih =>
    have hindex := h _ List.mem_cons_self
    exact (ih fun j hj => h j (List.mem_cons_of_mem _ hj)).trans (write8_of_ne _ _ (by bv_omega))

theorem initGdtLoads_lt : ∀ j ∈ initGdtLoads.map descriptorIndex, j < 20 := by decide

/-- Every descriptor, installed or left empty. -/
theorem initGdtAt_descriptor (h : 160 ≤ (tssEntry - gdt).toNat) (h' : 104 ≤ (gdt - tssEntry).toNat)
    {i : Nat} (hi : i < 20) :
    gdtEntryAt (initGdtAt info tssEntry gdt m) (gdt + 8 * BitVec.ofNat 32 i) =
      loadedDescriptor info tssEntry i := by
  have hfirst : gdt = gdt + 8 * BitVec.ofNat 32 0 := by simp
  rw [initGdtAt, loadSelectors_descriptor initGdtLoads_lt hi, loadedDescriptor_eq info tssEntry hi]
  refine congrArg (fun e : GdtEntry => if i ∈ initGdtLoads.map descriptorIndex then e.marked else e)
    ?_
  rw [setTaskDescriptor, gdtEntryAt_write32 _ (by bv_omega) (by bv_omega),
    gdtEntryAt_write32 _ (by bv_omega) (by bv_omega), gdtEntryAt_fill (by bv_omega) (by bv_omega),
    descriptor_set 8 (gdt + 64) hi (by decide) rfl, descriptor_set 7 (gdt + 56) hi (by decide) rfl,
    descriptor_set 6 (gdt + 48) hi (by decide) rfl, descriptor_set 5 (gdt + 40) hi (by decide) rfl,
    descriptor_set 4 (gdt + 32) hi (by decide) rfl, descriptor_set 3 (gdt + 24) hi (by decide) rfl,
    descriptor_set 2 (gdt + 16) hi (by decide) rfl, descriptor_set 1 (gdt + 8) hi (by decide) rfl,
    descriptor_set 0 gdt hi (by decide) hfirst, cleared_descriptor (by bv_omega) (by decide)]
  interval_cases i <;> rfl

theorem initGdtAt_tss (h : 160 ≤ (tssEntry - gdt).toNat) (h' : 104 ≤ (gdt - tssEntry).toNat) :
    read16 (initGdtAt info tssEntry gdt m) (tssEntry + 8) = 0x10 ∧
    read32 (initGdtAt info tssEntry gdt m) (tssEntry + 4) = 0x0 := by
  rw [initGdtAt]
  constructor
  · rw [read16, loadSelectors_of_far initGdtLoads_lt (by bv_omega),
      loadSelectors_of_far initGdtLoads_lt (by bv_omega),
      ← read16, setTaskDescriptor, read16_write32_of_far _ _ (by bv_omega) (by bv_omega),
        read16_write32_same]
    rfl
  · rw [read32_congr fun k hk => loadSelectors_of_far initGdtLoads_lt (by bv_omega)]
    exact read32_write32_same ..

end

/-- No two of the three overlap. -/
structure Apart (t : Tables) : Prop where
  tss_gdt : 160 ≤ (t.tssEntry - t.gdt).toNat
  gdt_tss : 104 ≤ (t.gdt - t.tssEntry).toNat
  gdt_idt : 2048 ≤ (t.gdt - t.idt).toNat
  idt_gdt : 160 ≤ (t.idt - t.gdt).toNat
  tss_idt : 2048 ≤ (t.tssEntry - t.idt).toNat
  idt_tss : 104 ≤ (t.idt - t.tssEntry).toNat

/-- The bytes of the three. -/
def InTables (t : Tables) (x : U32int) : Prop :=
  (x - t.gdt).toNat < 160 ∨ (x - t.idt).toNat < 2048 ∨ (x - t.tssEntry).toNat < 104

/-- What the processor finds in memory, with `esp0` the kernel stack of the task. The marks are
left open: a load sets them, and nothing that is looked at depends on them. -/
structure Installed (info : SegmentsInfo) (symbols : StubSymbols) (t : Tables)
    (esp0 : U32int) (m : Memory) : Prop where
  gate : ∀ vector : U8int, idtEntryAt m (t.idt + 8 * vector.setWidth 32) =
    installedGate symbols vector
  descriptor : ∀ i < 20, (gdtEntryAt m (t.gdt + 8 * BitVec.ofNat 32 i)).unmarked =
    installedDescriptor info t.tssEntry i
  ss0 : read16 m (t.tssEntry + 8) = 0x10
  esp0 : read32 m (t.tssEntry + 4) = esp0

variable {info : SegmentsInfo} {t : Tables} {esp0 : U32int}

theorem installed_congr (h : Installed info symbols t esp0 m)
    (hm : ∀ x, InTables t x → m' x = m x) : Installed info symbols t esp0 m' where
  gate vector := (idtEntryAt_congr fun k hk => hm _ (.inr (.inl (by bv_omega)))).trans
    (h.gate vector)
  descriptor i hi := (congrArg _ (gdtEntryAt_congr fun k hk => hm _ (.inl (by bv_omega)))).trans
    (h.descriptor i hi)
  ss0 := by
    have h8 : m' (t.tssEntry + 8) = m (t.tssEntry + 8) := hm _ (.inr (.inr (by bv_omega)))
    have h9 : m' (t.tssEntry + 8 + 1) = m (t.tssEntry + 8 + 1) := hm _ (.inr (.inr (by bv_omega)))
    rw [read16, h9, h8]
    exact h.ss0
  esp0 := (read32_congr fun k hk => hm _ (.inr (.inr (by bv_omega)))).trans h.esp0

/-- From any memory. -/
theorem initDescriptorTablesAt_descriptor (h : Apart t) {i : Nat} (hi : i < 20) :
    gdtEntryAt (initDescriptorTablesAt info symbols t m) (t.gdt + 8 * BitVec.ofNat 32 i) =
      loadedDescriptor info t.tssEntry i := by
  have := h.gdt_idt
  have := h.idt_gdt
  exact (gdtEntryAt_congr fun k hk => initIdtAt_of_far (by bv_omega)).trans
    (initGdtAt_descriptor h.tss_gdt h.gdt_tss hi)

theorem initDescriptorTablesAt_installed (h : Apart t) (m : Memory) :
    Installed info symbols t 0 (initDescriptorTablesAt info symbols t m) where
  gate vector := initIdtAt_gate vector
  descriptor i hi := by
    rw [initDescriptorTablesAt_descriptor h hi, loadedDescriptor_eq info t.tssEntry hi]
    split_ifs
    · rw [marked_unmarked, installedDescriptor_unmarked info t.tssEntry hi]
    · exact installedDescriptor_unmarked info t.tssEntry hi
  ss0 := by
    have := h.tss_idt
    have := h.idt_tss
    rw [initDescriptorTablesAt, read16, initIdtAt_of_far (by bv_omega),
      initIdtAt_of_far (by bv_omega)]
    exact (initGdtAt_tss h.tss_gdt h.gdt_tss).1
  esp0 := by
    have := h.tss_idt
    have := h.idt_tss
    exact (read32_congr fun k hk => initIdtAt_of_far (by bv_omega)).trans
      (initGdtAt_tss h.tss_gdt h.gdt_tss).2

/-- A load is no change to what is looked at. -/
theorem installed_loadSelectors (h : Installed info symbols t esp0 m) (hapart : Apart t)
    {selectors : List (BitVec 16)} (hselectors : ∀ j ∈ selectors.map descriptorIndex, j < 20) :
    Installed info symbols t esp0 (loadSelectors t.gdt selectors m) where
  gate vector := by
    have := hapart.idt_gdt
    have := hapart.gdt_idt
    exact (idtEntryAt_congr fun k hk => loadSelectors_of_far hselectors (by bv_omega)).trans
      (h.gate vector)
  descriptor i hi := by
    rw [loadSelectors_descriptor hselectors hi]
    split_ifs
    · exact (marked_unmarked _).trans (h.descriptor i hi)
    · exact h.descriptor i hi
  ss0 := by
    have := hapart.tss_gdt
    have := hapart.gdt_tss
    rw [read16, loadSelectors_of_far hselectors (by bv_omega),
      loadSelectors_of_far hselectors (by bv_omega)]
    exact h.ss0
  esp0 := by
    have := hapart.tss_gdt
    have := hapart.gdt_tss
    exact (read32_congr fun k hk => loadSelectors_of_far hselectors (by bv_omega)).trans h.esp0

/-- Before a module is started. -/
theorem installed_setKernelStack (h : Installed info symbols t esp0 m) (hapart : Apart t)
    (stack : U32int) : Installed info symbols t stack (setKernelStackInTss t.tssEntry stack m) where
  gate vector := by
    have := hapart.tss_idt
    have := hapart.idt_tss
    exact (idtEntryAt_congr fun k hk => write32_of_far _ _ (by bv_omega)).trans (h.gate vector)
  descriptor i hi := by
    have := hapart.tss_gdt
    have := hapart.gdt_tss
    exact (congrArg _ (gdtEntryAt_write32 _ (by bv_omega) (by bv_omega))).trans (h.descriptor i hi)
  ss0 := by
    rw [setKernelStackInTss, read16_write32_of_far _ _ (by bv_omega) (by bv_omega)]
    exact h.ss0
  esp0 := read32_write32_same ..

end SimpleOs.Audit.InterruptTables
