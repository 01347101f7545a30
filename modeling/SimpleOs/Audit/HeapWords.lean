import SimpleOs.Audit.HeapGrowth
import SimpleOs.Audit.SlabHeap

/-!
# The heap of the running kernel

Static data are mapped to themselves, and the pages of the heap up to the break show free
pages that `sbrk` took for them. On these two ranges the kernel's loads, stores and `sbrk`
do what the machine of plain words does.
-/

namespace SimpleOs.Audit.HeapWords

open SimpleOs.Kernel SimpleOs.Lib SimpleOs.Lib.ByteMemory SimpleOs.Lib.WordProgram
open SimpleOs.Audit.PageTables SimpleOs.Audit.KernelAccess SimpleOs.Audit.PagingBoot
open SimpleOs.Audit.AddressSpace SimpleOs.Audit.PageSupply SimpleOs.Audit.Bookkeeping
open SimpleOs.Audit.LinearView SimpleOs.Audit.PageRuns SimpleOs.Audit.HeapBreak
open SimpleOs.Audit.CallFrame SimpleOs.Audit.HeapGrowth SimpleOs.Audit.SlabHeap
open SimpleOs.Lib.PackedBits (bit byteAt)

section

variable (s : State)

/-- Linear address of the heap. -/
def heapBase : U32int := s.heapStartRelVirtAddr + s.dataBase
def windowPages : Nat := s.heapSize.toNat / 4096
/-- The directory entries the heap comes under. -/
def heapTables : Finset U32int :=
  (Finset.range (windowPages s)).image fun k => tableIndex (linAt (heapBase s) (4096 * k))

/-- The pages up to the break. -/
def usedPages : Nat := (s.heapBrk.toNat - s.heapStartRelVirtAddr.toNat) / 4096

end

/-- The window of the heap is `b`, behind static data and the page tables. -/
structure HeapWindow (b : Bounds) (s : State) : Prop where
  start : s.heapStartRelVirtAddr.toNat = b.start
  limit : s.heapStartRelVirtAddr.toNat + s.heapSize.toNat = b.limit
  limit_lt : b.limit < 2^32
  start_aligned : b.start % 4096 = 0
  size_aligned : s.heapSize.toNat % 4096 = 0
  statics_end : b.statics ≤ s.memoryBitmap.codeBitmap.toNat
  behind : s.pageTablesRelVirtAddr.toNat + 0x400000 ≤ b.start
  inside : b.limit ≤ s.segmentsInfo.dataSegment.limit.toNat + 1

/-- A running kernel shows the words of `h`, the ones of the heap in linear memory `L`. -/
structure Shows (b : Bounds) (s : State) (t : TableMap) (a : Space)
    (L : Memory) (h : Heap) : Prop where
  window : HeapWindow b s
  view : View s t a (pagesFrom (heapBase s) (usedPages s)) L
  brk : s.heapBrk = h.brk
  brk_aligned : h.brk.toNat % 4096 = 0
  brk_above : b.start ≤ h.brk.toNat
  brk_below : h.brk.toNat ≤ b.limit
  room : need (heapTables s) a + h.room ≤ (dataFree s).length
  statics : ∀ p : U32int, p.toNat % 4 = 0 → p.toNat + 4 ≤ b.statics → read32 s.data p = h.words p
  heap : ∀ p : U32int, p.toNat % 4 = 0 → b.start ≤ p.toNat → p.toNat + 4 ≤ h.brk.toNat →
    read32 L (p + s.dataBase) = h.words p

section

variable {b : Bounds} {s s' : State} {t : TableMap} {a : Space} {L L' : Memory} {h h' : Heap}
  {p v n x : U32int} {V : Set U32int} {k : Nat}

theorem HeapWindow.withData (hw : HeapWindow b s) (m : Memory) : HeapWindow b (s.withData m) :=
  ⟨hw.start, hw.limit, hw.limit_lt, hw.start_aligned, hw.size_aligned,
    hw.statics_end, hw.behind, hw.inside⟩

theorem Shows.heapBase_aligned (hw : Shows b s t a L h) : (heapBase s).toNat % 4096 = 0 := by
  have hs := hw.window.start
  have ha := hw.window.start_aligned
  have hd := hw.view.ready.holds.tables.base_aligned
  rw [heapBase, BitVec.toNat_add]
  omega

theorem Shows.usedPages_eq (hw : Shows b s t a L h) :
    b.start + 4096 * usedPages s = h.brk.toNat := by
  have hs := hw.window.start
  have ha := hw.window.start_aligned
  have hb := congrArg BitVec.toNat hw.brk
  have hba := hw.brk_aligned
  have habove := hw.brk_above
  rw [usedPages]
  omega

/-- A byte of the heap lies in one of its pages. -/
theorem Shows.page_mem (hw : Shows b s t a L h) (hlow : b.start ≤ p.toNat)
    (hhigh : p.toNat < h.brk.toNat) :
    p ≤ s.segmentsInfo.dataSegment.limit ∧
    (p + s.dataBase) / pageSize ∈ pagesFrom (heapBase s) (usedPages s) := by
  have hs := hw.window.start
  have hused := hw.usedPages_eq
  have hbelow := hw.brk_below
  have hin := hw.window.inside
  have hlt := h.brk.isLt
  refine ⟨?_, (mem_pagesFrom hw.heapBase_aligned (by omega)).mpr ?_⟩
  · rw [BitVec.le_def]
    omega
  · rw [heapBase, add_sub_add_right_eq_sub, BitVec.toNat_sub]
    omega

/-- Static data are below both bitmaps. -/
theorem Shows.static_low (hw : Shows b s t a L h) (hp : p.toNat < b.statics) :
    p.toNat < s.memoryBitmap.codeBitmap.toNat ∧ p.toNat < s.memoryBitmap.dataBitmap.toNat ∧
      p.toNat < s.kernelPageDirectory.toNat := by
  have hend := hw.window.statics_end
  have hcode := hw.view.ready.supply.bitmap_end
  have hdata := hw.view.ready.holds.tables.bitmap_end
  omega

/-- Where a byte of the pages is does not depend on what they hold. -/
theorem View.address (h : View s t a V L) (hlim : p ≤ s.segmentsInfo.dataSegment.limit)
    (hV : (p + s.dataBase) / pageSize ∈ V) :
    ∃ c, a.bindings ((p + s.dataBase) / pageSize) = some c ∧
      Private s t c.frame ∧ c.frame.toNat < 2^20 ∧
          s.dataAddr p = .ok (inFrame c.frame (p + s.dataBase)) := by
  obtain ⟨c, hc, hprivate, hlt, htr, -⟩ := h.resolves hV
  refine ⟨c, hc, hprivate, hlt, ?_⟩
  rw [State.dataAddr, State.segAddr, if_pos hlim]
  exact htr

/-- A byte stored in the pages leaves kernel data alone. -/
theorem View.store_byte (h : View s t a V L) (hlim : p ≤ s.segmentsInfo.dataSegment.limit)
    (hV : (p + s.dataBase) / pageSize ∈ V) (v : U8int) : ∃ y, s.dataAddr p = .ok y ∧
      Stored s t a V (write8 L (p + s.dataBase) v) (s.withMemory (write8 s.memory y v)) ∧
      ∀ q : U32int, q.toNat < s.kernelPageDirectory.toNat + 8192 →
        (s.withMemory (write8 s.memory y v)).data q = s.data q := by
  obtain ⟨y, hy, hst⟩ := h.store hlim hV v
  obtain ⟨c, -, hprivate, hlt, haddr⟩ := View.address h hlim hV
  refine ⟨y, hy, hst, fun q hq => ?_⟩
  have hyc : y = inFrame c.frame (p + s.dataBase) := Except.ok.inj (hy.symm.trans haddr)
  refine write8_of_ne _ _ fun he => hprivate.kernel q hq ?_
  change q + s.dataBase = y at he
  rw [he, hyc, inFrame_page hlt]

theorem Stored.dataAddr (h : View s t a V L) (hst : Stored s t a V L' s')
    (hlim : p ≤ s.segmentsInfo.dataSegment.limit) (hV : (p + s.dataBase) / pageSize ∈ V) :
    s'.dataAddr p = s.dataAddr p := by
  have hinfo : s'.segmentsInfo = s.segmentsInfo := by rw [hst.only_data]; rfl
  have hbase : s'.dataBase = s.dataBase := by rw [State.dataBase, hinfo, State.dataBase]
  obtain ⟨c, hc, -, -, haddr⟩ := View.address h hlim hV
  obtain ⟨c', hc', -, -, haddr'⟩ :=
    View.address hst.view (by rw [hinfo]; exact hlim) (by rw [hbase]; exact hV)
  rw [hbase] at hc' haddr'
  obtain rfl := Option.some.inj (hc.symm.trans hc')
  rw [haddr, haddr']

/-- Bytes of a word in the pages. -/
def WordIn (s : State) (V : Set U32int) (p : U32int) : Prop :=
  ∀ k : U32int, k.toNat < 4 → p + k ≤ s.segmentsInfo.dataSegment.limit ∧
    (p + k + s.dataBase) / pageSize ∈ V

theorem View.load_word (h : View s t a V L) (hp : WordIn s V p) :
    s.load32 p = .ok (read32 L (p + s.dataBase)) := by
  have hbyte : ∀ k : U32int, k.toNat < 4 →
      ∃ y, s.dataAddr (p + k) = .ok y ∧ s.memory y = L (p + s.dataBase + k) := by
    intro k hk
    obtain ⟨hlim, hV⟩ := hp k hk
    obtain ⟨c, hc, -, -, haddr⟩ := View.address h hlim hV
    refine ⟨_, haddr, ?_⟩
    rw [h.bytes _ hV c hc, add_right_comm]
  obtain ⟨y0, h0, hv0⟩ := hbyte 0 (by decide)
  obtain ⟨y1, h1, hv1⟩ := hbyte 1 (by decide)
  obtain ⟨y2, h2, hv2⟩ := hbyte 2 (by decide)
  obtain ⟨y3, h3, hv3⟩ := hbyte 3 (by decide)
  rw [add_zero] at h0 hv0
  simp only [State.load32, h0, h1, h2, h3, ok_bind, pure_ok, hv0, hv1, hv2, hv3, read32]

theorem View.store_word (h : View s t a V L) (hp : WordIn s V p) (v : U32int) :
    ∃ s', s.store32 p v = .ok s' ∧ Stored s t a V (write32 L (p + s.dataBase) v) s' ∧
      ∀ q : U32int, q.toNat < s.kernelPageDirectory.toNat + 8192 → s'.data q = s.data q := by
  -- one byte more on a state with the first ones stored
  have hnext : ∀ (k : U32int), k.toNat < 4 → ∀ {s1 : State} {L1 : Memory} (c : U8int),
      Stored s t a V L1 s1 → ∃ y, s.dataAddr (p + k) = .ok y ∧
        Stored s t a V (write8 L1 (p + s.dataBase + k) c) (s1.withMemory (write8 s1.memory y c)) ∧
        ∀ q : U32int, q.toNat < s.kernelPageDirectory.toNat + 8192 →
          (s1.withMemory (write8 s1.memory y c)).data q = s1.data q := by
    intro k hk s1 L1 c hst
    obtain ⟨hlim, hV⟩ := hp k hk
    have hsame := Stored.dataAddr h hst hlim hV
    have honly := hst.only_data
    have hinfo : s1.segmentsInfo = s.segmentsInfo := by rw [honly]; rfl
    have hdir : s1.kernelPageDirectory = s.kernelPageDirectory := by rw [honly]; rfl
    have hbase : s1.dataBase = s.dataBase := by rw [State.dataBase, hinfo, State.dataBase]
    obtain ⟨y, hy, hst1, hkept⟩ :=
      View.store_byte hst.view (by rw [hinfo]; exact hlim) (by rw [hbase]; exact hV) c
    rw [hbase, add_right_comm] at hst1
    rw [hdir] at hkept
    exact ⟨y, hsame ▸ hy, hst.trans hst1, hkept⟩
  obtain ⟨y0, h0, hst0, hk0⟩ := hnext 0 (by decide) (v.extractLsb' 0 8) h.stored
  obtain ⟨y1, h1, hst1, hk1⟩ := hnext 1 (by decide) (v.extractLsb' 8 8) hst0
  obtain ⟨y2, h2, hst2, hk2⟩ := hnext 2 (by decide) (v.extractLsb' 16 8) hst1
  obtain ⟨y3, h3, hst3, hk3⟩ := hnext 3 (by decide) (v.extractLsb' 24 8) hst2
  rw [add_zero] at h0
  refine ⟨_, ?_, ?_, fun q hq => (hk3 q hq).trans ((hk2 q hq).trans ((hk1 q hq).trans (hk0 q hq)))⟩
  · simp only [State.store32, h0, h1, h2, h3, ok_bind, pure_ok]
    rfl
  · rw [add_zero] at hst3
    rw [write32_eq_write8]
    exact hst3

/-- Below the bitmaps kernel data may change. -/
theorem View.withStatics (h : View s t a V L) {m : Memory}
    (hm : ∀ y : U32int, s.memoryBitmap.codeBitmap.toNat ≤ y.toNat → m y = s.data y) :
    View (s.withData m) t a V L ∧ dataFree (s.withData m) = dataFree s := by
  have hcend := h.ready.supply.bitmap_end
  have hdend := h.ready.holds.tables.bitmap_end
  have hlen := segmentPages_le s
  have hbits : ∀ {bitmap : U32int} {n : Nat}, s.memoryBitmap.codeBitmap.toNat ≤ bitmap.toNat →
      bitmap.toNat + (n + 7) / 8 ≤ s.kernelPageDirectory.toNat → ∀ i < n,
          bit m bitmap i = bit s.data bitmap i := by
    intro bitmap n hlow hend i hi
    have hbyte : (byteAt bitmap i).toNat = bitmap.toNat + i / 8 := by
      rw [byteAt]
      bv_omega
    exact congrArg (BitVec.getLsbD · (i % 8)) (hm _ (by omega))
  have hdata : dataFree (s.withData m) = dataFree s := by
    rw [dataFree, State.withData_data]
    exact PackedBits.freeList_congr fun i hi => hbits (by omega) hdend i hi
  have hcode : codeFree (s.withData m) = codeFree s := by
    rw [codeFree, State.withData_data]
    exact PackedBits.freeList_congr fun i hi =>
      hbits le_rfl (by change _ + (codePages s + 7) / 8 ≤ _; omega) i hi
  have hready : Ready (s.withData m) t a :=
    ⟨holds_belowDir h.ready.holds (fun x hx => hm x (by omega)) fun i hi hb =>
      (hbits (by omega) hdend i hi).trans hb, h.ready.supply.withData m, h.ready.reach⟩
  refine ⟨h.keep hready (by rw [State.withData_data]) (fun y hy => ?_) fun f hf => ?_, hdata⟩
  · rw [State.withData_data]
    refine hm y (Nat.le_of_not_lt fun hlt => hy (.inl ?_))
    omega
  · exact ⟨⟨hf.table, fun k hk => hf.data k (hdata ▸ hk), fun k hk => hf.code k (hcode ▸ hk)⟩,
      hf.kernel⟩

theorem Shows.word_in (hw : Shows b s t a L h) (hlow : b.start ≤ p.toNat)
    (hhigh : p.toNat + 4 ≤ h.brk.toNat) : WordIn s (pagesFrom (heapBase s) (usedPages s)) p := by
  intro k hk
  have hlt := h.brk.isLt
  have hn : (p + k).toNat = p.toNat + k.toNat := by
    rw [BitVec.toNat_add, Nat.mod_eq_of_lt (by omega)]
  exact hw.page_mem (by omega) (by omega)

theorem Shows.static_resolves (hw : Shows b s t a L h) (hp : p.toNat + 4 ≤ b.statics) :
    s.ResolvesTo p (p + s.dataBase) 4 := by
  have hr := hw.view.ready
  obtain ⟨-, -, hdir⟩ := hw.static_low (p := p) (by omega)
  have hcode := hr.supply.bitmap_end
  have hdata := hr.holds.tables.bitmap_end
  have hend := hw.window.statics_end
  exact kernel_resolves hr.holds.tables.toWalks (hr.holds.live hr.reach).toKernelMapped (by omega)

theorem Shows.load (hw : Shows b s t a L h) (hp : Reaches b h p) :
    s.load32 p = .ok (h.words p) := by
  obtain ⟨h4, hstatic | ⟨hlow, hhigh⟩⟩ := hp
  · rw [State.load32_data (hw.static_resolves hstatic), hw.statics p h4 hstatic]
  · rw [View.load_word hw.view (hw.word_in hlow hhigh), hw.heap p h4 hlow hhigh]

/-- Words at different multiples of four do not meet. -/
theorem read32_write32_words {m : Memory} (base : U32int) {q : U32int} (hp : p.toNat % 4 = 0)
    (hq : q.toNat % 4 = 0) (hne : q ≠ p) :
    read32 (write32 m (p + base) v) (q + base) = read32 m (q + base) := by
  refine read32_congr fun k hk => write32_of_far m v ?_
  rw [add_right_comm, add_sub_add_right_eq_sub]
  bv_omega

/-- A store to static data. -/
theorem Shows.store_static (hw : Shows b s t a L h) (h4 : p.toNat % 4 = 0)
    (hp : p.toNat + 4 ≤ b.statics) (v : U32int) :
    ∃ s', s.store32 p v = .ok s' ∧ Shows b s' t a L (h.set p v) := by
  have hend := hw.window.statics_end
  have hle := b.statics_le
  obtain ⟨hview, hfree⟩ := View.withStatics hw.view (m := write32 s.data p v) fun y hy =>
    write32_of_far _ _ (by bv_omega)
  refine ⟨_, State.store32_data (hw.static_resolves hp) v, hw.window.withData _,
    hview, hw.brk, hw.brk_aligned,
    hw.brk_above, hw.brk_below, hfree.symm ▸ hw.room, fun q hq4 hq => ?_,
      fun q hq4 hlow hhigh => ?_⟩
  · rw [State.withData_data]
    by_cases hqp : q = p
    · rw [hqp, read32_write32_same, Heap.set_same]
    · have hsame := read32_write32_words (m := s.data) (v := v) 0 h4 hq4 hqp
      rw [add_zero, add_zero] at hsame
      rw [hsame, Heap.set_of_ne hqp, hw.statics q hq4 hq]
  · have hqp : q ≠ p := fun he => by
      rw [he] at hlow
      omega
    rw [Heap.set_of_ne hqp]
    exact hw.heap q hq4 hlow hhigh

/-- A store to the heap. -/
theorem Shows.store_heap (hw : Shows b s t a L h) (h4 : p.toNat % 4 = 0) (hlow : b.start ≤ p.toNat)
    (hhigh : p.toNat + 4 ≤ h.brk.toNat) (v : U32int) :
    ∃ s', s.store32 p v = .ok s' ∧ Shows b s' t a (write32 L (p + s.dataBase) v) (h.set p v) := by
  obtain ⟨s', hstore, hst, hkept⟩ := View.store_word hw.view (hw.word_in hlow hhigh) v
  obtain ⟨m, rfl⟩ : ∃ m, s' = s.withData m := ⟨_, hst.only_data⟩
  have hle := b.statics_le
  refine ⟨_, hstore, hw.window.withData m, hst.view, hw.brk, hw.brk_aligned, hw.brk_above,
    hw.brk_below, hst.dataFree.symm ▸ hw.room, fun q hq4 hq => ?_, fun q hq4 hqlow hqhigh => ?_⟩
  · have hcode := hw.view.ready.supply.bitmap_end
    have hdata := hw.view.ready.holds.tables.bitmap_end
    have hend := hw.window.statics_end
    have hqp : q ≠ p := fun he => by
      rw [he] at hq
      omega
    rw [Heap.set_of_ne hqp, ← hw.statics q hq4 hq]
    exact read32_congr fun k hk => hkept _ (by bv_omega)
  · change read32 _ (q + s.dataBase) = _
    by_cases hqp : q = p
    · rw [hqp, read32_write32_same, Heap.set_same]
    · rw [read32_write32_words _ h4 hq4 hqp, Heap.set_of_ne hqp, hw.heap q hq4 hqlow hqhigh]

theorem Shows.store (hw : Shows b s t a L h) (hp : Reaches b h p) (v : U32int) :
    ∃ s' L', s.store32 p v = .ok s' ∧ Shows b s' t a L' (h.set p v) := by
  obtain ⟨h4, hstatic | ⟨hlow, hhigh⟩⟩ := hp
  · obtain ⟨s', hs⟩ := hw.store_static h4 hstatic v
    exact ⟨s', L, hs⟩
  · obtain ⟨s', hs⟩ := hw.store_heap h4 hlow hhigh v
    exact ⟨s', _, hs⟩

theorem Shows.brk_linear (hw : Shows b s t a L h) :
    heapLin s = linAt (heapBase s) (4096 * usedPages s) := by
  have hused := hw.usedPages_eq
  have hs := hw.window.start
  have hb := congrArg BitVec.toNat hw.brk
  have hlt := h.brk.isLt
  rw [heapLin, heapBase, ← linAt_base]
  congr 1
  apply BitVec.eq_of_toNat_eq
  rw [linAt, BitVec.toNat_add, BitVec.toNat_ofNat]
  omega

/-- Page `k` behind the break. -/
theorem Shows.new_page (hw : Shows b s t a L h) (k : Nat) :
    linAt (heapLin s) (4096 * k) = linAt (heapBase s) (4096 * (usedPages s + k)) := by
  rw [hw.brk_linear, linAt, linAt, linAt, Nat.mul_add, BitVec.ofNat_add, add_assoc]

/-- What is left of the window, in pages. -/
theorem Shows.pages_left (hw : Shows b s t a L h) (hg : Grows b h n) :
    usedPages s + heapPages n < windowPages s := by
  obtain ⟨hn, -, hlt⟩ := hg
  have hused := hw.usedPages_eq
  have hs := hw.window.start
  have hl := hw.window.limit
  have hsize := hw.window.size_aligned
  rw [heapPages, windowPages]
  omega

theorem Shows.spans (hw : Shows b s t a L h) (hg : Grows b h n) : heapSpans s n ⊆ heapTables s := by
  intro i hi
  obtain ⟨k, hk, rfl⟩ := Finset.mem_image.mp hi
  have hleft := hw.pages_left hg
  have hkn := Finset.mem_range.mp hk
  rw [hw.new_page]
  exact Finset.mem_image_of_mem _ (Finset.mem_range.mpr (by omega))

theorem Shows.growable (hw : Shows b s t a L h) (hg : Grows b h n) : Growable s t a n := by
  have hspans := hw.spans hg
  obtain ⟨hn, hroom, hlt⟩ := hg
  have hb := congrArg BitVec.toNat hw.brk
  have habove := hw.brk_above
  have hbelow := hw.window.limit_lt
  have hs := hw.window.start
  have hl := hw.window.limit
  have hbehind := hw.window.behind
  have hinside := hw.window.inside
  have haligned := hw.brk_aligned
  have hneed : need (heapSpans s n) a ≤ need (heapTables s) a :=
    Finset.card_le_card (Finset.sdiff_subset_sdiff hspans (Finset.Subset.refl _))
  have hsupply := hw.room
  refine ⟨hw.view.ready, hw.view.apart, hw.view.on, hn, by omega, by omega, by omega,
    ?_, fun k hk => by omega, ?_⟩
  · rw [BitVec.lt_def, BitVec.toNat_add, BitVec.toNat_add]
    omega
  · rw [heapPages]
    omega

/-- After `k` rounds of `sbrk`. -/
structure Extended (s : State) (a : Space) (L : Memory) (r k : Nat) (s' : State) (t' : TableMap)
    (a' : Space) (L' : Memory) : Prop where
  only_data : s' = s.withData s'.data
  view : View s' t' a' (pagesFrom (heapBase s) (usedPages s + k)) L'
  window : a'.window = a.window
  supply : need (heapTables s) a' + (r - k) ≤ (dataFree s').length
  kept : ∀ lin, lin / pageSize ∈ pagesFrom (heapBase s) (usedPages s) → L' lin = L lin
  low : LowKept s s'

theorem Extended.step (hw : Shows b s t a L h) (hg : Grows b h n) {t' : TableMap} {a' : Space}
    (he : Extended s a L h.room k s' t' a' L') (hk : k < heapPages n) : ∃ s'' t'' a'' L'',
      State.sbrkPage (linAt s.heapBrk (4096 * k)) s' = .ok s'' ∧
          Extended s a L h.room (k + 1) s'' t'' a'' L'' := by
  have hgrow := hw.growable hg
  have hleft := hw.pages_left hg
  have hpages : heapPages n ≤ h.room := hg.2.1
  have hwindow : windowPages s < 2^20 := by
    have := s.heapSize.isLt
    rw [windowPages]
    omega
  have hsupply := he.supply
  have hbase : s'.dataBase = s.dataBase := by rw [he.only_data]; rfl
  obtain ⟨f, rest, hfree⟩ : ∃ f rest, dataFree s' = f :: rest :=
    List.exists_cons_of_length_pos (by omega)
  have hlin : linAt s.heapBrk (4096 * k) + s'.dataBase = linAt (heapBase s)
      (4096 * (usedPages s + k)) := by
    rw [hbase, linAt_base, ← hw.new_page]
    rfl
  have hnew : linAt (heapBase s) (4096 * (usedPages s + k)) / pageSize ∉
      pagesFrom (heapBase s) (usedPages s + k) :=
    not_mem_pagesFrom hw.heapBase_aligned (by omega)
  have hspan : tableIndex (linAt (heapBase s) (4096 * (usedPages s + k))) ∈ heapTables s :=
    Finset.mem_image_of_mem _ (Finset.mem_range.mpr (by omega))
  have hout : Outside a' (linAt (heapBase s) (4096 * (usedPages s + k))) := by
    rw [Outside, he.window, ← hw.new_page]
    exact hgrow.outside hk
  have hspares : SparesKernel s' (linAt (heapBase s) (4096 * (usedPages s + k)))
      (frameOf s'.dataBase f) := by
    rw [he.only_data, ← hw.new_page]
    exact hgrow.spares hk _
  obtain ⟨s1, s'', t'', halloc, hnull, hinfo, hmap, hadded, hneed, -, -, -⟩ :=
    he.view.mapData (v := linAt s.heapBrk (4096 * k)) (r := h.room - (k + 1))
      (I := heapTables s) true false hfree
      (by rw [hlin]; exact hspan) (by omega) (by rw [hlin]; exact hnew) (by rw [hlin]; exact hout)
      (by rw [hlin]; exact hspares)
  have hlow : LowKept s' s'' := by
    refine low_of_mapData he.view.ready hfree (fun hcov hnil => ?_) halloc hmap
    rw [hinfo] at hcov
    have hpos := need_pos hspan (hlin ▸ hcov)
    rw [hfree, hnil, List.length_singleton] at hsupply
    omega
  rw [hlin] at hadded hneed
  have hview := hadded.view
  rw [← pagesFrom_succ] at hview
  refine ⟨s'', t'', _, _, ?_, ?_, hview, he.window, hneed, fun lin hV => ?_,
    he.low.trans he.only_data hlow⟩
  · rw [State.sbrkPage, bind_of_ok halloc]
    exact (bind_of_ok (assert_ne_null hnull) _).trans hmap
  · rw [hadded.only_data, he.only_data, State.withData_data, State.withData_withData]
  · rw [shown, if_neg fun he => ?_, ← he.kept lin hV]
    have hold := (mem_pagesFrom hw.heapBase_aligned (by omega)).mp hV
    have hpage := (page_eq_iff_sub hw.heapBase_aligned (by omega)).mp he
    omega

/-- The loop of `sbrk` comes back with the new pages behind the old ones. -/
theorem Shows.extend (hw : Shows b s t a L h) (hg : Grows b h n) : ∃ s' t' a' L',
    s.forLoop (· < s.heapBrk + n) pageSize s.heapBrk State.sbrkPage = .ok s' ∧
      Extended s a L h.room (heapPages n) s' t' a' L' := by
  have hgrow := hw.growable hg
  obtain ⟨hinc, hpages⟩ := heapPages_le hgrow
  have hwrap := hgrow.no_wrap
  have hbrk := hgrow.brk_aligned
  have hend : (s.heapBrk + n).toNat = s.heapBrk.toNat + n.toNat := by
    rw [BitVec.toNat_add, Nat.mod_eq_of_lt hwrap]
  obtain ⟨s', hrun, t', a', L', hext⟩ := Loops.foldlM_range_ok
    (P := fun k s' => ∃ t' a' L', Extended s a L h.room k s' t' a' L')
    (fun k hk s' hs' => by
      obtain ⟨t', a', L', he⟩ := hs'
      obtain ⟨s'', t'', a'', L'', hcall, hnext⟩ := he.step hw hg hk
      exact ⟨s'', hcall, t'', a'', L'', hnext⟩)
    ⟨t, a, L, (State.withData_self s).symm, hw.view, rfl, hw.room, fun _ _ => rfl, fun _ _ _ => rfl⟩
  refine ⟨s', t', a', L', ?_, hext⟩
  rw [pageLoop_eq (n := heapPages n) (by omega) (fun k hk => by rw [hend]; omega)]
  exact hrun

/-- A byte of the pages in use, or of the ones behind them. -/
theorem Shows.page_new (hw : Shows b s t a L h) (hg : Grows b h n) (hlow : b.start ≤ p.toNat)
    (hhigh : p.toNat < h.brk.toNat + n.toNat) : p ≤ s.segmentsInfo.dataSegment.limit ∧
      (p + s.dataBase) / pageSize ∈ pagesFrom (heapBase s) (usedPages s + heapPages n) := by
  have hleft := hw.pages_left hg
  obtain ⟨hn, -, hlt⟩ := hg
  have hused := hw.usedPages_eq
  have hs := hw.window.start
  have hin := hw.window.inside
  have hlim := hw.window.limit_lt
  have hpages : heapPages n = n.toNat / 4096 := rfl
  refine ⟨?_, (mem_pagesFrom hw.heapBase_aligned (by omega)).mpr ?_⟩
  · rw [BitVec.le_def]
    omega
  · rw [heapBase, add_sub_add_right_eq_sub, BitVec.toNat_sub]
    omega

/-- The call moves the break and clears the new pages; static data stay. -/
theorem Shows.sbrk_call (hw : Shows b s t a L h) (hg : Grows b h n) : ∃ t' a' L' m,
    s.sbrk n = .ok (h.brk, (moved s n).withData m) ∧
      View ((moved s n).withData m) t' a' (pagesFrom (heapBase s) (usedPages s + heapPages n))
        (fill L' (heapLin s) n.toNat 0) ∧
      need (heapTables s) a' + (h.room - heapPages n) ≤ (dataFree ((moved s n).withData m)).length ∧
      (∀ lin, lin / pageSize ∈ pagesFrom (heapBase s) (usedPages s) → L' lin = L lin) ∧
      ∀ q : U32int, q.toNat < s.memoryBitmap.codeBitmap.toNat → m q = s.data q := by
  obtain ⟨s1, t1, a1, L1, hrun, he⟩ := hw.extend hg
  have hgrow := hw.growable hg
  have hb := congrArg BitVec.toNat hw.brk
  have habove := hw.brk_above
  have hlim := hw.window.limit_lt
  have hbase : s1.dataBase = s.dataBase := by rw [he.only_data]; rfl
  have hinfo : s1.segmentsInfo = s.segmentsInfo := by rw [he.only_data]; rfl
  have hdir : s1.kernelPageDirectory = s.kernelPageDirectory := by rw [he.only_data]; rfl
  have hview : View (moved s1 n) t1 a1 (pagesFrom (heapBase s) (usedPages s + heapPages n)) L1 :=
    View.setHeap _ _ _ he.view
  have hrange : ∀ k : U32int, k.toNat < n.toNat →
      s.heapBrk + k ≤ (moved s1 n).segmentsInfo.dataSegment.limit ∧
      (s.heapBrk + k + (moved s1 n).dataBase) / pageSize ∈ pagesFrom (heapBase s)
          (usedPages s + heapPages n) := by
    intro k hk
    have hwrap := hgrow.no_wrap
    have hsum : (s.heapBrk + k).toNat = s.heapBrk.toNat + k.toNat := by
      rw [BitVec.toNat_add, Nat.mod_eq_of_lt (by omega)]
    change s.heapBrk + k ≤ s1.segmentsInfo.dataSegment.limit ∧
      (s.heapBrk + k + s1.dataBase) / pageSize ∈ _
    rw [hinfo, hbase]
    exact hw.page_new hg (by omega) (by omega)
  obtain ⟨s', hset, hst⟩ := hview.memset 0x0 n.isLt.le hrange
  have hmoved : moved s1 n = (moved s n).withData s1.data := by
    conv_lhs => rw [he.only_data]
    rfl
  obtain ⟨m, rfl⟩ : ∃ m, s' = (moved s n).withData m :=
    ⟨s'.data, by conv_lhs => rw [hst.only_data, hmoved, State.withData_withData]⟩
  have hlin : heapLin s = s.heapBrk + (moved s1 n).dataBase := by
    rw [heapLin, ← hbase]
    rfl
  refine ⟨t1, a1, L1, m, ?_, ?_, ?_, he.kept, fun q hq => ?_⟩
  · rw [sbrk_eq s n hgrow, bind_of_ok hrun, bind_of_ok hset, hw.brk]
  · rw [hlin]
    exact hst.view
  · rw [hst.dataFree]
    exact he.supply
  · have hcode := hw.view.ready.supply.bitmap_end
    have hdata := hw.view.ready.holds.tables.bitmap_end
    have hloop : s1.data q = s.data q := he.low q (by omega) (by bv_omega)
    have hclear : ((moved s n).withData m).memory (q + s.dataBase) =
        s1.memory (q + s.dataBase) := by
      refine hview.memset_frame 0x0 (fun r hr c hc hframe => ?_) n.isLt.le hrange hset
      obtain ⟨d, hd, hprivate⟩ := hview.bound r hr
      obtain rfl := Option.some.inj (hd.symm.trans hc)
      refine hprivate.kernel q ?_ ?_
      · change q.toNat < s1.kernelPageDirectory.toNat + 8192
        rw [hdir]
        omega
      · change d.frame = (q + s1.dataBase) / pageSize
        rw [hbase]
        exact hframe.symm
    have hq' : ((moved s n).withData m).data q = m q := by rw [State.withData_data]
    rw [← hloop, ← hq']
    change ((moved s n).withData m).memory (q + s.dataBase) = s1.memory (q + s1.dataBase)
    rw [hclear, hbase]

theorem Shows.sbrk (hw : Shows b s t a L h) (hg : Grows b h n) : ∃ s' t' a' L',
    s.sbrk n = .ok (h.brk, s') ∧ Shows b s' t' a' L' (h.grown n) := by
  obtain ⟨t', a', L', m, hcall, hview, hsupply, hkept, hstatic⟩ := hw.sbrk_call hg
  obtain ⟨hn, hroom, hlt⟩ := hg
  have hused := hw.usedPages_eq
  have hs := hw.window.start
  have hlim := hw.window.limit_lt
  have hb := congrArg BitVec.toNat hw.brk
  have habove := hw.brk_above
  have hba := hw.brk_aligned
  have hbrk : (h.grown n).brk.toNat = h.brk.toNat + n.toNat := by
    change (h.brk + n).toNat = _
    rw [BitVec.toNat_add, Nat.mod_eq_of_lt (by omega)]
  have hpages : usedPages ((moved s n).withData m) = usedPages s + heapPages n := by
    change ((s.heapBrk + n).toNat - s.heapStartRelVirtAddr.toNat) / 4096 =
      usedPages s + n.toNat / 4096
    rw [BitVec.toNat_add, Nat.mod_eq_of_lt (by omega)]
    omega
  refine ⟨_, t', a', fill L' (heapLin s) n.toNat 0, hcall,
    ⟨hw.window.start, hw.window.limit, hw.window.limit_lt,
    hw.window.start_aligned, hw.window.size_aligned, hw.window.statics_end, hw.window.behind,
      hw.window.inside⟩, ?_, ?_,
    by omega, by omega, by omega, hsupply, fun p hp4 hp => ?_, fun p hp4 hlow hhigh => ?_⟩
  · rw [hpages]
    exact hview
  · change s.heapBrk + n = h.brk + n
    rw [hw.brk]
  · have hend := hw.window.statics_end
    have hle := b.statics_le
    have hbelow : p.toNat < h.brk.toNat := by omega
    rw [Heap.grown_below hbelow, ← hw.statics p hp4 hp, State.withData_data]
    exact read32_congr fun k hk => hstatic _ (by bv_omega)
  · change read32 (fill L' (heapLin s) n.toNat 0) (p + s.dataBase) = _
    have hoff : p + s.dataBase - heapLin s = p - s.heapBrk := by
      rw [heapLin, add_sub_add_right_eq_sub]
    by_cases hold : p.toNat < h.brk.toNat
    · rw [Heap.grown_below hold, read32_fill_outside]
      · rw [← hw.heap p hp4 hlow (by omega)]
        refine read32_congr fun k hk => hkept _ ?_
        have hin := (hw.word_in hlow (by omega) k hk).2
        rwa [add_right_comm] at hin
      · rw [hoff, BitVec.toNat_sub]
        omega
      · rw [hoff, BitVec.toNat_sub]
        omega
    · rw [Heap.grown_inside (Nat.le_of_not_lt hold)
        (by rw [BitVec.lt_def]; change p.toNat < (h.grown n).brk.toNat; omega)]
      refine read32_fill_inside _ ?_ n.isLt.le
      rw [hoff, BitVec.toNat_sub]
      omega

/-- The words of `h`, somewhere in a running kernel. -/
def Carries (b : Bounds) (s : State) (h : Heap) : Prop := ∃ t a L, Shows b s t a L h

/-- A guarded step that comes back. -/
theorem guard_ok {α : Type} {c : Prop} [Decidable c] {r r' : α} {e : Trap}
    (hr : (if c then Except.ok r else .error e : Except Trap α) = .ok r') : c ∧ r = r' := by
  split_ifs at hr with hc
  · exact ⟨hc, Except.ok.inj hr⟩

/-- What the machine of words does, the kernel does with its loads, its stores and `sbrk`. -/
theorem kernel_refines (b : Bounds) : Refines kernelMachine (heapMachine b) (Carries b) where
  load := fun ⟨t, a, L, hw⟩ hload => by
    obtain ⟨hp, rfl⟩ := guard_ok hload
    exact hw.load hp
  store := fun ⟨t, a, L, hw⟩ hstore => by
    obtain ⟨hp, rfl⟩ := guard_ok hstore
    obtain ⟨s', L', hs', hw'⟩ := hw.store hp _
    exact ⟨s', hs', t, a, L', hw'⟩
  grow := fun ⟨t, a, L, hw⟩ hgrow => by
    obtain ⟨hn, he⟩ := guard_ok hgrow
    obtain ⟨rfl, rfl⟩ := Prod.mk.inj he
    obtain ⟨s', t', a', L', hs', hw'⟩ := hw.sbrk hn
    exact ⟨s', hs', t', a', L', hw'⟩

end

end SimpleOs.Audit.HeapWords
