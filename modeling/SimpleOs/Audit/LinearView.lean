import SimpleOs.Audit.Bookkeeping
import SimpleOs.Lib.Scatter

/-!
# Memory as the mapped pages show it

A frame that no allocation returns, that holds no table and no kernel data is private
to the page mapped to it. On a set of pages with private frames of their own, loads
and stores work on linear memory, whatever the tables look like.
-/

namespace SimpleOs.Audit.LinearView

open SimpleOs.Kernel SimpleOs.Lib SimpleOs.Lib.ByteMemory SimpleOs.Audit.PageTables
open SimpleOs.Audit.KernelAccess SimpleOs.Audit.MapCalls SimpleOs.Audit.PagingBoot
open SimpleOs.Audit.AddressSpace SimpleOs.Audit.PageSupply SimpleOs.Audit.Bookkeeping

/-- Frame number of page `k` of the segment at `base`. -/
def frameOf (base : U32int) (k : Nat) : U32int := (pageAt k + base) / pageSize

def codeBase (s : State) : U32int := s.segmentsInfo.codeSegment.base

/-- The pages of the two segments are different frames. -/
structure Apart (s : State) : Prop where
  code_aligned : (codeBase s).toNat % 4096 = 0
  code_end : (codeBase s).toNat + 4096 * codePages s ≤ 2^32
  data_end : s.dataBase.toNat + 4096 * segmentPages s ≤ 2^32
  disjoint : s.dataBase.toNat + 4096 * segmentPages s ≤ (codeBase s).toNat ∨
    (codeBase s).toNat + 4096 * codePages s ≤ s.dataBase.toNat

/-- Neither free nor a table. -/
structure Taken (s : State) (t : TableMap) (f : U32int) : Prop where
  table : ∀ i p, t i = some p → f ≠ (p + s.dataBase) / pageSize
  data : ∀ k ∈ dataFree s, f ≠ frameOf s.dataBase k
  code : ∀ k ∈ codeFree s, f ≠ frameOf (codeBase s) k

/-- ... and no kernel data. -/
structure Private (s : State) (t : TableMap) (f : U32int) : Prop extends Taken s t f where
  kernel : ∀ q : U32int, q.toNat < s.kernelPageDirectory.toNat + 8192 →
    f ≠ (q + s.dataBase) / pageSize

/-- Physical address behind an offset of a frame. -/
def inFrame (f lin : U32int) : U32int := f * pageSize + lin % pageSize

section

variable {s s' : State} {t t' : TableMap} {a : Space} {f : U32int}

theorem page_toNat (x : U32int) : (x / pageSize).toNat = x.toNat / 4096 := rfl

theorem frameOf_toNat {base : U32int} {n k : Nat} (ha : base.toNat % 4096 = 0)
    (hend : base.toNat + 4096 * n ≤ 2^32) (hk : k < n) :
    (frameOf base k).toNat = base.toNat / 4096 + k := by
  rw [frameOf, page_toNat, BitVec.toNat_add, pageAt, BitVec.toNat_ofNat]
  omega

/-- The address is in its frame. -/
theorem inFrame_page {lin : U32int} (hf : f.toNat < 2^20) : inFrame f lin / pageSize = f := by
  apply BitVec.eq_of_toNat_eq
  rw [page_toNat, inFrame]
  simp only [pageSize, bitvec_to_nat, Nat.reducePow, Nat.reduceMod]
  omega

theorem inFrame_self (lin : U32int) : inFrame (lin / pageSize) lin = lin := by
  have hlin := lin.isLt
  apply BitVec.eq_of_toNat_eq
  rw [inFrame, BitVec.toNat_add, BitVec.toNat_mul, page_toNat, BitVec.toNat_umod,
    show pageSize.toNat = 4096 from rfl]
  omega

theorem inFrame_inj {f' lin lin' : U32int} (hf : f.toNat < 2^20) (hf' : f'.toNat < 2^20)
    (h : inFrame f lin = inFrame f' lin') : f = f' ∧ lin % pageSize = lin' % pageSize := by
  have hpage := congrArg (· / pageSize) h
  simp only [inFrame_page hf, inFrame_page hf'] at hpage
  refine ⟨hpage, ?_⟩
  rw [inFrame, inFrame, hpage] at h
  exact add_left_cancel h

theorem lin_eq {lin lin' : U32int} (hpage : lin / pageSize = lin' / pageSize)
    (hoff : lin % pageSize = lin' % pageSize) : lin = lin' := by
  have hp := congrArg BitVec.toNat hpage
  have ho := congrArg BitVec.toNat hoff
  rw [page_toNat, page_toNat] at hp
  rw [BitVec.toNat_umod, BitVec.toNat_umod, show pageSize.toNat = 4096 from rfl] at ho
  exact BitVec.eq_of_toNat_eq (by omega)

/-- A private frame is off the books. -/
theorem Private.not_books (h : Private s t f) (hw : Walks s t) {x : U32int}
    (hx : x / pageSize = f) : ¬ Books s t (x - s.dataBase) := by
  intro h
  rcases h with hlow | ⟨i, p, hp, hin⟩
  · refine h.kernel _ hlow ?_
    rw [← hx, sub_add_cancel]
  · refine h.table i p hp ?_
    have halign := frame_aligned hw.toLayout (hw.page i p hp).aligned
    rw [add_comm] at halign
    have hxd : x - s.dataBase - p = x - (p + s.dataBase) := by rw [sub_sub, add_comm]
    rw [hxd] at hin
    rw [← hx]
    apply BitVec.eq_of_toNat_eq
    rw [page_toNat, page_toNat]
    change (p + s.dataBase).toNat % 4096 = 0 at halign
    bv_omega

/-- What is not written off the books stays in the private frames. -/
theorem Private.memory_eq (h : Private s' t' f) (hw : Walks s' t') (honly : s' = s.withData s'.data)
    (hframe : ∀ y, ¬ Books s t' y → s'.data y = s.data y) {x : U32int} (hx : x / pageSize = f) :
    s'.memory x = s.memory x := by
  have hbase : s'.dataBase = s.dataBase := by rw [honly]; rfl
  have hdir : s'.kernelPageDirectory = s.kernelPageDirectory := by rw [honly]; rfl
  have hnot := h.not_books hw hx
  rw [Books, hdir, hbase] at hnot
  have hy := hframe _ hnot
  rw [State.data, State.data, fromBase, fromBase, hbase, sub_add_cancel] at hy
  exact hy

/-- Only the segments matter. -/
theorem Apart.congr (h : Apart s) (hinfo : s'.segmentsInfo = s.segmentsInfo) : Apart s' := by
  obtain ⟨hca, hce, hde, hd⟩ := h
  rw [codeBase, codePages, State.dataBase, segmentPages, ← hinfo] at *
  exact ⟨hca, hce, hde, hd⟩

theorem Apart.withData (h : Apart s) (m : Memory) : Apart (s.withData m) :=
  ⟨h.code_aligned, h.code_end, h.data_end, h.disjoint⟩

theorem Apart.only_data (h : Apart s) (honly : s' = s.withData s'.data) : Apart s' := by
  rw [honly]
  exact h.withData _

theorem Taken.mmap {lin : U32int} (h : Taken s t f) (honly : s' = s.withData s'.data)
    (he : MapEffect s t lin s' t') : Taken s' t' f := by
  have hbase : s'.dataBase = s.dataBase := by rw [honly]; rfl
  have hcode : codeBase s' = codeBase s := by rw [honly]; rfl
  refine ⟨fun i p hp => ?_, fun k hk => ?_, fun k hk => ?_⟩
  · rw [hbase]
    obtain ⟨rfl, -⟩ | ⟨k, rest, -, hf, rfl, -⟩ := he.supply
    · exact h.table i p hp
    · obtain ⟨-, rfl⟩ | ⟨-, hp⟩ := update_some hp
      · exact h.data k (hf ▸ List.mem_cons_self)
      · exact h.table i p hp
  · rw [hbase]
    obtain ⟨-, hsame⟩ | ⟨j, rest, -, hf, -, hrest⟩ := he.supply
    · exact h.data k (hsame ▸ hk)
    · exact h.data k (hf ▸ List.mem_cons_of_mem _ (hrest ▸ hk))
  · rw [hcode]
    exact h.code k (he.codeFree ▸ hk)

theorem Private.mmap {lin : U32int} (h : Private s t f) (honly : s' = s.withData s'.data)
    (he : MapEffect s t lin s' t') : Private s' t' f where
  toTaken := h.toTaken.mmap honly he
  kernel := by
    rw [honly]
    exact h.kernel

variable {k : Nat} {rest : List Nat}

theorem Taken.allocData (h : Taken s t f) (hf : dataFree s = k :: rest)
    (hd : DataTaken s t k rest s') : Taken s' t f := by
  have hbase : s'.dataBase = s.dataBase := by rw [hd.only_data]; rfl
  have hcode : codeBase s' = codeBase s := by rw [hd.only_data]; rfl
  refine ⟨fun i p hp => ?_, fun j hj => ?_, fun j hj => ?_⟩
  · rw [hbase]
    exact h.table i p hp
  · rw [hd.dataFree] at hj
    rw [hbase]
    exact h.data j (hf ▸ List.mem_cons_of_mem _ hj)
  · rw [hd.codeFree] at hj
    rw [hcode]
    exact h.code j hj

theorem Taken.allocCode (h : Taken s t f) (hf : codeFree s = k :: rest)
    (hc : CodeTaken s t rest s') : Taken s' t f := by
  have hbase : s'.dataBase = s.dataBase := by rw [hc.only_data]; rfl
  have hcode : codeBase s' = codeBase s := by rw [hc.only_data]; rfl
  refine ⟨fun i p hp => ?_, fun j hj => ?_, fun j hj => ?_⟩
  · rw [hbase]
    exact h.table i p hp
  · rw [hc.dataFree] at hj
    rw [hbase]
    exact h.data j hj
  · rw [hc.codeFree] at hj
    rw [hcode]
    exact h.code j (hf ▸ List.mem_cons_of_mem _ hj)

theorem Private.allocData (h : Private s t f) (hf : dataFree s = k :: rest)
    (hd : DataTaken s t k rest s') : Private s' t f where
  toTaken := h.toTaken.allocData hf hd
  kernel := by
    rw [hd.only_data]
    exact h.kernel

theorem Private.allocCode (h : Private s t f) (hf : codeFree s = k :: rest)
    (hc : CodeTaken s t rest s') : Private s' t f where
  toTaken := h.toTaken.allocCode hf hc
  kernel := by
    rw [hc.only_data]
    exact h.kernel

theorem dataFrame_toNat (hl : Layout s) (ha : Apart s) (hk : k < segmentPages s) :
    (frameOf s.dataBase k).toNat = s.dataBase.toNat / 4096 + k :=
  frameOf_toNat hl.base_aligned ha.data_end hk

theorem codeFrame_toNat (ha : Apart s) (hk : k < codePages s) :
    (frameOf (codeBase s) k).toNat = (codeBase s).toNat / 4096 + k :=
  frameOf_toNat ha.code_aligned ha.code_end hk

theorem frames_ne (hl : Layout s) (ha : Apart s) {j : Nat} (hk : k < segmentPages s)
    (hj : j < codePages s) : frameOf s.dataBase k ≠ frameOf (codeBase s) j := by
  intro he
  have hn := congrArg BitVec.toNat he
  have hd := ha.disjoint
  have hca := ha.code_aligned
  have hda := hl.base_aligned
  rw [dataFrame_toNat hl ha hk, codeFrame_toNat ha hj] at hn
  omega

theorem Ready.dataFrame_private (h : Ready s t a) (ha : Apart s) (hf : dataFree s = k :: rest)
    (hd : DataTaken s t k rest s') : Private s' t (frameOf s.dataBase k) := by
  have hl := h.holds.tables.toLayout
  have hk := (PackedBits.freeList_head hf).1
  have hkn := dataFrame_toNat hl ha hk
  have hb := hl.base_aligned
  have hbase : s'.dataBase = s.dataBase := by rw [hd.only_data]; rfl
  have hcode : codeBase s' = codeBase s := by rw [hd.only_data]; rfl
  have hdir : s'.kernelPageDirectory = s.kernelPageDirectory := by rw [hd.only_data]; rfl
  have hpage : (pageAt k).toNat = 4096 * k := pageAt_toNat hk
  have hdend := ha.data_end
  refine ⟨⟨fun i p hp he => ?_, fun j hj he => ?_, fun j hj he => ?_⟩, fun q hq he => ?_⟩
  · have hpg := h.holds.tables.page i p hp
    have hin := hpg.inside
    have hpa := hpg.aligned
    have hne : p ≠ pageAt k := fun heq => hd.fresh.unused i (heq ▸ hp)
    have hnn : p.toNat ≠ (pageAt k).toNat := fun hn => hne (BitVec.eq_of_toNat_eq hn)
    have hn := congrArg BitVec.toNat he
    rw [hkn, hbase, page_toNat, BitVec.toNat_add] at hn
    omega
  · rw [hd.dataFree] at hj
    have hjn : j < segmentPages s := (PackedBits.mem_freeList.mp (hf ▸ List.mem_cons_of_mem _ hj)).1
    have hn := congrArg BitVec.toNat he
    rw [hkn, hbase, dataFrame_toNat hl ha hjn] at hn
    obtain rfl : k = j := by omega
    have hnodup : (k :: rest).Nodup := hf ▸ PackedBits.freeList_nodup _ _ _
    exact (List.nodup_cons.mp hnodup).1 hj
  · rw [hd.codeFree] at hj
    have hjn : j < codePages s := (PackedBits.mem_freeList.mp hj).1
    rw [hcode] at he
    exact frames_ne hl ha hk hjn he
  · have habove := hd.fresh.above
    have hend := hl.dir_end
    rw [hdir] at hq
    have hn := congrArg BitVec.toNat he
    rw [hkn, hbase, page_toNat, BitVec.toNat_add] at hn
    omega

theorem Ready.codeFrame_private (h : Ready s t a) (ha : Apart s) (hf : codeFree s = k :: rest)
    (hc : CodeTaken s t rest s') : Private s' t (frameOf (codeBase s) k) := by
  have hl := h.holds.tables.toLayout
  have hk := (PackedBits.freeList_head hf).1
  have hkn := codeFrame_toNat ha hk
  have hb := hl.base_aligned
  have hca := ha.code_aligned
  have hdisj := ha.disjoint
  have hbase : s'.dataBase = s.dataBase := by rw [hc.only_data]; rfl
  have hcode : codeBase s' = codeBase s := by rw [hc.only_data]; rfl
  have hdir : s'.kernelPageDirectory = s.kernelPageDirectory := by rw [hc.only_data]; rfl
  have hdend := ha.data_end
  refine ⟨⟨fun i p hp he => ?_, fun j hj he => ?_, fun j hj he => ?_⟩, fun q hq he => ?_⟩
  · have hin := (h.holds.tables.page i p hp).inside
    have hn := congrArg BitVec.toNat he
    rw [hkn, hbase, page_toNat, BitVec.toNat_add] at hn
    omega
  · rw [hc.dataFree] at hj
    have hjn : j < segmentPages s := (PackedBits.mem_freeList.mp hj).1
    rw [hbase] at he
    exact frames_ne hl ha hjn hk he.symm
  · rw [hc.codeFree] at hj
    have hjn : j < codePages s := (PackedBits.mem_freeList.mp (hf ▸ List.mem_cons_of_mem _ hj)).1
    have hn := congrArg BitVec.toNat he
    rw [hkn, hcode, codeFrame_toNat ha hjn] at hn
    obtain rfl : k = j := by omega
    have hnodup : (k :: rest).Nodup := hf ▸ PackedBits.freeList_nodup _ _ _
    exact (List.nodup_cons.mp hnodup).1 hj
  · have hend := hl.dir_end
    rw [hdir] at hq
    have hn := congrArg BitVec.toNat he
    rw [hkn, hbase, page_toNat, BitVec.toNat_add] at hn
    omega

/-- The pages `V`, with paging on, are bound to private frames of their own, in which
linear memory is `L`. -/
structure View (s : State) (t : TableMap) (a : Space) (V : Set U32int) (L : Memory) : Prop where
  ready : Ready s t a
  apart : Apart s
  on : s.pagingEnabled = true
  outside : ∀ lin, lin / pageSize ∈ V → Outside a lin
  bound : ∀ q ∈ V, ∃ b, a.bindings q = some b ∧ Private s t b.frame
  own : ∀ q ∈ V, ∀ q' ∈ V, ∀ b b', a.bindings q = some b → a.bindings q' = some b' →
    b.frame = b'.frame → q = q'
  bytes : ∀ lin, lin / pageSize ∈ V → ∀ b, a.bindings (lin / pageSize) = some b →
    s.memory (inFrame b.frame lin) = L lin

/-- A bound page is walked to its frame. -/
theorem Ready.translate_bound (h : Ready s t a) (hon : s.pagingEnabled = true) {lin : U32int}
    {b : Binding} (ho : Outside a lin) (hb : a.bindings (lin / pageSize) = some b) :
    s.translate lin = .ok (inFrame b.frame lin) ∧ b.frame.toNat < 2^20 := by
  have htr := h.holds.translates lin ho
  rw [hb, translation, ← h.holds.cr3 hon] at htr
  obtain ⟨e, hwalk, he⟩ := Option.map_eq_some_iff.mp htr
  have hframe : b.frame = e.address.setWidth 32 := by rw [← he]
  have hlt := e.address.isLt
  constructor
  · simp only [State.translate, hon, if_true, hwalk, inFrame, hframe, PagingEntry.frame]
  · rw [hframe, BitVec.toNat_setWidth]
    omega

section

variable {V : Set U32int} {L : Memory} {lin : U32int}

theorem View.resolves (h : View s t a V L) (hV : lin / pageSize ∈ V) : ∃ b,
    a.bindings (lin / pageSize) = some b ∧ Private s t b.frame ∧ b.frame.toNat < 2^20 ∧
      s.translate lin = .ok (inFrame b.frame lin) ∧ s.memory (inFrame b.frame lin) = L lin := by
  obtain ⟨b, hb, hp⟩ := h.bound _ hV
  obtain ⟨htr, hlt⟩ := Ready.translate_bound h.ready h.on (h.outside _ hV) hb
  exact ⟨b, hb, hp, hlt, htr, h.bytes _ hV b hb⟩

/-- A load through a segment. -/
theorem View.load (h : View s t a V L) {seg : Segment} {rel : U32int} (hlim : rel ≤ seg.limit)
    (hV : (rel + seg.base) / pageSize ∈ V) :
    (do let x ← s.segAddr seg rel; return s.memory x) = .ok (L (rel + seg.base)) := by
  obtain ⟨b, -, -, -, htr, hbyte⟩ := h.resolves hV
  simp only [State.segAddr, hlim, if_true, htr, ok_bind, pure_ok, hbyte]

/-- A run of stores: linear memory has become `L`, and nothing else has happened. -/
structure Stored (s : State) (t : TableMap) (a : Space) (V : Set U32int) (L : Memory) (s' : State) :
    Prop where
  only_data : s' = s.withData s'.data
  view : View s' t a V L
  dataFree : dataFree s' = dataFree s
  codeFree : codeFree s' = codeFree s

theorem View.stored (h : View s t a V L) : Stored s t a V L s :=
  ⟨(State.withData_self s).symm, h, rfl, rfl⟩

theorem Stored.trans {s'' : State} {L' : Memory} (h : Stored s t a V L s')
    (h' : Stored s' t a V L' s'') : Stored s t a V L' s'' where
  only_data := by rw [h'.only_data, h.only_data, State.withData_data, State.withData_withData]
  view := h'.view
  dataFree := h'.dataFree.trans h.dataFree
  codeFree := h'.codeFree.trans h.codeFree

/-- A store through a segment writes linear memory. -/
theorem View.store (h : View s t a V L) {seg : Segment} {rel : U32int} (hlim : rel ≤ seg.limit)
    (hV : (rel + seg.base) / pageSize ∈ V) (v : U8int) : ∃ x, s.segAddr seg rel = .ok x ∧
      Stored s t a V (write8 L (rel + seg.base) v) (s.withMemory (write8 s.memory x v)) := by
  obtain ⟨b, hb, hp, hlt, htr, -⟩ := h.resolves hV
  have hw := h.ready.holds.tables.toWalks
  set x := inFrame b.frame (rel + seg.base) with hx
  have hxpage : x / pageSize = b.frame := inFrame_page hlt
  have hbooks : ∀ y, Books s t y → fromBase (write8 s.memory x v) s.dataBase y = s.data y := by
    intro y hy
    refine write8_of_ne _ _ fun he => ?_
    refine hp.not_books hw hxpage ?_
    rwa [← he, add_sub_cancel_right]
  have hsame := sameBelow_of_books hbooks
  have hdata : dataFree (s.withMemory (write8 s.memory x v)) = dataFree s := by
    rw [State.withMemory_eq_withData]
    exact dataFree_congr hw.toLayout hsame
  have hcode : codeFree (s.withMemory (write8 s.memory x v)) = codeFree s := by
    have hfree := codeFree_congr hw.toLayout h.ready.supply hsame
    rw [State.withData_self] at hfree
    rw [State.withMemory_eq_withData]
    exact hfree
  have hkeep : ∀ f, Private s t f → Private (s.withMemory (write8 s.memory x v)) t f := fun f hf =>
    ⟨⟨hf.table, fun k hk => hf.data k (hdata ▸ hk), fun k hk => hf.code k (hcode ▸ hk)⟩, hf.kernel⟩
  refine ⟨x, ?_, ?_, ?_, hdata, hcode⟩
  · simp only [State.segAddr, hlim, if_true, htr]
  · rw [State.withMemory_eq_withData, State.withData_data]
  · refine ⟨?_, ?_, h.on, h.outside, fun q hq => ?_, h.own, fun lin' hV' b' hb' => ?_⟩
    · rw [State.withMemory_eq_withData]
      exact h.ready.withBooks hbooks
    · rw [State.withMemory_eq_withData]
      exact h.apart.withData _
    · obtain ⟨c, hc, hcp⟩ := h.bound q hq
      exact ⟨c, hc, hkeep _ hcp⟩
    · obtain ⟨c, hc, -, hclt, -, hbyte⟩ := h.resolves hV'
      obtain rfl : c = b' := Option.some.inj (hc.symm.trans hb')
      rw [State.withMemory_memory]
      by_cases hlin : lin' = rel + seg.base
      · subst hlin
        obtain rfl : c = b := Option.some.inj (hc.symm.trans hb)
        rw [write8_same, write8_same]
      · have hne : inFrame c.frame lin' ≠ x := fun he => by
          obtain ⟨hff, hoff⟩ := inFrame_inj hclt hlt he
          exact hlin (lin_eq (h.own _ hV' _ hV c b hc hb hff) hoff)
        rw [write8_of_ne _ _ hne, write8_of_ne _ _ hlin, hbyte]

/-- Only the bytes of the pages matter. -/
theorem View.congr (h : View s t a V L) {L' : Memory}
    (hL : ∀ lin, lin / pageSize ∈ V → L' lin = L lin) : View s t a V L' :=
  ⟨h.ready, h.apart, h.on, h.outside, h.bound, h.own, fun lin hV b hb =>
    (h.bytes lin hV b hb).trans (hL lin hV).symm⟩

/-- `memset` over private pages of the data segment fills linear memory. -/
theorem View.memset (c : U8int) {n : Nat} (hn : n ≤ 2^32) :
    ∀ {s : State} {L : Memory} {rel : U32int}, View s t a V L →
      (∀ k : U32int, k.toNat < n → rel + k ≤ s.segmentsInfo.dataSegment.limit ∧
        (rel + k + s.dataBase) / pageSize ∈ V) →
      ∃ s', s.memset rel c n = .ok s' ∧ Stored s t a V (fill L (rel + s.dataBase) n c) s' := by
  induction n with
  | zero =>
    intro s L rel h _
    exact ⟨s, rfl, by rw [fill_zero]; exact h.stored⟩
  | succ n ih =>
    intro s L rel h hin
    obtain ⟨hlim, hV⟩ := hin 0 (Nat.succ_pos n)
    rw [add_zero] at hlim hV
    obtain ⟨x, hx, hst⟩ := h.store hlim hV c
    have hstore : s.store8 rel c = .ok (s.withMemory (write8 s.memory x c)) :=
      State.store8_of_resolves hx c
    obtain ⟨s', hrest, hst'⟩ := ih (by omega)
        (s := s.withMemory (write8 s.memory x c)) hst.view fun k hk => by
      have hk1 : (1 + k).toNat < n + 1 := by bv_omega
      have hnext := hin (1 + k) hk1
      rwa [← add_assoc] at hnext
    refine ⟨s', ?_, hst.trans ?_⟩
    · simp only [State.memset, hstore, ok_bind]
      exact hrest
    · have hbase : rel + s.segmentsInfo.dataSegment.base + 1 = rel + 1 + s.dataBase :=
        add_right_comm ..
      rw [← fill_succ L _ c (by omega)]
      change Stored _ t a V (fill (write8 L (rel + s.segmentsInfo.dataSegment.base) c)
        (rel + s.segmentsInfo.dataSegment.base + 1) n c) s'
      rw [hbase]
      exact hst'

/-- Frames the pages `V` are not bound to are not written to. -/
theorem View.memset_frame (c : U8int) {x : U32int}
    (hx : ∀ q ∈ V, ∀ b, a.bindings q = some b → x / pageSize ≠ b.frame) {n : Nat} (hn : n ≤ 2^32) :
    ∀ {s : State} {L : Memory} {rel : U32int}, View s t a V L →
      (∀ k : U32int, k.toNat < n → rel + k ≤ s.segmentsInfo.dataSegment.limit ∧
        (rel + k + s.dataBase) / pageSize ∈ V) →
      s.memset rel c n = .ok s' → s'.memory x = s.memory x := by
  induction n with
  | zero =>
    intro s L rel _ _ hcall
    cases hcall
    rfl
  | succ n ih =>
    intro s L rel h hin hcall
    obtain ⟨hlim, hV⟩ := hin 0 (Nat.succ_pos n)
    rw [add_zero] at hlim hV
    obtain ⟨y, hy, hst⟩ := h.store hlim hV c
    have hstore : s.store8 rel c = .ok (s.withMemory (write8 s.memory y c)) :=
      State.store8_of_resolves hy c
    obtain ⟨b, hb, -, hlt, htr, -⟩ := h.resolves hV
    have hyb : y = inFrame b.frame (rel + s.dataBase) := by
      rw [State.segAddr, if_pos hlim] at hy
      exact Except.ok.inj (hy.symm.trans htr)
    have hne : x ≠ y := by
      intro he
      subst he
      refine hx _ hV b hb ?_
      rw [hyb, inFrame_page hlt]
    rw [State.memset, bind_of_ok hstore] at hcall
    rw [ih (by omega) hst.view (fun k hk => ?_) hcall,
      State.withMemory_memory, write8_of_ne _ _ hne]
    have hk1 : (1 + k).toNat < n + 1 := by bv_omega
    have hnext := hin (1 + k) hk1
    rwa [← add_assoc] at hnext

/-- Linear memory once a page shows the frame `f`. -/
def shown (s : State) (f : U32int) (L : Memory) (q : U32int) : Memory := fun x =>
  if x / pageSize = q then s.memory (inFrame f x) else L x

theorem outside_page {lin' : U32int} (ho : Outside a lin) (h : lin' / pageSize = lin / pageSize) :
    Outside a lin' := by
  obtain ⟨hi, -⟩ := (page_eq_iff lin lin').mp h
  rw [Outside, hi]
  exact ho

/-- Mapping a private frame of its own to a new page adds the page to the view. -/
theorem View.mmap (h : View s t a V L) {segment : Segment} {v p : U32int} (rw user : Bool)
    (hV : (v + segment.base) / pageSize ∉ V) (ho : Outside a (v + segment.base))
    (hfree : tableIndex (v + segment.base) ∉ a.covered → dataFree s ≠ [])
    (hk : SparesKernel s (v + segment.base) ((p + segment.base) / pageSize))
    (hp : Private s t ((p + segment.base) / pageSize))
    (hown : ∀ q ∈ V, ∀ b, a.bindings q = some b → b.frame ≠ (p + segment.base) / pageSize) :
    ∃ s' t', s.mmap segment v p rw user = .ok (true, s') ∧ s' = s.withData s'.data ∧
      MapEffect s t (v + segment.base) s' t' ∧
      View s' t' (a.map (v + segment.base) ⟨(p + segment.base) / pageSize, rw, user⟩)
        (insert ((v + segment.base) / pageSize) V)
        (shown s ((p + segment.base) / pageSize) L ((v + segment.base) / pageSize)) := by
  obtain ⟨s', t', hcall, honly, hready, he⟩ := h.ready.mmap rw user ho hfree hk
  generalize hlin : v + segment.base = lin at *
  generalize hf : (p + segment.base) / pageSize = f at *
  have hne : ∀ q ∈ V, q ≠ lin / pageSize := fun q hq heq => hV (heq ▸ hq)
  have hkeep : ∀ g, Private s t g → Private s' t' g := fun g hg => hg.mmap honly he
  have hmem : ∀ g, Private s t g → ∀ x, x / pageSize = g →
      s'.memory x = s.memory x := fun g hg x hx =>
    (hkeep g hg).memory_eq hready.holds.tables.toWalks honly he.frame hx
  refine ⟨s', t', hcall, honly, he, hready, h.apart.only_data honly, ?_, ?_, ?_, ?_, ?_⟩
  · rw [honly]
    exact h.on
  · rintro l (hl | hl)
    · exact outside_page (a := a) ho hl
    · exact h.outside l hl
  · rintro q (rfl | hq)
    · exact ⟨_, map_bindings_self .., hkeep f hp⟩
    · obtain ⟨b, hb, hbp⟩ := h.bound q hq
      exact ⟨b, (map_bindings_of_ne a _ (hne q hq)).trans hb, hkeep _ hbp⟩
  · rintro q (rfl | hq) q' (rfl | hq') b b' hb hb' hfr
    · rfl
    · rw [map_bindings_self] at hb
      rw [map_bindings_of_ne a _ (hne q' hq')] at hb'
      cases hb
      exact absurd hfr.symm (hown q' hq' b' hb')
    · rw [map_bindings_self] at hb'
      rw [map_bindings_of_ne a _ (hne q hq)] at hb
      cases hb'
      exact absurd hfr (hown q hq b hb)
    · rw [map_bindings_of_ne a _ (hne q hq)] at hb
      rw [map_bindings_of_ne a _ (hne q' hq')] at hb'
      exact h.own q hq q' hq' b b' hb hb' hfr
  · rintro l hl b hb
    by_cases hpage : l / pageSize = lin / pageSize
    · rw [hpage, map_bindings_self] at hb
      cases hb
      have hflt : f.toNat < 2^20 := by
        have hn := congrArg BitVec.toNat hf
        have hlt := (p + segment.base).isLt
        rw [page_toNat] at hn
        omega
      rw [shown, if_pos hpage]
      exact hmem f hp _ (inFrame_page hflt)
    · have hlV : l / pageSize ∈ V := hl.resolve_left hpage
      rw [map_bindings_of_ne a _ hpage] at hb
      obtain ⟨c, hc, hcp, hclt, -, hbyte⟩ := h.resolves hlV
      obtain rfl : c = b := Option.some.inj (hc.symm.trans hb)
      rw [shown, if_neg hpage, ← hbyte]
      exact hmem _ hcp _ (inFrame_page hclt)

/-- Page tables that are still missing among the spans `I`. -/
def need (I : Finset U32int) (a : Space) : Nat := (I \ a.covered).card

theorem need_map_le (I : Finset U32int) (a : Space) (lin : U32int) (b : Binding) :
    need I (a.map lin b) ≤ need I a :=
  Finset.card_le_card (Finset.sdiff_subset_sdiff (Finset.Subset.refl I) (Finset.subset_insert ..))

theorem need_map_lt {I : Finset U32int} (hI : tableIndex lin ∈ I)
    (hcov : tableIndex lin ∉ a.covered) (b : Binding) : need I (a.map lin b) < need I a := by
  have hmem : tableIndex lin ∈ I \ a.covered := Finset.mem_sdiff.mpr ⟨hI, hcov⟩
  refine Finset.card_lt_card ((Finset.ssubset_iff_of_subset ?_).mpr ⟨tableIndex lin, hmem, ?_⟩)
  · exact Finset.sdiff_subset_sdiff (Finset.Subset.refl I) (Finset.subset_insert ..)
  · exact fun h => (Finset.mem_sdiff.mp h).2 (Finset.mem_insert_self ..)

theorem need_pos {I : Finset U32int} (hI : tableIndex lin ∈ I) (hcov : tableIndex lin ∉ a.covered) :
    0 < need I a := Finset.card_pos.mpr ⟨_, Finset.mem_sdiff.mpr ⟨hI, hcov⟩⟩

/-- A mapping uses up at most what it makes unnecessary. -/
theorem MapEffect.need_le (h : Holds s t a) (he : MapEffect s t lin s' t') {I : Finset U32int}
    (hI : tableIndex lin ∈ I) (b : Binding) {r : Nat} (hr : need I a + r ≤ (dataFree s).length) :
    need I (a.map lin b) + r ≤ (dataFree s').length := by
  obtain ⟨-, hsame⟩ | ⟨k, rest, ht, hf, -, hrest⟩ := he.supply
  · have hle := need_map_le I a lin b
    rw [hsame]
    omega
  · have hcov : tableIndex lin ∉ a.covered := fun hmem => by
      have hsome := (h.covered _ (tableIndex_lt lin)).mp hmem
      rw [ht] at hsome
      cases hsome
    have hlt := need_map_lt hI hcov b
    rw [hf, List.length_cons] at hr
    rw [hrest]
    omega

/-- A page `q` now shows the frame `f`. -/
structure PageAdded (s : State) (t : TableMap) (a : Space) (V : Set U32int) (L : Memory)
    (lin : U32int) (b : Binding) (s' : State) (t' : TableMap) : Prop where
  only_data : s' = s.withData s'.data
  view : View s' t' (a.map lin b) (insert (lin / pageSize) V) (shown s b.frame L (lin / pageSize))
  frame : ∀ y, ¬ Books s t' y → s'.data y = s.data y
  grows : ∀ i p, t i = some p → t' i = some p

/-- Allocation leaves a view alone. -/
theorem View.keep (h : View s t a V L) {s1 : State} (hr : Ready s1 t a)
    (honly : s1 = s.withData s1.data) (hframe : ∀ y, ¬ Books s t y → s1.data y = s.data y)
    (hkeep : ∀ g, Private s t g → Private s1 t g) : View s1 t a V L := by
  refine ⟨hr, h.apart.only_data honly, by rw [honly]; exact h.on, h.outside, fun q hq => ?_, h.own,
    fun l hl b hb => ?_⟩
  · obtain ⟨b, hb, hbp⟩ := h.bound q hq
    exact ⟨b, hb, hkeep _ hbp⟩
  · obtain ⟨c, hc, hcp, hclt, -, hbyte⟩ := h.resolves hl
    obtain rfl : c = b := Option.some.inj (hc.symm.trans hb)
    rw [← hbyte]
    exact (hkeep _ hcp).memory_eq hr.holds.tables.toWalks honly hframe (inFrame_page hclt)

/-- A page mapped to a frame that has just been allocated in `s1`. -/
theorem View.add {s1 : State} (h : View s1 t a V L) (honly : s1 = s.withData s1.data)
    (hframe : ∀ y, ¬ Books s t y → s1.data y = s.data y) (segment : Segment) (v p : U32int)
    (rw user : Bool) (hV : (v + segment.base) / pageSize ∉ V) (ho : Outside a (v + segment.base))
    (hfree : tableIndex (v + segment.base) ∉ a.covered → dataFree s1 ≠ [])
    (hk : SparesKernel s (v + segment.base) ((p + segment.base) / pageSize))
    (hp : Private s1 t ((p + segment.base) / pageSize))
    (hown : ∀ q ∈ V, ∀ b, a.bindings q = some b → b.frame ≠ (p + segment.base) / pageSize) :
    ∃ s' t', State.mmapUnchecked segment v p rw user s1 = .ok s' ∧
    MapEffect s1 t (v + segment.base) s' t' ∧
      PageAdded s t a V L (v + segment.base) ⟨(p + segment.base) / pageSize, rw, user⟩ s' t' := by
  have hk1 : SparesKernel s1 (v + segment.base) ((p + segment.base) / pageSize) := by
    rw [honly]
    exact hk
  obtain ⟨s', t', hcall, honly', he, hview⟩ := h.mmap rw user hV ho hfree hk1 hp hown
  have honly2 : s' = s.withData s'.data := by
    rw [honly', honly, State.withData_data, State.withData_withData]
  refine ⟨s', t', ?_, he, honly2, hview.congr fun l hl => ?_, fun y hy => ?_, fun i q => he.grows⟩
  · simp only [State.mmapUnchecked, hcall, ok_bind, pure_ok]
  · have hflt : ((p + segment.base) / pageSize).toNat < 2^20 := by
      have hlt := (p + segment.base).isLt
      rw [page_toNat]
      omega
    have hmem := hp.memory_eq h.ready.holds.tables.toWalks honly hframe (@inFrame_page _ l hflt)
    unfold shown
    split_ifs
    · exact hmem.symm
    · rfl
  · have hdir : s1.kernelPageDirectory = s.kernelPageDirectory := by rw [honly]; rfl
    have hy1 : ¬ Books s1 t' y := by rwa [Books, hdir]
    rw [he.frame y hy1]
    exact hframe y fun hb => hy (hb.mono fun i q => he.grows)

variable {I : Finset U32int} {v : U32int} {r : Nat}

/-- The first free data page is taken and mapped. -/
theorem View.mapData (h : View s t a V L) (rw user : Bool) (hf : dataFree s = k :: rest)
    (hI : tableIndex (v + s.dataBase) ∈ I) (hneed : need I a + (r + 1) ≤ (dataFree s).length)
    (hV : (v + s.dataBase) / pageSize ∉ V) (ho : Outside a (v + s.dataBase))
    (hk : SparesKernel s (v + s.dataBase) (frameOf s.dataBase k)) :
    ∃ s1 s' t', s.allocDataPage = .ok (pageAt k, s1) ∧ pageAt k ≠ null ∧
      s1.segmentsInfo = s.segmentsInfo ∧
      State.mmapUnchecked s1.segmentsInfo.dataSegment v (pageAt k) rw user s1 = .ok s' ∧
      PageAdded s t a V L (v + s.dataBase) ⟨frameOf s.dataBase k, rw, user⟩ s' t' ∧
      need I (a.map (v + s.dataBase) ⟨frameOf s.dataBase k, rw, user⟩) + r ≤ (dataFree s').length ∧
      codeFree s' = codeFree s ∧ dataFree s' <:+ rest ∧
      ∀ i p, t' i = some p → t i = some p ∨ ∃ j ∈ rest, p = pageAt j := by
  obtain ⟨s1, halloc, hr1, hd⟩ := h.ready.allocDataPage hf
  have hkeep : ∀ g, Private s t g → Private s1 t g := fun g hg => hg.allocData hf hd
  have h1 := h.keep hr1 hd.only_data hd.frame hkeep
  have hp := Ready.dataFrame_private h.ready h.apart hf hd
  have hseg : s1.segmentsInfo.dataSegment = s.segmentsInfo.dataSegment := by rw [hd.only_data]; rfl
  have hneed1 : need I a + r ≤ (dataFree s1).length := by
    rw [hf, List.length_cons] at hneed
    rw [hd.dataFree]
    omega
  obtain ⟨s', t', hcall, he, hadded⟩ := h1.add hd.only_data hd.frame
    s.segmentsInfo.dataSegment v (pageAt k) rw user hV ho
    (fun hcov hnil => by
      have hpos := need_pos hI hcov
      rw [hnil, List.length_nil] at hneed1
      omega)
    hk hp fun q hq b hb => by
      obtain ⟨c, hc, hcp⟩ := h.bound q hq
      obtain rfl : c = b := Option.some.inj (hc.symm.trans hb)
      exact hcp.data k (hf ▸ List.mem_cons_self)
  refine ⟨s1, s', t', halloc, hd.ne_null, by rw [hd.only_data]; rfl, ?_, hadded,
    MapEffect.need_le hr1.holds he hI _ hneed1,
    he.codeFree.trans hd.codeFree, ?_, fun i p hip => ?_⟩
  · rw [hseg]
    exact hcall
  · rw [← hd.dataFree]
    exact he.dataFree_suffix
  · rw [← hd.dataFree]
    exact he.table_cases hip

/-- The first free code page is taken and mapped. -/
theorem View.mapCode (h : View s t a V L) (rw user : Bool) (hf : codeFree s = k :: rest)
    (hI : tableIndex (v + codeBase s) ∈ I) (hneed : need I a + r ≤ (dataFree s).length)
    (hV : (v + codeBase s) / pageSize ∉ V) (ho : Outside a (v + codeBase s))
    (hk : SparesKernel s (v + codeBase s) (frameOf (codeBase s) k)) :
    ∃ s1 s' t', s.allocCodePage = .ok (pageAt k, s1) ∧
      State.mmapUnchecked s1.segmentsInfo.codeSegment v (pageAt k) rw user s1 = .ok s' ∧
      PageAdded s t a V L (v + codeBase s) ⟨frameOf (codeBase s) k, rw, user⟩ s' t' ∧
      need I (a.map (v + codeBase s) ⟨frameOf (codeBase s) k, rw, user⟩) + r ≤
        (dataFree s').length ∧
      codeFree s' = rest := by
  obtain ⟨s1, halloc, hr1, hc⟩ := h.ready.allocCodePage hf
  have hkeep : ∀ g, Private s t g → Private s1 t g := fun g hg => hg.allocCode hf hc
  have h1 := h.keep hr1 hc.only_data hc.frame hkeep
  have hp := Ready.codeFrame_private h.ready h.apart hf hc
  have hseg : s1.segmentsInfo.codeSegment = s.segmentsInfo.codeSegment := by rw [hc.only_data]; rfl
  have hneed1 : need I a + r ≤ (dataFree s1).length := by rwa [hc.dataFree]
  obtain ⟨s', t', hcall, he, hadded⟩ := h1.add hc.only_data hc.frame
    s.segmentsInfo.codeSegment v (pageAt k) rw user hV ho
    (fun hcov hnil => by
      have hpos := need_pos hI hcov
      rw [hnil, List.length_nil] at hneed1
      omega)
    hk hp fun q hq b hb => by
      obtain ⟨c, hcb, hcp⟩ := h.bound q hq
      obtain rfl : c = b := Option.some.inj (hcb.symm.trans hb)
      exact hcp.code k (hf ▸ List.mem_cons_self)
  refine ⟨s1, s', t', halloc, ?_, hadded, MapEffect.need_le hr1.holds he hI _ hneed1,
    he.codeFree.trans hc.codeFree⟩
  rw [hseg]
  exact hcall

end

end

end SimpleOs.Audit.LinearView
