import SimpleOs.Audit.HeapBoot

/-!
# What the heap calls promise

Each call on a kernel that serves: where it takes memory from and when the heap grows, what
stays as it was, and what the client gets.
-/

namespace SimpleOs.Audit.HeapContract

open SimpleOs.Kernel SimpleOs.Lib SimpleOs.Lib.ByteMemory SimpleOs.Lib.WordProgram
open SimpleOs.Lib.Refinement
open SimpleOs.Audit.PageTables SimpleOs.Audit.PageSupply SimpleOs.Audit.KernelBoot
open SimpleOs.Audit.SlabHeap
open SimpleOs.Audit.SlabCalls SimpleOs.Audit.SlabSizes SimpleOs.Audit.HeapWords
open SimpleOs.Audit.HeapBytes
open SimpleOs.Audit.HeapService SimpleOs.Audit.HeapLedger SimpleOs.Audit.HeapBoot

section

variable {g : SlabStatics} {memLock : Addr} {b : Bounds} {hs : HeapState} {s s' : State}
  {h h' : Heap} {A A' : Arena} {p q x size nmemb i : U32int} {bytes n : Nat}

/-- The machine of 32 MiB, booted, with nothing handed out. -/
theorem booted_serving : ∃ hs h, Serving bootStatics bootLock bootBounds hs h noChunks ∧
    hs.state.heapBrk.toNat = 0x800000 ∧
    missingTables hs.state + 100 ≤ (dataFree hs.state).length := by
  obtain ⟨hs, hb, hroom⟩ := bootMachine_booted (r := 101) (by decide) (by decide)
  have ha := bootMachine_allots (r := 101) (by decide) (by decide)
  obtain ⟨h, hv, -⟩ := ha.serving hb
  obtain ⟨hbrk, hfree⟩ := ha.resources hb
  exact ⟨hs, h, hv, hbrk, by omega⟩

/-- Room for small requests. -/
theorem Serving.hasRoom (hv : Serving bootStatics bootLock bootBounds hs h A) (hg : growth size ≠ 0)
    (hbrk : hs.state.heapBrk.toNat + (growth size).toNat < 0xC00000)
    (hpages : missingTables hs.state + (growth size).toNat / 4096 ≤ (dataFree hs.state).length) :
    HasRoom hs.state size := by
  obtain ⟨t, a, L, hw⟩ := hv.carries
  exact ⟨hg, by rw [hw.window.limit]; exact hbrk, hpages⟩

theorem noChunks_fits : ¬ Fits noChunks size := by
  rw [Fits]
  split_ifs
  · rintro ⟨_, _, _, hq⟩
    cases hq
  · rintro ⟨_, _, hq, _⟩
    cases hq

/-- ... and with 100 bytes handed out, for which there is a cell of 128, as there is for
100 more. -/
theorem booted_holding : ∃ hs h A p,
    Serving bootStatics bootLock bootBounds hs h A ∧ Live A p 128 ∧ Fits A 100 ∧
    hs.state.heapBrk.toNat = 0x801000 ∧
    missingTables hs.state + 99 ≤ (dataFree hs.state).length := by
  obtain ⟨hs, h, hv, hbrk, hfree⟩ := booted_serving
  have hgrowth : (growth 100).toNat = 4096 := by decide
  obtain ⟨p, s', h', bytes, A', -, ha⟩ := malloc_serves hv (by decide : (100 : U32int) ≠ 0)
    (.inr (Serving.hasRoom hv (by decide) (by omega) (by omega)))
  have hA' := Consistent.arena ha.consistent
  have hleft : s'.heapBrk.toNat = 0x801000 ∧ missingTables s' + 99 ≤ (dataFree s').length := by
    have hroom := Carries.room ha.carries
    have htaken := ha.left
    rw [ha.grows noChunks_fits, BitVec.toNat_add]
    exact ⟨by omega, by omega⟩
  have hbin : Slab.binSize 100 = 5 := by decide
  have hlive : Live A' p bytes := (ha.hands.live p bytes).mpr (.inr ⟨rfl, rfl⟩)
  refine ⟨_, h', A', p, hv.next ha.carries ha.consistent, ?_⟩
  cases ha.serves with
  | cell _ hp => cases hp
  | block hbig => exact absurd (by decide : Slab.binSize 100 < bigBin) hbig
  | grow hbig => exact absurd (by decide : Slab.binSize 100 < bigBin) hbig
  | @page _ free _ _ hall _ =>
    rw [hbin] at hlive hall ⊢
    refine ⟨hlive, ?_, hleft⟩
    have hin := hA'.below hs.state.heapBrk _ (Function.update_self ..)
    have hlt := h'.brk.isLt
    change _ + 4096 * 1 ≤ _ at hin
    -- the first two cells are not the same
    have hcell : ∀ i < 2, IsCell hs.state.heapBrk 5
        (hs.state.heapBrk + BitVec.ofNat 32 (16 + i * 128)) := fun i hi => by
      refine ⟨i, ?_, ?_⟩
      · change 16 + (i + 1) * 128 ≤ 4096
        omega
      · rw [BitVec.toNat_add, BitVec.toNat_ofNat]
        change _ = _ + 16 + i * 128
        omega
    have h0 := (hall _).mp (hcell 0 (by decide))
    have h1 := (hall _).mp (hcell 1 (by decide))
    cases free with
    | nil =>
      have he := (List.mem_singleton.mp h0).trans (List.mem_singleton.mp h1).symm
      exact absurd (add_left_cancel he) (by decide)
    | cons d rest =>
      rw [Fits, if_pos (by decide)]
      exact ⟨_, d, rest, by rw [Function.update_self, hbin]⟩

/-- Loads of what is handed out. -/
theorem Live.load (hv : Serving g memLock b hs h A) (hl : Live A p bytes) {k : U32int}
    (hk : k.toNat < bytes) : hs.state.load8 (p + k) = .ok (byte h (p + k)) := by
  obtain ⟨-, -, hlow, hend, -, -⟩ := hl.bounds (Consistent.arena hv.consistent)
  have hlt := h.brk.isLt
  have hsum : (p + k).toNat = p.toNat + k.toNat := by
    rw [BitVec.toNat_add, Nat.mod_eq_of_lt (by omega)]
  exact Carries.load8 hv.carries (by omega) (by omega)

/-- A small size takes the first free cell of the first page of its bin, a large one the
smallest free block it fits into. The heap grows if and only if there is none. -/
theorem malloc_policy (hv : Serving g memLock b hs h A) (hsize : size ≠ 0)
    (hroom : Fits A size ∨ HasRoom hs.state size) : ∃ p s' h' bytes A',
      Kernel.malloc (slabCore g) memLock size hs = returned p hs s' ∧
        Serving g memLock b ⟨hs.statics, s'⟩ h' A' ∧
        Serves A hs.state.heapBrk size p bytes A' ∧ (s'.heapBrk = hs.state.heapBrk ↔ Fits A size) ∧
          (¬ Fits A size → s'.heapBrk = hs.state.heapBrk + growth size) := by
  obtain ⟨p, s', h', bytes, A', hcall, ha⟩ := malloc_serves hv hsize hroom
  refine ⟨p, s', h', bytes, A', hcall, hv.next ha.carries ha.consistent, ha.serves,
    ⟨fun hbrk => ?_, ha.stays⟩, ha.grows⟩
  by_contra hfits
  rw [ha.grows hfits, add_eq_left] at hbrk
  exact (hroom.resolve_left hfits).growth_ne hbrk

theorem malloc_policy_machine :
    ∃ hs p s' bytes A', Kernel.malloc (slabCore bootStatics) bootLock 100 hs = returned p hs s' ∧
    Serves noChunks hs.state.heapBrk 100 p bytes A' ∧ s'.heapBrk = hs.state.heapBrk + 4096 := by
  obtain ⟨hs, h, hv, hbrk, hfree⟩ := booted_serving
  have hgrowth : (growth 100).toNat = 4096 := by decide
  obtain ⟨p, s', h', bytes, A', hcall, -, hserves, -, hgrows⟩ :=
    malloc_policy hv (by decide : (100 : U32int) ≠ 0)
    (.inr (Serving.hasRoom hv (by decide) (by omega) (by omega)))
  exact ⟨hs, p, s', bytes, A', hcall, hserves, hgrows noChunks_fits⟩

/-- A cell is of the bin of its size. -/
theorem binSize_cellBytes (hi : i < bigBin) : Slab.binSize (BitVec.ofNat 32 (cellBytes i)) = i := by
  have hi' : i.toNat < 10 := hi
  have hlt : cellBytes i < 2^32 := Nat.pow_lt_pow_right (by decide) (by omega)
  have hx : (BitVec.ofNat 32 (cellBytes i)).toNat = cellBytes i := by
    rw [BitVec.toNat_ofNat, Nat.mod_eq_of_lt hlt]
  have hne : BitVec.ofNat 32 (cellBytes i) ≠ 0 := fun he => by
    have hpos := (cellBytes_pos i).1
    rw [he] at hx
    exact absurd hx.symm (by change cellBytes i ≠ 0; omega)
  have hle := (binSize_le_iff hne hi).mpr hx.le
  refine BitVec.le_antisymm hle (BitVec.not_lt.mp fun hlow => ?_)
  have hsmall := (binSize_le_iff hne (BitVec.lt_trans hlow hi)).mp (BitVec.le_refl _)
  have hpow : cellBytes (Slab.binSize (BitVec.ofNat 32 (cellBytes i))) < cellBytes i :=
    Nat.pow_lt_pow_right (by decide) (Nat.add_lt_add_right (BitVec.lt_def.mp hlow) 2)
  omega

/-- What has gone back is enough for as much again. -/
theorem Releases.fits (hA : ArenaAt b h A) (hr : Releases A p bytes A')
    (hbin : Slab.binSize size = Slab.binSize (BitVec.ofNat 32 bytes)) (hle : size.toNat ≤ bytes) :
    Fits A' size := by
  rw [Fits]
  cases hr with
  | @cell q i _ free hp hc hfree =>
    have hi : i < bigBin := (hA.chunk q _ hp).bin_lt
    rw [hbin, binSize_cellBytes hi, if_pos hi]
    exact ⟨q, p, free, Function.update_self ..⟩
  | @block q n hq =>
    have hn : 0 < n := (hA.chunk q _ hq).pages_pos
    have hbelow : q.toNat + 4096 * n ≤ h.brk.toNat := hA.below q _ hq
    have hlt := h.brk.isLt
    have hbytes := blockBytes_eq hn
    have hx : (BitVec.ofNat 32 (blockBytes n)).toNat = blockBytes n := by
      rw [BitVec.toNat_ofNat, Nat.mod_eq_of_lt (by omega)]
    have hne : BitVec.ofNat 32 (blockBytes n) ≠ 0 := fun he => by
      rw [he] at hx
      change 0 = blockBytes n at hx
      omega
    rw [hbin, if_neg fun hsmall => ?_]
    · exact ⟨q, n, Function.update_self .., hle⟩
    · have := (binSize_lt_iff hne).mp hsmall
      omega

/-- What is freed is used again: as much is handed out without the heap growing, next to
what was handed out besides. -/
theorem free_then_malloc (hv : Serving g memLock b hs h A) (hl : Live A p bytes) (hsize : size ≠ 0)
    (hbin : Slab.binSize size = Slab.binSize (BitVec.ofNat 32 bytes)) (hle : size.toNat ≤ bytes) :
    ∃ s1 h1 A1 p' s2 h2 bytes' A2, Kernel.free (slabCore g) memLock p hs = returned () hs s1 ∧
      Serving g memLock b ⟨hs.statics, s1⟩ h1 A1 ∧ (∀ q k, Live A1 q k ↔ Live A q k ∧ q ≠ p) ∧
      Kernel.malloc (slabCore g) memLock size ⟨hs.statics, s1⟩ = returned p' ⟨hs.statics, s1⟩ s2 ∧
      Serving g memLock b ⟨hs.statics, s2⟩ h2 A2 ∧ Hands A1 A2 p' bytes' ∧
        p' ≠ null ∧ size.toNat ≤ bytes' ∧
      s2.heapBrk = hs.state.heapBrk := by
  have hA := Consistent.arena hv.consistent
  obtain ⟨s1, h1, A1, hfree, hf⟩ := free_serves hv hl
  have hfits := Releases.fits hA hf.releases hbin hle
  have hv1 := hv.next hf.carries hf.consistent
  obtain ⟨p', s2, h2, bytes', A2, hmalloc, ha⟩ := malloc_serves hv1 hsize (.inl hfits)
  have hl' : Live A2 p' bytes' := (ha.hands.live p' bytes').mpr (.inr ⟨rfl, rfl⟩)
  obtain ⟨hnull, -⟩ := hl'.bounds (Consistent.arena ha.consistent)
  refine ⟨s1, h1, A1, p', s2, h2, bytes', A2, hfree, hv1, fun q k => ?_, hmalloc,
    hv1.next ha.carries ha.consistent, ha.hands,
    hnull, Serves.enough_of_fits ha.serves hsize hfits, (ha.stays hfits).trans hf.stays⟩
  rw [hf.hands.live q k]
  constructor
  · intro hq
    exact ⟨.inl hq, fun he => hf.hands.fresh k (he ▸ hq)⟩
  · intro hq
    obtain ⟨hq, hne⟩ := hq
    exact hq.resolve_right fun he => hne he.1

theorem free_then_malloc_machine :
    ∃ hs p s1 p' s2 A1 A2, Kernel.free (slabCore bootStatics) bootLock p hs = returned () hs s1 ∧
    Kernel.malloc (slabCore bootStatics) bootLock 65 ⟨hs.statics, s1⟩ =
      returned p' ⟨hs.statics, s1⟩ s2 ∧
      (∃ bytes', Hands A1 A2 p' bytes' ∧ 65 ≤ bytes') ∧ s2.heapBrk = hs.state.heapBrk := by
  obtain ⟨hs, h, A, p, hv, hl, -, -, -⟩ := booted_holding
  obtain ⟨s1, -, A1, p', s2, -, bytes', A2, hfree, -, -, hmalloc, -, hhands, -, henough, hbrk⟩ :=
    free_then_malloc hv hl (by decide : (65 : U32int) ≠ 0) (by decide) (by decide)
  exact ⟨hs, p, s1, p', s2, A1, A2, hfree, hmalloc, ⟨bytes', hhands, henough⟩, hbrk⟩

theorem realloc_keeps (hv : Serving g memLock b hs h A) (hl : Live A p bytes) (hsize : size ≠ 0)
    (hroom : size.toNat ≤ bytes ∨ size.toNat + 48 < 2^32 ∧ (Fits A size ∨ HasRoom hs.state size)) :
    ∃ p' s' h' bytes' A', Kernel.realloc (slabCore g) memLock p size hs = returned p' hs s' ∧
      Serving g memLock b ⟨hs.statics, s'⟩ h' A' ∧
        (p' = p ↔ size.toNat ≤ bytes) ∧ size.toNat ≤ bytes' ∧
      (∀ r k, Live A' r k ↔ Live A r k ∧ r ≠ p ∨ r = p' ∧ k = bytes') ∧
      (∀ k : U32int, k.toNat < bytes → s'.load8 (p' + k) = hs.state.load8 (p + k)) ∧
      ∀ r m, Live A r m → r ≠ p → ∀ k : U32int, k.toNat < m →
          s'.load8 (r + k) = hs.state.load8 (r + k) := by
  have hA := Consistent.arena hv.consistent
  by_cases hle : size.toNat ≤ bytes
  · refine ⟨p, hs.state, h, bytes, A, realloc_stays hv hl hsize hle, hv, iff_of_true rfl hle, hle,
      fun r k => ?_, fun _ _ => rfl, fun _ _ _ _ _ _ => rfl⟩
    constructor
    · intro hr
      by_cases hrp : r = p
      · subst hrp
        exact .inr ⟨rfl, Live.unique hA hr hl⟩
      · exact .inl ⟨hr, hrp⟩
    · rintro (⟨hr, -⟩ | ⟨rfl, rfl⟩)
      · exact hr
      · exact hl
  · obtain ⟨hwrap, hmemory⟩ := hroom.resolve_left hle
    obtain ⟨p', s', h', bytes', A', hcall, hm⟩ :=
      realloc_moves hv hl (Nat.lt_of_not_le hle) hwrap hmemory
    have hv' := hv.next hm.carries hm.consistent
    have hl' : Live A' p' bytes' := (hm.live p' bytes').mpr (.inr ⟨rfl, rfl⟩)
    have henough := hm.enough
    refine ⟨p', s', h', bytes', A', hcall, hv',
      iff_of_false (fun he => hm.fresh bytes (he ▸ hl)) hle, henough,
      hm.live, fun k hk => ?_, fun r m hr hrp k hk => ?_⟩
    · rw [Live.load hv hl hk, ← hm.copied k hk]
      exact Live.load hv' hl' (by omega)
    · have hr' : Live A' r m := (hm.live r m).mpr (.inl ⟨hr, hrp⟩)
      obtain ⟨-, -, -, hend, -, -⟩ := hr.bounds hA
      have hlt := h.brk.isLt
      have hsum : (r + k).toNat = r.toNat + k.toNat := by
        rw [BitVec.toNat_add, Nat.mod_eq_of_lt (by omega)]
      rw [Live.load hv hr hk, ← hm.keeps r m hr hr' (r + k) (by omega) (by omega)]
      exact Live.load hv' hr' hk

/-- In a cell of 128 there is no room for 200 bytes, so they move, with what was in it. -/
theorem realloc_keeps_machine :
    ∃ hs p p' s', Kernel.realloc (slabCore bootStatics) bootLock p 200 hs = returned p' hs s' ∧
    p' ≠ p ∧ s'.load8 (p' + 3) = hs.state.load8 (p + 3) := by
  obtain ⟨hs, h, A, p, hv, hl, -, hbrk, hfree⟩ := booted_holding
  have hgrowth : (growth 200).toNat = 4096 := by decide
  obtain ⟨p', s', -, -, -, hcall, -, hstays, -, -, hsame, -⟩ :=
    realloc_keeps hv hl (by decide : (200 : U32int) ≠ 0)
    (.inr ⟨by decide, .inr (Serving.hasRoom hv (by decide) (by omega) (by omega))⟩)
  exact ⟨hs, p, p', s', hcall, fun he => absurd (hstays.mp he) (by decide), hsame 3 (by decide)⟩

/-- What was handed out before is still, and reads as it did. -/
theorem Allocated.others (hv : Serving g memLock b hs h A)
    (ha : Allocated g b hs.state h A size p s' h' bytes A') {r : U32int}
    {m : Nat} (hr : Live A r m) {k : U32int} (hk : k.toNat < m) :
    s'.load8 (r + k) = hs.state.load8 (r + k) := by
  have hr' : Live A' r m := (ha.hands.live r m).mpr (.inl hr)
  obtain ⟨-, -, -, hend, -, -⟩ := hr.bounds (Consistent.arena hv.consistent)
  have hlt := h.brk.isLt
  have hsum : (r + k).toNat = r.toNat + k.toNat := by
    rw [BitVec.toNat_add, Nat.mod_eq_of_lt (by omega)]
  rw [Live.load hv hr hk, ← ha.keeps r m hr hr' (r + k) (by omega) (by omega)]
  exact Live.load (hv.next ha.carries ha.consistent) hr' hk

/-- The product is taken modulo `2^32`. That is the size that is met, and as many bytes are
zero. -/
theorem calloc_zeroes (hv : Serving g memLock b hs h A) (hsize : nmemb * size ≠ 0)
    (hwrap : (nmemb * size).toNat + 48 < 2^32) (hroom : Fits A (nmemb * size) ∨
    HasRoom hs.state (nmemb * size)) :
    ∃ p s' h' bytes A', Kernel.calloc (slabCore g) memLock nmemb size hs = returned p hs s' ∧
      Serving g memLock b ⟨hs.statics, s'⟩ h' A' ∧
        Serves A hs.state.heapBrk (nmemb * size) p bytes A' ∧
      Hands A A' p bytes ∧ nmemb.toNat * size.toNat % 2^32 ≤ bytes ∧
      (∀ k : U32int, k.toNat < nmemb.toNat * size.toNat % 2^32 → s'.load8 (p + k) = .ok 0) ∧
      ∀ r m, Live A r m → ∀ k : U32int, k.toNat < m →
          s'.load8 (r + k) = hs.state.load8 (r + k) := by
  obtain ⟨p, s', h', bytes, A', hcall, ha, hzero⟩ := calloc_serves hv hsize hwrap hroom
  have hv' := hv.next ha.carries ha.consistent
  have henough := Serves.enough ha.serves hsize hwrap
  have hlive : Live A' p bytes := (ha.hands.live p bytes).mpr (.inr ⟨rfl, rfl⟩)
  rw [BitVec.toNat_mul] at henough hzero
  refine ⟨p, s', h', bytes, A', hcall, hv', ha.serves, ha.hands, henough, fun k hk => ?_,
    fun r m hr k hk => Allocated.others hv ha hr hk⟩
  rw [Live.load hv' hlive (hk.trans_le henough),
    hzero (p + k) (by rw [add_sub_cancel_left]; exact hk)]

/-- Of 2^31 + 10 pairs of bytes ten are there, in a cell of 32. -/
theorem calloc_zeroes_machine :
    ∃ hs p s' A', Kernel.calloc (slabCore bootStatics) bootLock 0x8000000A 2 hs = returned p hs s' ∧
    Serves noChunks hs.state.heapBrk 20 p 32 A' ∧ s'.load8 (p + 19) = .ok 0 := by
  obtain ⟨hs, h, hv, hbrk, hfree⟩ := booted_serving
  have hgrowth : (growth (0x8000000A * 2)).toNat = 4096 := by decide
  obtain ⟨p, s', -, bytes, A', hcall, -, hserves, -, -, hzero, -⟩ := calloc_zeroes hv
    (by decide : (0x8000000A * 2 : U32int) ≠ 0) (by decide)
      (.inr (Serving.hasRoom hv (by decide) (by omega) (by omega)))
  have hbin : Slab.binSize (0x8000000A * 2) < bigBin := by decide
  obtain rfl : bytes = 32 := Serves.bytes_eq hserves hbin
  exact ⟨hs, p, s', A', hcall, hserves, hzero 19 (by decide)⟩

/-- The address is a page, with the bytes asked for behind it in one allocation, and freeing
it gives back just that. -/
theorem valloc_pages (hv : Serving g memLock b hs h A) (hwrap : size.toNat + 4096 < 2^32)
    (hroom : Fits A (size + pageSize - bigBinHeaderSize) ∨
    HasRoom hs.state (size + pageSize - bigBinHeaderSize)) :
    ∃ p s' h' A' s'' h'' A'', Kernel.valloc (slabCore g) memLock size hs = returned p hs s' ∧
      Serving g memLock b ⟨hs.statics, s'⟩ h' A' ∧ p.toNat % 4096 = 0 ∧
      (∃ r m, Hands A A' r m ∧ r.toNat < p.toNat ∧ p.toNat + size.toNat ≤ r.toNat + m) ∧
      Kernel.free (slabCore g) memLock p ⟨hs.statics, s'⟩ = returned () ⟨hs.statics, s'⟩ s'' ∧
      Serving g memLock b ⟨hs.statics, s''⟩ h'' A'' ∧ ∀ r m, Live A'' r m ↔ Live A r m := by
  obtain ⟨q, n, s', h', A', hcall, ha, hq, haligned, hn⟩ := valloc_serves hv hwrap hroom
  have hv' := hv.next ha.carries ha.consistent
  have hbelow : q.toNat + 4096 * n ≤ h'.brk.toNat := (Consistent.arena ha.consistent).below q _ hq
  have hlt := h'.brk.isLt
  obtain ⟨s'', h'', A'', hfree, hf⟩ := free_valloc hv' hq
  have hpage : (q + pageSize).toNat = q.toNat + 4096 := by
    rw [BitVec.toNat_add, show pageSize.toNat = 4096 from rfl, Nat.mod_eq_of_lt (by omega)]
  have hblock : (q + bigBinHeaderSize).toNat = q.toNat + 48 := by
    rw [BitVec.toNat_add, show bigBinHeaderSize.toNat = 48 from rfl, Nat.mod_eq_of_lt (by omega)]
  have hbytes := blockBytes_eq (n := n) (by omega)
  refine ⟨q + pageSize, s', h', A', s'', h'', A'', hcall, hv', by omega,
    ⟨_, _, ha.hands, by omega, by omega⟩, hfree, hv'.next hf.carries hf.consistent, fun r m => ?_⟩
  have htook := ha.hands.live r m
  have hgave := hf.hands.live r m
  constructor
  · intro hr
    refine (htook.mp (hgave.mpr (.inl hr))).resolve_right fun ⟨he, _⟩ => ?_
    exact hf.hands.fresh m (he ▸ hr)
  · intro hr
    refine (hgave.mp (htook.mpr (.inl hr))).resolve_right fun ⟨he, _⟩ => ?_
    exact ha.hands.fresh m (he ▸ hr)

theorem valloc_pages_machine :
    ∃ hs p s', Kernel.valloc (slabCore bootStatics) bootLock 4096 hs = returned p hs s' ∧
    p.toNat % 4096 = 0 := by
  obtain ⟨hs, h, hv, hbrk, hfree⟩ := booted_serving
  have hgrowth : (growth (4096 + pageSize - bigBinHeaderSize)).toNat = 12288 := by decide
  obtain ⟨p, s', -, -, -, -, -, hcall, -, haligned, -⟩ :=
    valloc_pages hv (by decide : (4096 : U32int).toNat + 4096 < 2^32)
    (.inr (Serving.hasRoom hv (by decide) (by omega) (by omega)))
  exact ⟨hs, p, s', hcall, haligned⟩

theorem adjustBin_le (l : U32int) : Slab.adjustBin l ≤ bigBin := by
  rw [Slab.adjustBin]
  split_ifs with hlow hhigh
  · exact by decide
  · exact BitVec.le_refl _
  · exact BitVec.not_lt.mp hhigh

/-- The bin of a size is the first whose cells are large enough; above 2048 bytes it is the
one of the blocks. -/
theorem binSize_least (hsize : size ≠ 0) :
    (size.toNat ≤ 2048 → Slab.binSize size < bigBin ∧
    size.toNat ≤ 2^((Slab.binSize size).toNat + 2) ∧
      ∀ i < bigBin, size.toNat ≤ 2^(i.toNat + 2) → Slab.binSize size ≤ i) ∧
    (2048 < size.toNat → Slab.binSize size = bigBin) := by
  have hsmall := binSize_lt_iff hsize
  refine ⟨fun hle => ?_, fun hlt => ?_⟩
  · have hbin := hsmall.mpr hle
    exact ⟨hbin, (binSize_le_iff hsize hbin).mp (BitVec.le_refl _),
      fun i hi => (binSize_le_iff hsize hi).mpr⟩
  · refine BitVec.le_antisymm ?_ (BitVec.not_lt.mp fun hb => absurd (hsmall.mp hb) (by omega))
    exact adjustBin_le _

theorem binSize_least_middle : Slab.binSize 1025 ≤ 9 ∧ Slab.binSize 2049 = bigBin :=
  ⟨((binSize_least (by decide)).1 (by decide)).2.2 9 (by decide) (by decide),
    (binSize_least (by decide)).2 (by decide)⟩

/-- With the header the last 48 sizes come to less than a page, so that a page is handed
out for 4 GiB. -/
theorem malloc_wraps (hv : Serving g memLock b hs h A) (hwrap : 2^32 ≤ size.toNat + 48)
    (hwindow : hs.state.heapBrk.toNat + 4096 <
      hs.state.heapStartRelVirtAddr.toNat + hs.state.heapSize.toNat)
    (hpages : missingTables hs.state + 1 ≤ (dataFree hs.state).length) : ∃ p s' h' A',
      Kernel.malloc (slabCore g) memLock size hs = returned p hs s' ∧
        Serving g memLock b ⟨hs.statics, s'⟩ h' A' ∧
        Hands A A' p 4048 ∧ 4048 < size.toNat ∧ s'.heapBrk = hs.state.heapBrk + 4096 := by
  have hA := Consistent.arena hv.consistent
  have hsize : size ≠ 0 := fun he => by
    rw [he] at hwrap
    exact absurd hwrap (by decide)
  have hbin : ¬ Slab.binSize size < bigBin := fun hb => by
    have := (binSize_lt_iff hsize).mp hb
    omega
  have hone := blockPages_wrap hwrap
  have hgrowth : growth size = 4096 := by
    rw [growth, if_neg hbin, hone]
    rfl
  have hsmall : ∀ {q : U32int} {n : Nat} {f : Bool}, A q = some (.block n f) →
      blockBytes n < size.toNat := by
    intro q n f hq
    have hn : 0 < n := (hA.chunk q _ hq).pages_pos
    have hbelow : q.toNat + 4096 * n ≤ h.brk.toNat := hA.below q _ hq
    have habove := hA.above q _ hq
    have hpos := b.start_pos
    have hlt := h.brk.isLt
    have hbytes := blockBytes_eq hn
    omega
  have hroom : HasRoom hs.state size := by
    refine ⟨by rw [hgrowth]; decide, ?_, ?_⟩ <;> rw [hgrowth]
    · exact hwindow
    · exact hpages
  have hfits : ¬ Fits A size := by
    rw [Fits, if_neg hbin]
    rintro ⟨q, n, hq, hle⟩
    exact absurd (hsmall hq) (Nat.not_lt.mpr hle)
  obtain ⟨p, s', h', bytes, A', hcall, ha⟩ := malloc_serves hv hsize (.inr hroom)
  have hbytes : bytes = 4048 := by
    cases ha.serves with
    | cell hb => exact absurd hb hbin
    | page hb => exact absurd hb hbin
    | block _ hq hfit => exact absurd (hsmall hq) (Nat.not_lt.mpr hfit)
    | grow => rw [hone]; rfl
  exact ⟨p, s', h', A', hcall, hv.next ha.carries ha.consistent, hbytes ▸ ha.hands, by omega,
    (ha.grows hfits).trans (by rw [hgrowth])⟩

theorem malloc_wraps_machine :
    ∃ hs p s', Kernel.malloc (slabCore bootStatics) bootLock 0xFFFFFFFF hs = returned p hs s' ∧
    s'.heapBrk = hs.state.heapBrk + 4096 := by
  obtain ⟨hs, h, hv, hbrk, hfree⟩ := booted_serving
  obtain ⟨t, a, L, hw⟩ := id hv.carries
  have hlimit : hs.state.heapStartRelVirtAddr.toNat + hs.state.heapSize.toNat = 0xC00000 :=
    hw.window.limit
  obtain ⟨p, s', -, -, hcall, -, -, -, hgrows⟩ :=
    malloc_wraps hv (by decide : 2^32 ≤ (0xFFFFFFFF : U32int).toNat + 48) (by omega) (by omega)
  exact ⟨hs, p, s', hcall, hgrows⟩

/-- Whatever a program of loads, stores and `sbrk` does on plain words it does on the
kernel, through segments, page tables and the page allocator. -/
theorem programs_faithful {α : Type} (prog : Program U32int Trap α) {a : α} (hc : Carries b s h)
    (hrun : prog.run (heapMachine b) h = .ok (a, h')) :
    ∃ s', prog.run kernelMachine s = .ok (a, s') ∧ Carries b s' h' :=
    (kernel_refines b).run prog hc hrun

/-- The first 100 bytes: a page from `sbrk`, its header and its cells. -/
theorem programs_faithful_machine :
    ∃ s p s', (Slab.klmalloc bootStatics 100).run kernelMachine s = .ok (p, s') ∧
    s'.heapBrk = s.heapBrk + 4096 := by
  obtain ⟨hs, h, hv, hbrk, hfree⟩ := booted_serving
  have hgrowth : (growth 100).toNat = 4096 := by decide
  have hroom := Serving.hasRoom hv (by decide : growth 100 ≠ 0) (by omega) (by omega)
  have hc := Carries.withRoom hv.carries
  obtain ⟨p, h', hrun, bytes, A', hserved⟩ := klmalloc_yields (Consistent.withRoom hv.consistent _)
    (by decide : (100 : U32int) ≠ 0) (.inr (hroom.room hv.carries))
  obtain ⟨s', hrun', hc'⟩ := programs_faithful _ hc hrun
  refine ⟨hs.state, p, s', hrun', ?_⟩
  rw [Carries.brk hc', Carries.brk hv.carries]
  exact (hserved.grown noChunks_fits).1

theorem Serving.window (hv : Serving g memLock b hs h A) : HeapBreak.Window hs.state := by
  obtain ⟨t, a, L, hw⟩ := hv.carries
  have hstart := hw.window.start
  have hlimit := hw.window.limit
  exact ⟨hstart ▸ hw.window.start_aligned,
    hw.brk ▸ hw.brk_aligned, by rw [hstart, hw.brk]; exact hw.brk_above,
    by rw [hlimit, hw.brk]; exact hw.brk_below⟩

/-- Two pages, then a third behind them. -/
theorem break_advances_booted :
    ∃ s s1 s2, s.sbrk 0x2000 = .ok (0x800000, s1) ∧ s1.sbrk 0x1000 = .ok (0x802000, s2) ∧
    HeapBreak.Advances s 0x2000 ∧ HeapBreak.Window s2 ∧
    HeapBreak.Consecutive 0x800000 [(0x800000, 0x2000), (0x802000, 0x1000)] 0x803000 := by
  obtain ⟨hs, h, hv, hbrk, hfree⟩ := booted_serving
  obtain ⟨t, a, L, hw⟩ := Carries.withRoom hv.carries
  have hstart : hs.state.heapBrk = 0x800000 := BitVec.eq_of_toNat_eq hbrk
  have hstart' : h.brk = 0x800000 := hw.brk.symm.trans hstart
  have htwo : Grows bootBounds
      { h with room := (dataFree hs.state).length - missingTables hs.state } 0x2000 := by
    refine ⟨by decide, ?_, ?_⟩
    · change 2 ≤ (dataFree hs.state).length - missingTables hs.state
      omega
    · change h.brk.toNat + 0x2000 < 0xC00000
      rw [hstart']
      decide
  obtain ⟨s1, t1, a1, L1, hcall1, hw1⟩ := hw.sbrk htwo
  have hone : Grows bootBounds
      (Heap.grown { h with room := (dataFree hs.state).length - missingTables hs.state } 0x2000)
          0x1000 := by
    refine ⟨by decide, ?_, ?_⟩
    · change 1 ≤ (dataFree hs.state).length - missingTables hs.state - 2
      omega
    · change (h.brk + 0x2000).toNat + 0x1000 < 0xC00000
      rw [hstart']
      decide
  obtain ⟨s2, t2, a2, L2, hcall2, hw2⟩ := hw1.sbrk hone
  have hmiddle : s1.heapBrk = 0x802000 := by
    rw [hw1.brk]
    change h.brk + 0x2000 = _
    rw [hstart']
    rfl
  have hend : s2.heapBrk = 0x803000 := by
    rw [hw2.brk]
    change h.brk + 0x2000 + 0x1000 = _
    rw [hstart']
    rfl
  change _ = Except.ok (h.brk, s1) at hcall1
  change _ = Except.ok (h.brk + 0x2000, s2) at hcall2
  rw [hstart'] at hcall1 hcall2
  obtain ⟨hcall, hrun⟩ := HeapBreak.break_advances_iff (Serving.window hv)
  have hhistory : HeapBreak.History hs.state [(0x800000, 0x2000), (0x802000, 0x1000)] s2 :=
    .call (.call .start (by rw [hstart]; decide) hcall1) (by rw [hmiddle]; decide) hcall2
  obtain ⟨hwindow, -, hranges, -⟩ := hrun s2 _ hhistory
  rw [hstart, hend] at hranges
  have hpasses : HeapBreak.Passes hs.state 0x2000 := by
    obtain ⟨⟨hinc, hbrk', hbelow⟩, -, -⟩ := HeapBreak.sbrk_spec hcall1
    exact ⟨hinc, hbrk', hbelow⟩
  exact ⟨hs.state, s1, s2, hcall1, hcall2, (hcall 0x2000 hpasses).1.mpr (by rw [hstart]; decide),
    hwindow, hranges⟩

/-- After `malloc` and `free` have come back, and with the chunk still held. -/
theorem once_locked_booted : ∃ hs p hs1 hs2,
    (Kernel.malloc (slabCore bootStatics) bootLock 100 hs).result = .ok (p, hs1) ∧
    (Kernel.free (slabCore bootStatics) bootLock p hs1).result = .ok ((), hs2) ∧
    HeapLock.OnceLocked bootLock
    (HeapLock.HeapCall.run (slabCore bootStatics) bootLock hs1 (.realloc p 200)) ∧
    HeapLock.OnceLocked bootLock
    (HeapLock.HeapCall.run (slabCore bootStatics) bootLock hs2 (.malloc 65)) := by
  obtain ⟨hs, h, hv, hbrk, hfree⟩ := booted_serving
  have hgrowth : (growth 100).toNat = 4096 := by decide
  obtain ⟨p, s', h', bytes, A', hmalloc, ha⟩ := malloc_serves hv (by decide : (100 : U32int) ≠ 0)
    (.inr (Serving.hasRoom hv (by decide) (by omega) (by omega)))
  have hv1 := hv.next ha.carries ha.consistent
  have hlive : Live A' p bytes := (ha.hands.live p bytes).mpr (.inr ⟨rfl, rfl⟩)
  obtain ⟨hnull, -⟩ := hlive.bounds (Consistent.arena ha.consistent)
  obtain ⟨s2, -, -, hfreed, -⟩ := free_serves hv1 hlive
  have hfirst : HeapLock.Returned (slabCore bootStatics) bootLock hs ⟨hs.statics, s'⟩ :=
    ⟨.malloc 100, HeapLock.unvalued_result.mpr ⟨p, congrArg Outcome.result hmalloc⟩⟩
  have hsecond : HeapLock.Returned (slabCore bootStatics) bootLock
      ⟨hs.statics, s'⟩ ⟨hs.statics, s2⟩ :=
    ⟨.free p, HeapLock.unvalued_result.mpr ⟨(), congrArg Outcome.result hfreed⟩⟩
  have hone := (HeapLock.once_locked_iff hv.free (.single hfirst)).2 (.realloc p 200)
  have htwo := (HeapLock.once_locked_iff hv.free
    ((Relation.ReflTransGen.single hfirst).tail hsecond)).2 (.malloc 65)
  refine ⟨hs, p, _, _, congrArg Outcome.result hmalloc, congrArg Outcome.result hfreed,
    hone.mpr (.inl fun h => ?_), htwo.mpr (.inl id)⟩
  exact h.elim hnull (by decide)

end

end SimpleOs.Audit.HeapContract
