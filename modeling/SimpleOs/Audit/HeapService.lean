import SimpleOs.Audit.HeapBytes
import SimpleOs.Audit.HeapLock
import SimpleOs.Audit.SelfMap
import SimpleOs.Audit.SlabSizes

/-!
# The heap calls of the kernel

`malloc`, `free`, `calloc`, `realloc` and `valloc` on a running kernel whose heap is an
arena: they come back with the lock free, do to the arena what their names say, and leave
the bytes of everything else alone.
-/

namespace SimpleOs.Audit.HeapService

open SimpleOs.Kernel SimpleOs.Lib SimpleOs.Lib.ByteMemory SimpleOs.Lib.WordProgram
open SimpleOs.Audit.PageTables SimpleOs.Audit.AddressSpace SimpleOs.Audit.PageSupply
open SimpleOs.Audit.LinearView SimpleOs.Audit.SlabHeap SimpleOs.Audit.SlabIndex
open SimpleOs.Audit.SlabCells
open SimpleOs.Audit.SlabBlocks SimpleOs.Audit.SlabCalls SimpleOs.Audit.SlabSizes
open SimpleOs.Audit.HeapWords SimpleOs.Audit.HeapBytes SimpleOs.Audit.HeapLock

/-- A computation on the heap that leaves the lock alone and comes back. -/
def Quiet {α : Type} (body : Locking α) (s : State) (a : α) (s' : State) : Prop :=
  ∀ statics, body ⟨statics, s⟩ = ⟨[], .ok (a, ⟨statics, s'⟩)⟩

section

variable {α β : Type} {body : Locking α} {k : α → Locking β} {s s' s'' : State} {a : α} {c : β}
  {memLock : Addr} {hs : HeapState}

theorem Quiet.onHeap {f : State → Except Trap (α × State)} (h : f s = .ok (a, s')) :
    Quiet (.onHeap f) s a s' := by
  intro statics
  rw [Locking.onHeap, h]

theorem Quiet.pure (a : α) (s : State) : Quiet (pure a) s a s := fun _ => rfl

theorem Quiet.bind (h : Quiet body s a s') (hk : Quiet (k a) s' c s'') :
    Quiet (body >>= k) s c s'' := by
  intro statics
  rw [bind_ok (congrArg Outcome.result (h statics)), h statics, hk statics]
  rfl

theorem Quiet.check {b : Bool} (h : b = true) (s : State) : Quiet (Locking.check b) s () s := by
  refine .onHeap ?_
  rw [h]
  rfl

theorem Quiet.read32 {rel v : U32int} (h : s.load32 rel = .ok v) :
    Quiet (Locking.read32 rel) s v s := by
  refine .onHeap ?_
  rw [h]
  rfl

/-- Taking the lock and giving it back changes no static data. -/
theorem unlock_lock {m : Memory} (hfree : m memLock = unlocked) (hclear : ClearBehind m memLock) :
    mutexUnlock (mutexLock m memLock).2 memLock = m := by
  funext x
  rw [mutexUnlock]
  by_cases hx : x = memLock
  · rw [hx, write8_same, hfree]
  · rw [write8_of_ne _ _ hx]
    exact (xchg_frame_iff m memLock).mpr hclear x hx

/-- A call takes the lock once and gives it back. -/
theorem underLock_quiet (hbody : Quiet body hs.state a s') (hfree : hs.statics memLock = unlocked)
    (hclear : ClearBehind hs.statics memLock) : underLock memLock body hs =
      ⟨[.attempt, .acquired, .released], .ok (a, ⟨hs.statics, s'⟩)⟩ := by
  have htaken : body (taken hs memLock) = ⟨[], .ok (a, ⟨(taken hs memLock).statics, s'⟩)⟩ :=
    hbody (taken hs memLock).statics
  rw [underLock_returns (hclear.lock_acquires.mpr hfree) (congrArg Outcome.result htaken), htaken]
  refine congrArg (fun m => (⟨_, .ok (a, ⟨m, s'⟩)⟩ : Outcome α)) ?_
  exact unlock_lock hfree hclear

end

/-- Page tables the window of the heap still lacks. -/
def missingTables (s : State) : Nat :=
  ((heapTables s).filter fun i => (entryAt s.data (pdCell s i)).present = false).card

/-- The window, the free pages and the missing tables leave room for the request. -/
structure HasRoom (s : State) (size : U32int) : Prop where
  growth_ne : growth size ≠ 0
  window : s.heapBrk.toNat + (growth size).toNat < s.heapStartRelVirtAddr.toNat + s.heapSize.toNat
  pages : missingTables s + (growth size).toNat / 4096 ≤ (dataFree s).length

section

variable {g : SlabStatics} {b : Bounds} {s : State} {t : TableMap} {a : Space} {L : Memory}
  {h : Heap} {A : Arena} {size : U32int} {r : Nat}

theorem need_eq_missing (h : Holds s t a) : need (heapTables s) a = missingTables s := by
  rw [need, missingTables]
  congr 1
  ext i
  rw [Finset.mem_sdiff, Finset.mem_filter]
  refine and_congr_right fun hi => ?_
  obtain ⟨k, -, rfl⟩ := Finset.mem_image.mp hi
  have hlt := tableIndex_lt (PageRuns.linAt (heapBase s) (4096 * k))
  rw [h.covered _ hlt, ← Bool.not_eq_true, SelfMap.present_iff h.tables.toWalks hlt,
    Option.isSome_iff_exists]

theorem Consistent.withRoom (hk : Consistent g b h A) (r : Nat) :
    Consistent g b { h with room := r } A := by
  obtain ⟨bins, levels, top, hs, hx, hfree⟩ := hk
  have hA := hs.arena
  exact ⟨bins, levels, top, ⟨hs.placed, hs.brk_aligned, hs.brk_above,
    ⟨hA.aligned, hA.above, hA.below, hA.apart, hA.chunk⟩, hs.pages, hs.newest⟩, hx, hfree⟩

/-- As many pages as there are. -/
theorem Carries.withRoom (hc : Carries b s h) :
    Carries b s { h with room := (dataFree s).length - missingTables s } := by
  obtain ⟨t, a, L, hw⟩ := hc
  have hroom := hw.room
  refine ⟨t, a, L, hw.window, hw.view, hw.brk, hw.brk_aligned, hw.brk_above,
    hw.brk_below, ?_, hw.statics, hw.heap⟩
  rw [need_eq_missing hw.view.ready.holds] at hroom ⊢
  change missingTables s + (_ - _) ≤ _
  omega

theorem growth_aligned (size : U32int) : (growth size).toNat % 4096 = 0 := by
  rw [growth]
  split_ifs
  · rfl
  · rw [BitVec.toNat_mul, show pageSize.toNat = 4096 from rfl]
    omega

theorem HasRoom.room (hr : HasRoom s size) (hc : Carries b s h) :
    Room b { h with room := (dataFree s).length - missingTables s } size := by
  obtain ⟨t, a, L, hw⟩ := hc
  have hwindow := hr.window
  have hpages := hr.pages
  rw [hw.window.limit, hw.brk] at hwindow
  refine ⟨hr.growth_ne, growth_aligned size, ?_, hwindow⟩
  change _ ≤ (dataFree s).length - missingTables s
  omega

end

/-- What was handed out and still is keeps its bytes. -/
def Keeps (A A' : Arena) (h h' : Heap) : Prop :=
  ∀ p bytes, Live A p bytes → Live A' p bytes → ∀ x : U32int, p.toNat ≤ x.toNat →
    x.toNat < p.toNat + bytes → byte h' x = byte h x

/-- A request of `size` has been met at `p` with `bytes`. -/
structure Allocated (g : SlabStatics) (b : Bounds) (s : State) (h : Heap) (A : Arena)
    (size p : U32int) (s' : State) (h' : Heap) (bytes : Nat) (A' : Arena) : Prop where
  carries : Carries b s' h'
  consistent : Consistent g b h' A'
  serves : Serves A s.heapBrk size p bytes A'
  hands : Hands A A' p bytes
  keeps : Keeps A A' h h'
  stays : Fits A size → s'.heapBrk = s.heapBrk
  grows : ¬ Fits A size → s'.heapBrk = s.heapBrk + growth size
  /-- No more pages are taken than the heap grows by, and those for missing tables. -/
  left : (dataFree s).length ≤ missingTables s + h'.room + (growth size).toNat / 4096

/-- What was at `p` has gone back. -/
structure Freed (g : SlabStatics) (b : Bounds) (s : State) (h : Heap) (A : Arena) (p : U32int)
    (bytes : Nat) (s' : State) (h' : Heap) (A' : Arena) : Prop where
  carries : Carries b s' h'
  consistent : Consistent g b h' A'
  releases : Releases A p bytes A'
  hands : Hands A' A p bytes
  keeps : Keeps A A' h h'
  stays : s'.heapBrk = s.heapBrk

section

variable {g : SlabStatics} {b : Bounds} {s : State} {h h' : Heap} {A A' : Arena}
  {p q x size : U32int} {bytes n : Nat}

theorem Carries.brk (hc : Carries b s h) : s.heapBrk = h.brk := by
  obtain ⟨t, a, L, hw⟩ := hc
  exact hw.brk

/-- The word of a byte that is handed out is, too. -/
theorem Live.word (hA : ArenaAt b h A) (hl : Live A p bytes) (hlow : p.toNat ≤ x.toNat)
    (hhigh : x.toNat < p.toNat + bytes) : HandedOut A (wordOf x) := by
  obtain ⟨-, h4, -, -, -, hmod⟩ := hl.bounds hA
  have hx := wordOf_toNat x
  exact ⟨p, bytes, hl, by omega, by omega⟩

theorem keeps_of_kept (hA : ArenaAt b h A) (hk : Kept A h h') (A' : Arena) : Keeps A A' h h' := by
  intro p bytes hl _ x hlow hhigh
  rw [byte, byte, hk _ (Live.word hA hl hlow hhigh)]

theorem keeps_of_kept_after (hA : ArenaAt b h' A') (hk : Kept A' h h')
    (A : Arena) : Keeps A A' h h' := by
  intro p bytes _ hl x hlow hhigh
  rw [byte, byte, hk _ (Live.word hA hl hlow hhigh)]

theorem Consistent.arena (hk : Consistent g b h A) : ArenaAt b h A := by
  obtain ⟨bins, levels, top, hs⟩ := hk
  exact hs.stands.arena

theorem klmalloc_state (hc : Carries b s h) (hk : Consistent g b h A) (hsize : size ≠ 0)
    (hroom : Fits A size ∨ HasRoom s size) :
    ∃ p s' h' bytes A', (slabCore g).klmalloc size s = .ok (p, s') ∧
      Allocated g b s h A size p s' h' bytes A' := by
  have hc1 := Carries.withRoom hc
  have hk1 := Consistent.withRoom hk ((dataFree s).length - missingTables s)
  have hy := klmalloc_yields hk1 hsize (hroom.imp_right fun hr => hr.room hc)
  obtain ⟨p, s', hrun, h', hc', bytes, A', hserved⟩ := (kernel_refines b).yields hc1 hy
  have hserves : Serves A h.brk size p bytes A' := hserved.serves
  obtain ⟨bins, levels, top, hsound⟩ := id hk
  refine ⟨p, s', h', bytes, A', hrun, hc',
    hserved.consistent, by rw [Carries.brk hc]; exact hserves,
    hserves.hands hsound.stands, keeps_of_kept hsound.stands.arena hserved.kept A',
      fun hf => ?_, fun hf => ?_, ?_⟩
  · rw [Carries.brk hc', Carries.brk hc]
    exact (hserved.fit hf).1
  · rw [Carries.brk hc', Carries.brk hc]
    exact (hserved.grown hf).1
  · by_cases hf : Fits A size
    · have hr : h'.room = (dataFree s).length - missingTables s := (hserved.fit hf).2
      omega
    · have hr : h'.room = (dataFree s).length - missingTables s - (growth size).toNat / 4096 :=
        (hserved.grown hf).2
      omega

theorem freed_of_yields (hc : Carries b s h) (hk : Consistent g b h A)
    (hy : Yields (heapMachine b) (Slab.klfree g q) h fun _ h' => ∃ A',
    Released g b h A p bytes h' A') :
    ∃ s' h' A', (slabCore g).klfree q s = .ok ((), s') ∧ Freed g b s h A p bytes s' h' A' := by
  obtain ⟨⟨⟩, s', hrun, h', hc', A', hreleased⟩ := (kernel_refines b).yields hc hy
  have hA' := Consistent.arena hreleased.consistent
  refine ⟨s', h', A', hrun, hc', hreleased.consistent, hreleased.releases,
    hreleased.releases.hands (Consistent.arena hk), keeps_of_kept_after hA' hreleased.kept A, ?_⟩
  rw [Carries.brk hc', Carries.brk hc, hreleased.brk]

theorem klfree_state (hc : Carries b s h) (hk : Consistent g b h A) (hl : Live A p bytes) :
    ∃ s' h' A', (slabCore g).klfree p s = .ok ((), s') ∧ Freed g b s h A p bytes s' h' A' :=
  freed_of_yields hc hk (klfree_yields hk hl)

/-- What a client writes into what it was given is nothing to the allocator. -/
theorem Consistent.client (hk : Consistent g b h A)
    (hw : Writes (HandedOut A) h h') : Consistent g b h' A := by
  obtain ⟨bins, levels, top, hs⟩ := hk
  refine ⟨bins, levels, top, hs.stands.handedOut hw,
    Index.frame hs.index hs.stands hs.blocks (fun x hx => hw.words x ?_)
    (fun q hq => hw.words _ ?_), hs.free⟩
  · exact hs.stands.index_not_handedOut hx
  · obtain ⟨n, f, hq⟩ := hq
    exact fun ho => HandedOut.not_reads hs.stands.arena ho hq (.inr (.inl rfl))

/-- Words of a range of bytes that is handed out. -/
theorem Live.words (hA : ArenaAt b h A) (hl : Live A p bytes) (hn : n ≤ bytes) :
    WordsOf p n ⊆ HandedOut A := by
  rintro w ⟨x, hx, rfl⟩
  obtain ⟨-, -, -, hend, -, -⟩ := hl.bounds hA
  have hlt := h.brk.isLt
  exact Live.word hA hl (by bv_omega) (by bv_omega)

end

/-- A kernel whose heap is the arena `A`, with the lock free. -/
structure Serving (g : SlabStatics) (memLock : Addr) (b : Bounds) (hs : HeapState)
    (h : Heap) (A : Arena) : Prop where
  carries : Carries b hs.state h
  consistent : Consistent g b h A
  free : hs.statics memLock = unlocked
  clear : ClearBehind hs.statics memLock

/-- What a call that takes the lock once comes back with. -/
def returned {α : Type} (a : α) (hs : HeapState) (s' : State) : Outcome α :=
  ⟨[.attempt, .acquired, .released], .ok (a, ⟨hs.statics, s'⟩)⟩

section

variable {g : SlabStatics} {memLock : Addr} {b : Bounds} {hs : HeapState}
  {h h' h'' : Heap} {A A' : Arena}
  {p q x size nmemb : U32int} {bytes n : Nat} {s s' : State} {c : U8int} {d : Chunk} {f : Bool}

theorem Serving.outcome {α : Type} {body : Locking α} {a : α} (hv : Serving g memLock b hs h A)
    (hbody : Quiet body hs.state a s') : underLock memLock body hs = returned a hs s' :=
  underLock_quiet hbody hv.free hv.clear

theorem Serving.next (hv : Serving g memLock b hs h A) (hc : Carries b s' h')
    (hk : Consistent g b h' A') :
    Serving g memLock b ⟨hs.statics, s'⟩ h' A' := ⟨hc, hk, hv.free, hv.clear⟩

/-- With nothing asked for nothing happens. -/
theorem malloc_zero (hv : Serving g memLock b hs h A) :
    Kernel.malloc (slabCore g) memLock 0 hs = returned null hs hs.state :=
  hv.outcome (.onHeap rfl)

theorem malloc_serves (hv : Serving g memLock b hs h A) (hsize : size ≠ 0)
    (hroom : Fits A size ∨ HasRoom hs.state size) : ∃ p s' h' bytes A',
      Kernel.malloc (slabCore g) memLock size hs = returned p hs s' ∧
        Allocated g b hs.state h A size p s' h' bytes A' := by
  obtain ⟨p, s', h', bytes, A', hcall, ha⟩ := klmalloc_state hv.carries hv.consistent hsize hroom
  exact ⟨p, s', h', bytes, A', hv.outcome (.onHeap hcall), ha⟩

theorem free_serves (hv : Serving g memLock b hs h A) (hl : Live A p bytes) : ∃ s' h' A',
    Kernel.free (slabCore g) memLock p hs = returned () hs s' ∧
    Freed g b hs.state h A p bytes s' h' A' := by
  obtain ⟨s', h', A', hcall, hf⟩ := klfree_state hv.carries hv.consistent hl
  exact ⟨s', h', A', hv.outcome (.onHeap hcall), hf⟩

theorem free_null (hv : Serving g memLock b hs h A) :
    Kernel.free (slabCore g) memLock null hs = returned () hs hs.state :=
  hv.outcome (.onHeap rfl)

/-- What is written to one allocation leaves the others alone. -/
theorem Live.others (hA : ArenaAt b h A) (hl : Live A p bytes)
    (hn : n ≤ bytes) {r : U32int} {k : Nat}
    (hr : Live A r k) (hrp : r ≠ p) (hlow : r.toNat ≤ x.toNat) (hhigh : x.toNat < r.toNat + k) :
    ¬ (x - p).toNat < n := by
  obtain ⟨-, -, -, hend, -, -⟩ := hl.bounds hA
  have hlt := h.brk.isLt
  rcases hr.eq_or_apart hA hl with ⟨he, -⟩ | hap
  · exact absurd he hrp
  · bv_omega

/-- A new allocation, written to. -/
theorem Allocated.written (ha : Allocated g b s h A size p s' h' bytes A') {s'' : State}
    (hc : Carries b s'' h'') (hn : n ≤ bytes) (hw : Writes (WordsOf p n) h' h'')
    (hbytes : ∀ y : U32int, ¬ (y - p).toNat < n → byte h'' y = byte h' y) :
    Allocated g b s h A size p s'' h'' bytes A' := by
  have hA := Consistent.arena ha.consistent
  have hl : Live A' p bytes := (ha.hands.live p bytes).mpr (.inr ⟨rfl, rfl⟩)
  have hbrk : s''.heapBrk = s'.heapBrk := by rw [Carries.brk hc, Carries.brk ha.carries, hw.brk]
  refine ⟨hc, Consistent.client ha.consistent (hw.mono (Live.words hA hl hn)), ha.serves,
    ha.hands, fun r k hr hr' x hlow
    hhigh => ?_, fun hf => hbrk.trans (ha.stays hf), fun hf => hbrk.trans (ha.grows hf), ?_⟩
  · have hrp : r ≠ p := fun he => ha.hands.fresh k (he ▸ hr)
    rw [hbytes x (Live.others hA hl hn hr' hrp hlow hhigh)]
    exact ha.keeps r k hr hr' x hlow hhigh
  · rw [hw.room]
    exact ha.left

/-- The page tables still missing and the pages of the heap's room are there. -/
theorem Carries.room (hc : Carries b s h) : missingTables s + h.room ≤ (dataFree s).length := by
  obtain ⟨t, a, L, hw⟩ := hc
  rw [← need_eq_missing hw.view.ready.holds]
  exact hw.room

/-- The product is taken in 32 bits; as many bytes are set to zero. -/
theorem calloc_serves (hv : Serving g memLock b hs h A) (hsize : nmemb * size ≠ 0)
    (hwrap : (nmemb * size).toNat + 48 < 2^32) (hroom : Fits A (nmemb * size) ∨
    HasRoom hs.state (nmemb * size)) :
    ∃ p s' h' bytes A', Kernel.calloc (slabCore g) memLock nmemb size hs = returned p hs s' ∧
      Allocated g b hs.state h A (nmemb * size) p s' h' bytes A' ∧
        ∀ x : U32int, (x - p).toNat < (nmemb * size).toNat → byte h' x = 0 := by
  obtain ⟨p, s1, h1, bytes, A', hcall, ha⟩ := klmalloc_state hv.carries hv.consistent hsize hroom
  have hA := Consistent.arena ha.consistent
  have hl : Live A' p bytes := (ha.hands.live p bytes).mpr (.inr ⟨rfl, rfl⟩)
  have henough := Serves.enough ha.serves hsize hwrap
  obtain ⟨hnull, -, hlow, hend, -, -⟩ := hl.bounds hA
  obtain ⟨s2, h2, hset, hc2, hw2, hb2⟩ :=
    Carries.memset 0 (n := (nmemb * size).toNat) (p := p) ha.carries hlow (by omega)
  refine ⟨p, s2, h2, bytes, A', hv.outcome ?_,
    ha.written hc2 henough hw2 fun y hy => ?_, fun x hx => ?_⟩
  · refine (Quiet.onHeap hcall).bind ?_
    rw [if_pos hnull]
    refine Quiet.bind (a := ()) (.onHeap ?_) (.pure p s2)
    rw [bind_of_ok hset]
    rfl
  · rw [hb2, if_neg hy]
  · rw [hb2, if_pos hx]

/-- If the product is zero nothing happens. -/
theorem calloc_zero (hv : Serving g memLock b hs h A) (hsize : nmemb * size = 0) :
    Kernel.calloc (slabCore g) memLock nmemb size hs = returned null hs hs.state := by
  refine hv.outcome ?_
  rw [klcalloc, hsize]
  exact Quiet.bind (.onHeap rfl) (.pure null _)

theorem Carries.reaches (hc : Carries b s h) (hp : Reaches b h p) :
    s.load32 p = .ok (h.words p) := by
  obtain ⟨t, a, L, hw⟩ := hc
  exact hw.load hp

/-- What `klrealloc` makes of the size field. -/
def oldSize (v : U32int) : U32int := if v < bigBin then (1 : U32int) <<< (smallestBinLog + v) else v

/-- The header behind a pointer, with the number of bytes at it. -/
theorem Live.header (hA : ArenaAt b h A) (hl : Live A p bytes) :
    ∃ q c, A q = some c ∧ p &&& ~~~pageMask = q ∧
    h.words (BinHeader.magic q) = binMagic ∧
    (oldSize (h.words (BinHeader.size q))).toNat = bytes := by
  obtain ⟨q, c, hq, hg⟩ := hl
  have ha := hA.aligned q c hq
  cases c with
  | cells i free =>
    have hk := hA.chunk q _ hq
    have hi : i.toNat < 10 := hk.bin_lt
    obtain ⟨hcell, -, rfl⟩ := hg
    obtain ⟨hlow, hhigh⟩ := hcell.bounds
    have hpos := (cellBytes_pos i).1
    refine ⟨q, _, hq, header_eq ha (by omega) (by omega), hk.magic, ?_⟩
    have hsum : (smallestBinLog + i).toNat = i.toNat + 2 := by
      rw [BitVec.toNat_add, Nat.mod_eq_of_lt (by change 2 + _ < _; omega)]
      exact Nat.add_comm 2 _
    have hpow : 2^(i.toNat + 2) < 2^32 := Nat.pow_lt_pow_right (by decide) (by omega)
    rw [hk.size, oldSize, if_pos hk.bin_lt, BitVec.shiftLeft_eq',
      BitVec.toNat_shiftLeft, hsum, Nat.shiftLeft_eq,
      show (1 : U32int).toNat = 1 from rfl, Nat.one_mul, Nat.mod_eq_of_lt hpow, cellBytes]
  | block n f =>
    have hk := hA.chunk q _ hq
    obtain ⟨rfl, rfl, rfl⟩ := hg
    obtain ⟨-, -, -, -, hoff⟩ := header_toNat ha
    have hpos : 0 < n := hk.pages_pos
    have hend := blockBytes_eq hpos
    have hbelow : q.toNat + 4096 * n ≤ h.brk.toNat := hA.below q _ hq
    have hlt := h.brk.isLt
    have hsize : (BitVec.ofNat 32 (blockBytes n)).toNat = blockBytes n := by
      rw [BitVec.toNat_ofNat, Nat.mod_eq_of_lt (by omega)]
    have hbig : ¬ BitVec.ofNat 32 (blockBytes n) < bigBin := by
      rw [BitVec.lt_def, hsize]
      change ¬ _ < 10
      omega
    refine ⟨q, _, hq, header_eq ha (by omega) (by omega), hk.magic, ?_⟩
    rw [hk.size, oldSize, if_neg hbig, hsize]

/-- The first part of `klrealloc`, with what follows it. -/
theorem klrealloc_quiet (hv : Serving g memLock b hs h A) (hl : Live A p bytes) (hsize : size ≠ 0)
    {r : U32int} (hrest : ∀ old : U32int, old.toNat = bytes → Quiet (if size ≤ old then pure p
      else do
        let newptr ← .onHeap ((slabCore g).klmalloc size)
        if newptr ≠ null then do
          .onHeap fun s => do
            let s ← s.memcpy newptr p old.toNat
            return ((), s)
          .onHeap ((slabCore g).klfree p)
          return newptr
        else return null : Locking U32int) hs.state r s') :
    Kernel.realloc (slabCore g) memLock p size hs = returned r hs s' := by
  have hA := Consistent.arena hv.consistent
  obtain ⟨q, c, hq, hheader, hmagic, hold⟩ := Live.header hA hl
  have hnull := (hl.bounds hA).1
  have hm := Carries.reaches hv.carries (hA.reaches_offset hq (k := 12) (by decide) (by decide))
  have hz := Carries.reaches hv.carries (hA.reaches_offset hq (k := 8) (by decide) (by decide))
  refine hv.outcome ?_
  rw [klrealloc, if_neg hnull, if_neg hsize]
  dsimp only
  rw [hheader]
  refine (Quiet.read32 hm).bind ((Quiet.check ?_ _).bind ((Quiet.read32 hz).bind (hrest _ hold)))
  rw [beq_iff_eq]
  exact hmagic

/-- As long as the new size fits where it is nothing changes. -/
theorem realloc_stays (hv : Serving g memLock b hs h A) (hl : Live A p bytes) (hsize : size ≠ 0)
    (hfit : size.toNat ≤ bytes) :
    Kernel.realloc (slabCore g) memLock p size hs = returned p hs hs.state := by
  refine klrealloc_quiet hv hl hsize fun old hold => ?_
  rw [if_pos (by rw [BitVec.le_def, hold]; exact hfit)]
  exact .pure p _

/-- Something that was at `p` is now at `p'`, and larger. -/
structure Moved (g : SlabStatics) (b : Bounds) (s : State) (h : Heap) (A : Arena)
    (p : U32int) (bytes : Nat)
    (size p' : U32int) (s' : State) (h' : Heap) (bytes' : Nat) (A' : Arena) : Prop where
  carries : Carries b s' h'
  consistent : Consistent g b h' A'
  enough : size.toNat ≤ bytes'
  fresh : ∀ k, ¬ Live A p' k
  live : ∀ r k, Live A' r k ↔ Live A r k ∧ r ≠ p ∨ r = p' ∧ k = bytes'
  keeps : Keeps A A' h h'
  copied : ∀ k : U32int, k.toNat < bytes → byte h' (p' + k) = byte h (p + k)

/-- Else there is more, with what was there, and what was there is free. -/
theorem realloc_moves (hv : Serving g memLock b hs h A) (hl : Live A p bytes)
    (hbytes : bytes < size.toNat)
    (hwrap : size.toNat + 48 < 2^32) (hroom : Fits A size ∨ HasRoom hs.state size) :
    ∃ p' s' h' bytes' A', Kernel.realloc (slabCore g) memLock p size hs = returned p' hs s' ∧
      Moved g b hs.state h A p bytes size p' s' h' bytes' A' := by
  have hA := Consistent.arena hv.consistent
  have hsize : size ≠ 0 := fun he => by
    rw [he] at hbytes
    exact Nat.not_lt_zero _ hbytes
  -- the new one
  obtain ⟨p', s1, h1, bytes', A1, hcall, ha⟩ := klmalloc_state hv.carries hv.consistent hsize hroom
  have hA1 := Consistent.arena ha.consistent
  have henough := Serves.enough ha.serves hsize hwrap
  have hl1 : Live A1 p' bytes' := (ha.hands.live p' bytes').mpr (.inr ⟨rfl, rfl⟩)
  have hold1 : Live A1 p bytes := (ha.hands.live p bytes).mpr (.inl hl)
  have hne : p ≠ p' := fun he => ha.hands.fresh bytes (he ▸ hl)
  obtain ⟨hnull', -, hlow', hend', -, -⟩ := hl1.bounds hA1
  obtain ⟨-, -, hlow, hend, -, -⟩ := hold1.bounds hA1
  have hlt := h1.brk.isLt
  have hap : p'.toNat + bytes ≤ p.toNat ∨ p.toNat + bytes ≤ p'.toNat := by
    rcases hl1.eq_or_apart hA1 hold1 with ⟨he, -⟩ | hap
    · exact absurd he.symm hne
    · omega
  -- the copy
  obtain ⟨s2, h2, hcopy, hc2, hw2, hb2⟩ := Carries.memcpy ha.carries hlow'
    (by omega : _ + bytes ≤ h1.brk.toNat) hlow hend hap
  have ha2 := ha.written hc2 (by omega) hw2 fun y hy => by rw [hb2, if_neg hy]
  -- the old one
  obtain ⟨s3, h3, A3, hfree, hf⟩ := klfree_state hc2 ha2.consistent hold1
  have hlive : ∀ r k, Live A3 r k ↔ Live A r k ∧ r ≠ p ∨ r = p' ∧ k = bytes' :=
    Hands.exchanged ha.hands hf.hands hne
  have hl3 : Live A3 p' bytes' := (hlive p' bytes').mpr (.inr ⟨rfl, rfl⟩)
  refine ⟨p', s3, h3, bytes', A3, klrealloc_quiet hv hl hsize fun old hold => ?_,
    hf.carries, hf.consistent, henough,
    ha.hands.fresh, hlive, fun r k hr hr3 x hxlow hxhigh => ?_, fun k hk => ?_⟩
  · have hbig : ¬ size ≤ old := by
      rw [BitVec.le_def, hold]
      exact Nat.not_le.mpr hbytes
    rw [if_neg hbig]
    refine (Quiet.onHeap hcall).bind ?_
    rw [if_pos hnull', hold]
    refine Quiet.bind (a := ()) (.onHeap ?_) ((Quiet.onHeap hfree).bind (.pure p' s3))
    rw [bind_of_ok hcopy]
    rfl
  · have hr1 : Live A1 r k := (ha.hands.live r k).mpr (.inl hr)
    rw [hf.keeps r k hr1 hr3 x hxlow hxhigh]
    exact ha2.keeps r k hr hr1 x hxlow hxhigh
  · have hpk : (p + k).toNat = p.toNat + k.toNat := by
      rw [BitVec.toNat_add, Nat.mod_eq_of_lt (by omega)]
    have hpk' : (p' + k).toNat = p'.toNat + k.toNat := by
      rw [BitVec.toNat_add, Nat.mod_eq_of_lt (by omega)]
    have hin : p' + k - p' = k := add_sub_cancel_left p' k
    rw [hf.keeps p' bytes' hl1 hl3 (p' + k) (by omega) (by omega), hb2, hin, if_pos hk]
    exact ha.keeps p bytes hl hold1 (p + k) (by omega) (by omega)

/-- The address is the second page of a block. -/
theorem valloc_serves (hv : Serving g memLock b hs h A) (hwrap : size.toNat + 4096 < 2^32)
    (hroom : Fits A (size + pageSize - bigBinHeaderSize) ∨
    HasRoom hs.state (size + pageSize - bigBinHeaderSize)) :
    ∃ q n s' h' A', Kernel.valloc (slabCore g) memLock size hs = returned (q + pageSize) hs s' ∧
      Allocated g b hs.state h A (size + pageSize - bigBinHeaderSize)
        (q + bigBinHeaderSize) s' h' (blockBytes n) A' ∧
        A' q = some (.block n false) ∧ q.toNat % 4096 = 0 ∧ size.toNat + 4096 ≤ 4096 * n := by
  set true' := size + pageSize - bigBinHeaderSize with htrue
  have htn : true'.toNat = size.toNat + 4048 := by
    rw [htrue, BitVec.toNat_sub, BitVec.toNat_add]
    change (2^32 - 48 + (size.toNat + 4096) % 2^32) % 2^32 = _
    omega
  have hne : true' ≠ 0 := fun he => by
    rw [he] at htn
    change 0 = _ at htn
    omega
  have hbin : ¬ Slab.binSize true' < bigBin := fun hb => by
    have := (binSize_lt_iff hne).mp hb
    omega
  obtain ⟨p, s', h', bytes, A', hcall, ha⟩ := klmalloc_state hv.carries hv.consistent hne hroom
  have henough := Serves.enough ha.serves hne (by omega)
  have hA := Consistent.arena ha.consistent
  obtain ⟨q, n, rfl, rfl, hq⟩ : ∃ q n, p = q + bigBinHeaderSize ∧ bytes = blockBytes n ∧
      A' q = some (.block n false) := by
    cases ha.serves with
    | cell hb hp => exact absurd hb hbin
    | page hb hnone hall hnot => exact absurd hb hbin
    | block hb hq hfit hbest => exact ⟨_, _, rfl, rfl, Function.update_self ..⟩
    | grow hb hnone => exact ⟨_, _, rfl, rfl, Function.update_self ..⟩
  have hpos : 0 < n := (hA.chunk q _ hq).pages_pos
  have haligned := hA.aligned q _ hq
  have hend := blockBytes_eq hpos
  have hout : q + bigBinHeaderSize + (pageSize - bigBinHeaderSize) = q + pageSize := by
    rw [add_assoc]
    rfl
  refine ⟨q, n, s', h', A', hv.outcome ?_, ha, hq, haligned, by omega⟩
  rw [klvalloc]
  dsimp only
  rw [← htrue]
  refine Quiet.bind (Quiet.onHeap hcall) (Quiet.bind (a := ()) (Quiet.check ?_ s') ?_)
  · rw [hout, beq_iff_eq]
    apply BitVec.eq_of_toNat_eq
    rw [BitVec.toNat_umod, BitVec.toNat_add]
    change (q.toNat + 4096) % 2^32 % 4096 = 0
    omega
  · rw [hout]
    exact Quiet.pure (q + pageSize) s'

/-- ... by which the block is found when it is freed. -/
theorem free_valloc (hv : Serving g memLock b hs h A) (hq : A q = some (.block n false)) :
    ∃ s' h' A', Kernel.free (slabCore g) memLock (q + pageSize) hs = returned () hs s' ∧
      Freed g b hs.state h A (q + bigBinHeaderSize) (blockBytes n) s' h' A' := by
  have hA := Consistent.arena hv.consistent
  have hbelow := hA.page_below hq
  have hlt := h.brk.isLt
  have hn : (q + pageSize).toNat = q.toNat + 4096 := by
    rw [BitVec.toNat_add, show pageSize.toNat = 4096 from rfl, Nat.mod_eq_of_lt (by omega)]
  obtain ⟨s', h', A', hcall, hf⟩ := freed_of_yields hv.carries hv.consistent
    (klfree_block hv.consistent hq (p := q + pageSize) (by omega) (by omega))
  exact ⟨s', h', A', hv.outcome (.onHeap hcall), hf⟩

end

end SimpleOs.Audit.HeapService
