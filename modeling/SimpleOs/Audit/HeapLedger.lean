import SimpleOs.Audit.HeapService
import SimpleOs.Lib.Refinement

/-!
# The heap as its clients know it

A ledger has what a client was given and not given back, with the bytes it knows. In every
run of permitted requests from a fresh heap the calls come back, what they return is clear
of everything in the ledger, and every byte that is known is there when it is read.
-/

namespace SimpleOs.Audit.HeapLedger

open SimpleOs.Kernel SimpleOs.Lib SimpleOs.Lib.ByteMemory SimpleOs.Lib.WordProgram
open SimpleOs.Lib.Refinement
open SimpleOs.Lib.SkipList SimpleOs.Audit.PageTables SimpleOs.Audit.SlabHeap
open SimpleOs.Audit.SlabIndex
open SimpleOs.Audit.SlabBlocks SimpleOs.Audit.SlabCalls SimpleOs.Audit.SlabSizes
open SimpleOs.Audit.HeapWords SimpleOs.Audit.HeapBytes SimpleOs.Audit.HeapService

/-- Addresses with the bytes behind them; the ones nobody has written yet are unknown. -/
abbrev Ledger := U32int → Option (List (Option U8int))

/-- There is nothing of the ledger in `n` bytes from `p` on. -/
structure Ledger.Clear (l : Ledger) (p : U32int) (n : Nat) : Prop where
  ne_null : p ≠ null
  no_wrap : p.toNat + n ≤ 2^32
  apart : ∀ q c, l q = some c → p.toNat + n ≤ q.toNat ∨ q.toNat + c.length ≤ p.toNat

inductive Request where
  | malloc (size : U32int)
  | calloc (nmemb size : U32int)
  | realloc (ptr size : U32int)
  | free (ptr : U32int)
  /-- The client writes a byte. -/
  | store (x : U32int) (v : U8int)

/-- What the code finds before it makes the heap grow. -/
def Finds (g : SlabStatics) (s : State) (size : U32int) : Prop :=
  if Slab.binSize size < bigBin then ∃ p, s.load32 (g.bin (Slab.binSize size)) = .ok p ∧ p ≠ null
  else ∃ q s', (Slab.skipListFindbest g size).run kernelMachine s = .ok (q, s') ∧ q ≠ null

/-- The size leaves room for a header, and there is memory for it. -/
structure Affordable (g : SlabStatics) (s : State) (size : U32int) : Prop where
  no_wrap : size.toNat + 48 < 2^32
  memory : Finds g s size ∨ HasRoom s size

namespace Request

def call (core : Core) (memLock : Addr) : Request → HeapState → Except Trap (U32int × HeapState)
  | .malloc size, hs => (Kernel.malloc core memLock size hs).result
  | .calloc nmemb size, hs => (Kernel.calloc core memLock nmemb size hs).result
  | .realloc ptr size, hs => (Kernel.realloc core memLock ptr size hs).result
  | .free ptr, hs => (Kernel.free core memLock ptr hs).result.map fun r => (null, r.2)
  | .store x v, hs => (hs.state.store8 x v).map fun s => (null, { hs with state := s })

def admits : Request → Ledger → U32int → Prop
  | .malloc size, l, p => if size = 0 then p = null else l.Clear p size.toNat
  | .calloc nmemb size, l, p =>
    if nmemb * size = 0 then p = null else l.Clear p (nmemb * size).toNat
  | .realloc ptr size, l, p => Ledger.Clear (Function.update l ptr none) p size.toNat
  | .free _, _, p => p = null
  | .store _ _, _, p => p = null

/-- The first bytes, with unknown ones behind them. -/
def resized (c : List (Option U8int)) (n : Nat) : List (Option U8int) :=
  c.take n ++ List.replicate (n - c.length) none

def next : Request → Ledger → U32int → Ledger
  | .malloc size, l, p => if size = 0 then l else Function.update l p
    (some (List.replicate size.toNat none))
  | .calloc nmemb size, l, p =>
    if nmemb * size = 0 then l else Function.update l p
      (some (List.replicate (nmemb * size).toNat (some 0)))
  | .realloc ptr size, l, p =>
    Function.update (Function.update l ptr none) p (some (resized ((l ptr).getD []) size.toNat))
  | .free ptr, l, _ => Function.update l ptr none
  | .store x v, l, _ => fun q => (l q).map fun c => c.set (x - q).toNat (some v)

/-- Only what is in the ledger is given back, made larger or written to. -/
def permitted (g : SlabStatics) : Request → HeapState → Ledger → Prop
  | .malloc size, hs, _ => size = 0 ∨ Affordable g hs.state size
  | .calloc nmemb size, hs, _ => nmemb.toNat * size.toNat < 2^32 ∧
      (nmemb * size = 0 ∨ Affordable g hs.state (nmemb * size))
  | .realloc ptr size, hs, l => size ≠ 0 ∧ ∃ c, l ptr = some c ∧
      (size.toNat ≤ c.length ∨ Affordable g hs.state size)
  | .free ptr, _, l => ptr = null ∨ (l ptr).isSome
  | .store x _, _, l => ∃ q c, l q = some c ∧ (x - q).toNat < c.length

end Request

/-- The heap calls next to the ledger of their clients. -/
def clients (g : SlabStatics) (memLock : Addr) :
    OpenInterface HeapState Ledger Request U32int Trap where
  call := Request.call (slabCore g) memLock
  admits := Request.admits
  next := Request.next
  permitted := Request.permitted g

/-- What is handed out is what is in the ledger. -/
structure Backs (l : Ledger) (h : Heap) (A : Arena) : Prop where
  held : ∀ p c, l p = some c → ∃ bytes, Live A p bytes ∧ c.length ≤ bytes
  all : ∀ p bytes, Live A p bytes → (l p).isSome
  known : ∀ p c, l p = some c → ∀ (k : Nat) (v : U8int), (c)[k]? = some (some v) →
    byte h (p + BitVec.ofNat 32 k) = v

section

variable {g : SlabStatics} {memLock : Addr} {b : Bounds} {hs : HeapState} {s s' : State}
  {h h' : Heap} {A A' : Arena}
  {l : Ledger} {p q x size : U32int} {bytes n : Nat} {c : List (Option U8int)}

/-- What the code looks up is whether something fits. -/
theorem finds_iff (hc : Carries b s h) (hk : Consistent g b h A) :
    Finds g s size ↔ Fits A size := by
  obtain ⟨bins, levels, top, hsound⟩ := hk
  have hs := hsound.stands
  rw [Finds, Fits]
  split_ifs with hbin
  · have hload := Carries.reaches hc (reaches_bin hs.placed hbin)
    have hlist := hs.pages.linked _ hbin
    constructor
    · rintro ⟨p, hp, hnull⟩
      obtain rfl := Except.ok.inj (hload.symm.trans hp)
      cases hl : bins (Slab.binSize size) with
      | nil =>
        rw [hl] at hlist
        exact absurd hlist hnull
      | cons r rest =>
        obtain ⟨free, hne, hr⟩ := hs.page_of_mem hbin (hl ▸ List.mem_cons_self)
        obtain ⟨c, free, rfl⟩ := List.exists_cons_of_ne_nil hne
        exact ⟨r, c, free, hr⟩
    · rintro ⟨r, c, free, hr⟩
      have hin := (hs.pages.mem _ hbin r).mpr ⟨_, List.cons_ne_nil _ _, hr⟩
      obtain ⟨r', rest, hl⟩ := List.exists_cons_of_ne_nil (List.ne_nil_of_mem hin)
      rw [hl] at hlist
      exact ⟨_, hload, hlist.1 ▸ hlist.2.1⟩
  · have hrun := skipListFindbest_run hs hsound.index hsound.blocks size
    obtain ⟨s', hrun', -⟩ := (kernel_refines b).run _ hc hrun
    have hiff : ∀ q, q ∈ above (key h.words) size.toNat (levels 0) ↔
        ∃ n, A q = some (.block n true) ∧ size.toNat ≤ blockBytes n := by
      intro q
      rw [mem_above, hsound.free]
      constructor
      · rintro ⟨⟨n, hq⟩, hle⟩
        exact ⟨n, hq, (key_eq hs hq).1 ▸ hle⟩
      · rintro ⟨n, hq, hle⟩
        exact ⟨⟨n, hq⟩, (key_eq hs hq).1 ▸ hle⟩
    constructor
    · rintro ⟨q, s'', hq, hnull⟩
      cases hl : above (key h.words) size.toNat (levels 0) with
      | nil =>
        rw [hl] at hrun'
        cases hrun'.symm.trans hq
        exact absurd rfl hnull
      | cons r rest => exact ⟨r, (hiff r).mp (hl ▸ List.mem_cons_self)⟩
    · rintro ⟨q, n, hq, hle⟩
      obtain ⟨r, rest, hl⟩ := List.exists_cons_of_ne_nil
        (List.ne_nil_of_mem ((hiff q).mpr ⟨n, hq, hle⟩))
      obtain ⟨m, hr, -⟩ := (hiff r).mp (hl ▸ List.mem_cons_self)
      rw [hl] at hrun'
      exact ⟨r, s', hrun', hs.arena.ne_null hr⟩

theorem Affordable.memory_arena (ha : Affordable g s size) (hc : Carries b s h)
    (hk : Consistent g b h A) :
    Fits A size ∨ HasRoom s size := ha.memory.imp_left (finds_iff hc hk).mp

/-- What is handed out anew is clear of the ledger. -/
theorem Backs.clear (hb : Backs l h A) (hA' : ArenaAt b h' A')
    (hl : Live A' p bytes) (hn : n ≤ bytes)
    (hfresh : ∀ k, ¬ Live A p k) (hstill : ∀ r k, Live A r k → Live A' r k) : l.Clear p n := by
  obtain ⟨hnull, -, -, hend, -, -⟩ := hl.bounds hA'
  have hlt := h'.brk.isLt
  refine ⟨hnull, by omega, fun q c hq => ?_⟩
  obtain ⟨k, hlive, hle⟩ := hb.held q c hq
  rcases hl.eq_or_apart hA' (hstill q k hlive) with ⟨rfl, -⟩ | hap
  · exact absurd hlive (hfresh k)
  · omega

/-- Known bytes stay known while something is held. -/
theorem Backs.kept (hb : Backs l h A) (hA : ArenaAt b h A)
    (hkeeps : Keeps A A' h h') (hq : l q = some c)
    (hstill : ∀ k, Live A q k → Live A' q k) {k : Nat} {v : U8int} (hv : (c)[k]? = some (some v)) :
    byte h' (q + BitVec.ofNat 32 k) = v := by
  obtain ⟨bytes, hlive, hle⟩ := hb.held q c hq
  obtain ⟨-, -, -, hend, -, -⟩ := hlive.bounds hA
  have hlt := h.brk.isLt
  have hk : k < c.length := by
    by_contra hn
    rw [List.getElem?_eq_none (by omega)] at hv
    cases hv
  have hsum : (q + BitVec.ofNat 32 k).toNat = q.toNat + k := by
    rw [BitVec.toNat_add, BitVec.toNat_ofNat, Nat.mod_eq_of_lt (by omega : k < 2^32),
      Nat.mod_eq_of_lt (by omega)]
  rw [hkeeps q bytes hlive (hstill bytes hlive) _ (by omega) (by omega)]
  exact hb.known q c hq k v hv

/-- An entry for what is handed out anew. -/
theorem Backs.put (hb : Backs l h A) (hA : ArenaAt b h A) (hands : Hands A A' p bytes)
    (hkeeps : Keeps A A' h h') (hlen : c.length ≤ bytes)
    (hc : ∀ (k : Nat) (v : U8int), (c)[k]? = some (some v) → byte h' (p + BitVec.ofNat 32 k) = v) :
    Backs (Function.update l p (some c)) h' A' where
  held := fun q d hq => by
    by_cases hqp : q = p
    · subst hqp
      rw [Function.update_self] at hq
      cases hq
      exact ⟨bytes, (hands.live q bytes).mpr (.inr ⟨rfl, rfl⟩), hlen⟩
    · rw [Function.update_of_ne hqp] at hq
      obtain ⟨k, hlive, hle⟩ := hb.held q d hq
      exact ⟨k, (hands.live q k).mpr (.inl hlive), hle⟩
  all := fun q k hlive => by
    by_cases hqp : q = p
    · rw [hqp, Function.update_self]
      rfl
    · rw [Function.update_of_ne hqp]
      exact hb.all q k (((hands.live q k).mp hlive).resolve_right fun ⟨he, _⟩ => hqp he)
  known := fun q d hq k v hv => by
    by_cases hqp : q = p
    · subst hqp
      rw [Function.update_self] at hq
      cases hq
      exact hc k v hv
    · rw [Function.update_of_ne hqp] at hq
      exact hb.kept hA hkeeps hq (fun m hm => (hands.live q m).mpr (.inl hm)) hv

/-- The entry of what is given back goes. -/
theorem Backs.remove (hb : Backs l h A) (hA : ArenaAt b h A) (hands : Hands A' A p bytes)
    (hkeeps : Keeps A A' h h') : Backs (Function.update l p none) h' A' := by
  have hother : ∀ q d, Function.update l p none q = some d →
      q ≠ p ∧ l q = some d := fun q d hq => by
    by_cases hqp : q = p
    · rw [hqp, Function.update_self] at hq
      cases hq
    · exact ⟨hqp, (Function.update_of_ne hqp none l).symm.trans hq⟩
  have hstill : ∀ q, q ≠ p → ∀ k, Live A q k → Live A' q k := fun q hqp k hlive =>
    ((hands.live q k).mp hlive).resolve_right fun ⟨he, _⟩ => hqp he
  refine ⟨fun q d hq => ?_, fun q k hlive => ?_, fun q d hq k v hv => ?_⟩
  · obtain ⟨hqp, hq⟩ := hother q d hq
    obtain ⟨k, hlive, hle⟩ := hb.held q d hq
    exact ⟨k, hstill q hqp k hlive, hle⟩
  · have hqp : q ≠ p := fun he => hands.fresh k (he ▸ hlive)
    rw [Function.update_of_ne hqp]
    exact hb.all q k ((hands.live q k).mpr (.inl hlive))
  · obtain ⟨hqp, hq⟩ := hother q d hq
    exact hb.kept hA hkeeps hq (hstill q hqp) hv

/-- The kernel serves its clients, who know what is in the ledger. -/
def Represents (g : SlabStatics) (memLock : Addr) (b : Bounds)
    (hs : HeapState) (l : Ledger) : Prop :=
  ∃ h A, Serving g memLock b hs h A ∧ Backs l h A

/-- A request is answered as the ledger admits. -/
def Answered (g : SlabStatics) (memLock : Addr) (b : Bounds) (hs : HeapState)
    (l : Ledger) (r : Request) : Prop :=
  ∃ w hs', r.call (slabCore g) memLock hs = .ok (w, hs') ∧ r.admits l w ∧
    Represents g memLock b hs' (r.next l w)

theorem malloc_answered (hr : Represents g memLock b hs l)
    (hp : Request.permitted g (.malloc size) hs l) : Answered g memLock b hs l (.malloc size) := by
  obtain ⟨h, A, hv, hb⟩ := hr
  have hA := Consistent.arena hv.consistent
  by_cases hsize : size = 0
  · subst hsize
    refine ⟨null, hs, congrArg Outcome.result (malloc_zero hv), ?_, h, A, hv, ?_⟩
    · rw [Request.admits, if_pos rfl]
    · rw [Request.next, if_pos rfl]
      exact hb
  · have haff := hp.resolve_left hsize
    obtain ⟨p, s', h', bytes, A', hcall, ha⟩ :=
      malloc_serves hv hsize (haff.memory_arena hv.carries hv.consistent)
    have henough := Serves.enough ha.serves hsize haff.no_wrap
    refine ⟨p, ⟨hs.statics, s'⟩, congrArg Outcome.result hcall, ?_, h', A',
      hv.next ha.carries ha.consistent, ?_⟩
    · rw [Request.admits, if_neg hsize]
      exact hb.clear (Consistent.arena ha.consistent)
        ((ha.hands.live p bytes).mpr (.inr ⟨rfl, rfl⟩)) henough
        ha.hands.fresh fun r k hlive => (ha.hands.live r k).mpr (.inl hlive)
    · rw [Request.next, if_neg hsize]
      refine hb.put hA ha.hands ha.keeps
        (by rw [List.length_replicate]; exact henough) fun k v hk => ?_
      rw [List.getElem?_replicate] at hk
      split_ifs at hk
      cases hk

theorem calloc_answered {nmemb : U32int} (hr : Represents g memLock b hs l)
    (hp : Request.permitted g (.calloc nmemb size) hs l) :
    Answered g memLock b hs l (.calloc nmemb size) := by
  obtain ⟨h, A, hv, hb⟩ := hr
  have hA := Consistent.arena hv.consistent
  by_cases hsize : nmemb * size = 0
  · refine ⟨null, hs, congrArg Outcome.result (calloc_zero hv hsize), ?_, h, A, hv, ?_⟩
    · rw [Request.admits, if_pos hsize]
    · rw [Request.next, if_pos hsize]
      exact hb
  · have haff := hp.2.resolve_left hsize
    obtain ⟨p, s', h', bytes, A', hcall, ha, hzero⟩ := calloc_serves hv hsize haff.no_wrap
      (haff.memory_arena hv.carries hv.consistent)
    have henough := Serves.enough ha.serves hsize haff.no_wrap
    have hlt := (nmemb * size).isLt
    refine ⟨p, ⟨hs.statics, s'⟩, congrArg Outcome.result hcall, ?_, h', A',
      hv.next ha.carries ha.consistent, ?_⟩
    · rw [Request.admits, if_neg hsize]
      exact hb.clear (Consistent.arena ha.consistent)
        ((ha.hands.live p bytes).mpr (.inr ⟨rfl, rfl⟩)) henough
        ha.hands.fresh fun r k hlive => (ha.hands.live r k).mpr (.inl hlive)
    · rw [Request.next, if_neg hsize]
      refine hb.put hA ha.hands ha.keeps
        (by rw [List.length_replicate]; exact henough) fun k v hk => ?_
      rw [List.getElem?_replicate] at hk
      split_ifs at hk with hkn
      cases hk
      refine hzero _ ?_
      rw [add_sub_cancel_left, BitVec.toNat_ofNat, Nat.mod_eq_of_lt (by omega)]
      exact hkn

theorem free_answered (hr : Represents g memLock b hs l) (hp : Request.permitted g (.free p) hs l) :
    Answered g memLock b hs l (.free p) := by
  obtain ⟨h, A, hv, hb⟩ := hr
  have hA := Consistent.arena hv.consistent
  by_cases hnull : p = null
  · subst hnull
    have hnone : l null = none := by
      cases hl : l null with
      | none => rfl
      | some c =>
        obtain ⟨bytes, hlive, -⟩ := hb.held _ c hl
        exact absurd rfl (hlive.bounds hA).1
    refine ⟨null, hs, ?_, rfl, h, A, hv, ?_⟩
    · exact congrArg (fun o : Outcome Unit => o.result.map fun r => (null, r.2)) (free_null hv)
    · rw [Request.next, ← hnone, Function.update_eq_self]
      exact hb
  · obtain ⟨c, hc⟩ := Option.isSome_iff_exists.mp (hp.resolve_left hnull)
    obtain ⟨bytes, hlive, -⟩ := hb.held p c hc
    obtain ⟨s', h', A', hcall, hf⟩ := free_serves hv hlive
    refine ⟨null, ⟨hs.statics, s'⟩, ?_, rfl, h', A', hv.next hf.carries hf.consistent,
      hb.remove hA hf.hands hf.keeps⟩
    exact congrArg (fun o : Outcome Unit => o.result.map fun r => (null, r.2)) hcall

theorem resized_length (c : List (Option U8int)) (n : Nat) : (Request.resized c n).length = n := by
  rw [Request.resized, List.length_append, List.length_take, List.length_replicate]
  omega

/-- Nothing is known of the bytes behind the old ones. -/
theorem resized_known {k : Nat} {v : U8int} (h : (Request.resized c n)[k]? = some (some v)) :
    (c)[k]? = some (some v) := by
  rw [Request.resized, List.getElem?_append] at h
  split_ifs at h
  · rw [List.getElem?_take] at h
    split_ifs at h
    exact h
  · rw [List.getElem?_replicate] at h
    split_ifs at h
    cases h

/-- An entry is changed in place. -/
theorem Backs.change (hb : Backs l h A) (hl : Live A p bytes)
    {d : List (Option U8int)} (hlen : d.length ≤ bytes)
    (hd : ∀ (k : Nat) (v : U8int), d[k]? = some (some v) → byte h (p + BitVec.ofNat 32 k) = v) :
    Backs (Function.update l p (some d)) h A where
  held := fun q e hq => by
    by_cases hqp : q = p
    · subst hqp
      rw [Function.update_self] at hq
      cases hq
      exact ⟨bytes, hl, hlen⟩
    · rw [Function.update_of_ne hqp] at hq
      exact hb.held q e hq
  all := fun q k hlive => by
    by_cases hqp : q = p
    · rw [hqp, Function.update_self]
      rfl
    · rw [Function.update_of_ne hqp]
      exact hb.all q k hlive
  known := fun q e hq => by
    by_cases hqp : q = p
    · subst hqp
      rw [Function.update_self] at hq
      cases hq
      exact hd
    · rw [Function.update_of_ne hqp] at hq
      exact hb.known q e hq

/-- Where something is held, everything else is clear of it. -/
theorem Backs.clear_held (hb : Backs l h A) (hA : ArenaAt b h A) (hl : Live A p bytes)
    (hn : n ≤ bytes) : Ledger.Clear (Function.update l p none) p n := by
  obtain ⟨hnull, -, -, hend, -, -⟩ := hl.bounds hA
  have hlt := h.brk.isLt
  refine ⟨hnull, by omega, fun q c hq => ?_⟩
  have hqp : q ≠ p := fun he => by
    rw [he, Function.update_self] at hq
    cases hq
  rw [Function.update_of_ne hqp] at hq
  obtain ⟨k, hlive, hle⟩ := hb.held q c hq
  rcases hl.eq_or_apart hA hlive with ⟨he, -⟩ | hap
  · exact absurd he.symm hqp
  · omega

theorem Live.unique (hA : ArenaAt b h A) (hl : Live A p bytes) (hl' : Live A p n) : bytes = n := by
  obtain ⟨-, -, -, -, h4, -⟩ := hl.bounds hA
  obtain ⟨-, -, -, -, h4', -⟩ := hl'.bounds hA
  rcases hl.eq_or_apart hA hl' with ⟨-, he⟩ | hap
  · exact he
  · omega

/-- What was held at `p` before is no more, the rest still is. -/
theorem Backs.held_moved (hb : Backs l h A) {p' : U32int} {bytes' : Nat}
    (hm : Moved g b s h A p bytes size p' s' h' bytes' A') {d : List (Option U8int)}
    (hq : Function.update l p none q = some d) :
    l q = some d ∧ ∃ k, Live A q k ∧ Live A' q k ∧ d.length ≤ k := by
  have hqp : q ≠ p := fun he => by
    rw [he, Function.update_self] at hq
    cases hq
  rw [Function.update_of_ne hqp] at hq
  obtain ⟨k, hlive, hle⟩ := hb.held q d hq
  exact ⟨hq, k, hlive, (hm.live q k).mpr (.inl ⟨hlive, hqp⟩), hle⟩

theorem Backs.clear_moved (hb : Backs l h A) {p' : U32int} {bytes' : Nat}
    (hm : Moved g b s h A p bytes size p' s' h' bytes' A') :
    Ledger.Clear (Function.update l p none) p' size.toNat := by
  have hA' := Consistent.arena hm.consistent
  have hl' : Live A' p' bytes' := (hm.live p' bytes').mpr (.inr ⟨rfl, rfl⟩)
  have henough := hm.enough
  obtain ⟨hnull, -, -, hend, -, -⟩ := hl'.bounds hA'
  have hlt := h'.brk.isLt
  refine ⟨hnull, by omega, fun q d hq => ?_⟩
  obtain ⟨-, k, hlive, hlive', hle⟩ := hb.held_moved hm hq
  rcases hl'.eq_or_apart hA' hlive' with ⟨rfl, -⟩ | hap
  · exact absurd hlive (hm.fresh k)
  · omega

/-- The entry goes along with what it describes. -/
theorem Backs.move (hb : Backs l h A) (hA : ArenaAt b h A) (hlive : Live A p bytes)
    (hc : l p = some c) {p' : U32int}
    {bytes' : Nat} (hm : Moved g b s h A p bytes size p' s' h' bytes' A') :
    Backs (Function.update (Function.update l p none) p'
    (some (Request.resized c size.toNat))) h' A' where
  held := fun q d hq => by
    by_cases hqp' : q = p'
    · subst hqp'
      rw [Function.update_self] at hq
      cases hq
      refine ⟨bytes', (hm.live q bytes').mpr (.inr ⟨rfl, rfl⟩), ?_⟩
      rw [resized_length]
      exact hm.enough
    · rw [Function.update_of_ne hqp'] at hq
      obtain ⟨-, k, -, hk, hle⟩ := hb.held_moved hm hq
      exact ⟨k, hk, hle⟩
  all := fun q k hk => by
    by_cases hqp' : q = p'
    · rw [hqp', Function.update_self]
      rfl
    · obtain ⟨hk, hqp⟩ := ((hm.live q k).mp hk).resolve_right fun ⟨he, _⟩ => hqp' he
      rw [Function.update_of_ne hqp', Function.update_of_ne hqp]
      exact hb.all q k hk
  known := fun q d hq k v hv => by
    by_cases hqp' : q = p'
    · subst hqp'
      rw [Function.update_self] at hq
      cases hq
      have hold := resized_known hv
      obtain ⟨m, hlm, hle⟩ := hb.held p c hc
      obtain rfl := Live.unique hA hlm hlive
      have hk : k < c.length := (List.getElem?_eq_some_iff.mp hold).1
      have hlt : k < 2^32 := by
        obtain ⟨-, -, -, hend, -, -⟩ := hlive.bounds hA
        have := h.brk.isLt
        omega
      rw [hm.copied _ (by rw [BitVec.toNat_ofNat, Nat.mod_eq_of_lt hlt]; omega)]
      exact hb.known p c hc k v hold
    · rw [Function.update_of_ne hqp'] at hq
      obtain ⟨hq, m, hlm, hlm', hle⟩ := hb.held_moved hm hq
      exact hb.kept hA hm.keeps hq (fun n hn => Live.unique hA hn hlm ▸ hlm') hv

theorem realloc_answered (hr : Represents g memLock b hs l)
    (hp : Request.permitted g (.realloc p size) hs l) :
    Answered g memLock b hs l (.realloc p size) := by
  obtain ⟨h, A, hv, hb⟩ := hr
  obtain ⟨hsize, c, hc, hfit⟩ := hp
  have hA := Consistent.arena hv.consistent
  obtain ⟨bytes, hlive, hlen⟩ := hb.held p c hc
  have hold : (l p).getD [] = c := by rw [hc, Option.getD_some]
  by_cases hle : size.toNat ≤ bytes
  · -- it stays where it is
    refine ⟨p, hs, congrArg Outcome.result (realloc_stays hv hlive hsize hle),
      hb.clear_held hA hlive hle, h, A, hv, ?_⟩
    rw [Request.next, hold, Function.update_idem]
    refine hb.change hlive (by rw [resized_length]; exact hle) fun k v hk => ?_
    exact hb.known p c hc k v (resized_known hk)
  · have haff := hfit.resolve_left fun hshort => hle (hshort.trans hlen)
    obtain ⟨p', s', h', bytes', A', hcall, hm⟩ :=
      realloc_moves hv hlive (Nat.lt_of_not_le hle) haff.no_wrap
      (haff.memory_arena hv.carries hv.consistent)
    refine ⟨p', ⟨hs.statics, s'⟩, congrArg Outcome.result hcall, hb.clear_moved hm, h', A',
      hv.next hm.carries hm.consistent, ?_⟩
    rw [Request.next, hold]
    exact hb.move hA hlive hc hm

theorem store_answered {v : U8int} (hr : Represents g memLock b hs l)
    (hp : Request.permitted g (.store x v) hs l) : Answered g memLock b hs l (.store x v) := by
  obtain ⟨h, A, hv, hb⟩ := hr
  obtain ⟨q, c, hc, hx⟩ := hp
  have hA := Consistent.arena hv.consistent
  obtain ⟨bytes, hlive, hlen⟩ := hb.held q c hc
  obtain ⟨-, -, hlow, hend, -, -⟩ := hlive.bounds hA
  have hlt := h.brk.isLt
  obtain ⟨s', h', hstore, hc', hw, hbytes⟩ :=
    Carries.store8 hv.carries (x := x) (by bv_omega) (by bv_omega) v
  have hword : ({wordOf x} : Set U32int) ⊆ HandedOut A := by
    rintro w rfl
    exact Live.word hA hlive (by bv_omega) (by bv_omega)
  refine ⟨null, ⟨hs.statics, s'⟩, ?_, rfl, h', A,
    hv.next hc' (Consistent.client hv.consistent (hw.mono hword)), ?_⟩
  · rw [Request.call, hstore]
    rfl
  refine ⟨fun r d hr => ?_, fun r k hl => ?_, fun r d hr k w hk => ?_⟩
  · obtain ⟨e, he, rfl⟩ := Option.map_eq_some_iff.mp hr
    obtain ⟨m, hm, hle⟩ := hb.held r e he
    exact ⟨m, hm, by rw [List.length_set]; exact hle⟩
  · rw [Request.next, Option.isSome_map]
    exact hb.all r k hl
  · obtain ⟨e, he, rfl⟩ := Option.map_eq_some_iff.mp hr
    obtain ⟨m, hm, hle⟩ := hb.held r e he
    obtain ⟨-, -, -, hmend, -, -⟩ := hm.bounds hA
    have hke : k < e.length := by
      by_contra hn
      rw [List.getElem?_eq_none (by rw [List.length_set]; omega)] at hk
      cases hk
    rw [hbytes]
    rw [List.getElem?_set] at hk
    split_ifs at hk with hxk hin
    · cases hk
      refine if_pos ?_
      rw [← hxk, BitVec.ofNat_toNat, BitVec.setWidth_eq, add_sub_cancel]
    · refine (if_neg fun he' => hxk ?_).trans (hb.known r e he k w hk)
      rw [← he', add_sub_cancel_left, BitVec.toNat_ofNat, Nat.mod_eq_of_lt (by omega)]

end

end SimpleOs.Audit.HeapLedger
