import SimpleOs.Audit.LinearView
import SimpleOs.Lib.Arcs

/-!
# Runs of pages

Consecutive linear addresses and the pages they lie in. The mapping loops of the boot
code and of the module loader go through such runs page by page.
-/

namespace SimpleOs.Audit.PageRuns

open SimpleOs.Kernel SimpleOs.Lib SimpleOs.Lib.Arcs SimpleOs.Audit.PageTables
open SimpleOs.Audit.LinearView

/-- Byte `k` behind a linear address. -/
def linAt (start : U32int) (k : Nat) : U32int := start + BitVec.ofNat 32 k

/-- The `n` pages from `start` on. -/
def pagesFrom (start : U32int) (n : Nat) : Set U32int :=
  {q | ∃ k < n, q = linAt start (4096 * k) / pageSize}

section

variable {start x : U32int} {k n : Nat}

theorem page_eq_iff_sub (ha : start.toNat % 4096 = 0) (hk : k < 2^20) :
    x / pageSize = linAt start (4096 * k) / pageSize ↔ (x - start).toNat / 4096 = k := by
  have hx := x.isLt
  have hs := start.isLt
  have hlin : (linAt start (4096 * k)).toNat = (start.toNat + 4096 * k) % 2^32 := by
    rw [linAt, BitVec.toNat_add, BitVec.toNat_ofNat]
    omega
  rw [← BitVec.toNat_inj, page_toNat, page_toNat, hlin, BitVec.toNat_sub]
  omega

theorem mem_pagesFrom (ha : start.toNat % 4096 = 0) (hn : n ≤ 2^20) :
    x / pageSize ∈ pagesFrom start n ↔ (x - start).toNat / 4096 < n := by
  constructor
  · intro h
    obtain ⟨k, hk, hpage⟩ := h
    rw [(page_eq_iff_sub ha (by omega)).mp hpage]
    exact hk
  · intro h
    exact ⟨_, h, (page_eq_iff_sub ha (by omega)).mpr rfl⟩

theorem pagesFrom_succ (start : U32int) (n : Nat) :
    pagesFrom start (n + 1) = insert (linAt start (4096 * n) / pageSize) (pagesFrom start n) := by
  ext q
  constructor
  · intro h
    obtain ⟨k, hk, rfl⟩ := h
    rcases Nat.lt_or_eq_of_le (Nat.le_of_lt_succ hk) with hlt | rfl
    · exact .inr ⟨k, hlt, rfl⟩
    · exact .inl rfl
  · intro h
    rcases h with rfl | ⟨k, hk, rfl⟩
    · exact ⟨n, Nat.lt_succ_self n, rfl⟩
    · exact ⟨k, Nat.lt_succ_of_lt hk, rfl⟩

theorem pagesFrom_zero (start : U32int) : pagesFrom start 0 = ∅ :=
  Set.eq_empty_of_forall_notMem fun _ ⟨_, hk, _⟩ => Nat.not_lt_zero _ hk

theorem linAt_zero (start : U32int) : linAt start 0 = start := add_zero start

theorem pagesFrom_one (start : U32int) : pagesFrom start 1 = {start / pageSize} := by
  rw [pagesFrom_succ, pagesFrom_zero, insert_empty_eq, Nat.mul_zero, linAt_zero]

/-- Two of the pages are different. -/
theorem not_mem_pagesFrom (ha : start.toNat % 4096 = 0) (hn : n < 2^20) :
    linAt start (4096 * n) / pageSize ∉ pagesFrom start n := by
  rw [mem_pagesFrom ha (by omega), (page_eq_iff_sub ha hn).mp rfl]
  exact lt_irrefl n

theorem linAt_sub (hk : k < 2^32) : (linAt start k - start).toNat = k := by
  rw [linAt, add_sub_cancel_left, BitVec.toNat_ofNat, Nat.mod_eq_of_lt hk]

theorem linAt_mem (ha : start.toNat % 4096 = 0) (hn : n ≤ 2^20) (hk : k < 4096 * n) :
    linAt start k / pageSize ∈ pagesFrom start n := by
  rw [mem_pagesFrom ha hn, linAt_sub (by omega)]
  omega

theorem linAt_succ (start : U32int) (k : Nat) : linAt start (k + 1) = linAt (start + 1) k := by
  rw [linAt, linAt, Nat.add_comm, BitVec.ofNat_add, add_assoc]
  rfl

theorem linAt_inj {j : Nat} (hj : j < 2^32) (hk : k < 2^32)
    (h : linAt start j = linAt start k) : j = k := by
  have he := congrArg (fun y => (y - start).toNat) h
  simpa only [linAt_sub hj, linAt_sub hk] using he

theorem linAt_aligned {start : U32int} (ha : start.toNat % 4096 = 0) (k : Nat) :
    (linAt start (4096 * k)).toNat % 4096 = 0 := by
  rw [linAt, BitVec.toNat_add, BitVec.toNat_ofNat]
  omega

theorem page_offset (addr : U32int) (k : Nat) :
    addr + BitVec.ofNat 32 k * pageSize = linAt addr (4096 * k) := by
  rw [linAt, Nat.mul_comm, BitVec.ofNat_mul]
  rfl

theorem linAt_base (addr base : U32int) (k : Nat) : linAt addr k + base = linAt (addr + base) k :=
  add_right_comm ..

theorem linAt_add (start : U32int) (k : Nat) (j : U32int) :
    linAt start k + j = linAt start (k + j.toNat) := by
  rw [linAt, linAt, BitVec.ofNat_add, BitVec.ofNat_toNat, BitVec.setWidth_eq, add_assoc]

end

def pageNumber (x : U32int) : BitVec 20 := x.extractLsb' 12 20

section

variable {x y : U32int}

theorem pageNumber_toNat (x : U32int) : (pageNumber x).toNat = x.toNat / 4096 := by
  have hx := x.isLt
  rw [pageNumber, BitVec.extractLsb'_toNat, Nat.shiftRight_eq_div_pow]
  omega

theorem page_eq_iff_number : x / pageSize = y / pageSize ↔ pageNumber x = pageNumber y := by
  rw [← BitVec.toNat_inj, ← BitVec.toNat_inj, page_toNat, page_toNat,
    pageNumber_toNat, pageNumber_toNat]

theorem pageNumber_linAt (x : U32int) (k : Nat) :
    pageNumber (linAt x (4096 * k)) = pageNumber x + BitVec.ofNat 20 k := by
  have hx := x.isLt
  apply BitVec.eq_of_toNat_eq
  rw [pageNumber_toNat, linAt, BitVec.toNat_add, BitVec.toNat_ofNat, BitVec.toNat_add,
    BitVec.toNat_ofNat, pageNumber_toNat]
  omega

theorem pageNumber_surjective (q : BitVec 20) : ∃ x : U32int, pageNumber x = q := by
  have hq := q.isLt
  refine ⟨BitVec.ofNat 32 (4096 * q.toNat), BitVec.eq_of_toNat_eq ?_⟩
  rw [pageNumber_toNat, BitVec.toNat_ofNat]
  omega

theorem mem_pagesFrom_iff_arc {start : U32int} {n : Nat} (hn : n ≤ 2^20) :
    x / pageSize ∈ pagesFrom start n ↔ pageNumber x ∈ arc (pageNumber start) n := by
  change (∃ k < n, x / pageSize = linAt start (4096 * k) / pageSize) ↔ _
  simp only [page_eq_iff_number, pageNumber_linAt, mem_arc_iff hn]

theorem pageNumber_gap (x : U32int) {d : Nat} (hd : d + 4096 ≤ 2^32) :
    (pageNumber (linAt x d) - pageNumber x).toNat = (x.toNat % 4096 + d) / 4096 := by
  have hx := x.isLt
  rw [BitVec.toNat_sub, pageNumber_toNat, pageNumber_toNat, linAt,
    BitVec.toNat_add, BitVec.toNat_ofNat]
  omega

end

/-- `for (index = 0; index < count; index++)` -/
theorem countingLoop_eq (count : U32int) (body : U32int → State → Except Trap State) (s : State) :
    s.forLoop (· < count) 1 0 body =
      (List.range count.toNat).foldlM (fun s k => body (BitVec.ofNat 32 k) s) s := by
  have hindex : ∀ k : Nat, (0 : U32int) + BitVec.ofNat 32 k * 1 = BitVec.ofNat 32 k := fun k => by
    rw [mul_one, zero_add]
  have hcount := count.isLt
  unfold State.forLoop
  rw [Loops.forLoop_eq_range (n := count.toNat) .diverged body (by unfold loopFuel; omega)]
  · simp only [hindex]
  · intro k hk
    rw [hindex, decide_eq_true_eq, BitVec.lt_def, BitVec.toNat_ofNat]
    omega
  · rw [hindex, decide_eq_false_iff_not, BitVec.lt_def, BitVec.toNat_ofNat, Nat.mod_eq_of_lt hcount]
    exact lt_irrefl _

/-- `for (index = start; index < stop; index += PAGE_SIZE)` in `n` rounds. -/
theorem pageLoop_eq {start stop : U32int} {n : Nat} (hend : start.toNat + 4096 * n < 2^32)
    (hn : ∀ k ≤ n, start.toNat + 4096 * k < stop.toNat ↔ k < n) (body : U32int → State →
    Except Trap State) (s : State) : s.forLoop (· < stop) pageSize start body =
      (List.range n).foldlM (fun s k => body (linAt start (4096 * k)) s) s := by
  have hindex : ∀ k ≤ n, (linAt start (4096 * k)).toNat = start.toNat + 4096 * k := by
    intro k hk
    rw [linAt, BitVec.toNat_add, BitVec.toNat_ofNat]
    omega
  unfold State.forLoop
  rw [Loops.forLoop_eq_range (n := n) .diverged body (by unfold loopFuel; omega)]
  · simp only [page_offset]
  · intro k hk
    rw [page_offset, decide_eq_true_eq, BitVec.lt_def, hindex k hk.le, hn k hk.le]
    exact hk
  · rw [page_offset, decide_eq_false_iff_not, BitVec.lt_def, hindex n le_rfl, hn n le_rfl]
    exact lt_irrefl n

end SimpleOs.Audit.PageRuns
