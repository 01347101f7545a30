import SimpleOs.Audit.HeapWords

/-!
# Bytes of the heap

A client sees bytes. The ones of the heap are those of its words, and a byte stored, a
range set or copied changes no others.
-/

namespace SimpleOs.Audit.HeapBytes

open SimpleOs.Kernel SimpleOs.Lib SimpleOs.Lib.ByteMemory SimpleOs.Audit.PageTables
open SimpleOs.Audit.LinearView SimpleOs.Audit.PageRuns SimpleOs.Audit.SlabHeap
open SimpleOs.Audit.HeapWords

/-- The word of a byte. -/
def wordOf (x : U32int) : U32int := x / 4 * 4

def byte (h : Heap) (x : U32int) : U8int := (h.words (wordOf x)).extractLsb' (8 * (x.toNat % 4)) 8

/-- The words of a range of bytes. -/
def WordsOf (p : U32int) (n : Nat) : Set U32int := { w | ∃ x, (x - p).toNat < n ∧ w = wordOf x }

section

variable {b : Bounds} {s : State} {h h' : Heap} {p x y : U32int} {n : Nat}

theorem wordOf_toNat (x : U32int) : (wordOf x).toNat = x.toNat / 4 * 4 := by
  have hx := x.isLt
  have hdiv : (x / 4).toNat = x.toNat / 4 := rfl
  rw [wordOf, BitVec.toNat_mul, hdiv]
  change x.toNat / 4 * 4 % 2^32 = _
  omega

theorem wordOf_add (x : U32int) : wordOf x + BitVec.ofNat 32 (x.toNat % 4) = x := by
  have hx := x.isLt
  apply BitVec.eq_of_toNat_eq
  rw [BitVec.toNat_add, wordOf_toNat, BitVec.toNat_ofNat]
  omega

theorem read32_byte (m : Memory) (a : Addr) {k : Nat} (hk : k < 4) :
    (read32 m a).extractLsb' (8 * k) 8 = m (a + BitVec.ofNat 32 k) := by
  rw [read32]
  refine BitVec.eq_of_getLsbD_eq fun i hi => ?_
  rw [BitVec.getLsbD_extractLsb']
  simp only [BitVec.getLsbD_append]
  interval_cases k
  all_goals simp only [hi, decide_true, Bool.true_and]
  · rw [if_pos (by omega), show 8 * 0 + i = i by omega]
    exact congrArg (fun a => (m a).getLsbD i) (add_zero a).symm
  · rw [if_neg (by omega), if_pos (by omega), show 8 * 1 + i - 8 = i by omega]
    rfl
  · rw [if_neg (by omega), if_neg (by omega), if_pos (by omega),
      show 8 * 2 + i - 8 - 8 = i by omega]
    rfl
  · rw [if_neg (by omega), if_neg (by omega), if_neg (by omega),
      show 8 * 3 + i - 8 - 8 - 8 = i by omega]
    rfl

variable {t : TableMap} {a : AddressSpace.Space} {L : Memory}

/-- The word of a byte of the heap. -/
theorem Shows.word_of (hw : Shows b s t a L h) (hlow : b.start ≤ x.toNat)
    (hhigh : x.toNat < h.brk.toNat) :
    (wordOf x).toNat % 4 = 0 ∧ b.start ≤ (wordOf x).toNat ∧ (wordOf x).toNat + 4 ≤ h.brk.toNat := by
  have ha := hw.window.start_aligned
  have hba := hw.brk_aligned
  rw [wordOf_toNat]
  omega

theorem Shows.byte_eq (hw : Shows b s t a L h) (hlow : b.start ≤ x.toNat)
    (hhigh : x.toNat < h.brk.toNat) : byte h x = L (x + s.dataBase) := by
  obtain ⟨h4, hwlow, hwhigh⟩ := Shows.word_of hw hlow hhigh
  rw [byte, ← hw.heap _ h4 hwlow hwhigh, read32_byte _ _ (Nat.mod_lt _ (by decide)),
    add_right_comm, wordOf_add]

theorem Carries.load8 (hc : Carries b s h) (hlow : b.start ≤ x.toNat)
    (hhigh : x.toNat < h.brk.toNat) : s.load8 x = .ok (byte h x) := by
  obtain ⟨t, a, L, hw⟩ := hc
  obtain ⟨hlim, hV⟩ := hw.page_mem hlow hhigh
  rw [Shows.byte_eq hw hlow hhigh]
  exact hw.view.load hlim hV

/-- The words of the heap in other linear memory. -/
def showing (b : Bounds) (h : Heap) (base : U32int) (L : Memory) : Heap :=
  { h with words := fun p => if p.toNat % 4 = 0 ∧ b.start ≤ p.toNat ∧ p.toNat + 4 ≤ h.brk.toNat then
      read32 L (p + base) else h.words p }

theorem Carries.store8 (hc : Carries b s h) (hlow : b.start ≤ x.toNat)
    (hhigh : x.toNat < h.brk.toNat) (v : U8int) :
    ∃ s' h', s.store8 x v = .ok s' ∧ Carries b s' h' ∧ Writes {wordOf x} h h' ∧
      ∀ y, byte h' y = if y = x then v else byte h y := by
  obtain ⟨t, a, L, hw⟩ := hc
  obtain ⟨hlim, hV⟩ := hw.page_mem hlow hhigh
  obtain ⟨z, hz, hst, hkept⟩ := View.store_byte hw.view hlim hV v
  obtain ⟨m, honly⟩ : ∃ m, s.withMemory (write8 s.memory z v) = s.withData m := ⟨_, hst.only_data⟩
  rw [honly] at hst hkept
  set L' := write8 L (x + s.dataBase) v with hL
  set h' := showing b h s.dataBase L' with hh
  have hle := b.statics_le
  have hshows : Shows b (s.withData m) t a L' h' := by
    refine ⟨hw.window.withData m, hst.view, hw.brk, hw.brk_aligned, hw.brk_above, hw.brk_below,
      hst.dataFree.symm ▸ hw.room, fun p hp4 hp => ?_, fun p hp4 hplow hphigh => ?_⟩
    · have hcode := hw.view.ready.supply.bitmap_end
      have hdata := hw.view.ready.holds.tables.bitmap_end
      have hend := hw.window.statics_end
      rw [hh, showing]
      dsimp only
      rw [if_neg (by omega), ← hw.statics p hp4 hp]
      exact read32_congr fun k hk => hkept _ (by bv_omega)
    · exact (if_pos ⟨hp4, hplow, hphigh⟩).symm
  refine ⟨s.withData m, h', ?_, ⟨t, a, L', hshows⟩, ⟨fun p hp => ?_, rfl, rfl⟩, fun y => ?_⟩
  · rw [← honly]
    exact State.store8_of_resolves hz v
  · rw [hh, showing]
    dsimp only
    split_ifs with hin
    · rw [← hw.heap p hin.1 hin.2.1 hin.2.2]
      refine read32_congr fun k hk => write8_of_ne _ _ fun he => hp ?_
      rw [add_right_comm] at he
      have hx := add_right_cancel he
      apply BitVec.eq_of_toNat_eq
      rw [wordOf_toNat, ← hx]
      have hlt := h.brk.isLt
      rw [BitVec.toNat_add, Nat.mod_eq_of_lt (by omega)]
      omega
    · rfl
  · by_cases hin : b.start ≤ y.toNat ∧ y.toNat < h.brk.toNat
    · rw [Shows.byte_eq hshows hin.1 hin.2, Shows.byte_eq hw hin.1 hin.2]
      change (if y + s.dataBase = x + s.dataBase then v else L (y + s.dataBase)) = _
      simp only [add_left_inj]
    · have hyx : y ≠ x := fun he => hin (he ▸ ⟨hlow, hhigh⟩)
      have ha := hw.window.start_aligned
      have hba := hw.brk_aligned
      have hy := wordOf_toNat y
      rw [if_neg hyx, byte, byte, hh, showing]
      dsimp only
      rw [if_neg (by omega)]

theorem wordOf_first (p : U32int) (n : Nat) : {wordOf p} ⊆ WordsOf p (n + 1) := by
  rintro w rfl
  refine ⟨p, ?_, rfl⟩
  rw [sub_self]
  exact Nat.succ_pos n

theorem wordsOf_rest (p : U32int) {n : Nat} (hn : n < 2^32) :
    WordsOf (p + 1) n ⊆ WordsOf p (n + 1) := by
  rintro w ⟨x, hx, rfl⟩
  exact ⟨x, by bv_omega, rfl⟩

theorem Carries.memset (c : U8int) :
    ∀ {n : Nat} {s : State} {h : Heap} {p : U32int}, Carries b s h →
    b.start ≤ p.toNat → p.toNat + n ≤ h.brk.toNat → ∃ s' h',
    s.memset p c n = .ok s' ∧ Carries b s' h' ∧
      Writes (WordsOf p n) h h' ∧ ∀ y, byte h' y = if (y - p).toNat < n then c else byte h y
  | 0, s, h, p, hc, _, _ => ⟨s, h, rfl, hc, .refl _ _, fun y => (if_neg (Nat.not_lt_zero _)).symm⟩
  | n + 1, s, h, p, hc, hlow, hhigh => by
    have hlt := h.brk.isLt
    obtain ⟨s1, h1, hstore, hc1, hw1, hb1⟩ := Carries.store8 hc hlow (by omega) c
    obtain ⟨s', h', hrest, hc', hw', hb'⟩ :=
      Carries.memset c (n := n) (p := p + 1) hc1 (by bv_omega) (by rw [hw1.brk]; bv_omega)
    refine ⟨s', h', ?_, hc', (hw1.mono (wordOf_first p n)).trans
      (hw'.mono (wordsOf_rest p (by omega))), fun y => ?_⟩
    · rw [State.memset, bind_of_ok hstore]
      exact hrest
    · rw [hb', hb1]
      by_cases hy : y = p
      · subst hy
        rw [if_pos rfl, ite_self, if_pos (by rw [sub_self]; exact Nat.succ_pos n)]
      · rw [if_neg hy]
        exact if_congr (by bv_omega) rfl rfl

/-- Copied bytes are where they go when the two ranges are apart. -/
theorem Carries.memcpy : ∀ {n : Nat} {s : State} {h : Heap} {dst src : U32int}, Carries b s h →
    b.start ≤ dst.toNat → dst.toNat + n ≤ h.brk.toNat → b.start ≤ src.toNat →
    src.toNat + n ≤ h.brk.toNat →
    dst.toNat + n ≤ src.toNat ∨ src.toNat + n ≤ dst.toNat → ∃ s' h',
    s.memcpy dst src n = .ok s' ∧ Carries b s' h' ∧
      Writes (WordsOf dst n) h h' ∧
        ∀ y, byte h' y = if (y - dst).toNat < n then byte h (src + (y - dst)) else byte h y
  | 0, s, h, dst, src, hc, _, _, _, _, _ =>
    ⟨s, h, rfl, hc, .refl _ _, fun y => (if_neg (Nat.not_lt_zero _)).symm⟩
  | n + 1, s, h, dst, src, hc, hdlow, hdhigh, hslow, hshigh, hap => by
    have hlt := h.brk.isLt
    have hload := Carries.load8 hc hslow (by omega)
    obtain ⟨s1, h1, hstore, hc1, hw1, hb1⟩ := Carries.store8 hc hdlow (by omega) (byte h src)
    obtain ⟨s', h', hrest, hc', hw', hb'⟩ := Carries.memcpy hc1
      (by bv_omega : b.start ≤ (dst + 1).toNat) (by rw [hw1.brk]; bv_omega : _ + n ≤ h1.brk.toNat)
      (by bv_omega : b.start ≤ (src + 1).toNat) (by rw [hw1.brk]; bv_omega) (by bv_omega)
    refine ⟨s', h', ?_, hc', (hw1.mono (wordOf_first dst n)).trans
      (hw'.mono (wordsOf_rest dst (by omega))), fun y => ?_⟩
    · rw [State.memcpy, bind_of_ok hload, bind_of_ok hstore]
      exact hrest
    · rw [hb', hb1, hb1]
      by_cases hy : y = dst
      · subst hy
        have hself : (y - y).toNat < n + 1 := by
          rw [sub_self]
          exact Nat.succ_pos n
        rw [if_pos rfl, if_pos hself, sub_self, add_zero, if_neg (by bv_omega)]
      · have hnext : src + 1 + (y - (dst + 1)) = src + (y - dst) := by ring
        rw [if_neg hy, hnext]
        by_cases hin : (y - dst).toNat < n + 1
        · rw [if_pos hin, if_pos (by bv_omega), if_neg (by bv_omega)]
        · rw [if_neg hin, if_neg (by bv_omega)]

end

end SimpleOs.Audit.HeapBytes
