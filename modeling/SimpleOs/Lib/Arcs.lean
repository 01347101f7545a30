import Mathlib.Data.BitVec
import Mathlib.Data.Set.Lattice
import Mathlib.Order.CompletePartialOrder

/-!
# Intervals modulo a power of two

An arc is a number of consecutive words, which may run over the largest one to zero.
Two arcs meet exactly if one of them begins inside the other.
-/

namespace SimpleOs.Lib.Arcs

variable {w : Nat} {a b x : BitVec w} {m n : Nat}

/-- The `n` words from `a` on. -/
def arc (a : BitVec w) (n : Nat) : Set (BitVec w) := {x | (x - a).toNat < n}

theorem mem_arc : x ∈ arc a n ↔ (x - a).toNat < n := Iff.rfl

theorem arc_zero (a : BitVec w) : arc a 0 = ∅ :=
    Set.eq_empty_of_forall_notMem fun _ => Nat.not_lt_zero _

theorem start_mem (hn : 0 < n) : a ∈ arc a n := by
  rw [mem_arc, BitVec.sub_self, BitVec.toNat_zero]
  exact hn

/-- The words are the first `n` sums. -/
theorem mem_arc_iff (hn : n ≤ 2^w) : x ∈ arc a n ↔ ∃ k < n, x = a + BitVec.ofNat w k := by
  constructor
  · intro hx
    refine ⟨_, hx, ?_⟩
    rw [BitVec.ofNat_toNat, BitVec.setWidth_eq, BitVec.add_comm, BitVec.sub_add_cancel]
  · intro h
    obtain ⟨k, hk, rfl⟩ := h
    rw [mem_arc, BitVec.add_comm, BitVec.add_sub_cancel, BitVec.toNat_ofNat,
      Nat.mod_eq_of_lt (by omega)]
    exact hk

/-- Neither arc begins inside the other. -/
def Clear (a : BitVec w) (m : Nat) (b : BitVec w) (n : Nat) : Prop :=
  m ≤ (b - a).toNat ∧ n ≤ (a - b).toNat

instance (a : BitVec w) (m : Nat) (b : BitVec w) (n : Nat) : Decidable (Clear a m b n) :=
  inferInstanceAs (Decidable (_ ∧ _))

theorem Clear.symm (h : Clear a m b n) : Clear b n a m := ⟨h.2, h.1⟩

/-- The arc that begins first ends before the other, and the other before it comes round
to the first. -/
theorem clear_iff_of_lt (h : a.toNat < b.toNat) :
    Clear a m b n ↔ a.toNat + m ≤ b.toNat ∧ b.toNat + n ≤ a.toNat + 2^w := by
  have ha := a.isLt
  have hb := b.isLt
  have hba : (b - a).toNat = b.toNat - a.toNat := BitVec.toNat_sub_of_le (BitVec.le_def.mpr h.le)
  have hab : (a - b).toNat = 2^w - b.toNat + a.toNat := by
    rw [BitVec.toNat_sub, Nat.mod_eq_of_lt (by omega)]
  rw [Clear, hba, hab]
  omega

theorem clear_self (a : BitVec w) (hm : 0 < m) : ¬ Clear a m a n := by
  intro h
  obtain ⟨h, -⟩ := h
  rw [BitVec.sub_self, BitVec.toNat_zero] at h
  omega

theorem disjoint_iff_clear (hm : 0 < m) (hn : 0 < n) :
    Disjoint (arc a m) (arc b n) ↔ Clear a m b n := by
  constructor
  · intro h
    rw [Set.disjoint_left] at h
    have hb := fun hin => h (a := b) hin (start_mem hn)
    have ha := fun hin => h (a := a) (start_mem hm) hin
    rw [mem_arc] at hb ha
    exact ⟨Nat.le_of_not_lt hb, Nat.le_of_not_lt ha⟩
  · intro h
    obtain ⟨hab, hba⟩ := h
    rw [Set.disjoint_left]
    intro x hxa hxb
    rw [mem_arc] at hxa hxb
    -- the arc in which the word lies further behind the start has the other start in it
    rcases BitVec.le_total (x - b) (x - a) with hle | hle
    · have hd : (b - a).toNat = (x - a).toNat - (x - b).toNat := by
        rw [← BitVec.toNat_sub_of_le hle, sub_sub_sub_cancel_left]
      omega
    · have hd : (a - b).toNat = (x - b).toNat - (x - a).toNat := by
        rw [← BitVec.toNat_sub_of_le hle, sub_sub_sub_cancel_left]
      omega

/-- With nothing assumed about the lengths, one of the two may also be empty. -/
theorem disjoint_iff : Disjoint (arc a m) (arc b n) ↔ m = 0 ∨ n = 0 ∨ Clear a m b n := by
  rcases Nat.eq_zero_or_pos m with rfl | hm
  · simp only [arc_zero, Set.empty_disjoint, true_or]
  rcases Nat.eq_zero_or_pos n with rfl | hn
  · simp only [arc_zero, Set.disjoint_empty, true_or, or_true]
  rw [disjoint_iff_clear hm hn]
  constructor
  · exact fun h => .inr (.inr h)
  · intro h
    rcases h with rfl | rfl | h
    · exact absurd hm (lt_irrefl 0)
    · exact absurd hn (lt_irrefl 0)
    · exact h

end SimpleOs.Lib.Arcs
