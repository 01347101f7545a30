import SimpleOs.Lib.ByteMemory
import Mathlib.Tactic.Ring

/-!
# Words on a stack

A list of words from an address on, with the top first. A push puts a word in front as long
as the list does not fill the address space.
-/

namespace SimpleOs.Lib.WordStack

open SimpleOs.Lib.ByteMemory

variable {m m' : Memory} {p a v : BitVec 32} {l l' : List (BitVec 32)}

/-- The words from `p` on. -/
def Words (m : Memory) : Addr → List (BitVec 32) → Prop
  | _, [] => True
  | p, v :: l => read32 m p = v ∧ Words m (p + 4) l

@[simp] theorem words_nil : Words m p [] := trivial

@[simp] theorem words_cons : Words m p (v :: l) ↔ read32 m p = v ∧ Words m (p + 4) l := Iff.rfl

theorem Words.congr (h : Words m p l)
    (hm : ∀ k : Addr, k.toNat < 4 * l.length → m' (p + k) = m (p + k))
    (hl : 4 * l.length ≤ 2^32) : Words m' p l := by
  induction l generalizing p with
  | nil => exact words_nil
  | cons v l ih =>
    rw [List.length_cons] at hm hl
    refine ⟨(read32_congr fun k hk => hm k (by omega)).trans h.1,
      ih h.2 (fun k hk => ?_) (by omega)⟩
    rw [add_assoc]
    exact hm (4 + k) (by rw [BitVec.toNat_add, show (4 : Addr).toNat = 4 from rfl]; omega)

/-- A word elsewhere. -/
theorem Words.write (h : Words m p l) (hlow : 4 * l.length ≤ (a - p).toNat)
    (hhigh : (a - p).toNat + 4 ≤ 2^32) (v : BitVec 32) : Words (write32 m a v) p l :=
  h.congr (fun k hk => write32_of_far m v (by bv_omega)) (by omega)

theorem Words.push (h : Words m p l) (hl : 4 * l.length + 4 ≤ 2^32) (v : BitVec 32) :
    Words (write32 m (p - 4) v) (p - 4) (v :: l) := by
  refine ⟨read32_write32_same .., ?_⟩
  rw [sub_add_cancel]
  have hoff : (p - 4 - p).toNat = 2^32 - 4 := by bv_omega
  exact h.write (by omega) (by omega) v

theorem words_append : Words m p (l ++ l') ↔
    Words m p l ∧ Words m (p + BitVec.ofNat 32 (4 * l.length)) l' := by
  induction l generalizing p with
  | nil => simp
  | cons v l ih =>
    have hnext : p + 4 + BitVec.ofNat 32 (4 * l.length) = p + BitVec.ofNat 32
        (4 * (v :: l).length) := by
      rw [List.length_cons, Nat.mul_succ, add_assoc, add_comm (4 * l.length) 4, BitVec.ofNat_add]
      rfl
    rw [List.cons_append, words_cons, words_cons, ih, hnext, and_assoc]

/-- `l` pushed on a stack that ended at `top` of `m`. -/
structure Pushed (m : Memory) (top : Addr) (m' : Memory) (p : Addr)
    (l : List (BitVec 32)) : Prop where
  words : Words m' p l
  base : p + BitVec.ofNat 32 (4 * l.length) = top
  rest : ∀ x, 4 * l.length ≤ (x - p).toNat → m' x = m x

theorem Pushed.nil (m : Memory) (top : Addr) : Pushed m top m top [] where
  words := words_nil
  base := by simp
  rest _ _ := rfl

theorem Pushed.push {top : Addr} (h : Pushed m top m' p l) (hl : 4 * l.length + 4 ≤ 2^32)
    (v : BitVec 32) : Pushed m top (write32 m' (p - 4) v) (p - 4) (v :: l) where
  words := h.words.push hl v
  base := by
    rw [← h.base, List.length_cons, Nat.mul_succ, add_comm (4 * l.length) 4,
      BitVec.ofNat_add, ← add_assoc]
    exact congrArg (· + _) (sub_add_cancel p 4)
  rest x hx := by
    rw [List.length_cons] at hx
    rw [write32_of_far _ _ (by omega)]
    exact h.rest x (by bv_omega)

/-- The words behind are still there. -/
theorem Pushed.append {top : Addr} (h : Pushed m top m' p l) (hl' : Words m top l')
    (hlen : 4 * (l.length + l'.length) ≤ 2^32) : Words m' p (l ++ l') := by
  refine words_append.mpr ⟨h.words, ?_⟩
  rw [h.base]
  refine hl'.congr (fun k hk => h.rest _ ?_) (by omega)
  have hoff : top + k - p = BitVec.ofNat 32 (4 * l.length) + k := by rw [← h.base]; ring
  rw [hoff, BitVec.toNat_add, BitVec.toNat_ofNat, Nat.mod_eq_of_lt (by omega),
    Nat.mod_eq_of_lt (by omega)]
  exact Nat.le_add_right _ _

end SimpleOs.Lib.WordStack
