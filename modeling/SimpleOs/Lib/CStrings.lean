import SimpleOs.Lib.ByteMemory
import Mathlib.Data.List.GetD
import Mathlib.Tactic.Push

/-!
# Strings that end in a NUL

What it means that a text stands in memory, and where two texts first differ when the
NUL counts as a character.
-/

namespace SimpleOs.Lib.CStrings

open SimpleOs.Lib.ByteMemory

/-- The characters of `text` stand from `p` on, and then the first NUL. -/
def StringAt (m : Memory) : Addr → List Byte → Prop
  | p, [] => m p = 0
  | p, c :: text => c ≠ 0 ∧ m p = c ∧ StringAt m (p + 1) text

/-- Character `i`, or the NUL. -/
def charOf (text : List Byte) (i : Nat) : Byte := text.getD i 0

theorem add_succ_ofNat (p : Addr) (i : Nat) :
    p + BitVec.ofNat 32 (i+1) = p + 1 + BitVec.ofNat 32 i := by
  rw [Nat.add_comm i 1, BitVec.ofNat_add, ← BitVec.add_assoc]
  rfl

theorem add_ofNat_succ (p : Addr) (i : Nat) :
    p + BitVec.ofNat 32 (i+1) = p + BitVec.ofNat 32 i + 1 := by
  rw [BitVec.ofNat_add, ← BitVec.add_assoc]
  rfl

section

variable {m : Memory} {p : Addr} {text : List Byte}

/-- The rest of a string behind its first character. -/
theorem StringAt.tail {c : Byte} {i : Nat} (h : StringAt m (p + BitVec.ofNat 32 i) (c :: text)) :
    StringAt m (p + BitVec.ofNat 32 (i+1)) text := by
  rw [add_ofNat_succ]
  exact h.2.2

theorem StringAt.char (h : StringAt m p text) {i : Nat} (hi : i ≤ text.length) :
    m (p + BitVec.ofNat 32 i) = charOf text i := by
  induction text generalizing p i with
  | nil =>
    obtain rfl : i = 0 := Nat.le_zero.mp hi
    rw [BitVec.add_zero]
    exact h
  | cons c text ih =>
    obtain ⟨-, hc, hrest⟩ := h
    cases i with
    | zero =>
      rw [BitVec.add_zero]
      exact hc
    | succ i =>
      rw [add_succ_ofNat]
      exact ih hrest (Nat.le_of_succ_le_succ hi)

theorem StringAt.char_ne_zero (h : StringAt m p text) {i : Nat} (hi : i < text.length) :
    charOf text i ≠ 0 := by
  induction text generalizing p i with
  | nil => exact absurd hi (Nat.not_lt_zero i)
  | cons c text ih =>
    obtain ⟨hc, -, hrest⟩ := h
    cases i with
    | zero => exact hc
    | succ i => exact ih hrest (Nat.lt_of_succ_lt_succ hi)

theorem StringAt.getElem (h : StringAt m p text) {i : Nat} (hi : i < text.length) :
    m (p + BitVec.ofNat 32 i) = text[i] := by
  rw [h.char hi.le, charOf, List.getD_eq_getElem _ _ hi]

theorem StringAt.noNul (h : StringAt m p text) : 0 ∉ text := by
  intro hmem
  obtain ⟨i, hi, hzero⟩ := List.getElem_of_mem hmem
  apply h.char_ne_zero hi
  rw [charOf, List.getD_eq_getElem _ _ hi, hzero]

theorem charOf_length (text : List Byte) : charOf text text.length = 0 := by
  rw [charOf, List.getD_eq_default _ _ le_rfl]

/-- The address of the NUL differs from those of the characters. -/
theorem StringAt.length_lt (h : StringAt m p text) : text.length < 2^32 := by
  by_contra hlong
  have hback : BitVec.ofNat 32 text.length = BitVec.ofNat 32 (text.length - 2^32) := by
    apply BitVec.eq_of_toNat_eq
    rw [BitVec.toNat_ofNat, BitVec.toNat_ofNat]
    omega
  have hchar := h.char (Nat.sub_le text.length (2^32))
  have hnul := h.char le_rfl
  rw [charOf_length, hback, hchar] at hnul
  exact h.char_ne_zero (by omega) hnul

theorem StringAt.unique {text' : List Byte} (h : StringAt m p text)
    (h' : StringAt m p text') : text = text' := by
  induction text generalizing p text' with
  | nil =>
    cases text' with
    | nil => rfl
    | cons c' text' =>
      obtain ⟨hc', hp', -⟩ := h'
      exact absurd (hp'.symm.trans h) hc'
  | cons c text ih =>
    obtain ⟨hc, hp, hrest⟩ := h
    cases text' with
    | nil => exact absurd (hp.symm.trans h') hc
    | cons c' text' =>
      obtain ⟨-, hp', hrest'⟩ := h'
      rw [hp.symm.trans hp', ih hrest hrest']

end

/-- Index `k` is the first where the texts differ. -/
structure FirstDifference (a b : List Byte) (k : Nat) : Prop where
  before : ∀ j < k, charOf a j = charOf b j
  differs : charOf a k ≠ charOf b k

section

variable {m : Memory} {p q : Addr} {a b : List Byte} {k : Nat}

/-- There is only one first index. -/
theorem first_unique {P : Nat → Prop} {k' : Nat} (hbefore : ∀ j < k, P j) (hk : ¬ P k)
    (hbefore' : ∀ j < k', P j) (hk' : ¬ P k') : k = k' := by
  refine Nat.le_antisymm ?_ ?_
  · by_contra hlt
    exact hk' (hbefore k' (Nat.not_le.mp hlt))
  · by_contra hlt
    exact hk (hbefore' k (Nat.not_le.mp hlt))

theorem FirstDifference.unique {k' : Nat} (h : FirstDifference a b k)
    (h' : FirstDifference a b k') : k = k' :=
  first_unique h.before h.differs h'.before h'.differs

theorem FirstDifference.symm (h : FirstDifference a b k) : FirstDifference b a k :=
  ⟨fun j hj => (h.before j hj).symm, h.differs.symm⟩

/-- It is at the end of a text at the latest. -/
theorem FirstDifference.le_length (h : FirstDifference a b k)
    (hb : StringAt m q b) : k ≤ a.length := by
  by_contra hlt
  have hend := h.before a.length (by omega)
  rw [charOf_length] at hend
  have hshort : b.length ≤ a.length := by
    by_contra hlong
    exact hb.char_ne_zero (by omega) hend.symm
  apply h.differs
  rw [charOf, charOf, List.getD_eq_default _ _ (by omega), List.getD_eq_default _ _ (by omega)]

theorem exists_firstDifference (ha : StringAt m p a) (hb : StringAt m q b) (hne : a ≠ b) :
    ∃ k, FirstDifference a b k := by
  have hdiffer : ∃ k, charOf a k ≠ charOf b k := by
    by_contra hall
    push Not at hall
    have hlength : a.length = b.length := by
      refine Nat.le_antisymm ?_ ?_
      · by_contra hlong
        have hnul := hall b.length
        rw [charOf_length] at hnul
        exact ha.char_ne_zero (by omega) hnul
      · by_contra hlong
        have hnul := hall a.length
        rw [charOf_length] at hnul
        exact hb.char_ne_zero (by omega) hnul.symm
    refine hne (List.ext_getElem hlength fun i hi hi' => ?_)
    have hchar := hall i
    rwa [charOf, charOf, List.getD_eq_getElem _ _ hi, List.getD_eq_getElem _ _ hi'] at hchar
  classical
  exact ⟨Nat.find hdiffer, fun j hj => not_not.mp (Nat.find_min hdiffer hj), Nat.find_spec hdiffer⟩

end

end SimpleOs.Lib.CStrings
