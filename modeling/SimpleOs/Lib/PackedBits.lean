import SimpleOs.Lib.ByteMemory
import Mathlib.Order.Bounds.Basic

/-!
# Bits packed eight to a byte

Bit `i` of the array at `p` is bit `i % 8` of byte `p + i/8`. Setting or
clearing one bit through its byte changes that bit alone, and scanning the
bytes from the first one finds the least clear bit.
-/

namespace SimpleOs.Lib.PackedBits

open SimpleOs.Lib.ByteMemory

def byteAt (p : Addr) (i : Nat) : Addr := p + BitVec.ofNat 32 (i / 8)

def bit (m : Memory) (p : Addr) (i : Nat) : Bool := (m (byteAt p i)).getLsbD (i % 8)

/-- One bit of a byte. -/
def mask (k : Nat) : Byte := 1#8 <<< k

theorem getLsbD_mask {k i : Nat} (hk : k < 8) (hi : i < 8) :
    (mask k).getLsbD i = decide (i = k) := by
  have h : ∀ k < 8, ∀ i < 8, (mask k).getLsbD i = decide (i = k) := by decide
  exact h k hk i hi

theorem byteAt_inj {p : Addr} {i k : Nat} (hi : i < 2^35) (hk : k < 2^35)
    (h : byteAt p i = byteAt p k) : i / 8 = k / 8 := by
  have h' := congrArg BitVec.toNat h
  simp only [byteAt, BitVec.toNat_add, BitVec.toNat_ofNat] at h'
  have hp := p.isLt
  omega

theorem bit_write8_other (m : Memory) {p a : Addr} (v : Byte) {i : Nat} (h : byteAt p i ≠ a) :
    bit (write8 m a v) p i = bit m p i := by
  rw [bit, write8_of_ne m v h, bit]

/-- Or-ing a mask into its byte sets exactly that bit. -/
theorem bit_set (m : Memory) (p : Addr) {k i : Nat} (hk : k < 2^35) (hi : i < 2^35) :
    bit (write8 m (byteAt p k) (m (byteAt p k) ||| mask (k % 8))) p i =
      (decide (i = k) || bit m p i) := by
  by_cases hb : byteAt p i = byteAt p k
  · have hd := byteAt_inj hi hk hb
    have he : (i % 8 = k % 8) ↔ i = k := by omega
    simp only [bit, hb, write8_same, BitVec.getLsbD_or,
      getLsbD_mask (Nat.mod_lt k (by decide)) (Nat.mod_lt i (by decide)), he, Bool.or_comm]
  · have hne : i ≠ k := fun h => hb (h ▸ rfl)
    rw [bit_write8_other m _ hb, decide_eq_false hne, Bool.false_or]

/-- And-ing the complement of a mask clears exactly that bit. -/
theorem bit_clear (m : Memory) (p : Addr) {k i : Nat} (hk : k < 2^35) (hi : i < 2^35) :
    bit (write8 m (byteAt p k) (m (byteAt p k) &&& ~~~mask (k % 8))) p i =
      (decide (i ≠ k) && bit m p i) := by
  by_cases hb : byteAt p i = byteAt p k
  · have hd := byteAt_inj hi hk hb
    have he : (i % 8 = k % 8) ↔ i = k := by omega
    have h8 := Nat.mod_lt i (show 0 < 8 by decide)
    simp only [bit, hb, write8_same, BitVec.getLsbD_and, BitVec.getLsbD_not, h8,
      getLsbD_mask (Nat.mod_lt k (by decide)) h8, he, Bool.and_comm, decide_true, Bool.true_and,
      decide_not, ne_eq]
  · have hne : i ≠ k := fun h => hb (h ▸ rfl)
    rw [bit_write8_other m _ hb, decide_eq_true hne, Bool.true_and]

/-- Lowest clear bit of a byte. -/
def clearInByte (b : Byte) : Option Nat := (List.range 8).find? fun j => !b.getLsbD j

theorem clearInByte_some {b : Byte} {j : Nat} (h : clearInByte b = some j) :
    j < 8 ∧ b.getLsbD j = false ∧ ∀ i < j, b.getLsbD i = true := by
  obtain ⟨hj, hlt, hs⟩ := List.find?_range_eq_some.mp h
  exact ⟨List.mem_range.mp hlt, by simpa using hj, fun i hi => by simpa using hs i hi⟩

theorem clearInByte_none {b : Byte} (h : clearInByte b = none) : ∀ j < 8, b.getLsbD j = true := by
  intro j hj
  simpa using List.find?_eq_none.mp h j (List.mem_range.mpr hj)

/-- Lowest clear bit of `n` bytes from byte number `o` on. -/
def clearFrom (m : Memory) (p : Addr) (o : Nat) : Nat → Option Nat
  | 0 => none
  | n + 1 =>
    match clearInByte (m (p + BitVec.ofNat 32 o)) with
    | some j => some (o * 8 + j)
    | none => clearFrom m p (o + 1) n

theorem bit_in_byte (m : Memory) (p : Addr) (o : Nat) {j : Nat} (hj : j < 8) :
    bit m p (o * 8 + j) = (m (p + BitVec.ofNat 32 o)).getLsbD j := by
  rw [bit, byteAt, show (o * 8 + j) / 8 = o by omega, show (o * 8 + j) % 8 = j by omega]

theorem clearFrom_some {m : Memory} {p : Addr} {n : Nat} : ∀ {o k : Nat},
    clearFrom m p o n = some k → o * 8 ≤ k ∧ k < (o + n) * 8 ∧ bit m p k = false ∧
      ∀ i, o * 8 ≤ i → i < k → bit m p i = true := by
  induction n with
  | zero => intro o k h; cases h
  | succ n ih =>
    intro o k h
    rw [clearFrom] at h
    cases hb : clearInByte (m (p + BitVec.ofNat 32 o)) with
    | some j =>
      rw [hb] at h
      obtain rfl := Option.some.inj h
      obtain ⟨hj, hc, hs⟩ := clearInByte_some hb
      refine ⟨by omega, by omega, (bit_in_byte m p o hj).trans hc, fun i h0 hi => ?_⟩
      obtain ⟨d, rfl⟩ := Nat.exists_eq_add_of_le h0
      rw [bit_in_byte m p o (by omega)]
      exact hs d (by omega)
    | none =>
      rw [hb] at h
      obtain ⟨h0, h1, hc, hs⟩ := ih h
      refine ⟨by omega, by omega, hc, fun i hi hik => ?_⟩
      by_cases hn : (o + 1) * 8 ≤ i
      · exact hs i hn hik
      · obtain ⟨d, rfl⟩ := Nat.exists_eq_add_of_le hi
        rw [bit_in_byte m p o (by omega)]
        exact clearInByte_none hb d (by omega)

theorem clearFrom_none {m : Memory} {p : Addr} {n : Nat} : ∀ {o : Nat},
    clearFrom m p o n = none → ∀ i, o * 8 ≤ i → i < (o + n) * 8 → bit m p i = true := by
  induction n with
  | zero => intro o _ i h0 h1; omega
  | succ n ih =>
    intro o h i h0 h1
    rw [clearFrom] at h
    cases hb : clearInByte (m (p + BitVec.ofNat 32 o)) with
    | some j => rw [hb] at h; cases h
    | none =>
      rw [hb] at h
      by_cases hn : (o + 1) * 8 ≤ i
      · exact ih h i hn (by omega)
      · obtain ⟨d, rfl⟩ := Nat.exists_eq_add_of_le h0
        rw [bit_in_byte m p o (by omega)]
        exact clearInByte_none hb d (by omega)

/-- If some bit of the scanned bytes is clear, the scan returns the least one. -/
theorem clearFrom_isLeast {m : Memory} {p : Addr} {n k : Nat}
    (h : IsLeast {i | bit m p i = false} k) (hk : k < n * 8) : clearFrom m p 0 n = some k := by
  cases hc : clearFrom m p 0 n with
  | none =>
    have hb := clearFrom_none hc k (Nat.zero_le _) (by omega)
    rw [h.1] at hb
    cases hb
  | some j =>
    obtain ⟨-, -, hj, hs⟩ := clearFrom_some hc
    have hkj : k ≤ j := h.2 hj
    rcases Nat.lt_or_eq_of_le hkj with hlt | rfl
    · have hb := hs k (Nat.zero_le _) hlt
      rw [h.1] at hb
      cases hb
    · rfl

/-- Numbers of the clear bits among the first `n`. -/
def freeList (m : Memory) (p : Addr) (n : Nat) : List Nat :=
    (List.range n).filter fun i => !bit m p i

theorem mem_freeList {m : Memory} {p : Addr} {n i : Nat} :
    i ∈ freeList m p n ↔ i < n ∧ bit m p i = false := by
  rw [freeList, List.mem_filter, List.mem_range, Bool.not_eq_true']

theorem bit_of_not_mem {m : Memory} {p : Addr} {n i : Nat} (h : i ∉ freeList m p n) (hi : i < n) :
    bit m p i = true := by
  cases hc : bit m p i with
  | true => rfl
  | false => exact absurd (mem_freeList.mpr ⟨hi, hc⟩) h

/-- What was in use stays in use while the list of free pages shrinks. -/
theorem bit_of_freeList_subset {m m' : Memory} {p : Addr} {n i : Nat}
    (h : freeList m' p n ⊆ freeList m p n) (hi : i < n) (hb : bit m p i = true) :
    bit m' p i = true := by
  refine bit_of_not_mem (fun hmem => ?_) hi
  have hclear := (mem_freeList.mp (h hmem)).2
  rw [hb] at hclear
  cases hclear

theorem bit_of_freeList_eq {m m' : Memory} {p : Addr} {n i : Nat}
    (h : freeList m' p n = freeList m p n) (hi : i < n) : bit m' p i = bit m p i := by
  cases hb : bit m p i with
  | true => exact bit_of_freeList_subset (h ▸ List.Subset.refl _) hi hb
  | false =>
    exact (mem_freeList.mp (h ▸ mem_freeList.mpr ⟨hi, hb⟩)).2

theorem freeList_length_le (m : Memory) (p : Addr) (n : Nat) : (freeList m p n).length ≤ n := by
  have hle : (freeList m p n).length ≤ (List.range n).length := List.length_filter_le ..
  rwa [List.length_range] at hle

theorem freeList_nodup (m : Memory) (p : Addr) (n : Nat) : (freeList m p n).Nodup :=
  List.nodup_range.filter _

theorem freeList_congr {m m' : Memory} {p p' : Addr} {n : Nat}
    (h : ∀ i < n, bit m' p' i = bit m p i) : freeList m' p' n = freeList m p n :=
  List.filter_congr fun i hi => by rw [h i (List.mem_range.mp hi)]

/-- The first number of the list is the least clear bit. -/
theorem freeList_head {m : Memory} {p : Addr} {n k : Nat} {rest : List Nat}
    (h : freeList m p n = k :: rest) : k < n ∧ bit m p k = false ∧ ∀ i < k, bit m p i = true := by
  obtain ⟨hk, hfree⟩ := mem_freeList.mp (h ▸ List.mem_cons_self : k ∈ freeList m p n)
  refine ⟨hk, hfree, fun i hi => ?_⟩
  by_contra hclear
  have hmem : i ∈ freeList m p n := mem_freeList.mpr ⟨by omega, Bool.eq_false_of_not_eq_true hclear⟩
  have hsorted : (k :: rest).Pairwise (· < ·) := h ▸ List.pairwise_lt_range.filter _
  rw [h] at hmem
  rcases List.mem_cons.mp hmem with rfl | hrest
  · exact lt_irrefl _ hi
  · have hlt := List.rel_of_pairwise_cons hsorted hrest
    omega

/-- Setting that bit takes it off the list. -/
theorem freeList_mark {m m' : Memory} {p : Addr} {n k : Nat} {rest : List Nat}
    (h : freeList m p n = k :: rest) (hbits : ∀ i < n, bit m' p i = (decide (i = k) || bit m p i)) :
    freeList m' p n = rest := by
  have hnodup : (k :: rest).Nodup := h ▸ freeList_nodup m p n
  have hfilter : freeList m' p n = (freeList m p n).filter fun i => decide (i ≠ k) := by
    rw [freeList, freeList, List.filter_filter]
    refine List.filter_congr fun i hi => ?_
    rw [hbits i (List.mem_range.mp hi), Bool.not_or, decide_not]
  rw [hfilter, h, List.filter_cons_of_neg (by simp)]
  exact List.filter_eq_self.mpr fun i hi => decide_eq_true fun he =>
    (List.nodup_cons.mp hnodup).1 (he ▸ hi)

theorem freeList_cons {m : Memory} {p : Addr} {n k : Nat} (hk : k < n) (hfree : bit m p k = false)
    (hused : ∀ i < k, bit m p i = true) : ∃ rest, freeList m p n = k :: rest := by
  have hmem : k ∈ freeList m p n := mem_freeList.mpr ⟨hk, hfree⟩
  obtain ⟨j, rest, hcons⟩ := List.exists_cons_of_ne_nil (List.ne_nil_of_mem hmem)
  obtain ⟨-, hjfree, hjused⟩ := freeList_head hcons
  obtain rfl : j = k := by
    rcases Nat.lt_trichotomy j k with hlt | heq | hgt
    · rw [hused j hlt] at hjfree
      cases hjfree
    · exact heq
    · rw [hjused k hgt] at hfree
      cases hfree
  exact ⟨rest, hcons⟩

/-- A run of clear bits is in the list. -/
theorem le_length_freeList {m : Memory} {p : Addr} {n k l : Nat} (hn : k + l ≤ n)
    (hfree : ∀ i, k ≤ i → i < k + l → bit m p i = false) : l ≤ (freeList m p n).length := by
  have hsub : List.range' k l ⊆ freeList m p n := by
    intro i hi
    obtain ⟨hlow, hhigh⟩ := List.mem_range'_1.mp hi
    exact mem_freeList.mpr ⟨by omega, hfree i hlow hhigh⟩
  have hle := List.Nodup.length_le_of_subset List.nodup_range' hsub
  rwa [List.length_range'] at hle

end SimpleOs.Lib.PackedBits
