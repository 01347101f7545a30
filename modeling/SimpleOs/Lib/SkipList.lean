import Mathlib.Data.List.Basic
import Mathlib.Data.List.Nodup
import Mathlib.Data.List.Perm.Basic
import Mathlib.Order.Lattice

/-!
# Skip lists

Lists ordered by a key, each a part of the one under it. A search for a key goes down
from the highest list and finds in each the last member below the key; in between it
never has to turn back, as that member is in the list under it, too.
-/

namespace SimpleOs.Lib.SkipList

variable {α κ : Type} [LinearOrder κ] (key : α → κ)

def Ordered (l : List α) : Prop := l.Pairwise fun a b => key a ≤ key b

def below (k : κ) (l : List α) : List α := l.filter fun a => key a < k
def above (k : κ) (l : List α) : List α := l.filter fun a => k ≤ key a

/-- The last member below `k`, or the node in front of the list. -/
def pred (front : α) (k : κ) (l : List α) : α := (below key k l).getLastD front

def insertAt (v : α) (l : List α) : List α := below key (key v) l ++ v :: above key (key v) l

structure Levels (levels : Nat → List α) : Prop where
  ordered : Ordered key (levels 0)
  nodup : (levels 0).Nodup
  sub : ∀ i, (levels (i + 1)).Sublist (levels i)

/-- With `v` on the levels up to `n`. -/
def inserted (levels : Nat → List α) (v : α) (n i : Nat) : List α :=
  if i ≤ n then insertAt key v (levels i) else levels i

def removed [DecidableEq α] (levels : Nat → List α) (v : α) (i : Nat) : List α := (levels i).erase v

variable {key}

section

variable {k : κ} {l l' : List α} {a v : α}

theorem mem_below : a ∈ below key k l ↔ a ∈ l ∧ key a < k := by
  rw [below, List.mem_filter, decide_eq_true_eq]

theorem mem_above : a ∈ above key k l ↔ a ∈ l ∧ k ≤ key a := by
  rw [above, List.mem_filter, decide_eq_true_eq]

theorem Ordered.sublist (h : Ordered key l') (hs : l.Sublist l') : Ordered key l :=
    List.Pairwise.sublist hs h

theorem below_cons_of_lt (h : key a < k) : below key k (a :: l) = a :: below key k l :=
  List.filter_cons_of_pos (decide_eq_true h)

theorem Ordered.below_nil (h : Ordered key (a :: l)) (hk : k ≤ key a) :
    below key k (a :: l) = [] := by
  rw [below, List.filter_eq_nil_iff]
  intro b hb
  rw [decide_eq_true_eq, not_lt]
  rcases List.mem_cons.mp hb with rfl | hin
  · exact hk
  · exact hk.trans ((List.pairwise_cons.mp h).1 b hin)

theorem Ordered.below_append_above (h : Ordered key l) : below key k l ++ above key k l = l := by
  induction l with
  | nil => rfl
  | cons b l ih =>
    obtain ⟨hb, hrest⟩ := List.pairwise_cons.mp h
    by_cases hk : key b < k
    · have hbelow : below key k (b :: l) = b :: below key k l :=
        List.filter_cons_of_pos (decide_eq_true hk)
      have habove : above key k (b :: l) = above key k l :=
        List.filter_cons_of_neg (by simpa using hk)
      rw [hbelow, habove, List.cons_append, ih hrest]
    · have hle := not_lt.mp hk
      have hnone := h.below_nil hle
      have hall : above key k (b :: l) = b :: l := by
        rw [above, List.filter_eq_self]
        intro c hc
        rw [decide_eq_true_eq]
        rcases List.mem_cons.mp hc with rfl | hin
        · exact hle
        · exact hle.trans (hb c hin)
      rw [hnone, hall, List.nil_append]

/-- The first member that is not below the key is the smallest of them. -/
theorem Ordered.le_of_above (h : Ordered key l) (hv : above key k l = v :: l') (ha : a ∈ l)
    (hk : k ≤ key a) : key v ≤ key a := by
  have hord : Ordered key (v :: l') := hv ▸ h.sublist List.filter_sublist
  have hin : a ∈ v :: l' := hv ▸ mem_above.mpr ⟨ha, hk⟩
  rcases List.mem_cons.mp hin with rfl | hin
  · exact le_rfl
  · exact (List.pairwise_cons.mp hord).1 a hin

/-- A search that goes on from a node below the key ends where one from the front does. -/
theorem Ordered.resume {front node : α} (h : Ordered key l)
    (hnode : node ∈ front :: below key k l) :
    ∃ l₁ l₂, l = l₁ ++ l₂ ∧ l₁.getLastD front = node ∧ pred key node k l₂ = pred key front k l := by
  rcases List.mem_cons.mp hnode with rfl | hin
  · exact ⟨[], l, rfl, rfl, rfl⟩
  · obtain ⟨hl, hlt⟩ := mem_below.mp hin
    obtain ⟨l₁, l₂, rfl⟩ := List.append_of_mem hl
    refine ⟨l₁ ++ [node], l₂, by simp, by simp, ?_⟩
    have hfirst : below key k (l₁ ++ [node]) = l₁ ++ [node] := by
      rw [below, List.filter_eq_self]
      intro b hb
      rw [decide_eq_true_eq]
      rcases List.mem_append.mp hb with hin | hin
      · exact ((List.pairwise_append.mp h).2.2 b hin node List.mem_cons_self).trans_lt hlt
      · rwa [List.mem_singleton.mp hin]
    have hsplit : below key k (l₁ ++ node :: l₂) = l₁ ++ [node] ++ below key k l₂ := by
      rw [show l₁ ++ node :: l₂ = l₁ ++ [node] ++ l₂ by simp, below, List.filter_append]
      exact congrArg (· ++ _) hfirst
    rw [pred, pred, hsplit, List.getLastD_eq_getLast?,
      List.getLastD_eq_getLast?, List.getLast?_append]
    cases (below key k l₂).getLast? <;> simp

/-- ... and is found by its own key as well. -/
theorem Ordered.above_self (h : Ordered key l) (hv : above key k l = v :: l') :
    above key (key v) l = v :: l' := by
  have hk : k ≤ key v := (mem_above.mp (hv ▸ List.mem_cons_self : v ∈ above key k l)).2
  have hsame : above key (key v) l = above key (key v) (above key k l) := by
    rw [above, above, above, List.filter_filter]
    refine List.filter_congr fun b _ => ?_
    by_cases hb : key v ≤ key b
    · simp [hb, hk.trans hb]
    · simp [hb]
  rw [hsame, hv, above, List.filter_eq_self]
  intro b hb
  rw [decide_eq_true_eq]
  have hb' := mem_above.mp (hv ▸ hb : b ∈ above key k l)
  exact h.le_of_above hv hb'.1 hb'.2

theorem above_nil_iff : above key k l = [] ↔ ∀ a ∈ l, key a < k := by
  rw [above, List.filter_eq_nil_iff]
  simp only [decide_eq_true_eq, not_le]

/-- A part of a list keeps its first member first. -/
theorem eq_cons_of_sublist (hs : l.Sublist (v :: l')) (hnodup : v ∉ l')
    (hv : v ∈ l) : ∃ r, l = v :: r := by
  cases hs with
  | cons _ h => exact absurd (h.subset hv) hnodup
  | cons_cons _ h => exact ⟨_, rfl⟩

theorem perm_insertAt (h : Ordered key l) : (insertAt key v l).Perm (v :: l) := by
  have hperm : (v :: (below key (key v) l ++ above key (key v) l)).Perm (insertAt key v l) :=
    List.perm_middle.symm
  rw [h.below_append_above] at hperm
  exact hperm.symm

theorem mem_insertAt (h : Ordered key l) : a ∈ insertAt key v l ↔ a = v ∨ a ∈ l := by
  rw [(perm_insertAt h).mem_iff, List.mem_cons]

theorem ordered_insertAt (h : Ordered key l) : Ordered key (insertAt key v l) := by
  refine List.pairwise_append.mpr ⟨h.sublist List.filter_sublist, ?_, ?_⟩
  · exact List.pairwise_cons.mpr ⟨fun b hb => (mem_above.mp hb).2, h.sublist List.filter_sublist⟩
  · intro b hb c hc
    have hlt := (mem_below.mp hb).2
    rcases List.mem_cons.mp hc with rfl | hin
    · exact hlt.le
    · exact hlt.le.trans (mem_above.mp hin).2

theorem sublist_insertAt (h : Ordered key l) : l.Sublist (insertAt key v l) := by
  have hsub : (below key (key v) l ++ above key (key v) l).Sublist (insertAt key v l) :=
    (List.Sublist.refl _).append (List.sublist_cons_self _ _)
  rwa [h.below_append_above] at hsub

theorem insertAt_sublist (hs : l.Sublist l') : (insertAt key v l).Sublist (insertAt key v l') :=
  (hs.filter _).append ((hs.filter _).cons_cons v)

end

section

variable {levels : Nat → List α} {k : κ} {v : α} {i j n : Nat} {l : List α}

theorem Levels.sub_of_le (h : Levels key levels) (hij : i ≤ j) : (levels j).Sublist (levels i) := by
  induction hij with
  | refl => exact List.Sublist.refl _
  | step _ ih => exact (h.sub _).trans ih

theorem Levels.sub_zero (h : Levels key levels) (i : Nat) : (levels i).Sublist (levels 0) :=
  h.sub_of_le (Nat.zero_le i)

theorem Levels.ordered_at (h : Levels key levels) (i : Nat) : Ordered key (levels i) :=
  h.ordered.sublist (h.sub_zero i)

theorem Levels.nodup_at (h : Levels key levels) (i : Nat) : (levels i).Nodup :=
    h.nodup.sublist (h.sub_zero i)

/-- Where a search leaves a level it can enter the one under it. -/
theorem Levels.below_subset (h : Levels key levels) (k : κ) (i : Nat) :
    below key k (levels (i + 1)) ⊆ below key k (levels i) := ((h.sub i).filter _).subset

/-- Only the keys of members matter. -/
theorem Levels.congr {key' : α → κ} (h : Levels key levels)
    (hkey : ∀ a ∈ levels 0, key' a = key a) : Levels key' levels where
  ordered := List.Pairwise.imp_of_mem (fun ha hb hle => by rwa [hkey _ ha, hkey _ hb]) h.ordered
  nodup := h.nodup
  sub := h.sub

theorem Levels.inserted (h : Levels key levels) (hv : v ∉ levels 0) :
    Levels key (inserted key levels v n) where
  ordered := by
    rw [SkipList.inserted, if_pos (Nat.zero_le n)]
    exact ordered_insertAt h.ordered
  nodup := by
    rw [SkipList.inserted, if_pos (Nat.zero_le n), (perm_insertAt h.ordered).nodup_iff]
    exact List.nodup_cons.mpr ⟨hv, h.nodup⟩
  sub := fun i => by
    rw [SkipList.inserted, SkipList.inserted]
    by_cases hi : i + 1 ≤ n
    · rw [if_pos hi, if_pos (by omega)]
      exact insertAt_sublist (h.sub i)
    · rw [if_neg hi]
      split_ifs
      · exact (h.sub i).trans (sublist_insertAt (h.ordered_at i))
      · exact h.sub i

variable [DecidableEq α]

theorem Levels.removed (h : Levels key levels) (v : α) : Levels key (removed levels v) where
  ordered := h.ordered.sublist List.erase_sublist
  nodup := h.nodup.sublist List.erase_sublist
  sub := fun i => (h.sub i).erase v

/-- The first member that is not below its key stands there on every level it is on. -/
theorem Levels.split_first (h : Levels key levels) (hv : above key (key v) (levels 0) = v :: l)
    (hin : v ∈ levels i) : ∃ r, levels i = below key (key v) (levels i) ++ v :: r ∧
      SkipList.removed levels v i = below key (key v) (levels i) ++ r := by
  have hsub : (above key (key v) (levels i)).Sublist (v :: l) := hv ▸ (h.sub_zero i).filter _
  have hnodup : (v :: l).Nodup := hv ▸ h.nodup.sublist List.filter_sublist
  obtain ⟨r, hr⟩ := eq_cons_of_sublist hsub (List.nodup_cons.mp hnodup).1
    (mem_above.mpr ⟨hin, le_rfl⟩)
  have hsplit := (h.ordered_at i).below_append_above (k := key v)
  rw [hr] at hsplit
  have hnot : v ∉ below key (key v) (levels i) := fun hb => lt_irrefl _ (mem_below.mp hb).2
  refine ⟨r, hsplit.symm, ?_⟩
  rw [SkipList.removed]
  conv_lhs => rw [← hsplit, List.erase_append_right _ hnot, List.erase_cons_head]

theorem removed_of_not_mem (hv : v ∉ levels i) : removed levels v i = levels i :=
    List.erase_of_not_mem hv

end

end SimpleOs.Lib.SkipList
