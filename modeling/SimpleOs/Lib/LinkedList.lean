import Mathlib.Data.List.Basic
import Mathlib.Data.List.Nodup

/-!
# Linked lists in a memory

`next` takes a node to the one behind it. A list is linked from a node if following
`next` visits its members in their order and then ends at `null`.
-/

namespace SimpleOs.Lib.LinkedList

variable {α : Type} {next next' : α → α} {null x y u v : α} {l l' : List α}

def Linked (next : α → α) (null : α) : α → List α → Prop
  | x, [] => next x = null
  | x, y :: l => next x = y ∧ y ≠ null ∧ Linked next null y l

theorem Linked.ne_null (h : Linked next null x l) (hy : y ∈ l) : y ≠ null := by
  induction l generalizing x with
  | nil => cases hy
  | cons z l ih =>
    obtain ⟨-, hz, hrest⟩ := h
    rcases List.mem_cons.mp hy with rfl | hin
    · exact hz
    · exact ih hrest hin

/-- What comes next is the first member, or nothing. -/
theorem Linked.next_eq (h : Linked next null x l) : next x = l.head?.getD null := by
  cases l with
  | nil => exact h
  | cons y l => exact h.1

theorem Linked.next_eq_null_iff (h : Linked next null x l) : next x = null ↔ l = [] := by
  cases l with
  | nil => exact iff_of_true h rfl
  | cons y l => exact iff_of_false (fun hn => h.2.1 (h.1.symm.trans hn)) (List.cons_ne_nil y l)

/-- Another node with the same link in front. -/
theorem Linked.moved (h : Linked next null x l) (hv : next' v = next x)
    (hl : ∀ y ∈ l, next' y = next y) : Linked next' null v l := by
  induction l generalizing x v with
  | nil => exact hv.trans h
  | cons y l ih =>
    obtain ⟨hy, hnull, hrest⟩ := h
    exact ⟨hv.trans hy, hnull, ih hrest (hl y List.mem_cons_self) fun z hz => hl z
      (List.mem_cons_of_mem _ hz)⟩

/-- Only the links of the node and of the members matter. -/
theorem Linked.congr (h : Linked next null x l)
    (hl : ∀ y ∈ x :: l, next' y = next y) : Linked next' null x l :=
  h.moved (hl x List.mem_cons_self) fun y hy => hl y (List.mem_cons_of_mem _ hy)

/-- From the last member, or from the node itself, the list goes on. -/
theorem Linked.drop (h : Linked next null x (l ++ l')) : Linked next null (l.getLastD x) l' := by
  induction l generalizing x with
  | nil => exact h
  | cons y l ih =>
    rw [List.getLastD_cons]
    exact ih h.2.2

theorem ne_getLastD (h : (x :: y :: l).Nodup) : x ≠ (y :: l).getLastD x := by
  rw [List.getLastD_cons]
  intro he
  exact (List.nodup_cons.mp h).1 (he ▸ List.getLastD_mem_cons)

/-- What comes behind the last member, or behind the node, is replaced. -/
theorem Linked.relink (h : Linked next null x (l ++ l')) (hnodup : (x :: l).Nodup)
    (hl : ∀ y ∈ x :: l, y ≠ l.getLastD x → next' y = next y) {l'' : List α}
    (hnew : Linked next' null (l.getLastD x) l'') : Linked next' null x (l ++ l'') := by
  induction l generalizing x with
  | nil => exact hnew
  | cons y l ih =>
    obtain ⟨hy, hnull, hrest⟩ := h
    rw [List.getLastD_cons] at hnew
    refine ⟨(hl x List.mem_cons_self (ne_getLastD hnodup)).trans hy, hnull,
      ih hrest (List.nodup_cons.mp hnodup).2 (fun z hz hne => ?_) hnew⟩
    exact hl z (List.mem_cons_of_mem _ hz) (by rwa [List.getLastD_cons])

/-- A node is linked in behind the last member of `l`, or behind `x`. -/
theorem Linked.insert (h : Linked next null x (l ++ l')) (hnodup : (x :: l).Nodup) (hv : v ≠ null)
    (hnew : next' v = next (l.getLastD x)) (hlast : next' (l.getLastD x) = v)
    (hl : ∀ y ∈ x :: l, y ≠ l.getLastD x → next' y = next y) (hl' : ∀ y ∈ l', next' y = next y) :
    Linked next' null x (l ++ v :: l') :=
  h.relink hnodup hl ⟨hlast, hv, h.drop.moved hnew hl'⟩

/-- A node is taken out. -/
theorem Linked.erase (h : Linked next null x (l ++ v :: l')) (hnodup : (x :: l).Nodup)
    (hlast : next' (l.getLastD x) = next v) (hl : ∀ y ∈ x :: l, y ≠ l.getLastD x → next' y = next y)
    (hl' : ∀ y ∈ l', next' y = next y) : Linked next' null x (l ++ l') :=
  h.relink hnodup hl (h.drop.2.2.moved hlast hl')

/-- Nodes that are numbered, each linked to the next number. -/
theorem linked_range' {f : Nat → α} {j n : Nat} (hx : next x = f j)
    (hstep : ∀ i, j ≤ i → i < j + n → next (f i) = f (i + 1)) (hlast : next (f (j + n)) = null)
    (hnull : ∀ i, j ≤ i → i ≤ j + n → f i ≠ null) :
    Linked next null x ((List.range' j (n + 1)).map f) := by
  induction n generalizing j x with
  | zero => exact ⟨hx, hnull j (Nat.le_refl _) (Nat.le_refl _), hlast⟩
  | succ n ih =>
    rw [List.range'_succ, List.map_cons]
    refine ⟨hx, hnull j (Nat.le_refl _) (by omega),
      ih (hstep j (Nat.le_refl _) (by omega)) (fun i hi hin => hstep i (by omega) (by omega))
      ?_ fun i hi hin => hnull i (by omega) (by omega)⟩
    rwa [Nat.succ_add_eq_add_succ]

end SimpleOs.Lib.LinkedList
