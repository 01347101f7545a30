import Mathlib.Logic.Basic
import Mathlib.Tactic.SplitIfs

/-!
# An unbounded page of text

Rows of `wide` cells and one current cell. The page only grows downwards, so any
screen shows some consecutive rows of it.
-/

namespace SimpleOs.Lib.TextPage

variable {α : Type}

structure Page (α : Type) where
  cell : Nat → Nat → α
  row : Nat
  col : Nat

namespace Page

def blank (a : α) : Page α := ⟨fun _ _ => a, 0, 0⟩

def newLine (p : Page α) : Page α := { p with row := p.row + 1, col := 0 }

/-- Fill the current cell. -/
def fill (p : Page α) (a : α) : Page α :=
  { p with cell := fun r c => if r = p.row ∧ c = p.col then a else p.cell r c }

def advance (wide : Nat) (p : Page α) : Page α :=
  if p.col + 1 < wide then { p with col := p.col + 1 } else p.newLine

/-- A newline ends the row, any other character is written and moves on. -/
def write [DecidableEq α] (wide : Nat) (newline : α) (p : Page α) (a : α) : Page α :=
  if a = newline then p.newLine else (p.fill a).advance wide

/-- The page a text leaves. -/
def ofText [DecidableEq α] (wide : Nat) (newline empty : α) (text : List α) : Page α :=
  text.foldl (write wide newline) (blank empty)

/-- Same cells, another current cell. -/
def moveTo (p : Page α) (row col : Nat) : Page α := { p with row := row, col := col }

variable (p : Page α) (wide : Nat) (a : α)

@[simp] theorem newLine_cell : p.newLine.cell = p.cell := rfl

@[simp] theorem fill_row : (p.fill a).row = p.row := rfl

@[simp] theorem fill_col : (p.fill a).col = p.col := rfl

theorem fill_cell (r c : Nat) :
    (p.fill a).cell r c = if r = p.row ∧ c = p.col then a else p.cell r c := rfl

@[simp] theorem advance_cell : (p.advance wide).cell = p.cell := by
  rw [advance]
  split_ifs <;> rfl

theorem advance_row : (p.advance wide).row = if p.col + 1 < wide then p.row else p.row + 1 := by
  rw [advance]
  split_ifs <;> rfl

/-- A character goes down one row at most. -/
theorem write_row [DecidableEq α] (newline : α) :
    (p.write wide newline a).row = p.row ∨ (p.write wide newline a).row = p.row + 1 := by
  rw [write]
  split_ifs with h
  · exact .inr rfl
  · rw [advance_row]
    split_ifs
    · exact .inl rfl
    · exact .inr rfl

theorem le_foldl_row [DecidableEq α] (newline : α) (text : List α) :
    p.row ≤ (text.foldl (write wide newline) p).row := by
  induction text generalizing p with
  | nil => exact Nat.le_refl _
  | cons ch text ih =>
    have hnext := ih (p.write wide newline ch)
    have hrow := p.write_row wide ch newline
    rw [List.foldl_cons]
    omega

/-- Cells in reading order, row after row. -/
def index (p : Page α) : Nat := p.row * wide + p.col

def char (p : Page α) (i : Nat) : α := p.cell (i / wide) (i % wide)

/-- What stands between a cell and the current one. -/
def textFrom (p : Page α) (start : Nat) : List α :=
  (List.range (p.index wide - start)).map fun i => p.char wide (start + i)

variable {p wide}

theorem advance_col_lt (h : p.col < wide) : (p.advance wide).col < wide := by
  rw [advance]
  split_ifs with hnext
  · exact hnext
  · exact Nat.zero_lt_of_lt h

theorem advance_index (h : p.col < wide) : (p.advance wide).index wide = p.index wide + 1 := by
  rw [advance, index, index]
  split_ifs with hnext
  · rfl
  · have hend : p.col + 1 = wide := by omega
    calc (p.row + 1) * wide + 0 = p.row * wide + wide := Nat.succ_mul ..
      _ = p.row * wide + p.col + 1 := by rw [Nat.add_assoc, hend]

theorem fill_char (h : p.col < wide) (i : Nat) :
    (p.fill a).char wide i = if i = p.index wide then a else p.char wide i := by
  have hcell : (i / wide = p.row ∧ i % wide = p.col) ↔ i = p.index wide := by
    rw [Nat.div_mod_unique (by omega), index, Nat.mul_comm, Nat.add_comm]
    exact ⟨fun hi => hi.1.symm, fun hi => ⟨hi.symm, h⟩⟩
  simp only [char, fill_cell, hcell]

/-- A text without newlines is laid down cell by cell. -/
theorem foldl_write_chars [DecidableEq α] {newline : α} {text : List α} (htext : newline ∉ text)
    (h : p.col < wide) :
    (text.foldl (write wide newline) p).index wide = p.index wide + text.length ∧
    (∀ i < p.index wide, (text.foldl (write wide newline) p).char wide i = p.char wide i) ∧
    ∀ j (hj : j < text.length),
      (text.foldl (write wide newline) p).char wide (p.index wide + j) = text[j] := by
  induction text generalizing p with
  | nil => exact ⟨rfl, fun _ _ => rfl, fun j hj => absurd hj (Nat.not_lt_zero j)⟩
  | cons ch text ih =>
    obtain ⟨hch, hrest⟩ := not_or.mp (mt List.mem_cons.mpr htext)
    have hwrite : p.write wide newline ch = (p.fill ch).advance wide := if_neg (Ne.symm hch)
    have hcol : ((p.fill ch).advance wide).col < wide := advance_col_lt h
    have hindex : ((p.fill ch).advance wide).index wide = p.index wide + 1 := advance_index h
    have hchar : ∀ i, ((p.fill ch).advance wide).char wide i =
        if i = p.index wide then ch else p.char wide i := by
      intro i
      rw [← fill_char ch h, char, advance_cell]
      rfl
    obtain ⟨hend, hbefore, hlaid⟩ := ih hrest hcol
    rw [List.foldl_cons, hwrite]
    rw [hindex] at hend hbefore hlaid
    refine ⟨by rw [hend, List.length_cons]; omega, fun i hi => ?_, fun j hj => ?_⟩
    · rw [hbefore i (by omega), hchar, if_neg (by omega)]
    · cases j with
      | zero =>
        rw [Nat.add_zero, hbefore _ (Nat.lt_succ_self _), hchar]
        exact if_pos rfl
      | succ j =>
        rw [show p.index wide + (j+1) = p.index wide + 1 + j by omega]
        exact hlaid j (Nat.lt_of_succ_lt_succ hj)

end Page

end SimpleOs.Lib.TextPage
