import SimpleOs.Lib.TextPage
import SimpleOs.Kernel.Access
import SimpleOs.Kernel.Screen

/-!
# The screen as a window on a page

`Shows` ties the symbol bytes and the cursor to 25 consecutive rows of an
unbounded page. One character keeps it and moves the window down by the rows it
scrolls; the attribute bytes are not looked at.
-/

namespace SimpleOs.Audit.ScreenPage

open SimpleOs.Lib SimpleOs.Lib.TextPage SimpleOs.Lib.Loops
open SimpleOs.Lib.ByteMemory (Byte)
open SimpleOs.Kernel

/-- `for (i = start; i < stop; i += 2)` in rounds. -/
theorem evenLoop_eq (start n : Nat) (hn : start + 2*n ≤ 4000)
    (body : U32int → Screen → Except Trap Screen) (s : Screen) :
    forLoop .diverged (fun i : U32int => decide (i < BitVec.ofNat 32 (start + 2*n))) 2 body loopFuel
      (BitVec.ofNat 32 start) s =
    (List.range n).foldlM (fun s k => body (BitVec.ofNat 32 (start + 2*k)) s) s := by
  have hindex : ∀ k : Nat, BitVec.ofNat 32 start + BitVec.ofNat 32 k * 2 =
      BitVec.ofNat 32 (start + 2*k) := by
    intro k
    rw [BitVec.ofNat_add, BitVec.ofNat_mul, mul_comm]
    rfl
  rw [forLoop_eq_range (n := n) .diverged body (by rw [loopFuel]; omega)]
  · simp only [hindex]
  · intro k hk
    rw [hindex, decide_eq_true_eq, BitVec.lt_def, BitVec.toNat_ofNat, BitVec.toNat_ofNat,
      Nat.mod_eq_of_lt (by omega), Nat.mod_eq_of_lt (by omega)]
    omega
  · rw [hindex, decide_eq_false_iff_not]
    exact BitVec.lt_irrefl _

section

variable {limit : Nat} {s : Screen}

/-- After `n` double words the rows are one higher up to two bytes behind them. -/
def shifted (v : Nat → Byte) (n : Nat) : Nat → Byte := fun off =>
  if n ≠ 0 ∧ off < 2*n + 2 then v (off + 160) else v off

theorem shifted_succ (v : Nat → Byte) (n : Nat) :
    (fun off => if 2*n ≤ off ∧ off < 2*n + 4 then shifted v n (160 + 2*n + (off - 2*n))
      else shifted v n off) = shifted v (n+1) := by
  funext off
  simp only [shifted]
  split_ifs <;> first | omega | rfl | (congr 1; omega)

theorem copyRounds_eq {n : Nat} (hn : n ≤ 1920) (hlimit : n = 0 ∨ 161 + 2*n ≤ limit) :
    (List.range n).foldlM (fun s k => esCopyDword limit (BitVec.ofNat 32 (160 + 2*k)).toNat
      (BitVec.ofNat 32 (160 + 2*k) - 160).toNat s) s =
      .ok { s with video := shifted s.video n } := by
  induction n with
  | zero => rfl
  | succ n ih =>
    have hfrom : (BitVec.ofNat 32 (160 + 2*n)).toNat = 160 + 2*n := by
      rw [BitVec.toNat_ofNat]
      omega
    have hto : (BitVec.ofNat 32 (160 + 2*n) - 160).toNat = 2*n := by bv_omega
    rw [foldlM_range_succ, ih (by omega) (by omega), ok_bind]
    rw [hfrom, hto, esCopyDword, if_pos (by omega), shifted_succ]

/-- The last double word of the screen ends two bytes behind it. -/
theorem copyRounds_faults (h : 3999 ≤ limit) (hlimit : limit < 4001) :
    (List.range 1920).foldlM (fun s k => esCopyDword limit (BitVec.ofNat 32 (160 + 2*k)).toNat
      (BitVec.ofNat 32 (160 + 2*k) - 160).toNat s) s = .error .generalProtection := by
  rw [foldlM_range_succ, copyRounds_eq (by omega) (by omega), ok_bind]
  have hfrom : (BitVec.ofNat 32 (160 + 2*1919)).toNat = 3998 := rfl
  rw [hfrom, esCopyDword, if_neg (by omega)]

def blanked (v : Nat → Byte) (n : Nat) : Nat → Byte := fun off =>
  if 3840 ≤ off ∧ off < 3840 + 2*n ∧ off % 2 = 0 then 0 else v off

theorem blankRounds_eq {n : Nat} (hn : n ≤ 80) (hlimit : 3999 ≤ limit) :
    (List.range n).foldlM (fun s k => esMovb limit (BitVec.ofNat 32 (3840 + 2*k)).toNat 0 s) s =
      .ok { s with video := blanked s.video n } := by
  induction n with
  | zero =>
    have h0 : blanked s.video 0 = s.video := by
      funext off
      exact if_neg (by omega)
    rw [h0]
    rfl
  | succ n ih =>
    have hindex : (BitVec.ofNat 32 (3840 + 2*n)).toNat = 3840 + 2*n := by
      rw [BitVec.toNat_ofNat]
      omega
    rw [foldlM_range_succ, ih (by omega), ok_bind, hindex, esMovb, if_pos (by omega)]
    congr 2
    funext off
    simp only [blanked]
    split_ifs <;> first | omega | rfl

def cleared (v : Nat → Byte) (color : Byte) (n : Nat) : Nat → Byte := fun off =>
  if off < 2*n then (if off % 2 = 0 then 0x20 else color) else v off

theorem clearRounds_eq {n : Nat} (hn : n ≤ 2000) (hlimit : 3999 ≤ limit) :
    (List.range n).foldlM (fun s k => esMovw limit (BitVec.ofNat 32 (0 + 2*k)).toNat
      ⟨0x20, s.foregroundColor, s.backgroundColor⟩ s) s =
      .ok { s with video := cleared s.video (s.backgroundColor ++ s.foregroundColor) n } := by
  induction n with
  | zero =>
    have h0 : cleared s.video (s.backgroundColor ++ s.foregroundColor) 0 = s.video := by
      funext off
      exact if_neg (by omega)
    rw [h0]
    rfl
  | succ n ih =>
    have hindex : (BitVec.ofNat 32 (0 + 2*n)).toNat = 2*n := by
      rw [BitVec.toNat_ofNat]
      omega
    rw [foldlM_range_succ, ih (by omega), ok_bind, hindex, esMovw, if_pos (by omega)]
    congr 2
    funext off
    simp only [cleared, VgaSymbolParameter.colorByte]
    split_ifs <;> first | omega | rfl

theorem clearScreen_eq (hlimit : 3999 ≤ limit) :
    clearScreen limit s = .ok (setCursorPosition 0 0
      { s with video := cleared s.video (s.backgroundColor ++ s.foregroundColor) 2000 }) := by
  have hloop := evenLoop_eq 0 2000 (by decide)
    (fun i s => esMovw limit i.toNat ⟨0x20, s.foregroundColor, s.backgroundColor⟩ s) s
  rw [clearRounds_eq (by decide) hlimit] at hloop
  rw [clearScreen]
  exact bind_of_ok hloop _

theorem scrollUp_eq (hlimit : 4001 ≤ limit) :
    scrollUp limit s = .ok (setCursorPosition s.screenCursor.x
      (if s.screenCursor.y = 0 then 0 else s.screenCursor.y - 1)
      { s with video := blanked (shifted s.video 1920) 80 }) := by
  have hcopy := evenLoop_eq 160 1920 (by decide)
    (fun i => esCopyDword limit i.toNat (i - 160).toNat) s
  rw [copyRounds_eq (by decide) (by omega)] at hcopy
  have hblank := evenLoop_eq 3840 80 (by decide)
    (fun i => esMovb limit i.toNat 0) { s with video := shifted s.video 1920 }
  rw [blankRounds_eq (by decide) (by omega)] at hblank
  rw [scrollUp]
  refine (bind_of_ok hcopy _).trans ?_
  exact bind_of_ok hblank _

theorem scrollUp_faults (h : 3999 ≤ limit) (hlimit : limit < 4001) :
    scrollUp limit s = .error .generalProtection := by
  have hcopy := evenLoop_eq 160 1920 (by decide)
    (fun i => esCopyDword limit i.toNat (i - 160).toNat) s
  rw [copyRounds_faults h hlimit] at hcopy
  rw [scrollUp]
  exact (congrArg (· >>= _) hcopy).trans (error_bind _ _)

end

/-- The character in row `r`, column `c` of the screen. -/
def symbol (s : Screen) (r c : Nat) : Byte := s.video ((r*80 + c) * 2)

/-- A zero byte is blank on the screen. -/
def visible (b : Byte) : Byte := if b = 0 then 0x20 else b

/-- The screen shows 25 rows of the page from `top` on, with the cursor at the
current cell and nothing written below. -/
structure Shows (s : Screen) (p : Page Byte) (top : Nat) : Prop where
  symbols : ∀ r < 25, ∀ c < 80, visible (symbol s r c) = visible (p.cell (top + r) c)
  col : s.screenCursor.x.toNat = p.col
  row : top + s.screenCursor.y.toNat = p.row
  col_lt : p.col < 80
  row_lt : p.row < top + 25
  below : ∀ r, top + 25 ≤ r → ∀ c, p.cell r c = 0x20

section

variable {limit : Nat} {s : Screen} {p : Page Byte} {top : Nat}

@[simp] theorem setCursorPosition_symbol (x y : U8int) (s : Screen) :
    symbol (setCursorPosition x y s) = symbol s := rfl

theorem setCursorPosition_x (x y : U8int) (s : Screen) :
    (setCursorPosition x y s).screenCursor.x.toNat = x.toNat % 80 := rfl

theorem setCursorPosition_y (x y : U8int) (s : Screen) :
    (setCursorPosition x y s).screenCursor.y.toNat = y.toNat % 25 := rfl

theorem Shows.setCursor (h : Shows s p top) (x y : U8int) :
    Shows (setCursorPosition x y s) (p.moveTo (top + y.toNat % 25) (x.toNat % 80)) top where
  symbols := h.symbols
  col := setCursorPosition_x x y s
  row := congrArg (top + ·) (setCursorPosition_y x y s)
  col_lt := Nat.mod_lt _ (by decide)
  row_lt := Nat.add_lt_add_left (Nat.mod_lt _ (by decide)) top
  below := h.below

theorem symbol_blanked_shifted (v : Nat → Byte) {r c : Nat} (hr : r < 25) (hc : c < 80) :
    blanked (shifted v 1920) 80 ((r*80 + c) * 2) = if r = 24 then 0 else v
    (((r+1)*80 + c) * 2) := by
  simp only [blanked, shifted]
  split_ifs <;> first | omega | rfl | (congr 1; omega)

/-- Scrolling brings in a row that is blank on the page. -/
theorem Shows.scroll (h : Shows s p top) (hy : s.screenCursor.y.toNat = 24)
    (hlimit : 4001 ≤ limit) : ∃ t, scrollUp limit s = .ok t ∧
      Shows t (p.moveTo (top + 24) p.col) (top+1) := by
  have hx := h.col
  have hxlt := h.col_lt
  have hy0 : s.screenCursor.y ≠ 0 := by
    intro he
    rw [he] at hy
    exact absurd hy (by decide)
  have hy1 : (s.screenCursor.y - 1).toNat = 23 := by bv_omega
  refine ⟨_, scrollUp_eq hlimit, ?_⟩
  rw [if_neg hy0]
  refine ⟨fun r hr c hc => ?_, ?_, ?_, hxlt, by simp only [Page.moveTo]; omega, fun r hr c => ?_⟩
  · have hcell : symbol (setCursorPosition s.screenCursor.x (s.screenCursor.y - 1)
        { s with video := blanked (shifted s.video 1920) 80 }) r c = _ :=
      symbol_blanked_shifted s.video hr hc
    rw [hcell]
    split_ifs with hlast
    · rw [hlast]
      have hblank : (p.moveTo (top + 24) p.col).cell (top + 1 + 24) c = 0x20 :=
        h.below _ (by omega) c
      rw [hblank]
      rfl
    · have hshown := h.symbols (r+1) (by omega) c hc
      rw [show top + 1 + r = top + (r+1) by omega]
      exact hshown
  · rw [setCursorPosition_x, hx]
    exact Nat.mod_eq_of_lt hxlt
  · rw [setCursorPosition_y, hy1]
    rfl
  · exact h.below r (by omega) c

/-- Down to the first column of the next row of the screen. -/
theorem Shows.nextRow (h : Shows s p top) (hy : s.screenCursor.y.toNat < 24) {x : U8int}
    (hx : x.toNat % 80 = 0) :
    Shows (setCursorPosition x (s.screenCursor.y + 1) s) p.newLine top := by
  have hmove := h.setCursor x (s.screenCursor.y + 1)
  have hrow := h.row
  have hinc : (s.screenCursor.y + 1).toNat = s.screenCursor.y.toNat + 1 := by bv_omega
  rw [hx, hinc, Nat.mod_eq_of_lt (by omega), ← Nat.add_assoc, hrow] at hmove
  exact hmove

/-- The same from the bottom row, which scrolls first. -/
theorem Shows.nextRow_scrolled (h : Shows s p top) (hy : s.screenCursor.y.toNat = 24)
    (hlimit : 4001 ≤ limit) : ∃ t, scrollUp limit s = .ok t ∧
      t.screenCursor.x.toNat = p.col ∧ ∀ x : U8int, x.toNat % 80 = 0 →
        Shows (setCursorPosition x (t.screenCursor.y + 1) t) p.newLine (top+1) := by
  obtain ⟨t, ht, hshows⟩ := h.scroll hy hlimit
  have hrow : top + 1 + t.screenCursor.y.toNat = top + 24 := hshows.row
  refine ⟨t, ht, hshows.col, fun x hx => ?_⟩
  have hnext := hshows.nextRow (by omega) hx
  have hp : (p.moveTo (top + 24) p.col).newLine = p.newLine := by
    rw [← hy, h.row]
    rfl
  rwa [hp] at hnext

/-- What an operation that brings the current cell to `p` does to the screen: the
window moves only to keep the cell inside, and only with the two bytes behind the
screen accessible. -/
structure Follows (limit : Nat) (op : Except Trap Screen) (p : Page Byte) (top : Nat) : Prop where
  stays : p.row < top + 25 → ∃ s, op = .ok s ∧ Shows s p top
  scrolls : top + 25 ≤ p.row → 4001 ≤ limit → ∃ s, op = .ok s ∧ Shows s p (top+1)
  faults : top + 25 ≤ p.row → limit < 4001 → op = .error .generalProtection

theorem Shows.follows_newLine (h : Shows s p top) (hlimit : 3999 ≤ limit) :
    Follows limit (newLine limit s) p.newLine top := by
  have hrow := h.row
  have hrow' : p.newLine.row = p.row + 1 := rfl
  refine ⟨fun hin => ?_, fun hout hwide => ?_, fun hout hnarrow => ?_⟩
  · refine ⟨setCursorPosition 0 (s.screenCursor.y + 1) s, ?_, h.nextRow (by omega) rfl⟩
    rw [newLine, if_neg (by omega)]
    rfl
  · obtain ⟨t, ht, -, hnext⟩ := h.nextRow_scrolled (by have := h.row_lt; omega) hwide
    refine ⟨_, ?_, hnext 0 rfl⟩
    rw [newLine, if_pos (by have := h.row_lt; omega)]
    exact bind_of_ok ht _
  · rw [newLine, if_pos (by have := h.row_lt; omega), scrollUp_faults hlimit hnarrow]
    rfl

theorem Shows.follows_moveNext (h : Shows s p top) (hlimit : 3999 ≤ limit) :
    Follows limit (moveNextCursorPosition limit s) (p.advance 80) top := by
  have hcol := h.col
  have hcol_lt := h.col_lt
  have hrow := h.row
  have hrow_lt := h.row_lt
  have hinc : (s.screenCursor.x + 1).toNat = s.screenCursor.x.toNat + 1 := by bv_omega
  by_cases hend : p.col + 1 < 80
  · have hadv : p.advance 80 = p.moveTo p.row (p.col + 1) := if_pos hend
    have hmove := h.setCursor (s.screenCursor.x + 1) s.screenCursor.y
    rw [hinc, hcol, Nat.mod_eq_of_lt hend, Nat.mod_eq_of_lt (by omega), hrow] at hmove
    rw [hadv]
    refine ⟨fun _ => ⟨_, ?_, hmove⟩, fun hout => ?_, fun hout => ?_⟩
    · have hy : (if 80 ≤ s.screenCursor.x.toNat + 1 then s.screenCursor.y + 1
          else s.screenCursor.y) = s.screenCursor.y := if_neg (by omega)
      rw [moveNextCursorPosition, if_neg (by omega)]
      simp only [ok_bind, hy]
    · exact absurd hrow_lt (Nat.not_lt.mpr hout)
    · exact absurd hrow_lt (Nat.not_lt.mpr hout)
  · have hadv : p.advance 80 = p.newLine := if_neg hend
    have hx : (s.screenCursor.x + 1).toNat % 80 = 0 := by rw [hinc, hcol]; omega
    have hrow' : p.newLine.row = p.row + 1 := rfl
    rw [hadv]
    refine ⟨fun hin => ?_, fun hout hwide => ?_, fun hout hnarrow => ?_⟩
    · have hy : (if 80 ≤ s.screenCursor.x.toNat + 1 then s.screenCursor.y + 1
          else s.screenCursor.y) = s.screenCursor.y + 1 := if_pos (by omega)
      refine ⟨_, ?_, h.nextRow (by omega) hx⟩
      rw [moveNextCursorPosition, if_neg (by omega)]
      simp only [ok_bind, hy]
    · obtain ⟨t, ht, htx, hnext⟩ := h.nextRow_scrolled (by omega) hwide
      have htinc : (t.screenCursor.x + 1).toNat = t.screenCursor.x.toNat + 1 := by bv_omega
      have hy : (if 80 ≤ t.screenCursor.x.toNat + 1 then t.screenCursor.y + 1
          else t.screenCursor.y) = t.screenCursor.y + 1 := if_pos (by omega)
      refine ⟨_, ?_, hnext (t.screenCursor.x + 1) (by rw [htinc, htx]; omega)⟩
      rw [moveNextCursorPosition, if_pos (by omega), ht]
      simp only [ok_bind, hy]
    · rw [moveNextCursorPosition, if_pos (by omega), scrollUp_faults hlimit hnarrow]
      rfl

theorem Shows.printSymbol (h : Shows s p top) (hlimit : 3999 ≤ limit) (ch : Byte) :
    ∃ s', printSymbol limit ch s = .ok s' ∧ Shows s' (p.fill ch) top := by
  have hcol := h.col
  have hcol_lt := h.col_lt
  have hrow := h.row
  have hrow_lt := h.row_lt
  refine ⟨_, if_pos (by omega), fun r hr c hc => ?_, h.col, h.row, h.col_lt,
    h.row_lt, fun r hr c => ?_⟩
  · have hshown := h.symbols r hr c hc
    simp only [symbol, Page.fill_cell] at hshown ⊢
    by_cases hcell : r = s.screenCursor.y.toNat ∧ c = s.screenCursor.x.toNat
    · rw [if_pos (by rw [hcell.1, hcell.2]), if_pos (by omega)]
    · rw [if_neg (by omega), if_neg (by omega), if_neg (by omega), hshown]
  · rw [Page.fill_cell, if_neg (by omega)]
    exact h.below r hr c

theorem signExtend_eq_ten (ch : Byte) : ch.signExtend 32 = 10 ↔ ch = 10 := by
  revert ch
  decide

theorem signExtend_eq_thirteen (ch : Byte) : ch.signExtend 32 = 13 ↔ ch = 13 := by
  revert ch
  decide

theorem setWidth_signExtend (ch : Byte) : (ch.signExtend 32).setWidth 8 = ch := by
  revert ch
  decide

/-- The page follows each character but a carriage return. -/
theorem Shows.follows_putchar (h : Shows s p top) (hlimit : 3999 ≤ limit) {ch : Byte}
    (hch : ch ≠ 13) : Follows limit (putchar limit (ch.signExtend 32) s)
    (p.write 80 10 ch) top := by
  rw [putchar, Page.write]
  simp only [signExtend_eq_ten, signExtend_eq_thirteen, hch, if_false, setWidth_signExtend]
  split_ifs with hnl
  · exact h.follows_newLine hlimit
  · obtain ⟨t, ht, hfill⟩ := h.printSymbol hlimit ch
    rw [bind_of_ok ht]
    exact hfill.follows_moveNext hlimit

end

def pageOf (text : List Byte) : Page Byte := Page.ofText 80 10 0x20 text

/-- `clear_screen`, then `putchar` of each character. -/
def display (limit : Nat) (text : List Byte) (s : Screen) : Except Trap Screen := do
  let s ← clearScreen limit s
  putchars limit text s

/-- The machine comes back from the last character and its screen shows the rows of
the page from `max 0 (R - 24)` on, `R` being the current row. -/
def Displays (limit : Nat) (text : List Byte) (s : Screen) : Prop :=
  ∃ s', display limit text s = .ok s' ∧ Shows s' (pageOf text) ((pageOf text).row - 24)

section

variable {limit : Nat}

theorem clearScreen_shows (hlimit : 3999 ≤ limit) (s : Screen) :
    ∃ s', clearScreen limit s = .ok s' ∧ Shows s' (Page.blank 0x20) 0 := by
  refine ⟨_, clearScreen_eq hlimit, fun r hr c hc => ?_, rfl,
    rfl, by decide, by decide, fun _ _ _ => rfl⟩
  have hcell : cleared s.video (s.backgroundColor ++ s.foregroundColor) 2000
      ((r*80 + c) * 2) = 0x20 := by
    rw [cleared, if_pos (by omega), if_pos (by omega)]
  exact congrArg visible hcell

/-- The window stays at the last 25 rows through any text that does not scroll, and
through any other if the access behind the screen is allowed. -/
theorem putchars_shows (hlimit : 3999 ≤ limit) {text : List Byte} (hcr : (13 : Byte) ∉ text) :
    ∀ {s : Screen} {p : Page Byte}, Shows s p (p.row - 24) → (4001 ≤ limit ∨ p.row ≤ 24) →
      (4001 ≤ limit ∨ (text.foldl (Page.write 80 10) p).row ≤ 24 →
        ∃ s', putchars limit text s = .ok s' ∧ Shows s' (text.foldl (Page.write 80 10) p)
          ((text.foldl (Page.write 80 10) p).row - 24)) ∧
      (limit < 4001 → 24 < (text.foldl (Page.write 80 10) p).row →
        putchars limit text s = .error .generalProtection) := by
  induction text with
  | nil =>
    intro s p h hrow
    refine ⟨fun _ => ⟨s, rfl, h⟩, fun hnarrow hout => ?_⟩
    have hout' : 24 < p.row := hout
    omega
  | cons ch text ih =>
    intro s p h hrow
    obtain ⟨hch, htext⟩ := not_or.mp (mt List.mem_cons.mpr hcr)
    have hf := h.follows_putchar hlimit (Ne.symm hch)
    have hstep := p.write_row 80 ch 10
    have hlater := (p.write 80 10 ch).le_foldl_row 80 10 text
    have hin := h.row_lt
    simp only [List.foldl_cons, putchars, List.foldlM_cons]
    rcases Nat.lt_or_ge (p.write 80 10 ch).row (p.row - 24 + 25) with hstay | hscroll
    · obtain ⟨t, ht, hshows⟩ := hf.stays hstay
      rw [show p.row - 24 = (p.write 80 10 ch).row - 24 by omega] at hshows
      rw [bind_of_ok ht]
      exact ih htext hshows (by omega)
    · rcases Nat.lt_or_ge limit 4001 with hnarrow | hwide
      · rw [hf.faults hscroll hnarrow]
        exact ⟨fun hall => by omega, fun _ _ => rfl⟩
      · obtain ⟨t, ht, hshows⟩ := hf.scrolls hscroll hwide
        rw [show p.row - 24 + 1 = (p.write 80 10 ch).row - 24 by omega] at hshows
        rw [bind_of_ok ht]
        exact ih htext hshows (.inl hwide)

theorem displays_iff (hlimit : 3999 ≤ limit) (s : Screen) {text : List Byte}
    (hcr : (13 : Byte) ∉ text) : Displays limit text s ↔ 4001 ≤ limit ∨ (pageOf text).row ≤ 24 := by
  obtain ⟨t, ht, hshows⟩ := clearScreen_shows hlimit s
  obtain ⟨hok, hfault⟩ := putchars_shows hlimit hcr hshows (.inr (by decide))
  constructor
  · intro h
    obtain ⟨s', hs', -⟩ := h
    by_contra hno
    rw [display, bind_of_ok ht, hfault (by omega)
      (by rw [pageOf, Page.ofText] at hno; omega)] at hs'
    cases hs'
  · intro h
    obtain ⟨s', hs', hshows'⟩ := hok h
    refine ⟨s', ?_, hshows'⟩
    rw [display, bind_of_ok ht]
    exact hs'

end

theorem videoLimit_eq : videoLimit = 4000 := by decide

/-- With the installed video descriptor the screen follows the page exactly for the
texts that never scroll; with one more byte accessible it follows it for every
text. -/
theorem displays_unscrolled_iff (s : Screen) {text : List Byte} (hcr : (13 : Byte) ∉ text) :
    (Displays videoLimit text s ↔ (pageOf text).row ≤ 24) ∧
    ∀ limit, 4001 ≤ limit → Displays limit text s := by
  constructor
  · rw [displays_iff (by decide) s hcr, videoLimit_eq]
    exact or_iff_right (by decide)
  · intro limit hlimit
    exact (displays_iff (by omega) s hcr).mpr (.inl hlimit)

def darkScreen : Screen := ⟨fun _ => 0, ⟨0, 0⟩, 0, 0, 0, 2⟩

theorem displays_unscrolled_letter : Displays videoLimit [0x61, 10] darkScreen :=
  (displays_unscrolled_iff darkScreen (by decide)).1.mpr (by decide)

/-- Twenty-five newlines. -/
theorem newlines_not_displayed :
    display videoLimit (List.replicate 25 10) darkScreen = .error .generalProtection ∧
    ¬ ∀ (s : Screen) (text : List Byte), (13 : Byte) ∉ text → Displays videoLimit text s := by
  have hcr : (13 : Byte) ∉ List.replicate 25 (10 : Byte) := by decide
  obtain ⟨t, ht, hshows⟩ := clearScreen_shows (by decide : 3999 ≤ videoLimit) darkScreen
  have hfault := (putchars_shows (by decide : 3999 ≤ videoLimit) hcr hshows (.inr (by decide))).2
    (by decide) (by decide)
  have hrun : display videoLimit (List.replicate 25 10) darkScreen = .error .generalProtection := by
    rw [display, bind_of_ok ht, hfault]
  refine ⟨hrun, fun hall => ?_⟩
  obtain ⟨s', hs', -⟩ := hall darkScreen _ hcr
  rw [hrun] at hs'
  cases hs'

def colorAt (s : Screen) (r c : Nat) : Byte := s.video ((r*80 + c) * 2 + 1)

/-- Every row but the last shows the row that was below it, and the last is blank
with its attributes left alone. -/
structure ScrolledUp (s s' : Screen) : Prop where
  symbols : ∀ r < 24, ∀ c < 80, symbol s' r c = symbol s (r+1) c
  attributes : ∀ r < 24, ∀ c < 80, colorAt s' r c = colorAt s (r+1) c
  blank : ∀ c < 80, symbol s' 24 c = 0
  kept : ∀ c < 80, colorAt s' 24 c = colorAt s 24 c

/-- `scroll_up` comes back when the 4000 bytes of the screen are all it may access, and
it scrolls. -/
def ScrollsOnScreen (s : Screen) : Prop := ∃ s', scrollUp 3999 s = .ok s' ∧ ScrolledUp s s'

theorem colorAt_blanked_shifted (v : Nat → Byte) {r c : Nat} (hr : r < 25) (hc : c < 80) :
    blanked (shifted v 1920) 80 ((r*80 + c) * 2 + 1) =
      if r = 24 ∧ 0 < c then v ((r*80 + c) * 2 + 1) else v (((r+1)*80 + c) * 2 + 1) := by
  simp only [blanked, shifted]
  split_ifs <;> first | omega | rfl | (congr 1; omega)

/-- Where the access behind the screen is allowed, all of it is right but the first
attribute of the last row, which becomes the byte behind the screen. -/
theorem scrollUp_scrolled {limit : Nat} (hlimit : 4001 ≤ limit) (s : Screen) :
    ∃ s', scrollUp limit s = .ok s' ∧ colorAt s' 24 0 = s.video 4001 ∧
      (ScrolledUp s s' ↔ s.video 4001 = colorAt s 24 0) := by
  have hfirst : blanked (shifted s.video 1920) 80 ((24*80 + 0) * 2 + 1) = s.video 4001 :=
    colorAt_blanked_shifted s.video (by decide) (by decide)
  refine ⟨_, scrollUp_eq hlimit, hfirst, ?_⟩
  have hcell := fun r c (hr : r < 25) (hc : c < 80) => symbol_blanked_shifted s.video hr hc
  have hcolor := fun r c (hr : r < 25) (hc : c < 80) => colorAt_blanked_shifted s.video hr hc
  constructor
  · intro h
    exact hfirst.symm.trans (h.kept 0 (by decide))
  · intro h
    refine ⟨fun r hr c hc => ?_, fun r hr c hc => ?_, fun c hc => ?_, fun c hc => ?_⟩
    · exact (hcell r c (by omega) hc).trans (if_neg (by omega))
    · exact (hcolor r c (by omega) hc).trans (if_neg (by omega))
    · exact (hcell 24 c (by decide) hc).trans (if_pos rfl)
    · refine (hcolor 24 c (by decide) hc).trans ?_
      rcases Nat.eq_zero_or_pos c with rfl | hpos
      · exact h
      · exact if_pos ⟨rfl, hpos⟩

/-- No screen is scrolled within its own bytes. The installed descriptor, one byte longer,
faults as well. -/
theorem scrollUp_leaves_screen (s : Screen) :
    ¬ ScrollsOnScreen s ∧ scrollUp videoLimit s = .error .generalProtection ∧
    ∀ limit, 4001 ≤ limit → ∃ s', scrollUp limit s = .ok s' ∧ colorAt s' 24 0 = s.video 4001 ∧
      (ScrolledUp s s' ↔ s.video 4001 = colorAt s 24 0) := by
  refine ⟨?_, scrollUp_faults (by decide) (by decide),
    fun limit hlimit => scrollUp_scrolled hlimit s⟩
  intro h
  obtain ⟨s', hs', -⟩ := h
  rw [scrollUp_faults (by decide) (by decide)] at hs'
  cases hs'

theorem darkScreen_not_scrolled : ¬ ∀ s : Screen, ScrollsOnScreen s := by
  intro hall
  obtain ⟨s', hs', -⟩ := hall ⟨fun _ => 0, ⟨0, 24⟩, 0, 0, 0, 2⟩
  rw [scrollUp_faults (by decide) (by decide)] at hs'
  cases hs'

end SimpleOs.Audit.ScreenPage
