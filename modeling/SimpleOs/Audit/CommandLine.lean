import SimpleOs.Lib.LineEdit
import SimpleOs.Kernel.Terminal
import SimpleOs.Audit.ScreenPage

/-!
# The command line

Echo and command buffer are followed side by side from the prompt on: the echo as
a page with its first visible row, the buffer as the characters typed without the
carriage returns. Neither looks at the other, so that they agree exactly where
the text allows.
-/

namespace SimpleOs.Audit.CommandLine

open SimpleOs.Lib.TextPage SimpleOs.Lib.LineEdit
open SimpleOs.Lib.ByteMemory (Byte)
open SimpleOs.Kernel
open SimpleOs.Audit.ScreenPage

/-- A page and the first of its rows on the screen. -/
structure View where
  page : Page Byte
  top : Nat

def Shown (s : Screen) (v : View) : Prop := Shows s v.page v.top

/-- Where one step back takes a cursor, counted in cells of the screen: from the
first cell the row number wraps at 256, which is row 5 of 25. -/
def backOffset (offset : Nat) : Nat := if offset = 0 then 479 else offset - 1

namespace View

def offset (v : View) : Nat := (v.page.row - v.top) * 80 + v.page.col

def goTo (v : View) (offset : Nat) : View :=
  { v with page := v.page.moveTo (v.top + offset / 80) (offset % 80) }

/-- One character echoed. -/
def key (v : View) (ch : Byte) : View :=
  if ch = 13 then v.goTo (backOffset v.offset)
  else
    let page := v.page.write 80 10 ch
    ⟨page, if page.row < v.top + 25 then v.top else v.top + 1⟩

def keys (v : View) (text : List Byte) : View := text.foldl key v

theorem key_back (v : View) : v.key 13 = v.goTo (backOffset v.offset) := rfl

theorem goTo_offset (v : View) (offset : Nat) : (v.goTo offset).offset = offset := by
  simp only [View.offset, goTo, Page.moveTo]
  omega

end View

section

variable {limit : Nat} {s s' : Screen} {v : View}

theorem Shown.offset_eq (h : Shown s v) :
    v.offset = s.screenCursor.y.toNat * 80 + s.screenCursor.x.toNat := by
  have hrow := h.row
  rw [View.offset, ← hrow, h.col, Nat.add_sub_cancel_left]

theorem Shown.offset_lt (h : Shown s v) : v.offset < 2000 := by
  have hrow := h.row_lt
  have hcol := h.col_lt
  rw [View.offset]
  omega

theorem Shown.index_eq (h : Shown s v) : v.page.index 80 = v.top * 80 + v.offset := by
  have hrow := h.row
  rw [View.offset, Page.index]
  omega

/-- The code steps back one cell of the screen. -/
theorem moveBack_offset (hx : s.screenCursor.x.toNat < 80) (hy : s.screenCursor.y.toNat < 25) :
    (moveBackCursorPosition s).screenCursor.y.toNat * 80 +
      (moveBackCursorPosition s).screenCursor.x.toNat =
    backOffset (s.screenCursor.y.toNat * 80 + s.screenCursor.x.toNat) := by
  rw [moveBackCursorPosition, setCursorPosition_x, setCursorPosition_y, backOffset]
  by_cases hx0 : s.screenCursor.x = 0
  · have hx0' : s.screenCursor.x.toNat = 0 := congrArg BitVec.toNat hx0
    rw [if_pos hx0, if_pos hx0, hx0']
    by_cases hy0 : s.screenCursor.y = 0
    · rw [hy0]
      rfl
    · have hy0' : s.screenCursor.y.toNat ≠ 0 := fun he => hy0 (BitVec.eq_of_toNat_eq he)
      have hdec : (s.screenCursor.y - 1).toNat = s.screenCursor.y.toNat - 1 := by bv_omega
      have h79 : (79 : U8int).toNat = 79 := rfl
      rw [hdec, h79, if_neg (by omega)]
      omega
  · have hx0' : s.screenCursor.x.toNat ≠ 0 := fun he => hx0 (BitVec.eq_of_toNat_eq he)
    have hdec : (s.screenCursor.x - 1).toNat = s.screenCursor.x.toNat - 1 := by bv_omega
    rw [if_neg hx0, if_neg hx0, hdec, if_neg (by omega)]
    omega

theorem Shown.goTo (h : Shown s v) (x y : U8int) (s' : Screen)
    (hs : s' = setCursorPosition x y s) :
    Shown s' (v.goTo (s'.screenCursor.y.toNat * 80 + s'.screenCursor.x.toNat)) := by
  have hset := h.setCursor x y
  have hx := setCursorPosition_x x y s
  have hy := setCursorPosition_y x y s
  rw [← hs] at hset hx hy
  have hrow : (s'.screenCursor.y.toNat * 80 + s'.screenCursor.x.toNat) / 80 = y.toNat % 25 := by
    omega
  have hcol : (s'.screenCursor.y.toNat * 80 + s'.screenCursor.x.toNat) % 80 = x.toNat % 80 := by
    omega
  rw [Shown, View.goTo, hrow, hcol]
  exact hset

/-- Whatever the character, a screen that comes back shows the echo. -/
theorem Shown.putchar (h : Shown s v) (hlimit : 3999 ≤ limit) {ch : Byte}
    (hrun : putchar limit (ch.signExtend 32) s = .ok s') :
    Shown s' (v.key ch) ∧ (limit < 4001 → (v.key ch).top = v.top) := by
  by_cases hch : ch = 13
  · subst hch
    cases hrun
    have hback := h.goTo _ _ (moveBackCursorPosition s) rfl
    have hx := h.col
    have hxlt := h.col_lt
    have hy := h.row
    have hylt := h.row_lt
    rw [moveBack_offset (by omega) (by omega), ← h.offset_eq] at hback
    exact ⟨hback, fun _ => rfl⟩
  · have hf := Shows.follows_putchar h hlimit hch
    rw [View.key, if_neg hch]
    by_cases hstay : (v.page.write 80 10 ch).row < v.top + 25
    · obtain ⟨t, ht, hshows⟩ := hf.stays hstay
      rw [ht] at hrun
      cases hrun
      simp only [if_pos hstay]
      exact ⟨hshows, fun _ => trivial⟩
    · rcases Nat.lt_or_ge limit 4001 with hnarrow | hwide
      · rw [hf.faults (by omega) hnarrow] at hrun
        cases hrun
      · obtain ⟨t, ht, hshows⟩ := hf.scrolls (by omega) hwide
        rw [ht] at hrun
        cases hrun
        simp only [if_neg hstay]
        exact ⟨hshows, fun hnarrow => by omega⟩

end

/-- The buffer holds as much of `l` as fits, then zeros; behind it lies `heap`. -/
structure Holds (t : Terminal) (heap : Nat → Byte) (l : List Byte) : Prop where
  pos : t.curCmdBufPos = min l.length cmdBufSize
  chars : ∀ i (h : i < l.length), i < cmdBufSize → t.cmdBuf i = l[i]
  cleared : ∀ i, l.length ≤ i → i < cmdBufSize → t.cmdBuf i = 0
  behind : ∀ i, cmdBufSize ≤ i → t.cmdBuf i = heap i

section

variable {t : Terminal} {heap : Nat → Byte} {line : List Byte}

theorem Holds.setScreen (h : Holds t heap line) (s : Screen) :
    Holds { t with screen := s } heap line :=
  ⟨h.pos, h.chars, h.cleared, h.behind⟩

theorem Holds.add (h : Holds t heap line) {c : Byte} (hnl : c ≠ 10) (hcr : c ≠ 13) :
    Holds (t.addCharToBuf c) heap (line ++ [c]) := by
  have hpos := h.pos
  have hlen : (line ++ [c]).length = line.length + 1 := List.length_append
  rw [Terminal.addCharToBuf]
  by_cases hroom : t.curCmdBufPos < cmdBufSize
  · have hat : t.curCmdBufPos = line.length := by omega
    rw [if_pos ⟨hroom, hnl, hcr⟩]
    refine ⟨by rw [hlen]; simp only; omega, fun i hi hin => ?_, fun i hi hin => ?_, fun i hi => ?_⟩
    · by_cases hlast : i = t.curCmdBufPos
      · simp only [if_pos hlast]
        rw [List.getElem_append_right (by omega)]
        simp
      · simp only [if_neg hlast]
        rw [List.getElem_append_left (by omega)]
        exact h.chars i (by omega) hin
    · simp only
      rw [if_neg (by omega)]
      exact h.cleared i (by omega) hin
    · simp only
      rw [if_neg (by omega)]
      exact h.behind i hi
  · rw [if_neg fun hall => hroom hall.1]
    refine ⟨by omega, fun i hi hin => ?_, fun i hi hin => by omega, h.behind⟩
    rw [List.getElem_append_left (by omega)]
    exact h.chars i (by omega) hin

theorem Holds.clear (h : Holds t heap line) : Holds t.clearBuf heap [] := by
  have hpos := h.pos
  refine ⟨rfl, fun i hi => absurd hi (Nat.not_lt_zero i), fun i _ hin => ?_, fun i hi => ?_⟩
  · by_cases hin' : i < t.curCmdBufPos
    · exact if_pos hin'
    · exact (if_neg hin').trans (h.cleared i (by omega) hin)
  · exact (if_neg (by omega)).trans (h.behind i hi)

/-- A line that fits is the string in the buffer. -/
theorem Holds.strcmpEq_line (h : Holds t heap line) (hfit : line.length < cmdBufSize) :
    strcmpEq line t.cmdBuf 0 = true := by
  rw [strcmpEq_iff]
  refine ⟨fun j hj => ?_, ?_⟩
  · rw [Nat.zero_add]
    exact h.chars j hj (by omega)
  · rw [Nat.zero_add]
    exact h.cleared _ le_rfl hfit

theorem Holds.strcmpEq_iff_eq (h : Holds t heap line) (hfit : line.length < cmdBufSize)
    (hline : (0 : Byte) ∉ line) {l : List Byte} (hl : (0 : Byte) ∉ l) :
    strcmpEq l t.cmdBuf 0 = true ↔ l = line := by
  constructor
  · intro hcmp
    exact strcmpEq_unique hl hline hcmp (h.strcmpEq_line hfit)
  · intro he
    subst he
    exact h.strcmpEq_line hfit

/-- A full buffer has no end of its own: the string goes on in the heap. -/
theorem Holds.strcmpEq_full (h : Holds t heap line) (hfull : cmdBufSize ≤ line.length)
    (hline : (0 : Byte) ∉ line) (l : List Byte) :
    strcmpEq l t.cmdBuf 0 = true ↔ cmdBufSize ≤ l.length ∧
      l.take cmdBufSize = line.take cmdBufSize ∧
      strcmpEq (l.drop cmdBufSize) heap cmdBufSize = true := by
  have hdrop : (l.drop cmdBufSize).length = l.length - cmdBufSize := List.length_drop
  rw [strcmpEq_iff, strcmpEq_iff, Nat.zero_add]
  constructor
  · intro h
    obtain ⟨hbytes, hend⟩ := h
    have hlen : cmdBufSize ≤ l.length := by
      by_contra hshort
      rw [h.chars _ (by omega) (by omega)] at hend
      exact hline (hend ▸ List.getElem_mem _)
    refine ⟨hlen, List.ext_getElem ?_ fun j hj hj' => ?_, fun j hj => ?_, ?_⟩
    · rw [List.length_take, List.length_take]
      omega
    · rw [List.length_take] at hj hj'
      rw [List.getElem_take, List.getElem_take, ← hbytes j (by omega), Nat.zero_add]
      exact h.chars j (by omega) (by omega)
    · rw [List.getElem_drop, ← hbytes _ (by omega), Nat.zero_add]
      exact (h.behind _ (by omega)).symm
    · rw [hdrop, Nat.add_sub_cancel' hlen, ← h.behind _ hlen]
      exact hend
  · intro h
    obtain ⟨hlen, htake, hbytes, hend⟩ := h
    rw [hdrop, Nat.add_sub_cancel' hlen, ← h.behind _ hlen] at hend
    refine ⟨fun j hj => ?_, hend⟩
    rw [Nat.zero_add]
    rcases Nat.lt_or_ge j cmdBufSize with hin | hout
    · rw [h.chars j (by omega) hin]
      have hj1 : j < (line.take cmdBufSize).length := by rw [List.length_take]; omega
      have hj2 : j < (l.take cmdBufSize).length := by rw [List.length_take]; omega
      calc (line)[j] = (line.take cmdBufSize)[j] := (List.getElem_take ..).symm
        _ = (l.take cmdBufSize)[j] := by simp only [htake]
        _ = l[j] := List.getElem_take ..
    · have hrest := hbytes (j - cmdBufSize) (by omega)
      rw [Nat.add_sub_cancel' hout, List.getElem_drop] at hrest
      rw [h.behind j hout, hrest]
      simp only [Nat.add_sub_cancel' hout]

end

/-- A zero means that no key was waiting. -/
def presses (keys : List Byte) : List Byte := keys.filter fun c => c ≠ 0

theorem presses_cons (keys : List Byte) {c : Byte} (h : c ≠ 0) :
    presses (c :: keys) = c :: presses keys := List.filter_cons_of_pos (by simpa using h)

theorem zero_not_mem_presses (keys : List Byte) : (0 : Byte) ∉ presses keys := fun h =>
  of_decide_eq_true (List.mem_filter.mp h).2 rfl

section

variable {limit : Nat} {s : Screen} {t t' : Terminal} {v : View}
  {heap : Nat → Byte} {line : List Byte}

theorem addCharToBuf_screen (c : Byte) (t : Terminal) : (t.addCharToBuf c).screen = t.screen := by
  rw [Terminal.addCharToBuf]
  split_ifs <;> rfl

theorem handleKey_zero : t.handleKey limit 0 = .ok t := rfl

/-- A key that does not end the line is echoed and then buffered. -/
theorem handleKey_press {c : Byte} (h0 : c ≠ 0) (hnl : c ≠ 10)
    (hrun : t.handleKey limit c = .ok t') : ∃ s, putchar limit (c.signExtend 32) t.screen = .ok s ∧
      t' = Terminal.addCharToBuf c { t with screen := s } := by
  rw [Terminal.handleKey, if_pos h0] at hrun
  obtain ⟨s, hs, hrest⟩ := bind_ok hrun
  refine ⟨s, hs, ?_⟩
  simp only [if_neg hnl] at hrest
  cases hrest
  rfl

theorem Holds.press (h : Holds t heap line) {c : Byte} (hnl : c ≠ 10) (s : Screen) :
    Holds (Terminal.addCharToBuf c { t with screen := s }) heap (line ++ typed 13 [c]) := by
  by_cases hcr : c = 13
  · have hskip : Terminal.addCharToBuf c { t with screen := s } = { t with screen := s } :=
      if_neg fun hall => hall.2.2 hcr
    rw [hskip, hcr, typed_erase, List.append_nil]
    exact h.setScreen s
  · rw [typed_key hcr]
    exact (h.setScreen s).add hnl hcr

/-- Screen and buffer after any keys within the line. -/
theorem handleKeys_follow (hlimit : 3999 ≤ limit) {keys : List Byte} (hnl : (10 : Byte) ∉ keys)
    (hv : Shown t.screen v) (hh : Holds t heap line) (hrun : t.handleKeys limit keys = .ok t') :
    Shown t'.screen (v.keys (presses keys)) ∧ Holds t' heap (line ++ typed 13 (presses keys)) := by
  induction keys generalizing t v line with
  | nil =>
    cases hrun
    exact ⟨hv, by simpa [presses, typed] using hh⟩
  | cons c keys ih =>
    obtain ⟨hc, hkeys⟩ := not_or.mp (mt List.mem_cons.mpr hnl)
    rw [Terminal.handleKeys, List.foldlM_cons] at hrun
    by_cases h0 : c = 0
    · subst h0
      exact ih hkeys hv hh hrun
    · obtain ⟨t1, ht1, hrest⟩ := bind_ok hrun
      obtain ⟨s, hs, rfl⟩ := handleKey_press h0 (Ne.symm hc) ht1
      have hv1 : Shown (Terminal.addCharToBuf c { t with screen := s }).screen (v.key c) := by
        rw [addCharToBuf_screen]
        exact (hv.putchar hlimit hs).1
      obtain ⟨hshown, hholds⟩ := ih hkeys hv1 (hh.press (Ne.symm hc) s) hrest
      rw [presses_cons keys h0, typed_cons, ← List.append_assoc]
      exact ⟨hshown, hholds⟩

/-- Without scrolling the line never outgrows the cells before the cursor. -/
theorem edited_le_offset (hlimit : 3999 ≤ limit) (hnarrow : limit < 4001) {keys : List Byte}
    (hnl : (10 : Byte) ∉ keys) (hv : Shown t.screen v) (hline : line.length ≤ v.offset)
    (hrun : t.handleKeys limit keys = .ok t') :
    ((presses keys).foldl (edit 13) line).length ≤ (v.keys (presses keys)).offset := by
  induction keys generalizing t v line with
  | nil => exact hline
  | cons c keys ih =>
    obtain ⟨hc, hkeys⟩ := not_or.mp (mt List.mem_cons.mpr hnl)
    rw [Terminal.handleKeys, List.foldlM_cons] at hrun
    by_cases h0 : c = 0
    · subst h0
      exact ih hkeys hv hline hrun
    · obtain ⟨t1, ht1, hrest⟩ := bind_ok hrun
      obtain ⟨s, hs, rfl⟩ := handleKey_press h0 (Ne.symm hc) ht1
      obtain ⟨hshown, htop⟩ := hv.putchar hlimit hs
      rw [presses_cons keys h0]
      refine ih hkeys (by rwa [addCharToBuf_screen]) ?_ hrest
      by_cases hcr : c = 13
      · rw [hcr, edit_erase, List.length_dropLast, View.key_back, View.goTo_offset, backOffset]
        split_ifs <;> omega
      · have hindex : (v.key c).page.index 80 = v.page.index 80 + 1 := by
          rw [View.key, if_neg hcr]
          exact (congrArg (Page.index 80) (if_neg (Ne.symm hc))).trans
            (Page.advance_index hv.col_lt)
        rw [edit_key _ hcr, List.length_append]
        rw [hshown.index_eq, hv.index_eq, htop hnarrow] at hindex
        have hone : [c].length = 1 := rfl
        omega

/-- Steps back alone move the cursor over the screen, and only it. -/
theorem keys_back (k : Nat) (hcol : v.page.col < 80) (hrow : v.top ≤ v.page.row) :
    (v.keys (List.replicate k 13)).page.index 80 = v.top * 80 + backOffset^[k] v.offset ∧
    (v.keys (List.replicate k 13)).page.col < 80 := by
  induction k generalizing v with
  | zero =>
    refine ⟨?_, hcol⟩
    change v.page.index 80 = v.top * 80 + v.offset
    rw [View.offset, Page.index]
    omega
  | succ k ih =>
    rw [List.replicate_succ, View.keys, List.foldl_cons, View.key_back, Function.iterate_succ_apply]
    have hback := ih (v := v.goTo (backOffset v.offset)) (Nat.mod_lt _ (by decide))
      (Nat.le_add_right ..)
    rwa [View.goTo_offset] at hback

theorem keys_page {text : List Byte} (hcr : (13 : Byte) ∉ text) :
    (v.keys text).page = text.foldl (Page.write 80 10) v.page := by
  induction text generalizing v with
  | nil => rfl
  | cons ch text ih =>
    obtain ⟨hch, htext⟩ := not_or.mp (mt List.mem_cons.mpr hcr)
    have hkey : (v.key ch).page = v.page.write 80 10 ch := by rw [View.key, if_neg (Ne.symm hch)]
    rw [View.keys, List.foldl_cons, List.foldl_cons, ← hkey]
    exact ih htext

/-- After leading steps back and then characters, the echo reads as the characters
if and only if the steps led back to where the prompt ends, or nothing was typed
and the cursor is not behind it. -/
theorem echo_iff (h : Shown s v) (k : Nat) {text : List Byte} (hcr : (13 : Byte) ∉ text)
    (hnl : (10 : Byte) ∉ text) :
    (v.keys (List.replicate k 13 ++ text)).page.textFrom 80 (v.page.index 80) = text ↔
      backOffset^[k] v.offset = v.offset ∨ text = [] ∧ backOffset^[k] v.offset ≤ v.offset := by
  have hrow : v.top ≤ v.page.row := by rw [← h.row]; exact Nat.le_add_right ..
  obtain ⟨hindex, hcol⟩ := keys_back k h.col_lt hrow
  obtain ⟨hend, -, hlaid⟩ := Page.foldl_write_chars hnl hcol
  rw [View.keys, List.foldl_append, ← View.keys, ← View.keys, Page.textFrom, keys_page hcr]
  rw [hindex] at hend hlaid
  rw [hend, h.index_eq]
  constructor
  · intro htext
    have hlen := congrArg List.length htext
    rw [List.length_map, List.length_range] at hlen
    cases text with
    | nil => exact .inr ⟨rfl, by rw [List.length_nil] at hlen; omega⟩
    | cons ch text => exact .inl (by rw [List.length_cons] at hlen; omega)
  · intro h
    rcases h with hback | ⟨rfl, hle⟩
    · rw [hback] at hlaid ⊢
      refine List.ext_getElem ?_ fun j hj hj' => ?_
      · rw [List.length_map, List.length_range]
        omega
      · rw [List.getElem_map, List.getElem_range]
        exact hlaid j hj'
    · rw [List.length_nil, Nat.add_zero, Nat.sub_eq_zero_of_le (by omega)]
      rfl

end

/-- States of the terminal in which it has just written a prompt. -/
inductive Prompted (limit : Nat) : Terminal → Prop
  | start {t t' : Terminal} : t.startTerminal limit = .ok t' → Prompted limit t'
  | line {t t' : Terminal} {keys : List Byte} : Prompted limit t → (10 : Byte) ∉ keys →
      t.handleKeys limit (keys ++ [10]) = .ok t' → Prompted limit t'

section

variable {limit : Nat} {s s' : Screen} {t t' : Terminal} {v : View}

theorem putchars_shown (hlimit : 3999 ≤ limit) {text : List Byte} (h : Shown s v)
    (hrun : putchars limit text s = .ok s') : ∃ v', Shown s' v' := by
  induction text generalizing s v with
  | nil =>
    cases hrun
    exact ⟨v, h⟩
  | cons ch text ih =>
    rw [putchars, List.foldlM_cons] at hrun
    obtain ⟨s1, hs1, hrest⟩ := bind_ok hrun
    exact ih (h.putchar hlimit hs1).1 hrest

theorem printString_shown (hlimit : 3999 ≤ limit) {p : Nat → Byte} {fuel i : Nat} (h : Shown s v)
    (hrun : printString limit p fuel i s = .ok s') : ∃ v', Shown s' v' := by
  induction fuel generalizing s v i with
  | zero => cases hrun
  | succ fuel ih =>
    rw [printString] at hrun
    split_ifs at hrun with hend
    · obtain ⟨s1, hs1, hrest⟩ := bind_ok hrun
      exact ih (h.putchar hlimit hs1).1 hrest
    · cases hrun
      exact ⟨v, h⟩

theorem clearScreen_shown (hlimit : 3999 ≤ limit) (hrun : clearScreen limit s = .ok s') :
    Shown s' ⟨Page.blank 0x20, 0⟩ := by
  obtain ⟨s1, hs1, hshows⟩ := clearScreen_shows hlimit s
  rw [hs1] at hrun
  cases hrun
  exact hshows

theorem runCmd_shown (hlimit : 3999 ≤ limit) (h : Shown t.screen v)
    (hrun : t.runCmd limit = .ok s') : ∃ v', Shown s' v' := by
  rw [Terminal.runCmd] at hrun
  split_ifs at hrun
  · exact ⟨_, clearScreen_shown hlimit hrun⟩
  · exact putchars_shown hlimit h hrun
  · obtain ⟨s1, hs1, hrest⟩ := bind_ok hrun
    obtain ⟨s2, hs2, hrest⟩ := bind_ok hrest
    obtain ⟨v1, hv1⟩ := putchars_shown hlimit h hs1
    obtain ⟨v2, hv2⟩ := printString_shown hlimit hv1 hs2
    exact putchars_shown hlimit hv2 hrest

/-- The newline runs the command, empties the buffer and writes the next prompt. -/
theorem handleKey_newline_ok (hrun : t.handleKey limit 10 = .ok t') : ∃ s1 s2 s3,
    putchar limit ((10 : Byte).signExtend 32) t.screen = .ok s1 ∧
    Terminal.runCmd limit { t with screen := s1 } = .ok s2 ∧
    putchars limit nextPromptText s2 = .ok s3 ∧
    t' = { Terminal.clearBuf { t with screen := s2 } with screen := s3 } := by
  rw [Terminal.handleKey, if_pos (by decide)] at hrun
  obtain ⟨s1, hs1, hrest⟩ := bind_ok hrun
  have hskip : Terminal.addCharToBuf 10 { t with screen := s1 } = { t with screen := s1 } :=
    if_neg fun hall => hall.2.1 rfl
  simp only [if_true, hskip] at hrest
  obtain ⟨s2, hs2, hrest⟩ := bind_ok hrest
  obtain ⟨s3, hs3, hrest⟩ := bind_ok hrest
  cases hrest
  exact ⟨s1, s2, s3, hs1, hs2, hs3, rfl⟩

theorem Holds.newline {heap : Nat → Byte} {line : List Byte} (hh : Holds t heap line)
    (hrun : t.handleKey limit 10 = .ok t') : Holds t' heap [] := by
  obtain ⟨s1, s2, s3, -, -, -, rfl⟩ := handleKey_newline_ok hrun
  exact ((hh.setScreen s2).clear).setScreen s3

theorem Shown.newline (hlimit : 3999 ≤ limit) (hv : Shown t.screen v)
    (hrun : t.handleKey limit 10 = .ok t') : ∃ v', Shown t'.screen v' := by
  obtain ⟨s1, s2, s3, hs1, hs2, hs3, rfl⟩ := handleKey_newline_ok hrun
  have hv1 : Shown ({ t with screen := s1 } : Terminal).screen (v.key 10) :=
    (hv.putchar hlimit hs1).1
  obtain ⟨v2, hv2⟩ := runCmd_shown hlimit hv1 hs2
  exact putchars_shown hlimit hv2 hs3

theorem Prompted.start_holds (hrun : t.startTerminal limit = .ok t') : Holds t' t.cmdBuf [] := by
  obtain ⟨s1, -, hrest⟩ := bind_ok hrun
  obtain ⟨s2, -, hrest⟩ := bind_ok hrest
  cases hrest
  exact ⟨rfl, fun i hi => absurd hi (Nat.not_lt_zero i), fun i _ hin => if_pos hin,
    fun i hi => if_neg (Nat.not_lt.mpr hi)⟩

/-- At a prompt some page is shown and the buffer is empty. -/
theorem Prompted.ready (hlimit : 3999 ≤ limit) (h : Prompted limit t) :
    (∃ v, Shown t.screen v) ∧ Holds t t.cmdBuf [] := by
  induction h with
  | start hrun =>
    have hh := Prompted.start_holds hrun
    obtain ⟨s1, hs1, hrest⟩ := bind_ok hrun
    obtain ⟨s2, hs2, hrest⟩ := bind_ok hrest
    cases hrest
    exact ⟨putchars_shown hlimit (clearScreen_shown hlimit hs1) hs2,
      ⟨hh.pos, hh.chars, hh.cleared, fun _ _ => rfl⟩⟩
  | line _ hnl hrun ih =>
    obtain ⟨⟨v, hv⟩, hh⟩ := ih
    rw [Terminal.handleKeys, List.foldlM_append] at hrun
    obtain ⟨t1, ht1, hrest⟩ := bind_ok hrun
    obtain ⟨hv1, hh1⟩ := handleKeys_follow hlimit hnl hv hh ht1
    rw [List.foldlM_cons] at hrest
    obtain ⟨t2, ht2, hrest⟩ := bind_ok hrest
    cases hrest
    have hholds := hh1.newline ht2
    exact ⟨hv1.newline hlimit ht2, ⟨hholds.pos, hholds.chars, hholds.cleared, fun _ _ => rfl⟩⟩

end

/-- What is compared, and what stands between prompt and cursor, is the line as
edited. -/
structure Faithful (v : View) (t : Terminal) (line : List Byte) : Prop where
  compared : strcmpEq (edited 13 line) t.cmdBuf 0 = true
  echoed : (v.keys line).page.textFrom 80 (v.page.index 80) = edited 13 line

/-- Every carriage return comes before the first character, and together they leave
the cursor where the prompt ends, or not behind it if nothing follows. -/
def ReturnsLead (v : View) (line : List Byte) : Prop :=
  ∃ k text, line = List.replicate k 13 ++ text ∧ (13 : Byte) ∉ text ∧
    (backOffset^[k] v.offset = v.offset ∨ text = [] ∧ backOffset^[k] v.offset ≤ v.offset)

section

variable {limit : Nat} {t t' : Terminal} {v : View} {keys : List Byte}

theorem faithful_of_fits {heap : Nat → Byte} (hv : Shown t.screen v) (hnl : (10 : Byte) ∉ keys)
    (hh : Holds t' heap (typed 13 (presses keys)))
    (hfit : (typed 13 (presses keys)).length < cmdBufSize) :
    Faithful v t' (presses keys) ↔ ReturnsLead v (presses keys) := by
  have hzero := zero_not_mem_presses keys
  have hsub : ∀ k text, presses keys = List.replicate k 13 ++ text → ∀ c ∈ text, c ∈ keys :=
    fun k text hsplit c hc => List.mem_of_mem_filter (hsplit ▸ List.mem_append_right _ hc)
  have htyped : (0 : Byte) ∉ typed 13 (presses keys) := fun h => hzero (List.mem_of_mem_filter h)
  constructor
  · intro h
    obtain ⟨hcmp, hecho⟩ := h
    have hedited : (0 : Byte) ∉ edited 13 (presses keys) := fun h => hzero (mem_of_mem_edited h)
    rw [hh.strcmpEq_iff_eq hfit htyped hedited, edited_eq_typed_iff] at hcmp
    obtain ⟨k, text, hsplit, hcr⟩ := hcmp
    rw [hsplit, edited_leading k hcr] at hecho
    exact ⟨k, text, hsplit, hcr,
      (echo_iff hv k hcr fun hc => hnl (hsub k text hsplit _ hc)).mp hecho⟩
  · intro h
    obtain ⟨k, text, hsplit, hcr, hback⟩ := h
    have hedited : edited 13 (presses keys) = typed 13 (presses keys) :=
      (edited_eq_typed_iff _).mpr ⟨k, text, hsplit, hcr⟩
    refine ⟨by rw [hedited]; exact hh.strcmpEq_line hfit, ?_⟩
    rw [hsplit, edited_leading k hcr]
    exact (echo_iff hv k hcr fun hc => hnl (hsub k text hsplit _ hc)).mpr hback

/-- The exact condition. With the installed video descriptor, or for a line that
fits the buffer, the command is the line as edited and as echoed if and only if the
line fits and its carriage returns lead. A longer line is compared as edited only
if its first 2000 characters stand and the heap spells the rest. -/
theorem faithful_iff (hlimit : 3999 ≤ limit) (hp : Prompted limit t) (hnl : (10 : Byte) ∉ keys)
    (hrun : t.handleKeys limit keys = .ok t') :
    (∃ v, Shown t.screen v) ∧ ∀ v, Shown t.screen v → Shown t'.screen (v.keys (presses keys)) ∧
      (limit < 4001 ∨ (typed 13 (presses keys)).length < cmdBufSize →
        (Faithful v t' (presses keys) ↔
          (typed 13 (presses keys)).length < cmdBufSize ∧ ReturnsLead v (presses keys))) ∧
      (cmdBufSize ≤ (typed 13 (presses keys)).length →
        (strcmpEq (edited 13 (presses keys)) t'.cmdBuf 0 = true ↔
          cmdBufSize ≤ (edited 13 (presses keys)).length ∧
          (edited 13 (presses keys)).take cmdBufSize = (typed 13 (presses keys)).take cmdBufSize ∧
          strcmpEq ((edited 13 (presses keys)).drop cmdBufSize) t.cmdBuf cmdBufSize = true)) := by
  obtain ⟨hready, hh⟩ := hp.ready hlimit
  refine ⟨hready, fun v hv => ?_⟩
  obtain ⟨hv', hh'⟩ := handleKeys_follow hlimit hnl hv hh hrun
  rw [List.nil_append] at hh'
  have htyped : (0 : Byte) ∉ typed 13 (presses keys) :=
    fun h => zero_not_mem_presses keys (List.mem_of_mem_filter h)
  refine ⟨hv', fun hcase => ?_, fun hfull => hh'.strcmpEq_full hfull htyped _⟩
  rcases Nat.lt_or_ge (typed 13 (presses keys)).length cmdBufSize with hfit | hfull
  · rw [and_iff_right hfit]
    exact faithful_of_fits hv hnl hh' hfit
  · have hnarrow : limit < 4001 := hcase.resolve_right (Nat.not_lt.mpr hfull)
    refine iff_of_false (fun hf => ?_) fun hno => absurd hno.1 (Nat.not_lt.mpr hfull)
    have hlong := ((hh'.strcmpEq_full hfull htyped _).mp hf.compared).1
    have hshort : (edited 13 (presses keys)).length ≤ _ :=
      edited_le_offset hlimit hnarrow hnl hv (Nat.zero_le _) hrun
    have hscreen := hv'.offset_lt
    rw [cmdBufSize] at hlong
    omega

end

def darkTerminal : Terminal := ⟨darkScreen, fun _ => 0, 0⟩

def firstView : View := ⟨pageOf promptText, 0⟩

theorem darkTerminal_prompts : ∃ t, darkTerminal.startTerminal videoLimit = .ok t ∧
    Shown t.screen firstView := by
  obtain ⟨s1, hs1, hshows⟩ := clearScreen_shows (by decide : 3999 ≤ videoLimit) darkTerminal.screen
  obtain ⟨s2, hs2, hshows2⟩ := (putchars_shows (by decide : 3999 ≤ videoLimit)
    (by decide : (13 : Byte) ∉ promptText) hshows (.inr (by decide))).1 (.inr (by decide))
  refine ⟨{ Terminal.initBuf { darkTerminal with screen := s1 } with screen := s2 }, ?_, hshows2⟩
  rw [Terminal.startTerminal, bind_of_ok hs1]
  exact bind_of_ok hs2 _

theorem handleKeys_append {limit : Nat} {t t1 : Terminal} {keys : List Byte}
    (h : t.handleKeys limit keys = .ok t1)
    (more : List Byte) : t.handleKeys limit (keys ++ more) = t1.handleKeys limit more := by
  rw [Terminal.handleKeys, List.foldlM_append]
  exact bind_of_ok h _

/-- Letters that end before the last column are taken one by one. -/
theorem letters_handled (keys : List Byte) (hkeys : ∀ c ∈ keys, c ≠ 0 ∧ c ≠ 10 ∧ c ≠ 13)
    {t : Terminal} {v : View}
    (hv : Shown t.screen v) (hroom : v.page.col + keys.length < 80) :
    ∃ t', t.handleKeys videoLimit keys = .ok t' := by
  induction keys generalizing t v with
  | nil => exact ⟨t, rfl⟩
  | cons c keys ih =>
    rw [List.length_cons] at hroom
    obtain ⟨h0, hnl, hcr⟩ := hkeys c (List.mem_cons_self ..)
    have hpage : v.page.write 80 10 c = { v.page.fill c with col := v.page.col + 1 } :=
      (if_neg hnl).trans (if_pos (by omega : v.page.col + 1 < 80))
    have hrow := Shows.row_lt hv
    obtain ⟨s, hs, hshows⟩ := (Shows.follows_putchar hv (by decide : 3999 ≤ videoLimit) hcr).stays
      (by rw [hpage]; exact hrow)
    rw [hpage] at hshows
    have hletter : t.handleKey videoLimit c =
        .ok (Terminal.addCharToBuf c { t with screen := s }) := by
      rw [Terminal.handleKey, if_pos h0, bind_of_ok hs]
      exact if_neg hnl
    have hv' : Shown (Terminal.addCharToBuf c { t with screen := s }).screen
        ⟨{ v.page.fill c with col := v.page.col + 1 }, v.top⟩ := by
      rw [addCharToBuf_screen]
      exact hshows
    obtain ⟨t', ht'⟩ := ih (fun k hk => hkeys k (List.mem_cons_of_mem _ hk)) hv'
      (by change v.page.col + 1 + keys.length < 80; omega)
    exact ⟨t', (bind_of_ok hletter _).trans ht'⟩

/-- `help`, with a look at an empty key buffer after the second letter. -/
theorem faithful_iff_help : ∃ t t', Prompted videoLimit t ∧
    t.handleKeys videoLimit ([0x68, 0x65] ++ 0 :: [0x6C, 0x70]) = .ok t' ∧
    Faithful firstView t' helpCommand := by
  obtain ⟨t, ht, hv⟩ := darkTerminal_prompts
  obtain ⟨t', ht'⟩ := letters_handled helpCommand (by decide) hv (by decide)
  have hrun : t.handleKeys videoLimit ([0x68, 0x65] ++ 0 :: [0x6C, 0x70]) = .ok t' := by
    rw [Terminal.handleKeys, List.foldlM_append]
    rw [Terminal.handleKeys, (by decide : helpCommand = [0x68, 0x65] ++ [0x6C, 0x70]),
      List.foldlM_append] at ht'
    exact ht'
  obtain ⟨-, hall⟩ := faithful_iff (by decide) (.start ht) (by decide) hrun
  exact ⟨t, t', .start ht, hrun,
    ((hall firstView hv).2.1 (.inl (by decide))).mpr
      ⟨by decide, 0, helpCommand, by decide, by decide, .inl rfl⟩⟩

/-- The letter and a backspace: the echo is back at the prompt, the command is `a`. -/
theorem erasedLetter_not_faithful : ∃ t t', Prompted videoLimit t ∧ Shown t.screen firstView ∧
    t.handleKeys videoLimit [0x61, 13] = .ok t' ∧ strcmpEq [0x61] t'.cmdBuf 0 = true ∧
    edited 13 [0x61, 13] = ([] : List Byte) ∧ ¬ Faithful firstView t' [0x61, 13] := by
  obtain ⟨t, ht, hv⟩ := darkTerminal_prompts
  obtain ⟨t1, ht1⟩ := letters_handled [0x61] (by decide) hv (by decide)
  have hrun : t.handleKeys videoLimit [0x61, 13] = t1.handleKeys videoLimit [13] :=
    handleKeys_append ht1 [13]
  have hback : ∃ t', t1.handleKeys videoLimit [13] = .ok t' := ⟨_, rfl⟩
  obtain ⟨t', ht'⟩ := hback
  rw [ht'] at hrun
  have hready := (Prompted.start ht).ready (by decide)
  obtain ⟨-, hholds⟩ := handleKeys_follow (by decide) (by decide) hv hready.2 hrun
  have hcompared : strcmpEq [0x61] t'.cmdBuf 0 = true := hholds.strcmpEq_line (by decide)
  have hedited : edited 13 [0x61, 13] = ([] : List Byte) := by decide
  refine ⟨t, t', .start ht, hv, hrun, hcompared, hedited, fun hf => ?_⟩
  have hnil := hf.compared
  rw [hedited] at hnil
  exact absurd (strcmpEq_unique (by decide) (by decide) hcompared hnil) (by decide)

end SimpleOs.Audit.CommandLine
