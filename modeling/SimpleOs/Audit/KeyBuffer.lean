import SimpleOs.Lib.Fairness
import SimpleOs.Kernel.Keyboard

/-!
# The key buffer under interrupts

Every schedule of keyboard interrupts and reader steps is covered. `pending` says
where the keys that are still to be taken stand, also in the middle of the shift,
when neither `key_loc` nor the elements below it describe the buffer.
-/

namespace SimpleOs.Audit.KeyBuffer

open SimpleOs.Lib
open SimpleOs.Lib.ByteMemory
open SimpleOs.Kernel
open SimpleOs.Kernel.Keyboard (after)

/-- `cache[a..b)` in order. -/
def slice (cache : Int → Byte) (a b : Int) : List Byte :=
  (List.range (b - a).toNat).map fun j : Nat => cache (a + j)

section

variable {cache cache' : Int → Byte} {a b : Int}

theorem slice_of_le (h : b ≤ a) : slice cache a b = [] := by
  rw [slice, Int.toNat_of_nonpos (by omega)]
  rfl

theorem slice_congr (h : ∀ i, a ≤ i → i < b → cache i = cache' i) :
    slice cache a b = slice cache' a b := by
  refine List.map_congr_left fun j hj => h _ (by omega) ?_
  have hlt := List.mem_range.mp hj
  omega

theorem slice_snoc (h : a ≤ b) : slice cache a (b+1) = slice cache a b ++ [cache b] := by
  have hlen : (b + 1 - a).toNat = (b - a).toNat + 1 := by omega
  have hlast : a + ((b - a).toNat : Int) = b := by omega
  rw [slice, slice, hlen, List.range_succ, List.map_append, List.map_singleton, hlast]

theorem slice_cons (h : a < b) : slice cache a b = cache a :: slice cache (a+1) b := by
  have hlen : (b - a).toNat = (b - (a+1)).toNat + 1 := by omega
  rw [slice, slice, hlen, List.range_succ_eq_map, List.map_cons, List.map_map]
  congr 1
  · exact congrArg cache (by omega)
  · refine List.map_congr_left fun j _ => congrArg cache ?_
    omega

/-- Closing the gap at `i + 1` by one more element opens it at `i + 2`. -/
theorem slice_shift {i n : Int} (h0 : 0 ≤ i) (hi : i < n) :
    slice (fun j => if j = i then cache (i+1) else cache j) 0 (min (i+1) (n-1)) ++
      slice (fun j => if j = i then cache (i+1) else cache j) (i+1+1) n =
    slice cache 0 (min i (n-1)) ++ slice cache (i+1) n := by
  have hbehind : slice (fun j => if j = i then cache (i+1) else cache j) (i+1+1) n =
      slice cache (i+1+1) n := slice_congr fun j hj _ => if_neg (by omega)
  have hbefore : slice (fun j => if j = i then cache (i+1) else cache j) 0 i = slice cache 0 i :=
    slice_congr fun j _ hj => if_neg (by omega)
  rw [hbehind]
  by_cases hlast : i + 1 < n
  · have hmin : min (i+1) (n-1) = i + 1 := by omega
    have hmin' : min i (n-1) = i := by omega
    rw [hmin, hmin', slice_snoc h0, hbefore, if_pos rfl, slice_cons hlast, List.append_assoc]
    rfl
  · have hmin : min (i+1) (n-1) = i := by omega
    have hmin' : min i (n-1) = i := by omega
    rw [hmin, hmin', hbefore, slice_of_le (by omega : n ≤ i + 1 + 1),
      slice_of_le (by omega : n ≤ i + 1)]

theorem slice_length : (slice cache a b).length = (b - a).toNat := by
  rw [slice, List.length_map, List.length_range]

end

/-- The reader holds the mutex. -/
def holding : KeyReader → Bool
  | .test | .lock | .ret => false
  | _ => true

/-- The reader has taken the head and not yet stored the new `key_loc`. -/
def removing : KeyReader → Bool
  | .test | .lock | .take | .unlock | .ret => false
  | _ => true

/-- The keys still to be taken, in order. -/
def pending (s : Keyboard) : List Byte :=
  match s.reader with
  | .test | .lock | .take | .unlock | .ret => slice s.keycache 0 s.keyLoc
  | .loopTest i | .load i | .store i _ =>
    slice s.keycache 0 (min i (s.keyLoc - 1)) ++ slice s.keycache (i+1) s.keyLoc
  | .decLoad => slice s.keycache 0 (s.keyLoc - 1)
  | .decStore v => slice s.keycache 0 v

theorem pending_of_not_removing {s : Keyboard} (h : removing s.reader = false) :
    pending s = slice s.keycache 0 s.keyLoc := by
  rw [pending]
  cases hr : s.reader with
  | test => rfl
  | lock => rfl
  | take => rfl
  | unlock => rfl
  | ret => rfl
  | _ => rw [hr] at h; cases h

/-- What the reader relies on where it is. -/
def ReaderInv (s : Keyboard) : Prop :=
  match s.reader with
  | .test | .unlock | .ret => True
  | .lock => 0 < s.keyLoc ∧ s.ch = 0
  | .take | .decLoad => 0 < s.keyLoc
  | .loopTest i => 0 < s.keyLoc ∧ 0 ≤ i ∧ i ≤ s.keyLoc
  | .load i => 0 ≤ i ∧ i < s.keyLoc
  | .store i v => 0 ≤ i ∧ i < s.keyLoc ∧ v = s.keycache (i+1)
  | .decStore v => 0 < s.keyLoc ∧ v = s.keyLoc - 1

/-- The word at `key_loc_mtx`, up to `ch`. -/
structure Guarded (s : Keyboard) : Prop where
  mutex : s.mutex = if holding s.reader then locked else unlocked
  padding : s.data (keyLocMtx+2) = 0 ∧ s.data (keyLocMtx+3) = 0

structure Good (s : Keyboard) : Prop where
  loc_nonneg : 0 ≤ s.keyLoc
  loc_le : s.keyLoc ≤ keyCacheSize - 1
  word : Guarded s
  reader : ReaderInv s
  touched : ∀ i ∈ s.touched, 0 ≤ i ∧ i < keyCacheSize
  fifo : s.stored = s.taken ++ pending s

theorem init_good (cache : Int → Byte) : Good (Keyboard.init cache) :=
  ⟨le_rfl, (by decide : (0 : Int) ≤ keyCacheSize - 1), ⟨rfl, ⟨rfl, rfl⟩⟩, trivial,
    fun i hi => absurd hi List.not_mem_nil, rfl⟩

/-- With `ch` zeroed. -/
def clearCh (s : Keyboard) : Keyboard := { s with data := write8 s.data chAt 0 }

section

variable {past : Byte} {s : Keyboard} {m : Memory}

theorem clearCh_ch (s : Keyboard) : (clearCh s).ch = 0 := write8_same s.data chAt 0

theorem clearCh_data {a : Addr} (h : a ≠ chAt) : (clearCh s).data a = s.data a :=
    write8_of_ne s.data 0 h

theorem unlock_data {a : Addr} (h : a ≠ keyLocMtx) : s.unlock.data a = s.data a :=
  write8_of_ne s.data unlocked h

/-- The exchange writes the lock byte and `ch`, the rest of the word being zero. -/
theorem xchg_bytes (h : m (keyLocMtx+2) = 0 ∧ m (keyLocMtx+3) = 0) :
    write32 m keyLocMtx 1 = write8 (write8 m keyLocMtx locked) chAt 0 := by
  obtain ⟨hb1, hb2, hb3⟩ := xchg_clears m keyLocMtx
  funext x
  by_cases hch : x = chAt
  · rw [hch, write8_same]
    exact hb1
  by_cases hlock : x = keyLocMtx
  · rw [hlock, write_locked_self, write8_of_ne _ _ (by decide), write8_same]
  rw [write8_of_ne _ _ hch, write8_of_ne _ _ hlock]
  by_cases h2 : x = keyLocMtx + 2
  · rw [h2, hb2, h.1]
  by_cases h3 : x = keyLocMtx + 3
  · rw [h3, hb3, h.2]
  · refine write32_of_far m 1 ?_
    simp only [chAt, keyLocMtx] at *
    bv_omega

theorem write8_self {a : Addr} {v : Byte} (h : m a = v) : write8 m a v = m := by
  funext x
  rw [write8]
  split_ifs with hx
  · rw [hx, h]
  · rfl

/-- Tried in vain, the lock stays and `ch` is gone. -/
theorem Guarded.trylock_held (h : Guarded s) (hheld : s.mutex = locked) :
    s.trylock.1 = false ∧ s.trylock.2 = clearCh s := by
  have htry := mutexTrylock_acquires s.data keyLocMtx
  have hdata := xchg_bytes h.padding
  rw [write8_self hheld] at hdata
  refine ⟨Bool.eq_false_iff.mpr fun ht => htry.mp ht hheld, ?_⟩
  exact congrArg (fun m => { s with data := m }) hdata

/-- Taken and released again, it is as it was, and `ch` is gone too. -/
theorem Guarded.trylock_free (h : Guarded s) (hfree : s.mutex = unlocked) :
    s.trylock.1 = true ∧ mutexUnlock s.trylock.2.data keyLocMtx = write8 s.data chAt 0 := by
  have hne : s.data keyLocMtx ≠ locked := fun hheld => absurd (hfree.symm.trans hheld) (by decide)
  have hdata : s.trylock.2.data = write8 (write8 s.data keyLocMtx locked) chAt 0 :=
    xchg_bytes h.padding
  refine ⟨(mutexTrylock_acquires s.data keyLocMtx).mpr hne, ?_⟩
  rw [hdata, mutexUnlock]
  funext x
  by_cases hx : x = keyLocMtx
  · rw [hx, write8_same, write8_of_ne _ _ (by decide)]
    exact hfree.symm
  · rw [write8_of_ne _ _ hx]
    simp only [write8, hx, if_false]

/-- The reader waits for the whole word to be zero, and finds it so. -/
theorem Guarded.lock_acquires (h : Guarded s) (hr : s.reader = .lock) (hch : s.ch = 0) :
    (mutexLock s.data keyLocMtx).1 = true := by
  have hfree := h.mutex
  rw [hr] at hfree
  have hbehind : ClearBehind s.data keyLocMtx := ⟨hch, h.padding.1, h.padding.2⟩
  exact hbehind.lock_acquires.mpr hfree

theorem Guarded.not_holding (h : Guarded s) (hfree : s.mutex = unlocked) :
    holding s.reader = false := by
  have hm := h.mutex
  rw [hfree] at hm
  split_ifs at hm with hh
  · exact absurd hm (by decide)
  · exact Bool.eq_false_iff.mpr hh

theorem Guarded.free_of_not_held (h : Guarded s)
    (hheld : s.mutex ≠ locked) : s.mutex = unlocked := by
  rw [h.mutex] at hheld ⊢
  split_ifs at hheld ⊢ with hh
  · exact absurd rfl hheld
  · rfl

theorem Guarded.clearCh (h : Guarded s) : Guarded (clearCh s) := by
  refine ⟨(clearCh_data (by decide)).trans h.mutex, ?_⟩
  exact ⟨(clearCh_data (by decide)).trans h.padding.1, (clearCh_data (by decide)).trans h.padding.2⟩

theorem Guarded.read (h : Guarded s) (hch : s.reader = .lock → s.ch = 0) :
    Guarded s.getKeyboardKey := by
  have hm := h.mutex
  have hpadding := h.padding
  have hbytes : ∀ v, write8 s.data chAt v keyLocMtx = s.data keyLocMtx ∧
      write8 s.data chAt v (keyLocMtx+2) = 0 ∧ write8 s.data chAt v (keyLocMtx+3) = 0 := fun v => by
    rw [write8_of_ne _ _ (by decide), write8_of_ne _ _ (by decide), write8_of_ne _ _ (by decide)]
    exact ⟨rfl, hpadding⟩
  simp only [Keyboard.getKeyboardKey]
  cases hr : s.reader with
  | test =>
    rw [hr] at hm
    refine ⟨(hbytes 0).1.trans (hm.trans ?_), (hbytes 0).2⟩
    by_cases hloc : s.keyLoc ≠ 0
    · rw [if_pos hloc]
      rfl
    · rw [if_neg hloc]
      rfl
  | lock =>
    obtain ⟨-, hb2, hb3⟩ := xchg_clears s.data keyLocMtx
    rw [h.lock_acquires hr (hch hr), if_pos rfl]
    exact ⟨write_locked_self s.data keyLocMtx, hb2, hb3⟩
  | take =>
    rw [hr] at hm
    exact ⟨(hbytes (s.keycache 0)).1.trans hm, (hbytes (s.keycache 0)).2⟩
  | loopTest i =>
    rw [hr] at hm
    refine ⟨hm.trans ?_, hpadding⟩
    by_cases hi : i < s.keyLoc
    · simp only [hi, if_true]
      rfl
    · simp only [hi, if_false]
      rfl
  | unlock =>
    refine ⟨write8_same s.data keyLocMtx unlocked, ?_⟩
    exact ⟨(unlock_data (by decide)).trans hpadding.1, (unlock_data (by decide)).trans hpadding.2⟩
  | _ =>
    rw [hr] at hm
    exact ⟨hm, hpadding⟩

theorem callback_of_held {key : U8int} (h : Guarded s) (hheld : s.mutex = locked) :
    s.keyboardCallback past key = clearCh s := by
  obtain ⟨htry, hstate⟩ := h.trylock_held hheld
  rw [Keyboard.keyboardCallback, htry, hstate]
  rfl

theorem callback_of_full {key : U8int} (h : Guarded s) (hfull : ¬ s.keyLoc < keyCacheSize - 1) :
    s.keyboardCallback past key = clearCh s := by
  by_cases hheld : s.mutex = locked
  · exact callback_of_held h hheld
  obtain ⟨htry, hdata⟩ := h.trylock_free (h.free_of_not_held hheld)
  have hstore : s.trylock.2.storeIfRoom past key = s.trylock.2 := if_neg hfull
  rw [Keyboard.keyboardCallback, if_pos htry, hstore, Keyboard.unlock, hdata]
  rfl

theorem callback_of_room {key : U8int} (h : Guarded s) (hfree : s.mutex = unlocked)
    (hroom : s.keyLoc < keyCacheSize - 1) :
    s.keyboardCallback past key = (clearCh s).storeKey (keyboardToAscii past key) := by
  obtain ⟨htry, hdata⟩ := h.trylock_free hfree
  have hstore : s.trylock.2.storeIfRoom past key = s.trylock.2.storeKey
    (keyboardToAscii past key) := if_pos hroom
  have hunlock : (s.trylock.2.storeKey (keyboardToAscii past key)).unlock =
      { s.storeKey (keyboardToAscii past key) with
        data := mutexUnlock s.trylock.2.data keyLocMtx } := rfl
  rw [Keyboard.keyboardCallback, if_pos htry, hstore, hunlock, hdata]
  rfl

/-- Whatever an interrupt finds, `ch` is zero afterwards. -/
theorem callback_clears (h : Guarded s) (key : U8int) : s.keyboardCallback past key = clearCh s ∨
    ∃ c, s.keyboardCallback past key = (clearCh s).storeKey c := by
  by_cases hheld : s.mutex = locked
  · exact .inl (callback_of_held h hheld)
  by_cases hroom : s.keyLoc < keyCacheSize - 1
  · exact .inr ⟨_, callback_of_room h (h.free_of_not_held hheld) hroom⟩
  · exact .inl (callback_of_full h hroom)

theorem callback_ch (h : Guarded s) (key : U8int) : (s.keyboardCallback past key).ch = 0 := by
  rcases callback_clears h key with hc | ⟨c, hc⟩
  · rw [hc]
    exact clearCh_ch s
  · rw [hc]
    exact clearCh_ch s

theorem not_removing_of_not_holding {r : KeyReader}
    (h : holding r = false) : removing r = false := by
  cases r with
  | test => rfl
  | lock => rfl
  | ret => rfl
  | _ => cases h

theorem touch_bound (ht : ∀ i ∈ s.touched, 0 ≤ i ∧ i < keyCacheSize) {k : Int} (h0 : 0 ≤ k)
    (hk : k < keyCacheSize) : ∀ i ∈ s.touched ++ [k], 0 ≤ i ∧ i < keyCacheSize := by
  intro i hi
  rcases List.mem_append.mp hi with hi | hi
  · exact ht i hi
  · rw [List.mem_singleton.mp hi]
    exact ⟨h0, hk⟩

/-- Zeroing `ch` is nothing to the buffer, and all that a reader at the lock asks for. -/
theorem Good.clearCh (h : Good s) : Good (clearCh s) := by
  refine ⟨h.loc_nonneg, h.loc_le, h.word.clearCh, ?_, h.touched, h.fifo⟩
  have hinv := h.reader
  have hreader : (KeyBuffer.clearCh s).reader = s.reader := rfl
  simp only [ReaderInv, hreader] at hinv ⊢
  cases hr : s.reader with
  | lock =>
    rw [hr] at hinv
    exact ⟨hinv.1, clearCh_ch s⟩
  | _ =>
    rw [hr] at hinv
    exact hinv

/-- A free mutex and room: the key goes to the end. -/
theorem Good.storeKey (h : Good s) (hfree : s.mutex = unlocked)
    (hroom : s.keyLoc < keyCacheSize - 1) (c : Byte) : Good (s.storeKey c) := by
  have h0 := h.loc_nonneg
  have hfree' := h.word.not_holding hfree
  have hout := not_removing_of_not_holding hfree'
  have hloc : (s.storeKey c).keyLoc = s.keyLoc + 1 := rfl
  refine ⟨by omega, by omega, ⟨h.word.mutex, h.word.padding⟩, ?_,
    touch_bound h.touched h0 (by omega), ?_⟩
  · have hinv := h.reader
    have hreader : (s.storeKey c).reader = s.reader := rfl
    simp only [ReaderInv, hreader] at hinv ⊢
    cases hr : s.reader with
    | test => trivial
    | ret => trivial
    | lock =>
      rw [hr] at hinv
      exact ⟨by omega, hinv.2⟩
    | _ => rw [hr] at hfree'; cases hfree'
  · have hpending : pending (s.storeKey c) = pending s ++ [c] := by
      have hnew : pending (s.storeKey c) = slice (s.storeKey c).keycache 0 (s.keyLoc + 1) :=
        pending_of_not_removing hout
      have hlast : (s.storeKey c).keycache s.keyLoc = c := if_pos rfl
      rw [hnew, pending_of_not_removing hout, slice_snoc h0, hlast]
      exact congrArg (· ++ [c]) (slice_congr fun i _ hi => if_neg (by omega))
    have hstored : (s.storeKey c).stored = s.stored ++ [c] := rfl
    rw [hstored, hpending, h.fifo, List.append_assoc]
    rfl

theorem Good.interrupt (h : Good s) (key : U8int) : Good (s.keyboardCallback past key) := by
  by_cases hheld : s.mutex = locked
  · rw [callback_of_held h.word hheld]
    exact h.clearCh
  by_cases hroom : s.keyLoc < keyCacheSize - 1
  · have hfree := h.word.free_of_not_held hheld
    rw [callback_of_room h.word hfree hroom]
    exact h.clearCh.storeKey ((clearCh_data (by decide)).trans hfree) hroom _
  · rw [callback_of_full h.word hroom]
    exact h.clearCh

/-- Each step of the reader moves the keys the way `pending` says. -/
theorem Good.read (h : Good s) : Good s.getKeyboardKey := by
  have hword : Guarded s.getKeyboardKey := h.word.read fun hr => by
    have hinv := h.reader
    rw [ReaderInv, hr] at hinv
    exact hinv.2
  obtain ⟨h0, h1, hw, hinv, ht, hfifo⟩ := h
  simp only [Keyboard.getKeyboardKey] at hword ⊢
  simp only [ReaderInv] at hinv
  simp only [pending] at hfifo
  cases hr : s.reader with
  | test =>
    simp only [hr] at hword hinv hfifo ⊢
    by_cases hloc : s.keyLoc ≠ 0
    · rw [if_pos hloc] at hword ⊢
      exact ⟨h0, h1, hword, ⟨by change 0 < s.keyLoc; omega, write8_same s.data chAt 0⟩, ht, hfifo⟩
    · rw [if_neg hloc] at hword ⊢
      exact ⟨h0, h1, hword, trivial, ht, hfifo⟩
  | lock =>
    simp only [hr] at hword hinv hfifo ⊢
    rw [hw.lock_acquires hr hinv.2] at hword ⊢
    exact ⟨h0, h1, hword, hinv.1, ht, hfifo⟩
  | take =>
    simp only [hr] at hword hinv hfifo ⊢
    refine ⟨h0, h1, hword, ⟨hinv, le_rfl, h0⟩, touch_bound ht le_rfl (by decide), ?_⟩
    have hmin : min 0 (s.keyLoc - 1) = 0 := by omega
    simp only [pending, Keyboard.touch, hmin]
    rw [slice_of_le (le_refl (0 : Int)), hfifo, slice_cons hinv, List.append_assoc]
    rfl
  | loopTest i =>
    simp only [hr] at hword hinv hfifo ⊢
    by_cases hi : i < s.keyLoc
    · simp only [hi, if_true] at hword ⊢
      exact ⟨h0, h1, hword, ⟨hinv.2.1, hi⟩, ht, hfifo⟩
    · simp only [hi, if_false] at hword ⊢
      refine ⟨h0, h1, hword, hinv.1, ht, ?_⟩
      have hmin : min i (s.keyLoc - 1) = s.keyLoc - 1 := by omega
      rw [hmin, slice_of_le (by omega : s.keyLoc ≤ i + 1), List.append_nil] at hfifo
      exact hfifo
  | load i =>
    simp only [hr] at hword hinv hfifo ⊢
    refine ⟨h0, h1, hword, ⟨hinv.1, hinv.2, rfl⟩, touch_bound ht (by omega) ?_, hfifo⟩
    omega
  | store i v =>
    simp only [hr] at hword hinv hfifo ⊢
    obtain ⟨hi0, hi, rfl⟩ := hinv
    have hlow : 0 < s.keyLoc := by omega
    have hhigh : i + 1 ≤ s.keyLoc := by omega
    refine ⟨h0, h1, hword, ⟨hlow, by omega, hhigh⟩, touch_bound ht hi0 (by omega), ?_⟩
    exact hfifo.trans (congrArg (s.taken ++ ·) (slice_shift hi0 hi).symm)
  | decLoad =>
    simp only [hr] at hword hinv hfifo ⊢
    exact ⟨h0, h1, hword, ⟨hinv, rfl⟩, ht, hfifo⟩
  | decStore v =>
    simp only [hr] at hword hinv hfifo ⊢
    obtain ⟨hloc, hv⟩ := hinv
    exact ⟨by simp only; omega, by simp only; omega, hword, trivial, ht, hfifo⟩
  | unlock =>
    simp only [hr] at hword hinv hfifo ⊢
    exact ⟨h0, h1, hword, trivial, ht, hfifo⟩
  | ret =>
    simp only [hr] at hword hinv hfifo ⊢
    exact ⟨h0, h1, hword, trivial, ht, hfifo⟩

theorem Good.step (h : Good s) (e : KeyEvent) : Good (s.step past e) := by
  cases e with
  | interrupt key => exact h.interrupt key
  | read => exact h.read

end

/-- Index and touched elements are in range, and what was taken is a prefix of what
was stored. The rest stands in `keycache[0..key_loc)`, unless the reader is between
taking the head and storing the new `key_loc`: then it stands where `pending`
says. -/
structure Fifo (s : Keyboard) : Prop where
  loc_range : 0 ≤ s.keyLoc ∧ s.keyLoc ≤ keyCacheSize - 1
  touched_range : ∀ i ∈ s.touched, 0 ≤ i ∧ i < keyCacheSize
  settled : removing s.reader = false → s.stored = s.taken ++ slice s.keycache 0 s.keyLoc
  always : s.stored = s.taken ++ pending s

section

variable (past : Byte) (cache : Int → Byte) (events : Nat → KeyEvent)

theorem after_good (n : Nat) : Good (after past cache events n) := by
  induction n with
  | zero => exact init_good cache
  | succ n ih => exact ih.step (events n)

theorem keys_in_order (n : Nat) : Fifo (after past cache events n) := by
  obtain ⟨h0, h1, -, -, ht, hfifo⟩ := after_good past cache events n
  refine ⟨⟨h0, h1⟩, ht, fun hout => ?_, hfifo⟩
  rw [← pending_of_not_removing hout]
  exact hfifo

end

/-- One key, then the reader. -/
def oneKey : Nat → KeyEvent := fun n => if n = 0 then .interrupt 0x1E else .read

/-- When the head has just been taken it is still the first element below `key_loc`. -/
theorem head_taken_twice :
    (after 0 (fun _ => 0) oneKey 4).taken = [0x61] ∧
    slice (after 0 (fun _ => 0) oneKey 4).keycache 0
      (after 0 (fun _ => 0) oneKey 4).keyLoc = [0x61] ∧
    ¬ ∀ (past : Byte) (cache : Int → Byte) (events : Nat → KeyEvent) (n : Nat),
      (after past cache events n).stored =
        (after past cache events n).taken ++
          slice (after past cache events n).keycache 0
            (after past cache events n).keyLoc := by
  refine ⟨by decide, by decide, fun hall => ?_⟩
  exact absurd (hall 0 (fun _ => 0) oneKey 4) (by decide)

/-- Steps of the reader before it takes a key, if there is one. -/
def distance (keyLoc : Int) : KeyReader → Nat
  | .take => 0
  | .lock => 1
  | .test => 2
  | .ret => 3
  | .unlock => 4
  | .decStore _ => 5
  | .decLoad => 6
  | .loopTest i => 7 + 3 * (keyLoc - i).toNat
  | .load i => 6 + 3 * (keyLoc - i).toNat
  | .store i _ => 5 + 3 * (keyLoc - i).toNat

section

variable {past : Byte} {s : Keyboard}

theorem interrupt_keeps (past : Byte) (h : Good s) (key : U8int) :
    (s.keyboardCallback past key).taken = s.taken ∧
    distance (s.keyboardCallback past key).keyLoc (s.keyboardCallback past key).reader =
      distance s.keyLoc s.reader ∧
    s.stored <+: (s.keyboardCallback past key).stored := by
  by_cases hheld : s.mutex = locked
  · rw [callback_of_held h.word hheld]
    exact ⟨rfl, rfl, List.prefix_rfl⟩
  by_cases hroom : s.keyLoc < keyCacheSize - 1
  · have hfree := h.word.free_of_not_held hheld
    have hout := h.word.not_holding hfree
    rw [callback_of_room h.word hfree hroom]
    refine ⟨rfl, ?_, List.prefix_append ..⟩
    have hreader : ((clearCh s).storeKey (keyboardToAscii past key)).reader = s.reader := rfl
    rw [hreader]
    cases hr : s.reader with
    | test => rfl
    | lock => rfl
    | ret => rfl
    | _ => rw [hr] at hout; cases hout
  · rw [callback_of_full h.word hroom]
    exact ⟨rfl, rfl, List.prefix_rfl⟩

/-- With a key in the buffer each step of the reader takes one or comes closer. -/
theorem read_advances (h : Good s) (hkey : s.taken.length < s.stored.length) :
    s.taken.length + 1 = s.getKeyboardKey.taken.length ∨
    (s.getKeyboardKey.taken = s.taken ∧
      distance s.getKeyboardKey.keyLoc s.getKeyboardKey.reader < distance s.keyLoc s.reader) := by
  have hinv := h.reader
  have hfifo := congrArg List.length h.fifo
  rw [List.length_append] at hfifo
  simp only [ReaderInv] at hinv
  simp only [pending] at hfifo
  simp only [Keyboard.getKeyboardKey]
  cases hr : s.reader with
  | test =>
    simp only [hr, slice_length] at hfifo ⊢
    rw [if_pos (by omega : s.keyLoc ≠ 0)]
    exact .inr ⟨trivial, Nat.lt_succ_self 1⟩
  | lock =>
    simp only [hr] at hinv
    simp only [h.word.lock_acquires hr hinv.2, if_true]
    exact .inr ⟨trivial, Nat.lt_succ_self 0⟩
  | take =>
    refine .inl ?_
    simp only [List.length_append, List.length_singleton]
  | loopTest i =>
    simp only [hr] at hinv ⊢
    refine .inr ⟨trivial, ?_⟩
    split_ifs with hi
    · simp only [distance]
      omega
    · simp only [distance]
      omega
  | load i =>
    refine .inr ⟨rfl, ?_⟩
    simp only [distance, Keyboard.touch]
    omega
  | store i v =>
    simp only [hr] at hinv
    refine .inr ⟨rfl, ?_⟩
    simp only [distance, Keyboard.touch]
    omega
  | decLoad => exact .inr ⟨rfl, Nat.lt_succ_self 5⟩
  | decStore v => exact .inr ⟨rfl, Nat.lt_succ_self 4⟩
  | unlock => exact .inr ⟨rfl, Nat.lt_succ_self 3⟩
  | ret => exact .inr ⟨rfl, Nat.lt_succ_self 2⟩

theorem distance_lt (h : Good s) : distance s.keyLoc s.reader < 1000 := by
  have h1 := h.loc_le
  have hinv := h.reader
  have hsize : keyCacheSize = 256 := rfl
  simp only [ReaderInv] at hinv
  cases hr : s.reader <;> simp only [hr] at hinv <;> simp only [distance] <;> omega

theorem read_stored : s.getKeyboardKey.stored = s.stored := by
  simp only [Keyboard.getKeyboardKey]
  cases s.reader <;> simp only [Keyboard.touch, Keyboard.unlock]

end

section

variable {past : Byte} {cache : Int → Byte} {events : Nat → KeyEvent}

theorem stored_mono {n m : Nat} (h : n ≤ m) :
    (after past cache events n).stored <+:
      (after past cache events m).stored := by
  induction m, h using Nat.le_induction with
  | base => exact List.prefix_rfl
  | succ m hle ih =>
    refine ih.trans ?_
    rw [after]
    cases events m with
    | interrupt key => exact (interrupt_keeps past (after_good past cache events m) key).2.2
    | read => rw [Keyboard.step, read_stored]

/-- Reader steps still needed for `total` keys to be taken. -/
def remaining (total : Nat) (s : Keyboard) : Nat :=
  1000 * (total - s.taken.length) + distance s.keyLoc s.reader

theorem remaining_read {s : Keyboard} (h : Good s) {total : Nat} (htotal : total ≤ s.stored.length)
    (hleft : s.taken.length < total) : remaining total s.getKeyboardKey < remaining total s := by
  have hnext := distance_lt h.read
  rw [remaining, remaining]
  rcases read_advances h (hleft.trans_le htotal) with htake | ⟨hsame, hcloser⟩
  · omega
  · rw [hsame]
    omega

/-- Under a schedule that keeps coming back to the reader every stored key is taken. -/
theorem eventually_taken (past : Byte) (cache : Int → Byte)
    (fair : ∀ n, ∃ m, n ≤ m ∧ events m = .read) (n : Nat) :
    ∃ m, n ≤ m ∧ (after past cache events n).stored.length ≤
      (after past cache events m).taken.length := by
  have hgood := after_good past cache events
  set state := after past cache events with hstate
  have hleft : ∀ k, ¬ (n ≤ k → (state n).stored.length ≤ (state k).taken.length) →
      (state n).stored.length ≤ (state k).stored.length ∧
      (state k).taken.length < (state n).stored.length := by
    intro k hk
    obtain ⟨hle, hlt⟩ := Classical.not_imp.mp hk
    exact ⟨(stored_mono hle).length_le, Nat.lt_of_not_le hlt⟩
  have hread : ∀ k, events k = .read →
      ¬ (n ≤ k → (state n).stored.length ≤ (state k).taken.length) →
      remaining (state n).stored.length (state (k+1)) <
          remaining (state n).stored.length (state k) := by
    intro k hk hnot
    obtain ⟨htotal, hlt⟩ := hleft k hnot
    have hnext : state (k+1) = (state k).getKeyboardKey := congrArg ((state k).step past) hk
    rw [hnext]
    exact remaining_read (hgood k) htotal hlt
  have hkeeps : ∀ k, ¬ (n ≤ k → (state n).stored.length ≤ (state k).taken.length) →
      remaining (state n).stored.length (state (k+1)) ≤
          remaining (state n).stored.length (state k) := by
    intro k hnot
    cases hk : events k with
    | read => exact (hread k hk hnot).le
    | interrupt key =>
      have hnext : state (k+1) = (state k).keyboardCallback past key :=
        congrArg ((state k).step past) hk
      obtain ⟨htaken, hdistance, -⟩ := interrupt_keeps past (hgood k) key
      rw [hnext, remaining, remaining, htaken, hdistance]
  obtain ⟨m, hm, hgoal⟩ := Fairness.eventually_goal
    (fun k => remaining (state n).stored.length (state k))
    (fun k => n ≤ k → (state n).stored.length ≤ (state k).taken.length) fair hkeeps hread n
  exact ⟨m, hm, hgoal hm⟩

/-- An interrupt that finds room and the mutex free reads the port once, and its key
is taken; one that finds the mutex held reads nothing and stores nothing. Either way
`ch` is zero afterwards, also when the reader was about to return it. -/
theorem key_taken_unless_held (fair : ∀ n, ∃ m, n ≤ m ∧ events m = .read) {n : Nat} {key : U8int}
    (hkey : events n = .interrupt key) :
    ((after past cache events n).mutex = unlocked →
      (after past cache events n).keyLoc < keyCacheSize - 1 →
      (after past cache events (n+1)).portReads =
        (after past cache events n).portReads + 1 ∧
      ∃ m, (after past cache events m).taken[
        (after past cache events n).stored.length]? =
          some (keyboardToAscii past key)) ∧
    ((after past cache events n).mutex = locked →
      after past cache events (n+1) = clearCh (after past cache events n)) ∧
    (after past cache events (n+1)).ch = 0 := by
  set state := after past cache events with hstate
  have hword := (after_good past cache events n).word
  have hnext : state (n+1) = (state n).keyboardCallback past key :=
    congrArg ((state n).step past) hkey
  refine ⟨fun hfree hroom => ?_, fun hheld => hnext.trans (callback_of_held hword hheld), ?_⟩
  · rw [callback_of_room hword hfree hroom] at hnext
    refine ⟨congrArg Keyboard.portReads hnext, ?_⟩
    have hstored : (state (n+1)).stored = (state n).stored ++ [keyboardToAscii past key] :=
      congrArg Keyboard.stored hnext
    obtain ⟨m, hm, htaken⟩ := eventually_taken past cache fair (n+1)
    rw [← hstate, hstored, List.length_append, List.length_singleton] at htaken
    have hfifo : (state m).stored = (state m).taken ++ pending (state m) :=
      (after_good past cache events m).fifo
    obtain ⟨later, hlater⟩ : (state (n+1)).stored <+: (state m).stored := stored_mono hm
    refine ⟨m, ?_⟩
    calc (state m).taken[(state n).stored.length]?
        = (state m).stored[(state n).stored.length]? := by
          rw [hfifo, List.getElem?_append_left (by omega)]
      _ = some (keyboardToAscii past key) := by
          rw [← hlater, hstored, List.append_assoc, List.getElem?_append_right le_rfl, Nat.sub_self]
          rfl
  · rw [hnext]
    exact callback_ch hword key

end

theorem oneKey_fair (n : Nat) : ∃ m, n ≤ m ∧ oneKey m = .read :=
  ⟨n + 1, Nat.le_succ n, if_neg (Nat.succ_ne_zero n)⟩

theorem key_taken_oneKey : (after 0 (fun _ => 0) oneKey 1).portReads = 0 + 1 ∧
    ∃ m, (after 0 (fun _ => 0) oneKey m).taken[0]? = some (keyboardToAscii 0 0x1E) :=
  (key_taken_unless_held (n := 0) oneKey_fair rfl).1 rfl (by decide)

/-- A second key that comes in while the reader shifts. -/
def keyInShift : Nat → KeyEvent := fun n =>
  if n = 0 then .interrupt 0x1E else if n = 5 then .interrupt 0x1F else .read

theorem keyInShift_fair (n : Nat) : ∃ m, n ≤ m ∧ keyInShift m = .read := by
  refine ⟨n + 6, by omega, ?_⟩
  rw [keyInShift, if_neg (by omega), if_neg (by omega)]

/-- The second key is not read, and the first is returned as zero. -/
theorem keyInShift_lost :
    (after 0 (fun _ => 0) keyInShift 5).keyLoc = 1 ∧
    (after 0 (fun _ => 0) keyInShift 6).portReads = 1 ∧
    (after 0 (fun _ => 0) keyInShift 13).taken = [0x61] ∧
    (after 0 (fun _ => 0) keyInShift 13).returned = [0] ∧
    ¬ ∀ (past : Byte) (cache : Int → Byte) (events : Nat → KeyEvent),
      (∀ n, ∃ m, n ≤ m ∧ events m = .read) → ∀ n key, events n = .interrupt key →
        (after past cache events n).keyLoc < keyCacheSize - 1 →
        (after past cache events (n+1)).portReads =
          (after past cache events n).portReads + 1 := by
  refine ⟨by decide, by decide, by decide, by decide, fun hall => ?_⟩
  have h := hall 0 (fun _ => 0) keyInShift keyInShift_fair 5 0x1F rfl (by decide)
  exact absurd h (by decide)

end SimpleOs.Audit.KeyBuffer
