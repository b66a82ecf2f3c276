import Matanos.Lib.Run

/-!
The text screen of `drivers/screen.c`.

Offsets are C's `int`, and division truncates. Memory is addressed from the start of video memory,
and the offsets of the bytes written are kept in a log.

* `Vga`: memory around the video memory and the two cursor registers of the controller;
* `printChar`, `kprintAt`, `kprint`, `kprintBackspace`, `clearScreen`: the functions, with the
  scrolling of `print_char` byte by byte;
* `scroll_mem`: scrolling moves each row up and blanks the last;
* `printChar_spec`: a character printed on the screen leaves the cursor on it;
* `screen_kept_iff`: over any sequence of calls the cursor stays on the screen exactly when
  `kprint_backspace` is not called with the cursor at the first cell.
-/

namespace Matanos

open Lib

/-- Memory from `VIDEO_ADDRESS` on, the cursor registers 14 and 15, and the offsets written. -/
structure Vga where
  mem : ℤ → UInt8
  high : UInt8
  low : UInt8
  log : List ℤ

/-- A C string: the bytes in front of its terminating NUL. -/
structure CString where
  bytes : List UInt8
  nonzero : ∀ c ∈ bytes, c ≠ 0

/-- The concatenation of two strings. -/
def CString.append (a b : CString) : CString where
  bytes := a.bytes ++ b.bytes
  nonzero c hc := (List.mem_append.mp hc).elim (a.nonzero c) (b.nonzero c)

/-- The string in an array of bytes. -/
def CString.ofBytes (l : List UInt8) : CString where
  bytes := l.takeWhile (· ≠ 0)
  nonzero c hc := by
    have hne := List.all_eq_true.mp (List.all_takeWhile (p := (· ≠ 0)) (l := l)) c hc
    simpa using hne

/-- A string with its NUL in an array. -/
lemma CString.ofBytes_bytes (a : CString) : CString.ofBytes (a.bytes ++ [0]) = a := by
  obtain ⟨bytes, nonzero⟩ := a
  have hbytes : (bytes ++ [0]).takeWhile (· ≠ 0) = bytes := by
    rw [List.takeWhile_append_of_pos fun c hc => decide_eq_true (nonzero c hc)]
    simp
  simp only [CString.ofBytes, hbytes]

/-- `WHITE_ON_BLACK`. -/
def whiteOnBlack : UInt8 := 0x0f

/-- `RED_ON_WHITE`. -/
def redOnWhite : UInt8 := 0xf4

/-- `get_offset`. -/
def getOffset (col row : ℤ) : ℤ := 2 * (row * 80 + col)

/-- `get_offset_row`. -/
def getOffsetRow (offset : ℤ) : ℤ := offset.tdiv (2 * 80)

/-- `get_offset_col`. -/
def getOffsetCol (offset : ℤ) : ℤ := (offset - getOffsetRow offset * 2 * 80).tdiv 2

/-- The conversion of an `int` to `unsigned char`. -/
def toUnsignedChar (n : ℤ) : UInt8 := UInt8.ofNat (n % 256).toNat

namespace Vga

/-- The position in the cursor registers. -/
def position (s : Vga) : ℕ := s.high.toNat * 256 + s.low.toNat

/-- `get_cursor_offset`. -/
def getCursorOffset (s : Vga) : ℤ := ((s.high.toNat : ℤ) * 2 ^ 8 + s.low.toNat) * 2

/-- `set_cursor_offset`. -/
def setCursorOffset (s : Vga) (offset : ℤ) : Vga :=
  let offset := offset.tdiv 2
  { s with high := toUnsignedChar (offset / 2 ^ 8), low := toUnsignedChar offset }

/-- The assignment of a byte of video memory. -/
def store (s : Vga) (offset : ℤ) (v : UInt8) : Vga :=
  { s with mem := Function.update s.mem offset v, log := offset :: s.log }

/-- The first `n` turns of the loop of `memcpy`. -/
def memcpy (source dest : ℤ) : ℕ → Vga → Vga
  | 0, s => s
  | n + 1, s =>
      let s := memcpy source dest n s
      s.store (dest + n) (s.mem (source + n))

/-- The copies of the rows 1 to `n` when `print_char` scrolls. -/
def copyRows : ℕ → Vga → Vga
  | 0, s => s
  | n + 1, s => memcpy (getOffset 0 (n + 1)) (getOffset 0 n) (80 * 2) (copyRows n s)

/-- The first `n` turns of the loop that blanks the last line. -/
def blankLine (lastLine : ℤ) : ℕ → Vga → Vga
  | 0, s => s
  | n + 1, s => (blankLine lastLine n s).store (lastLine + n) 0

/-- The scrolling of `print_char`. -/
def scroll (s : Vga) : Vga := blankLine (getOffset 0 24) (80 * 2) (copyRows 24 s)

/-- `print_char`, with the offset it returns. -/
def printChar (c : UInt8) (col row : ℤ) (attr : UInt8) (s : Vga) : ℤ × Vga :=
  let attr := if attr = 0 then whiteOnBlack else attr
  if col ≥ 80 ∨ row ≥ 25 then
    (getOffset col row, (s.store (2 * 80 * 25 - 2) 69).store (2 * 80 * 25 - 1) redOnWhite)
  else
    let offset := if col ≥ 0 ∧ row ≥ 0 then getOffset col row else s.getCursorOffset
    let (offset, s) :=
      if c = 10 then (getOffset 0 (getOffsetRow offset + 1), s)
      else (offset + 2, (s.store offset c).store (offset + 1) attr)
    let (offset, s) := if offset ≥ 25 * 80 * 2 then (offset - 2 * 80, s.scroll) else (offset, s)
    (offset, s.setCursorOffset offset)

/-- The loop of `kprint_at`. -/
def printAll : List UInt8 → ℤ → ℤ → Vga → Vga
  | [], _, _, s => s
  | c :: cs, col, row, s =>
      let (offset, s) := s.printChar c col row whiteOnBlack
      printAll cs (getOffsetCol offset) (getOffsetRow offset) s

/-- `kprint_at`. -/
def kprintAt (message : CString) (col row : ℤ) (s : Vga) : Vga :=
  if col ≥ 0 ∧ row ≥ 0 then s.printAll message.bytes col row
  else
    let offset := s.getCursorOffset
    s.printAll message.bytes (getOffsetCol offset) (getOffsetRow offset)

/-- `kprint`. -/
def kprint (message : CString) (s : Vga) : Vga := s.kprintAt message (-1) (-1)

/-- `kprint_backspace`. -/
def kprintBackspace (s : Vga) : Vga :=
  let offset := s.getCursorOffset - 2
  let row := getOffsetRow offset
  let col := getOffsetCol offset
  let (_, s) := s.printChar 32 col row whiteOnBlack
  if col > 1 ∨ s.mem (getOffset 0 row) ≠ 62 then s.setCursorOffset offset else s

/-- The first `n` turns of the loop of `clear_screen`. -/
def clearCells : ℕ → Vga → Vga
  | 0, s => s
  | n + 1, s =>
      let s := (clearCells n s).store (n * 2) 32
      s.store (n * 2 + 1) whiteOnBlack

/-- `clear_screen`. -/
def clearScreen (s : Vga) : Vga := (clearCells (80 * 25) s).setCursorOffset (getOffset 0 0)

end Vga

/-! ### Offsets -/

section Offsets

variable {p r c : ℕ}

lemma getOffset_eq : getOffset c r = 2 * ((80 * r + c : ℕ) : ℤ) := by
  simp only [getOffset]
  push_cast
  ring

/-- The row of an offset on or behind the screen. -/
lemma getOffsetRow_eq : getOffsetRow (2 * (p : ℤ)) = (p / 80 : ℕ) := by
  rw [getOffsetRow, Int.tdiv_eq_ediv_of_nonneg (by omega)]
  omega

lemma getOffsetCol_eq : getOffsetCol (2 * (p : ℤ)) = (p % 80 : ℕ) := by
  rw [getOffsetCol, getOffsetRow_eq, Int.tdiv_eq_ediv_of_nonneg (by omega)]
  omega

lemma toNat_toUnsignedChar {n : ℤ} : (toUnsignedChar n).toNat = (n % 256).toNat := by
  rw [toUnsignedChar, UInt8.toNat_ofNat']
  omega

end Offsets

namespace Vga

variable {s s' : Vga} {p : ℕ}

lemma getCursorOffset_eq (s : Vga) : s.getCursorOffset = 2 * (s.position : ℤ) := by
  simp only [getCursorOffset, position]
  push_cast
  ring

/-- **The cursor registers hold the position that was set**, up to `2 ^ 16`. -/
lemma position_setCursorOffset (hp : p < 2 ^ 16) :
    (s.setCursorOffset (2 * (p : ℤ))).position = p := by
  have hhalf : (2 * (p : ℤ)).tdiv 2 = p := by
    rw [Int.tdiv_eq_ediv_of_nonneg (by omega)]
    omega
  simp only [position, setCursorOffset, hhalf]
  rw [toNat_toUnsignedChar, toNat_toUnsignedChar]
  omega

/-- The offset in front of the screen wraps both registers. -/
lemma position_setCursorOffset_neg : (s.setCursorOffset (0 - 2)).position = 65535 := by
  have hhigh : (toUnsignedChar ((0 - 2 : ℤ).tdiv 2 / 2 ^ 8)).toNat = 255 := by decide
  have hlow : (toUnsignedChar ((0 - 2 : ℤ).tdiv 2)).toNat = 255 := by decide
  simp only [position, setCursorOffset, hhigh, hlow]

@[simp] lemma mem_setCursorOffset (s : Vga) (o : ℤ) : (s.setCursorOffset o).mem = s.mem := rfl

@[simp] lemma log_setCursorOffset (s : Vga) (o : ℤ) : (s.setCursorOffset o).log = s.log := rfl

@[simp] lemma mem_store (s : Vga) (o : ℤ) (v : UInt8) :
    (s.store o v).mem = Function.update s.mem o v := rfl

@[simp] lemma log_store (s : Vga) (o : ℤ) (v : UInt8) : (s.store o v).log = o :: s.log := rfl

@[simp] lemma position_store (s : Vga) (o : ℤ) (v : UInt8) : (s.store o v).position = s.position :=
  rfl

/-! ### Scrolling -/

lemma memcpy_mem {source dest : ℤ} {n : ℕ} (h : dest + n ≤ source) (x : ℤ) :
    (memcpy source dest n s).mem x =
      if dest ≤ x ∧ x < dest + n then s.mem (x - dest + source) else s.mem x := by
  induction n generalizing x with
  | zero => rw [memcpy, if_neg (by push_cast; omega)]
  | succ n ih =>
      have hn := ih (by push_cast at h; omega)
      rw [memcpy, mem_store]
      by_cases hx : x = dest + n
      · rw [hx, Function.update_self, hn, if_neg (by omega), if_pos (by push_cast; omega)]
        congr 1
        omega
      · rw [Function.update_of_ne hx, hn]
        by_cases hin : dest ≤ x ∧ x < dest + n
        · rw [if_pos hin, if_pos (by push_cast; omega)]
        · rw [if_neg hin, if_neg (by push_cast; omega)]

lemma copyRows_mem {n : ℕ} (x : ℤ) :
    (copyRows n s).mem x = if 0 ≤ x ∧ x < 160 * n then s.mem (x + 160) else s.mem x := by
  induction n generalizing x with
  | zero => rw [copyRows, if_neg (by push_cast; omega)]
  | succ n ih =>
      have hdest : getOffset 0 n = 160 * n := by
        simp only [getOffset]
        ring
      have hsource : getOffset 0 (n + 1) = 160 * n + 160 := by
        simp only [getOffset]
        ring
      rw [copyRows, hdest, hsource, memcpy_mem (by push_cast; omega)]
      by_cases hrow : 160 * (n : ℤ) ≤ x ∧ x < 160 * n + 160
      · rw [if_pos (by push_cast; omega), ih, if_neg (by omega), if_pos (by push_cast; omega)]
        congr 1
        omega
      · rw [if_neg (by push_cast; omega), ih]
        by_cases hin : 0 ≤ x ∧ x < 160 * (n : ℤ)
        · rw [if_pos hin, if_pos (by push_cast; omega)]
        · rw [if_neg hin, if_neg (by push_cast; omega)]

lemma blankLine_mem {line : ℤ} {n : ℕ} (x : ℤ) :
    (blankLine line n s).mem x = if line ≤ x ∧ x < line + n then 0 else s.mem x := by
  induction n generalizing x with
  | zero => rw [blankLine, if_neg (by push_cast; omega)]
  | succ n ih =>
      rw [blankLine, mem_store]
      by_cases hx : x = line + n
      · rw [hx, Function.update_self, if_pos (by push_cast; omega)]
      · rw [Function.update_of_ne hx, ih]
        by_cases hin : line ≤ x ∧ x < line + n
        · rw [if_pos hin, if_pos (by push_cast; omega)]
        · rw [if_neg hin, if_neg (by push_cast; omega)]

/-- **Scrolling** moves every row up by one and blanks the last. -/
lemma scroll_mem (x : ℤ) : s.scroll.mem x =
    if 0 ≤ x ∧ x < 3840 then s.mem (x + 160)
    else if 3840 ≤ x ∧ x < 4000 then 0 else s.mem x := by
  have hline : getOffset 0 24 = 3840 := by decide
  rw [scroll, hline, blankLine_mem, copyRows_mem]
  by_cases h1 : 0 ≤ x ∧ x < 3840
  · rw [if_neg (by omega), if_pos (by omega), if_pos h1]
  · rw [if_neg h1]
    by_cases h2 : 3840 ≤ x ∧ x < 4000
    · rw [if_pos (by omega), if_pos h2]
    · rw [if_neg (by omega), if_neg (by omega), if_neg h2]

/-! ### What is written -/

/-- Every byte was written to the screen. -/
def Inside (s : Vga) : Prop := ∀ o ∈ s.log, 0 ≤ o ∧ o < 4000

lemma Inside.setCursorOffset (h : s.Inside) (o : ℤ) : (s.setCursorOffset o).Inside := h

lemma Inside.store (h : s.Inside) {o : ℤ} (ho : 0 ≤ o ∧ o < 4000) (v : UInt8) :
    (s.store o v).Inside := by
  intro x hx
  rcases List.mem_cons.mp hx with rfl | hx
  · exact ho
  · exact h x hx

lemma Inside.memcpy (h : s.Inside) {source dest : ℤ} {n : ℕ} (h0 : 0 ≤ dest)
    (hn : dest + n ≤ 4000) : (memcpy source dest n s).Inside := by
  induction n with
  | zero => exact h
  | succ n ih => exact (ih (by push_cast at hn; omega)).store (by push_cast at hn; omega) _

lemma Inside.copyRows (h : s.Inside) {n : ℕ} (hn : n ≤ 24) : (copyRows n s).Inside := by
  induction n with
  | zero => exact h
  | succ n ih =>
      have hdest : getOffset 0 n = 160 * n := by
        simp only [getOffset]
        ring
      exact (ih (by omega)).memcpy (by omega) (by push_cast; omega)

lemma Inside.blankLine (h : s.Inside) {line : ℤ} {n : ℕ} (h0 : 0 ≤ line) (hn : line + n ≤ 4000) :
    (blankLine line n s).Inside := by
  induction n with
  | zero => exact h
  | succ n ih => exact (ih (by push_cast at hn; omega)).store (by push_cast at hn; omega) _

lemma Inside.scroll (h : s.Inside) : s.scroll.Inside :=
  (h.copyRows le_rfl).blankLine (by decide) (by decide)

lemma Inside.clearCells (h : s.Inside) {n : ℕ} (hn : n ≤ 2000) : (clearCells n s).Inside := by
  induction n with
  | zero => exact h
  | succ n ih =>
      have hfirst := (ih (by omega)).store (o := n * 2) (by omega) 32
      exact hfirst.store (by omega) _

/-! ### Characters on the screen -/

/-- The position behind a character printed at `p`, before the screen is scrolled. -/
def next (c : UInt8) (p : ℕ) : ℕ := if c = 10 then (p / 80 + 1) * 80 else p + 1

/-- The position where the cursor is left. -/
def landing (c : UInt8) (p : ℕ) : ℕ := if 2000 ≤ next c p then next c p - 80 else next c p

/-- The screen with the character at `p`, scrolled if it was the last place. -/
def drawn (c : UInt8) (p : ℕ) (s : Vga) : Vga :=
  let s := if c = 10 then s else (s.store (2 * p) c).store (2 * p + 1) whiteOnBlack
  if 2000 ≤ next c p then s.scroll else s

lemma landing_lt {c : UInt8} (hp : p < 2000) : landing c p < 2000 := by
  simp only [landing, next]
  split_ifs <;> omega

/-- **A character printed on the screen**: it is drawn, and the cursor is left where it lands. -/
lemma printChar_spec (c : UInt8) (hp : p < 2000) :
    s.printChar c (p % 80 : ℕ) (p / 80 : ℕ) whiteOnBlack =
      (2 * (landing c p : ℤ), (s.drawn c p).setCursorOffset (2 * (landing c p : ℤ))) := by
  have hattr : (if whiteOnBlack = 0 then whiteOnBlack else whiteOnBlack) = whiteOnBlack := by decide
  have hoffset : getOffset (p % 80 : ℕ) (p / 80 : ℕ) = 2 * (p : ℤ) := by
    rw [getOffset_eq]
    omega
  have hline : getOffset 0 (getOffsetRow (2 * (p : ℤ)) + 1) = 2 * (((p / 80 + 1) * 80 : ℕ) : ℤ) := by
    rw [getOffsetRow_eq]
    simp only [getOffset]
    push_cast
    ring
  have hplace : (if c = 10 then (getOffset 0 (getOffsetRow (2 * (p : ℤ)) + 1), s)
      else (2 * (p : ℤ) + 2, (s.store (2 * p) c).store (2 * p + 1) whiteOnBlack)) =
      (2 * (next c p : ℤ),
        if c = 10 then s else (s.store (2 * p) c).store (2 * p + 1) whiteOnBlack) := by
    by_cases hc : c = 10
    · rw [if_pos hc, if_pos hc, hline, next, if_pos hc]
    · rw [if_neg hc, if_neg hc, next, if_neg hc]
      push_cast
      ring_nf
  have hscroll : (2 * (next c p : ℤ) ≥ 25 * 80 * 2) ↔ 2000 ≤ next c p := by omega
  have hrange : ¬ (((p % 80 : ℕ) : ℤ) ≥ 80 ∨ ((p / 80 : ℕ) : ℤ) ≥ 25) := by omega
  have hon : ((p % 80 : ℕ) : ℤ) ≥ 0 ∧ ((p / 80 : ℕ) : ℤ) ≥ 0 := by omega
  simp only [printChar, hattr, if_neg hrange, if_pos hon, hoffset, hplace, hscroll, drawn, landing]
  by_cases hover : 2000 ≤ next c p
  · have hback : 2 * (next c p : ℤ) - 2 * 80 = 2 * ((next c p - 80 : ℕ) : ℤ) := by omega
    simp only [hover, if_true, hback]
  · simp only [hover, if_false]

lemma Inside.drawn (h : s.Inside) (c : UInt8) (hp : p < 2000) : (s.drawn c p).Inside := by
  have hput : (if c = 10 then s else (s.store (2 * p) c).store (2 * p + 1) whiteOnBlack).Inside := by
    split_ifs
    · exact h
    · exact (h.store (by omega) _).store (by omega) _
  simp only [Vga.drawn]
  split_ifs
  · exact Inside.scroll (by simpa only [if_pos ‹c = 10›] using hput)
  · exact Inside.scroll (by simpa only [if_neg ‹¬c = 10›] using hput)
  · simpa only [if_pos ‹c = 10›] using hput
  · simpa only [if_neg ‹¬c = 10›] using hput

/-- The cursor is on the screen, and so is every byte written. -/
structure OnScreen (s : Vga) : Prop where
  cursor : s.position < 80 * 25
  inside : s.Inside

/-- The loop of `kprint_at` leaves the cursor on the screen. -/
lemma printAll_cursor (h : s.position < 80 * 25) (cs : List UInt8) (hp : p < 2000) :
    (s.printAll cs (p % 80 : ℕ) (p / 80 : ℕ)).position < 80 * 25 := by
  induction cs generalizing s p with
  | nil => exact h
  | cons c cs ih =>
      have hland := landing_lt (c := c) hp
      rw [printAll, printChar_spec c hp]
      simp only
      rw [getOffsetCol_eq, getOffsetRow_eq]
      refine ih ?_ hland
      rw [position_setCursorOffset (by omega)]
      exact hland

/-- The loop of `kprint_at` writes to the screen. -/
lemma Inside.printAll (h : s.Inside) (cs : List UInt8) (hp : p < 2000) :
    (s.printAll cs (p % 80 : ℕ) (p / 80 : ℕ)).Inside := by
  induction cs generalizing s p with
  | nil => exact h
  | cons c cs ih =>
      rw [Vga.printAll, printChar_spec c hp]
      simp only
      rw [getOffsetCol_eq, getOffsetRow_eq]
      exact ih ((h.drawn c hp).setCursorOffset _) (landing_lt hp)

lemma printAll_onScreen (h : s.OnScreen) (cs : List UInt8) (hp : p < 2000) :
    (s.printAll cs (p % 80 : ℕ) (p / 80 : ℕ)).OnScreen :=
  ⟨printAll_cursor h.cursor cs hp, h.inside.printAll cs hp⟩

/-- A call of the driver. -/
inductive Call where
  | kprint (message : CString)
  | kprintAt (message : CString) (col row : ℤ)
  | kprintBackspace
  | clearScreen

/-- The screen after a call. -/
def call (s : Vga) : Call → Option Vga
  | .kprint message => some (s.kprint message)
  | .kprintAt message col row => some (s.kprintAt message col row)
  | .kprintBackspace => some s.kprintBackspace
  | .clearScreen => some s.clearScreen

/-- The coordinates given to `kprint_at` are on the screen. -/
def Call.InRange : Call → Prop
  | .kprintAt _ col row => 0 ≤ col ∧ col < 80 ∧ 0 ≤ row ∧ row < 25
  | _ => True

lemma kprint_eq (message : CString) : s.kprint message =
    s.printAll message.bytes (s.position % 80 : ℕ) (s.position / 80 : ℕ) := by
  rw [kprint, kprintAt, if_neg (by omega)]
  simp only [getCursorOffset_eq, getOffsetCol_eq, getOffsetRow_eq]

lemma kprintAt_onScreen (h : s.OnScreen) (message : CString) {col row : ℤ}
    (hr : (Call.kprintAt message col row).InRange) : (s.kprintAt message col row).OnScreen := by
  obtain ⟨h1, h2, h3, h4⟩ := hr
  obtain ⟨c, rfl⟩ := Int.eq_ofNat_of_zero_le h1
  obtain ⟨r, rfl⟩ := Int.eq_ofNat_of_zero_le h3
  have hc : ((80 * r + c) % 80 : ℕ) = c := by omega
  have hr : ((80 * r + c) / 80 : ℕ) = r := by omega
  have hall := printAll_onScreen h message.bytes (p := 80 * r + c) (by omega)
  rw [hc, hr] at hall
  rw [kprintAt, if_pos ⟨h1, h3⟩]
  exact hall

lemma clearScreen_onScreen (h : s.OnScreen) : s.clearScreen.OnScreen := by
  rw [clearScreen, show getOffset 0 0 = 2 * ((0 : ℕ) : ℤ) by decide]
  refine ⟨?_, (h.inside.clearCells (by norm_num)).setCursorOffset _⟩
  rw [position_setCursorOffset (by norm_num)]
  norm_num

/-- A backspace behind the first cell goes back to the cell before. -/
lemma kprintBackspace_onScreen (h : s.OnScreen) (h0 : s.position ≠ 0) :
    s.kprintBackspace.OnScreen := by
  have hcursor := h.cursor
  obtain ⟨p, hp⟩ : ∃ p, s.position = p + 1 := ⟨s.position - 1, by omega⟩
  have hoffset : s.getCursorOffset - 2 = 2 * (p : ℤ) := by
    rw [getCursorOffset_eq, hp]
    push_cast
    ring
  have hland : landing 32 p < 2000 := landing_lt (by omega)
  simp only [kprintBackspace, hoffset]
  rw [getOffsetCol_eq, getOffsetRow_eq, printChar_spec 32 (by omega)]
  simp only
  split_ifs
  · refine ⟨?_, h.inside.drawn 32 (by omega)⟩
    rw [position_setCursorOffset (by omega)]
    omega
  · refine ⟨?_, h.inside.drawn 32 (by omega)⟩
    rw [position_setCursorOffset (by omega)]
    exact hland

/-- **A backspace at the first cell** sets both cursor registers to `0xFF`. -/
lemma kprintBackspace_first (h0 : s.position = 0) : s.kprintBackspace.position = 65535 := by
  have hcursor : s.getCursorOffset = 0 := by
    rw [getCursorOffset_eq, h0]
    rfl
  have hrow : getOffsetRow (0 - 2) = 0 := by decide
  have hcol : getOffsetCol (0 - 2) = -1 := by decide
  have hmem : (s.printChar 32 (-1) 0 whiteOnBlack).2.mem 0 = 32 := by
    simp [printChar, hcursor]
  have hzero : getOffset 0 0 = 0 := by decide
  have hother : (s.printChar 32 (-1) 0 whiteOnBlack).2.mem 0 ≠ 62 := by
    rw [hmem]
    decide
  simp only [kprintBackspace, hcursor, hrow, hcol, hzero]
  rw [if_pos (Or.inr hother)]
  exact position_setCursorOffset_neg

/-- A call keeps the screen exactly when it is not a backspace at the first cell. -/
lemma call_onScreen_iff {a : Call} (h : s.OnScreen) (hr : a.InRange) :
    (∀ s', s.call a = some s' → s'.OnScreen) ↔ (a = .kprintBackspace → s.position ≠ 0) := by
  cases a with
  | kprint message =>
      refine ⟨fun _ h => absurd h (by simp), fun _ s' hs' => ?_⟩
      cases hs'
      rw [kprint_eq]
      exact printAll_onScreen h _ h.cursor
  | kprintAt message col row =>
      refine ⟨fun _ h => absurd h (by simp), fun _ s' hs' => ?_⟩
      cases hs'
      exact kprintAt_onScreen h message hr
  | kprintBackspace =>
      constructor
      · intro hall _ h0
        have hlt := (hall _ rfl).cursor
        rw [kprintBackspace_first h0] at hlt
        exact absurd hlt (by norm_num)
      · intro h0 s' hs'
        cases hs'
        exact kprintBackspace_onScreen h (h0 rfl)
  | clearScreen =>
      refine ⟨fun _ h => absurd h (by simp), fun _ s' hs' => ?_⟩
      cases hs'
      exact clearScreen_onScreen h

/-- **Over every sequence of calls the cursor and the bytes written stay on the screen, exactly
when no backspace is printed with the cursor at the first cell.** -/
theorem screen_kept_iff {as : List Call} (hs : s.position < 80 * 25) (hlog : s.log = [])
    (has : Along call (fun _ a => a.InRange) s as) :
    Along call (fun s a => ∀ s', s.call a = some s' → s'.OnScreen) s as ↔
      Along call (fun s a => a = .kprintBackspace → s.position ≠ 0) s as := by
  have hstart : s.OnScreen := ⟨hs, by rw [Inside, hlog]; simp⟩
  have hiff : ∀ (s : Vga) (a : Call), s.OnScreen → a.InRange →
      ((∀ s', s.call a = some s' → s'.OnScreen) ↔ (a = .kprintBackspace → s.position ≠ 0)) :=
    fun s a h hr => call_onScreen_iff h hr
  have hkeep : ∀ (s : Vga) (a : Call) (s' : Vga), s.OnScreen → a.InRange →
      (∀ s', s.call a = some s' → s'.OnScreen) → s.call a = some s' → s'.OnScreen :=
    fun s a s' _ _ hok hstep => hok s' hstep
  exact along_iff hiff hkeep hstart has

/-- A blank screen with the cursor at the first cell. -/
def blank : Vga := ⟨fun _ => 0, 0, 0, []⟩

/-- A newline from the first cell. -/
lemma blank_newline : (blank.kprint ⟨[10], by simp⟩).position = 80 := by
  rw [kprint_eq, printAll, printChar_spec 10 (by decide)]
  exact position_setCursorOffset (by decide)

theorem screen_kept_iff_newline_backspace :
    Along call (fun s a => ∀ s', s.call a = some s' → s'.OnScreen) blank
      [.kprint ⟨[10], by simp⟩, .kprintBackspace] := by
  have hrange : Along call (fun _ a => a.InRange) blank
      [.kprint ⟨[10], by simp⟩, .kprintBackspace] :=
    ⟨trivial, fun _ _ => ⟨trivial, fun _ _ => trivial⟩⟩
  refine (screen_kept_iff (by decide) rfl hrange).mpr
    ⟨fun h => absurd h (by simp), fun s' hs' => ⟨fun _ => ?_, fun _ _ => trivial⟩⟩
  rw [← Option.some.inj hs', blank_newline]
  norm_num

/-- With the cursor at the first cell a backspace sends it off the screen. -/
theorem backspace_leaves_screen : blank.position < 80 * 25 ∧
    ¬ Along call (fun s a => ∀ s', s.call a = some s' → s'.OnScreen) blank [.kprintBackspace] := by
  refine ⟨by decide, fun h => ?_⟩
  have hlt := (h.1 _ rfl).cursor
  rw [kprintBackspace_first (by decide)] at hlt
  exact absurd hlt (by norm_num)

end Vga

end Matanos
