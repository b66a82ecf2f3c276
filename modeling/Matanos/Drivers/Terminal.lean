import Matanos.Drivers.Screen

/-!
The screen as a terminal: what `kprint` is for.

* `Terminal`: 25 rows of 80 cells and a cursor; `Terminal.put`, `Terminal.puts`: one character,
  and a text;
* `Vga.terminal`: the terminal that the screen shows;
* `drawn_terminal`, `printAll_terminal`: a character drawn at the cursor is `put`, and the loop over a
  text is `puts`;
* `kprint_refines`: `kprint` is `puts`, and so prints a text in parts.
-/

namespace Matanos

/-- The cells of the screen, each with a character and its attribute, and the cursor. -/
@[ext] structure Terminal where
  cell : ℕ → ℕ → UInt8 × UInt8
  row : ℕ
  col : ℕ

namespace Terminal

/-- Every row moves up by one, the last becomes blank, and the cursor moves up. -/
def scroll (t : Terminal) : Terminal where
  cell r c := if r < 24 then t.cell (r + 1) c else (0, 0)
  row := t.row - 1
  col := t.col

/-- The cell at the cursor gets the character. -/
def write (t : Terminal) (c : UInt8) : Terminal :=
  { t with cell := Function.update t.cell t.row (Function.update (t.cell t.row) t.col (c, 0x0f)) }

/-- The cursor goes to the next row. -/
def newline (t : Terminal) : Terminal := { t with row := t.row + 1, col := 0 }

/-- The cursor goes to the next cell. -/
def advance (t : Terminal) : Terminal :=
  if t.col + 1 = 80 then t.newline else { t with col := t.col + 1 }

/-- One character. -/
def put (t : Terminal) (c : UInt8) : Terminal :=
  let t := if c = 10 then t.newline else (t.write c).advance
  if t.row = 25 then t.scroll else t

/-- A text. -/
def puts (t : Terminal) (text : List UInt8) : Terminal := text.foldl put t

end Terminal

namespace Vga

/-- The terminal that the screen shows. -/
def terminal (s : Vga) : Terminal where
  cell r c :=
    if r < 25 ∧ c < 80 then (s.mem (getOffset c r), s.mem (getOffset c r + 1)) else (0, 0)
  row := s.position / 80
  col := s.position % 80

variable {s : Vga} {p : ℕ}

/-- What `terminal` shows depends on the screen and the position only. -/
lemma terminal_setCursorOffset (hp : p < 2000) :
    (s.setCursorOffset (2 * (p : ℤ))).terminal = ⟨s.terminal.cell, p / 80, p % 80⟩ := by
  rw [terminal, position_setCursorOffset (by omega)]
  rfl

lemma cell_scroll {r c : ℕ} : s.scroll.terminal.cell r c =
    if r < 24 then s.terminal.cell (r + 1) c else (0, 0) := by
  simp only [terminal]
  by_cases hc : c < 80
  · rcases Nat.lt_trichotomy r 24 with hr | rfl | hr
    · have hoffset : getOffset c r + 160 = getOffset c (r + 1 : ℕ) := by
        simp only [getOffset]
        push_cast
        ring
      have hodd : getOffset c r + 1 + 160 = getOffset c (r + 1 : ℕ) + 1 := by omega
      have hlo : (0 : ℤ) ≤ getOffset c r ∧ getOffset c r + 1 < 3840 := by
        rw [getOffset_eq]
        omega
      rw [if_pos (by omega), if_pos (by omega), if_pos (by omega), scroll_mem, scroll_mem,
        if_pos (by omega), if_pos (by omega), hoffset, hodd]
    · have hlo : (3840 : ℤ) ≤ getOffset c (24 : ℕ) ∧ getOffset c (24 : ℕ) + 1 < 4000 := by
        rw [getOffset_eq]
        omega
      rw [if_pos (by omega), if_neg (by omega), scroll_mem, scroll_mem, if_neg (by omega),
        if_pos (by omega), if_neg (by omega), if_pos (by omega)]
    · rw [if_neg (by omega), if_neg (by omega)]
  · rw [if_neg (by omega)]
    split_ifs
    · omega
    · rfl
    · rfl

/-- A cell written in memory. -/
lemma cell_store {r c : ℕ} (hr : r < 25) (hc : c < 80) (v w : UInt8) :
    ((s.store (2 * ((80 * r + c : ℕ) : ℤ)) v).store (2 * ((80 * r + c : ℕ) : ℤ) + 1) w).terminal.cell
      = Function.update s.terminal.cell r (Function.update (s.terminal.cell r) c (v, w)) := by
  funext i j
  by_cases hin : i < 25 ∧ j < 80
  · simp only [terminal, mem_store, getOffset_eq, if_pos hin]
    by_cases hij : i = r ∧ j = c
    · obtain ⟨rfl, rfl⟩ := hij
      rw [Function.update_self, Function.update_self, Function.update_self,
        Function.update_of_ne (by omega), Function.update_self]
    · rw [Function.update_of_ne (by omega), Function.update_of_ne (by omega),
        Function.update_of_ne (by omega), Function.update_of_ne (by omega)]
      by_cases hi : i = r
      · subst hi
        rw [Function.update_self, Function.update_of_ne (by omega), if_pos hin]
      · rw [Function.update_of_ne hi, if_pos hin]
  · simp only [terminal, if_neg hin]
    by_cases hi : i = r
    · subst hi
      rw [Function.update_self, Function.update_of_ne (by omega), if_neg hin]
    · rw [Function.update_of_ne hi, if_neg hin]

/-- The terminal of a screen with the cursor at `p`. -/
def terminalAt (s : Vga) (p : ℕ) : Terminal := ⟨s.terminal.cell, p / 80, p % 80⟩

/-- The character that is drawn, before scrolling, as the terminal has it. -/
lemma terminalAt_next (c : UInt8) (hp : p < 2000) :
    terminalAt (if c = 10 then s else (s.store (2 * p) c).store (2 * p + 1) whiteOnBlack)
      (next c p) =
    if c = 10 then (s.terminalAt p).newline else ((s.terminalAt p).write c).advance := by
  by_cases hc : c = 10
  · simp only [hc, if_true, next, terminalAt, Terminal.newline]
    rw [Nat.mul_div_cancel _ (by norm_num), Nat.mul_mod_left]
  · simp only [if_neg hc, next]
    have hsplit : p = 80 * (p / 80) + p % 80 := by omega
    have hcell := cell_store (s := s) (r := p / 80) (c := p % 80) (by omega) (by omega) c whiteOnBlack
    rw [← hsplit] at hcell
    simp only [terminalAt, hcell, Terminal.write, Terminal.advance, Terminal.newline]
    by_cases hend : p % 80 + 1 = 80
    · have hrow : (p + 1) / 80 = p / 80 + 1 := by omega
      have hcol : (p + 1) % 80 = 0 := by omega
      simp only [hend, if_true, hrow, hcol]
      rfl
    · have hrow : (p + 1) / 80 = p / 80 := by omega
      have hcol : (p + 1) % 80 = p % 80 + 1 := by omega
      simp only [hend, if_false, hrow, hcol]
      rfl

/-- **A character that is drawn at the cursor is `put`.** -/
lemma drawn_terminal (c : UInt8) (hp : p < 2000) :
    (s.drawn c p).terminalAt (landing c p) = (s.terminalAt p).put c := by
  have hnext : next c p ≤ 2000 := by
    simp only [next]
    split_ifs <;> omega
  simp only [Terminal.put, ← terminalAt_next c hp, drawn, landing]
  obtain ⟨d, hd⟩ : ∃ d, d = if c = 10 then s
    else (s.store (2 * p) c).store (2 * p + 1) whiteOnBlack := ⟨_, rfl⟩
  rw [← hd]
  by_cases hover : 2000 ≤ next c p
  · obtain heq : next c p = 2000 := by omega
    have hrow : (d.terminalAt 2000).row = 25 := rfl
    rw [heq, if_pos le_rfl, if_pos le_rfl, if_pos hrow]
    refine Terminal.ext ?_ rfl rfl
    funext i j
    simp only [terminalAt, Terminal.scroll, cell_scroll]
  · have hrow : (d.terminalAt (next c p)).row = next c p / 80 := rfl
    rw [if_neg hover, if_neg hover, if_neg (by omega)]

/-- The loop of `kprint_at`, from the cursor on. -/
lemma printAll_terminal (cs : List UInt8) (hp : s.position < 2000) :
    (s.printAll cs (s.position % 80 : ℕ) (s.position / 80 : ℕ)).terminal = s.terminal.puts cs := by
  induction cs generalizing s with
  | nil => rfl
  | cons c cs ih =>
      have hland := landing_lt (c := c) hp
      obtain ⟨s₁, hs₁⟩ : ∃ s₁, s₁ = (s.drawn c s.position).setCursorOffset
        (2 * (landing c s.position : ℤ)) := ⟨_, rfl⟩
      have hpos : s₁.position = landing c s.position := by
        rw [hs₁, position_setCursorOffset (by omega)]
      have hput : s₁.terminal = s.terminal.put c := by
        rw [hs₁, terminal_setCursorOffset hland]
        exact drawn_terminal c hp
      rw [printAll, printChar_spec c hp, ← hs₁]
      simp only
      rw [getOffsetCol_eq, getOffsetRow_eq, ← hpos, ih (by omega), hput]
      rfl

/-- **`kprint` leaves the screen and the cursor of the terminal**, and a text is printed as its
parts are, one after the other. -/
theorem kprint_refines (hp : s.position < 80 * 25) :
    (∀ message : CString, (s.kprint message).terminal = s.terminal.puts message.bytes) ∧
      ∀ a b : CString, (s.kprint (a.append b)).terminal = ((s.kprint a).kprint b).terminal := by
  have hputs : ∀ (s : Vga) (m : CString), s.position < 80 * 25 →
      (s.kprint m).terminal = s.terminal.puts m.bytes := by
    intro s m h
    rw [kprint_eq]
    exact printAll_terminal m.bytes h
  refine ⟨fun message => hputs s message hp, fun a b => ?_⟩
  -- the first part leaves the cursor on the screen
  have hcursor : (s.kprint a).position < 80 * 25 := by
    rw [kprint_eq]
    exact printAll_cursor hp a.bytes hp
  rw [hputs s _ hp, hputs _ b hcursor, hputs s a hp]
  exact List.foldl_append

theorem kprint_refines_last_cell : (Vga.mk (fun _ => 0) 7 207 []).position = 1999 ∧
    ((Vga.mk (fun _ => 0) 7 207 []).kprint ⟨[104, 105], by simp⟩).terminal =
      (Vga.mk (fun _ => 0) 7 207 []).terminal.puts [104, 105] :=
  ⟨by decide, (kprint_refines (by decide)).1 _⟩

end Vga

end Matanos
