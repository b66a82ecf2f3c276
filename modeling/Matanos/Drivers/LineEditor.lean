import Matanos.Drivers.Keyboard

/-!
What the keyboard driver is for: a line editor.

* `Editor`, `Editor.type`: the line, the presses of CapsLock, the state of LShift and the lines
  entered so far, and what a scancode does to them;
* `Edits`: the driver holds the line of the editor;
* `callback_edits`: one scancode keeps this;
* `keyboard_refines`: the driver passes to `user_input` what is entered in the editor.
-/

namespace Matanos

open Lib

/-- The line editor. -/
structure Editor where
  line : List UInt8
  capsPresses : ℕ
  shiftDown : Bool
  entered : List (List UInt8)

namespace Editor

/-- The editor at the start. -/
def empty : Editor := ⟨[], 0, false, []⟩

/-- The character of a key: of the shifted table when CapsLock was pressed an odd number of times,
or else LShift is down. -/
def charOf (e : Editor) (scancode : UInt8) : UInt8 :=
  letterOf (if decide (e.capsPresses % 2 = 1) ^^ e.shiftDown then scAsciiShift else scAscii) scancode

/-- One scancode. -/
def type (e : Editor) (scancode : UInt8) : Option Editor :=
  some <|
    if scancode = leftShiftKey then { e with shiftDown := true }
    else if scancode = relKeyDiff + leftShiftKey then { e with shiftDown := false }
    else if scancode = capsLockKey then { e with capsPresses := e.capsPresses + 1 }
    else if scancode = backspaceKey then { e with line := e.line.dropLast }
    else if scancode = enterKey then { e with entered := e.entered ++ [e.line], line := [] }
    else if scancode ≤ scMax then { e with line := e.line ++ [e.charOf scancode] }
    else e

/-- Backspace is not pressed on an empty line, and no line gets longer than 255 characters. -/
def Sized (e : Editor) (scancode : UInt8) : Prop :=
  (scancode = backspaceKey → e.line ≠ []) ∧ (Types scancode → e.line.length < 255)

end Editor

/-- The driver holds the line and the modifiers of the editor, and has passed on what was
entered. -/
structure Edits (s : Keyboard) (e : Editor) : Prop where
  text : HasText s.mem e.line
  short : e.line.length ≤ 255
  shift : s.isShiftPressed = e.shiftDown
  caps : s.isCapsLocked = decide (e.capsPresses % 2 = 1)
  inputs : s.inputs.map cstr = e.entered.map some

section Simulation

variable {ui : (ℤ → UInt8) → ℤ → UInt8} {s : Keyboard} {e : Editor} {sc : UInt8}

lemma type_types (h : Types sc) : e.type sc = some { e with line := e.line ++ [e.charOf sc] } := by
  obtain ⟨hmax, hshift, hcaps, hback, henter⟩ := h
  have hrel : sc ≠ relKeyDiff + leftShiftKey := by
    rintro rfl
    exact absurd hmax (by decide)
  rw [Editor.type, if_neg hshift, if_neg hrel, if_neg hcaps, if_neg hback, if_neg henter,
    if_pos hmax]

lemma odd_succ (n : ℕ) : decide ((n + 1) % 2 = 1) = !decide (n % 2 = 1) := by
  rcases Nat.mod_two_eq_zero_or_one n with h | h <;> simp [Nat.add_mod, h]

/-- A scancode that neither types nor edits changes the modifiers alike. -/
lemma type_other (hsame : s.isShiftPressed = e.shiftDown)
    (hsame' : s.isCapsLocked = decide (e.capsPresses % 2 = 1)) (hty : ¬ Types sc)
    (hback : sc ≠ backspaceKey) (henter : sc ≠ enterKey) : ∃ e', e.type sc = some e' ∧
      e'.line = e.line ∧ e'.entered = e.entered ∧
      e'.shiftDown = (Keyboard.modifiers s.isShiftPressed s.isCapsLocked sc).1 ∧
      decide (e'.capsPresses % 2 = 1)
        = (Keyboard.modifiers s.isShiftPressed s.isCapsLocked sc).2 := by
  refine ⟨_, rfl, ?_⟩
  simp only [Keyboard.modifiers, hsame, hsame']
  by_cases hs : sc = leftShiftKey
  · simp only [hs, if_true, and_self]
  · by_cases hr : sc = relKeyDiff + leftShiftKey
    · simp only [if_neg hs, if_pos hr, and_self]
    · by_cases hc : sc = capsLockKey
      · simp only [if_neg hs, if_neg hr, if_pos hc, odd_succ, and_self]
      · have hmax : ¬ sc ≤ scMax := fun hle => hty ⟨hle, hs, hc, hback, henter⟩
        simp only [if_neg hs, if_neg hr, if_neg hc, if_neg hback, if_neg henter, if_neg hmax,
          and_self]

/-- **One scancode.** -/
lemma callback_edits (h : Edits s e) (hsized : e.Sized sc) :
    ∃ s' e', s.keyboardCallback ui sc = some s' ∧ e.type sc = some e' ∧ Edits s' e' := by
  have hshort := h.short
  by_cases hback : sc = backspaceKey
  · subst hback
    have hne := hsized.1 rfl
    rw [Keyboard.callback_backspace, Keyboard.backspace_eq h.text (by omega)]
    refine ⟨_, { e with line := e.line.dropLast }, rfl, rfl, h.text.dropLast hne, ?_, h.shift,
      h.caps, h.inputs⟩
    rw [List.length_dropLast]
    omega
  · by_cases henter : sc = enterKey
    · subst henter
      rw [Keyboard.callback_enter]
      refine ⟨_, { e with entered := e.entered ++ [e.line], line := [] }, rfl, rfl, ?_,
        Nat.zero_le _, h.shift, h.caps, ?_⟩
      · exact hasText_nil (by simp [Keyboard.enter])
      · simp only [Keyboard.enter, List.map_append, List.map_cons, List.map_nil, h.inputs,
          h.text.cstr (by omega)]
    · by_cases hty : Types sc
      · have hlt := hsized.2 hty
        rw [Keyboard.callback_types hty, Keyboard.append_eq h.text (by omega), type_types hty]
        refine ⟨_, _, rfl, rfl, ?_, ?_, h.shift, h.caps, h.inputs⟩
        · rw [h.shift, h.caps]
          exact h.text.append (letterOf_ne_zero hty _)
        · rw [List.length_append, List.length_singleton]
          omega
      · obtain ⟨e', he', hline, hentered, hshift, hcaps⟩ := type_other h.shift h.caps hty
          hback henter
        rw [Keyboard.callback_other hty hback henter]
        refine ⟨_, e', rfl, he', ?_, ?_, hshift.symm, hcaps.symm, ?_⟩
        · rw [hline]
          exact h.text
        · rw [hline]
          exact hshort
        · rw [hentered]
          exact h.inputs

end Simulation

/-- **The driver refines the line editor**: over every sequence of scancodes in which Backspace is
not pressed on an empty line and no line exceeds 255 characters, the texts passed to `user_input`
are the lines entered. -/
theorem keyboard_refines (ui : (ℤ → UInt8) → ℤ → UInt8) (rest : ℤ → UInt8) (scs : List UInt8)
    (hscs : Along Editor.type Editor.Sized Editor.empty scs) :
    ∃ s e, run (Keyboard.keyboardCallback ui) (Keyboard.initial rest) scs = some s ∧
      run Editor.type Editor.empty scs = some e ∧ s.inputs.map cstr = e.entered.map some := by
  have hstart : Edits (Keyboard.initial rest) Editor.empty :=
    ⟨hasText_nil (by simp [Keyboard.initial]), Nat.zero_le _, rfl, rfl, rfl⟩
  have hsim : ∀ (s : Keyboard) (e : Editor) (sc : UInt8), Edits s e → e.Sized sc →
      ∃ s' e', s.keyboardCallback ui sc = some s' ∧ e.type sc = some e' ∧ Edits s' e' :=
    fun s e sc h hsized => callback_edits h hsized
  obtain ⟨s, e, hs, he, h⟩ := run_simulation hsim hstart hscs
  exact ⟨s, e, hs, he, h.inputs⟩

/-- The keys `A`, Backspace, LShift with `B`, and Enter. -/
def oneLine : List UInt8 :=
  [30, backspaceKey, leftShiftKey, 48, relKeyDiff + leftShiftKey, enterKey]

lemma oneLine_sized : Along Editor.type Editor.Sized Editor.empty oneLine := by
  refine ⟨⟨by decide, by decide⟩, fun e₁ h₁ => ?_⟩
  obtain rfl := Option.some.inj h₁
  refine ⟨⟨by decide, by decide⟩, fun e₂ h₂ => ?_⟩
  obtain rfl := Option.some.inj h₂
  refine ⟨⟨by decide, by decide⟩, fun e₃ h₃ => ?_⟩
  obtain rfl := Option.some.inj h₃
  refine ⟨⟨by decide, by decide⟩, fun e₄ h₄ => ?_⟩
  obtain rfl := Option.some.inj h₄
  refine ⟨⟨by decide, by decide⟩, fun e₅ h₅ => ?_⟩
  obtain rfl := Option.some.inj h₅
  exact ⟨⟨by decide, by decide⟩, fun _ _ => trivial⟩

theorem keyboard_refines_one_line : ∃ s,
    run (Keyboard.keyboardCallback id) (Keyboard.initial fun _ => 0) oneLine = some s ∧
      s.inputs.map cstr = [some [66]] := by
  obtain ⟨s, e, hs, he, h⟩ := keyboard_refines id (fun _ => 0) oneLine oneLine_sized
  obtain rfl := Option.some.inj he
  exact ⟨s, hs, h⟩

end Matanos
