import Matanos.Lib.Run

/-!
Line editing in `drivers/keyboard.c`: `keyboard_callback` with `strlen`, `append` and `backspace`
of `kernel/util.c`.

Memory is addressed from the start of `key_buffer`, so that an index may be negative or behind
the buffer, and the indices that `append` and `backspace` use are kept in a log. What
`user_input` does to memory is arbitrary.

* `Keyboard`, `keyboardCallback`: the state of the driver and one scancode;
* `HasText`: the text in the buffer, up to its first NUL;
* `callback_types`, `callback_backspace`, `callback_enter`, `callback_other`: what a scancode
  does; `HasText.append`, `HasText.dropLast`: the text afterwards;
* `buffer_kept_iff`: over any sequence of scancodes the accesses stay in the buffer exactly when
  Backspace is not pressed on an empty line and no key is typed on a full one.
-/

namespace Matanos

open Lib

/-- `BACKSPACE`, `ENTER`, `LEFT_SHIFT` and `CAPS_LOCK`. -/
def backspaceKey : UInt8 := 0x0E

@[inherit_doc backspaceKey]
def enterKey : UInt8 := 0x1C

@[inherit_doc backspaceKey]
def leftShiftKey : UInt8 := 0x2A

@[inherit_doc backspaceKey]
def capsLockKey : UInt8 := 0x3A

/-- `SC_MAX`. -/
def scMax : UInt8 := 58

/-- `REL_KEY_DIFF`. -/
def relKeyDiff : UInt8 := 0x80

/-- The table `sc_ascii_shift`. -/
def scAsciiShift : List Char :=
  ['?', '?', '!', '@', '#', '$', '%', '^',
    '&', '*', '(', ')', '_', '+', '?', '?', 'Q', 'W', 'E', 'R', 'T', 'Y',
    'U', 'I', 'O', 'P', '[', ']', '?', '?', 'A', 'S', 'D', 'F', 'G',
    'H', 'J', 'K', 'L', ':', '\x22', '\x60', '?', '\x5c', 'Z', 'X', 'C', 'V',
    'B', 'N', 'M', '<', '>', '?', '?', '?', '?', ' ', '?', '?']

/-- The table `sc_ascii`. -/
def scAscii : List Char :=
  ['?', '?', '1', '2', '3', '4', '5', '6',
    '7', '8', '9', '0', '-', '=', '?', '?', 'q', 'w', 'e', 'r', 't', 'y',
    'u', 'i', 'o', 'p', '\x7b', '\x7d', '?', '?', 'a', 's', 'd', 'f', 'g',
    'h', 'j', 'k', 'l', ';', '\x27', '\x60', '?', '\x5c', 'z', 'x', 'c', 'v',
    'b', 'n', 'm', ',', '.', '/', '?', '?', '?', ' ', '?', '?']

/-- The byte of a table at a scancode. -/
def letterOf (table : List Char) (scancode : UInt8) : UInt8 :=
  UInt8.ofNat (table.getD scancode.toNat '\x00').toNat

/-- The loop of `strlen` from `i`, for at most `n` turns. -/
def strlenFrom (m : ℤ → UInt8) : ℕ → ℕ → Option ℕ
  | 0, _ => none
  | n + 1, i => if m i ≠ 0 then strlenFrom m n (i + 1) else some i

/-- `strlen`; a string that does not end within the range of `int` has no length. -/
def strlen (m : ℤ → UInt8) : Option ℕ := strlenFrom m (2 ^ 31) 0

/-- The string in the buffer. -/
def cstr (m : ℤ → UInt8) : Option (List UInt8) :=
  (strlen m).map fun n => (List.range n).map fun i : ℕ => m i

/-- Memory from `key_buffer` on, the two modifiers, the indices used by `append` and `backspace`,
and the memory at each call of `user_input`. -/
structure Keyboard where
  mem : ℤ → UInt8
  isShiftPressed : Bool
  isCapsLocked : Bool
  log : List ℤ
  inputs : List (ℤ → UInt8)

/-- What `strlen` reads. -/
def strlenReads (len : ℕ) : List ℤ := (List.range (len + 1)).map fun i : ℕ => (i : ℤ)

namespace Keyboard

/-- `append(key_buffer, n)`. -/
def append (s : Keyboard) (n : UInt8) : Option Keyboard :=
  (strlen s.mem).map fun len : ℕ =>
    { s with
      mem := Function.update (Function.update s.mem len n) (len + 1) 0
      log := s.log ++ strlenReads len ++ [(len : ℤ), len + 1] }

/-- `backspace(key_buffer)`. -/
def backspace (s : Keyboard) : Option Keyboard :=
  (strlen s.mem).map fun len : ℕ =>
    { s with
      mem := Function.update s.mem (len - 1) 0
      log := s.log ++ strlenReads len ++ [(len : ℤ) - 1] }

/-- `user_input(key_buffer)` and the NUL that clears the line. -/
def enter (s : Keyboard) (userInput : (ℤ → UInt8) → ℤ → UInt8) : Keyboard :=
  { s with
    mem := Function.update (userInput s.mem) 0 0
    inputs := s.inputs ++ [s.mem] }

/-- `keyboard_callback`, for the scancode in the port. -/
def keyboardCallback (userInput : (ℤ → UInt8) → ℤ → UInt8) (s : Keyboard) (scancode : UInt8) :
    Option Keyboard :=
  if scancode > relKeyDiff + scMax then some s
  else if scancode ≥ relKeyDiff then
    if scancode - relKeyDiff = leftShiftKey then some { s with isShiftPressed := false } else some s
  else if scancode > scMax then some s
  else if scancode = leftShiftKey then some { s with isShiftPressed := true }
  else if scancode = capsLockKey then some { s with isCapsLocked := !s.isCapsLocked }
  else if scancode = backspaceKey then s.backspace
  else if scancode = enterKey then some (s.enter userInput)
  else
    s.append (letterOf (if s.isCapsLocked ^^ s.isShiftPressed then scAsciiShift else scAscii)
      scancode)

/-- The driver at the start. -/
def initial (rest : ℤ → UInt8) : Keyboard where
  mem i := if 0 ≤ i ∧ i < 256 then 0 else rest i
  isShiftPressed := false
  isCapsLocked := false
  log := []
  inputs := []

end Keyboard

/-! ### The text in the buffer -/

/-- The buffer holds the text, with a NUL behind it. -/
structure HasText (m : ℤ → UInt8) (text : List UInt8) : Prop where
  byte : ∀ i (hi : i < text.length), m i = text.get ⟨i, hi⟩
  nonzero : ∀ c ∈ text, c ≠ 0
  terminated : m text.length = 0

section Text

variable {m : ℤ → UInt8} {text : List UInt8}

lemma strlenFrom_eq {n k len : ℕ} (hnz : ∀ i < len, k ≤ i → m i ≠ 0) (h0 : m len = 0)
    (hk : k ≤ len) (hn : len < k + n) : strlenFrom m n k = some len := by
  induction n generalizing k with
  | zero => omega
  | succ n ih =>
      rw [strlenFrom]
      rcases Nat.eq_or_lt_of_le hk with rfl | hlt
      · rw [if_neg (not_not.mpr h0)]
      · rw [if_pos (hnz k hlt le_rfl)]
        exact ih (fun i hi hki => hnz i hi (by omega)) hlt (by omega)

lemma HasText.byte_ne (h : HasText m text) {i : ℕ} (hi : i < text.length) : m i ≠ 0 := by
  rw [h.byte i hi]
  exact h.nonzero _ (List.get_mem _ _)

/-- **`strlen` finds the length of the text.** -/
lemma HasText.strlen (h : HasText m text) (hlen : text.length < 2 ^ 31) :
    strlen m = some text.length :=
  strlenFrom_eq (fun _ hi _ => h.byte_ne hi) h.terminated (Nat.zero_le _) (by omega)

lemma HasText.cstr (h : HasText m text) (hlen : text.length < 2 ^ 31) : cstr m = some text := by
  rw [Matanos.cstr, h.strlen hlen, Option.map_some, Option.some.injEq]
  refine List.ext_getElem (by simp) fun i hi hi' => ?_
  rw [List.getElem_map, List.getElem_range]
  exact h.byte i hi'

/-- Memory holds one text only. -/
lemma HasText.unique {text' : List UInt8} (h : HasText m text) (h' : HasText m text') :
    text = text' := by
  have hle : ∀ {a b : List UInt8}, HasText m a → HasText m b → a.length ≤ b.length := by
    intro a b ha hb
    by_contra hlt
    exact ha.byte_ne (by omega) hb.terminated
  refine List.ext_getElem (Nat.le_antisymm (hle h h') (hle h' h)) fun k hk hk' => ?_
  exact (h.byte k hk).symm.trans (h'.byte k hk')

lemma hasText_nil (h0 : m 0 = 0) : HasText m [] :=
  ⟨fun i hi => absurd hi (Nat.not_lt_zero i), by simp, h0⟩

/-- A buffer with a NUL in it holds some text. -/
lemma exists_hasText {k : ℕ} (hk : m k = 0) : ∃ text, text.length ≤ k ∧ HasText m text := by
  classical
  have hex : ∃ n : ℕ, m n = 0 := ⟨k, hk⟩
  obtain ⟨n, hn, hleast⟩ : ∃ n : ℕ, m n = 0 ∧ ∀ i < n, m i ≠ 0 :=
    ⟨Nat.find hex, Nat.find_spec hex, fun i hi => Nat.find_min hex hi⟩
  refine ⟨(List.range n).map fun i : ℕ => m i, ?_, fun i hi => by simp, ?_, by simpa using hn⟩
  · rw [List.length_map, List.length_range]
    by_contra hlt
    exact hleast k (by omega) hk
  · intro c hc
    obtain ⟨i, hi, rfl⟩ := List.mem_map.mp hc
    exact hleast i (List.mem_range.mp hi)

/-- A character behind the text, and a NUL behind it. -/
lemma HasText.append (h : HasText m text) {n : UInt8} (hn : n ≠ 0) :
    HasText (Function.update (Function.update m text.length n) (text.length + 1) 0)
      (text ++ [n]) := by
  refine ⟨fun i hi => ?_, fun c hc => ?_, ?_⟩
  · rw [List.length_append, List.length_singleton] at hi
    rw [Function.update_of_ne (by omega)]
    rcases Nat.lt_succ_iff_lt_or_eq.mp hi with hlt | rfl
    · rw [Function.update_of_ne (by omega), h.byte i hlt]
      simp [hlt]
    · rw [Function.update_self]
      simp
  · rcases List.mem_append.mp hc with hc | hc
    · exact h.nonzero c hc
    · rw [List.mem_singleton.mp hc]
      exact hn
  · rw [List.length_append, List.length_singleton]
    push_cast
    exact Function.update_self _ _ _

/-- A NUL in place of the last character. -/
lemma HasText.dropLast (h : HasText m text) (hne : text ≠ []) :
    HasText (Function.update m ((text.length : ℤ) - 1) 0) text.dropLast := by
  have hpos := List.length_pos_iff.mpr hne
  refine ⟨fun i hi => ?_, fun c hc => h.nonzero c (List.mem_of_mem_dropLast hc), ?_⟩
  · rw [List.length_dropLast] at hi
    rw [Function.update_of_ne (by omega), h.byte i (by omega)]
    simp
  · rw [List.length_dropLast, Nat.cast_sub hpos]
    exact Function.update_self _ _ _

end Text

/-! ### One scancode -/

/-- The scancodes that type a character. -/
def Types (scancode : UInt8) : Prop :=
  scancode ≤ scMax ∧ scancode ≠ leftShiftKey ∧ scancode ≠ capsLockKey ∧
    scancode ≠ backspaceKey ∧ scancode ≠ enterKey

instance (scancode : UInt8) : Decidable (Types scancode) := inferInstanceAs (Decidable (_ ∧ _))

/-- They are no releases and have an entry in the tables. -/
lemma Types.bounds {sc : UInt8} (h : Types sc) :
    ¬ sc > relKeyDiff + scMax ∧ ¬ sc ≥ relKeyDiff ∧ ¬ sc > scMax := by
  refine ⟨UInt8.not_lt.mpr ?_, UInt8.not_le.mpr ?_, UInt8.not_lt.mpr h.1⟩
  · exact UInt8.le_trans h.1 (by decide : scMax ≤ relKeyDiff + scMax)
  · exact UInt8.lt_of_le_of_lt h.1 (by decide)

/-- Every character of the two tables is a character. -/
lemma letterOf_ne_zero {sc : UInt8} (h : Types sc) (b : Bool) :
    letterOf (if b then scAsciiShift else scAscii) sc ≠ 0 := by
  have hall : ∀ k < 256, Types (UInt8.ofNat k) → ∀ b : Bool,
      letterOf (if b then scAsciiShift else scAscii) (UInt8.ofNat k) ≠ 0 := by decide +kernel
  have hsc := hall sc.toNat sc.toNat_lt
  rw [UInt8.ofNat_toNat] at hsc
  exact hsc h b

namespace Keyboard

variable {ui : (ℤ → UInt8) → ℤ → UInt8} {s s' : Keyboard} {sc : UInt8} {text : List UInt8}

lemma callback_backspace : s.keyboardCallback ui backspaceKey = s.backspace := rfl

lemma callback_enter : s.keyboardCallback ui enterKey = some (s.enter ui) := rfl

lemma callback_types (h : Types sc) : s.keyboardCallback ui sc =
    s.append (letterOf (if s.isCapsLocked ^^ s.isShiftPressed then scAsciiShift else scAscii)
      sc) := by
  obtain ⟨h1, h2, h3⟩ := h.bounds
  obtain ⟨-, hshift, hcaps, hback, henter⟩ := h
  rw [keyboardCallback, if_neg h1, if_neg h2, if_neg h3, if_neg hshift, if_neg hcaps,
    if_neg hback, if_neg henter]

/-- The modifiers after a scancode. -/
def modifiers (shift caps : Bool) (sc : UInt8) : Bool × Bool :=
  if sc = leftShiftKey then (true, caps)
  else if sc = relKeyDiff + leftShiftKey then (false, caps)
  else if sc = capsLockKey then (shift, !caps)
  else (shift, caps)

/-- The other scancodes change the modifiers only. -/
lemma callback_other (h : ¬ Types sc) (hback : sc ≠ backspaceKey) (henter : sc ≠ enterKey) :
    s.keyboardCallback ui sc = some
      { s with
        isShiftPressed := (modifiers s.isShiftPressed s.isCapsLocked sc).1
        isCapsLocked := (modifiers s.isShiftPressed s.isCapsLocked sc).2 } := by
  have hrelease : sc - relKeyDiff = leftShiftKey ↔ sc = relKeyDiff + leftShiftKey := by
    constructor
    · intro he
      rw [← he, UInt8.add_comm, UInt8.sub_add_cancel]
    · rintro rfl
      decide
  simp only [keyboardCallback, modifiers]
  by_cases hs : sc = leftShiftKey
  · subst hs
    rfl
  · rw [if_neg hs, if_neg hs]
    by_cases hr : sc = relKeyDiff + leftShiftKey
    · subst hr
      rfl
    · rw [if_neg (fun he => hr (hrelease.mp he)), if_neg hr]
      by_cases hc : sc = capsLockKey
      · subst hc
        rfl
      · rw [if_neg hc, if_neg hc]
        have hmax : sc > scMax := by
          by_contra hle
          exact h ⟨UInt8.not_lt.mp hle, hs, hc, hback, henter⟩
        simp only [hmax, if_true, ite_self]

lemma append_eq (h : HasText s.mem text) (hlen : text.length < 2 ^ 31) (n : UInt8) :
    s.append n = some { s with
      mem := Function.update (Function.update s.mem text.length n) (text.length + 1) 0
      log := s.log ++ strlenReads text.length ++ [(text.length : ℤ), text.length + 1] } := by
  rw [append, h.strlen hlen, Option.map_some]

lemma backspace_eq (h : HasText s.mem text) (hlen : text.length < 2 ^ 31) :
    s.backspace = some { s with
      mem := Function.update s.mem ((text.length : ℤ) - 1) 0
      log := s.log ++ strlenReads text.length ++ [(text.length : ℤ) - 1] } := by
  rw [backspace, h.strlen hlen, Option.map_some]

/-! ### The bounds of the buffer -/

/-- Every access was to the buffer, and there is a NUL in it. -/
structure Bounded (s : Keyboard) : Prop where
  inside : ∀ i ∈ s.log, 0 ≤ i ∧ i < 256
  terminated : ∃ i : ℕ, i < 256 ∧ s.mem i = 0

/-- Backspace is not pressed on an empty line, and no character is typed on a line of 255. -/
def Fits (s : Keyboard) (sc : UInt8) : Prop :=
  (sc = backspaceKey → s.mem 0 ≠ 0) ∧ (Types sc → ∃ i : ℕ, i < 255 ∧ s.mem i = 0)

/-- The accesses of a key, when those of `strlen` are in the buffer. -/
lemma inside_append {log : List ℤ} (h : ∀ i ∈ log, 0 ≤ i ∧ i < 256) {len : ℕ} (hlen : len < 256)
    {writes : List ℤ} :
    (∀ i ∈ log ++ strlenReads len ++ writes, 0 ≤ i ∧ i < 256) ↔
      ∀ i ∈ writes, 0 ≤ i ∧ i < 256 := by
  have hreads : ∀ i ∈ strlenReads len, 0 ≤ i ∧ i < 256 := by
    intro i hi
    obtain ⟨k, hk, rfl⟩ := List.mem_map.mp hi
    have := List.mem_range.mp hk
    omega
  constructor
  · intro hall i hi
    exact hall i (List.mem_append_right _ hi)
  · intro hw i hi
    rcases List.mem_append.mp hi with hi | hi
    · rcases List.mem_append.mp hi with hi | hi
      · exact h i hi
      · exact hreads i hi
    · exact hw i hi

/-- A first NUL before the place 255 is a text shorter than 255. -/
lemma HasText.length_lt_iff {m : ℤ → UInt8} (h : HasText m text) {n : ℕ} :
    text.length < n ↔ ∃ i : ℕ, i < n ∧ m i = 0 := by
  constructor
  · intro hlt
    exact ⟨_, hlt, h.terminated⟩
  · rintro ⟨i, hi, h0⟩
    by_contra hge
    exact h.byte_ne (by omega) h0

/-- **A scancode keeps to the buffer exactly when it fits.** -/
lemma callback_bounded_iff (h : s.Bounded) :
    (∃ s', s.keyboardCallback ui sc = some s' ∧ s'.Bounded) ↔ s.Fits sc := by
  obtain ⟨k, hk, hk0⟩ := h.terminated
  obtain ⟨text, hle, htext⟩ := exists_hasText hk0
  by_cases hback : sc = backspaceKey
  · subst hback
    have hempty : s.mem 0 = 0 ↔ text.length = 0 := by
      rw [← Nat.lt_one_iff, HasText.length_lt_iff htext]
      constructor
      · intro h0
        exact ⟨0, one_pos, h0⟩
      · rintro ⟨i, hi, h0⟩
        obtain rfl : i = 0 := by omega
        exact h0
    rw [callback_backspace, backspace_eq htext (by omega)]
    constructor
    · rintro ⟨s', hs', hb⟩
      cases hs'
      refine ⟨fun _ h0 => ?_, fun hty => absurd rfl hty.2.2.2.1⟩
      have hwrite := (inside_append h.inside (by omega)).mp hb.inside ((text.length : ℤ) - 1)
        (by simp)
      have := hempty.mp h0
      omega
    · intro hfits
      have hpos : text.length ≠ 0 := fun h0 => hfits.1 rfl (hempty.mpr h0)
      refine ⟨_, rfl, (inside_append h.inside (by omega)).mpr ?_, text.length - 1, by omega, ?_⟩
      · simp only [List.mem_singleton, forall_eq]
        omega
      · rw [Nat.cast_sub (by omega)]
        exact Function.update_self _ _ _
  · by_cases henter : sc = enterKey
    · subst henter
      rw [callback_enter]
      refine ⟨fun _ => ⟨fun he => absurd he (by decide), fun hty => absurd rfl hty.2.2.2.2⟩,
        fun _ => ⟨_, rfl, h.inside, 0, by norm_num, by simp [enter]⟩⟩
    · by_cases hty : Types sc
      · rw [callback_types hty, append_eq htext (by omega)]
        constructor
        · rintro ⟨s', hs', hb⟩
          cases hs'
          refine ⟨fun he => absurd he hback, fun _ => (HasText.length_lt_iff htext).mp ?_⟩
          have hwrite := (inside_append h.inside (by omega)).mp hb.inside ((text.length : ℤ) + 1)
            (by simp)
          omega
        · intro hfits
          have hlt := (HasText.length_lt_iff htext).mpr (hfits.2 hty)
          refine ⟨_, rfl, (inside_append h.inside (by omega)).mpr ?_, text.length + 1, by omega, ?_⟩
          · simp only [List.mem_cons, List.not_mem_nil, or_false, forall_eq_or_imp, forall_eq]
            omega
          · push_cast
            exact Function.update_self _ _ _
      · rw [callback_other hty hback henter]
        exact ⟨fun _ => ⟨fun he => absurd he hback, fun ht => absurd ht hty⟩,
          fun _ => ⟨_, rfl, h.inside, h.terminated⟩⟩

/-- **Over every sequence of scancodes, `append` and `backspace` keep to the buffer and leave a
NUL in it, exactly when Backspace is never pressed on an empty line and no character is typed on
a line of 255.** -/
theorem buffer_kept_iff (ui : (ℤ → UInt8) → ℤ → UInt8) (rest : ℤ → UInt8) (scs : List UInt8) :
    Along (keyboardCallback ui) (fun s sc => ∃ s', s.keyboardCallback ui sc = some s' ∧ s'.Bounded)
        (initial rest) scs ↔
      Along (keyboardCallback ui) Fits (initial rest) scs := by
  have hstart : (initial rest).Bounded := ⟨by simp [initial], 0, by norm_num, by simp [initial]⟩
  have hiff : ∀ (s : Keyboard) (sc : UInt8), s.Bounded → True →
      ((∃ s', s.keyboardCallback ui sc = some s' ∧ s'.Bounded) ↔ s.Fits sc) :=
    fun s sc h _ => callback_bounded_iff h
  have hkeep : ∀ (s : Keyboard) (sc : UInt8) (s' : Keyboard), s.Bounded → True →
      (∃ s', s.keyboardCallback ui sc = some s' ∧ s'.Bounded) →
      s.keyboardCallback ui sc = some s' → s'.Bounded := by
    rintro s sc s' _ _ ⟨s'', hs'', hb⟩ hs'
    rw [hs''] at hs'
    cases hs'
    exact hb
  exact along_iff hiff hkeep hstart (along_of_forall fun _ _ => trivial)

/-- Backspace on the empty line writes in front of the buffer. -/
theorem backspace_before_buffer : ¬ Along (keyboardCallback id)
    (fun s sc => ∃ s', s.keyboardCallback id sc = some s' ∧ s'.Bounded) (initial fun _ => 0)
    [backspaceKey] := by
  intro h
  have hstart : (initial fun _ => 0).Bounded :=
    ⟨by simp [initial], 0, by norm_num, by simp [initial]⟩
  exact ((callback_bounded_iff hstart).mp h.1).1 rfl (by simp [initial])

end Keyboard

end Matanos
