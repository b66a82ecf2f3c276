import Matanos.Lib.Bytes
import Matanos.Lib.Word
import Mathlib.Order.CompletePartialOrder

/-!
Moving the stack of the kernel (`cpu/task.c`): once the pages of the new stack are mapped, `move_stack`
copies the words in use and adds the offset to those that point into the old stack.

* `memcpy`: the loop of `kernel/util.c`; `memcpy_byte`: the bytes after it;
* `MoveStack`: what a call is given and finds in the registers; `fixUp`, `moveStack`: its second loop, and
  the copy with it;
* `fixUp_spec`: each word is visited once;
* `move_stack_relocates`: the words on the new stack, the chains of frame pointers there, and the old
  stack.
-/

namespace Matanos

open Lib

namespace MoveStack

/-- The loop of `memcpy`, for `n` more turns. -/
def copyFrom (source dest : ℕ) : ℕ → ℕ → Bytes → Bytes
  | 0, _, m => m
  | n + 1, i, m => copyFrom source dest n (i + 1) (write8 m (add32 dest i) (m (add32 source i)))

/-- `memcpy`, whose `nbytes` is an `int`. -/
def memcpy (source dest nbytes : ℕ) (m : Bytes) : Bytes :=
  copyFrom source dest (if nbytes < 2 ^ 31 then nbytes else 0) 0 m

end MoveStack

/-- What `move_stack` is called with, the address of `end`, and the registers it reads. -/
structure MoveStack where
  newStackStart : ℕ
  size : ℕ
  imageEnd : ℕ
  oldStackPointer : ℕ
  oldBasePointer : ℕ

namespace MoveStack

/-- `KERNEL_STACK_SIZE`. -/
def kernelStackSize : ℕ := 4096

/-- `initial_esp`. -/
def initialEsp (c : MoveStack) : ℕ := add32 c.imageEnd kernelStackSize

/-- `offset`. -/
def offset (c : MoveStack) : ℕ := sub32 c.newStackStart c.initialEsp

/-- The second loop of `move_stack`, for less than `n` turns. -/
def fixUp (c : MoveStack) : ℕ → ℕ → Bytes → Option Bytes
  | 0, _, _ => none
  | n + 1, i, m =>
      if sub32 c.newStackStart c.size < i then
        let tmp := read32 m i
        let m :=
          if c.oldStackPointer < tmp ∧ tmp < c.initialEsp then write32 m i (add32 tmp c.offset)
          else m
        fixUp c n (sub32 i 4) m
      else some m

/-- `move_stack` behind the loop that maps the pages: the stack pointer, the base pointer and the
memory. -/
def moveStack (c : MoveStack) (m : Bytes) : Option (ℕ × ℕ × Bytes) := do
  let newStackPointer := add32 c.oldStackPointer c.offset
  let newBasePointer := add32 c.oldBasePointer c.offset
  let m := memcpy c.oldStackPointer newStackPointer (sub32 c.initialEsp c.oldStackPointer) m
  let m ← fixUp c (2 ^ 32) c.newStackStart m
  return (newStackPointer, newBasePointer, m)

/-- A word of the new stack, for that of the old one. -/
def relocate (c : MoveStack) (w : ℕ) : ℕ :=
  if c.oldStackPointer < w ∧ w < c.initialEsp then add32 w c.offset else w

/-! ### The loops -/

variable {c : MoveStack} {m : Bytes} {source dest n i x : ℕ}

lemma copyFrom_byte (hsource : source + i + n ≤ 2 ^ 32) (hdest : dest + i + n ≤ 2 ^ 32)
    (hapart : dest + n ≤ source ∨ source + n ≤ dest) :
    copyFrom source dest n i m x =
      if dest + i ≤ x ∧ x < dest + i + n then m (x - dest + source) else m x := by
  induction n generalizing i m with
  | zero => rw [copyFrom, if_neg (by omega)]
  | succ n ih =>
      rw [copyFrom, add32_of_lt (by omega), add32_of_lt (by omega),
        ih (by omega) (by omega) (by omega)]
      by_cases hfirst : x = dest + i
      · rw [if_neg (by omega), if_pos (by omega), hfirst, write8_self]
        congr 1
        omega
      · by_cases hrest : dest + (i + 1) ≤ x ∧ x < dest + (i + 1) + n
        · rw [if_pos hrest, if_pos (by omega), write8_byte (by omega)]
        · rw [if_neg hrest, if_neg (by omega), write8_byte hfirst]

/-- **`memcpy`** between two regions that do not overlap. -/
lemma memcpy_byte (hn : n < 2 ^ 31) (hsource : source + n ≤ 2 ^ 32) (hdest : dest + n ≤ 2 ^ 32)
    (hapart : dest + n ≤ source ∨ source + n ≤ dest) :
    memcpy source dest n m x = if dest ≤ x ∧ x < dest + n then m (x - dest + source) else m x := by
  rw [memcpy, if_pos hn]
  exact copyFrom_byte hsource hdest hapart

/-- **The second loop** visits each word above the limit once, and no other. -/
lemma fixUp_spec (hlimit : c.size ≤ c.newStackStart) (hstart : c.newStackStart < 2 ^ 32)
    (hi : i % 4 = 0) (hle : i ≤ c.newStackStart) (hn : i < n) :
    ∃ m', c.fixUp n i m = some m' ∧
      (∀ y, y % 4 = 0 → read32 m' y =
        if c.newStackStart - c.size < y ∧ y ≤ i then c.relocate (read32 m y) else read32 m y) ∧
      ∀ x, x ≤ c.newStackStart - c.size ∨ i + 4 ≤ x → m' x = m x := by
  have hsub : sub32 c.newStackStart c.size = c.newStackStart - c.size := sub32_of_le hlimit hstart
  induction n generalizing i m with
  | zero => exact absurd hn (Nat.not_lt_zero i)
  | succ n ih =>
      rw [fixUp, hsub]
      by_cases hturn : c.newStackStart - c.size < i
      · have hnext : sub32 i 4 = i - 4 := sub32_of_le (by omega) (lt_of_le_of_lt hle hstart)
        -- the word at `i` is rewritten if it points into the old stack
        obtain ⟨m₁, hm₁⟩ : ∃ m₁, (if c.oldStackPointer < read32 m i ∧ read32 m i < c.initialEsp
          then write32 m i (add32 (read32 m i) c.offset) else m) = m₁ := ⟨_, rfl⟩
        have hself : read32 m₁ i = c.relocate (read32 m i) := by
          rw [← hm₁, relocate]
          split_ifs
          · exact read32_write32 (Nat.mod_lt _ (by norm_num))
          · rfl
        have hbyte : ∀ x, x < i ∨ i + 4 ≤ x → m₁ x = m x := by
          intro x hx
          rw [← hm₁]
          split_ifs
          · exact write32_byte hx
          · rfl
        rw [if_pos hturn]
        simp only [hm₁, hnext]
        obtain ⟨m', hfix, hwords, hbytes⟩ := ih (m := m₁) (i := i - 4) (by omega) (by omega) (by omega)
        refine ⟨m', hfix, fun y hy => ?_, fun x hx => ?_⟩
        · rw [hwords y hy]
          rcases Nat.lt_trichotomy y i with hlt | rfl | hgt
          · have hsame : read32 m₁ y = read32 m y := read32_congr fun x _ _ => hbyte x (by omega)
            rw [hsame]
            by_cases habove : c.newStackStart - c.size < y
            · rw [if_pos (by omega), if_pos (by omega)]
            · rw [if_neg (by omega), if_neg (by omega)]
          · rw [if_neg (by omega), if_pos ⟨hturn, le_rfl⟩, hself]
          · have hsame : read32 m₁ y = read32 m y := read32_congr fun x _ _ => hbyte x (by omega)
            rw [hsame, if_neg (by omega), if_neg (by omega)]
        · rw [hbytes x (by omega), hbyte x (by omega)]
      · rw [if_neg hturn]
        refine ⟨m, rfl, fun y hy => ?_, fun _ _ => rfl⟩
        rw [if_neg (by omega)]

/-! ### The new stack -/

/-- The stack pointer is one of the old stack, which the new one does not meet; the new stack starts at a
word, and the offset is a number of words. -/
structure Fits (c : MoveStack) : Prop where
  start_lt : c.newStackStart < 2 ^ 32
  start_aligned : c.newStackStart % 4 = 0
  size_le : c.size ≤ c.newStackStart
  offset_aligned : c.offset % 4 = 0
  sp_aligned : c.oldStackPointer % 4 = 0
  sp_gt : c.initialEsp - c.size < c.oldStackPointer
  sp_le : c.oldStackPointer ≤ c.initialEsp
  disjoint : Disjoint (Set.Ioc (c.newStackStart - c.size) c.newStackStart)
    (Set.Ioc (c.initialEsp - c.size) c.initialEsp)

lemma initialEsp_lt : c.initialEsp < 2 ^ 32 := Nat.mod_lt _ (by norm_num)

lemma offset_eq (hstart : c.newStackStart < 2 ^ 32) :
    c.newStackStart = add32 c.initialEsp c.offset := by
  have hesp := initialEsp_lt (c := c)
  rw [offset, add32, sub32]
  omega

namespace Fits

variable (h : c.Fits)
include h

lemma initialEsp_aligned : c.initialEsp % 4 = 0 := by
  have hstart := offset_eq h.start_lt
  have ha := h.start_aligned
  have ho := h.offset_aligned
  rw [add32] at hstart
  omega

/-- The new region is below the words in use on the old stack, or above the old stack. -/
lemma apart : c.newStackStart + 4 ≤ c.oldStackPointer ∨
    c.initialEsp ≤ c.newStackStart - c.size := by
  have hsp := h.sp_gt
  have hle := h.sp_le
  have ha := h.start_aligned
  have hspa := h.sp_aligned
  have hsize := h.size_le
  by_contra hmeet
  -- the start of the lower of the two stacks is in both
  have hnot : ∀ x, x ∈ Set.Ioc (c.newStackStart - c.size) c.newStackStart →
      x ∉ Set.Ioc (c.initialEsp - c.size) c.initialEsp :=
    fun x hx => Set.disjoint_left.mp h.disjoint hx
  rcases Nat.le_total c.newStackStart c.initialEsp with horder | horder
  · exact hnot c.newStackStart ⟨by omega, le_rfl⟩ ⟨by omega, horder⟩
  · exact hnot c.initialEsp ⟨by omega, horder⟩ ⟨by omega, le_rfl⟩

/-- The new address of a word of the old stack. -/
lemma add32_offset {x : ℕ} (hx : c.oldStackPointer ≤ x) (hlt : x ≤ c.initialEsp) :
    add32 x c.offset + (c.initialEsp - x) = c.newStackStart ∧
      c.newStackStart - c.size < add32 x c.offset := by
  have hstart := offset_eq h.start_lt
  have hsp := h.sp_gt
  have hle := h.size_le
  have hlt' := h.start_lt
  have hoffset : c.offset < 2 ^ 32 := Nat.mod_lt _ (by norm_num)
  rw [add32] at hstart ⊢
  omega

end Fits

/-- **The stack is copied**, and then each of its words is visited once. -/
lemma moveStack_words (h : c.Fits) :
    ∃ m', c.moveStack m = some (add32 c.oldStackPointer c.offset, add32 c.oldBasePointer c.offset, m') ∧
      (∀ x, x % 4 = 0 → c.oldStackPointer ≤ x → x < c.initialEsp →
        read32 m' (add32 x c.offset) = c.relocate (read32 m x)) ∧
      ∀ x, x ≤ c.newStackStart - c.size ∨ c.newStackStart + 4 ≤ x → m' x = m x := by
  have hesp := initialEsp_lt (c := c)
  have hespa := h.initialEsp_aligned
  have hsp := h.sp_gt
  have hle := h.sp_le
  have hstart := h.start_lt
  have hstarta := h.start_aligned
  have hsize := h.size_le
  have hapart := h.apart
  obtain ⟨hnew, hnew'⟩ := h.add32_offset le_rfl hle
  have hcount : sub32 c.initialEsp c.oldStackPointer = c.initialEsp - c.oldStackPointer :=
    sub32_of_le hle hesp
  obtain ⟨m₁, hm₁⟩ : ∃ m₁, memcpy c.oldStackPointer (add32 c.oldStackPointer c.offset)
    (sub32 c.initialEsp c.oldStackPointer) m = m₁ := ⟨_, rfl⟩
  have hcopied : ∀ x, m₁ x =
      if add32 c.oldStackPointer c.offset ≤ x ∧ x < c.newStackStart
      then m (x - add32 c.oldStackPointer c.offset + c.oldStackPointer) else m x := by
    intro x
    rw [← hm₁, hcount, memcpy_byte (by omega) (by omega) (by omega) (by omega), hnew]
  obtain ⟨m', hfix, hwords, hbytes⟩ := fixUp_spec (c := c) (m := m₁) (i := c.newStackStart)
    (n := 2 ^ 32) hsize hstart h.start_aligned le_rfl hstart
  refine ⟨m', ?_, fun x hx hlo hhi => ?_, fun x hx => ?_⟩
  · simp only [moveStack, hm₁, hfix]
    rfl
  · obtain ⟨haddr, habove⟩ := h.add32_offset hlo (le_of_lt hhi)
    have hword : read32 m₁ (add32 x c.offset) = read32 m x := by
      refine read32_shift fun k hk => ?_
      have hback : add32 x c.offset + k - add32 c.oldStackPointer c.offset + c.oldStackPointer
          = x + k := by omega
      rw [hcopied, if_pos ⟨by omega, by omega⟩, hback]
    rw [hwords _ (by omega), if_pos ⟨habove, by omega⟩, hword]
  · rw [hbytes x hx, hcopied, if_neg (by omega)]

/-- **Moving the stack** keeps the words, with the offset added to those that point into the old one, and
the chains of frame pointers; the old stack is unchanged. -/
theorem move_stack_relocates (h : c.Fits) (m : Bytes) :
    ∃ m', c.moveStack m = some (add32 c.oldStackPointer c.offset, add32 c.oldBasePointer c.offset, m') ∧
      (∀ x, x % 4 = 0 → c.oldStackPointer ≤ x → x < c.initialEsp →
        read32 m' (add32 x c.offset) =
          if c.oldStackPointer < read32 m x ∧ read32 m x < c.initialEsp
          then add32 (read32 m x) c.offset else read32 m x) ∧
      (∀ l : List ℕ, (∀ a ∈ l, a % 4 = 0 ∧ c.oldStackPointer < a ∧ a < c.initialEsp) →
        l.IsChain (fun a b => read32 m a = b) →
        (l.map (add32 · c.offset)).IsChain fun a b => read32 m' a = b) ∧
      ∀ x, c.oldStackPointer ≤ x → x < c.initialEsp → m' x = m x := by
  obtain ⟨m', hmove, hwords, hbytes⟩ := moveStack_words (m := m) h
  refine ⟨m', hmove, hwords, fun l hl hchain => ?_, fun x hlo hhi => hbytes x ?_⟩
  · refine (List.isChain_map _).mpr (hchain.imp_of_mem_imp fun a b ha hb hab => ?_)
    obtain ⟨halign, hlo, hhi⟩ := hl a ha
    obtain ⟨-, hlo', hhi'⟩ := hl b hb
    rw [hwords a halign hlo.le hhi, hab, relocate, if_pos ⟨hlo', hhi'⟩]
  · rcases h.apart with hbelow | habove
    · exact Or.inr (by omega)
    · exact Or.inl (by omega)

/-- A call as `initialise_tasking` makes it, with four words in use. -/
def bootStack : MoveStack where
  newStackStart := 0xE0000000
  size := kernelStackSize
  imageEnd := 0x110000
  oldStackPointer := 0x110FF0
  oldBasePointer := 0x110FF4

lemma bootStack_fits : bootStack.Fits where
  start_lt := by decide
  start_aligned := by decide
  size_le := by decide
  offset_aligned := by decide
  sp_aligned := by decide
  sp_gt := by decide
  sp_le := by decide
  disjoint := Set.disjoint_left.mpr fun x hx hx' => by
    have hnew : 0xE0000000 - 0x1000 < x := hx.1
    have hold : x ≤ 0x111000 := hx'.2
    omega

/-- One saved frame pointer. -/
theorem move_stack_relocates_frame :
    ∃ m', bootStack.moveStack (write32 (fun _ => 0) 0x110FF4 0x110FFC)
        = some (0xDFFFFFF0, 0xDFFFFFF4, m') ∧
      read32 m' 0xDFFFFFF4 = 0xDFFFFFFC ∧ read32 m' 0xDFFFFFFC = 0 := by
  obtain ⟨m', hmove, hwords, -, -⟩ :=
    move_stack_relocates bootStack_fits (write32 (fun _ => 0) 0x110FF4 0x110FFC)
  have hframe := hwords 0x110FF4 (by decide) (by decide) (by decide)
  have hlast := hwords 0x110FFC (by decide) (by decide) (by decide)
  rw [read32_write32 (by norm_num), if_pos (by decide)] at hframe
  rw [read32_write32_of_apart (by norm_num), if_neg (by decide)] at hlast
  exact ⟨m', hmove, hframe, hlast⟩

end MoveStack

end Matanos
