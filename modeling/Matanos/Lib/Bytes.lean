import Mathlib.Tactic

/-!
Byte-addressed memory with 32-bit little-endian words.

* `read32`, `write32`: the word at an address, aligned or not;
* `read32_write32`: a word is read back as it was written;
* `write32_byte`, `read32_write32_of_apart` and the lemmas beside them: everything else is
  unchanged;
* `AgreeOn`: two memories with the same bytes from one address up to another, and what is read
  there;
* `Loaded`: a list of bytes in memory; `le32`, `Loaded.read32`: a word in it.
-/

namespace Lib

/-- Memory by bytes. -/
abbrev Bytes := ℕ → UInt8

/-- The word at `a`. -/
def read32 (m : Bytes) (a : ℕ) : ℕ :=
  (m a).toNat + 0x100 * (m (a + 1)).toNat + 0x10000 * (m (a + 2)).toNat
    + 0x1000000 * (m (a + 3)).toNat

/-- The memory with the byte `v` at `a`. -/
def write8 (m : Bytes) (a : ℕ) (v : UInt8) : Bytes := Function.update m a v

/-- The memory with the word `v` at `a`. -/
def write32 (m : Bytes) (a v : ℕ) : Bytes := fun x =>
  if x = a then UInt8.ofNat v
  else if x = a + 1 then UInt8.ofNat (v / 0x100)
  else if x = a + 2 then UInt8.ofNat (v / 0x10000)
  else if x = a + 3 then UInt8.ofNat (v / 0x1000000)
  else m x

variable {m m' : Bytes} {a b v x : ℕ} {w : UInt8}

lemma read32_lt : read32 m a < 2 ^ 32 := by
  have h0 := (m a).toNat_lt
  have h1 := (m (a + 1)).toNat_lt
  have h2 := (m (a + 2)).toNat_lt
  have h3 := (m (a + 3)).toNat_lt
  simp only [read32]
  omega

/-- **A word is read back as it was written.** -/
lemma read32_write32 (hv : v < 2 ^ 32) : read32 (write32 m a v) a = v := by
  simp only [read32, write32, if_true, Nat.add_eq_left, one_ne_zero, if_false,
    Nat.reduceEqDiff, OfNat.ofNat_ne_zero, Nat.add_right_cancel_iff, UInt8.toNat_ofNat']
  omega

/-- The bytes outside a written word. -/
lemma write32_byte (h : x < a ∨ a + 4 ≤ x) : write32 m a v x = m x := by
  simp only [write32]
  rw [if_neg (by omega), if_neg (by omega), if_neg (by omega), if_neg (by omega)]

/-- The bytes other than a written one. -/
lemma write8_byte (h : x ≠ a) : write8 m a w x = m x := Function.update_of_ne h _ _

lemma write8_self : write8 m a w a = w := Function.update_self _ _ _

/-- What is read depends on the four bytes only. -/
lemma read32_congr (h : ∀ x, a ≤ x → x < a + 4 → m' x = m x) : read32 m' a = read32 m a := by
  simp only [read32]
  rw [h a (by omega) (by omega), h (a + 1) (by omega) (by omega), h (a + 2) (by omega) (by omega),
    h (a + 3) (by omega) (by omega)]

/-- Four bytes read at two addresses. -/
lemma read32_shift (h : ∀ k < 4, m' (a + k) = m (b + k)) : read32 m' a = read32 m b := by
  have h0 : m' a = m b := h 0 (by norm_num)
  simp only [read32]
  rw [h0, h 1 (by norm_num), h 2 (by norm_num), h 3 (by norm_num)]

lemma read32_write32_of_apart (h : b + 4 ≤ a ∨ a + 4 ≤ b) :
    read32 (write32 m a v) b = read32 m b :=
  read32_congr fun _ _ _ => write32_byte (by omega)

lemma read32_write8_of_apart (h : b + 4 ≤ a ∨ a + 1 ≤ b) :
    read32 (write8 m a w) b = read32 m b :=
  read32_congr fun _ _ _ => write8_byte (by omega)

/-- The two memories have the same bytes from `a` up to `b`. -/
def AgreeOn (m m' : Bytes) (a b : ℕ) : Prop := ∀ x, a ≤ x → x < b → m' x = m x

lemma AgreeOn.read32 (h : AgreeOn m m' a b) (h1 : a ≤ x) (h2 : x + 4 ≤ b) :
    Lib.read32 m' x = Lib.read32 m x :=
  read32_congr fun y h3 h4 => h y (by omega) (by omega)

lemma AgreeOn.mono {a' b' : ℕ} (h : AgreeOn m m' a b) (h1 : a ≤ a') (h2 : b' ≤ b) :
    AgreeOn m m' a' b' :=
  fun x hx hx' => h x (by omega) (by omega)

lemma AgreeOn.trans {m'' : Bytes} (h : AgreeOn m m' a b) (h' : AgreeOn m' m'' a b) :
    AgreeOn m m'' a b :=
  fun x hx hx' => (h' x hx hx').trans (h x hx hx')

/-! ### Lists of bytes in memory -/

/-- The list is in memory from `a` on. -/
def Loaded (m : Bytes) (a : ℕ) (l : List UInt8) : Prop := ∀ i (hi : i < l.length), m (a + i) = l[i]

/-- The bytes of a word. -/
def le32 (v : ℕ) : List UInt8 :=
  [UInt8.ofNat v, UInt8.ofNat (v / 0x100), UInt8.ofNat (v / 0x10000), UInt8.ofNat (v / 0x1000000)]

@[simp] lemma length_le32 : (le32 v).length = 4 := rfl

variable {l l' : List UInt8}

/-- What is loaded one behind the other. -/
lemma loaded_append : Loaded m a (l ++ l') ↔ Loaded m a l ∧ Loaded m (a + l.length) l' := by
  constructor
  · intro h
    refine ⟨fun i hi => ?_, fun i hi => ?_⟩
    · rw [h i (by rw [List.length_append]; omega), List.getElem_append_left hi]
    · have hi' : l.length + i < (l ++ l').length := by rw [List.length_append]; omega
      rw [add_assoc, h _ hi', List.getElem_append_right (Nat.le_add_right _ _)]
      simp
  · rintro ⟨h, h'⟩ i hi
    rcases Nat.lt_or_ge i l.length with hlt | hge
    · rw [h i hlt, List.getElem_append_left hlt]
    · have hbehind := h' (i - l.length) (by rw [List.length_append] at hi; omega)
      rw [add_assoc, Nat.add_sub_cancel' hge] at hbehind
      rw [hbehind, List.getElem_append_right hge]

/-- **A loaded word.** -/
lemma Loaded.read32 (h : Loaded m a (le32 v ++ l)) (hv : v < 2 ^ 32) : Lib.read32 m a = v := by
  have h0 : m a = UInt8.ofNat v := h 0 (by simp)
  have h1 : m (a + 1) = UInt8.ofNat (v / 0x100) := h 1 (by simp; omega)
  have h2 : m (a + 2) = UInt8.ofNat (v / 0x10000) := h 2 (by simp; omega)
  have h3 : m (a + 3) = UInt8.ofNat (v / 0x1000000) := h 3 (by simp; omega)
  simp only [Lib.read32, h0, h1, h2, h3, UInt8.toNat_ofNat']
  omega

lemma Loaded.agree (h : Loaded m a l) (hagree : AgreeOn m m' a (a + l.length)) : Loaded m' a l :=
  fun i hi => (hagree _ (by omega) (by omega)).trans (h i hi)

end Lib
