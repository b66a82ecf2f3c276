import Mathlib.Tactic

/-!
Frames of physical memory and page entries, as `cpu/paging.c` has them.

* `Frames`: the bitset `frames`, with `setFrame`, `clearFrame`, `testFrame` and `firstFrame`;
  `Frames.used` is its meaning, and `used_setFrame`, `used_clearFrame` and `firstFrameOf_eq_some`
  are what the rest of the development knows of the four;
* `Page`: the bit field `page_t`, with the word it is stored in;
* `allocFrame`, `freeFrame`: `alloc_frame` and `free_frame` on the bitset and one entry.
-/

namespace Matanos

/-- `nframes`, for the 16 MB of memory that `initialise_paging` assumes. -/
def nframes : ℕ := 0x1000000 / 0x1000

/-- `INDEX_FROM_BIT`. -/
def indexFromBit (a : ℕ) : ℕ := a / (8 * 4)

/-- `OFFSET_FROM_BIT`. -/
def offsetFromBit (a : ℕ) : ℕ := a % (8 * 4)

/-- The bitset `frames`, word by word. -/
abbrev Frames := ℕ → BitVec 32

namespace Frames

/-- The bitset that `initialise_paging` starts from. -/
def clear : Frames := fun _ => 0

/-- `set_frame`, which takes the address of the frame. -/
def setFrame (frames : Frames) (frameAddr : ℕ) : Frames :=
  let frame := frameAddr / 0x1000
  let idx := indexFromBit frame
  let off := offsetFromBit frame
  Function.update frames idx (frames idx ||| (0x1#32 <<< off))

/-- `clear_frame`, which takes the address of the frame. -/
def clearFrame (frames : Frames) (frameAddr : ℕ) : Frames :=
  let frame := frameAddr / 0x1000
  let idx := indexFromBit frame
  let off := offsetFromBit frame
  Function.update frames idx (frames idx &&& ~~~ (0x1#32 <<< off))

/-- `test_frame`, which takes the address of the frame. -/
def testFrame (frames : Frames) (frameAddr : ℕ) : BitVec 32 :=
  let frame := frameAddr / 0x1000
  frames (indexFromBit frame) &&& (0x1#32 <<< offsetFromBit frame)

/-- `first_frame` when `nframes` is `n`. With every bit set the loops run out and the function has no
return value (`none`). -/
def firstFrameOf (n : ℕ) (frames : Frames) : Option ℕ :=
  (List.range (indexFromBit n)).findSome? fun i =>
    if frames i ≠ 0xFFFFFFFF#32 then
      ((List.range 32).find? fun j => frames i &&& (0x1#32 <<< j) = 0#32).map fun j => i * 4 * 8 + j
    else none

/-- `first_frame`, with the `nframes` that `initialise_paging` sets. -/
def firstFrame (frames : Frames) : Option ℕ := frames.firstFrameOf nframes

/-- The bit of the frame `f`. -/
def used (frames : Frames) (f : ℕ) : Bool := (frames (indexFromBit f)).getLsbD (offsetFromBit f)

variable {frames : Frames} {f g n : ℕ}

@[simp] lemma used_clear (f : ℕ) : clear.used f = false := by simp [used, clear]

/-- A bit is its word and its place in it. -/
lemma index_offset_inj (hi : indexFromBit f = indexFromBit g)
    (ho : offsetFromBit f = offsetFromBit g) : f = g := by
  simp only [indexFromBit, offsetFromBit] at hi ho
  omega

lemma offsetFromBit_lt (f : ℕ) : offsetFromBit f < 32 := Nat.mod_lt _ (by norm_num)

/-- The masked word is null exactly when the bit is clear. -/
lemma and_shiftLeft_eq_zero_iff (w : BitVec 32) {j : ℕ} (hj : j < 32) :
    w &&& (0x1#32 <<< j) = 0#32 ↔ w.getLsbD j = false := by
  rw [← BitVec.twoPow_eq, BitVec.and_twoPow]
  cases hw : w.getLsbD j with
  | false => simp
  | true =>
      simp only [if_true, Bool.true_eq_false, iff_false]
      intro h
      have := congrArg (fun v => BitVec.getLsbD v j) h
      simp [hj] at this

/-- **`set_frame` sets the bit of its frame and no other.** -/
lemma used_setFrame (frames : Frames) (addr g : ℕ) :
    (frames.setFrame addr).used g = (frames.used g || (addr / 0x1000 == g)) := by
  simp only [used, setFrame]
  by_cases hi : indexFromBit g = indexFromBit (addr / 0x1000)
  · rw [hi, Function.update_self, BitVec.getLsbD_or, ← BitVec.twoPow_eq, BitVec.getLsbD_twoPow]
    congr 1
    by_cases ho : offsetFromBit (addr / 0x1000) = offsetFromBit g
    · simp [offsetFromBit_lt, index_offset_inj hi.symm ho]
    · have hne : addr / 0x1000 ≠ g := fun h => ho (by rw [h])
      simp [ho, hne]
  · have hne : addr / 0x1000 ≠ g := fun h => hi (by rw [h])
    rw [Function.update_of_ne hi]
    simp [hne]

/-- **`clear_frame` clears the bit of its frame and no other.** -/
lemma used_clearFrame (frames : Frames) (addr g : ℕ) :
    (frames.clearFrame addr).used g = (frames.used g && !(addr / 0x1000 == g)) := by
  simp only [used, clearFrame]
  by_cases hi : indexFromBit g = indexFromBit (addr / 0x1000)
  · rw [hi, Function.update_self, BitVec.getLsbD_and, ← BitVec.twoPow_eq, BitVec.getLsbD_not,
      BitVec.getLsbD_twoPow]
    congr 1
    by_cases ho : offsetFromBit (addr / 0x1000) = offsetFromBit g
    · simp [offsetFromBit_lt, index_offset_inj hi.symm ho]
    · have hne : addr / 0x1000 ≠ g := fun h => ho (by rw [h])
      simp [ho, hne, offsetFromBit_lt]
  · have hne : addr / 0x1000 ≠ g := fun h => hi (by rw [h])
    rw [Function.update_of_ne hi]
    simp [hne]

/-- `test_frame` reads the bit of its frame. -/
lemma testFrame_eq_zero_iff (frames : Frames) (addr : ℕ) :
    frames.testFrame addr = 0#32 ↔ frames.used (addr / 0x1000) = false :=
  and_shiftLeft_eq_zero_iff _ (offsetFromBit_lt _)

/-! ### `first_frame` -/

/-- The inner loop: the first clear bit of a word. -/
lemma find?_clear_eq_some {w : BitVec 32} {j : ℕ} :
    ((List.range 32).find? fun j => w &&& (0x1#32 <<< j) = 0#32) = some j ↔
      j < 32 ∧ w.getLsbD j = false ∧ ∀ k < j, w.getLsbD k = true := by
  rw [List.find?_range_eq_some]
  constructor
  · rintro ⟨hj, hmem, hlt⟩
    have hj32 : j < 32 := List.mem_range.mp hmem
    refine ⟨hj32, (and_shiftLeft_eq_zero_iff w hj32).mp (by simpa using hj), fun k hk => ?_⟩
    have := hlt k hk
    simpa [and_shiftLeft_eq_zero_iff w (hk.trans hj32)] using this
  · rintro ⟨hj32, hj, hlt⟩
    refine ⟨?_, List.mem_range.mpr hj32, fun k hk => ?_⟩
    · simpa using (and_shiftLeft_eq_zero_iff w hj32).mpr hj
    · simp [and_shiftLeft_eq_zero_iff w (hk.trans hj32), hlt k hk]

/-- A word that is not full has a clear bit. -/
lemma exists_clear {w : BitVec 32} (hw : w ≠ 0xFFFFFFFF#32) :
    ∃ j, j < 32 ∧ w.getLsbD j = false := by
  by_contra hall
  push Not at hall
  refine hw (BitVec.eq_of_getLsbD_eq fun j hj => ?_)
  have h1 := hall j hj
  have h2 : (0xFFFFFFFF#32).getLsbD j = true := by
    have : (0xFFFFFFFF#32) = BitVec.allOnes 32 := by decide
    rw [this, BitVec.getLsbD_allOnes]
    simpa using hj
  rw [h2]
  simpa using h1

/-- The outer loop stops at the first index with a result. -/
lemma findSome?_range {β : Type*} {φ : ℕ → Option β} {n i : ℕ} {b : β} (hi : i < n)
    (hφ : φ i = some b) (hlt : ∀ k < i, φ k = none) : (List.range n).findSome? φ = some b := by
  induction n with
  | zero => omega
  | succ n ih =>
      rw [List.range_succ, List.findSome?_append]
      rcases Nat.lt_succ_iff_lt_or_eq.mp hi with h | rfl
      · rw [ih h, Option.some_or]
      · have hnone : (List.range i).findSome? φ = none :=
          List.findSome?_eq_none_iff.mpr fun k hk => hlt k (List.mem_range.mp hk)
        rw [hnone, Option.none_or, List.findSome?_cons, hφ]

/-- The bits of a word that precedes the first clear bit are all set, and the word is passed
over. -/
lemma firstFrame_pass {i : ℕ} (h : ∀ j < 32, (frames i).getLsbD j = true) :
    (if frames i ≠ 0xFFFFFFFF#32 then
      ((List.range 32).find? fun j => frames i &&& (0x1#32 <<< j) = 0#32).map fun j => i * 4 * 8 + j
    else none) = none := by
  refine if_neg fun hne => ?_
  obtain ⟨j, hj, hclear⟩ := exists_clear hne
  rw [h j hj] at hclear
  exact absurd hclear (by decide)

/-- A bit in its word. -/
lemma getLsbD_eq_used (frames : Frames) (k : ℕ) {j : ℕ} (hj : j < 32) :
    (frames k).getLsbD j = frames.used (k * 32 + j) := by
  have h1 : indexFromBit (k * 32 + j) = k := by simp only [indexFromBit]; omega
  have h2 : offsetFromBit (k * 32 + j) = j := by simp only [offsetFromBit]; omega
  rw [used, h1, h2]

/-- **`first_frame` returns the first clear bit.** -/
lemma firstFrameOf_eq_some (hn : n % 32 = 0) (hf : f < n) (hclear : frames.used f = false)
    (hset : ∀ g < f, frames.used g = true) : frames.firstFrameOf n = some f := by
  have hdecomp : f / 32 * 32 + f % 32 = f := by omega
  refine findSome?_range (i := f / 32) ?_ ?_ fun k hk => firstFrame_pass fun j hj => ?_
  · simp only [indexFromBit]
    omega
  · have hbit : (frames (f / 32)).getLsbD (f % 32) = false := by
      rw [getLsbD_eq_used _ _ (by omega), hdecomp, hclear]
    have hne : frames (f / 32) ≠ 0xFFFFFFFF#32 := by
      intro heq
      have hones : (0xFFFFFFFF#32) = BitVec.allOnes 32 := by decide
      rw [heq, hones, BitVec.getLsbD_allOnes] at hbit
      simp at hbit
      omega
    have hfind := find?_clear_eq_some (w := frames (f / 32)) (j := f % 32)
    rw [if_pos hne, hfind.mpr ⟨by omega, hbit, fun k hk => ?_⟩, Option.map_some]
    · congr 1
      omega
    · rw [getLsbD_eq_used _ _ (by omega), hset _ (by omega)]
  · rw [getLsbD_eq_used _ _ hj, hset _ (by omega)]

/-- With all bits set the loops run out. -/
lemma firstFrameOf_eq_none (h : ∀ f < n, frames.used f = true) : frames.firstFrameOf n = none := by
  refine List.findSome?_eq_none_iff.mpr fun k hk => firstFrame_pass fun j hj => ?_
  have hk' : k < n / 32 := by simpa [indexFromBit] using hk
  rw [getLsbD_eq_used _ _ hj, h _ (by omega)]

/-- The first clear bit, when there is one. -/
lemma exists_firstFrameOf (hn : n % 32 = 0) (h : ∃ f < n, frames.used f = false) :
    ∃ f < n, frames.firstFrameOf n = some f ∧ frames.used f = false ∧
      ∀ g < f, frames.used g = true := by
  have hex : ∃ f, f < n ∧ frames.used f = false := h
  obtain ⟨hlt, hclear⟩ := Nat.find_spec hex
  have hmin : ∀ g < Nat.find hex, frames.used g = true := by
    intro g hg
    have := Nat.find_min hex hg
    simpa [hg.trans hlt] using this
  exact ⟨Nat.find hex, hlt, firstFrameOf_eq_some hn hlt hclear hmin, hclear, hmin⟩

lemma firstFrame_eq_some (hf : f < nframes) (hclear : frames.used f = false)
    (hset : ∀ g < f, frames.used g = true) : frames.firstFrame = some f :=
  firstFrameOf_eq_some (by decide) hf hclear hset

lemma firstFrame_eq_none (h : ∀ f < nframes, frames.used f = true) : frames.firstFrame = none :=
  firstFrameOf_eq_none h

/-- What a result of `first_frame` says. -/
lemma firstFrame_spec (h : frames.firstFrame = some f) :
    f < nframes ∧ frames.used f = false ∧ ∀ g < f, frames.used g = true := by
  by_cases hall : ∀ g < nframes, frames.used g = true
  · rw [firstFrame_eq_none hall] at h
    exact absurd h (by simp)
  · push Not at hall
    obtain ⟨g, hg, hne⟩ := hall
    have hfree : ∃ g < nframes, frames.used g = false := ⟨g, hg, by simpa using hne⟩
    obtain ⟨f', hlt, heq, hclear, hmin⟩ := exists_firstFrameOf (by decide) hfree
    rw [firstFrame, heq, Option.some.injEq] at h
    subst h
    exact ⟨hlt, hclear, hmin⟩

/-- While a frame is free `first_frame` finds one. -/
lemma exists_firstFrame (h : ∃ f < nframes, frames.used f = false) :
    ∃ f, frames.firstFrame = some f := by
  obtain ⟨f, -, heq, -⟩ := exists_firstFrameOf (n := nframes) (by decide) h
  exact ⟨f, heq⟩

end Frames

/-! ### Page entries -/

/-- The field `unused` has a value. -/
instance neZero_unused : NeZero 128 := ⟨by decide⟩

/-- The field `frame` has a value. -/
instance neZero_frame : NeZero (2 ^ 20) := ⟨by decide⟩

/-- The bit field `page_t`. -/
structure Page where
  present : Bool
  rw : Bool
  user : Bool
  accessed : Bool
  dirty : Bool
  unused : Fin 128
  frame : Fin (2 ^ 20)
deriving DecidableEq

namespace Page

/-- The entry whose word is null. -/
def zero : Page := ⟨false, false, false, false, false, 0, 0⟩

end Page

/-- `alloc_frame`, with the bitset and the entry it leaves; `none` when no frame is free. -/
def allocFrame (frames : Frames) (page : Page) (isKernel isWriteable : Bool) :
    Option (Frames × Page) :=
  if page.frame ≠ 0 then some (frames, page)
  else
    frames.firstFrame.map fun idx =>
      (frames.setFrame (idx * 0x1000),
        { page with
          present := true
          rw := isWriteable
          user := !isKernel
          frame := Fin.ofNat (2 ^ 20) idx })

/-- `free_frame`, with the bitset and the entry it leaves. -/
def freeFrame (frames : Frames) (page : Page) : Frames × Page :=
  if page.frame = 0 then (frames, page)
  else (frames.clearFrame page.frame, { page with frame := 0 })

/-- **`alloc_frame` on an entry without a frame** takes the first clear one. -/
lemma allocFrame_eq {frames : Frames} {page : Page} {f : ℕ} (h0 : page.frame = 0)
    (hf : frames.firstFrame = some f) (k w : Bool) :
    allocFrame frames page k w = some (frames.setFrame (f * 0x1000),
      { page with present := true, rw := w, user := !k, frame := Fin.ofNat (2 ^ 20) f }) := by
  rw [allocFrame, if_neg (not_not.mpr h0), hf, Option.map_some]

/-- The frame number fits its field. -/
lemma val_ofNat_of_lt {f : ℕ} (hf : f < nframes) : (Fin.ofNat (2 ^ 20) f).val = f := by
  simp only [nframes] at hf
  simp only [Fin.ofNat]
  omega

end Matanos
