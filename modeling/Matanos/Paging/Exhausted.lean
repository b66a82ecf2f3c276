import Matanos.Paging.Bitmap

/-!
`alloc_frame` when no frame is free.

The loops of `first_frame` run out then, and the function ends without a `return`. What its caller
reads is the word that happens to be in the register.

* `Frames.firstFrameWord`: `first_frame` as the word that is read; `allocFrameWord`: `alloc_frame` with
  it, up to the end or to `PANIC`;
* `alloc_frame_panics_iff`: the word for which the caller sees that nothing is free.
-/

namespace Matanos

/-- `first_frame`, with the word `fallen` in the register when it ends without a `return`. -/
def Frames.firstFrameWord (frames : Frames) (fallen : ℕ) : ℕ := frames.firstFrame.getD fallen

/-- How a call of `alloc_frame` ends, with the bitset and the entry. -/
inductive AllocEnd where
  | returned (frames : Frames) (page : Page)
  | panic (frames : Frames) (page : Page)

/-- `alloc_frame`, with the word that `first_frame` leaves if it ends without a `return`. -/
def allocFrameWord (fallen : ℕ) (frames : Frames) (page : Page) (isKernel isWriteable : Bool) :
    AllocEnd :=
  if page.frame ≠ 0 then .returned frames page
  else
    let idx := frames.firstFrameWord fallen
    if idx = 0xFFFFFFFF then .panic frames page
    else
      .returned (frames.setFrame (idx * 0x1000 % 2 ^ 32))
        { page with
          present := true
          rw := isWriteable
          user := !isKernel
          frame := Fin.ofNat (2 ^ 20) idx }

/-- The caller sees that nothing is free and panics with bitset and entry as they were, and does not
give out a frame that is in use. -/
def PanicsUnchanged (fallen : ℕ) (frames : Frames) (page : Page) (isKernel isWriteable : Bool) : Prop :=
  frames.firstFrameWord fallen = 0xFFFFFFFF ∧
    allocFrameWord fallen frames page isKernel isWriteable = .panic frames page ∧
    ∀ frames' page', allocFrameWord fallen frames page isKernel isWriteable = .returned frames' page' →
      frames.used page'.frame = false

variable {frames : Frames} {page : Page} {fallen f : ℕ}

/-- **While a frame is free** the word does not matter. -/
lemma allocFrameWord_of_free (hf : frames.firstFrame = some f) (isKernel isWriteable : Bool) :
    (allocFrame frames page isKernel isWriteable).map (fun r => AllocEnd.returned r.1 r.2)
      = some (allocFrameWord fallen frames page isKernel isWriteable) := by
  have hlt := (Frames.firstFrame_spec hf).1
  have hword : frames.firstFrameWord fallen = f := by rw [Frames.firstFrameWord, hf, Option.getD_some]
  have hsmall : f < 4096 := hlt
  have haddr : f * 0x1000 % 2 ^ 32 = f * 0x1000 := Nat.mod_eq_of_lt (by omega)
  rw [allocFrameWord, allocFrame]
  by_cases hframe : page.frame = 0
  · rw [if_neg (not_not.mpr hframe), if_neg (not_not.mpr hframe), hword, hf]
    simp only [haddr, Option.map_some]
    rw [if_neg (by omega)]
  · rw [if_pos hframe, if_pos hframe, Option.map_some]

/-- With every frame in use, the word is what the caller reads. -/
lemma firstFrameWord_of_full (hfull : ∀ f < nframes, frames.used f = true) :
    frames.firstFrameWord fallen = fallen := by
  rw [Frames.firstFrameWord, Frames.firstFrame_eq_none hfull, Option.getD_none]

/-- **With every frame in use and another word** the entry gets the frame of that word. -/
lemma allocFrameWord_of_full (hfull : ∀ f < nframes, frames.used f = true) (hpage : page.frame = 0)
    (hfallen : fallen ≠ 0xFFFFFFFF) (isKernel isWriteable : Bool) :
    ∃ page', allocFrameWord fallen frames page isKernel isWriteable
        = .returned (frames.setFrame (fallen * 0x1000 % 2 ^ 32)) page' ∧
      page'.present = true ∧ page'.frame = Fin.ofNat (2 ^ 20) fallen := by
  rw [allocFrameWord, if_neg (not_not.mpr hpage), firstFrameWord_of_full hfull]
  simp only [if_neg hfallen]
  exact ⟨_, rfl, rfl, rfl⟩

/-- With every frame in use, `alloc_frame` on an entry without a frame panics, and leaves bitset and
entry as they were, if and only if the word that `first_frame` leaves in the register is `-1`. -/
theorem alloc_frame_panics_iff {frames : Frames} {page : Page} {fallen : ℕ}
    (hfull : ∀ f < nframes, frames.used f = true) (hpage : page.frame = 0)
    (isKernel isWriteable : Bool) :
    PanicsUnchanged fallen frames page isKernel isWriteable ↔ fallen = 0xFFFFFFFF := by
  constructor
  · rintro ⟨hword, -, -⟩
    rwa [firstFrameWord_of_full hfull] at hword
  · rintro rfl
    have hpanic : allocFrameWord 0xFFFFFFFF frames page isKernel isWriteable = .panic frames page := by
      rw [allocFrameWord, if_neg (not_not.mpr hpage), firstFrameWord_of_full hfull]
      exact if_pos rfl
    refine ⟨firstFrameWord_of_full hfull, hpanic, fun frames' page' hreturned => ?_⟩
    rw [hpanic] at hreturned
    exact absurd hreturned (by simp)

/-- The bitset with every bit set. -/
def fullFrames : Frames := fun _ => BitVec.allOnes 32

lemma fullFrames_used (f : ℕ) : fullFrames.used f = true := by
  rw [Frames.used, fullFrames, BitVec.getLsbD_allOnes]
  exact decide_eq_true (Frames.offsetFromBit_lt f)

/-- `-1` in the register. -/
theorem alloc_frame_panics_minus_one :
    PanicsUnchanged 0xFFFFFFFF fullFrames Page.zero false true ↔ (0xFFFFFFFF : ℕ) = 0xFFFFFFFF :=
  alloc_frame_panics_iff (fun f _ => fullFrames_used f) rfl false true

/-- 5 in the register: the entry gets frame 5, which is in use. -/
theorem alloc_frame_shares_frame :
    ¬ PanicsUnchanged 5 fullFrames Page.zero false true := by
  rintro ⟨-, -, hfree⟩
  have hzero : Page.zero.frame = 0 := rfl
  have hfive : (5 : ℕ) ≠ 0xFFFFFFFF := by decide
  obtain ⟨page', hreturned, -, hframe⟩ :=
    allocFrameWord_of_full (fun f _ => fullFrames_used f) hzero hfive false true
  have hunused := hfree _ _ hreturned
  rw [hframe, fullFrames_used] at hunused
  exact absurd hunused (by decide)

end Matanos
