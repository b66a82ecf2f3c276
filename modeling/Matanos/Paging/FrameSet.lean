import Mathlib.Data.Finset.Insert
import Matanos.Paging.Bitmap

/-!
The bitset `frames` of `cpu/paging.c` as a set of frame numbers, for every `nframes`.

* `Frames.members`: the set;
* `members_setFrame`, `members_clearFrame`, `testFrame_ne_zero_iff`, `exists_least`: what the four functions
  do to it or say of it;
* `FrameAction`, `members_acts`: any number of `set_frame` and `clear_frame`, in any order;
* `members_allocFrame`: `alloc_frame` takes the least frame into the set;
* `frames_refine_set`: the four functions together.
-/

namespace Matanos

namespace Frames

variable {frames : Frames} {f n frameAddr : ℕ}

/-- The frames below `n` whose bit is 1. -/
def members (n : ℕ) (frames : Frames) : Finset ℕ := {f ∈ Finset.range n | frames.used f = true}

lemma mem_members : f ∈ frames.members n ↔ f < n ∧ frames.used f = true := by
  rw [members, Finset.mem_filter, Finset.mem_range]

/-- A frame whose bit is 0. -/
lemma used_of_notMem (hf : f < n) (h : f ∉ frames.members n) : frames.used f = false := by
  rw [mem_members] at h
  simpa [hf] using h

/-- **`set_frame` adds its frame.** -/
lemma members_setFrame (h : frameAddr / 0x1000 < n) :
    (frames.setFrame frameAddr).members n = insert (frameAddr / 0x1000) (frames.members n) := by
  ext f
  rw [Finset.mem_insert, mem_members, mem_members, used_setFrame, Bool.or_eq_true, beq_iff_eq]
  constructor
  · rintro ⟨hf, hused | heq⟩
    · exact Or.inr ⟨hf, hused⟩
    · exact Or.inl heq.symm
  · rintro (rfl | ⟨hf, hused⟩)
    · exact ⟨h, Or.inr rfl⟩
    · exact ⟨hf, Or.inl hused⟩

/-- **`clear_frame` removes its frame.** -/
lemma members_clearFrame :
    (frames.clearFrame frameAddr).members n = (frames.members n).erase (frameAddr / 0x1000) := by
  ext f
  rw [Finset.mem_erase, mem_members, mem_members, used_clearFrame, Bool.and_eq_true, Bool.not_eq_true',
    beq_eq_false_iff_ne]
  constructor
  · rintro ⟨hf, hused, hne⟩
    exact ⟨hne.symm, hf, hused⟩
  · rintro ⟨hne, hf, hused⟩
    exact ⟨hf, hused, hne.symm⟩

/-- **`test_frame` is the test for membership.** -/
lemma testFrame_ne_zero_iff (h : frameAddr / 0x1000 < n) :
    frames.testFrame frameAddr ≠ 0#32 ↔ frameAddr / 0x1000 ∈ frames.members n := by
  rw [mem_members, Ne, testFrame_eq_zero_iff, Bool.not_eq_false]
  exact ⟨fun hused => ⟨h, hused⟩, fun hmem => hmem.2⟩

/-- **`first_frame` returns the least frame that is missing**, if there is one. -/
lemma exists_least (hn : n % 32 = 0) (hfull : frames.members n ≠ Finset.range n) :
    ∃ f < n, frames.firstFrameOf n = some f ∧ IsLeast {g | g ∉ frames.members n} f := by
  have hsub : frames.members n ⊆ Finset.range n := Finset.filter_subset _ _
  obtain ⟨g, hg, hmissing⟩ := Finset.exists_of_ssubset (hsub.ssubset_of_ne hfull)
  have hg' := Finset.mem_range.mp hg
  obtain ⟨f, hf, heq, hclear, hmin⟩ := exists_firstFrameOf hn ⟨g, hg', used_of_notMem hg' hmissing⟩
  refine ⟨f, hf, heq, fun hmem => ?_, fun k hk => ?_⟩
  · rw [(mem_members.mp hmem).2] at hclear
    exact absurd hclear (by decide)
  · by_contra hlt
    have hlt' : k < f := Nat.lt_of_not_le hlt
    exact hk (mem_members.mpr ⟨hlt'.trans hf, hmin k hlt'⟩)

/-! ### Runs -/

/-- A change of the bitset, by the address of a frame. -/
inductive FrameAction where
  | set (frameAddr : ℕ)
  | clear (frameAddr : ℕ)

/-- The frame that the action is about. -/
def FrameAction.frame : FrameAction → ℕ
  | .set frameAddr => frameAddr / 0x1000
  | .clear frameAddr => frameAddr / 0x1000

/-- The action on the bitset. -/
def act (frames : Frames) : FrameAction → Frames
  | .set frameAddr => frames.setFrame frameAddr
  | .clear frameAddr => frames.clearFrame frameAddr

/-- The action on a set. -/
def FrameAction.onSet (s : Finset ℕ) : FrameAction → Finset ℕ
  | .set frameAddr => insert (frameAddr / 0x1000) s
  | .clear frameAddr => s.erase (frameAddr / 0x1000)

lemma members_act {a : FrameAction} (h : a.frame < n) :
    (frames.act a).members n = a.onSet (frames.members n) := by
  cases a with
  | set frameAddr => exact members_setFrame h
  | clear frameAddr => exact members_clearFrame

/-- **Any number of actions**, in any order. -/
lemma members_acts {as : List FrameAction} (h : ∀ a ∈ as, a.frame < n) :
    (as.foldl act frames).members n = as.foldl FrameAction.onSet (frames.members n) := by
  induction as generalizing frames with
  | nil => rfl
  | cons a as ih =>
      rw [List.foldl_cons, List.foldl_cons, ih fun b hb => h b (List.mem_cons_of_mem _ hb),
        members_act (h a List.mem_cons_self)]

/-- `alloc_frame` on an entry without a frame takes the least one into the set. -/
lemma members_allocFrame {page : Page} (h0 : page.frame = 0)
    (hfull : frames.members nframes ≠ Finset.range nframes) (isKernel isWriteable : Bool) :
    ∃ f frames' page', allocFrame frames page isKernel isWriteable = some (frames', page') ∧
      IsLeast {g | g ∉ frames.members nframes} f ∧ page'.frame.val = f ∧
      frames'.members nframes = insert f (frames.members nframes) := by
  obtain ⟨f, hf, heq, hleast⟩ := exists_least (by decide) hfull
  have haddr : f * 0x1000 / 0x1000 = f := Nat.mul_div_cancel f (by decide)
  refine ⟨f, _, _, allocFrame_eq h0 heq isKernel isWriteable, hleast, val_ofNat_of_lt hf, ?_⟩
  rw [members_setFrame (by rwa [haddr]), haddr]

end Frames

/-- The bitset is a set of frame numbers: for `n` frames, a multiple of 32, `set_frame` adds the frame of
its address, `clear_frame` removes it, `test_frame` is not zero if and only if it is a member, and
`first_frame` returns the least number that is none, as long as the set is not full. -/
theorem frames_refine_set {n : ℕ} (hn : n % 32 = 0) (frames : Frames) :
    (∀ a, a / 0x1000 < n →
        (frames.setFrame a).members n = insert (a / 0x1000) (frames.members n) ∧
          (frames.clearFrame a).members n = (frames.members n).erase (a / 0x1000) ∧
          (frames.testFrame a ≠ 0#32 ↔ a / 0x1000 ∈ frames.members n)) ∧
      (frames.members n ≠ Finset.range n →
        ∃ f < n, frames.firstFrameOf n = some f ∧ IsLeast {g | g ∉ frames.members n} f) :=
  ⟨fun _ ha => ⟨Frames.members_setFrame ha, Frames.members_clearFrame, Frames.testFrame_ne_zero_iff ha⟩,
    Frames.exists_least hn⟩

/-- Two words, the first one full, and the last frame. -/
theorem frames_refine_set_last :
    ∃ frames : Frames, (frames.setFrame 0x3F000).members 64 = insert 63 (frames.members 64) ∧
      (frames.clearFrame 0x3F000).members 64 = (frames.members 64).erase 63 ∧
      (frames.testFrame 0x3F000 ≠ 0#32 ↔ 63 ∈ frames.members 64) ∧
      ∃ f < 64, frames.firstFrameOf 64 = some f ∧ IsLeast {g | g ∉ frames.members 64} f := by
  obtain ⟨hact, hfirst⟩ := frames_refine_set (n := 64) (by decide)
    fun i => if i = 0 then 0xFFFFFFFF#32 else 0x80000001#32
  obtain ⟨hset, hclear, htest⟩ := hact 0x3F000 (by decide)
  refine ⟨_, hset, hclear, htest, hfirst fun hfull => ?_⟩
  have hmem : 33 ∈ Finset.range 64 := by decide
  rw [← hfull, Frames.mem_members] at hmem
  exact absurd hmem.2 (by decide)

end Matanos
