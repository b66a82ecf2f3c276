import Matanos.Lib.Run
import Matanos.Paging.Bitmap

/-!
Frame accounting: the bitset against the page entries, over runs of `alloc_frame` and
`free_frame`.

* `FrameState`, `FrameState.step`: the bitset with a family of entries, and one call;
* `Accounted`: a bit is set exactly when one present entry holds its frame;
* `Kept`: the accounting after a call, with what a freed entry must look like, and `Sound`: the
  calls that keep it, those that free no present entry and give no frame to an entry that
  already holds frame 0;
* `accounted_iff_sound`: over every run made while a frame is free, all calls keep the
  accounting if and only if all of them are sound.

`free_frame` hands the number of the frame to `clear_frame`, which takes an address: below
`0x1000` the number is read as an address in frame 0, whose bit it clears.
-/

namespace Matanos

open Lib

/-- The bitset and the entries that draw frames from it. -/
structure FrameState (ι : Type*) where
  frames : Frames
  page : ι → Page

/-- A call of `alloc_frame` or of `free_frame` on one of the entries. -/
inductive FrameCall (ι : Type*) where
  | alloc (i : ι) (isKernel isWriteable : Bool)
  | free (i : ι)

namespace FrameState

variable {ι : Type*}

section Calls

variable [DecidableEq ι]

/-- Put back what a call left of the entry `i`. -/
def put (s : FrameState ι) (i : ι) (r : Frames × Page) : FrameState ι :=
  ⟨r.1, Function.update s.page i r.2⟩

/-- One call. -/
def step (s : FrameState ι) : FrameCall ι → Option (FrameState ι)
  | .alloc i k w => (allocFrame s.frames (s.page i) k w).map (s.put i)
  | .free i => some (s.put i (freeFrame s.frames (s.page i)))

end Calls

/-- The clear bitset and null entries. -/
def init : FrameState ι := ⟨Frames.clear, fun _ => Page.zero⟩

/-- The entry `i` is mapped to the frame `f`. -/
def Holds (s : FrameState ι) (i : ι) (f : ℕ) : Prop :=
  (s.page i).present = true ∧ (s.page i).frame.val = f

/-- A bit is set exactly when one present entry holds its frame, and no two hold the same. -/
def Accounted (s : FrameState ι) : Prop :=
  (∀ f < nframes, s.frames.used f = true ↔ ∃! i, s.Holds i f) ∧
    ∀ i j f, s.Holds i f → s.Holds j f → i = j

/-- What the accounting asks of a call that led from `s` to `s'`: the entries are accounted
for, and an entry that was freed is not present and its frame is available again. -/
def Kept (s : FrameState ι) (a : FrameCall ι) (s' : FrameState ι) : Prop :=
  s'.Accounted ∧ ∀ i, a = .free i →
    (s'.page i).present = false ∧ ∀ f, s.Holds i f → s'.frames.used f = false

/-- A frame remains free. -/
def FreeRemains (s : FrameState ι) : Prop := ∃ f < nframes, s.frames.used f = false

/-- The calls that keep the accounting, from the state before the call: no second frame for an
entry that holds frame 0, and no `free_frame` of a present entry. -/
def Sound (s : FrameState ι) : FrameCall ι → Prop
  | .alloc i _ _ => ¬ s.Holds i 0
  | .free i => (s.page i).present = false

instance (s : FrameState ι) (i : ι) (f : ℕ) : Decidable (s.Holds i f) :=
  inferInstanceAs (Decidable (_ ∧ _))

variable {s s' : FrameState ι}

/-- The invariant of sound runs: the accounting, with null frame numbers in the entries that
are not present. -/
def Inv (s : FrameState ι) : Prop :=
  s.Accounted ∧ ∀ i, (s.page i).present = false → (s.page i).frame = 0

lemma inv_init : (init : FrameState ι).Inv := by
  refine ⟨⟨fun f _ => ?_, fun i j f hi _ => ?_⟩, fun i _ => rfl⟩
  · simp only [init, Frames.used_clear, Bool.false_eq_true, false_iff]
    rintro ⟨i, hi, _⟩
    exact absurd hi.1 (by simp [Page.zero])
  · exact absurd hi.1 (by simp [init, Page.zero])

/-- An unused frame is held by no entry. -/
lemma not_holds_of_unused (h : s.Accounted) {f : ℕ} (hf : f < nframes)
    (hfree : s.frames.used f = false) (i : ι) : ¬ s.Holds i f := by
  intro hi
  have hset := (h.1 f hf).mpr ⟨i, hi, fun j hj => h.2 j i f hj hi⟩
  rw [hfree] at hset
  exact Bool.false_ne_true hset

section Steps

variable [DecidableEq ι]

lemma holds_put (s : FrameState ι) (i j : ι) (r : Frames × Page) (f : ℕ) :
    (s.put i r).Holds j f ↔ if j = i then r.2.present = true ∧ r.2.frame.val = f
      else s.Holds j f := by
  by_cases hj : j = i
  · simp [Holds, put, hj]
  · simp [Holds, put, hj]

/-- What a call of `alloc_frame` on an entry without a frame leads to. -/
lemma step_alloc_eq {i : ι} {f : ℕ} (h0 : (s.page i).frame = 0)
    (hf : s.frames.firstFrame = some f) (k w : Bool) :
    s.step (.alloc i k w) = some (s.put i (s.frames.setFrame (f * 0x1000),
      { s.page i with present := true, rw := w, user := !k, frame := Fin.ofNat (2 ^ 20) f })) := by
  rw [step, allocFrame_eq h0 hf, Option.map_some]

/-- Giving the first free frame to an entry that is not present. -/
lemma inv_alloc {i : ι} {f : ℕ} {p : Page} (h : s.Inv) (hf : s.frames.firstFrame = some f)
    (hi : (s.page i).present = false) (hp : p.present = true) (hpf : p.frame.val = f) :
    (s.put i (s.frames.setFrame (f * 0x1000), p)).Inv := by
  obtain ⟨hlt, hfree, _⟩ := Frames.firstFrame_spec hf
  obtain ⟨hacc, hnull⟩ := h
  have hnone := not_holds_of_unused hacc hlt hfree
  have hold : ∀ j g, (s.put i (s.frames.setFrame (f * 0x1000), p)).Holds j g ↔
      (j = i ∧ g = f) ∨ (j ≠ i ∧ s.Holds j g) := by
    intro j g
    rw [holds_put]
    by_cases hj : j = i
    · simp [hj, hp, hpf, eq_comm]
    · simp [hj]
  refine ⟨⟨fun g hg => ?_, fun j j' g hj hj' => ?_⟩, fun j hj => ?_⟩
  · have hdiv : f * 0x1000 / 0x1000 = f := by omega
    change (s.frames.setFrame (f * 0x1000)).used g = true ↔ _
    rw [Frames.used_setFrame, hdiv]
    by_cases hgf : g = f
    · rw [hgf]
      simp only [beq_self_eq_true, Bool.or_true, true_iff]
      refine ⟨i, (hold i f).mpr (Or.inl ⟨rfl, rfl⟩), fun j hj => ?_⟩
      rcases (hold j f).mp hj with h | h
      · exact h.1
      · exact absurd h.2 (hnone j)
    · have hbeq : (f == g) = false := by simpa using fun h : f = g => hgf h.symm
      rw [hbeq, Bool.or_false, hacc.1 g hg]
      have hiff : ∀ j, s.Holds j g ↔ (s.put i (s.frames.setFrame (f * 0x1000), p)).Holds j g := by
        intro j
        rw [hold]
        constructor
        · intro hj
          refine Or.inr ⟨?_, hj⟩
          rintro rfl
          rw [hj.1] at hi
          exact absurd hi (by decide)
        · rintro (⟨_, h⟩ | ⟨_, h⟩)
          · exact absurd h hgf
          · exact h
      exact existsUnique_congr (fun j => hiff j)
  · rcases (hold j g).mp hj with ⟨rfl, rfl⟩ | ⟨_, hjs⟩
    · rcases (hold j' g).mp hj' with ⟨rfl, _⟩ | ⟨_, hj'⟩
      · rfl
      · exact absurd hj' (hnone j')
    · rcases (hold j' g).mp hj' with ⟨_, rfl⟩ | ⟨_, hjs'⟩
      · exact absurd hjs (hnone j)
      · exact hacc.2 j j' g hjs hjs'
  · by_cases hji : j = i
    · subst hji
      simp [put, hp] at hj
    · simp only [put, Function.update_of_ne hji] at hj ⊢
      exact hnull j hj

/-- **A sound call keeps the invariant.** -/
lemma inv_step {a : FrameCall ι} (h : s.Inv) (hfree : s.FreeRemains) (ha : s.Sound a)
    (hs' : s.step a = some s') : s'.Inv := by
  cases a with
  | alloc i k w =>
      by_cases h0 : (s.page i).frame = 0
      · obtain ⟨f, hf⟩ := Frames.exists_firstFrame hfree
        have hi : (s.page i).present = false := by
          by_contra hpres
          exact ha ⟨by simpa using hpres, by rw [h0]; rfl⟩
        rw [step_alloc_eq h0 hf, Option.some.injEq] at hs'
        rw [← hs']
        exact inv_alloc h hf hi rfl (val_ofNat_of_lt (Frames.firstFrame_spec hf).1)
      · -- the entry has a frame: the call does nothing
        rw [step, allocFrame, if_pos h0, Option.map_some, Option.some.injEq] at hs'
        rw [← hs', put, Function.update_eq_self]
        exact h
  | free i =>
      rw [step, freeFrame, if_pos (h.2 i ha), Option.some.injEq] at hs'
      rw [← hs', put, Function.update_eq_self]
      exact h

/-- **The sound calls are those that keep the accounting.** -/
lemma sound_iff_kept (s : FrameState ι) (a : FrameCall ι) (h : s.Inv) (hfree : s.FreeRemains) :
    s.Sound a ↔ ∀ s', s.step a = some s' → s.Kept a s' := by
  constructor
  · intro ha s' hs'
    refine ⟨(inv_step h hfree ha hs').1, ?_⟩
    rintro i rfl
    have hi : (s.page i).present = false := ha
    rw [step, freeFrame, if_pos (h.2 i hi), Option.some.injEq] at hs'
    rw [← hs', put, Function.update_eq_self]
    refine ⟨hi, fun f hf => ?_⟩
    rw [hf.1] at hi
    exact absurd hi (by decide)
  · intro hkept
    cases a with
    | alloc i k w =>
        intro hi
        -- bit 0 stays set, and the entry that held frame 0 holds another one
        have h0 : (s.page i).frame = 0 := Fin.ext hi.2
        obtain ⟨f, hf⟩ := Frames.exists_firstFrame hfree
        obtain ⟨hlt, hclear, _⟩ := Frames.firstFrame_spec hf
        have hnf : 0 < nframes := by decide
        have hset : s.frames.used 0 = true :=
          (h.1.1 0 hnf).mpr ⟨i, hi, fun j hj => h.1.2 j i 0 hj hi⟩
        have hf0 : f ≠ 0 := by
          rintro rfl
          rw [hclear] at hset
          exact Bool.false_ne_true hset
        obtain ⟨⟨hacc, _⟩, _⟩ := hkept _ (step_alloc_eq h0 hf k w)
        have hused := hacc 0 hnf
        have hset' : (s.frames.setFrame (f * 0x1000)).used 0 = true := by
          rw [Frames.used_setFrame, hset, Bool.true_or]
        obtain ⟨j, hj, _⟩ := hused.mp hset'
        rw [holds_put] at hj
        by_cases hji : j = i
        · rw [if_pos hji] at hj
          exact hf0 ((val_ofNat_of_lt hlt).symm.trans hj.2)
        · rw [if_neg hji] at hj
          exact hji (h.1.2 j i 0 hj hi)
    | free i =>
        have hfreed := ((hkept _ rfl).2 i rfl).1
        by_contra hpres
        simp only [put, Function.update_self, freeFrame] at hfreed
        split at hfreed
        · exact hpres hfreed
        · exact hpres hfreed

/-- **Frame accounting**: over every run from the clear bitset made while a frame is free, every
call keeps the accounting if and only if no call frees a present entry or gives a second frame
to an entry that holds frame 0. -/
theorem accounted_iff_sound (as : List (FrameCall ι))
    (hfree : Along step (fun s _ => s.FreeRemains) (init : FrameState ι) as) :
    Along step (fun s a => ∀ s', s.step a = some s' → s.Kept a s') (init : FrameState ι) as ↔
      Along step Sound (init : FrameState ι) as :=
  (along_iff (fun s a (hs : s.Inv) hf => sound_iff_kept s a hs hf)
    (fun _ _ _ hs hf ha hs' => inv_step hs hf ha hs') inv_init hfree).symm

/-- Two entries get frames 0 and 1: both calls are sound and keep the accounting. -/
theorem accounted_iff_sound_two_entries :
    Along step (fun s a => ∀ s', s.step a = some s' → s.Kept a s') (init : FrameState Bool)
        [.alloc false true true, .alloc true true true] ↔
      Along step Sound (init : FrameState Bool)
        [.alloc false true true, .alloc true true true] := by
  refine accounted_iff_sound _ ?_
  rw [along_cons_of_eq (by rfl), along_cons_of_eq (by rfl)]
  exact ⟨⟨0, by decide, by decide⟩, ⟨1, by decide, by decide⟩, trivial⟩

/-- Freeing the second of two entries: the bit of its frame stays set, that of frame 0, which
the first entry holds, is cleared, and the freed entry is still present. -/
theorem free_clears_frame_zero :
    ∃ s : FrameState Bool,
      Along step (fun s _ => s.FreeRemains) (init : FrameState Bool)
        [.alloc false true true, .alloc true true true, .free true] ∧
      run step (init : FrameState Bool)
        [.alloc false true true, .alloc true true true, .free true] = some s ∧
      s.frames.used 1 = true ∧ s.frames.used 0 = false ∧ s.Holds false 0 ∧
      (s.page true).present = true ∧ ¬ s.Accounted := by
  refine ⟨_, ?_, rfl, by decide, by decide, by decide, by decide, fun h => ?_⟩
  · rw [along_cons_of_eq (by rfl), along_cons_of_eq (by rfl), along_cons_of_eq (by rfl)]
    exact ⟨⟨0, by decide, by decide⟩, ⟨1, by decide, by decide⟩, ⟨2, by decide, by decide⟩,
      trivial⟩
  · exact absurd (h.2 false true 0 (by decide) (by decide)) (by decide)

end Steps

end FrameState

end Matanos
