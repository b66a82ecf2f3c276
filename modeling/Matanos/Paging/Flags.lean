import Matanos.Paging.Clone

/-!
What `clone_table` makes of the bits `present`, `rw` and `user` of an entry.

`alloc_frame` sets the three for a page of a user that may be written, and the copies that follow
only ever set a bit.

* `SameAccess`, `OpenAccess`: two entries with the same bits, and an entry with all three;
* `cloneEntries_access`: the clones of entries with a frame have all three, and nothing else of the
  memory changes;
* `SourceCleared`: the source entries that the function clears before it reads them;
* `clone_table_keeps_access_iff`: the tables whose permissions survive.
-/

namespace Matanos

namespace Page

/-- The two entries give the same access. -/
def SameAccess (p q : Page) : Prop := p.present = q.present ∧ p.rw = q.rw ∧ p.user = q.user

/-- The page is there, for users too, and may be written. -/
def OpenAccess (p : Page) : Prop := p.present = true ∧ p.rw = true ∧ p.user = true

/-- The entry gives no access at all. -/
def NoAccess (p : Page) : Prop := p.present = false ∧ p.rw = false ∧ p.user = false

variable {p q : Page}

/-- An entry has the access of an open one if it is open. -/
lemma OpenAccess.same_iff (h : OpenAccess p) : SameAccess p q ↔ OpenAccess q := by
  obtain ⟨h1, h2, h3⟩ := h
  simp only [SameAccess, OpenAccess, h1, h2, h3, eq_comm]

lemma sameAccess_zero_iff : SameAccess zero q ↔ NoAccess q := by
  simp only [SameAccess, NoAccess, zero, eq_comm]

/-- The copies of the flags leave an open entry open. -/
lemma OpenAccess.orFlags (h : OpenAccess p) : OpenAccess (p.orFlags q) := by
  obtain ⟨h1, h2, h3⟩ := h
  simp [OpenAccess, Page.orFlags, h1, h2, h3]

end Page

namespace Spaces

variable {s : Spaces} {t T k n : ℕ}

/-! ### The loop -/

/-- The clone of one entry: whatever the source's bits are, all three are set. -/
lemma cloneEntry_access (hT : s.mem (T + 4 * k) = 0)
    (hfree : (s.entryAt t k).frame ≠ 0 → 0 < s.frames.freeCount) :
    ∃ s', cloneEntry t T k s = some s' ∧ (∀ x, x ≠ T + 4 * k → s'.mem x = s.mem x) ∧
      s'.frames.freeCount + (if (s.entryAt t k).frame ≠ 0 then 1 else 0) = s.frames.freeCount ∧
      (if (s.entryAt t k).frame ≠ 0 then (s'.entryAt T k).OpenAccess
        else s'.entryAt T k = Page.zero) := by
  by_cases hf : (s.entryAt t k).frame = 0
  · have hskip : cloneEntry t T k s = some s := if_neg (not_not.mpr hf)
    have hzero : s.entryAt T k = Page.zero := by rw [entryAt, hT, Page.ofWord_zero]
    refine ⟨s, hskip, fun _ _ => rfl, ?_, ?_⟩
    · rw [if_neg (not_not.mpr hf), Nat.add_zero]
    · rwa [if_neg (not_not.mpr hf)]
  · obtain ⟨g, hg⟩ := Frames.exists_firstFrame_of_pos (hfree hf)
    obtain ⟨hlt, hunused, -⟩ := Frames.firstFrame_spec hg
    obtain ⟨p, hp⟩ : ∃ p : Page, p = Page.orFlags { Page.zero with
      present := true, rw := true, user := !false, frame := Fin.ofNat (2 ^ 20) g }
        (s.entryAt t k) := ⟨_, rfl⟩
    have hopen : p.OpenAccess := by
      rw [hp]
      exact Page.OpenAccess.orFlags ⟨rfl, rfl, rfl⟩
    have heq : cloneEntry t T k s = some
        { s with
          frames := s.frames.setFrame (g * 0x1000)
          mem := Function.update s.mem (T + 4 * k) p.toWord
          phys := copyPagePhysical s.phys ((s.entryAt t k).frame * 0x1000) (p.frame * 0x1000) } := by
      rw [cloneEntry]
      refine (if_pos hf).trans ?_
      rw [hT, Page.ofWord_zero, allocFrame_eq rfl hg, Option.map_some, hp]
      rfl
    refine ⟨_, heq, fun x hx => Function.update_of_ne hx _ _, ?_, ?_⟩
    · rw [if_pos hf]
      exact Frames.freeCount_setFrame hlt hunused
    · rw [if_pos hf]
      change (Page.ofWord (Function.update s.mem (T + 4 * k) p.toWord (T + 4 * k))).OpenAccess
      rw [Function.update_self, Page.ofWord_toWord]
      exact hopen

/-- **The loop of `clone_table`**, on a blank table away from the source: each entry with a frame
has an open clone, every other entry stays null. -/
lemma cloneEntries_access (hn : n ≤ 1024) (hT : ∀ k < 1024, s.mem (T + 4 * k) = 0)
    (hsep : ∀ i < 1024, ∀ j < 1024, t + 4 * i ≠ T + 4 * j)
    (hfree : s.mapped t n ≤ s.frames.freeCount) :
    ∃ s', cloneEntries t T n s = some s' ∧
      s'.frames.freeCount + s.mapped t n = s.frames.freeCount ∧
      (∀ x, (∀ k < n, x ≠ T + 4 * k) → s'.mem x = s.mem x) ∧
      ∀ k < n, if (s.entryAt t k).frame ≠ 0 then (s'.entryAt T k).OpenAccess
        else s'.entryAt T k = Page.zero := by
  induction n with
  | zero =>
      refine ⟨s, rfl, ?_, fun _ _ => rfl, fun k hk => absurd hk (Nat.not_lt_zero k)⟩
      rw [mapped, Nat.count_zero, Nat.add_zero]
  | succ n ih =>
      have hcount : s.mapped t (n + 1)
          = s.mapped t n + if (s.entryAt t n).frame ≠ 0 then 1 else 0 := Nat.count_succ _ _
      rw [hcount] at hfree
      obtain ⟨s₁, hs₁, hcount₁, hmem₁, hopen₁⟩ := ih (by omega) (by omega)
      have hsrc : s₁.entryAt t n = s.entryAt t n := by
        rw [entryAt, entryAt, hmem₁ _ fun k hk => hsep n (by omega) k (by omega)]
      have hblank : s₁.mem (T + 4 * n) = 0 := by
        rw [hmem₁ _ fun k hk => by omega]
        exact hT n (by omega)
      have hleft : (s₁.entryAt t n).frame ≠ 0 → 0 < s₁.frames.freeCount := by
        intro hf
        rw [hsrc] at hf
        rw [if_pos hf] at hfree
        omega
      obtain ⟨s₂, hs₂, hmem₂, hcount₂, hopen₂⟩ := cloneEntry_access hblank hleft
      rw [hsrc] at hcount₂ hopen₂
      refine ⟨s₂, by rw [cloneEntries, hs₁, Option.bind_some, hs₂], by omega, fun x hx => ?_,
        fun k hk => ?_⟩
      · rw [hmem₂ x (hx n (Nat.lt_succ_self n))]
        exact hmem₁ x fun k hk => hx k (by omega)
      · rcases Nat.lt_succ_iff_lt_or_eq.mp hk with hlt | rfl
        · have hword : s₂.entryAt T k = s₁.entryAt T k := by
            rw [entryAt, entryAt, hmem₂ _ (by omega)]
          rw [hword]
          exact hopen₁ k hlt
        · exact hopen₂

/-! ### The call -/

/-- The entry `k` of the table `t` is among the words that are cleared for the table `T`, which are
those of a directory. -/
def SourceCleared (t T k : ℕ) : Prop := T ≤ t + 4 * k ∧ t + 4 * k < T + pageDirectorySize

instance : Decidable (SourceCleared t T k) := inferInstanceAs (Decidable (_ ∧ _))

/-- **`clone_table`**: each entry with a frame has an open clone, unless it was cleared before it
was read. -/
lemma cloneTable_access (hsep : T + pageTableSize ≤ t ∨ t + pageTableSize ≤ T)
    (hfree : s.mapped t 1024 ≤ s.frames.freeCount) :
    ∃ s', cloneTable t T s = some s' ∧ ∀ k < 1024, (s.entryAt t k).frame ≠ 0 →
      if SourceCleared t T k then s'.entryAt T k = Page.zero else (s'.entryAt T k).OpenAccess := by
  simp only [pageTableSize] at hsep
  obtain ⟨s₀, hs₀⟩ : ∃ s₀ : Spaces, s₀ = { s with mem := memsetZero s.mem T pageDirectorySize } :=
    ⟨_, rfl⟩
  have hmem : ∀ x, s₀.mem x = if T ≤ x ∧ x < T + pageDirectorySize then 0 else s.mem x := by
    intro x
    rw [hs₀]
    rfl
  have hentry : ∀ k, s₀.entryAt t k = if SourceCleared t T k then Page.zero else s.entryAt t k := by
    intro k
    by_cases hcleared : SourceCleared t T k
    · have hzero : s₀.mem (t + 4 * k) = 0 := (hmem _).trans (if_pos hcleared)
      rw [if_pos hcleared, entryAt, hzero, Page.ofWord_zero]
    · have hkept : s₀.mem (t + 4 * k) = s.mem (t + 4 * k) := (hmem _).trans (if_neg hcleared)
      rw [if_neg hcleared, entryAt, hkept]
      rfl
  have hframes : s₀.frames = s.frames := by rw [hs₀]
  -- the entries that are cleared need no frame
  have hmapped : s₀.mapped t 1024 ≤ s.mapped t 1024 := by
    refine Nat.count_mono_left fun k _ hk => ?_
    rw [hentry] at hk
    split_ifs at hk with hcleared
    · exact absurd rfl hk
    · exact hk
  obtain ⟨s', hs', -, -, hopen⟩ := cloneEntries_access (s := s₀) (t := t) (T := T) le_rfl
    (fun k hk => by rw [hmem, if_pos (by simp only [pageDirectorySize]; omega)])
    (fun i hi j hj => by omega) (by rw [hframes]; omega)
  refine ⟨s', ?_, fun k hk hframe => ?_⟩
  · rw [cloneTable, ← hs₀]
    exact hs'
  · have hclone := hopen k hk
    rw [hentry] at hclone
    by_cases hcleared : SourceCleared t T k
    · rw [if_pos hcleared]
      have hnone : ¬ Page.zero.frame ≠ 0 := not_not.mpr rfl
      rwa [if_pos hcleared, if_neg hnone] at hclone
    · rw [if_neg hcleared]
      rwa [if_neg hcleared, if_pos hframe] at hclone

/-- **Permissions survive** if and only if every entry with a frame is open already, or gives no
access if it is one of those that are cleared. -/
theorem clone_table_keeps_access_iff (hsep : T + pageTableSize ≤ t ∨ t + pageTableSize ≤ T)
    (hfree : s.mapped t 1024 ≤ s.frames.freeCount) :
    (∃ s', cloneTable t T s = some s' ∧ ∀ k < 1024, (s.entryAt t k).frame ≠ 0 →
        (s'.entryAt T k).SameAccess (s.entryAt t k)) ↔
      ∀ k < 1024, (s.entryAt t k).frame ≠ 0 →
        if SourceCleared t T k then (s.entryAt t k).NoAccess else (s.entryAt t k).OpenAccess := by
  obtain ⟨s', hs', hclone⟩ := cloneTable_access hsep hfree
  have hiff : ∀ k < 1024, (s.entryAt t k).frame ≠ 0 →
      ((s'.entryAt T k).SameAccess (s.entryAt t k) ↔
        if SourceCleared t T k then (s.entryAt t k).NoAccess else (s.entryAt t k).OpenAccess) := by
    intro k hk hframe
    have hk' := hclone k hk hframe
    by_cases hcleared : SourceCleared t T k
    · rw [if_pos hcleared] at hk' ⊢
      rw [hk', Page.sameAccess_zero_iff]
    · rw [if_neg hcleared] at hk' ⊢
      exact hk'.same_iff
  constructor
  · rintro ⟨s'', hs'', hsame⟩ k hk hframe
    rw [hs', Option.some.injEq] at hs''
    subst hs''
    exact (hiff k hk hframe).mp (hsame k hk hframe)
  · intro hopen
    exact ⟨s', hs', fun k hk hframe => (hiff k hk hframe).mpr (hopen k hk hframe)⟩

/-! ### One page -/

/-- A table at `0x1000` whose first entry is the word `w`, with every frame but the first free. -/
def onePage (w : ℕ) : Spaces :=
  ⟨fun x => if x = 0x1000 then w else 0, fun _ => 0, Frames.clear.setFrame 0, 0⟩

lemma mapped_onePage_le (w : ℕ) : (onePage w).mapped 0x1000 1024 ≤ 1 := by
  rw [mapped, Nat.count_eq_card_filter_range, Finset.card_le_one]
  have hzero : ∀ k ∈ (Finset.range 1024).filter fun k => ((onePage w).entryAt 0x1000 k).frame ≠ 0,
      k = 0 := by
    intro k hk
    obtain ⟨-, hk⟩ := Finset.mem_filter.mp hk
    by_contra hne
    have hmem : (onePage w).mem (0x1000 + 4 * k) = 0 := if_neg (by omega)
    rw [entryAt, hmem, Page.ofWord_zero] at hk
    exact hk rfl
  intro j hj k hk
  rw [hzero j hj, hzero k hk]

lemma freeCount_onePage_pos (w : ℕ) : 1 ≤ (onePage w).frames.freeCount := by
  have hone : (onePage w).frames.used 1 = false := by
    change (Frames.clear.setFrame 0).used 1 = false
    rw [Frames.used_setFrame, Frames.used_clear]
    rfl
  rw [Frames.freeCount, Nat.count_eq_card_filter_range, Nat.one_le_iff_ne_zero, Nat.ne_zero_iff_zero_lt,
    Finset.card_pos]
  exact ⟨1, Finset.mem_filter.mpr ⟨Finset.mem_range.mpr (by decide), hone⟩⟩

/-- A page of a user that may be written. -/
theorem clone_table_keeps_access_iff_open :
    ∃ s', cloneTable 0x1000 0x4000 (onePage 0x5007) = some s' ∧ ∀ k < 1024,
      ((onePage 0x5007).entryAt 0x1000 k).frame ≠ 0 →
        (s'.entryAt 0x4000 k).SameAccess ((onePage 0x5007).entryAt 0x1000 k) := by
  refine (clone_table_keeps_access_iff (Or.inr (by decide))
    ((mapped_onePage_le _).trans (freeCount_onePage_pos _))).mpr fun k _ hframe => ?_
  have hkept : ¬ SourceCleared 0x1000 0x4000 k := by
    simp only [SourceCleared, pageDirectorySize]
    omega
  rw [if_neg hkept]
  by_cases hk : k = 0
  · rw [hk]
    exact ⟨rfl, rfl, rfl⟩
  · have hmem : (onePage 0x5007).mem (0x1000 + 4 * k) = 0 := if_neg (by omega)
    rw [entryAt, hmem, Page.ofWord_zero] at hframe
    exact absurd rfl hframe

/-- A page of the kernel that may only be read: its clone is open to users, for writing. -/
theorem clone_table_opens_page :
    ((onePage 0x5001).entryAt 0x1000 0).frame = 5 ∧
      ((onePage 0x5001).entryAt 0x1000 0).rw = false ∧
      ((onePage 0x5001).entryAt 0x1000 0).user = false ∧
      (onePage 0x5001).mapped 0x1000 1024 ≤ (onePage 0x5001).frames.freeCount ∧
      ∃ s', cloneTable 0x1000 0x4000 (onePage 0x5001) = some s' ∧
        (s'.entryAt 0x4000 0).OpenAccess ∧
        ¬ (s'.entryAt 0x4000 0).SameAccess ((onePage 0x5001).entryAt 0x1000 0) := by
  have henough := (mapped_onePage_le 0x5001).trans (freeCount_onePage_pos 0x5001)
  have hframe : ((onePage 0x5001).entryAt 0x1000 0).frame ≠ 0 := by decide
  have hkept : ¬ SourceCleared 0x1000 0x4000 0 := by decide
  obtain ⟨s', hs', hclone⟩ := cloneTable_access (s := onePage 0x5001) (t := 0x1000) (T := 0x4000)
    (Or.inr (by decide)) henough
  have hopen := hclone 0 (by decide) hframe
  rw [if_neg hkept] at hopen
  refine ⟨by decide, by decide, by decide, henough, s', hs', hopen, fun hsame => ?_⟩
  have hrw := (hopen.same_iff.mp hsame).2.1
  exact absurd hrw (by decide)

end Spaces

end Matanos
