import Matanos.Sched.Runs

/-!
The sleepers that one tick wakes.

* `timerCallback_none`, `timerCallback_first`: the queues after a tick, when no sleeper has expired
  and when there is a first one that has;
* `tick_wakes_expired_iff`: all of them are woken only when there is at most one.
-/

namespace Matanos

namespace Kernel

open Lib

variable {s : Kernel} {R S A B : List ℕ} {t : ℕ}

/-- `tick` after the increment of `timer_callback`. -/
def newTick (s : Kernel) : ℕ := (s.tick + 1) % 2 ^ 32

/-- The sleeper has expired at the next tick. -/
def ExpiresNext (s : Kernel) (t : ℕ) : Prop := s.eos t < s.newTick

instance (s : Kernel) : DecidablePred s.ExpiresNext := fun t =>
  inferInstanceAs (Decidable (s.eos t < s.newTick))

/-- After the tick no task left in the sleep queue has expired, every one that had is behind the tasks
of the ready queue, in the order of the sleep queue, and the others keep their order. -/
def WakesExpired (s : Kernel) (r : Regs) (R S : List ℕ) : Prop :=
  ∃ s' d, s.timerCallback r = some (s', d) ∧
    s'.Queues (R ++ S.filter (s.ExpiresNext ·)) (S.filter (¬ s.ExpiresNext ·)) ∧
    ∀ t ∈ S.filter (¬ s.ExpiresNext ·), ¬ s'.eos t < s'.tick

/-! ### The queues after a tick -/

/-- `timer_callback` once the loop has left the queues `R` and `S`. -/
lemma timerCallback_of_wakeLoop (r : Regs) (hpid : s.nextPid ≠ 1) {s₁ : Kernel}
    (hloop : wakeLoop s.created.length { s with tick := s.newTick } s.sleepQueue = some s₁)
    (h : s₁.Queues R S) (hcur : s₁.currentTask ∈ R) (hawake : s₁.eos s₁.currentTask = 0) :
    ∃ s' d, s.timerCallback r = some (s', d) ∧ s'.Queues R S ∧ s'.eos = s₁.eos ∧
      s'.tick = s₁.tick := by
  obtain ⟨b, a, rfl⟩ := List.append_of_mem hcur
  obtain ⟨s', hs', hq, heos, hglob, -⟩ := switchTask_awake r h rfl hawake
  refine ⟨s', (a ++ b).head?, ?_, hq, heos, hglob.tick⟩
  rw [timerCallback]
  change (if s.nextPid = 1 then _ else (wakeLoop s.created.length { s with tick := s.newTick }
    s.sleepQueue).bind (switchTask r)) = _
  rw [if_neg hpid, hloop, Option.bind_some, hs']

/-- A tick at which no sleeper has expired moves no task. -/
lemma timerCallback_none (r : Regs) (h : s.Queues R S) (hcur : s.currentTask ∈ R)
    (hawake : s.eos s.currentTask = 0) (hpid : s.nextPid ≠ 1)
    (hnone : ∀ t ∈ S, ¬ s.ExpiresNext t) :
    ∃ s' d, s.timerCallback r = some (s', d) ∧ s'.Queues R S ∧ s'.eos = s.eos ∧
      s'.tick = s.newTick := by
  have hfits := h.fits
  rw [List.length_append] at hfits
  have hloop : wakeLoop s.created.length { s with tick := s.newTick } s.sleepQueue
      = some { s with tick := s.newTick } := by
    refine wakeLoop_none (l := S) h.asleep (fun t ht => hnone t ht) ?_
    omega
  have hq : Queues { s with tick := s.newTick } R S := ⟨h.ready, h.asleep, h.nodup, h.fits⟩
  exact timerCallback_of_wakeLoop r hpid hloop hq hcur hawake

/-- A tick moves the first sleeper that has expired, and no other. -/
lemma timerCallback_first (r : Regs) (h : s.Queues R (A ++ t :: B)) (hcur : s.currentTask ∈ R)
    (hawake : s.eos s.currentTask = 0) (hpid : s.nextPid ≠ 1)
    (hA : ∀ x ∈ A, ¬ s.ExpiresNext x) (ht : s.ExpiresNext t) :
    ∃ s' d, s.timerCallback r = some (s', d) ∧ s'.Queues (R ++ [t]) (A ++ B) ∧
      s'.eos = Function.update s.eos t 0 ∧ s'.tick = s.newTick := by
  have hfits := h.fits
  rw [List.length_append] at hfits
  obtain ⟨s₀, hs₀⟩ : ∃ s₀ : Kernel, s₀ = { s with tick := s.newTick } := ⟨_, rfl⟩
  have hq₀ : s₀.Queues R (A ++ t :: B) := by
    rw [hs₀]
    exact ⟨h.ready, h.asleep, h.nodup, h.fits⟩
  have heos₀ : s₀.eos = s.eos := by
    rw [hs₀]
    rfl
  have htick₀ : s₀.tick = s.newTick := by rw [hs₀]
  have hcur₀ : s₀.currentTask = s.currentTask := by rw [hs₀]
  obtain ⟨s₁, hs₁, hq₁, heos₁, hglob₁, hcur₁, hnext₁⟩ :=
    wakeTask_queues hq₀ (List.ne_nil_of_mem hcur)
  have hloop : wakeLoop s.created.length s₀ s.sleepQueue = some s₁ := by
    refine wakeLoop_first (A := A) (B := B) (by rw [hs₀]; exact h.asleep) (fun x hx => ?_) ?_ hs₁
      hnext₁ (by omega)
    · rw [htick₀, heos₀]
      exact hA x hx
    · rw [htick₀, heos₀]
      exact ht
  -- the running task is not the one that is woken
  have hne : s.currentTask ≠ t := by
    rintro rfl
    exact (List.nodup_append.mp h.nodup).2.2 _ hcur _ (by simp) rfl
  have hcurR : s₁.currentTask ∈ R ++ [t] := by
    rw [hcur₁, hcur₀]
    exact List.mem_append_left _ hcur
  have hawake₁ : s₁.eos s₁.currentTask = 0 := by
    rw [heos₁, hcur₁, hcur₀, heos₀, Function.update_of_ne hne, hawake]
  rw [hs₀] at hloop
  obtain ⟨s', d, hs', hq, heos, htick⟩ :=
    timerCallback_of_wakeLoop r hpid hloop hq₁ hcurR hawake₁
  refine ⟨s', d, hs', hq, ?_, ?_⟩
  · rw [heos, heos₁, heos₀]
  · rw [htick, hglob₁.tick, htick₀]

/-- The first sleeper that has expired. -/
lemma exists_first_expired (S : List ℕ) (p : ℕ → Prop) [DecidablePred p] :
    (∀ t ∈ S, ¬ p t) ∨ ∃ A t B, S = A ++ t :: B ∧ (∀ x ∈ A, ¬ p x) ∧ p t := by
  induction S with
  | nil => exact Or.inl (by simp)
  | cons y S ih =>
      by_cases hy : p y
      · exact Or.inr ⟨[], y, S, rfl, by simp, hy⟩
      · rcases ih with hnone | ⟨A, t, B, rfl, hA, ht⟩
        · exact Or.inl (List.forall_mem_cons.mpr ⟨hy, hnone⟩)
        · exact Or.inr ⟨y :: A, t, B, rfl, List.forall_mem_cons.mpr ⟨hy, hA⟩, ht⟩

/-- With the first one that has expired taken out, another may be left. -/
lemma filter_first {p : ℕ → Prop} [DecidablePred p] (hA : ∀ x ∈ A, ¬ p x) (ht : p t) :
    (A ++ t :: B).filter (p ·) = t :: B.filter (p ·) ∧
      (A ++ t :: B).filter (¬ p ·) = A ++ B.filter (¬ p ·) := by
  have hnone : A.filter (p ·) = [] := List.filter_eq_nil_iff.mpr fun x hx => by simpa using hA x hx
  have hall : A.filter (¬ p ·) = A := List.filter_eq_self.mpr fun x hx => by simpa using hA x hx
  constructor
  · rw [List.filter_append, hnone, List.filter_cons_of_pos (by simpa using ht), List.nil_append]
  · rw [List.filter_append, hall, List.filter_cons_of_neg (by simpa using ht)]

/-- Two sleepers that have expired are not both woken. -/
lemma not_wakesExpired {r : Regs} (h : s.Queues R (A ++ t :: B)) (hcur : s.currentTask ∈ R)
    (hawake : s.eos s.currentTask = 0) (hpid : s.nextPid ≠ 1)
    (hA : ∀ x ∈ A, ¬ s.ExpiresNext x) (ht : s.ExpiresNext t)
    (hB : B.filter (s.ExpiresNext ·) ≠ []) : ¬ s.WakesExpired r R (A ++ t :: B) := by
  rintro ⟨s', d, hs', hq, -⟩
  obtain ⟨s'', d', hs'', hq', -, -⟩ := timerCallback_first r h hcur hawake hpid hA ht
  obtain ⟨rfl, -⟩ := Prod.mk.inj (Option.some.inj (hs'.symm.trans hs''))
  have heq := hq.ready.unique hq'.ready
  rw [(filter_first hA ht).1, List.append_cancel_left_eq, List.cons.injEq] at heq
  exact hB heq.2

/-- A tick wakes every sleeper that has expired if and only if there is at most one. -/
theorem tick_wakes_expired_iff (r : Regs) (h : s.Queues R S) (hcur : s.currentTask ∈ R)
    (hawake : s.eos s.currentTask = 0) (hpid : s.nextPid ≠ 1) :
    s.WakesExpired r R S ↔ (S.filter (s.ExpiresNext ·)).length ≤ 1 := by
  rcases exists_first_expired S s.ExpiresNext with hnone | ⟨A, t, B, rfl, hA, ht⟩
  · have hnil : S.filter (s.ExpiresNext ·) = [] :=
      List.filter_eq_nil_iff.mpr fun t ht => by simpa using hnone t ht
    have hall : S.filter (¬ s.ExpiresNext ·) = S :=
      List.filter_eq_self.mpr fun t ht => by simpa using hnone t ht
    obtain ⟨s', d, hs', hq, heos, htick⟩ := timerCallback_none r h hcur hawake hpid hnone
    refine iff_of_true ⟨s', d, hs', ?_, fun t ht => ?_⟩ (by simp [hnil])
    · rw [hnil, hall, List.append_nil]
      exact hq
    · rw [hall] at ht
      rw [heos, htick]
      exact hnone t ht
  · obtain ⟨hexp, hrest⟩ := filter_first (B := B) hA ht
    by_cases hB : B.filter (s.ExpiresNext ·) = []
    · have hall : B.filter (¬ s.ExpiresNext ·) = B := by
        refine List.filter_eq_self.mpr fun x hx => ?_
        simpa using List.filter_eq_nil_iff.mp hB x hx
      obtain ⟨s', d, hs', hq, heos, htick⟩ := timerCallback_first r h hcur hawake hpid hA ht
      refine iff_of_true ⟨s', d, hs', ?_, fun x hx => ?_⟩ (by simp [hexp, hB])
      · rw [hexp, hrest, hB, hall]
        exact hq
      · have hnot : ¬ s.ExpiresNext x := by simpa using (List.mem_filter.mp hx).2
        have hne : x ≠ t := by
          rintro rfl
          exact hnot ht
        rw [heos, htick, Function.update_of_ne hne]
        exact hnot
    · refine iff_of_false (not_wakesExpired h hcur hawake hpid hA ht hB) ?_
      have hpos := List.length_pos_iff.mpr hB
      rw [hexp, List.length_cons]
      omega

/-! ### Three tasks -/

/-- Two forks, after which the first task sleeps for one tick and the second for `e`, and a tick. -/
def twoSleepers (e : ℕ) : List Action :=
  [.fork ⟨2, 0, 0, ⟨0, 0, 0, by decide⟩⟩, .fork ⟨3, 0, 0, ⟨0, 0, 0, by decide⟩⟩,
    .sleep ⟨0, 0, 0, by decide⟩ 1, .sleep ⟨0, 0, 0, by decide⟩ e, .tick ⟨0, 0, 0, by decide⟩]

/-- The next tick wakes the first sleeper, the only one that has expired. -/
theorem tick_wakes_expired_iff_one :
    ∃ s, run Sched.step (Sched.init 1 0 0 0 fun _ => ⟨0, 0, 0, 0, 0, 0, 0, 0⟩) (twoSleepers 5) = some s ∧
      s.kernel.WakesExpired ⟨0, 0, 0, by decide⟩ [3] [1, 2] := by
  refine ⟨_, rfl, (tick_wakes_expired_iff _ ⟨?_, ?_, by decide, ?_⟩ ?_ rfl ?_).mpr ?_⟩
  · exact ⟨rfl, by decide, rfl⟩
  · exact ⟨rfl, by decide, rfl, by decide, rfl⟩
  · decide
  · decide
  · decide
  · decide

/-- Of two sleepers with the same deadline the next tick wakes only the first. -/
theorem tick_leaves_expired :
    ∃ s, run Sched.step (Sched.init 1 0 0 0 fun _ => ⟨0, 0, 0, 0, 0, 0, 0, 0⟩) (twoSleepers 1) = some s ∧
      s.kernel.Queues [3] [1, 2] ∧ ¬ s.kernel.WakesExpired ⟨0, 0, 0, by decide⟩ [3] [1, 2] := by
  have hqueues : ∃ s, run Sched.step (Sched.init 1 0 0 0 fun _ => ⟨0, 0, 0, 0, 0, 0, 0, 0⟩)
      (twoSleepers 1) = some s ∧ s.kernel.Queues [3] [1, 2] ∧ s.kernel.currentTask = 3 ∧
      s.kernel.eos 3 = 0 ∧ s.kernel.nextPid = 4 ∧ s.kernel.eos 1 < s.kernel.newTick ∧
      s.kernel.eos 2 < s.kernel.newTick := by
    refine ⟨_, rfl, ⟨?_, ?_, by decide, ?_⟩, rfl, rfl, rfl, ?_, ?_⟩
    · exact ⟨rfl, by decide, rfl⟩
    · exact ⟨rfl, by decide, rfl, by decide, rfl⟩
    · decide
    · decide
    · decide
  obtain ⟨s, hs, hq, hcur, hawake, hpid, hone, htwo⟩ := hqueues
  refine ⟨s, hs, hq, not_wakesExpired (A := []) hq ?_ ?_ ?_ (by simp) hone ?_⟩
  · rw [hcur]
    exact List.mem_singleton_self _
  · rw [hcur, hawake]
  · rw [hpid]
    decide
  · have hexp : s.kernel.ExpiresNext 2 := htwo
    rw [List.filter_cons_of_pos (by simpa using hexp)]
    exact List.cons_ne_nil _ _

end Kernel

end Matanos
