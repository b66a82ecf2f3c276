import Matanos.Sched.Wake

/-!
How long a task sleeps, for every value of the counter.

The deadline is the sum of `tick` and `epoches` modulo `2 ^ 32`. It is compared with the counter as
a number, and a deadline of 0 marks a task that does not sleep.

* `Undisturbed`: what other tasks may do meanwhile; `Sleeps`: the task is a sleeper with a given
  deadline, a number of ticks later;
* `sleeps_step`, `sleeps_run`: it stays one until the deadline;
* `sleeps_sleep`: it is one when `sleep` has given the processor away;
* `sleep_lasts_iff`: the values of `tick` and `epoches` for which a sleep lasts as long as asked.
-/

namespace Matanos

open Lib

namespace Sched

/-- The action is a tick. -/
def IsTick : Action → Bool
  | .tick _ => true
  | _ => false

/-- The ticks of a run. -/
def ticks (as : List Action) : ℕ := as.countP IsTick

/-- A fork gets a structure that is not in use, and the deadline of a sleep is not 0. -/
def Undisturbed (s : Sched) : Action → Prop
  | .fork e => e.newTask ≠ 0 ∧ e.newTask ∉ s.kernel.created
  | .sleep _ epoches => (s.kernel.tick + epoches) % 2 ^ 32 ≠ 0
  | .tick _ => True

/-- The task is in the sleep queue. -/
def InSleepQueue (k : Kernel) (c : ℕ) : Prop := ∃ S, IsList k.next k.sleepQueue S ∧ c ∈ S

/-- The task is a sleeper with the deadline `d` of a well-formed state, `n` ticks after the counter
was `t`. -/
def Sleeps (c d t n : ℕ) (s : Sched) : Prop :=
  ∃ q, s.kernel.Represents q ∧ (c, d) ∈ q.asleep ∧ s.kernel.tick = (t + n) % 2 ^ 32

/-- From every well-formed state in which the counter is `t` and another task is ready, `sleep e`
moves the running task from the ready queue to the sleep queue, where it stays for the next `e`
ticks, and it has expired at the tick after those. -/
def SleepLasts (t e : ℕ) : Prop :=
  ∀ (s : Sched) (r : Regs) (u : ℕ), s.Inv → s.kernel.tick = t → InReadyQueue s.kernel u →
    u ≠ s.kernel.currentTask → ∃ s', s.step (.sleep r e) = some s' ∧
      ∀ as s'', Along step Undisturbed s' as → run step s' as = some s'' → ticks as ≤ e →
        ¬ InReadyQueue s''.kernel s.kernel.currentTask ∧
          InSleepQueue s''.kernel s.kernel.currentTask ∧
          (ticks as = e → s''.kernel.ExpiresNext s.kernel.currentTask)

variable {s s' : Sched} {q : RoundRobin ℕ} {c d t n e u : ℕ}

/-! ### A sleeper before its deadline -/

/-- A tick takes no sleeper whose deadline is still to come. -/
lemma mem_asleep_wake {p : ℕ × ℕ} {now : ℕ} (hp : p ∈ q.asleep) (hlate : ¬ p.2 < now) :
    p ∈ (q.wake now).asleep := by
  have hexp : ¬ RoundRobin.expired now p = true := by simpa [RoundRobin.expired] using hlate
  exact (List.mem_eraseP_of_neg hexp).mpr hp

/-- Going to sleep takes no other task from the sleepers. -/
lemma mem_asleep_suspend {p : ℕ × ℕ} (hd : d ≠ 0) (hp : p ∈ q.asleep) :
    p ∈ (q.suspend d hd).asleep := by
  cases hx : q.next? with
  | none => rwa [RoundRobin.suspend_of_alone hd hx]
  | some x =>
      rw [(RoundRobin.suspend_eq hd hx).2.1]
      exact List.mem_append_left _ hp

/-- `fork` leaves the counter. -/
lemma fork_tick {k k' : Kernel} {env : Kernel.ForkEnv} {pid : ℕ} (h : k.fork env = some (k', pid)) :
    k'.tick = k.tick := by
  simp only [Kernel.fork, Kernel.linkAtTail, Option.map_map, Option.map_eq_some_iff] at h
  obtain ⟨y, -, hy⟩ := h
  rw [← (Prod.mk.inj hy).1]
  rfl

/-- **One step leaves a sleeper asleep** until its deadline. -/
lemma sleeps_step {a : Action} (h : Sleeps c d t n s) (ha : s.Undisturbed a)
    (hlate : IsTick a = true → ¬ d < (t + (n + 1)) % 2 ^ 32) :
    ∃ s', s.step a = some s' ∧ Sleeps c d t (n + ticks [a]) s' := by
  obtain ⟨q, hq, hmem, htick⟩ := h
  cases a with
  | fork env =>
      obtain ⟨hn, k, pid, hk, hrep⟩ := Kernel.fork_represents env hq ha.1 ha.2
      refine ⟨⟨k, s.dispatched ++ []⟩, ?_, _, hrep, hmem, (fork_tick hk).trans htick⟩
      rw [step, Kernel.act, hk]
      rfl
  | sleep r e =>
      obtain ⟨k, hk, hrep, hglob⟩ := Kernel.sleep_represents r hq ha
      refine ⟨⟨k, s.dispatched ++ q.next?.toList⟩, ?_, _, hrep, mem_asleep_suspend ha hmem,
        hglob.tick.trans htick⟩
      rw [step, Kernel.act, hk]
      rfl
  | tick r =>
      obtain ⟨k, q', x, hk, hrep, -, hwake, htick', -, -⟩ := Kernel.timerCallback_represents r hq
      have hnow : (s.kernel.tick + 1) % 2 ^ 32 = (t + (n + 1)) % 2 ^ 32 := by
        rw [htick]
        omega
      have hs' : s.step (.tick r) = some ⟨k, s.dispatched ++ x.toList⟩ := by
        rw [step, Kernel.act, hk]
        rfl
      have hkeep : ∃ q'', k.Represents q'' ∧ (c, d) ∈ q''.asleep := by
        by_cases hpid : s.kernel.nextPid = 1
        · refine ⟨q, ?_, hmem⟩
          rw [Kernel.timerCallback, if_pos hpid] at hk
          obtain ⟨rfl, -⟩ := Prod.mk.inj (Option.some.inj hk)
          exact ⟨hq.ready, hq.asleep, hq.cur, hq.created, hq.awake, hq.deadline⟩
        · refine ⟨q', hrep, ?_⟩
          rw [(hwake hpid).1, RoundRobin.asleep_rotate, hnow]
          exact mem_asleep_wake hmem (hlate rfl)
      obtain ⟨q'', hrep', hmem'⟩ := hkeep
      exact ⟨_, hs', q'', hrep', hmem', htick'.trans hnow⟩

/-- **A run leaves a sleeper asleep** until its deadline. -/
lemma sleeps_run {as : List Action} (h : Sleeps c d t n s) (has : Along step Undisturbed s as)
    (hlate : ∀ k ≤ n + ticks as, n < k → ¬ d < (t + k) % 2 ^ 32) :
    ∃ s', run step s as = some s' ∧ Sleeps c d t (n + ticks as) s' := by
  induction as generalizing s n with
  | nil => exact ⟨s, rfl, h⟩
  | cons a as ih =>
      have hcount : ticks (a :: as) = ticks [a] + ticks as := by
        rw [ticks, ← List.singleton_append, List.countP_append]
        rfl
      obtain ⟨s₁, hs₁, h₁⟩ := sleeps_step h has.1 fun htick => by
        refine hlate (n + 1) ?_ (Nat.lt_succ_self n)
        have hone : ticks [a] = 1 := by rw [ticks, List.countP_singleton, htick, if_pos rfl]
        omega
      obtain ⟨s₂, hs₂, h₂⟩ := ih h₁ (has.2 s₁ hs₁) fun k hk hlt => hlate k (by omega) (by omega)
      refine ⟨s₂, by rw [run_cons, hs₁, Option.bind_some, hs₂], ?_⟩
      rw [hcount, ← Nat.add_assoc]
      exact h₂

/-- A sleeper is in the sleep queue only. -/
lemma Sleeps.queues (h : Sleeps c d t n s) :
    ¬ InReadyQueue s.kernel c ∧ InSleepQueue s.kernel c ∧ s.kernel.eos c = d := by
  obtain ⟨q, hq, hmem, -⟩ := h
  have hsleeper : c ∈ q.sleepers := List.mem_map_of_mem (f := Prod.fst) hmem
  refine ⟨fun hready => ?_, ⟨q.sleepers, hq.asleep, hsleeper⟩, hq.deadline _ hmem⟩
  have hready' : c ∈ q.ready := mem_ready_of_inReadyQueue hq hready
  exact (List.nodup_append.mp q.nodup).2.2 c hready' c hsleeper rfl

/-! ### Going to sleep -/

/-- Another ready task is there to be dispatched. -/
lemma exists_next? (hq : s.kernel.Represents q) (hu : InReadyQueue s.kernel u)
    (hne : u ≠ s.kernel.currentTask) : ∃ x, q.next? = some x := by
  have hready : u ∈ q.ready := mem_ready_of_inReadyQueue hq hu
  cases hx : q.next? with
  | some x => exact ⟨x, rfl⟩
  | none =>
      obtain ⟨ha, hb⟩ := RoundRobin.next?_eq_none hx
      rw [RoundRobin.ready, ha, hb] at hready
      exact absurd (List.mem_singleton.mp hready) (by rw [← hq.cur]; exact hne)

/-- **After `sleep`** with a deadline other than 0 the task is a sleeper with that deadline. -/
lemma sleeps_sleep (r : Regs) (h : s.Inv) (hlt : s.kernel.tick < 2 ^ 32)
    (hu : InReadyQueue s.kernel u) (hne : u ≠ s.kernel.currentTask)
    (hd : (s.kernel.tick + e) % 2 ^ 32 ≠ 0) :
    ∃ s', s.step (.sleep r e) = some s' ∧ Sleeps s.kernel.currentTask
      ((s.kernel.tick + e) % 2 ^ 32) s.kernel.tick 0 s' ∧ s'.kernel.nextPid = s.kernel.nextPid ∧
      ∀ S, IsList s.kernel.next s.kernel.sleepQueue S →
        ∃ q, s'.kernel.Represents q ∧ q.sleepers = S ++ [s.kernel.currentTask] := by
  obtain ⟨q, hq⟩ := h
  obtain ⟨x, hx⟩ := exists_next? hq hu hne
  obtain ⟨k, hk, hrep, hglob⟩ := Kernel.sleep_represents r hq hd
  obtain ⟨-, hasleep, -⟩ := RoundRobin.suspend_eq hd hx
  refine ⟨⟨k, s.dispatched ++ q.next?.toList⟩, ?_, ⟨_, hrep, ?_, ?_⟩, hglob.nextPid,
    fun S hS => ⟨_, hrep, ?_⟩⟩
  · rw [step, Kernel.act, hk]
    rfl
  · rw [hasleep, hq.cur]
    exact List.mem_append_right _ (List.mem_singleton_self _)
  · rw [Nat.add_zero, Nat.mod_eq_of_lt hlt]
    exact hglob.tick
  · rw [RoundRobin.sleepers, hasleep, List.map_append, hS.unique hq.asleep, hq.cur]
    rfl

/-- A sleep lasts when no counter value until the deadline passes it, and the next one does. -/
lemma sleepLasts_of_deadline (ht : t < 2 ^ 32) (hd : (t + e) % 2 ^ 32 ≠ 0)
    (hlate : ∀ k ≤ e, 0 < k → ¬ (t + e) % 2 ^ 32 < (t + k) % 2 ^ 32)
    (hnext : (t + e) % 2 ^ 32 < (t + e + 1) % 2 ^ 32) : SleepLasts t e := by
  intro s r u hinv htick hu hne
  subst htick
  obtain ⟨s', hs', hsleeps, -, -⟩ := sleeps_sleep r hinv ht hu hne hd
  refine ⟨s', hs', fun as s'' has hrun hticks => ?_⟩
  obtain ⟨s₁, hs₁, h₁⟩ := sleeps_run hsleeps has fun k hk hpos => hlate k (by omega) hpos
  obtain rfl : s₁ = s'' := Option.some.inj (hs₁.symm.trans hrun)
  obtain ⟨hready, hsleep, heos⟩ := h₁.queues
  refine ⟨hready, hsleep, fun hall => ?_⟩
  obtain ⟨q, -, -, htick₁⟩ := h₁
  rw [Kernel.ExpiresNext, heos, Kernel.newTick, htick₁, Nat.zero_add, hall]
  omega

/-! ### Two tasks -/

/-- The first task has forked a second one when the counter is `t`. -/
def forked (t : ℕ) : Option Sched :=
  run step (init 1 0 0 t fun _ => ⟨0, 0, 0, 0, 0, 0, 0, 0⟩)
    [.fork ⟨2, 0, 0, ⟨0, 0, 0, Regs.zero_ne⟩⟩]

/-- Both tasks are ready, and none sleeps. -/
lemma forked_spec (t : ℕ) : ∃ s, forked t = some s ∧ s.Inv ∧ s.kernel.tick = t ∧
    s.kernel.currentTask = 1 ∧ InReadyQueue s.kernel 2 ∧ s.kernel.nextPid = 3 ∧
    IsList s.kernel.next s.kernel.sleepQueue [] := by
  have hadm : Along step Admissible (init 1 0 0 t fun _ => ⟨0, 0, 0, 0, 0, 0, 0, 0⟩)
      [.fork ⟨2, 0, 0, ⟨0, 0, 0, by decide⟩⟩] := by
    rw [along_cons_of_eq (by rfl)]
    have hnew : 2 ∉ [1] := by decide
    exact ⟨⟨by decide, hnew⟩, trivial⟩
  obtain ⟨s, hs, hinv⟩ := run_invariant inv_step (inv_init (by decide) 0 0 t _) hadm
  refine ⟨s, hs, hinv, ?_⟩
  obtain rfl := Option.some.inj hs
  refine ⟨rfl, rfl, ⟨[1, 2], ⟨rfl, by decide, rfl, by decide, rfl⟩, by decide⟩, rfl, rfl⟩

/-- With the deadline 0 the task stays in the ready queue. -/
lemma not_sleepLasts_of_zero (hd : (t + e) % 2 ^ 32 = 0) : ¬ SleepLasts t e := by
  intro hlasts
  obtain ⟨s, hs, hinv, htick, hcur, htwo, -, -⟩ := forked_spec t
  obtain ⟨s', hs', hafter⟩ := hlasts s ⟨0, 0, 0, by decide⟩ 2 hinv htick htwo (by rw [hcur]; decide)
  obtain ⟨hready, -, -⟩ := hafter [] s' trivial rfl (Nat.zero_le _)
  rw [hcur] at hready
  refine hready ⟨[1, 2], ?_, by decide⟩
  obtain rfl := Option.some.inj hs
  have hnext : ¬ (2 = 0) := by decide
  rw [step, Kernel.act, Kernel.sleep, if_neg fun h => hnext h.2.2, htick, hd] at hs'
  obtain rfl := Option.some.inj hs'
  exact ⟨rfl, by decide, rfl, by decide, rfl⟩

/-- A deadline that the next counter value has passed ends the sleep at the next tick. -/
lemma not_sleepLasts_of_passed (ht : t < 2 ^ 32) (hd : (t + e) % 2 ^ 32 ≠ 0) (he : 0 < e)
    (hpassed : (t + e) % 2 ^ 32 < (t + 1) % 2 ^ 32) : ¬ SleepLasts t e := by
  intro hlasts
  obtain ⟨s, -, hinv, htick, hcur, htwo, hpid, hnil⟩ := forked_spec t
  subst htick
  obtain ⟨s', hs', hafter⟩ := hlasts s ⟨0, 0, 0, by decide⟩ 2 hinv rfl htwo (by rw [hcur]; decide)
  obtain ⟨s₁, hs₁, hsleeps, hpid₁, hqueue⟩ :=
    sleeps_sleep ⟨0, 0, 0, by decide⟩ hinv ht htwo (by rw [hcur]; decide) hd
  obtain rfl : s₁ = s' := Option.some.inj (hs₁.symm.trans hs')
  obtain ⟨q, hq, hsleepers⟩ := hqueue [] hnil
  obtain ⟨k, q', x, hk, hrep, -, hwake, -, -, -⟩ :=
    Kernel.timerCallback_represents ⟨0, 0, 0, by decide⟩ hq
  have hs₂ : s₁.step (.tick ⟨0, 0, 0, by decide⟩) = some ⟨k, s₁.dispatched ++ x.toList⟩ := by
    rw [step, Kernel.act, hk]
    rfl
  obtain ⟨hready, -, -⟩ := hafter [.tick ⟨0, 0, 0, by decide⟩] _ ⟨trivial, fun _ _ => trivial⟩
    (by rw [run_cons, hs₂]; rfl) he
  obtain ⟨-, -, heos⟩ := hsleeps.queues
  obtain ⟨q₀, -, -, htick₁⟩ := hsleeps
  -- the only sleeper is the first one that has expired
  obtain ⟨p, hp, hfst⟩ : ∃ p, q.asleep = [p] ∧ p.1 = s.kernel.currentTask := by
    rw [List.nil_append, RoundRobin.sleepers, List.map_eq_singleton_iff] at hsleepers
    exact hsleepers
  have hdeadline : p.2 = (s.kernel.tick + e) % 2 ^ 32 := by
    rw [← hq.deadline p (by rw [hp]; exact List.mem_singleton_self _), hfst, heos]
  have hnow : (s₁.kernel.tick + 1) % 2 ^ 32 = (s.kernel.tick + 1) % 2 ^ 32 := by
    rw [htick₁]
    omega
  have hexp : RoundRobin.expired ((s₁.kernel.tick + 1) % 2 ^ 32) p = true := by
    rw [RoundRobin.expired, hdeadline, hnow]
    exact decide_eq_true hpassed
  have hfirst : q.firstExpired ((s₁.kernel.tick + 1) % 2 ^ 32) = some s.kernel.currentTask := by
    rw [RoundRobin.firstExpired, hp, List.find?_cons_of_pos hexp, Option.map_some, hfst]
  refine hready ⟨q'.ready, hrep.ready, ?_⟩
  rw [(hwake (by rw [hpid₁, hpid]; decide)).1, RoundRobin.ready_rotate, RoundRobin.ready_wake, hfirst]
  exact List.mem_append_right _ (List.mem_singleton_self _)

/-- The largest deadline is never passed. -/
lemma not_sleepLasts_of_largest (ht : t < 2 ^ 32) (hd : t + e + 1 = 2 ^ 32) : ¬ SleepLasts t e := by
  intro hlasts
  obtain ⟨s, -, hinv, htick, hcur, htwo, -, -⟩ := forked_spec t
  subst htick
  obtain ⟨s', hs', hafter⟩ := hlasts s ⟨0, 0, 0, by decide⟩ 2 hinv rfl htwo (by rw [hcur]; decide)
  obtain ⟨s₁, hs₁, hsleeps, -, -⟩ :=
    sleeps_sleep (e := e) ⟨0, 0, 0, by decide⟩ hinv ht htwo (by rw [hcur]; decide) (by omega)
  obtain rfl : s₁ = s' := Option.some.inj (hs₁.symm.trans hs')
  obtain ⟨as, hasdef⟩ : ∃ as, as = List.replicate e (Action.tick ⟨0, 0, 0, by decide⟩) := ⟨_, rfl⟩
  have hall : ∀ (as : List Action) (s : Sched), (∀ a ∈ as, IsTick a = true) →
      Along step Undisturbed s as := by
    intro as
    induction as with
    | nil => exact fun _ _ => trivial
    | cons a as ih =>
        intro s htick
        refine ⟨?_, fun s' _ => ih s' fun a ha => htick a (List.mem_cons_of_mem _ ha)⟩
        have ha := htick a List.mem_cons_self
        cases a with
        | tick r => trivial
        | fork env => exact absurd ha (by simp [IsTick])
        | sleep r e => exact absurd ha (by simp [IsTick])
  have halong : Along step Undisturbed s₁ as := by
    refine hall as s₁ fun a ha => ?_
    rw [hasdef] at ha
    rw [List.eq_of_mem_replicate ha]
    rfl
  have hticks : ticks as = e := by
    rw [hasdef, ticks, List.countP_replicate]
    rfl
  obtain ⟨s₂, hs₂, h₂⟩ := sleeps_run hsleeps halong fun k hk _ => by omega
  obtain ⟨-, -, hexp⟩ := hafter as s₂ halong hs₂ hticks.le
  replace hexp := hexp hticks
  obtain ⟨-, -, heos⟩ := h₂.queues
  obtain ⟨q, -, -, htick₂⟩ := h₂
  rw [Kernel.ExpiresNext, heos, Kernel.newTick, htick₂, Nat.zero_add, hticks] at hexp
  omega

/-! ### Every value of the counter -/

/-- A sleep lasts as long as asked if and only if its deadline is neither 0 nor `2 ^ 32 - 1` and does
not wrap, or the counter is about to wrap itself and the deadline does so with it. -/
theorem sleep_lasts_iff (ht : t < 2 ^ 32) (he : e < 2 ^ 32) :
    SleepLasts t e ↔ (0 < t + e ∧ t + e + 1 < 2 ^ 32) ∨ (t + 1 = 2 ^ 32 ∧ 2 ≤ e) := by
  constructor
  · intro hlasts
    by_contra hnot
    by_cases hzero : (t + e) % 2 ^ 32 = 0
    · exact not_sleepLasts_of_zero hzero hlasts
    · by_cases hlargest : t + e + 1 = 2 ^ 32
      · exact not_sleepLasts_of_largest ht hlargest hlasts
      · exact not_sleepLasts_of_passed ht hzero (by omega) (by omega) hlasts
  · intro hcond
    exact sleepLasts_of_deadline ht (by omega) (fun k hk hpos => by omega) (by omega)

/-- A sleep of five ticks at the start. -/
theorem sleep_lasts_iff_five : SleepLasts 0 5 :=
  (sleep_lasts_iff (by decide) (by decide)).mpr (Or.inl (by decide))

/-- A sleep of `2 ^ 32 - 5` ticks when the counter is 10 ends at the first tick: the deadline is 5. -/
theorem sleep_wraps :
    (∃ s s', forked 10 = some s ∧ run step s [.sleep ⟨0, 0, 0, by decide⟩ (2 ^ 32 - 5),
        .tick ⟨0, 0, 0, by decide⟩] = some s' ∧ s.kernel.currentTask = 1 ∧
        InReadyQueue s'.kernel 1) ∧ ¬ SleepLasts 10 (2 ^ 32 - 5) := by
  refine ⟨⟨_, _, rfl, rfl, rfl, [2, 1], ?_, by decide⟩,
    not_sleepLasts_of_passed (by decide) (by decide) (by decide) (by decide)⟩
  exact ⟨rfl, by decide, rfl, by decide, rfl⟩

end Sched

end Matanos
