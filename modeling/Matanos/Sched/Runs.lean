import Matanos.Lib.Run
import Matanos.Sched.Refine

/-!
Runs of the scheduler with every call and every tick atomic.

* `Sched`: the scheduler with the list of tasks `switch_task` has dispatched; `Admissible`:
  what the steps may assume, a fresh structure from `kmalloc` and a sleep whose deadline
  does not wrap;
* `step_refines`: every admissible step is a step of round robin, with the same dispatch;
* `queues_wellFormed`: after every run from `initialise_tasking` the two queues are
  well-formed lists that share out the tasks created so far;
* `ready_pair_alternates`: the dispatches of two tasks that stay ready alternate.
-/

namespace Matanos

open Lib

/-- What the running task, or the timer, does next. -/
inductive Action where
  | fork (e : Kernel.ForkEnv)
  | sleep (r : Regs) (epoches : ℕ)
  | tick (r : Regs)

/-- One call or tick, with the task it dispatches. -/
def Kernel.act (s : Kernel) : Action → Option (Kernel × Option ℕ)
  | .fork e => (s.fork e).map fun (s, _) => (s, none)
  | .sleep r epoches => s.sleep r epoches
  | .tick r => s.timerCallback r

/-- The scheduler with the history of its dispatches: the values that `switch_task` has
assigned to `current_task`. -/
structure Sched where
  kernel : Kernel
  dispatched : List ℕ

namespace Sched

/-- One atomic step. -/
def step (s : Sched) (a : Action) : Option Sched :=
  (s.kernel.act a).map fun (k, d) => ⟨k, s.dispatched ++ d.toList⟩

/-- A fork gets a structure that is not in use, and the deadline of a sleep does not wrap. -/
def Admissible (s : Sched) : Action → Prop
  | .fork e => e.newTask ≠ 0 ∧ e.newTask ∉ s.kernel.created
  | .sleep _ epoches => 0 < s.kernel.tick + epoches ∧ s.kernel.tick + epoches < 2 ^ 32
  | .tick _ => True

/-- The scheduler when `initialise_tasking` returns. -/
def init (p directory kernelStack tick : ℕ) (task : ℕ → Task) : Sched :=
  ⟨Kernel.initialiseTasking p directory kernelStack tick task, []⟩

/-- **Every admissible step is a step of round robin.** -/
lemma step_refines {s : Sched} {q : RoundRobin ℕ} {a : Action} (h : s.kernel.Represents q)
    (ha : s.Admissible a) :
    ∃ k d q', s.kernel.act a = some (k, d) ∧ k.Represents q' ∧ RoundRobin.Step q d q' := by
  cases a with
  | fork e =>
      obtain ⟨hn, k, pid, hk, hrep⟩ := Kernel.fork_represents e h ha.1 ha.2
      exact ⟨k, none, _, by rw [Kernel.act, hk]; rfl, hrep, RoundRobin.Step.spawn q _ hn⟩
  | sleep r epoches =>
      have hd : (s.kernel.tick + epoches) % 2 ^ 32 ≠ 0 := by
        rw [Nat.mod_eq_of_lt ha.2]; exact ha.1.ne'
      obtain ⟨k, hk, hrep, _⟩ := Kernel.sleep_represents r h hd
      exact ⟨k, _, _, hk, hrep, RoundRobin.Step.sleep q _ hd⟩
  | tick r =>
      obtain ⟨k, q', d, hk, hrep, hstep, _⟩ := Kernel.timerCallback_represents r h
      exact ⟨k, d, q', hk, hrep, hstep⟩

/-- The state holds some round-robin state. -/
def Inv (s : Sched) : Prop := ∃ q, s.kernel.Represents q

lemma inv_step (s : Sched) (a : Action) (h : s.Inv) (ha : s.Admissible a) :
    ∃ s', s.step a = some s' ∧ s'.Inv := by
  obtain ⟨q, hq⟩ := h
  obtain ⟨k, d, q', hk, hrep, _⟩ := step_refines hq ha
  exact ⟨⟨k, s.dispatched ++ d.toList⟩, by rw [step, hk]; rfl, q', hrep⟩

lemma inv_init {p : ℕ} (hp : p ≠ 0) (dir stack tick : ℕ) (task : ℕ → Task) :
    (init p dir stack tick task).Inv :=
  ⟨_, Kernel.represents_initialiseTasking hp dir stack tick task⟩

/-! ### The queue invariant -/

/-- The ready queue and the sleep queue are null-terminated acyclic lists without common
task, together they hold every task ever created exactly once, the running task is ready,
and the sleep field is set for the sleepers and only for them. -/
def QueuesWellFormed (s : Kernel) : Prop :=
  ∃ R S : List ℕ, IsList s.next s.readyQueue R ∧ IsList s.next s.sleepQueue S ∧
    R.Nodup ∧ S.Nodup ∧ R.Disjoint S ∧
    (∀ t ∈ s.created, (R ++ S).count t = 1) ∧ (∀ t ∈ R ++ S, t ∈ s.created) ∧
    R ≠ [] ∧ s.currentTask ∈ R ∧
    (∀ t ∈ S, s.eos t ≠ 0) ∧ (∀ t ∈ R, s.eos t = 0)

lemma queuesWellFormed_of_represents {s : Kernel} {q : RoundRobin ℕ} (h : s.Represents q) :
    QueuesWellFormed s := by
  refine ⟨q.ready, q.sleepers, h.ready, h.asleep, h.ready.nodup, h.asleep.nodup, ?_, ?_, ?_,
    ?_, ?_, ?_, h.awake⟩
  · exact List.disjoint_of_nodup_append q.nodup
  · intro t ht
    exact List.count_eq_one_of_mem q.nodup (h.created.mem_iff.mp ht)
  · exact fun t ht => h.created.mem_iff.mpr ht
  · simp [RoundRobin.ready]
  · rw [h.cur]; exact q.cur_mem_ready
  · intro t ht
    obtain ⟨p, hp, rfl⟩ := List.mem_map.mp ht
    rw [h.deadline p hp]
    exact q.deadline_ne_zero p hp

/-- **The queue invariant of the scheduler**: every run of admissible steps from
`initialise_tasking` has a result, and the queues are well formed after it. -/
theorem queues_wellFormed {p : ℕ} (hp : p ≠ 0) (dir stack tick : ℕ) (task : ℕ → Task)
    (as : List Action) (has : Along step Admissible (init p dir stack tick task) as) :
    ∃ s, run step (init p dir stack tick task) as = some s ∧ QueuesWellFormed s.kernel := by
  obtain ⟨s, hs, q, hq⟩ := run_invariant inv_step (inv_init hp dir stack tick task) has
  exact ⟨s, hs, queuesWellFormed_of_represents hq⟩

/-- The run in which the first task forks a second one, goes to sleep and is not yet woken
by the next tick. -/
theorem queues_wellFormed_fork_sleep_tick :
    ∃ s, run step (init 1 0 0 0 fun _ => ⟨0, 0, 0, 0, 0, 0, 0, 0⟩)
        [.fork ⟨2, 0, 0, ⟨0, 0, 0, by decide⟩⟩, .sleep ⟨0, 0, 0, by decide⟩ 5,
          .tick ⟨0, 0, 0, by decide⟩] = some s ∧ QueuesWellFormed s.kernel := by
  refine queues_wellFormed (by decide) 0 0 0 _ _ ?_
  rw [along_cons_of_eq (by rfl), along_cons_of_eq (by rfl), along_cons_of_eq (by rfl)]
  exact ⟨⟨by decide, by decide⟩, ⟨by decide, by decide⟩, trivial, trivial⟩

/-! ### Round-robin fairness -/

/-- The task `t` is in the ready queue. -/
def InReadyQueue (s : Kernel) (t : ℕ) : Prop :=
  ∃ R, IsList s.next s.readyQueue R ∧ t ∈ R

lemma mem_ready_of_inReadyQueue {s : Kernel} {q : RoundRobin ℕ} {t : ℕ} (h : s.Represents q)
    (ht : InReadyQueue s t) : t ∈ q.ready := by
  obtain ⟨R, hR, ht⟩ := ht
  rw [← hR.unique h.ready]
  exact ht

/-- A run during which `t` and `u` stay in the ready queue is such a run of round robin, with
the dispatches that the history gains. -/
lemma readyRun_of_run {t u : ℕ} {s s' : Sched} {q : RoundRobin ℕ} {as : List Action}
    (hq : s.kernel.Represents q) (has : Along step Admissible s as)
    (hrun : run step s as = some s')
    (hstay : ∀ pre, pre <+: as → ∀ s₁, run step s pre = some s₁ →
      InReadyQueue s₁.kernel t ∧ InReadyQueue s₁.kernel u) :
    ∃ ds q', s'.dispatched = s.dispatched ++ ds ∧ RoundRobin.ReadyRun t u q ds q' := by
  induction as generalizing s q with
  | nil =>
      cases hrun
      exact ⟨[], q, by simp, RoundRobin.ReadyRun.nil q⟩
  | cons a as ih =>
      obtain ⟨k, d, q₁, hk, hq₁, hstep⟩ := step_refines hq has.1
      have hs₁ : s.step a = some ⟨k, s.dispatched ++ d.toList⟩ := by rw [step, hk]; rfl
      rw [run_cons, hs₁, Option.bind_some] at hrun
      have hstay₁ : ∀ pre, pre <+: as → ∀ s₂,
          run step ⟨k, s.dispatched ++ d.toList⟩ pre = some s₂ →
          InReadyQueue s₂.kernel t ∧ InReadyQueue s₂.kernel u := by
        intro pre hpre s₂ hs₂
        refine hstay (a :: pre) (List.cons_prefix_cons.mpr ⟨rfl, hpre⟩) s₂ ?_
        rw [run_cons, hs₁]
        exact hs₂
      obtain ⟨ds, q₂, hds, hready⟩ := ih hq₁ (has.2 _ hs₁) hrun hstay₁
      obtain ⟨ht, hu⟩ := hstay₁ [] List.nil_prefix _ rfl
      refine ⟨d.toList ++ ds, q₂, by rw [hds, List.append_assoc], ?_⟩
      exact RoundRobin.ReadyRun.cons hstep (mem_ready_of_inReadyQueue hq₁ ht)
        (mem_ready_of_inReadyQueue hq₁ hu) hready

/-- **Round-robin fairness**: in a run from `initialise_tasking`, while two tasks stay in the
ready queue from `s₁` to `s₂`, the dispatches of the two alternate, whatever the other tasks
do. -/
theorem ready_pair_alternates {p : ℕ} (hp : p ≠ 0) (dir stack tick : ℕ) (task : ℕ → Task)
    (as bs : List Action) (has : Along step Admissible (init p dir stack tick task) (as ++ bs))
    {s₁ s₂ : Sched} (h₁ : run step (init p dir stack tick task) as = some s₁)
    (h₂ : run step s₁ bs = some s₂) {t u : ℕ} (hne : t ≠ u)
    (hstay : ∀ pre, pre <+: bs → ∀ s, run step s₁ pre = some s →
      InReadyQueue s.kernel t ∧ InReadyQueue s.kernel u) :
    ∃ ds, s₂.dispatched = s₁.dispatched ++ ds ∧
      (ds.filter fun x => x = t ∨ x = u).IsChain (· ≠ ·) := by
  obtain ⟨has₁, has₂⟩ := along_append.mp has
  obtain ⟨s, hs, q, hq⟩ := run_invariant inv_step (inv_init hp dir stack tick task) has₁
  obtain rfl : s = s₁ := Option.some.inj (hs.symm.trans h₁)
  obtain ⟨ds, q', hds, hready⟩ := readyRun_of_run hq (has₂ s hs) h₂ hstay
  obtain ⟨ht, hu⟩ := hstay [] List.nil_prefix s rfl
  exact ⟨ds, hds, (RoundRobin.pair_alternates hne (mem_ready_of_inReadyQueue hq ht)
    (mem_ready_of_inReadyQueue hq hu) hready).1⟩

/-- Two tasks and two ticks: the second task runs, then the first again. -/
theorem ready_pair_alternates_two_ticks :
    ∃ s₁ s₂ ds, run step (init 1 0 0 0 fun _ => ⟨0, 0, 0, 0, 0, 0, 0, 0⟩)
        [.fork ⟨2, 0, 0, ⟨0, 0, 0, by decide⟩⟩] = some s₁ ∧
      run step s₁ [.tick ⟨0, 0, 0, by decide⟩, .tick ⟨0, 0, 0, by decide⟩] = some s₂ ∧
      s₂.dispatched = s₁.dispatched ++ ds ∧ ds = [2, 1] ∧
      (ds.filter fun x => x = 1 ∨ x = 2).IsChain (· ≠ ·) := by
  refine ⟨_, _, [2, 1], rfl, rfl, rfl, rfl, ?_⟩
  obtain ⟨ds, hds, hchain⟩ := ready_pair_alternates (p := 1) (by decide) 0 0 0
    (fun _ => ⟨0, 0, 0, 0, 0, 0, 0, 0⟩) [.fork ⟨2, 0, 0, ⟨0, 0, 0, by decide⟩⟩]
    [.tick ⟨0, 0, 0, by decide⟩, .tick ⟨0, 0, 0, by decide⟩] (by
      rw [List.singleton_append, along_cons_of_eq (by rfl), along_cons_of_eq (by rfl),
        along_cons_of_eq (by rfl)]
      exact ⟨⟨by decide, by decide⟩, trivial, trivial, trivial⟩) rfl rfl
    (t := 1) (u := 2) (by decide) (by
      intro pre hpre s hs
      have hin : ∀ k : Kernel, k.readyQueue = 1 → k.next 1 = 2 → k.next 2 = 0 →
          InReadyQueue k 1 ∧ InReadyQueue k 2 := fun k h h1 h2 =>
        ⟨⟨[1, 2], by simp [IsList, seg_cons, h, h1, h2], by simp⟩,
          ⟨[1, 2], by simp [IsList, seg_cons, h, h1, h2], by simp⟩⟩
      simp only [List.prefix_cons_iff, List.prefix_nil] at hpre
      rcases hpre with rfl | ⟨_, rfl, rfl | ⟨_, rfl, rfl⟩⟩
      all_goals
        cases hs
        exact hin _ rfl rfl rfl)
  obtain rfl : ds = [2, 1] := hds.symm
  exact hchain

end Sched

end Matanos
