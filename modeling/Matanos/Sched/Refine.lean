import Matanos.Sched.Queues
import Matanos.Sched.RoundRobin

/-!
The scheduler of the kernel refines round robin.

* `Represents s q`: the two linked lists, the running task, the sleep fields and the tasks
  created so far are those of the round-robin state `q`;
* `fork_represents`, `sleep_represents`, `timerCallback_represents`: each function has a
  result, represents the state one round-robin step further and dispatches the task that
  step dispatches.
-/

namespace Matanos

namespace Kernel

open Lib

/-- The globals and task structures `s` hold the round-robin state `q`. -/
structure Represents (s : Kernel) (q : RoundRobin ℕ) : Prop where
  ready : IsList s.next s.readyQueue q.ready
  asleep : IsList s.next s.sleepQueue q.sleepers
  cur : s.currentTask = q.cur
  created : s.created.Perm q.tasks
  awake : ∀ t ∈ q.ready, s.eos t = 0
  deadline : ∀ p ∈ q.asleep, s.eos p.1 = p.2

variable {s : Kernel} {q : RoundRobin ℕ}

lemma Represents.queues (h : s.Represents q) : s.Queues q.ready q.sleepers :=
  ⟨h.ready, h.asleep, q.nodup, h.created.length_eq.ge⟩

/-- `initialise_tasking` leaves one ready task. -/
lemma represents_initialiseTasking {p : ℕ} (hp : p ≠ 0) (dir stack tick : ℕ)
    (task : ℕ → Task) :
    (initialiseTasking p dir stack tick task).Represents ⟨[], p, [], [], by simp, by simp⟩ where
  ready := ⟨rfl, hp, by simp [initialiseTasking, next]⟩
  asleep := rfl
  cur := rfl
  created := List.Perm.refl _
  awake t ht := by
    obtain rfl : t = p := by simpa [RoundRobin.ready] using ht
    simp [initialiseTasking, eos]
  deadline := by simp

/-! ### Switching -/

/-- A plain switch rotates the ready queue. -/
lemma switchTask_represents (r : Regs) (h : s.Represents q) :
    ∃ s', s.switchTask r = some (s', q.next?) ∧ s'.Represents q.rotate ∧ SameGlobals s s' := by
  obtain ⟨s', hs', hq, heos, hglob, hcur⟩ :=
    switchTask_awake r h.queues h.cur (h.awake _ q.cur_mem_ready)
  refine ⟨s', hs', ⟨?_, ?_, ?_, ?_, ?_, ?_⟩, hglob⟩
  · rw [RoundRobin.ready_rotate]; exact hq.ready
  · rw [RoundRobin.sleepers, RoundRobin.asleep_rotate]; exact hq.asleep
  · rw [RoundRobin.cur_rotate]; exact hcur
  · rw [hglob.created, RoundRobin.tasks, RoundRobin.sleepers, RoundRobin.asleep_rotate,
      RoundRobin.ready_rotate]
    exact h.created
  · rw [RoundRobin.ready_rotate, heos]; exact h.awake
  · rw [RoundRobin.asleep_rotate, heos]; exact h.deadline

/-! ### `sleep` -/

/-- **`sleep` refines going to sleep**, a refused call included. -/
theorem sleep_represents (r : Regs) (h : s.Represents q) {e : ℕ}
    (hd : (s.tick + e) % 2 ^ 32 ≠ 0) :
    ∃ s', s.sleep r e = some (s', q.next?) ∧
      s'.Represents (q.suspend ((s.tick + e) % 2 ^ 32) hd) ∧ SameGlobals s s' := by
  set d := (s.tick + e) % 2 ^ 32 with hdef
  have hne : s.currentTask ≠ 0 := h.cur ▸ h.ready.ne_zero _ q.cur_mem_ready
  cases hx : q.next? with
  | none =>
      have hab : q.after = [] ∧ q.before = [] := RoundRobin.next?_eq_none hx
      refine ⟨s, ?_, by rw [RoundRobin.suspend_of_alone hd hx]; exact h, ⟨rfl, rfl, rfl⟩⟩
      rw [sleep, if_pos ⟨hne, (alone_iff h.ready h.cur).mpr hab⟩]
  | some x =>
      obtain ⟨hready, hasleep, hcurx⟩ := RoundRobin.suspend_eq hd hx
      have halone : ¬ (s.currentTask ≠ 0 ∧ s.currentTask = s.readyQueue ∧
          s.next s.readyQueue = 0) := by
        rintro ⟨_, hall⟩
        obtain ⟨ha, hb⟩ := (alone_iff h.ready h.cur).mp hall
        simp [RoundRobin.next?, ha, hb] at hx
      -- the field is set, the task linked behind the sleepers, then cut out of the ready queue
      set s₀ := s.setEos s.currentTask d with hs₀
      have hq₀ : s₀.Queues q.ready q.sleepers :=
        ⟨by rw [hs₀, next_setEos]; exact h.ready, by rw [hs₀, next_setEos]; exact h.asleep,
          h.queues.nodup, h.queues.fits⟩
      obtain ⟨s₁, hs₁, hlinked, heos₁, hglob₁, hcur₁⟩ :=
        linkSleeper_linked (s := s₀) hq₀ h.cur
      have heos : s₁.eos = Function.update s.eos q.cur d := by
        rw [heos₁, hs₀, eos_setEos, h.cur]
      have hnz : s₁.eos q.cur ≠ 0 := by rw [heos, Function.update_self]; exact hd
      obtain ⟨s₂, hs₂, hq₂, heos₂, hglob₂, hcur₂⟩ :=
        switchTask_linked r hlinked hcur₁ hnz hx
      have hcurR : ∀ t ∈ q.before ++ q.after, t ≠ q.cur := by
        rintro t ht rfl
        have hn := (List.nodup_append.mp q.nodup).1
        exact (List.nodup_middle.mp hn).notMem ht
      refine ⟨s₂, ?_, ⟨?_, ?_, ?_, ?_, ?_, ?_⟩, ?_⟩
      · rw [sleep, if_neg halone]
        simp only
        rw [← hdef, ← hs₀, hs₁, Option.bind_some, hs₂]
      · rw [hready]; exact hq₂.ready
      · rw [RoundRobin.sleepers, hasleep, List.map_append]; exact hq₂.asleep
      · rw [hcurx]; exact hcur₂
      · rw [hglob₂.created, hglob₁.created, RoundRobin.tasks, hready, RoundRobin.sleepers, hasleep,
          List.map_append]
        exact h.created.trans (RoundRobin.perm_moveBehind _ _ _ _).symm
      · intro t ht
        rw [hready] at ht
        rw [heos₂, heos, Function.update_of_ne (hcurR t ht)]
        exact h.awake t (by simp [RoundRobin.ready] at ht ⊢; tauto)
      · intro p hp
        rw [hasleep] at hp
        rw [heos₂, heos]
        rcases List.mem_append.mp hp with hp | hp
        · have hpc : p.1 ≠ q.cur := fun he =>
            (List.nodup_append.mp q.nodup).2.2 _ q.cur_mem_ready _
              (List.mem_map_of_mem hp) he.symm
          rw [Function.update_of_ne hpc]
          exact h.deadline p hp
        · obtain rfl : p = (q.cur, d) := by simpa using hp
          exact Function.update_self ..
      · exact ⟨hglob₂.created.trans hglob₁.created, hglob₂.tick.trans hglob₁.tick,
          hglob₂.nextPid.trans hglob₁.nextPid⟩

/-! ### `timer_callback` -/

/-- The loop of `timer_callback` wakes the first expired sleeper. -/
lemma wakeLoop_represents (h : s.Represents q) :
    ∃ s', wakeLoop s.created.length s s.sleepQueue = some s' ∧ s'.Represents (q.wake s.tick) ∧
      SameGlobals s s' := by
  have hlen : q.sleepers.length ≤ s.created.length := by
    rw [h.created.length_eq]
    simp [RoundRobin.tasks]
  cases hfind : q.asleep.find? (RoundRobin.expired s.tick) with
  | none =>
      have hnone : ∀ p ∈ q.asleep, ¬ RoundRobin.expired s.tick p = true := by simpa using hfind
      have hw : q.wake s.tick = q := by
        obtain ⟨b, c, a, sl, hn, hd⟩ := q
        simp only [RoundRobin.wake, RoundRobin.firstExpired, hfind, Option.map_none,
          Option.toList_none, List.append_nil, List.eraseP_of_forall_not hnone]
      refine ⟨s, wakeLoop_none h.asleep ?_ hlen, by rw [hw]; exact h, ⟨rfl, rfl, rfl⟩⟩
      intro t ht
      obtain ⟨p, hp, rfl⟩ := List.mem_map.mp ht
      rw [h.deadline p hp]
      simpa [RoundRobin.expired] using hnone p hp
  | some x =>
      obtain ⟨t, d⟩ := x
      obtain ⟨hexp, done, rest, hq, hdone⟩ := List.find?_eq_some_iff_append.mp hfind
      have herase : (q.wake s.tick).asleep = done ++ rest := by
        change q.asleep.eraseP (RoundRobin.expired s.tick) = _
        rw [hq, List.eraseP_append_right _ (by simpa using hdone), List.eraseP_cons_of_pos hexp]
      have hwready : (q.wake s.tick).ready = q.ready ++ [t] := by
        rw [RoundRobin.ready_wake, RoundRobin.firstExpired, hfind]; rfl
      have hsl : q.sleepers = done.map Prod.fst ++ t :: rest.map Prod.fst := by
        rw [RoundRobin.sleepers, hq, List.map_append, List.map_cons]
      have hqs := h.queues
      rw [hsl] at hqs
      obtain ⟨s', hs', hqs', heos, hglob, hcur, hnext⟩ :=
        wakeTask_queues hqs (by simp [RoundRobin.ready])
      refine ⟨s', ?_, ⟨?_, ?_, ?_, ?_, ?_, ?_⟩, hglob⟩
      · refine wakeLoop_first hqs.asleep ?_ ?_ hs' hnext (hsl ▸ hlen)
        · intro u hu
          obtain ⟨p, hp, rfl⟩ := List.mem_map.mp hu
          rw [h.deadline p (by simp [hq, hp])]
          simpa [RoundRobin.expired] using hdone p hp
        · rw [h.deadline (t, d) (by simp [hq])]
          simpa [RoundRobin.expired] using hexp
      · rw [hwready]; exact hqs'.ready
      · rw [RoundRobin.sleepers, herase, List.map_append]; exact hqs'.asleep
      · rw [hcur]; exact h.cur
      · rw [hglob.created]
        have hp := (RoundRobin.perm_wake s.tick q.ready q.asleep).symm
        refine h.created.trans (hp.trans (List.Perm.of_eq ?_))
        rw [RoundRobin.tasks, RoundRobin.ready_wake]; rfl
      · intro u hu
        rw [hwready] at hu
        rw [heos]
        by_cases hut : u = t
        · rw [hut, Function.update_self]
        · rw [Function.update_of_ne hut]
          exact h.awake u (by simpa [hut] using hu)
      · intro u hu
        rw [herase] at hu
        have hut : u.1 ≠ t := by
          rintro rfl
          have hAB := (List.nodup_middle.mp (List.nodup_append.mp hqs.nodup).2.1).notMem
          rw [← List.map_append] at hAB
          exact hAB (List.mem_map_of_mem hu)
        rw [heos, Function.update_of_ne hut]
        refine h.deadline u ?_
        rw [hq]
        simp only [List.mem_append, List.mem_cons] at hu ⊢
        tauto

/-- **`timer_callback` refines a tick**: the first expired sleeper becomes ready, then the
next task in turn runs. -/
theorem timerCallback_represents (r : Regs) (h : s.Represents q) :
    ∃ s' q' d, s.timerCallback r = some (s', d) ∧ s'.Represents q' ∧
      RoundRobin.Step q d q' ∧ (s.nextPid ≠ 1 →
        q' = (q.wake ((s.tick + 1) % 2 ^ 32)).rotate ∧
        d = (q.wake ((s.tick + 1) % 2 ^ 32)).next?) ∧
      s'.tick = (s.tick + 1) % 2 ^ 32 ∧ s'.nextPid = s.nextPid ∧ s'.created = s.created := by
  set s₀ : Kernel := { s with tick := (s.tick + 1) % 2 ^ 32 } with hs₀
  have h₀ : s₀.Represents q := ⟨h.ready, h.asleep, h.cur, h.created, h.awake, h.deadline⟩
  by_cases hpid : s.nextPid = 1
  · refine ⟨s₀, q, none, ?_, h₀, RoundRobin.Step.idle q, fun hne => absurd hpid hne,
      rfl, rfl, rfl⟩
    rw [timerCallback, ← hs₀]
    exact if_pos hpid
  · obtain ⟨s₁, hs₁, h₁, hglob₁⟩ := wakeLoop_represents h₀
    obtain ⟨s₂, hs₂, h₂, hglob₂⟩ := switchTask_represents r h₁
    refine ⟨s₂, _, _, ?_, h₂, RoundRobin.Step.tick q s₀.tick, fun _ => ⟨rfl, rfl⟩, ?_, ?_, ?_⟩
    · rw [timerCallback, ← hs₀]
      rw [if_neg hpid, hs₁, Option.bind_some, hs₂]
    · rw [hglob₂.tick, hglob₁.tick]
    · rw [hglob₂.nextPid, hglob₁.nextPid]
    · rw [hglob₂.created, hglob₁.created]

/-! ### `fork` -/

/-- **`fork` refines a new task**. -/
theorem fork_represents (e : ForkEnv) (h : s.Represents q) (h0 : e.newTask ≠ 0)
    (hnew : e.newTask ∉ s.created) :
    ∃ (hn : e.newTask ∉ q.tasks) (s' : Kernel) (pid : ℕ), s.fork e = some (s', pid) ∧
      s'.Represents (q.spawn e.newTask hn) := by
  have hn : e.newTask ∉ q.tasks := fun hm => hnew (h.created.mem_iff.mpr hm)
  refine ⟨hn, ?_⟩
  set s₀ : Kernel :=
    { s with created := e.newTask :: s.created, nextPid := (s.nextPid + 1) % 2 ^ 32 } with hs₀
  set s₁ := s₀.setTask e.newTask
    { id := s.nextPid, esp := 0, ebp := 0, eip := 0, pageDirectory := e.directory,
      kernelStack := e.kernelStack, endOfSleep := 0, next := 0 } with hs₁
  have hnext : s₁.next = Function.update s.next e.newTask 0 := next_setTask s₀ _ _
  have heos : s₁.eos = Function.update s.eos e.newTask 0 := eos_setTask s₀ _ _
  have hlen : (q.ready ++ q.sleepers).length = s.created.length := h.created.length_eq.symm
  have hq : s₁.Queues q.ready q.sleepers := by
    refine ⟨?_, ?_, q.nodup, ?_⟩
    · rw [hnext]
      exact Seg.update_of_notMem h.ready fun hm => hn (by simp [RoundRobin.tasks, hm])
    · rw [hnext]
      exact Seg.update_of_notMem h.asleep fun hm => hn (by simp [RoundRobin.tasks, hm])
    · exact hlen.le.trans (Nat.le_succ _)
  obtain ⟨y, hlink, hq'⟩ := linkAtTail_ready hq (by simp [RoundRobin.ready]) hn h0
    (by rw [hnext, Function.update_self]) (by rw [hlen]; exact Nat.lt_succ_self _)
  refine ⟨(s₁.setNext y e.newTask).setRegs e.newTask e.regs,
    ((s₁.setNext y e.newTask).task e.newTask).id, ?_, ?_, ?_, h.cur, ?_, ?_, ?_⟩
  · rw [fork, ← hs₀, ← hs₁, hlink, Option.map_some]
  · rw [RoundRobin.ready_spawn, next_setRegs]; exact hq'.ready
  · rw [next_setRegs]; exact hq'.asleep
  · rw [RoundRobin.tasks, RoundRobin.ready_spawn]
    refine (List.Perm.cons e.newTask h.created).trans ?_
    rw [List.append_assoc]
    exact List.perm_middle.symm
  · intro t ht
    rw [RoundRobin.ready_spawn] at ht
    rw [eos_setRegs, eos_setNext, heos]
    by_cases hte : t = e.newTask
    · rw [hte, Function.update_self]
    · rw [Function.update_of_ne hte]
      exact h.awake t (by simpa [hte] using ht)
  · intro p hp
    have hpe : p.1 ≠ e.newTask := by
      rintro he
      exact hn (by simp only [RoundRobin.tasks, List.mem_append, ← he]
                   exact Or.inr (List.mem_map_of_mem hp))
    rw [eos_setRegs, eos_setNext, heos, Function.update_of_ne hpe]
    exact h.deadline p hp

end Kernel

end Matanos
