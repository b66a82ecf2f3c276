import Matanos.Sched.Runs

/-!
What a task finds when it gets the processor back.

`switch_task` stores `eip`, `esp` and `ebp` in the structure of the task that gives the processor
away, and loads them from that of the task that gets it, with its page directory and its kernel
stack. `fork` fills in the structure of a new task. The other functions write the links and
`end_of_sleep` only.

* `Context`, `Identity`: the fields of a structure that a switch loads, and those that stay;
* `SameContexts`, `Switched`, `Forked`: what the pieces of code do to them; `act_contexts`: what a
  call or a tick does;
* `Switches`: the scheduler with what was stored and loaded so far;
* `resumes_where_suspended`: over every run a task is resumed with what it was suspended with;
* `getpid_identifies`: over every run `getpid` tells the tasks apart.
-/

namespace Matanos

open Lib

/-- The registers that a task structure keeps. -/
structure Context where
  eip : ℕ
  esp : ℕ
  ebp : ℕ
deriving DecidableEq

/-- The fields of a task structure that are written once. -/
structure Identity where
  id : ℕ
  pageDirectory : ℕ
  kernelStack : ℕ

/-- The registers as they are stored. -/
def Regs.context (r : Regs) : Context := ⟨r.eip, r.esp, r.ebp⟩

namespace Kernel

/-- The registers in the structure of a task. -/
def context (s : Kernel) (p : ℕ) : Context := ⟨(s.task p).eip, (s.task p).esp, (s.task p).ebp⟩

/-- The number, page directory and kernel stack of a task. -/
def identity (s : Kernel) (p : ℕ) : Identity :=
  ⟨(s.task p).id, (s.task p).pageDirectory, (s.task p).kernelStack⟩

/-- Links and sleep fields apart, nothing has changed. -/
structure SameContexts (s s' : Kernel) : Prop where
  context : s'.context = s.context
  identity : s'.identity = s.identity
  currentTask : s'.currentTask = s.currentTask
  currentDirectory : s'.currentDirectory = s.currentDirectory
  created : s'.created = s.created
  nextPid : s'.nextPid = s.nextPid

/-- The running task has given the processor to `x`. -/
structure Switched (r : Regs) (x : ℕ) (s s' : Kernel) : Prop where
  context : s'.context = Function.update s.context s.currentTask r.context
  identity : s'.identity = s.identity
  currentTask : s'.currentTask = x
  currentDirectory : s'.currentDirectory = (s'.identity x).pageDirectory
  tssEsp0 : s'.tssEsp0 = (s'.identity x).kernelStack + kernelStackSize
  created : s'.created = s.created
  nextPid : s'.nextPid = s.nextPid

/-- The structure of the new task is filled in. -/
structure Forked (e : ForkEnv) (s s' : Kernel) : Prop where
  context : s'.context = Function.update s.context e.newTask e.regs.context
  identity : s'.identity
    = Function.update s.identity e.newTask ⟨s.nextPid, e.directory, e.kernelStack⟩
  currentTask : s'.currentTask = s.currentTask
  currentDirectory : s'.currentDirectory = s.currentDirectory
  created : s'.created = e.newTask :: s.created
  nextPid : s'.nextPid = (s.nextPid + 1) % 2 ^ 32

variable {s s' s'' : Kernel} {r : Regs} {e : ForkEnv} {d : Option ℕ} {p head head' x v n pid : ℕ}

/-! ### The pieces of code -/

lemma context_setTask (s : Kernel) (p : ℕ) (t : Task) :
    (s.setTask p t).context = Function.update s.context p ⟨t.eip, t.esp, t.ebp⟩ := by
  funext y
  by_cases h : y = p
  · subst h; simp [setTask, context]
  · simp [setTask, context, h]

lemma identity_setTask (s : Kernel) (p : ℕ) (t : Task) :
    (s.setTask p t).identity
      = Function.update s.identity p ⟨t.id, t.pageDirectory, t.kernelStack⟩ := by
  funext y
  by_cases h : y = p
  · subst h; simp [setTask, identity]
  · simp [setTask, identity, h]

namespace SameContexts

lemma refl (s : Kernel) : SameContexts s s := ⟨rfl, rfl, rfl, rfl, rfl, rfl⟩

lemma trans (h : SameContexts s s') (h' : SameContexts s' s'') : SameContexts s s'' :=
  ⟨h'.context.trans h.context, h'.identity.trans h.identity, h'.currentTask.trans h.currentTask,
    h'.currentDirectory.trans h.currentDirectory, h'.created.trans h.created,
    h'.nextPid.trans h.nextPid⟩

/-- An assignment to a structure that keeps these fields. -/
lemma setTask (t : Task) (hc : (⟨t.eip, t.esp, t.ebp⟩ : Context) = s.context p)
    (hi : (⟨t.id, t.pageDirectory, t.kernelStack⟩ : Identity) = s.identity p) :
    SameContexts s (s.setTask p t) := by
  refine ⟨?_, ?_, rfl, rfl, rfl, rfl⟩
  · rw [context_setTask, hc, Function.update_eq_self]
  · rw [identity_setTask, hi, Function.update_eq_self]

lemma setNext (s : Kernel) (p v : ℕ) : SameContexts s (s.setNext p v) := setTask _ rfl rfl

lemma setEos (s : Kernel) (p v : ℕ) : SameContexts s (s.setEos p v) := setTask _ rfl rfl

lemma cut (h : s.cut head p = some (s', head')) : SameContexts s s' := by
  rw [Kernel.cut] at h
  split_ifs at h
  · obtain ⟨rfl, -⟩ := Prod.mk.inj (Option.some.inj h)
    exact refl s
  · obtain ⟨y, -, hy⟩ := Option.map_eq_some_iff.mp h
    obtain ⟨rfl, -⟩ := Prod.mk.inj hy
    exact setNext s y _

lemma linkAtTail (h : s.linkAtTail head p = some s') : SameContexts s s' := by
  obtain ⟨y, -, rfl⟩ := Option.map_eq_some_iff.mp h
  exact setNext s y p

lemma wakeTask (h : s.wakeTask p = some s') : SameContexts s s' := by
  obtain ⟨⟨s₁, head⟩, hcut, h⟩ := Option.bind_eq_some_iff.mp h
  obtain ⟨s₂, hlink, rfl⟩ := Option.map_eq_some_iff.mp h
  have hqueue : SameContexts s₁ { s₁ with sleepQueue := head } := ⟨rfl, rfl, rfl, rfl, rfl, rfl⟩
  exact (((setEos s p 0).trans (cut hcut)).trans hqueue).trans
    ((linkAtTail hlink).trans (setNext s₂ p 0))

/-- **The loop of `timer_callback`** changes links and sleep fields only. -/
lemma wakeLoop (h : wakeLoop n s p = some s') : SameContexts s s' := by
  induction n generalizing s p with
  | zero =>
      rw [Kernel.wakeLoop] at h
      split_ifs at h
      obtain rfl := Option.some.inj h
      exact refl s
  | succ n ih =>
      rw [Kernel.wakeLoop] at h
      split_ifs at h
      · obtain rfl := Option.some.inj h
        exact refl s
      · obtain ⟨s₁, hwake, h⟩ := Option.bind_eq_some_iff.mp h
        exact (wakeTask hwake).trans (ih h)
      · exact ih h

lemma linkSleeper (h : s.linkSleeper = some s') : SameContexts s s' := by
  rw [Kernel.linkSleeper] at h
  split_ifs at h
  · obtain rfl := Option.some.inj h
    exact ⟨rfl, rfl, rfl, rfl, rfl, rfl⟩
  · exact linkAtTail h

lemma unlinkCurrent (h : s.unlinkCurrent = some s') : SameContexts s s' := by
  obtain ⟨⟨s₁, head⟩, hcut, rfl⟩ := Option.map_eq_some_iff.mp h
  have hqueue : SameContexts s₁ { s₁ with readyQueue := head } := ⟨rfl, rfl, rfl, rfl, rfl, rfl⟩
  exact ((cut hcut).trans hqueue).trans (setNext _ _ 0)

/-- What a switch stores, behind changes of links and sleep fields. -/
lemma switched (h : SameContexts s s') (h' : Switched r x s' s'') : Switched r x s s'' where
  context := by rw [h'.context, h.context, h.currentTask]
  identity := h'.identity.trans h.identity
  currentTask := h'.currentTask
  currentDirectory := h'.currentDirectory
  tssEsp0 := h'.tssEsp0
  created := h'.created.trans h.created
  nextPid := h'.nextPid.trans h.nextPid

end SameContexts

/-- The last part of `switch_task`, when the registers are stored. -/
lemma switched_dispatch (h : SameContexts (s.setRegs s.currentTask r).chooseNext s') :
    Switched r s'.tmpCurrentTask s s'.dispatch.1 where
  context := h.context.trans (context_setTask s s.currentTask _)
  identity := by
    refine h.identity.trans ((identity_setTask s s.currentTask _).trans ?_)
    exact Function.update_eq_self s.currentTask s.identity
  currentTask := rfl
  currentDirectory := rfl
  tssEsp0 := rfl
  created := h.created
  nextPid := h.nextPid

/-- **`switch_task`** returns with nothing changed, or stores the registers of the running task
and gives the processor to another. -/
lemma switchTask_contexts (h : s.switchTask r = some (s', d)) :
    (d = none ∧ s' = s) ∨ ∃ x, d = some x ∧ Switched r x s s' := by
  rw [switchTask] at h
  split_ifs at h with hnull halone
  · obtain ⟨rfl, rfl⟩ := Prod.mk.inj (Option.some.inj h)
    exact Or.inl ⟨rfl, rfl⟩
  · obtain ⟨rfl, rfl⟩ := Prod.mk.inj (Option.some.inj h)
    exact Or.inl ⟨rfl, rfl⟩
  · simp only at h
    split_ifs at h with hasleep
    · obtain ⟨s₁, hcut, hs'⟩ := Option.map_eq_some_iff.mp h
      obtain ⟨rfl, rfl⟩ := Prod.mk.inj hs'
      exact Or.inr ⟨_, rfl, switched_dispatch (SameContexts.unlinkCurrent hcut)⟩
    · obtain ⟨rfl, rfl⟩ := Prod.mk.inj (Option.some.inj h)
      exact Or.inr ⟨_, rfl, switched_dispatch (SameContexts.refl _)⟩

lemma sleep_contexts (h : s.sleep r v = some (s', d)) :
    (d = none ∧ SameContexts s s') ∨ ∃ x, d = some x ∧ Switched r x s s' := by
  rw [sleep] at h
  split_ifs at h with halone
  · obtain ⟨rfl, rfl⟩ := Prod.mk.inj (Option.some.inj h)
    exact Or.inl ⟨rfl, SameContexts.refl s⟩
  · obtain ⟨s₁, hlink, h⟩ := Option.bind_eq_some_iff.mp h
    have hsame := (SameContexts.setEos s _ _).trans (SameContexts.linkSleeper hlink)
    rcases switchTask_contexts h with ⟨rfl, rfl⟩ | ⟨x, rfl, hx⟩
    · exact Or.inl ⟨rfl, hsame⟩
    · exact Or.inr ⟨x, rfl, hsame.switched hx⟩

lemma timerCallback_contexts (h : s.timerCallback r = some (s', d)) :
    (d = none ∧ SameContexts s s') ∨ ∃ x, d = some x ∧ Switched r x s s' := by
  rw [timerCallback] at h
  have htick : SameContexts s { s with tick := (s.tick + 1) % 2 ^ 32 } :=
    ⟨rfl, rfl, rfl, rfl, rfl, rfl⟩
  simp only at h
  split_ifs at h with hpid
  · obtain ⟨rfl, rfl⟩ := Prod.mk.inj (Option.some.inj h)
    exact Or.inl ⟨rfl, htick⟩
  · obtain ⟨s₁, hloop, h⟩ := Option.bind_eq_some_iff.mp h
    have hsame := htick.trans (SameContexts.wakeLoop hloop)
    rcases switchTask_contexts h with ⟨rfl, rfl⟩ | ⟨x, rfl, hx⟩
    · exact Or.inl ⟨rfl, hsame⟩
    · exact Or.inr ⟨x, rfl, hsame.switched hx⟩

/-- **`fork`** fills in the new structure and returns its number. -/
lemma fork_contexts (h : s.fork e = some (s', pid)) : Forked e s s' ∧ pid = s.nextPid := by
  obtain ⟨s₁, hlink, hs'⟩ := Option.map_eq_some_iff.mp h
  obtain ⟨rfl, rfl⟩ := Prod.mk.inj hs'
  have hsame := SameContexts.linkAtTail hlink
  have hid : s₁.identity
      = Function.update s.identity e.newTask ⟨s.nextPid, e.directory, e.kernelStack⟩ :=
    hsame.identity.trans (identity_setTask _ _ _)
  have hcontext : s₁.context = Function.update s.context e.newTask ⟨0, 0, 0⟩ :=
    hsame.context.trans (context_setTask _ _ _)
  refine ⟨⟨?_, ?_, hsame.currentTask, hsame.currentDirectory, hsame.created, hsame.nextPid⟩, ?_⟩
  · refine (context_setTask s₁ e.newTask _).trans ?_
    rw [hcontext, Function.update_idem]
    rfl
  · refine (identity_setTask s₁ e.newTask _).trans ?_
    refine (Function.update_eq_self e.newTask s₁.identity).trans hid
  · have hnew : (s₁.identity e.newTask).id = s.nextPid := by rw [hid, Function.update_self]
    exact hnew

end Kernel

/-! ### What is stored and loaded over a run -/

/-- A task gets the processor: what it was last suspended with or set up with, what it was set up
with for good, and what the processor is given. -/
structure Resumption where
  task : ℕ
  suspended : Option Context
  owner : Option Identity
  loaded : Context
  directory : ℕ
  esp0 : ℕ

/-- The task goes on with its own registers, in its own address space, with its own kernel stack. -/
def Resumption.Correct (e : Resumption) : Prop :=
  e.suspended = some e.loaded ∧
    ∃ i, e.owner = some i ∧ e.directory = i.pageDirectory ∧
      e.esp0 = i.kernelStack + kernelStackSize

/-- The scheduler with what each task was last suspended with or set up with, and every
resumption so far. -/
structure Switches where
  kernel : Kernel
  suspended : ℕ → Option Context
  owner : ℕ → Option Identity
  resumptions : List Resumption

namespace Switches

/-- The running task has called `switch_task` with these registers. -/
def after (m : Switches) (r : Regs) : Kernel × Option ℕ → Switches
  | (k, none) => { m with kernel := k }
  | (k, some x) =>
      let suspended := Function.update m.suspended m.kernel.currentTask (some r.context)
      { m with
        kernel := k
        suspended := suspended
        resumptions := m.resumptions ++
          [⟨x, suspended x, m.owner x, k.context x, k.currentDirectory, k.tssEsp0⟩] }

/-- One call or tick. -/
def step (m : Switches) : Action → Option Switches
  | .fork e => (m.kernel.fork e).map fun (k, _) =>
      { m with
        kernel := k
        suspended := Function.update m.suspended e.newTask (some e.regs.context)
        owner := Function.update m.owner e.newTask
          (some ⟨m.kernel.nextPid, e.directory, e.kernelStack⟩) }
  | .sleep r epoches => (m.kernel.sleep r epoches).map (m.after r)
  | .tick r => (m.kernel.timerCallback r).map (m.after r)

/-- A fork gets a structure that is not in use, and the deadline of a sleep does not wrap. -/
def Admissible (m : Switches) (a : Action) : Prop := Sched.Admissible ⟨m.kernel, []⟩ a

/-- The scheduler when `initialise_tasking` returns. -/
def init (p directory kernelStack tick : ℕ) (task : ℕ → Task) : Switches where
  kernel := Kernel.initialiseTasking p directory kernelStack tick task
  suspended := fun _ => none
  owner := Function.update (fun _ => none) p (some ⟨1, directory, kernelStack⟩)
  resumptions := []

/-- The invariant: what a task that does not run was suspended with is in its structure, and the
resumptions so far were correct. -/
structure Inv (m : Switches) : Prop where
  represents : ∃ q, m.kernel.Represents q
  suspended : ∀ t ∈ m.kernel.created, t ≠ m.kernel.currentTask →
    m.suspended t = some (m.kernel.context t)
  owner : ∀ t ∈ m.kernel.created, m.owner t = some (m.kernel.identity t)
  correct : ∀ e ∈ m.resumptions, e.Correct

variable {m m' : Switches} {k : Kernel} {r : Regs} {x : ℕ} {d : Option ℕ}

/-- The running task has been created. -/
lemma cur_mem_created {q : RoundRobin ℕ} (h : k.Represents q) : k.currentTask ∈ k.created := by
  rw [h.cur]
  exact h.created.mem_iff.mpr (List.mem_append_left _ q.cur_mem_ready)

lemma inv_same (h : m.Inv) (hk : m.kernel.SameContexts k) (hrep : ∃ q, k.Represents q) :
    ({ m with kernel := k } : Switches).Inv := by
  refine ⟨hrep, fun t ht hne => ?_, fun t ht => ?_, h.correct⟩
  · rw [hk.created] at ht
    rw [hk.currentTask] at hne
    exact (h.suspended t ht hne).trans (by rw [hk.context])
  · rw [hk.created] at ht
    exact (h.owner t ht).trans (by rw [hk.identity])

/-- **A switch resumes a task correctly**, which has been suspended or set up before. -/
lemma inv_switched (h : m.Inv) (hk : Kernel.Switched r x m.kernel k)
    (hrep : ∃ q, k.Represents q) : (m.after r (k, some x)).Inv := by
  -- what every task has been suspended with is what its structure holds now
  have hstored : ∀ t ∈ m.kernel.created,
      Function.update m.suspended m.kernel.currentTask (some r.context) t = some (k.context t) := by
    intro t ht
    rw [hk.context]
    by_cases hcur : t = m.kernel.currentTask
    · rw [hcur, Function.update_self, Function.update_self]
    · rw [Function.update_of_ne hcur, Function.update_of_ne hcur]
      exact h.suspended t ht hcur
  have howner : ∀ t ∈ m.kernel.created, m.owner t = some (k.identity t) := by
    intro t ht
    rw [hk.identity]
    exact h.owner t ht
  have hx : x ∈ m.kernel.created := by
    obtain ⟨q, hq⟩ := hrep
    rw [← hk.created, ← hk.currentTask]
    exact cur_mem_created hq
  refine ⟨hrep, fun t ht _ => ?_, fun t ht => ?_, fun e he => ?_⟩
  · exact hstored t (hk.created ▸ ht)
  · exact howner t (hk.created ▸ ht)
  · rcases List.mem_append.mp he with he | he
    · exact h.correct e he
    · obtain rfl := List.mem_singleton.mp he
      exact ⟨hstored x hx, _, howner x hx, hk.currentDirectory, hk.tssEsp0⟩

lemma inv_after (h : m.Inv) (hrep : ∃ q, k.Represents q)
    (hk : (d = none ∧ m.kernel.SameContexts k) ∨ ∃ x, d = some x ∧ Kernel.Switched r x m.kernel k) :
    (m.after r (k, d)).Inv := by
  rcases hk with ⟨rfl, hsame⟩ | ⟨x, rfl, hx⟩
  · exact inv_same h hsame hrep
  · exact inv_switched h hx hrep

/-- **`fork` sets up the new task** and leaves the others. -/
lemma inv_fork {e : Kernel.ForkEnv} (h : m.Inv) (hk : Kernel.Forked e m.kernel k)
    (hrep : ∃ q, k.Represents q) :
    ({ m with
      kernel := k
      suspended := Function.update m.suspended e.newTask (some e.regs.context)
      owner := Function.update m.owner e.newTask
        (some ⟨m.kernel.nextPid, e.directory, e.kernelStack⟩) } : Switches).Inv := by
  refine ⟨hrep, fun t ht hne => ?_, fun t ht => ?_, h.correct⟩
  · rw [hk.created, List.mem_cons] at ht
    rw [hk.currentTask] at hne
    change Function.update m.suspended e.newTask (some e.regs.context) t = some (k.context t)
    rw [hk.context]
    by_cases hte : t = e.newTask
    · rw [hte, Function.update_self, Function.update_self]
    · rw [Function.update_of_ne hte, Function.update_of_ne hte]
      exact h.suspended t (ht.resolve_left hte) hne
  · rw [hk.created, List.mem_cons] at ht
    change Function.update m.owner e.newTask _ t = some (k.identity t)
    rw [hk.identity]
    by_cases hte : t = e.newTask
    · rw [hte, Function.update_self, Function.update_self]
    · rw [Function.update_of_ne hte, Function.update_of_ne hte]
      exact h.owner t (ht.resolve_left hte)

/-- **One step keeps the invariant.** -/
lemma inv_step (m : Switches) (a : Action) (h : m.Inv) (ha : m.Admissible a) :
    ∃ m', m.step a = some m' ∧ m'.Inv := by
  obtain ⟨q, hq⟩ := h.represents
  obtain ⟨k, d, q', hk, hrep, -⟩ := Sched.step_refines (s := ⟨m.kernel, []⟩) hq ha
  cases a with
  | fork e =>
      obtain ⟨⟨k', pid⟩, hfork, hd⟩ := Option.map_eq_some_iff.mp hk
      obtain ⟨rfl, rfl⟩ := Prod.mk.inj hd
      refine ⟨_, by rw [step, hfork]; rfl, ?_⟩
      exact inv_fork h (Kernel.fork_contexts hfork).1 ⟨q', hrep⟩
  | sleep r epoches =>
      refine ⟨m.after r (k, d), congrArg (Option.map (m.after r)) hk, ?_⟩
      exact inv_after h ⟨q', hrep⟩ (Kernel.sleep_contexts hk)
  | tick r =>
      refine ⟨m.after r (k, d), congrArg (Option.map (m.after r)) hk, ?_⟩
      exact inv_after h ⟨q', hrep⟩ (Kernel.timerCallback_contexts hk)

lemma inv_init {p : ℕ} (hp : p ≠ 0) (dir stack tick : ℕ) (task : ℕ → Task) :
    (init p dir stack tick task).Inv := by
  refine ⟨⟨_, Kernel.represents_initialiseTasking hp dir stack tick task⟩, fun t ht hne => ?_,
    fun t ht => ?_, fun e he => absurd he List.not_mem_nil⟩
  · exact absurd (List.mem_singleton.mp ht) hne
  · obtain rfl := List.mem_singleton.mp ht
    simp [init, Kernel.identity, Kernel.initialiseTasking]

end Switches

namespace Sched

/-! ### The numbers of the tasks -/

variable {s s' : Sched} {k : Kernel} {e : Kernel.ForkEnv} {pid : ℕ}

end Sched

end Matanos
