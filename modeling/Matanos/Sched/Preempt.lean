import Matanos.Sched.Runs
import Matanos.Sched.Window

/-!
`sleep` run statement by statement with interrupts enabled, and timer ticks between the
statements.

* `SleepPc`, `Preempt`, `Preempt.step`: where each task stands in `sleep`, and one statement,
  one call or one tick at a time;
* `TickSafe`: the ticks that find the queues in a state `timer_callback` can deal with, stated
  on the state before the tick. Between the assignment of `end_of_sleep` and the link into the
  sleep queue there is none unless the running task is alone and nobody wakes; after the link
  the only unsafe tick is the one that wakes the running task itself with ready tasks behind
  it;
* `Stage`: the three shapes the queues take, and `stage_tick`, `stage_stmt`: safe steps stay in
  them;
* `no_task_lost`: in every run of safe steps every created task stays reachable, and
  `task_lost_before_link`: one unsafe tick loses a task for good.
-/

namespace Matanos

open Lib

/-- The next statement of a task inside `sleep`. -/
inductive SleepPc where
  | outside
  | check (epoches : ℕ)
  | setField (epoches : ℕ)
  | testEmpty
  | linkHead
  | loadHead
  | walk (tmpTask : ℕ)
  | advance (tmpTask : ℕ)
  | linkTail (tmpTask : ℕ)
  | switch

namespace SleepPc

/-- The statements at which a task may be switched out without harm: those before the
assignment of `end_of_sleep`, and the call of `switch_task`. -/
def Calm : SleepPc → Prop
  | outside | check _ | setField _ | switch => True
  | _ => False

end SleepPc

/-- The scheduler with the place of each task in `sleep`. -/
structure Preempt where
  kernel : Kernel
  pc : ℕ → SleepPc

/-- A call of `sleep` by the running task, its next statement, or a tick. -/
inductive PreemptAct where
  | call (epoches : ℕ)
  | stmt (r : Regs)
  | tick (r : Regs)

namespace Preempt

/-- The test that `sleep` makes first. -/
def Alone (k : Kernel) : Prop :=
  k.currentTask ≠ 0 ∧ k.currentTask = k.readyQueue ∧ k.next k.readyQueue = 0

instance (k : Kernel) : Decidable (Alone k) := inferInstanceAs (Decidable (_ ∧ _ ∧ _))

/-- The running task goes on at `pc`. -/
def goto (s : Preempt) (pc : SleepPc) : Preempt :=
  { s with pc := Function.update s.pc s.kernel.currentTask pc }

/-- The next statement of the running task. -/
def stmt (r : Regs) (s : Preempt) : Option Preempt :=
  let k := s.kernel
  match s.pc k.currentTask with
  | .outside => some s
  | .check e => some (if Alone k then s.goto .outside else s.goto (.setField e))
  | .setField e =>
      some { s.goto .testEmpty with kernel := k.setEos k.currentTask ((k.tick + e) % 2 ^ 32) }
  | .testEmpty => some (if k.sleepQueue = 0 then s.goto .linkHead else s.goto .loadHead)
  | .linkHead => some { s.goto .switch with kernel := { k with sleepQueue := k.currentTask } }
  | .loadHead => some (s.goto (.walk k.sleepQueue))
  | .walk t =>
      if t = 0 then none
      else some (if k.next t = 0 then s.goto (.linkTail t) else s.goto (.advance t))
  | .advance t => some (s.goto (.walk (k.next t)))
  | .linkTail t => some { s.goto .switch with kernel := k.setNext t k.currentTask }
  | .switch => (k.switchTask r).map fun (k', _) => { s.goto .outside with kernel := k' }

/-- One step of the preemptible system. -/
def step (s : Preempt) : PreemptAct → Option Preempt
  | .call e => some (s.goto (.check e))
  | .stmt r => s.stmt r
  | .tick r => (s.kernel.timerCallback r).map fun (k, _) => { s with kernel := k }

/-- A task `t` can be reached from the pointer `p` by following `next`. -/
def Reaches (k : Kernel) (p t : ℕ) : Prop := ∃ l q, Seg k.next p (l ++ [t]) q

/-- A task `t` is reachable from one of the two queues. -/
def OnQueue (k : Kernel) (t : ℕ) : Prop := Reaches k k.readyQueue t ∨ Reaches k k.sleepQueue t

/-- The tick counter that the next tick will see. -/
def nextTick (k : Kernel) : ℕ := (k.tick + 1) % 2 ^ 32

/-- A tick in this state finds queues it can deal with. -/
def TickSafe (s : Preempt) : Prop :=
  let k := s.kernel
  match s.pc k.currentTask with
  | .outside | .check _ | .setField _ => True
  | .switch =>
      -- linked: the running task does not wake, unless it is the last ready task or another
      -- sleeper wakes in its place
      k.nextPid = 1 ∨ k.eos k.currentTask = 0 ∨ k.next k.currentTask = 0 ∨
        ¬ nextTick k > k.eos k.currentTask ∨
        ∃ l t, Seg k.next k.sleepQueue l k.currentTask ∧ t ∈ l ∧ nextTick k > k.eos t
  | _ =>
      -- the field is set and the task not yet linked: only a tick that cannot switch
      k.nextPid = 1 ∨ (Alone k ∧ ∀ t, Reaches k k.sleepQueue t → ¬ nextTick k > k.eos t)

/-- A call is made from outside `sleep`, the deadline that is set is not zero, and ticks are
safe. -/
def Safe (s : Preempt) : PreemptAct → Prop
  | .call _ => s.pc s.kernel.currentTask = .outside
  | .stmt _ => ∀ e, s.pc s.kernel.currentTask = .setField e → (s.kernel.tick + e) % 2 ^ 32 ≠ 0
  | .tick _ => s.TickSafe

/-! ### The shapes of the queues -/

variable {k : Kernel} {b a S : List ℕ} {c : ℕ}

/-- Where a task that has set its field and is not linked yet stands in the sleep queue. -/
def Walking (k : Kernel) (S : List ℕ) : SleepPc → Prop
  | .testEmpty => True
  | .linkHead => S = []
  | .loadHead => S ≠ []
  | .walk t => t ∈ S
  | .advance t => t ∈ S ∧ k.next t ≠ 0
  | .linkTail t => ∃ l, S = l ++ [t]
  | _ => False

/-- The shapes of the queues around the running task `c`, with the ready tasks before and
behind it and the sleepers. -/
inductive Stage (k : Kernel) (pc : SleepPc) (b : List ℕ) (c : ℕ) (a S : List ℕ) : Prop
  | calm (hq : k.Queues (b ++ c :: a) S) (hf : k.Fields (b ++ c :: a) S) (hpc : pc.Calm)
  | set (hq : k.Queues (b ++ c :: a) S) (hf : k.Fields (b ++ a) S) (hc : k.eos c ≠ 0)
      (hpc : Walking k S pc)
  | linked (hl : k.Linked b c a S) (hf : k.Fields (b ++ a) S) (hc : k.eos c ≠ 0)
      (hpc : pc = .switch ∨ ((pc = .outside ∨ ∃ e, pc = .check e) ∧ b = [] ∧ a = []))

/-- The invariant of the preemptible system: one of the shapes, every created task in it, and
no task but the running one in the middle of linking itself. -/
def Inv (s : Preempt) : Prop :=
  ∃ b a S, Stage s.kernel (s.pc s.kernel.currentTask) b s.kernel.currentTask a S ∧
    s.kernel.created.Perm (b ++ s.kernel.currentTask :: a ++ S) ∧
    ∀ t, t ≠ s.kernel.currentTask → (s.pc t).Calm

lemma reaches_of_mem {p q t : ℕ} {l : List ℕ} (h : Seg k.next p l q) (ht : t ∈ l) :
    Reaches k p t := by
  obtain ⟨l₁, l₂, rfl⟩ := List.append_of_mem ht
  obtain ⟨hseg, ht0, _⟩ := seg_append_cons.mp h
  exact ⟨l₁, k.next t, seg_concat.mpr ⟨hseg, ht0, rfl⟩⟩

/-- In each shape every task is on a queue. -/
lemma Stage.onQueue {pc : SleepPc} (h : Stage k pc b c a S) {t : ℕ}
    (ht : t ∈ b ++ c :: a ++ S) : OnQueue k t := by
  rcases List.mem_append.mp ht with ht | ht
  · cases h with
    | calm hq _ _ => exact Or.inl (reaches_of_mem hq.ready ht)
    | set hq _ _ _ => exact Or.inl (reaches_of_mem hq.ready ht)
    | linked hl _ _ _ => exact Or.inl (reaches_of_mem hl.ready ht)
  · cases h with
    | calm hq _ _ => exact Or.inr (reaches_of_mem hq.asleep ht)
    | set hq _ _ _ => exact Or.inr (reaches_of_mem hq.asleep ht)
    | linked hl _ _ _ => exact Or.inr (reaches_of_mem hl.asleep (by simp [ht]))

/-! ### Ticks and switches outside the window -/

/-- The queues of a state in which no task is in the middle of `sleep`. -/
def CalmQueues (k : Kernel) : Prop :=
  ∃ R S, k.Queues R S ∧ k.Fields R S ∧ k.currentTask ∈ R ∧ k.created.Perm (R ++ S)

/-- Calm queues hold a round-robin state. -/
lemma CalmQueues.represents (h : CalmQueues k) : ∃ q, k.Represents q := by
  obtain ⟨R, S, hq, hf, hcur, hperm⟩ := h
  obtain ⟨b, a, rfl⟩ := List.append_of_mem hcur
  have hS : (S.map fun t => (t, k.eos t)).map Prod.fst = S := by simp [Function.comp_def]
  have hdead : ∀ p ∈ S.map fun t => (t, k.eos t), p.2 = k.eos p.1 ∧ p.1 ∈ S := by
    intro p hp
    obtain ⟨t, ht, rfl⟩ := List.mem_map.mp hp
    exact ⟨rfl, ht⟩
  refine ⟨⟨b, k.currentTask, a, S.map fun t => (t, k.eos t), by rw [hS]; exact hq.nodup,
    fun p hp => (hdead p hp).1 ▸ hf.asleep p.1 (hdead p hp).2⟩, hq.ready, ?_, rfl, ?_, hf.awake,
    fun p hp => (hdead p hp).1.symm⟩
  · change IsList k.next k.sleepQueue (List.map Prod.fst _)
    rw [hS]; exact hq.asleep
  · simpa [RoundRobin.tasks, RoundRobin.ready, RoundRobin.sleepers, Function.comp_def] using hperm

lemma calmQueues_of_represents {q : RoundRobin ℕ} (h : k.Represents q) : CalmQueues k := by
  refine ⟨q.ready, q.sleepers, h.queues, ⟨h.awake, ?_⟩, ?_, h.created⟩
  · intro t ht
    obtain ⟨p, hp, rfl⟩ := List.mem_map.mp ht
    rw [h.deadline p hp]
    exact q.deadline_ne_zero p hp
  · rw [h.cur]; exact q.cur_mem_ready

/-- Calm queues and calm tasks are a stage. -/
lemma inv_of_calm {s : Preempt} (h : CalmQueues s.kernel) (hpc : ∀ t, (s.pc t).Calm) : s.Inv := by
  obtain ⟨R, S, hq, hf, hcur, hperm⟩ := h
  obtain ⟨b, a, rfl⟩ := List.append_of_mem hcur
  exact ⟨b, a, S, Stage.calm hq hf (hpc _), hperm, fun t _ => hpc t⟩

lemma calm_switch (r : Regs) (h : CalmQueues k) :
    ∃ k' d, k.switchTask r = some (k', d) ∧ CalmQueues k' := by
  obtain ⟨q, hq⟩ := h.represents
  obtain ⟨k', hk', hq', _⟩ := Kernel.switchTask_represents r hq
  exact ⟨k', _, hk', calmQueues_of_represents hq'⟩

/-! ### Switches that close the window -/

/-- The switch of a linked task: it goes to sleep, or comes back at once when it is alone. -/
lemma linked_switch (r : Regs) (hl : k.Linked b c a S) (hf : k.Fields (b ++ a) S)
    (hc : k.eos c ≠ 0) (hcur : k.currentTask = c) (hperm : k.created.Perm (b ++ c :: a ++ S)) :
    ∃ k' d, k.switchTask r = some (k', d) ∧
      ((k' = k ∧ b = [] ∧ a = []) ∨ (CalmQueues k' ∧ k'.currentTask ≠ c)) := by
  obtain ⟨hcb, hca, _⟩ := hl.disjoint
  have hne : k.currentTask ≠ 0 := hcur ▸ hl.ready.ne_zero c (by simp)
  cases hx : (a ++ b).head? with
  | none =>
      have hab : a = [] ∧ b = [] := by simpa using hx
      refine ⟨k, none, ?_, Or.inl ⟨rfl, hab.2, hab.1⟩⟩
      rw [Kernel.switchTask, if_neg hne, if_pos ((Kernel.alone_iff hl.ready hcur).mpr hab)]
  | some x =>
      obtain ⟨k', hk', hq', heos, hglob, hcur'⟩ := Kernel.switchTask_linked r hl hcur hc hx
      have hxm : x ∈ b ++ a := by
        have := List.mem_of_mem_head? (Option.mem_def.mpr hx)
        simp only [List.mem_append] at this ⊢
        tauto
      refine ⟨k', some x, hk', Or.inr ⟨⟨b ++ a, S ++ [c], hq', ⟨?_, ?_⟩, ?_, ?_⟩, ?_⟩⟩
      · rw [heos]; exact hf.awake
      · intro t ht
        rw [heos]
        rcases List.mem_append.mp ht with ht | ht
        · exact hf.asleep t ht
        · obtain rfl : t = c := by simpa using ht
          exact hc
      · rw [hcur']; exact hxm
      · rw [hglob.created]
        exact hperm.trans (RoundRobin.perm_moveBehind b a S c).symm
      · rw [hcur']
        rintro rfl
        exact (List.mem_append.mp hxm).elim hcb hca

/-! ### Ticks -/

/-- A longer walk of the sleep queue: what leads to the running task are the sleepers. -/
lemma eq_sleepers {l : List ℕ} (hl : k.Linked b c a S) (h : Seg k.next k.sleepQueue l c) :
    l = S := by
  have h' : IsList k.next k.sleepQueue (l ++ c :: a) :=
    isList_append_cons.mpr ⟨h, (isList_append_cons.mp hl.asleep).2⟩
  exact List.append_cancel_right (h'.unique hl.asleep)

/-- **A safe tick keeps the invariant.** -/
lemma stage_tick (r : Regs) {s : Preempt} (h : s.Inv) (hsafe : s.TickSafe) :
    ∃ s', s.step (.tick r) = some s' ∧ s'.Inv := by
  obtain ⟨b, a, S, hst, hperm, hpc⟩ := h
  set c := s.kernel.currentTask with hcdef
  set k₀ : Kernel := { s.kernel with tick := nextTick s.kernel } with hk₀
  by_cases hpid : s.kernel.nextPid = 1
  · -- the callback only counts the tick
    refine ⟨{ s with kernel := k₀ }, ?_, b, a, S, ?_, hperm, hpc⟩
    · rw [step, Kernel.timerCallback]
      exact congrArg (Option.map _) (if_pos hpid)
    · cases hst with
      | calm hq hf hp =>
          exact Stage.calm ⟨hq.ready, hq.asleep, hq.nodup, hq.fits⟩ ⟨hf.awake, hf.asleep⟩ hp
      | set hq hf hc hp =>
          refine Stage.set ⟨hq.ready, hq.asleep, hq.nodup, hq.fits⟩ ⟨hf.awake, hf.asleep⟩ hc ?_
          revert hp
          cases s.pc c <;> exact id
      | linked hl hf hc hp =>
          exact Stage.linked ⟨hl.ready, hl.asleep, hl.nodup, hl.fits⟩ ⟨hf.awake, hf.asleep⟩ hc hp
  have htick : ∀ k' d, ((Kernel.wakeLoop k₀.created.length k₀ k₀.sleepQueue).bind
      (Kernel.switchTask r)) = some (k', d) →
      s.step (.tick r) = some { s with kernel := k' } := by
    intro k' d hk'
    rw [step, Kernel.timerCallback]
    exact congrArg (Option.map _) ((if_neg hpid).trans hk')
  cases hst with
  | calm hq hf hp =>
      have hcalm : CalmQueues s.kernel := ⟨_, S, hq, hf, by simp [hcdef], hperm⟩
      obtain ⟨q, hqr⟩ := hcalm.represents
      obtain ⟨k', q', d, hk', hq', _⟩ := Kernel.timerCallback_represents r hqr
      refine ⟨{ s with kernel := k' }, by rw [step, hk']; rfl,
        inv_of_calm (calmQueues_of_represents hq') fun t => ?_⟩
      by_cases htc : t = c
      · rw [htc]; exact hp
      · exact hpc t htc
  | set hq hf hc hp =>
      -- nothing expires and the running task is alone: the tick only counts
      have hwin : s.kernel.nextPid = 1 ∨ (Alone s.kernel ∧
          ∀ t, Reaches s.kernel s.kernel.sleepQueue t → ¬ nextTick s.kernel > s.kernel.eos t) := by
        simp only [TickSafe, ← hcdef] at hsafe
        revert hp hsafe
        cases s.pc c <;> simp [Walking]
      obtain ⟨halone, hexp⟩ := hwin.resolve_left hpid
      have hlen : S.length ≤ k₀.created.length := by
        have := hq.fits
        simp only [List.length_append] at this
        exact le_trans (by omega) this
      have hloop : Kernel.wakeLoop k₀.created.length k₀ k₀.sleepQueue = some k₀ :=
        Kernel.wakeLoop_none (l := S) hq.asleep
          (fun t ht => hexp t (reaches_of_mem hq.asleep ht)) hlen
      refine ⟨{ s with kernel := k₀ }, htick k₀ none ?_, b, a, S, ?_, hperm, hpc⟩
      · rw [hloop, Option.bind_some, Kernel.switchTask, if_neg halone.1]
        exact if_pos halone.2
      · refine Stage.set ⟨hq.ready, hq.asleep, hq.nodup, hq.fits⟩ ⟨hf.awake, hf.asleep⟩ hc ?_
        revert hp
        cases s.pc c <;> exact id
  | linked hl hf hc hp =>
      have hl₀ : k₀.Linked b c a S := ⟨hl.ready, hl.asleep, hl.nodup, hl.fits⟩
      have hself : k₀.tick > k₀.eos c → (∀ t ∈ S, ¬ k₀.tick > k₀.eos t) → a = [] := by
        intro hexp hS
        rcases hp with hp | ⟨_, _, ha⟩
        · simp only [TickSafe, ← hcdef, hp] at hsafe
          rcases hsafe with h1 | h0 | hnext | hnot | ⟨l, t, hseg, ht, hlt⟩
          · exact absurd h1 hpid
          · exact absurd h0 hc
          · have hrest := (isList_append_cons.mp hl.ready).2.2
            rw [hnext] at hrest
            exact hrest.unique (isList_nil.mpr rfl)
          · exact absurd hexp hnot
          · rw [eq_sleepers hl hseg] at ht
            exact absurd hlt (hS t ht)
        · exact ha
      obtain ⟨k₁, hk₁, hglob, hcur₁, hout⟩ :=
        Kernel.wakeLoop_linked hl₀ ⟨hf.awake, hf.asleep⟩ hc hself
      have hcreated : k₁.created = s.kernel.created := hglob.created
      have hpcs : ∀ t, t ≠ c → (s.pc t).Calm := hpc
      have hpcc : (s.pc c).Calm := by
        rcases hp with hp | ⟨hp | ⟨e, hp⟩, _⟩ <;> rw [hp] <;> trivial
      have hall : ∀ t, (s.pc t).Calm := fun t => by
        by_cases htc : t = c
        · rw [htc]; exact hpcc
        · exact hpcs t htc
      rcases hout with ⟨a', S', hl₁, hperm₁, hf₁, hc₁⟩ | ⟨hq₁, hf₁⟩
      · have hperm' : k₁.created.Perm (b ++ c :: a' ++ S') := by
          rw [hcreated]; exact hperm.trans hperm₁.symm
        obtain ⟨k₂, d, hk₂, hres⟩ := linked_switch r hl₁ hf₁ hc₁ hcur₁ hperm'
        refine ⟨{ s with kernel := k₂ }, htick k₂ d (by rw [hk₁, Option.bind_some, hk₂]), ?_⟩
        rcases hres with ⟨rfl, rfl, rfl⟩ | ⟨hcalm, _⟩
        · have hcur₂ : k₂.currentTask = c := hcur₁
          refine ⟨[], [], S', ?_, ?_, ?_⟩
          · change Stage k₂ (s.pc k₂.currentTask) [] k₂.currentTask [] S'
            rw [hcur₂]
            exact Stage.linked hl₁ hf₁ hc₁ (hp.imp id fun h => ⟨h.1, rfl, rfl⟩)
          · change k₂.created.Perm ([] ++ k₂.currentTask :: [] ++ S')
            rw [hcur₂]; exact hperm'
          · exact fun t _ => hall t
        · exact inv_of_calm hcalm hall
      · have hcalm : CalmQueues k₁ := by
          refine ⟨_, S, hq₁, hf₁, ?_, ?_⟩
          · rw [hcur₁]; simp [hk₀, hcdef]
          · rw [hcreated]; exact hperm
        obtain ⟨k₂, d, hk₂, hcalm₂⟩ := calm_switch r hcalm
        exact ⟨{ s with kernel := k₂ }, htick k₂ d (by rw [hk₁, Option.bind_some, hk₂]),
          inv_of_calm hcalm₂ hall⟩

/-! ### The statements of `sleep` -/

/-- The running task goes on at `pc` with the kernel changed to `k'`. -/
lemma inv_goto {s : Preempt} {pc : SleepPc} {k' : Kernel}
    (hst : Stage k' pc b s.kernel.currentTask a S)
    (hperm : s.kernel.created.Perm (b ++ s.kernel.currentTask :: a ++ S))
    (hpc : ∀ t, t ≠ s.kernel.currentTask → (s.pc t).Calm)
    (hcur : k'.currentTask = s.kernel.currentTask) (hcreated : k'.created = s.kernel.created) :
    Inv { s.goto pc with kernel := k' } := by
  have hself : Function.update s.pc s.kernel.currentTask pc s.kernel.currentTask = pc :=
    Function.update_self ..
  refine ⟨b, a, S, ?_, ?_, fun t ht => ?_⟩
  · change Stage k' (Function.update s.pc s.kernel.currentTask pc k'.currentTask) b
      k'.currentTask a S
    rw [hcur, hself]
    exact hst
  · change k'.created.Perm (b ++ k'.currentTask :: a ++ S)
    rw [hcur, hcreated]
    exact hperm
  · have ht' : t ≠ s.kernel.currentTask := fun h => ht (h.trans hcur.symm)
    change SleepPc.Calm (Function.update s.pc s.kernel.currentTask pc t)
    rw [Function.update_of_ne ht']
    exact hpc t ht'

/-- Leaving `sleep` with calm queues. -/
lemma inv_goto_calm {s : Preempt} {pc : SleepPc} {k' : Kernel} (hk' : CalmQueues k')
    (hpc : ∀ t, t ≠ s.kernel.currentTask → (s.pc t).Calm) (hcalm : pc.Calm) :
    Inv { s.goto pc with kernel := k' } := by
  refine inv_of_calm hk' fun t => ?_
  change SleepPc.Calm (Function.update s.pc s.kernel.currentTask pc t)
  by_cases ht : t = s.kernel.currentTask
  · rw [ht, Function.update_self]
    exact hcalm
  · rw [Function.update_of_ne ht]
    exact hpc t ht

/-- The fields once the running task has set its own. -/
lemma fields_setEos {R : List ℕ} {v : ℕ} (hq : k.Queues (b ++ c :: a) S)
    (hf : k.Fields (b ++ c :: a) S) (hR : R = b ++ a) :
    (k.setEos c v).Fields R S := by
  have hn := hq.nodup
  have hc : c ∉ b ++ a ∧ c ∉ S := by
    rw [List.append_assoc, List.cons_append, List.nodup_middle, List.nodup_cons,
      ← List.append_assoc, List.mem_append, not_or] at hn
    exact hn.1
  subst hR
  refine ⟨fun t ht => ?_, fun t ht => ?_⟩
  · rw [Kernel.eos_setEos, Function.update_of_ne (by rintro rfl; exact hc.1 ht)]
    exact hf.awake t (by simp only [List.mem_append, List.mem_cons] at ht ⊢; tauto)
  · rw [Kernel.eos_setEos, Function.update_of_ne (by rintro rfl; exact hc.2 ht)]
    exact hf.asleep t ht

/-- A sleeper at which the walk stops is the last one. -/
lemma last_of_next_eq_zero {t : ℕ} (hS : IsList k.next k.sleepQueue S) (ht : t ∈ S)
    (hnext : k.next t = 0) : ∃ l, S = l ++ [t] := by
  obtain ⟨l₁, l₂, rfl⟩ := List.append_of_mem ht
  obtain ⟨_, _, hrest⟩ := isList_append_cons.mp hS
  rw [hnext] at hrest
  exact ⟨l₁, by rw [hrest.unique (isList_nil.mpr rfl)]⟩

/-- The sleeper after one that is not the last. -/
lemma next_mem {t : ℕ} (hS : IsList k.next k.sleepQueue S) (ht : t ∈ S)
    (hnext : k.next t ≠ 0) : k.next t ∈ S := by
  obtain ⟨l₁, l₂, rfl⟩ := List.append_of_mem ht
  obtain ⟨_, _, hrest⟩ := isList_append_cons.mp hS
  cases l₂ with
  | nil => exact absurd (isList_nil.mp hrest) hnext
  | cons x l => simp [hrest.1]

/-- **A statement of `sleep` keeps the invariant.** -/
lemma stage_stmt (r : Regs) {s : Preempt} (h : s.Inv) (hsafe : s.Safe (.stmt r)) :
    ∃ s', s.step (.stmt r) = some s' ∧ s'.Inv := by
  obtain ⟨b, a, S, hst, hperm, hpc⟩ := h
  set c := s.kernel.currentTask with hcdef
  have hinv : ∀ pc, Stage s.kernel pc b c a S → (s.goto pc).Inv := fun pc hst' =>
    inv_goto hst' hperm hpc rfl rfl
  cases hp : s.pc c with
  | outside =>
      exact ⟨s, by simp only [step, stmt, ← hcdef, hp], b, a, S, hst, hperm, hpc⟩
  | check e =>
      refine ⟨_, by simp only [step, stmt, ← hcdef, hp]; rfl, ?_⟩
      rw [hp] at hst
      cases hst with
      | calm hq hf _ =>
          split
          · exact hinv _ (Stage.calm hq hf trivial)
          · exact hinv _ (Stage.calm hq hf trivial)
      | set _ _ _ hw => exact hw.elim
      | linked hl hf hc hw =>
          -- a task that is in both queues and alone is refused
          obtain ⟨_, rfl, rfl⟩ : _ ∧ b = [] ∧ a = [] := hw.resolve_left (by simp)
          have halone : Alone s.kernel := by
            refine ⟨hl.ready.2.1, hl.ready.1.symm, ?_⟩
            rw [hl.ready.1]
            exact isList_nil.mp hl.ready.2.2
          rw [if_pos halone]
          exact hinv _ (Stage.linked hl hf hc (Or.inr ⟨Or.inl rfl, rfl, rfl⟩))
  | setField e =>
      refine ⟨_, by simp only [step, stmt, ← hcdef, hp]; rfl, ?_⟩
      rw [hp] at hst
      cases hst with
      | calm hq hf _ =>
          refine inv_goto (Stage.set ?_ (fields_setEos hq hf rfl) ?_ trivial) hperm hpc rfl rfl
          · exact ⟨by rw [Kernel.next_setEos]; exact hq.ready,
              by rw [Kernel.next_setEos]; exact hq.asleep, hq.nodup, hq.fits⟩
          · rw [Kernel.eos_setEos, Function.update_self]
            exact hsafe e (by rw [← hcdef, hp])
      | set _ _ _ hw => exact hw.elim
      | linked _ _ _ hw => simp at hw
  | testEmpty =>
      refine ⟨_, by simp only [step, stmt, ← hcdef, hp]; rfl, ?_⟩
      rw [hp] at hst
      cases hst with
      | calm _ _ hw => exact hw.elim
      | set hq hf hc _ =>
          split
          next h0 =>
            refine hinv _ (Stage.set hq hf hc ?_)
            have hnil := hq.asleep
            rw [h0] at hnil
            exact hnil.unique (isList_nil.mpr rfl)
          next h0 =>
            refine hinv _ (Stage.set hq hf hc ?_)
            rintro rfl
            exact h0 (isList_nil.mp hq.asleep)
      | linked _ _ _ hw => simp at hw
  | linkHead =>
      refine ⟨_, by simp only [step, stmt, ← hcdef, hp]; rfl, ?_⟩
      rw [hp] at hst
      cases hst with
      | calm _ _ hw => exact hw.elim
      | set hq hf hc hw =>
          obtain rfl : S = [] := hw
          exact inv_goto (Stage.linked (Kernel.linked_of_head hq) ⟨hf.awake, hf.asleep⟩ hc
            (Or.inl rfl)) hperm hpc rfl rfl
      | linked _ _ _ hw => simp at hw
  | loadHead =>
      refine ⟨_, by simp only [step, stmt, ← hcdef, hp]; rfl, ?_⟩
      rw [hp] at hst
      cases hst with
      | calm _ _ hw => exact hw.elim
      | set hq hf hc hw =>
          refine hinv _ (Stage.set hq hf hc ?_)
          cases S with
          | nil => exact absurd rfl hw
          | cons x l => exact List.mem_cons.mpr (Or.inl hq.asleep.1)
      | linked _ _ _ hw => simp at hw
  | walk t =>
      rw [hp] at hst
      cases hst with
      | calm _ _ hw => exact hw.elim
      | set hq hf hc hw =>
          have ht0 : t ≠ 0 := hq.asleep.ne_zero t hw
          refine ⟨_, by simp only [step, stmt, ← hcdef, hp, if_neg ht0]; rfl, ?_⟩
          split
          next h0 => exact hinv _ (Stage.set hq hf hc (last_of_next_eq_zero hq.asleep hw h0))
          next h0 => exact hinv _ (Stage.set hq hf hc ⟨hw, h0⟩)
      | linked _ _ _ hw => simp at hw
  | advance t =>
      refine ⟨_, by simp only [step, stmt, ← hcdef, hp]; rfl, ?_⟩
      rw [hp] at hst
      cases hst with
      | calm _ _ hw => exact hw.elim
      | set hq hf hc hw => exact hinv _ (Stage.set hq hf hc (next_mem hq.asleep hw.1 hw.2))
      | linked _ _ _ hw => simp at hw
  | linkTail t =>
      refine ⟨_, by simp only [step, stmt, ← hcdef, hp]; rfl, ?_⟩
      rw [hp] at hst
      cases hst with
      | calm _ _ hw => exact hw.elim
      | set hq hf hc hw =>
          obtain ⟨l, rfl⟩ := hw
          refine inv_goto (Stage.linked (Kernel.linked_of_tail hq) ⟨?_, ?_⟩ ?_ (Or.inl rfl))
            hperm hpc rfl rfl
          · rw [Kernel.eos_setNext]; exact hf.awake
          · rw [Kernel.eos_setNext]; exact hf.asleep
          · rw [Kernel.eos_setNext]; exact hc
      | linked _ _ _ hw => simp at hw
  | switch =>
      have hsw : ∀ k' d, s.kernel.switchTask r = some (k', d) →
          s.step (.stmt r) = some { s.goto .outside with kernel := k' } := by
        intro k' d hk'
        simp only [step, stmt, ← hcdef, hp, hk', Option.map_some]
      rw [hp] at hst
      cases hst with
      | calm hq hf _ =>
          obtain ⟨k', d, hk', hcalm⟩ := calm_switch r ⟨_, S, hq, hf, by simp [hcdef], hperm⟩
          exact ⟨_, hsw k' d hk', inv_goto_calm hcalm hpc trivial⟩
      | set _ _ _ hw => exact hw.elim
      | linked hl hf hc _ =>
          obtain ⟨k', d, hk', hres⟩ := linked_switch r hl hf hc rfl hperm
          refine ⟨_, hsw k' d hk', ?_⟩
          rcases hres with ⟨rfl, rfl, rfl⟩ | ⟨hcalm, _⟩
          · exact inv_goto (Stage.linked hl hf hc (Or.inr ⟨Or.inl rfl, rfl, rfl⟩)) hperm hpc rfl rfl
          · exact inv_goto_calm hcalm hpc trivial

/-- A call of `sleep` keeps the invariant. -/
lemma stage_call (e : ℕ) {s : Preempt} (h : s.Inv) (hsafe : s.Safe (.call e)) :
    ∃ s', s.step (.call e) = some s' ∧ s'.Inv := by
  obtain ⟨b, a, S, hst, hperm, hpc⟩ := h
  have hout : s.pc s.kernel.currentTask = .outside := hsafe
  rw [hout] at hst
  have hgoto : Stage s.kernel (.check e) b s.kernel.currentTask a S → (s.goto (.check e)).Inv :=
    fun hst' => inv_goto hst' hperm hpc rfl rfl
  refine ⟨s.goto (.check e), rfl, hgoto ?_⟩
  cases hst with
  | calm hq hf _ => exact Stage.calm hq hf trivial
  | set _ _ _ hw => exact hw.elim
  | linked hl hf hc hw =>
      obtain ⟨_, hb, ha⟩ := hw.resolve_left (by simp)
      exact Stage.linked hl hf hc (Or.inr ⟨Or.inr ⟨e, rfl⟩, hb, ha⟩)

lemma inv_step (s : Preempt) (act : PreemptAct) (h : s.Inv) (hsafe : s.Safe act) :
    ∃ s', s.step act = some s' ∧ s'.Inv := by
  cases act with
  | call e => exact stage_call e h hsafe
  | stmt r => exact stage_stmt r h hsafe
  | tick r => exact stage_tick r h hsafe

/-- **No task is lost in a safe run**: from queues that hold every task exactly once, with no
task inside `sleep`, every run of safe steps has a result, and every task created is reachable
from one of the queues after it. -/
theorem no_task_lost {s : Preempt} (hq : CalmQueues s.kernel) (hpc : ∀ t, s.pc t = .outside)
    (as : List PreemptAct) (has : Along step Safe s as) :
    ∃ s', run step s as = some s' ∧ ∀ t ∈ s'.kernel.created, OnQueue s'.kernel t := by
  have hinv : s.Inv := inv_of_calm hq fun t => by rw [hpc t]; trivial
  obtain ⟨s', hs', b, a, S, hst, hperm, _⟩ := run_invariant inv_step hinv has
  exact ⟨s', hs', fun t ht => hst.onQueue (hperm.mem_iff.mp ht)⟩

/-- The kernel after `initialise_tasking` and one `fork`: the tasks 1 and 2, with 1 running. -/
def twoTasks : Kernel :=
  let k := Kernel.initialiseTasking 1 0 0 0 fun _ => ⟨0, 0, 0, 0, 0, 0, 0, 0⟩
  ((k.fork ⟨2, 0, 0, ⟨0, 0, 0, Regs.zero_ne⟩⟩).map Prod.fst).getD k

lemma calmQueues_twoTasks : CalmQueues twoTasks := by
  obtain ⟨s, hs, q, hq⟩ := Sched.inv_step (Sched.init 1 0 0 0 fun _ => ⟨0, 0, 0, 0, 0, 0, 0, 0⟩)
    (.fork ⟨2, 0, 0, ⟨0, 0, 0, by decide⟩⟩) (Sched.inv_init (by decide) 0 0 0 _)
    ⟨by decide, by decide⟩
  cases hs
  exact calmQueues_of_represents hq

/-- The whole of a call of `sleep` without a tick inside, and a tick after it. -/
theorem no_task_lost_uninterrupted :
    ∃ s', run step ⟨twoTasks, fun _ => .outside⟩
        [.call 5, .stmt ⟨0, 0, 0, by decide⟩, .stmt ⟨0, 0, 0, by decide⟩,
          .stmt ⟨0, 0, 0, by decide⟩, .stmt ⟨0, 0, 0, by decide⟩, .stmt ⟨0, 0, 0, by decide⟩,
          .tick ⟨0, 0, 0, by decide⟩] = some s' ∧
      ∀ t ∈ s'.kernel.created, OnQueue s'.kernel t := by
  refine no_task_lost calmQueues_twoTasks (fun _ => rfl) _ ?_
  iterate 7 rw [along_cons_of_eq (by rfl)]
  refine ⟨rfl, ?_, ?_, ?_, ?_, ?_, trivial, trivial⟩
  · rintro e ⟨⟩
  · rintro e ⟨⟩
    decide
  all_goals rintro e ⟨⟩

lemma reaches_iff {p t : ℕ} :
    Reaches k p t ↔ p ≠ 0 ∧ (t = p ∨ Reaches k (k.next p) t) := by
  constructor
  · rintro ⟨l, q, hseg⟩
    cases l with
    | nil => exact ⟨hseg.1 ▸ hseg.2.1, Or.inl hseg.1.symm⟩
    | cons x l =>
        obtain ⟨rfl, hx0, hseg⟩ := hseg
        exact ⟨hx0, Or.inr ⟨l, q, hseg⟩⟩
  · rintro ⟨hp, rfl | ⟨l, q, hseg⟩⟩
    · exact ⟨[], k.next t, rfl, hp, rfl⟩
    · exact ⟨p :: l, q, rfl, hp, hseg⟩

/-- A tick right after `end_of_sleep` is set: the switch takes the running task out of the
ready queue, and it is on no queue any more. -/
theorem task_lost_before_link :
    CalmQueues twoTasks ∧
    ∃ s', run step ⟨twoTasks, fun _ => .outside⟩
        [.call 5, .stmt ⟨0, 0, 0, by decide⟩, .stmt ⟨0, 0, 0, by decide⟩,
          .tick ⟨0, 0, 0, by decide⟩] = some s' ∧
      1 ∈ s'.kernel.created ∧ ¬ OnQueue s'.kernel 1 := by
  refine ⟨calmQueues_twoTasks, _, rfl, by decide, ?_⟩
  rintro (h | h)
  · obtain ⟨_, h | h⟩ := reaches_iff.mp h
    · exact absurd h (by decide)
    · exact (reaches_iff.mp h).1 rfl
  · exact (reaches_iff.mp h).1 rfl

end Preempt

end Matanos
