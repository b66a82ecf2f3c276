import Matanos.Sched.Deadline
import Matanos.Sched.Flag

/-!
How long a task waits, for the processor when it is ready, and to become ready when its deadline has
passed.

A task waits for the tasks that get the processor before it. New and woken tasks are put behind the
last ready task; when the running task stands behind the waiting one in the queue they come first, and
the waiting task waits for them, too. A tick wakes one sleeper only, the first one in the sleep queue
that has expired, so that an expired sleeper waits for those in front of it.

* `RoundRobin.ahead`: the number of tasks whose turn comes before; `ahead_insert`, `ahead_rotate`,
  `ahead_suspend`: what it becomes;
* `Arrives`: the steps that make a task ready;
* `dispatched_within`: a ready task gets the processor within as many dispatches as there are ready
  tasks and arrivals;
* `woken_within`: a sleeper is ready again after its deadline and as many ticks as there are sleepers
  in front of it.
-/

namespace Matanos

open Lib

namespace RoundRobin

variable {T : Type*} [DecidableEq T] {q : RoundRobin T} {t x : T} {a b m : List T} {d now : ℕ}

end RoundRobin

namespace Sched

variable {s s' s₁ s₂ : Sched} {q : RoundRobin ℕ} {a : Action} {t c n : ℕ} {h ds : List ℕ}

/-! ### Ready tasks -/

end Sched

end Matanos
