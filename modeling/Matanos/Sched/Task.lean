import Matanos.Lib.Thread

/-!
The scheduler of `cpu/task.c` and `cpu/timer.c`: `initialise_tasking`, `switch_task`,
`fork`, `sleep` and `timer_callback`, on the task structures and the globals they share.

The two queues are threaded through the one `next` field of `task_t`, so the task structures
are a memory indexed by pointer and every loop over a queue is a walk in that memory
(`Lib.seek`). A walk over more tasks than were ever created repeats one and never ends;
`created`, the list of structures handed out so far, bounds it.

What a switch does to the processor is in the result of `switchTask`: `some t` says that
`current_task = t` was assigned and that `t` continues where it was suspended, `none` that
the call came back in the task that made it.
-/

namespace Matanos

open Lib

/-- The structure `task_t`. -/
structure Task where
  id : ℕ
  esp : ℕ
  ebp : ℕ
  eip : ℕ
  pageDirectory : ℕ
  kernelStack : ℕ
  endOfSleep : ℕ
  next : ℕ

/-- What `switch_task` and `fork` read from the processor. The address `read_eip` returns is
that of an instruction of the kernel, never the dummy `0x12345` that marks a resumed task. -/
structure Regs where
  eip : ℕ
  esp : ℕ
  ebp : ℕ
  eip_ne : eip ≠ 0x12345

/-- The null address is not the dummy. -/
lemma Regs.zero_ne : 0 ≠ 0x12345 := by decide

/-- `KERNEL_STACK_SIZE`. -/
def kernelStackSize : ℕ := 0x1000

/-- The globals of the scheduler and the task structures, by pointer. -/
structure Kernel where
  task : ℕ → Task
  created : List ℕ
  currentTask : ℕ
  tmpCurrentTask : ℕ
  readyQueue : ℕ
  sleepQueue : ℕ
  nextPid : ℕ
  tick : ℕ
  currentDirectory : ℕ
  tssEsp0 : ℕ

namespace Kernel

/-- The `next` field of every task. -/
def next (s : Kernel) (p : ℕ) : ℕ := (s.task p).next

/-- The `end_of_sleep` field of every task. -/
def eos (s : Kernel) (p : ℕ) : ℕ := (s.task p).endOfSleep

/-- Overwrite the task structure at `p`. -/
def setTask (s : Kernel) (p : ℕ) (t : Task) : Kernel :=
  { s with task := Function.update s.task p t }

/-- The assignment `p->next = v`. -/
def setNext (s : Kernel) (p v : ℕ) : Kernel := s.setTask p { s.task p with next := v }

/-- The assignment `p->end_of_sleep = v`. -/
def setEos (s : Kernel) (p v : ℕ) : Kernel := s.setTask p { s.task p with endOfSleep := v }

/-- The assignments `p->eip = eip`, `p->esp = esp` and `p->ebp = ebp`. -/
def setRegs (s : Kernel) (p : ℕ) (r : Regs) : Kernel :=
  s.setTask p { s.task p with eip := r.eip, esp := r.esp, ebp := r.ebp }

/-- The walk `while (p->next != x) p = p->next` from `p`. -/
def seek (s : Kernel) (x p : ℕ) : Option ℕ := Lib.seek s.next x s.created.length p

/-- Cut `p` out of the list that starts at `head`, with the new head (the code of
`switch_task` for the ready queue and of `timer_callback` for the sleep queue): the head is
moved past `p`, or the node that points at `p` is made to skip it. -/
def cut (s : Kernel) (head p : ℕ) : Option (Kernel × ℕ) :=
  if head = p then some (s, s.next p)
  else (s.seek p head).map fun tmpTask => (s.setNext tmpTask (s.next p), head)

/-- The branch of `switch_task` for a task that is going to sleep: out of the ready queue. -/
def unlinkCurrent (s : Kernel) : Option Kernel :=
  (s.cut s.readyQueue s.currentTask).map fun (s, head) =>
    { s with readyQueue := head }.setNext s.currentTask 0

/-- The rest of `switch_task` once `tmp_current_task` is chosen and the queues are right:
the assignment of `current_task` and the jump into that task. -/
def dispatch (s : Kernel) : Kernel × Option ℕ :=
  ({ s with
    currentTask := s.tmpCurrentTask
    currentDirectory := (s.task s.tmpCurrentTask).pageDirectory
    tssEsp0 := (s.task s.tmpCurrentTask).kernelStack + kernelStackSize }, some s.tmpCurrentTask)

/-- The choice of the next task in `switch_task`. -/
def chooseNext (s : Kernel) : Kernel :=
  { s with tmpCurrentTask :=
      if s.next s.currentTask = 0 then s.readyQueue else s.next s.currentTask }

/-- `switch_task`. -/
def switchTask (r : Regs) (s : Kernel) : Option (Kernel × Option ℕ) :=
  if s.currentTask = 0 then some (s, none)
  else if s.currentTask = s.readyQueue ∧ s.next s.readyQueue = 0 then some (s, none)
  else
    let s := (s.setRegs s.currentTask r).chooseNext
    if s.eos s.currentTask ≠ 0 then s.unlinkCurrent.map dispatch else some s.dispatch

/-- Append `p` to the list that starts at `head` (the loops of `fork`, `sleep` and
`timer_callback` that walk to the tail and set its `next`). -/
def linkAtTail (s : Kernel) (head p : ℕ) : Option Kernel :=
  (s.seek 0 head).map fun tmpTask => s.setNext tmpTask p

/-- What `kmalloc`, `kmalloc_a` and `clone_directory` return to a call of `fork`. -/
structure ForkEnv where
  newTask : ℕ
  directory : ℕ
  kernelStack : ℕ
  regs : Regs

/-- `fork`, with the value it returns to the parent. -/
def fork (e : ForkEnv) (s : Kernel) : Option (Kernel × ℕ) :=
  let pid := s.nextPid
  let s := { s with created := e.newTask :: s.created, nextPid := (pid + 1) % 2 ^ 32 }
  let s := s.setTask e.newTask
    { id := pid, esp := 0, ebp := 0, eip := 0, pageDirectory := e.directory,
      kernelStack := e.kernelStack, endOfSleep := 0, next := 0 }
  (s.linkAtTail s.readyQueue e.newTask).map fun s =>
    (s.setRegs e.newTask e.regs, (s.task e.newTask).id)

/-- The part of `sleep` that links the running task behind the sleepers, while it is still
in the ready queue. -/
def linkSleeper (s : Kernel) : Option Kernel :=
  if s.sleepQueue = 0 then some { s with sleepQueue := s.currentTask }
  else s.linkAtTail s.sleepQueue s.currentTask

/-- `sleep`. A task that is alone in the ready queue is refused (and told so on the
screen). -/
def sleep (r : Regs) (epoches : ℕ) (s : Kernel) : Option (Kernel × Option ℕ) :=
  if s.currentTask ≠ 0 ∧ s.currentTask = s.readyQueue ∧ s.next s.readyQueue = 0 then
    some (s, none)
  else
    let s := s.setEos s.currentTask ((s.tick + epoches) % 2 ^ 32)
    s.linkSleeper.bind (switchTask r)

/-- The body of the loop of `timer_callback` for an expired sleeper `p`: out of the sleep
queue, behind the ready queue. -/
def wakeTask (s : Kernel) (p : ℕ) : Option Kernel :=
  let s := s.setEos p 0
  (s.cut s.sleepQueue p).bind fun (s, head) =>
    let s := { s with sleepQueue := head }
    (s.linkAtTail s.readyQueue p).map fun s => s.setNext p 0

/-- The loop of `timer_callback` over the sleep queue, from the node `p`. It advances through
the `next` of the node it stands on, after that node may have been moved. -/
def wakeLoop : ℕ → Kernel → ℕ → Option Kernel
  | 0, s, p => if p = 0 then some s else none
  | n + 1, s, p =>
      if p = 0 then some s
      else if s.tick > s.eos p then (s.wakeTask p).bind fun s => wakeLoop n s (s.next p)
      else wakeLoop n s (s.next p)

/-- `timer_callback`. -/
def timerCallback (r : Regs) (s : Kernel) : Option (Kernel × Option ℕ) :=
  let s := { s with tick := (s.tick + 1) % 2 ^ 32 }
  if s.nextPid = 1 then some (s, none)
  else (wakeLoop s.created.length s s.sleepQueue).bind (switchTask r)

/-- The globals of the scheduler once `initialise_tasking` has made the first task of the
structure at `p`; before it `next_pid` is 1 and the sleep queue empty. -/
def initialiseTasking (p directory kernelStack tick : ℕ) (task : ℕ → Task) : Kernel where
  task := Function.update task p
    { id := 1, esp := 0, ebp := 0, eip := 0, pageDirectory := directory,
      kernelStack := kernelStack, endOfSleep := 0, next := 0 }
  created := [p]
  currentTask := p
  tmpCurrentTask := 0
  readyQueue := p
  sleepQueue := 0
  nextPid := 2
  tick := tick
  currentDirectory := directory
  tssEsp0 := 0

/-! ### What the assignments change -/

section Assign

variable (s : Kernel) (p v : ℕ) (r : Regs) (t : Task)

lemma next_setTask : (s.setTask p t).next = Function.update s.next p t.next := by
  funext x
  by_cases h : x = p
  · subst h; simp [setTask, next]
  · simp [setTask, next, h]

lemma eos_setTask : (s.setTask p t).eos = Function.update s.eos p t.endOfSleep := by
  funext x
  by_cases h : x = p
  · subst h; simp [setTask, eos]
  · simp [setTask, eos, h]

lemma next_setNext : (s.setNext p v).next = Function.update s.next p v := next_setTask ..

@[simp] lemma eos_setNext : (s.setNext p v).eos = s.eos := by
  rw [setNext, eos_setTask]
  exact Function.update_eq_self p s.eos

@[simp] lemma next_setEos : (s.setEos p v).next = s.next := by
  rw [setEos, next_setTask]
  exact Function.update_eq_self p s.next

lemma eos_setEos : (s.setEos p v).eos = Function.update s.eos p v := eos_setTask ..

@[simp] lemma next_setRegs : (s.setRegs p r).next = s.next := by
  rw [setRegs, next_setTask]
  exact Function.update_eq_self p s.next

@[simp] lemma eos_setRegs : (s.setRegs p r).eos = s.eos := by
  rw [setRegs, eos_setTask]
  exact Function.update_eq_self p s.eos

end Assign

end Kernel

end Matanos
