import Mathlib.Tactic

/-!
Drivers that reach a device through ports, and what holds of them for every device.

A device is known by what it answers: a byte for every read, which may depend on all that has happened. A
driver may be cut short, where it waits for an answer that need not come; what has happened until then is
kept.

* `PortEvent`, `Device`, `Driver`, `inb`, `outb`: drivers and their histories;
* `wp`: the weakest precondition, for the end of the driver and for the cut; its equations for each
  construct, and `wp_mono`.
-/

namespace Lib

/-- An access to a port. -/
inductive PortEvent where
  | read (port : UInt16) (value : UInt8)
  | write (port : UInt16) (value : UInt8)
deriving DecidableEq

/-- What a read of a port gives behind a history. -/
abbrev Device := List PortEvent → UInt16 → UInt8

/-- A driver with the variables `σ`: it ends with a value or is cut, and leaves variables and a history. -/
def Driver (σ α : Type) := σ → List PortEvent → Option α × σ × List PortEvent

namespace Driver

variable {σ α β : Type}

instance : Monad (Driver σ) where
  pure a := fun s h => (some a, s, h)
  bind x f := fun s h =>
    match x s h with
    | (some a, s, h) => f a s h
    | (none, s, h) => (none, s, h)

/-- A byte is read. -/
def inb (dev : Device) (port : UInt16) : Driver σ UInt8 := fun s h =>
  (some (dev h port), s, h ++ [.read port (dev h port)])

/-- A byte is written. -/
def outb (port : UInt16) (v : UInt8) : Driver σ Unit := fun s h => (some (), s, h ++ [.write port v])

/-- The variables are changed. -/
def modify (f : σ → σ) : Driver σ Unit := fun s h => (some (), f s, h)

/-- The variables are read. -/
def get : Driver σ σ := fun s h => (some s, s, h)

/-- The driver is cut. -/
def cut : Driver σ α := fun s h => (none, s, h)

/-- `Q` holds where the driver ends, and `E` where it is cut. -/
def wp (x : Driver σ α) (Q : α → σ → List PortEvent → Prop) (E : σ → List PortEvent → Prop) (s : σ)
    (h : List PortEvent) : Prop :=
  match x s h with
  | (some a, s, h) => Q a s h
  | (none, s, h) => E s h

variable {x : Driver σ α} {f : α → Driver σ β} {Q Q' : α → σ → List PortEvent → Prop}
  {R : β → σ → List PortEvent → Prop} {E E' : σ → List PortEvent → Prop} {s : σ} {h : List PortEvent}

/-- A driver goes on where its first part ends. -/
lemma bind_of_some {a : α} {s' : σ} {h' : List PortEvent} (hx : x s h = (some a, s', h')) :
    (x >>= f) s h = f a s' h' := by
  change (match x s h with
    | (some a, s, h) => f a s h
    | (none, s, h) => (none, s, h)) = _
  rw [hx]

@[simp] lemma wp_pure (a : α) : wp (pure a : Driver σ α) Q E s h = Q a s h := rfl

@[simp] lemma wp_bind : wp (x >>= f) R E s h = wp x (fun a => wp (f a) R E) E s h := by
  change (match (match x s h with
      | (some a, s, h) => f a s h
      | (none, s, h) => (none, s, h)) with
    | (some b, s, h) => R b s h
    | (none, s, h) => E s h) = _
  rw [wp]
  rcases x s h with ⟨_ | a, s', h'⟩ <;> rfl

@[simp] lemma wp_inb {Q : UInt8 → σ → List PortEvent → Prop} (dev : Device) (port : UInt16) :
    wp (inb dev port) Q E s h = Q (dev h port) s (h ++ [.read port (dev h port)]) := rfl

@[simp] lemma wp_outb {Q : Unit → σ → List PortEvent → Prop} (port : UInt16) (v : UInt8) :
    wp (outb port v) Q E s h = Q () s (h ++ [.write port v]) := rfl

@[simp] lemma wp_modify {Q : Unit → σ → List PortEvent → Prop} (g : σ → σ) :
    wp (modify g) Q E s h = Q () (g s) h := rfl

@[simp] lemma wp_get {Q : σ → σ → List PortEvent → Prop} : wp get Q E s h = Q s s h := rfl

@[simp] lemma wp_cut : wp (cut : Driver σ α) Q E s h = E s h := rfl

@[simp] lemma wp_ite (c : Prop) [Decidable c] (x y : Driver σ α) :
    wp (if c then x else y) Q E s h = if c then wp x Q E s h else wp y Q E s h := by
  split_ifs <;> rfl

/-- **Weaker postconditions.** -/
lemma wp_mono (hx : wp x Q E s h) (hQ : ∀ a s h, Q a s h → Q' a s h) (hE : ∀ s h, E s h → E' s h) :
    wp x Q' E' s h := by
  rw [wp] at hx ⊢
  revert hx
  rcases x s h with ⟨_ | a, s', h'⟩
  · exact hE s' h'
  · exact hQ a s' h'

end Driver

end Lib
