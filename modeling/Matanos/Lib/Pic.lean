import Mathlib.Tactic

/-!
Two 8259A interrupt controllers, the second one on line 2 of the first one.

A request is served unless its line is masked, or a line with the same or a higher priority is in
service. Line 0 has the highest priority. The command 0x20 ends the service of the highest line that is in
service.

* `Pic`: one controller; `pending`, `acknowledge`, `command`, `data`: requests, their acknowledgement,
  and writes to the two ports;
* `PicPair`, `interrupt`, `outb`, `inb`: both of them, as the processor sees them;
* `IrqLine`: the fifteen lines for devices;
* `interrupt_of_idle`, `exists_interrupt`: what is delivered when nothing is in service;
* `IrqLine.served`, `PicPair.backlog`: what service leaves.
-/

namespace Lib

/-- What the data port expects. -/
inductive PicExpects where
  | mask
  | icw2
  | icw3
  | icw4
deriving DecidableEq

/-- A controller: the lines with a request, the lines in service, the mask, the vector of line 0, and the
wiring. -/
structure Pic where
  requested : Finset (Fin 8)
  inService : Finset (Fin 8)
  mask : UInt8
  base : UInt8
  wiring : UInt8
  expects : PicExpects

/-- The line with the highest priority. -/
def highest (s : Finset (Fin 8)) : Option (Fin 8) := if h : s.Nonempty then some (s.min' h) else none

namespace Pic

/-- The line is masked. -/
def masked (p : Pic) (i : Fin 8) : Bool := p.mask.toBitVec.getLsbD i

/-- The requests that are served. -/
def pending (p : Pic) : Finset (Fin 8) :=
  p.requested.filter fun i => p.masked i = false ∧ ∀ j ∈ p.inService, i < j

/-- The request of a line is taken, and the line is in service. -/
def acknowledge (p : Pic) (i : Fin 8) : Pic :=
  { p with requested := p.requested.erase i, inService := insert i p.inService }

/-- The service of the highest line in service ends. -/
def endOfInterrupt (p : Pic) : Pic :=
  match highest p.inService with
  | some i => { p with inService := p.inService.erase i }
  | none => p

/-- A byte to the command port: the first byte of an initialization, or an end of interrupt. -/
def command (p : Pic) (v : UInt8) : Pic :=
  if v &&& 0x10 ≠ 0 then { p with requested := ∅, mask := 0, expects := .icw2 }
  else if v = 0x20 then p.endOfInterrupt
  else p

/-- A byte to the data port. -/
def data (p : Pic) (v : UInt8) : Pic :=
  match p.expects with
  | .mask => { p with mask := v }
  | .icw2 => { p with base := v &&& 0xF8, expects := .icw3 }
  | .icw3 => { p with wiring := v, expects := .icw4 }
  | .icw4 => { p with expects := .mask }

end Pic

/-- The two controllers. -/
structure PicPair where
  master : Pic
  slave : Pic

namespace PicPair

/-- The first controller, with the second one on its line 2. -/
def cascaded (p : PicPair) : Pic :=
  { p.master with
    requested := if (highest p.slave.pending).isSome then insert 2 p.master.requested
      else p.master.requested.erase 2 }

/-- The vector that the processor gets, if there is a request to serve. -/
def interrupt (p : PicPair) : Option (UInt8 × PicPair) :=
  (highest p.cascaded.pending).bind fun i =>
    if i = 2 then
      (highest p.slave.pending).map fun j =>
        (p.slave.base + UInt8.ofNat j.val, ⟨p.master.acknowledge 2, p.slave.acknowledge j⟩)
    else some (p.master.base + UInt8.ofNat i.val, ⟨p.master.acknowledge i, p.slave⟩)

/-- The vector of line 7 of the first controller, for a request that is gone before it is acknowledged. -/
def spuriousMaster (p : PicPair) : UInt8 × PicPair := (p.master.base + 7, p)

/-- The vector of line 7 of the second controller, for a request that is gone before it is
acknowledged. -/
def spuriousSlave (p : PicPair) : UInt8 × PicPair :=
  (p.slave.base + 7, { p with master := p.master.acknowledge 2 })

/-- A byte to a port. -/
def outb (p : PicPair) (port : UInt16) (v : UInt8) : PicPair :=
  if port = 0x20 then { p with master := p.master.command v }
  else if port = 0x21 then { p with master := p.master.data v }
  else if port = 0xA0 then { p with slave := p.slave.command v }
  else if port = 0xA1 then { p with slave := p.slave.data v }
  else p

/-- A byte from a port; other devices are not looked at. -/
def inb (p : PicPair) (port : UInt16) : UInt8 :=
  if port = 0x21 then p.master.mask else if port = 0xA1 then p.slave.mask else 0

end PicPair

/-- The lines to which devices are connected. -/
inductive IrqLine where
  | master (i : Fin 8) (h : i ≠ 2)
  | slave (j : Fin 8)

namespace IrqLine

/-- The number of a line. -/
def number : IrqLine → ℕ
  | master i _ => i
  | slave j => 8 + j

/-- The line of the first controller on which its requests arrive. -/
def pin : IrqLine → Fin 8
  | master i _ => i
  | slave _ => 2

/-- The place of a line in the order of priorities. -/
def priority : IrqLine → ℕ
  | master i _ => 8 * i
  | slave j => 16 + j

/-- The requests of the line are changed. -/
def setRequest (f : Finset (Fin 8) → Fin 8 → Finset (Fin 8)) (p : PicPair) : IrqLine → PicPair
  | master i _ => { p with master := { p.master with requested := f p.master.requested i } }
  | slave j => { p with slave := { p.slave with requested := f p.slave.requested j } }

/-- There is a request on the line. -/
def Requested (p : PicPair) : IrqLine → Prop
  | master i _ => i ∈ p.master.requested
  | slave j => j ∈ p.slave.requested

/-- The line is not masked, and the second controller is not masked if it is one of its lines. -/
def Enabled (p : PicPair) : IrqLine → Prop
  | master i _ => p.master.masked i = false
  | slave j => p.slave.masked j = false ∧ p.master.masked 2 = false

/-- The controllers after the line has been acknowledged. -/
def acknowledged (p : PicPair) : IrqLine → PicPair
  | master i _ => ⟨p.master.acknowledge i, p.slave⟩
  | slave j => ⟨p.master.acknowledge 2, p.slave.acknowledge j⟩

/-- The controllers after the service of the line has begun and ended. -/
def served (p : PicPair) : IrqLine → PicPair
  | master i _ => ⟨{ p.master with requested := p.master.requested.erase i }, p.slave⟩
  | slave j =>
      ⟨{ p.master with requested := p.master.requested.erase 2 },
        { p.slave with requested := p.slave.requested.erase j }⟩

/-- The vector of the line. -/
def vector (p : PicPair) : IrqLine → UInt8
  | master i _ => p.master.base + UInt8.ofNat i.val
  | slave j => p.slave.base + UInt8.ofNat j.val

end IrqLine

/-- The number of lines with a request. -/
def PicPair.backlog (p : PicPair) : ℕ := (p.master.requested.erase 2).card + p.slave.requested.card

/-- Nothing is in service. -/
structure PicPair.Idle (p : PicPair) : Prop where
  master : p.master.inService = ∅
  slave : p.slave.inService = ∅

section

variable {p p' : PicPair} {c : Pic} {i j : Fin 8} {s : Finset (Fin 8)} {v : UInt8} {l : IrqLine}

lemma highest_eq_some : highest s = some i ↔ i ∈ s ∧ ∀ j ∈ s, i ≤ j := by
  rw [highest]
  split_ifs with h
  · rw [Option.some.injEq]
    constructor
    · rintro rfl
      exact ⟨s.min'_mem h, fun j hj => s.min'_le j hj⟩
    · rintro ⟨hi, hle⟩
      exact le_antisymm (s.min'_le i hi) (hle _ (s.min'_mem h))
  · simp only [false_iff, not_and]
    exact fun hi => absurd ⟨i, hi⟩ h

lemma highest_eq_none : highest s = none ↔ s = ∅ := by
  rw [highest]
  split_ifs with h
  · simp [h.ne_empty]
  · simpa using h

/-- The service that has just begun ends. -/
lemma Pic.endOfInterrupt_acknowledge (h : c.inService = ∅) :
    (c.acknowledge i).endOfInterrupt = { c with requested := c.requested.erase i } := by
  have hhigh : highest (c.acknowledge i).inService = some i :=
    highest_eq_some.mpr (by simp [Pic.acknowledge, h])
  rw [Pic.endOfInterrupt, hhigh]
  simp [Pic.acknowledge, h]

/-- With nothing in service there is no end of it. -/
lemma Pic.endOfInterrupt_of_idle (h : c.inService = ∅) : c.endOfInterrupt = c := by
  rw [Pic.endOfInterrupt, highest_eq_none.mpr h]

/-- Outside an initialization the data port takes a mask. -/
lemma Pic.data_of_mask (h : c.expects = .mask) : c.data v = { c with mask := v } := by
  obtain ⟨requested, inService, mask, base, wiring, expects⟩ := c
  obtain rfl : expects = .mask := h
  rfl

lemma Pic.mem_pending_of_idle (h : c.inService = ∅) :
    i ∈ c.pending ↔ i ∈ c.requested ∧ c.masked i = false := by
  simp [Pic.pending, h]

/-- The pending requests of the first controller, with the second one idle. -/
lemma PicPair.Idle.mem_cascaded (h : p.Idle) : i ∈ p.cascaded.pending ↔
    p.master.masked i = false ∧
      if i = 2 then ∃ j, j ∈ p.slave.requested ∧ p.slave.masked j = false
      else i ∈ p.master.requested := by
  rw [Pic.mem_pending_of_idle (show p.cascaded.inService = ∅ from h.master), and_comm]
  refine and_congr Iff.rfl ?_
  have hsome : (highest p.slave.pending).isSome ↔
      ∃ j, j ∈ p.slave.requested ∧ p.slave.masked j = false := by
    rw [Option.isSome_iff_ne_none, ne_eq, highest_eq_none, ← ne_eq, ← Finset.nonempty_iff_ne_empty]
    exact exists_congr fun j => Pic.mem_pending_of_idle h.slave
  rw [PicPair.cascaded]
  by_cases hslave : (highest p.slave.pending).isSome = true
  · rw [if_pos hslave, Finset.mem_insert]
    by_cases hi : i = 2
    · simpa [hi] using hsome.mp hslave
    · simp [hi]
  · rw [if_neg hslave, Finset.mem_erase]
    by_cases hi : i = 2
    · rw [if_pos hi]
      simpa [hi] using fun h => hslave (hsome.mpr h)
    · simp [hi]

/-- The line that is acknowledged is pending at the first controller. -/
lemma IrqLine.mem_cascaded (h : p.Idle) (hr : l.Requested p) (he : l.Enabled p) :
    l.pin ∈ p.cascaded.pending := by
  rw [h.mem_cascaded]
  cases l with
  | master i hi => exact ⟨he, (if_neg hi).symm ▸ hr⟩
  | slave j => exact ⟨he.2, j, hr, he.1⟩

/-- **What is delivered when nothing is in service**: the vector of the line with the highest priority
among those with a request that are not masked. -/
lemma interrupt_of_idle (h : p.Idle) (hi : p.interrupt = some (v, p')) :
    ∃ l : IrqLine, l.Requested p ∧ l.Enabled p ∧ v = l.vector p ∧ p' = l.acknowledged p ∧
      ∀ l' : IrqLine, l'.Requested p → l'.Enabled p → l.priority ≤ l'.priority := by
  obtain ⟨i, hhigh, hline⟩ := Option.bind_eq_some_iff.mp hi
  obtain ⟨hmem, hleast⟩ := highest_eq_some.mp hhigh
  rw [h.mem_cascaded] at hmem
  have hother : ∀ l' : IrqLine, l'.Requested p → l'.Enabled p → i ≤ l'.pin :=
    fun l' hr he => hleast _ (l'.mem_cascaded h hr he)
  by_cases htwo : i = 2
  · rw [if_pos htwo] at hmem hline
    obtain ⟨j, hslave, hvec⟩ := Option.map_eq_some_iff.mp hline
    obtain ⟨hj, hjleast⟩ := highest_eq_some.mp hslave
    rw [Pic.mem_pending_of_idle h.slave] at hj
    obtain ⟨rfl, rfl⟩ := Prod.mk.inj hvec
    subst htwo
    refine ⟨.slave j, hj.1, ⟨hj.2, hmem.1⟩, rfl, rfl, fun l' hr he => ?_⟩
    cases l' with
    | master k hk =>
        have hle := hother (.master k hk) hr he
        simp only [IrqLine.priority]
        have hlt : (2 : Fin 8) < k := lt_of_le_of_ne hle (Ne.symm hk)
        have hval : 2 < k.val := hlt
        omega
    | slave k =>
        have hle : j ≤ k := hjleast k ((Pic.mem_pending_of_idle h.slave).mpr ⟨hr, he.1⟩)
        have hval : j.val ≤ k.val := hle
        simp only [IrqLine.priority]
        omega
  · rw [if_neg htwo] at hmem hline
    obtain ⟨rfl, rfl⟩ := Prod.mk.inj (Option.some.inj hline)
    refine ⟨.master i htwo, hmem.2, hmem.1, rfl, rfl, fun l' hr he => ?_⟩
    have hle := hother l' hr he
    cases l' with
    | master k hk =>
        have hval : i.val ≤ k.val := hle
        simp only [IrqLine.priority]
        omega
    | slave k =>
        have hval : i.val ≤ 2 := hle
        have hne : i.val ≠ 2 := fun h => htwo (Fin.ext h)
        simp only [IrqLine.priority]
        omega

/-- **A request is not kept waiting** when nothing is in service. -/
lemma exists_interrupt (h : p.Idle) (hr : l.Requested p) (he : l.Enabled p) :
    ∃ v p', p.interrupt = some (v, p') := by
  have hmem := l.mem_cascaded h hr he
  cases hhigh : highest p.cascaded.pending with
  | none =>
      rw [highest_eq_none.mp hhigh] at hmem
      exact absurd hmem (Finset.notMem_empty _)
  | some i =>
      have hi := (highest_eq_some.mp hhigh).1
      rw [h.mem_cascaded] at hi
      rw [PicPair.interrupt, hhigh, Option.bind_some]
      by_cases htwo : i = 2
      · rw [if_pos htwo] at hi ⊢
        obtain ⟨j, hj⟩ := hi.2
        cases hslave : highest p.slave.pending with
        | none =>
            have hmem' := (Pic.mem_pending_of_idle h.slave).mpr hj
            rw [highest_eq_none.mp hslave] at hmem'
            exact absurd hmem' (Finset.notMem_empty _)
        | some k => exact ⟨_, _, rfl⟩
      · rw [if_neg htwo]
        exact ⟨_, _, rfl⟩

/-! ### The requests that are left -/

/-- One line is served, and the others keep their requests. -/
lemma IrqLine.requested_served {l' : IrqLine} : l'.Requested (l.served p) ↔ l'.Requested p ∧ l' ≠ l := by
  cases l with
  | master i hi =>
      cases l' with
      | master k hk => simp [served, Requested, and_comm]
      | slave k => simp [served, Requested]
  | slave j =>
      cases l' with
      | master k hk => simp [served, Requested, hk]
      | slave k => simp [served, Requested, and_comm]

lemma PicPair.backlog_le (p : PicPair) : p.backlog ≤ 15 := by
  have hmaster : (p.master.requested.erase 2).card ≤ 7 := by
    calc (p.master.requested.erase 2).card ≤ ((Finset.univ : Finset (Fin 8)).erase 2).card :=
          Finset.card_le_card (Finset.erase_subset_erase 2 (Finset.subset_univ _))
      _ = 7 := rfl
  have hslave : p.slave.requested.card ≤ 8 := Finset.card_le_univ p.slave.requested
  rw [backlog]
  omega

/-- Service leaves fewer requests. -/
lemma IrqLine.backlog_served (hr : l.Requested p) : (l.served p).backlog + 1 = p.backlog := by
  cases l with
  | master i hi =>
      have hmem : i ∈ p.master.requested.erase 2 := Finset.mem_erase.mpr ⟨hi, hr⟩
      have hcard := Finset.card_erase_add_one hmem
      simp only [PicPair.backlog, served, Finset.erase_right_comm (a := i)]
      omega
  | slave j =>
      have hcard : (p.slave.requested.erase j).card + 1 = p.slave.requested.card :=
        Finset.card_erase_add_one hr
      simp only [PicPair.backlog, served, Finset.erase_idem]
      omega

end

end Lib
