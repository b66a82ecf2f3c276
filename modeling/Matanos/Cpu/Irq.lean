import Matanos.Lib.Ia32
import Matanos.Lib.Pic
import Matanos.Lib.Run
import Matanos.Cpu.Descriptors
import Matanos.Cpu.Syscall

/-!
The interrupts of devices, in `cpu/isr.c` and `cpu/interrupt.asm`.

`isr_install` has the two controllers deliver the vectors 32 to 47. `irq_handler` ends the service of an
interrupt before it calls the handler, so that a handler that enables interrupts is interrupted by any
other line.

* `picSendEOI`, `picRemap`, `irqSetMask`, `irqClearMask`: the accesses to the controllers;
* `Interrupts`, `Interrupts.step`: the controllers and the numbers passed to the handlers; requests,
  interrupts and changes of the masks;
* `Remapped`: what holds between two steps; `step_remapped`;
* `irq_never_blocked`: a request on a line that is not masked is always delivered;
* `irq_served`: all such requests are served within fifteen interrupts;
* `masked_iff_last`: a line is masked when the last change of its mask has set it;
* `irqStub`: from the entry of a line to the handler and back;
* `irq_reaches_handler`: the request of a device calls the handler that is registered for its line, and the
  interrupted code goes on with its registers.
-/

namespace Matanos

open Lib

/-- `PIC1_COMMAND`. -/
def pic1Command : UInt16 := 0x20

/-- `PIC1_DATA`. -/
def pic1Data : UInt16 := pic1Command + 1

/-- `PIC2_COMMAND`. -/
def pic2Command : UInt16 := 0xA0

/-- `PIC2_DATA`. -/
def pic2Data : UInt16 := pic2Command + 1

/-- `PIC_EOI`. -/
def picEOI : UInt8 := 0x20

/-- `PIC_sendEOI`. -/
def picSendEOI (irq : UInt8) (p : PicPair) : PicPair :=
  let p := if irq ≥ 40 then p.outb pic2Command picEOI else p
  p.outb pic1Command picEOI

/-- `io_wait`. -/
def ioWait (p : PicPair) : PicPair := p.outb 0x80 0

/-- `PIC_remap`. -/
def picRemap (offset1 offset2 : UInt8) (p : PicPair) : PicPair :=
  let a1 := p.inb pic1Data
  let a2 := p.inb pic2Data
  let p := ioWait (p.outb pic1Command (0x10 ||| 0x01))
  let p := ioWait (p.outb pic2Command (0x10 ||| 0x01))
  let p := ioWait (p.outb pic1Data offset1)
  let p := ioWait (p.outb pic2Data offset2)
  let p := ioWait (p.outb pic1Data 4)
  let p := ioWait (p.outb pic2Data 2)
  let p := ioWait (p.outb pic1Data 0x01)
  let p := ioWait (p.outb pic2Data 0x01)
  let p := p.outb pic1Data a1
  p.outb pic2Data a2

/-- The port and the line of its controller, in `IRQ_set_mask` and `IRQ_clear_mask`. -/
def maskPort (line : UInt8) : UInt16 × UInt8 := if line < 8 then (pic1Data, line) else (pic2Data, line - 8)

/-- `IRQ_set_mask`. -/
def irqSetMask (line : UInt8) (p : PicPair) : PicPair :=
  let (port, line) := maskPort line
  let value := p.inb port ||| (1 <<< line)
  p.outb port value

/-- `IRQ_clear_mask`. -/
def irqClearMask (line : UInt8) (p : PicPair) : PicPair :=
  let (port, line) := maskPort line
  let value := p.inb port &&& ~~~(1 <<< line)
  p.outb port value

/-- The controllers, and the numbers that the handlers have been called with. -/
structure Interrupts where
  pics : PicPair
  handled : List UInt8

namespace Interrupts

/-- What devices, the processor and drivers do. -/
inductive Action where
  | request (l : IrqLine)
  | withdraw (l : IrqLine)
  | interrupt
  | spurious (slave : Bool)
  | setMask (line : Fin 16)
  | clearMask (line : Fin 16)

/-- `irq_handler`, up to the call of the handler. -/
def irqHandler (s : Interrupts) (r : UInt8 × PicPair) : Interrupts :=
  ⟨picSendEOI r.1 r.2, s.handled ++ [r.1]⟩

/-- One step. -/
def step (s : Interrupts) : Action → Option Interrupts
  | .request l => some { s with pics := l.setRequest (fun r i => insert i r) s.pics }
  | .withdraw l => some { s with pics := l.setRequest Finset.erase s.pics }
  | .interrupt => some ((s.pics.interrupt.map s.irqHandler).getD s)
  | .spurious slave =>
      some (s.irqHandler (if slave then s.pics.spuriousSlave else s.pics.spuriousMaster))
  | .setMask line => some { s with pics := irqSetMask (UInt8.ofNat line) s.pics }
  | .clearMask line => some { s with pics := irqClearMask (UInt8.ofNat line) s.pics }

/-- The controllers deliver the vectors from 32 on, and nothing is in service. -/
structure Remapped (p : PicPair) : Prop extends p.Idle where
  masterBase : p.master.base = 0x20
  slaveBase : p.slave.base = 0x28
  masterExpects : p.master.expects = .mask
  slaveExpects : p.slave.expects = .mask

variable {p p' : PicPair} {s s' : Interrupts} {v : UInt8} {l : IrqLine} {a : Action}

/-! ### The accesses -/

/-- **The initialization** sets the vectors and keeps the masks. -/
lemma picRemap_spec (h : p.Idle) :
    Remapped (picRemap 0x20 0x28 p) ∧ (picRemap 0x20 0x28 p).master.mask = p.master.mask ∧
      (picRemap 0x20 0x28 p).slave.mask = p.slave.mask :=
  ⟨⟨⟨h.master, h.slave⟩, rfl, rfl, rfl, rfl⟩, rfl, rfl⟩

lemma outb_eoi_master : p.outb pic1Command picEOI = { p with master := p.master.endOfInterrupt } := rfl

lemma outb_eoi_slave : p.outb pic2Command picEOI = { p with slave := p.slave.endOfInterrupt } := rfl

lemma vector_lt (i : Fin 8) : ¬ (0x20 : UInt8) + UInt8.ofNat i ≥ 40 := by
  revert i
  decide

lemma vector_ge (j : Fin 8) : (0x28 : UInt8) + UInt8.ofNat j ≥ 40 := by
  revert j
  decide

/-- The number of a line at its controller. -/
def pinOf (line : Fin 16) : Fin 8 := ⟨line.val % 8, Nat.mod_lt line.val (Nat.zero_lt_succ 7)⟩

/-- The line is masked at its controller. -/
def lineMasked (p : PicPair) (line : Fin 16) : Bool :=
  if line.val < 8 then p.master.masked (pinOf line) else p.slave.masked (pinOf line)

/-- What a step makes of the mask of a line. -/
def maskAfter (line : Fin 16) (b : Bool) : Action → Bool
  | .setMask l => b || decide (l = line)
  | .clearMask l => b && decide (l ≠ line)
  | _ => b

/-- The two controllers are ready, nothing is in service, and the masks are those of `p`. -/
def KeepsMasks (p q : PicPair) : Prop :=
  Remapped q ∧ q.master.mask = p.master.mask ∧ q.slave.mask = p.slave.mask

lemma KeepsMasks.lineMasked {q : PicPair} (h : KeepsMasks p q) (line : Fin 16) :
    Interrupts.lineMasked q line = Interrupts.lineMasked p line := by
  simp only [Interrupts.lineMasked, Pic.masked, h.2.1, h.2.2]

/-- **The service of a line ends** before its handler is called. -/
lemma picSendEOI_acknowledged (h : Remapped p) (l : IrqLine) :
    picSendEOI (l.vector p) (l.acknowledged p) = l.served p := by
  cases l with
  | master i hi =>
      rw [picSendEOI, IrqLine.vector, h.masterBase, if_neg (vector_lt i), outb_eoi_master]
      simp only [IrqLine.acknowledged, IrqLine.served, Pic.endOfInterrupt_acknowledge h.master]
  | slave j =>
      rw [picSendEOI, IrqLine.vector, h.slaveBase, if_pos (vector_ge j), outb_eoi_slave, outb_eoi_master]
      simp only [IrqLine.acknowledged, IrqLine.served, Pic.endOfInterrupt_acknowledge h.master,
        Pic.endOfInterrupt_acknowledge h.slave]

lemma served_keeps (h : Remapped p) (l : IrqLine) : KeepsMasks p (l.served p) := by
  cases l with
  | master i hi =>
      exact ⟨⟨⟨h.master, h.slave⟩, h.masterBase, h.slaveBase, h.masterExpects, h.slaveExpects⟩, rfl, rfl⟩
  | slave j =>
      exact ⟨⟨⟨h.master, h.slave⟩, h.masterBase, h.slaveBase, h.masterExpects, h.slaveExpects⟩, rfl, rfl⟩

/-- A spurious interrupt leaves nothing in service, either. -/
lemma picSendEOI_spurious (h : Remapped p) (slave : Bool) :
    KeepsMasks p (picSendEOI (if slave then p.spuriousSlave else p.spuriousMaster).1
      (if slave then p.spuriousSlave else p.spuriousMaster).2) := by
  cases slave with
  | false =>
      have hv : ¬ (0x20 : UInt8) + 7 ≥ 40 := vector_lt 7
      simp only [Bool.false_eq_true, if_false, PicPair.spuriousMaster, picSendEOI, h.masterBase, if_neg hv,
        outb_eoi_master, Pic.endOfInterrupt_of_idle h.master]
      exact ⟨h, rfl, rfl⟩
  | true =>
      have hv : (0x28 : UInt8) + 7 ≥ 40 := vector_ge 7
      simp only [if_true, PicPair.spuriousSlave, picSendEOI, h.slaveBase, if_pos hv, outb_eoi_slave,
        outb_eoi_master, Pic.endOfInterrupt_acknowledge h.master, Pic.endOfInterrupt_of_idle h.slave]
      exact ⟨⟨⟨h.master, h.slave⟩, h.masterBase, h.slaveBase, h.masterExpects, h.slaveExpects⟩, rfl, rfl⟩

lemma setRequest_keeps (h : Remapped p) (f : Finset (Fin 8) → Fin 8 → Finset (Fin 8)) (l : IrqLine) :
    KeepsMasks p (l.setRequest f p) := by
  cases l with
  | master i hi =>
      exact ⟨⟨⟨h.master, h.slave⟩, h.masterBase, h.slaveBase, h.masterExpects, h.slaveExpects⟩, rfl, rfl⟩
  | slave j =>
      exact ⟨⟨⟨h.master, h.slave⟩, h.masterBase, h.slaveBase, h.masterExpects, h.slaveExpects⟩, rfl, rfl⟩

/-! ### The masks -/

/-- The port and the line for a number. -/
lemma maskPort_eq : ∀ line : Fin 16, maskPort (UInt8.ofNat line) =
    if line.val < 8 then (pic1Data, UInt8.ofNat (pinOf line)) else (pic2Data, UInt8.ofNat (pinOf line)) := by
  decide

lemma bit_of_shift : ∀ i j : Fin 8, ((1 : UInt8) <<< UInt8.ofNat i).toBitVec.getLsbD j = decide (i = j) := by
  decide

lemma set_bit (m : UInt8) (i j : Fin 8) :
    (m ||| (1 <<< UInt8.ofNat i)).toBitVec.getLsbD j = (m.toBitVec.getLsbD j || decide (i = j)) := by
  rw [UInt8.toBitVec_or, BitVec.getLsbD_or, bit_of_shift]

lemma clear_bit (m : UInt8) (i j : Fin 8) :
    (m &&& ~~~(1 <<< UInt8.ofNat i)).toBitVec.getLsbD j = (m.toBitVec.getLsbD j && decide (i ≠ j)) := by
  rw [UInt8.toBitVec_and, BitVec.getLsbD_and, UInt8.toBitVec_not, BitVec.getLsbD_not, bit_of_shift]
  simp

/-- The lines of one controller by their number there. -/
lemma line_eq_iff (k line : Fin 16) :
    (line.val < 8 → k.val < 8 → (decide (pinOf line = pinOf k) = decide (line = k))) ∧
      (¬ line.val < 8 → ¬ k.val < 8 → (decide (pinOf line = pinOf k) = decide (line = k))) := by
  revert k line
  decide

/-- **A change of a bit of the mask** is one of the mask of one line. -/
lemma changeMask_spec (h : Remapped p) {f : UInt8 → UInt8 → UInt8} {g : Bool → Bool → Bool}
    (hf : ∀ m (i j : Fin 8), (f m (UInt8.ofNat i)).toBitVec.getLsbD j
      = g (m.toBitVec.getLsbD j) (decide (i = j))) (hg : ∀ b, g b false = b) (line : Fin 16) :
    ∃ q : PicPair, p.outb (maskPort (UInt8.ofNat line)).1 (f (p.inb (maskPort (UInt8.ofNat line)).1)
        (maskPort (UInt8.ofNat line)).2) = q ∧ Remapped q ∧
      ∀ k, lineMasked q k = g (lineMasked p k) (decide (line = k)) := by
  refine ⟨_, rfl, ?_⟩
  rw [maskPort_eq]
  by_cases hline : line.val < 8
  · rw [if_pos hline]
    have hout : ∀ m, p.outb pic1Data m = { p with master := { p.master with mask := m } } := by
      intro m
      rw [← Pic.data_of_mask h.masterExpects]
      rfl
    rw [hout]
    refine ⟨⟨⟨h.master, h.slave⟩, h.masterBase, h.slaveBase, h.masterExpects, h.slaveExpects⟩,
      fun k => ?_⟩
    by_cases hk : k.val < 8
    · simp only [lineMasked, if_pos hk, Pic.masked, ← (line_eq_iff k line).1 hline hk]
      exact hf _ _ _
    · have hne : decide (line = k) = false := decide_eq_false fun h => hk (h ▸ hline)
      simp only [lineMasked, if_neg hk, hne, hg]
  · rw [if_neg hline]
    have hout : ∀ m, p.outb pic2Data m = { p with slave := { p.slave with mask := m } } := by
      intro m
      rw [← Pic.data_of_mask h.slaveExpects]
      rfl
    rw [hout]
    refine ⟨⟨⟨h.master, h.slave⟩, h.masterBase, h.slaveBase, h.masterExpects, h.slaveExpects⟩,
      fun k => ?_⟩
    by_cases hk : k.val < 8
    · have hne : decide (line = k) = false := decide_eq_false fun h => hline (h ▸ hk)
      simp only [lineMasked, if_pos hk, hne, hg]
    · simp only [lineMasked, if_neg hk, Pic.masked, ← (line_eq_iff k line).2 hline hk]
      exact hf _ _ _

/-! ### Runs -/

/-- The handler of an interrupt finds nothing in service, and the masks as they were. -/
lemma irqHandler_remapped {r : UInt8 × PicPair} (h : KeepsMasks s.pics (picSendEOI r.1 r.2)) :
    Remapped (s.irqHandler r).pics ∧ ∀ k, lineMasked (s.irqHandler r).pics k = lineMasked s.pics k := by
  rw [irqHandler]
  exact ⟨h.1, h.lineMasked⟩

/-- **One step** leaves nothing in service, and changes the mask of one line at most. -/
lemma step_remapped (h : Remapped s.pics) (a : Action) :
    ∃ s', s.step a = some s' ∧ Remapped s'.pics ∧
      ∀ k, lineMasked s'.pics k = maskAfter k (lineMasked s.pics k) a := by
  cases a with
  | request l =>
      have hkeep := setRequest_keeps h (fun r i => insert i r) l
      exact ⟨_, rfl, hkeep.1, hkeep.lineMasked⟩
  | withdraw l =>
      have hkeep := setRequest_keeps h Finset.erase l
      exact ⟨_, rfl, hkeep.1, hkeep.lineMasked⟩
  | interrupt =>
      refine ⟨_, rfl, ?_⟩
      cases hint : s.pics.interrupt with
      | none => exact ⟨h, fun k => rfl⟩
      | some r =>
          obtain ⟨v, q⟩ := r
          obtain ⟨l, -, -, rfl, rfl, -⟩ := interrupt_of_idle h.toIdle hint
          have hkeep : KeepsMasks s.pics (picSendEOI (l.vector s.pics) (l.acknowledged s.pics)) :=
            picSendEOI_acknowledged h l ▸ served_keeps h l
          exact irqHandler_remapped (r := (l.vector s.pics, l.acknowledged s.pics)) hkeep
  | spurious slave =>
      exact ⟨s.irqHandler (if slave then s.pics.spuriousSlave else s.pics.spuriousMaster), rfl,
        irqHandler_remapped (r := if slave then s.pics.spuriousSlave else s.pics.spuriousMaster)
          (picSendEOI_spurious h slave)⟩
  | setMask line =>
      obtain ⟨q, hq, hrem, hmask⟩ := changeMask_spec h (f := fun m l => m ||| (1 <<< l)) (g := or)
        set_bit Bool.or_false line
      subst hq
      exact ⟨_, rfl, hrem, hmask⟩
  | clearMask line =>
      obtain ⟨q, hq, hrem, hmask⟩ := changeMask_spec h (f := fun m l => m &&& ~~~(1 <<< l))
        (g := fun b d => b && !d) (fun m i j => (clear_bit m i j).trans (by simp)) (by simp) line
      subst hq
      refine ⟨_, rfl, hrem, fun k => (hmask k).trans ?_⟩
      simp [maskAfter]

/-- A run changes the mask of a line by the changes for that line. -/
lemma run_masks (h : Remapped s.pics) (as : List Action) :
    ∃ s', run step s as = some s' ∧ Remapped s'.pics ∧
      ∀ line, lineMasked s'.pics line = as.foldl (maskAfter line) (lineMasked s.pics line) := by
  induction as generalizing s with
  | nil => exact ⟨s, rfl, h, fun _ => rfl⟩
  | cons a as ih =>
      obtain ⟨s₁, hs₁, h₁, hmask₁⟩ := step_remapped h a
      obtain ⟨s₂, hs₂, h₂, hmask₂⟩ := ih h₁
      refine ⟨s₂, by rw [run_cons, hs₁, Option.bind_some, hs₂], h₂, fun line => ?_⟩
      rw [hmask₂, hmask₁, List.foldl_cons]

/-- The vectors of the lines. -/
lemma Remapped.vector_toNat (h : Remapped p) (l : IrqLine) : (l.vector p).toNat = 32 + l.number := by
  have hmaster : ∀ i : Fin 8, ((0x20 : UInt8) + UInt8.ofNat i).toNat = 32 + i := by decide
  have hslave : ∀ j : Fin 8, ((0x28 : UInt8) + UInt8.ofNat j).toNat = 32 + (8 + j) := by decide
  cases l with
  | master i hi =>
      rw [IrqLine.vector, h.masterBase]
      exact hmaster i
  | slave j =>
      rw [IrqLine.vector, h.slaveBase]
      exact hslave j

/-- The controllers after the initialization. -/
def start (p : PicPair) : Interrupts := ⟨picRemap 0x20 0x28 p, []⟩

/-- **A request is never kept from being served by an earlier interrupt.** After the initialization, and
after every sequence of requests, interrupts, spurious ones among them, and changes of masks: a request on
a line that is not masked is delivered, and what is delivered is the vector 32 plus the number of a line
with a request that is not masked, the one with the highest priority. -/
theorem irq_never_blocked (h : p.Idle) (as : List Action) :
    ∃ s, run step (start p) as = some s ∧
      (∀ l : IrqLine, l.Requested s.pics → l.Enabled s.pics → ∃ r, s.pics.interrupt = some r) ∧
      ∀ v q, s.pics.interrupt = some (v, q) → ∃ l : IrqLine, l.Requested s.pics ∧ l.Enabled s.pics ∧
        v.toNat = 32 + l.number ∧
        ∀ l' : IrqLine, l'.Requested s.pics → l'.Enabled s.pics → l.priority ≤ l'.priority := by
  obtain ⟨s, hrun, hs, -⟩ := run_masks (s := start p) (picRemap_spec h).1 as
  refine ⟨s, hrun, fun l hr he => ?_, fun v q hint => ?_⟩
  · obtain ⟨v, q, hint⟩ := exists_interrupt hs.toIdle hr he
    exact ⟨_, hint⟩
  · obtain ⟨l, hr, he, rfl, -, hleast⟩ := interrupt_of_idle hs.toIdle hint
    exact ⟨l, hr, he, hs.vector_toNat l, hleast⟩

/-- A line is masked at its controller or at the first one. -/
lemma KeepsMasks.enabled {q : PicPair} (h : KeepsMasks p q) : l.Enabled q ↔ l.Enabled p := by
  cases l with
  | master i hi => simp only [IrqLine.Enabled, Pic.masked, h.2.1]
  | slave j => simp only [IrqLine.Enabled, Pic.masked, h.2.1, h.2.2]

/-- An interrupt serves a line, if there is a request on one that is not masked. -/
lemma interrupt_serves (h : Remapped s.pics) (hr : l.Requested s.pics) (he : l.Enabled s.pics) :
    ∃ l₀ : IrqLine, l₀.Requested s.pics ∧
      s.step .interrupt = some ⟨l₀.served s.pics, s.handled ++ [l₀.vector s.pics]⟩ := by
  obtain ⟨v, q, hint⟩ := exists_interrupt h.toIdle hr he
  obtain ⟨l₀, hr₀, -, rfl, rfl, -⟩ := interrupt_of_idle h.toIdle hint
  refine ⟨l₀, hr₀, ?_⟩
  rw [step, hint, Option.map_some, Option.getD_some, irqHandler, picSendEOI_acknowledged h]

lemma run_replicate_of_fixed (h : s.step a = some s) (n : ℕ) : run step s (List.replicate n a) = some s := by
  induction n with
  | zero => rfl
  | succ n ih => rw [List.replicate_succ, run_cons, h, Option.bind_some, ih]

/-- **As many interrupts as there are requests** serve all of them that are not masked. -/
lemma interrupts_serve (n : ℕ) (h : Remapped s.pics) (hn : s.pics.backlog ≤ n) :
    ∃ s' vs, run step s (List.replicate n .interrupt) = some s' ∧ s'.handled = s.handled ++ vs ∧
      ∀ l : IrqLine, (l.Requested s'.pics → l.Requested s.pics) ∧
        (l.Requested s.pics → l.Enabled s.pics →
          ¬ l.Requested s'.pics ∧ ∃ v ∈ vs, v.toNat = 32 + l.number) := by
  induction n generalizing s with
  | zero =>
      refine ⟨s, [], rfl, (List.append_nil _).symm, fun l => ⟨id, fun hr he => ?_⟩⟩
      have hsucc := IrqLine.backlog_served hr
      omega
  | succ n ih =>
      by_cases hex : ∃ l : IrqLine, l.Requested s.pics ∧ l.Enabled s.pics
      · obtain ⟨l₁, hr₁, he₁⟩ := hex
        obtain ⟨l₀, hr₀, hstep⟩ := interrupt_serves h hr₁ he₁
        have hkeep := served_keeps h l₀
        have hbacklog := IrqLine.backlog_served hr₀
        obtain ⟨s', vs, hrun, hlog, hall⟩ := ih (s := ⟨l₀.served s.pics, s.handled ++ [l₀.vector s.pics]⟩)
          hkeep.1 (by simp only; omega)
        refine ⟨s', l₀.vector s.pics :: vs, ?_, ?_, fun l => ⟨fun hr => ?_, fun hr he => ?_⟩⟩
        · rw [List.replicate_succ, run_cons, hstep, Option.bind_some, hrun]
        · rw [hlog, List.append_assoc, List.singleton_append]
        · exact (IrqLine.requested_served.mp ((hall l).1 hr)).1
        · by_cases hl : l = l₀
          · refine ⟨fun hr' => (IrqLine.requested_served.mp ((hall l).1 hr')).2 hl, ?_⟩
            exact ⟨_, List.mem_cons_self, by rw [hl, h.vector_toNat]⟩
          · obtain ⟨hnot, v, hv, hvec⟩ := (hall l).2 (IrqLine.requested_served.mpr ⟨hr, hl⟩)
              (hkeep.enabled.mpr he)
            exact ⟨hnot, v, List.mem_cons_of_mem _ hv, hvec⟩
      · have hnone : s.step .interrupt = some s := by
          cases hint : s.pics.interrupt with
          | none => rw [step, hint, Option.map_none, Option.getD_none]
          | some r =>
              obtain ⟨v, q⟩ := r
              obtain ⟨l, hr, he, -⟩ := interrupt_of_idle h.toIdle hint
              exact absurd ⟨l, hr, he⟩ hex
        refine ⟨s, [], run_replicate_of_fixed hnone (n + 1), (List.append_nil _).symm,
          fun l => ⟨id, fun hr he => absurd ⟨l, hr, he⟩ hex⟩⟩

/-- Two controllers with nothing requested. -/
def quiet : PicPair := ⟨⟨∅, ∅, 0xF8, 0, 0, .mask⟩, ⟨∅, ∅, 0, 0, 0, .mask⟩⟩

lemma quiet_idle : quiet.Idle := ⟨rfl, rfl⟩

/-- A request on the lines of the keyboard and of the clock. -/
theorem irq_never_blocked_keys : ∃ s, run step (start quiet)
    [.request (.master 1 (by decide)), .interrupt, .request (.master 0 (by decide))] = some s ∧
      ∀ l : IrqLine, l.Requested s.pics → l.Enabled s.pics → ∃ r, s.pics.interrupt = some r := by
  obtain ⟨s, hrun, hserved, -⟩ := irq_never_blocked quiet_idle
    [.request (.master 1 (by decide)), .interrupt, .request (.master 0 (by decide))]
  exact ⟨s, hrun, hserved⟩

/-- **Every request is served.** After the initialization and any requests, interrupts and changes of
masks: fifteen interrupts, if no other request comes in between, call the handlers of all the lines with a
request that are not masked, and leave no request on them. -/
theorem irq_served (h : p.Idle) (as : List Action) :
    ∃ s s' vs, run step (start p) as = some s ∧ run step s (List.replicate 15 .interrupt) = some s' ∧
      s'.handled = s.handled ++ vs ∧
      ∀ l : IrqLine, l.Requested s.pics → l.Enabled s.pics →
        ¬ l.Requested s'.pics ∧ ∃ v ∈ vs, v.toNat = 32 + l.number := by
  obtain ⟨s, hrun, hs, -⟩ := run_masks (s := start p) (picRemap_spec h).1 as
  obtain ⟨s', vs, hrun', hlog, hall⟩ := interrupts_serve 15 hs s.pics.backlog_le
  exact ⟨s, s', vs, hrun, hrun', hlog, fun l => (hall l).2⟩

/-- The clock and the mouse at once. -/
theorem irq_served_two : ∃ s s' vs, run step (start quiet)
    [.clearMask 12, .request (.slave 4), .request (.master 0 (by decide))] = some s ∧
      run step s (List.replicate 15 .interrupt) = some s' ∧ s'.handled = s.handled ++ vs ∧
      ((IrqLine.slave 4).Requested s.pics → (IrqLine.slave 4).Enabled s.pics →
        ¬ (IrqLine.slave 4).Requested s'.pics) := by
  obtain ⟨s, s', vs, hrun, hrun', hlog, hall⟩ := irq_served quiet_idle
    [.clearMask 12, .request (.slave 4), .request (.master 0 (by decide))]
  exact ⟨s, s', vs, hrun, hrun', hlog, fun hr he => (hall _ hr he).1⟩

/-- **A line is masked when the last change of its mask has set it**: the initialization keeps the masks,
and neither interrupts nor the changes for other lines disturb it. -/
theorem masked_iff_last (h : p.Idle) (as : List Action) :
    ∃ s, run step (start p) as = some s ∧
      ∀ line, lineMasked s.pics line = as.foldl (maskAfter line) (lineMasked p line) := by
  have hkeep : KeepsMasks p (start p).pics := picRemap_spec h
  obtain ⟨s, hrun, -, hmask⟩ := run_masks (s := start p) hkeep.1 as
  exact ⟨s, hrun, fun line => by rw [hmask, hkeep.lineMasked]⟩

/-- Line 12 is opened and line 3 is closed. -/
theorem masked_iff_last_mouse : ∃ s, run step (start quiet) [.clearMask 12, .setMask 3, .interrupt]
    = some s ∧ lineMasked s.pics 12 = false ∧ lineMasked s.pics 3 = true := by
  obtain ⟨s, hrun, hmask⟩ := masked_iff_last quiet_idle [.clearMask 12, .setMask 3, .interrupt]
  refine ⟨s, hrun, (hmask 12).trans ?_, (hmask 3).trans ?_⟩
  · decide
  · decide

end Interrupts

/-! ### From the line to the handler -/

section Stub

variable {ω : Type*}

/-- The frame of the entry `irqN`, which pushes the line as the error code. -/
def irqFrame (c : Cpu) (kernelEsp : UInt32) (n : Fin 16) : Registers :=
  { c.pushFrame kernelEsp (UInt8.ofNat (32 + n)) with errCode := pushByte (UInt8.ofNat n) }

/-- `irq_handler`, with the controllers beside the rest of the kernel. -/
def irqHandler (handlers : UInt32 → Option (Isr (ω × PicPair))) : Isr (ω × PicPair) := fun r w =>
  let w := (w.1, picSendEOI r.intNo.toUInt8 w.2)
  match handlers r.intNo with
  | some handler => (r, (handler r w).2)
  | none => (r, w)

/-- The entry `irqN` and `irq_common_stub`. The data segment is popped into `ebx`, which `popa` restores
behind it. -/
def irqStub (n : Fin 16) (handlers : UInt32 → Option (Isr (ω × PicPair))) (kernelEsp : UInt32) (c : Cpu)
    (w : ω × PicPair) : Cpu × ω × PicPair :=
  let (regs, w) := irqHandler handlers (irqFrame c kernelEsp n) w
  (regs.popFrame, w)

/-- **The interrupted code goes on with its registers**, and with its data segment in all four of the
segment registers. -/
lemma popFrame_irqFrame (c : Cpu) (kernelEsp : UInt32) (n : Fin 16) :
    (irqFrame c kernelEsp n).popFrame = { c with es := c.ds, fs := c.ds, gs := c.ds } := by
  have hds : (irqFrame c kernelEsp n).ds.toUInt16 = c.ds := Ia32.toUInt16_mergeLow c.general.eax c.ds
  rw [Registers.popFrame, hds]
  rfl

/-- The number that the entry of a line pushes. -/
lemma irqFrame_intNo (c : Cpu) (kernelEsp : UInt32) (n : Fin 16) :
    (irqFrame c kernelEsp n).intNo = UInt32.ofNat (32 + n) ∧
      (irqFrame c kernelEsp n).intNo.toUInt8 = UInt8.ofNat (32 + n) := by
  have hall : ∀ n : Fin 16, pushByte (UInt8.ofNat (32 + n)) = UInt32.ofNat (32 + n) ∧
      (pushByte (UInt8.ofNat (32 + n))).toUInt8 = UInt8.ofNat (32 + n) := by
    decide
  exact hall n

lemma present_idtGate (address : ℕ) : (idtGate 0x8E address).present = true := by
  have hbit : Nat.testBit 0x8E 7 = true := by decide
  exact hbit

/-- The number of a line, of sixteen. -/
def lineOf (l : IrqLine) : Fin 16 := Fin.ofNat 16 l.number

lemma lineOf_val (l : IrqLine) : (lineOf l : ℕ) = l.number := by
  have hlt : l.number < 16 := by
    cases l with
    | master i hi =>
        rw [IrqLine.number]
        omega
    | slave j =>
        rw [IrqLine.number]
        omega
  exact Nat.mod_eq_of_lt hlt

/-- **The request of a device calls the handler that is registered for its line.** In every state that the
initialization and any requests, interrupts and changes of masks lead to: the vector that is delivered has
a gate, which leads to the entry of a line with a request; the entry pushes the number of that vector; the
handler of that number is called on the frame, with nothing in service any more; and the interrupted code
goes on with its registers, and with its data segment in all four of the segment registers. -/
theorem irq_reaches_handler {p : PicPair} (h : p.Idle) (as : List Interrupts.Action) (addr : Stub → ℕ)
    (haddr : ∀ s, addr s < 2 ^ 32) (handlers : UInt32 → Option (Isr (ω × PicPair)))
    (kernelEsp : UInt32) (c : Cpu) (w : ω) :
    ∃ s, run Interrupts.step (Interrupts.start p) as = some s ∧
      ∀ v q, s.pics.interrupt = some (v, q) → ∃ l : IrqLine, ∃ r : PicPair,
        l.Requested s.pics ∧ l.Enabled s.pics ∧
        (isrInstall addr v.toNat).present = true ∧
        (isrInstall addr v.toNat).offset = addr (.irq (lineOf l)) ∧
        r.Idle ∧ irqStub (lineOf l) handlers kernelEsp c (w, q) =
          ({ c with es := c.ds, fs := c.ds, gs := c.ds },
            match handlers v.toUInt32 with
            | some handler => (handler (irqFrame c kernelEsp (lineOf l)) (w, r)).2
            | none => (w, r)) := by
  obtain ⟨s, hrun, hs, -⟩ := Interrupts.run_masks (s := Interrupts.start p)
    (Interrupts.picRemap_spec h).1 as
  refine ⟨s, hrun, fun v q hint => ?_⟩
  obtain ⟨l, hr, he, hv, rfl, -⟩ := interrupt_of_idle hs.toIdle hint
  have hnumber : v.toNat = 32 + (lineOf l : ℕ) := by rw [hv, hs.vector_toNat, lineOf_val]
  have hvec : v = UInt8.ofNat (32 + (lineOf l : ℕ)) := by rw [← hnumber, UInt8.ofNat_toNat]
  have hstub : stubOf v.toNat = some (.irq (lineOf l)) := by
    have hlt := (lineOf l).isLt
    rw [stubOf, dif_neg (by omega), dif_pos (by omega)]
    have hval : v.toNat - 32 = (lineOf l : ℕ) := by omega
    exact congrArg (fun i => some (Stub.irq i)) (Fin.ext hval)
  have hgate : isrInstall addr v.toNat = idtGate 0x8E (addr (.irq (lineOf l))) := by
    have hlt := (lineOf l).isLt
    rw [isrInstall_gate, hstub]
    simp only
    rw [if_neg (by omega)]
  obtain ⟨hno, hno8⟩ := irqFrame_intNo c kernelEsp (lineOf l)
  have hword : v.toUInt32 = UInt32.ofNat (32 + (lineOf l : ℕ)) := by
    rw [← hnumber]
    exact UInt32.toNat_inj.mp (by simp)
  have hkeep : (picSendEOI v (l.acknowledged s.pics)).Idle := by
    rw [hv, Interrupts.picSendEOI_acknowledged hs l]
    exact (Interrupts.served_keeps hs l).1.toIdle
  refine ⟨l, picSendEOI v (l.acknowledged s.pics), hr, he, by rw [hgate, present_idtGate],
    by rw [hgate, offset_idtGate (haddr _)], hkeep, ?_⟩
  rw [irqStub, irqHandler, hno8, hno, ← hword, ← hvec]
  simp only
  cases handlers v.toUInt32 with
  | none => exact congrArg (fun x => (x, w, _)) (popFrame_irqFrame c kernelEsp (lineOf l))
  | some handler => exact congrArg (fun x => (x, _)) (popFrame_irqFrame c kernelEsp (lineOf l))

/-- Every vector that is delivered after a key has been pressed has a gate. -/
theorem irq_reaches_handler_key : ∃ s,
    run Interrupts.step (Interrupts.start Interrupts.quiet) [.request (.master 1 (by decide))] = some s ∧
      ∀ v q, s.pics.interrupt = some (v, q) → (isrInstall (fun _ => 0x1000) v.toNat).present = true := by
  obtain ⟨s, hrun, hall⟩ := irq_reaches_handler Interrupts.quiet_idle
    [.request (.master 1 (by decide))] (fun _ => 0x1000) (fun _ => by decide) (fun _ => none) 0
    ⟨⟨0, 0, 0, 0, 0, 0, 0, 0⟩, 0x23, 0x23, 0x23, 0x23, 0, 0x1B, 0x200, 0x23⟩ ()
  refine ⟨s, hrun, fun v q hint => ?_⟩
  obtain ⟨l, r, -, -, hpresent, -⟩ := hall v q hint
  exact hpresent

end Stub

end Matanos
