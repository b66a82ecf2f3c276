import Matanos.Lib.Ia32
import Matanos.Cpu.Irq

/-!
The entries of `cpu/interrupt.asm` and the two common stubs, from the interrupt of user code back to it.

The words that the processor and the stub push are the parameter of the C function, in the order of the
fields of `registers_t`; what the function leaves there is what the stub pops.

* `entryCode`, `returnCode`: the instructions up to the call, and from the call on;
* `cpuOf`, `Registers.words`: the registers and the frame, for the machine;
* `entry_frame`: the frame on the stack when the C function is called; `return_frame`: what is restored of
  the frame;
* `isr_stub_refines`, `irq_stub_refines`: the way there and back is the one that the model of the interrupts
  takes.
-/

namespace Matanos

open Lib Lib.Ia32

namespace Stub

/-- An entry that pushes an error code and its number, and the common stub up to the call. The jump to the
common stub leads to the next instruction of the list. -/
def entryCode (err num : UInt8) : List Instr :=
  [.cli, .pushImm (pushByte err), .pushImm (pushByte num),
    .pusha, .movFromSeg .eax .ds, .push .eax, .movLow .eax 0x10, .movToSeg .ds .eax, .movToSeg .es .eax,
    .movToSeg .fs .eax, .movToSeg .gs .eax]

/-- A common stub behind the call, up to `iret`; the data segment is popped into `r`. -/
def restoreCode (r : Reg) : List Instr :=
  [.pop r, .movToSeg .ds r, .movToSeg .es r, .movToSeg .fs r, .movToSeg .gs r, .popa, .add .esp 8, .sti]

/-- A common stub behind the call. -/
def returnCode (r : Reg) : List Instr := restoreCode r ++ [.iret]

/-- The registers that an interrupt saves, of a machine that goes on at `eip`. -/
def cpuOf (m : Machine) (eip : UInt32) : Cpu where
  general :=
    { eax := m.reg .eax, ecx := m.reg .ecx, edx := m.reg .edx, ebx := m.reg .ebx, esp := m.reg .esp,
      ebp := m.reg .ebp, esi := m.reg .esi, edi := m.reg .edi }
  ds := m.seg .ds
  es := m.seg .es
  fs := m.seg .fs
  gs := m.seg .gs
  eip := eip
  cs := m.cs.toUInt32
  eflags := m.eflags
  ss := m.ss.toUInt32

/-- The fields of `registers_t`, from the lowest address on. -/
def words (r : Registers) : List UInt32 :=
  [r.ds, r.edi, r.esi, r.ebp, r.esp, r.ebx, r.edx, r.ecx, r.eax, r.intNo, r.errCode, r.eip, r.cs, r.eflags,
    r.useresp, r.ss]

/-- The frame of an entry. -/
def frame (c : Cpu) (kernelEsp : UInt32) (err num : UInt8) : Registers :=
  { c.pushFrame kernelEsp num with errCode := pushByte err }

variable (alu : Alu) {m : Machine} {lo : ℕ} {eip esp0 : UInt32} {ss0 : UInt16} {err num : UInt8}

/-- An interrupt of user code is delivered on the stack of the kernel. -/
lemma deliver_user (huser : m.cs &&& 3 = 3) : m.deliver 8 ss0 esp0 eip =
    { (m.set .esp esp0).pushAll [m.ss.toUInt32, m.reg .esp, m.eflags, m.cs.toUInt32, eip] with
      cs := 8
      ss := ss0
      eflags := m.eflags &&& ~~~intFlag
      control := .here 0 } := by
  rw [Machine.deliver, if_neg (by rw [huser]; decide)]

variable (eip ss0 err num) in
/-- **The frame is on the stack** when the C function is called. -/
lemma entry_frame (huser : m.cs &&& 3 = 3) (hkernel : (m.set .esp esp0).Stack lo 64 []) :
    (exec alu (m.deliver 8 ss0 esp0 eip) (entryCode err num)).Stack lo 0
      (words (frame (cpuOf m eip) (esp0 - 28) err num)) := by
  rw [deliver_user huser]
  obtain ⟨d, hd⟩ : ∃ d, { (m.set .esp esp0).pushAll
      [m.ss.toUInt32, m.reg .esp, m.eflags, m.cs.toUInt32, eip] with
      cs := 8
      ss := ss0
      eflags := m.eflags &&& ~~~intFlag
      control := Control.here 0 } = d := ⟨_, rfl⟩
  have hdeliver : d.Stack lo 44 [eip, m.cs.toUInt32, m.eflags, m.reg .esp, m.ss.toUInt32] := by
    rw [← hd]
    have hpushed := Machine.Stack.pushAll (n := 44)
      [m.ss.toUInt32, m.reg .esp, m.eflags, m.cs.toUInt32, eip] hkernel
    exact hpushed.congr rfl rfl fun _ _ _ => rfl
  rw [hd]
  have hnumbers := ((hdeliver.quiet alu .cli trivial).push (pushByte err)).push (pushByte num)
  obtain ⟨p, hp⟩ : ∃ p, ((effect alu d .cli).push (pushByte err)).push (pushByte num) = p := ⟨_, rfl⟩
  rw [hp] at hnumbers
  have hregs := Machine.Stack.pushAll (n := 4)
    ([Reg.eax, .ecx, .edx, .ebx, .esp, .ebp, .esi, .edi].map p.reg) hnumbers
  obtain ⟨q, hq⟩ : ∃ q, p.pushAll ([Reg.eax, .ecx, .edx, .ebx, .esp, .ebp, .esi, .edi].map p.reg) = q :=
    ⟨_, rfl⟩
  rw [hq] at hregs
  have hframe := (hregs.quiet alu (.movFromSeg .eax .ds) (show Reg.eax ≠ .esp by decide)).push
    (mergeLow (q.reg .eax) (q.seg .ds))
  have hstack := hframe.exec_quiet alu [.movLow .eax 0x10, .movToSeg .ds .eax, .movToSeg .es .eax,
    .movToSeg .fs .eax, .movToSeg .gs .eax] (by simp [Instr.Quiet])
  have hexec : exec alu d (entryCode err num) = exec alu
      ((effect alu q (.movFromSeg .eax .ds)).push (mergeLow (q.reg .eax) (q.seg .ds)))
      [.movLow .eax 0x10, .movToSeg .ds .eax, .movToSeg .es .eax, .movToSeg .fs .eax, .movToSeg .gs .eax] := by
    have hp' : effect alu (effect alu (effect alu d .cli) (.pushImm (pushByte err))) (.pushImm (pushByte num))
        = p := hp
    have hq' : effect alu p .pusha = q := hq
    have hpush : effect alu (effect alu q (.movFromSeg .eax .ds)) (.push .eax) =
        (effect alu q (.movFromSeg .eax .ds)).push (mergeLow (q.reg .eax) (q.seg .ds)) := rfl
    simp only [entryCode, exec_cons]
    rw [hp', hq', hpush]
  rw [hexec]
  have hother : ∀ r, r ≠ .esp → p.reg r = m.reg r := by
    intro r hr
    have hd' : d.reg r = m.reg r := by
      rw [← hd]
      have hpushed := (m.set .esp esp0).pushAll_reg
        [m.ss.toUInt32, m.reg .esp, m.eflags, m.cs.toUInt32, eip] hr
      exact hpushed.trans (m.set_reg_of_ne esp0 hr)
    rw [← hp, Machine.push_reg _ _ hr, Machine.push_reg _ _ hr, ← hd']
    rfl
  have hesp : p.reg .esp = esp0 - 28 := by
    have htop : esp0.toNat = lo + 64 := hkernel.esp
    rw [← UInt32.toNat_inj, hnumbers.esp, UInt32.toNat_sub_of_le _ _ (UInt32.le_iff_toNat_le.mpr (by simp; omega))]
    simp
    omega
  have hsegs : q.seg = m.seg := by
    rw [← hq, (Machine.pushAll_others _ _).1, ← hp]
    change d.seg = m.seg
    rw [← hd]
    exact (Machine.pushAll_others _ _).1
  have hwords : words (frame (cpuOf m eip) (esp0 - 28) err num) =
      mergeLow (q.reg .eax) (q.seg .ds) :: (([Reg.eax, .ecx, .edx, .ebx, .esp, .ebp, .esi, .edi].map p.reg).reverse ++
        [pushByte num, pushByte err, eip, m.cs.toUInt32, m.eflags, m.reg .esp, m.ss.toUInt32]) := by
    rw [hsegs, ← hq, Machine.pushAll_reg p _ (by decide), hother .eax (by decide)]
    simp only [List.map_cons, List.map_nil, List.reverse_cons, List.reverse_nil, List.nil_append,
      List.cons_append, hesp, hother .eax (by decide), hother .ecx (by decide), hother .edx (by decide),
      hother .ebx (by decide), hother .ebp (by decide), hother .esi (by decide), hother .edi (by decide)]
    rfl
  rw [hwords]
  exact hstack

/-- **What is restored of the frame** behind the call. -/
lemma return_frame {r : Reg} (hr : r ≠ .esp) {regs : Registers} (h : m.Stack lo 0 (words regs))
    (hc : m.control = .here 0) (hlevel : m.cs &&& 3 = 0) (huser : regs.cs.toUInt16 &&& 3 = 3)
    (hcs : regs.cs.toUInt16.toUInt32 = regs.cs) (hss : regs.ss.toUInt16.toUInt32 = regs.ss) :
    ∃ m', Reaches alu (returnCode r) m m' ∧ m'.control = .away regs.eip ∧
      cpuOf m' regs.eip = regs.popFrame := by
  -- the data segment
  have hds : (effect alu m (.pop r)).reg r = regs.ds :=
    (Function.update_self _ _ _).trans (h.word 0 (by simp [words]))
  have hpop : (effect alu m (.pop r)).Stack lo 4 ((words regs).drop 1) := h.pop alu (by simp [words]) hr
  obtain ⟨a, ha⟩ : ∃ a, effect alu m (.pop r) = a := ⟨_, rfl⟩
  rw [ha] at hds hpop
  have hquiet := hpop.exec_quiet alu
    [.movToSeg .ds r, .movToSeg .es r, .movToSeg .fs r, .movToSeg .gs r] (by simp [Instr.Quiet])
  obtain ⟨b, hb⟩ : ∃ b, exec alu a [.movToSeg .ds r, .movToSeg .es r, .movToSeg .fs r, .movToSeg .gs r] = b :=
    ⟨_, rfl⟩
  have hseg : ∀ s, b.seg s = regs.ds.toUInt16 := by
    intro s
    rw [← hb, ← hds]
    cases s <;> rfl
  rw [hb] at hquiet
  -- the general registers
  have hpopa : (effect alu b .popa).Stack lo 36 ((words regs).drop 9) := hquiet.popa (by simp [words])
  have hadd : (effect alu (effect alu b .popa) (.add .esp 8)).Stack lo 44 ((words regs).drop 11) :=
    hpopa.addEsp (by simp [words])
  have hsti := hadd.quiet alu .sti trivial
  obtain ⟨e, he⟩ : ∃ e, effect alu (effect alu (effect alu b .popa) (.add .esp 8)) .sti = e := ⟨_, rfl⟩
  rw [he] at hsti
  have hexec : exec alu m (restoreCode r) = e := by
    simp only [restoreCode, exec_cons, exec_nil] at hb ⊢
    rw [ha, hb, he]
  have hreg : ∀ x, x ≠ .esp → e.reg x = (effect alu b .popa).reg x := by
    intro x hx
    rw [← he]
    exact Machine.set_reg_of_ne _ _ hx
  have heax : e.reg .eax = regs.eax := (hreg .eax (by decide)).trans (hquiet.word 7 (by simp [words]))
  have hecx : e.reg .ecx = regs.ecx := (hreg .ecx (by decide)).trans (hquiet.word 6 (by simp [words]))
  have hedx : e.reg .edx = regs.edx := (hreg .edx (by decide)).trans (hquiet.word 5 (by simp [words]))
  have hebx : e.reg .ebx = regs.ebx := (hreg .ebx (by decide)).trans (hquiet.word 4 (by simp [words]))
  have hebp : e.reg .ebp = regs.ebp := (hreg .ebp (by decide)).trans (hquiet.word 2 (by simp [words]))
  have hesi : e.reg .esi = regs.esi := (hreg .esi (by decide)).trans (hquiet.word 1 (by simp [words]))
  have hedi : e.reg .edi = regs.edi := (hreg .edi (by decide)).trans (hquiet.word 0 (by simp [words]))
  have hseg' : ∀ s, e.seg s = regs.ds.toUInt16 := by
    intro s
    rw [← hseg s, ← he]
    rfl
  -- `iret`
  have h0 : e.stackWord 0 = regs.eip := hsti.word 0 (by simp [words])
  have h1 : e.stackWord 1 = regs.cs := hsti.word 1 (by simp [words])
  have h2 : e.stackWord 2 = regs.eflags := hsti.word 2 (by simp [words])
  have h3 : e.stackWord 3 = regs.useresp := hsti.word 3 (by simp [words])
  have h4 : e.stackWord 4 = regs.ss := hsti.word 4 (by simp [words])
  have hlevel' : e.cs &&& 3 = 0 := by
    rw [← hlevel, ← he, ← hb, ← ha]
    rfl
  have houter : (e.stackWord 1).toUInt16 &&& 3 ≠ e.cs &&& 3 := by
    rw [h1, huser, hlevel']
    decide
  have hiret : { e with control := Control.here 8 }.iret =
      { e.set .esp (e.stackWord 3) with
        control := .away (e.stackWord 0)
        cs := (e.stackWord 1).toUInt16
        eflags := e.stackWord 2
        ss := (e.stackWord 4).toUInt16 } := iret_outer houter
  rw [h0, h1, h2, h3, h4] at hiret
  have hplain := reaches_exec alu (returnCode r) (restoreCode r) [.iret] (by simp [restoreCode, Instr.Plain]) hc rfl
  rw [hexec] at hplain
  refine ⟨_, hplain.tail (step_iret rfl rfl), ?_, ?_⟩
  · exact congrArg Machine.control hiret
  · refine (congrArg (cpuOf · regs.eip) hiret).trans ?_
    have hcpu : cpuOf { e.set .esp regs.useresp with
        control := .away regs.eip
        cs := regs.cs.toUInt16
        eflags := regs.eflags
        ss := regs.ss.toUInt16 } regs.eip =
      ⟨⟨e.reg .eax, e.reg .ecx, e.reg .edx, e.reg .ebx, regs.useresp, e.reg .ebp, e.reg .esi, e.reg .edi⟩,
        e.seg .ds, e.seg .es, e.seg .fs, e.seg .gs, regs.eip, regs.cs.toUInt16.toUInt32, regs.eflags,
        regs.ss.toUInt16.toUInt32⟩ := rfl
    rw [hcpu, heax, hecx, hedx, hebx, hebp, hesi, hedi, hseg', hseg', hseg', hseg', hcs, hss]
    rfl

/-! ### There and back -/

/-- A C function is called on the frame `regs` and returns: it leaves `regs'` there, with the stack and the
code segment as they were. -/
def Calls (lo : ℕ) (regs regs' : Registers) (call : Machine → Machine) : Prop :=
  ∀ m, m.Stack lo 0 (words regs) →
    (call m).Stack lo 0 (words regs') ∧ (call m).cs = m.cs ∧ (call m).control = .here 0

/-- The machine is at the call, with the segments of the kernel. -/
structure AtCall (m : Machine) : Prop where
  control : m.control = .here 11
  seg : ∀ s, m.seg s = 0x10
  cs : m.cs = 8

variable (eip esp0 ss0 err num) in
/-- The segments at the call. -/
lemma entry_segments (huser : m.cs &&& 3 = 3) :
    (∀ s, (exec alu (m.deliver 8 ss0 esp0 eip) (entryCode err num)).seg s = 0x10) ∧
      (exec alu (m.deliver 8 ss0 esp0 eip) (entryCode err num)).cs = 8 := by
  obtain ⟨d, hd⟩ : ∃ d, m.deliver 8 ss0 esp0 eip = d := ⟨_, rfl⟩
  have hcs : d.cs = 8 := by rw [← hd, deliver_user huser]
  rw [hd, exec_cs]
  obtain ⟨x, hx⟩ : ∃ x, exec alu d ((entryCode err num).take 6) = x := ⟨_, rfl⟩
  have hexec : exec alu d (entryCode err num) = exec alu x [.movLow .eax 0x10, .movToSeg .ds .eax,
      .movToSeg .es .eax, .movToSeg .fs .eax, .movToSeg .gs .eax] := by
    simp only [entryCode, List.take_succ_cons, List.take_zero, exec_cons, exec_nil] at hx ⊢
    rw [hx]
  refine ⟨fun s => ?_, hcs⟩
  rw [hexec]
  cases s <;> exact toUInt16_mergeLow (x.reg .eax) 0x10

/-- **An interrupt of user code and its way back**, for every C function that keeps the code segment and the
stack segment of the frame. -/
lemma stub_runs {r : Reg} (hr : r ≠ .esp) (huser : m.cs &&& 3 = 3)
    (hkernel : (m.set .esp esp0).Stack lo 64 []) (eip : UInt32) (ss0 : UInt16) (err num : UInt8)
    {regs' : Registers} {call : Machine → Machine}
    (hcall : Calls lo (frame (cpuOf m eip) (esp0 - 28) err num) regs' call)
    (hcs : regs'.cs = m.cs.toUInt32) (hss : regs'.ss = m.ss.toUInt32) :
    ∃ m₁ m₂, Reaches alu (entryCode err num) (m.deliver 8 ss0 esp0 eip) m₁ ∧ AtCall m₁ ∧
      Reaches alu (returnCode r) (call m₁) m₂ ∧ m₂.control = .away regs'.eip ∧
      cpuOf m₂ regs'.eip = regs'.popFrame := by
  have hstart : (m.deliver 8 ss0 esp0 eip).control = .here 0 := by rw [deliver_user huser]
  have hentry := reaches_exec alu (entryCode err num) (entryCode err num) [] (by simp [entryCode, Instr.Plain])
    hstart (List.append_nil _).symm
  obtain ⟨hseg, hcs₁⟩ := entry_segments alu eip esp0 ss0 err num huser
  have hframe := entry_frame alu eip ss0 err num huser hkernel
  obtain ⟨x, hx⟩ : ∃ x, exec alu (m.deliver 8 ss0 esp0 eip) (entryCode err num) = x := ⟨_, rfl⟩
  rw [hx] at hentry hseg hcs₁ hframe
  obtain ⟨hstack, hcs₂, hc⟩ := hcall { x with control := .here 11 } (hframe.congr rfl rfl fun _ _ _ => rfl)
  obtain ⟨m₂, hreturn, haway, hcpu⟩ := return_frame alu hr hstack hc
    (by rw [hcs₂, hcs₁]; decide)
    (by rw [hcs, UInt16.toUInt16_toUInt32, huser])
    (by rw [hcs, UInt16.toUInt16_toUInt32])
    (by rw [hss, UInt16.toUInt16_toUInt32])
  exact ⟨_, m₂, hentry, ⟨rfl, hseg, hcs₁⟩, hreturn, haway, hcpu⟩

section Refine

variable {ω : Type*}

/-- **The stub of the device lines** does what the model of the interrupts says, with the number of the line
as the error code. -/
theorem irq_stub_refines (huser : m.cs &&& 3 = 3) (hkernel : (m.set .esp esp0).Stack lo 64 [])
    (handlers : UInt32 → Option (Isr (ω × PicPair))) (w : ω × PicPair) (eip : UInt32) (ss0 : UInt16)
    (n : Fin 16) {call : Machine → Machine} (hcall : Calls lo (irqFrame (cpuOf m eip) (esp0 - 28) n)
      (irqHandler handlers (irqFrame (cpuOf m eip) (esp0 - 28) n) w).1 call) :
    ∃ m₁ m₂, Reaches alu (entryCode (UInt8.ofNat n) (UInt8.ofNat (32 + n))) (m.deliver 8 ss0 esp0 eip) m₁ ∧
      AtCall m₁ ∧ Reaches alu (returnCode .ebx) (call m₁) m₂ ∧ m₂.control = .away eip ∧
      cpuOf m₂ eip = (irqStub n handlers (esp0 - 28) (cpuOf m eip) w).1 := by
  have hkeep : (irqHandler handlers (irqFrame (cpuOf m eip) (esp0 - 28) n) w).1 =
      irqFrame (cpuOf m eip) (esp0 - 28) n := by
    rw [irqHandler]
    split <;> rfl
  have hstub : (irqStub n handlers (esp0 - 28) (cpuOf m eip) w).1 =
      (irqFrame (cpuOf m eip) (esp0 - 28) n).popFrame := by
    rw [irqStub]
    simp only [hkeep]
  rw [hkeep] at hcall
  rw [hstub]
  exact stub_runs alu (by decide) huser hkernel eip ss0 (UInt8.ofNat n) (UInt8.ofNat (32 + n)) hcall rfl rfl

/-- A machine in user code, with nothing in memory. -/
def userMachine : Machine where
  reg _ := 0
  seg _ := 0x23
  cs := 0x1B
  ss := 0x23
  eflags := 0x202
  cr0 := 0
  translate := id
  phys _ := 0
  control := .away 0

lemma userMachine_kernel : (userMachine.set .esp 0x9000).Stack 0x8FC0 64 [] := by
  refine ⟨rfl, by decide, fun x hx y hy hxy => ?_, fun i hi => absurd hi (Nat.not_lt_zero i)⟩
  simp only [List.length_nil, Nat.mul_zero, Nat.add_zero, Set.mem_Ico] at hx hy
  have hoff : (userMachine.set .esp 0x9000).paging = false := by decide
  rwa [addr_of_not_paging hoff (by omega), addr_of_not_paging hoff (by omega)] at hxy

/-- The interrupt of the keyboard on this machine, without a handler. -/
theorem irq_stub_refines_keyboard : ∃ m₁ m₂,
    Reaches .zeroOnly (entryCode 1 33) (userMachine.deliver 8 0x10 0x9000 0x400000) m₁ ∧
      Reaches .zeroOnly (returnCode .ebx) { m₁ with control := .here 0 } m₂ ∧
      m₂.control = .away 0x400000 ∧ cpuOf m₂ 0x400000 = cpuOf userMachine 0x400000 := by
  have hcall : Calls 0x8FC0 (irqFrame (cpuOf userMachine 0x400000) (0x9000 - 28) 1)
      (irqFrame (cpuOf userMachine 0x400000) (0x9000 - 28) 1) fun m => { m with control := .here 0 } :=
    fun m h => ⟨h.congr rfl rfl fun _ _ _ => rfl, rfl, rfl⟩
  obtain ⟨m₁, m₂, hentry, -, hreturn, haway, hcpu⟩ := irq_stub_refines .zeroOnly (m := userMachine) (by decide)
    userMachine_kernel (fun _ => none) ((), Interrupts.quiet) 0x400000 0x10 1 hcall
  exact ⟨m₁, m₂, hentry, hreturn, haway, hcpu⟩

end Refine

end Stub

end Matanos
