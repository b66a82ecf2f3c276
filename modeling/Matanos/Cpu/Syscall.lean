import Mathlib.Tactic

/-!
The way of `int 0x80`: `isr128`, `isr_common_stub`, `isr_handler` and `syscall_handler`, and back.

The stub pushes the registers and calls `isr_handler`; what it pushed is the memory of the
parameter `regs`, so `isr_handler` works on the frame that `popa` and `iret` restore. A handler
gets a copy of it.

* `Cpu`, `Registers`: the registers and `registers_t`, the frame;
* `pushFrame`, `popFrame`, `isrHandler`, `syscallHandler`, `interrupt`: the parts in their order;
* `interrupt_general`: an interrupt leaves the general registers as they were, whatever its
  handler does;
* `syscall_returns_iff`: a system call gives its result to the caller exactly when the result is
  the number of the call.
-/

namespace Matanos

/-- The general registers. -/
structure General where
  eax : UInt32
  ecx : UInt32
  edx : UInt32
  ebx : UInt32
  esp : UInt32
  ebp : UInt32
  esi : UInt32
  edi : UInt32
deriving DecidableEq

/-- The registers that an interrupt saves. -/
structure Cpu where
  general : General
  ds : UInt16
  es : UInt16
  fs : UInt16
  gs : UInt16
  eip : UInt32
  cs : UInt32
  eflags : UInt32
  ss : UInt32
deriving DecidableEq

/-- The structure `registers_t`. -/
structure Registers where
  ds : UInt32
  edi : UInt32
  esi : UInt32
  ebp : UInt32
  esp : UInt32
  ebx : UInt32
  edx : UInt32
  ecx : UInt32
  eax : UInt32
  intNo : UInt32
  errCode : UInt32
  eip : UInt32
  cs : UInt32
  eflags : UInt32
  useresp : UInt32
  ss : UInt32
deriving DecidableEq

/-- A C function of type `isr_t`: its parameter is a copy, of which it leaves a value, and it
changes the rest of the kernel. -/
abbrev Isr (ω : Type*) := Registers → ω → Registers × ω

/-- The word that `push byte` pushes: the byte with its sign. -/
def pushByte (b : UInt8) : UInt32 := if b < 128 then b.toUInt32 else b.toUInt32 ||| 0xFFFFFF00

namespace Cpu

/-- What the processor, the entry `isrN` without an error code, and the stub push. The stack
pointer that `pusha` pushes is that of the kernel. -/
def pushFrame (c : Cpu) (kernelEsp : UInt32) (n : UInt8) : Registers where
  -- `mov ax, ds` leaves the upper half of `eax`
  ds := (c.general.eax &&& 0xFFFF0000) ||| c.ds.toUInt32
  edi := c.general.edi
  esi := c.general.esi
  ebp := c.general.ebp
  esp := kernelEsp
  ebx := c.general.ebx
  edx := c.general.edx
  ecx := c.general.ecx
  eax := c.general.eax
  intNo := pushByte n
  errCode := 0
  eip := c.eip
  cs := c.cs
  eflags := c.eflags
  useresp := c.general.esp
  ss := c.ss

end Cpu

namespace Registers

/-- What the stub and `iret` restore from the frame. `popa` drops its stack pointer. -/
def popFrame (r : Registers) : Cpu where
  general :=
    { eax := r.eax, ecx := r.ecx, edx := r.edx, ebx := r.ebx, esp := r.useresp, ebp := r.ebp,
      esi := r.esi, edi := r.edi }
  ds := r.ds.toUInt16
  es := r.ds.toUInt16
  fs := r.ds.toUInt16
  gs := r.ds.toUInt16
  eip := r.eip
  cs := r.cs
  eflags := r.eflags
  ss := r.ss

end Registers

section Path

variable {ω : Type*}

/-- `isr_handler`, with what it leaves in its parameter. -/
def isrHandler (handlers : UInt8 → Option (Isr ω)) : Isr ω := fun regs w =>
  let intNo := (regs.intNo &&& 0xFF).toUInt8
  let regs := if intNo = 0 then { regs with eip := regs.eip + 2 } else regs
  match handlers intNo with
  | some handler => (regs, (handler regs w).2)
  | none => (regs, w)

/-- An entry of the table `syscalls`, called with five words on the stack. -/
abbrev Syscall (ω : Type*) := UInt32 → UInt32 → UInt32 → UInt32 → UInt32 → ω → UInt32 × ω

/-- `syscall_handler`, with what it leaves in its parameter. -/
def syscallHandler (syscalls : UInt32 → Syscall ω) (numSyscalls : UInt32) : Isr ω := fun regs w =>
  if regs.eax ≥ numSyscalls then (regs, w)
  else
    let (ret, w) := syscalls regs.eax regs.ebx regs.ecx regs.edx regs.esi regs.edi w
    ({ regs with eax := ret }, w)

/-- The interrupt `n`, from the instruction that raises it to the one after. -/
def interrupt (handlers : UInt8 → Option (Isr ω)) (kernelEsp : UInt32) (n : UInt8) (c : Cpu)
    (w : ω) : Cpu × ω :=
  let (regs, w) := isrHandler handlers (c.pushFrame kernelEsp n) w
  (regs.popFrame, w)

/-- `int 0x80`, once `initialise_syscalls` has registered the handler. -/
def syscall (handlers : UInt8 → Option (Isr ω)) (syscalls : UInt32 → Syscall ω)
    (numSyscalls kernelEsp : UInt32) (c : Cpu) (w : ω) : Cpu × ω :=
  interrupt (Function.update handlers 0x80 (some (syscallHandler syscalls numSyscalls))) kernelEsp
    0x80 c w

/-- The system call is made and its result is in `eax`; or its number is too large and nothing is
called. The other general registers are as they were. -/
def Returned (syscalls : UInt32 → Syscall ω) (numSyscalls : UInt32) (c : Cpu) (w : ω)
    (res : Cpu × ω) : Prop :=
  if c.general.eax < numSyscalls then
    let (ret, w') := syscalls c.general.eax c.general.ebx c.general.ecx c.general.edx
      c.general.esi c.general.edi w
    res.1.general = { c.general with eax := ret } ∧ res.2 = w'
  else res.1.general = c.general ∧ res.2 = w

variable {handlers : UInt8 → Option (Isr ω)} {syscalls : UInt32 → Syscall ω}
  {numSyscalls kernelEsp : UInt32} {n : UInt8} {c : Cpu} {w : ω}

/-- The number that `isr_handler` masks out of the pushed word. -/
lemma pushByte_mask (n : UInt8) : (pushByte n &&& 0xFF).toUInt8 = n := by
  have hall : ∀ k < 256, (pushByte (UInt8.ofNat k) &&& 0xFF).toUInt8 = UInt8.ofNat k := by
    decide +kernel
  have hn := hall n.toNat n.toNat_lt
  rwa [UInt8.ofNat_toNat] at hn

/-- **An interrupt restores the general registers**: a handler has a copy of the frame only. -/
lemma interrupt_general : (interrupt handlers kernelEsp n c w).1.general = c.general := by
  simp only [interrupt, isrHandler]
  split <;> split_ifs <;> rfl

/-- What the handler does to the rest of the kernel. -/
lemma interrupt_world : (interrupt handlers kernelEsp n c w).2 =
    match handlers n with
    | some handler =>
        (handler (if n = 0 then { c.pushFrame kernelEsp n with eip := c.eip + 2 }
          else c.pushFrame kernelEsp n) w).2
    | none => w := by
  have hno : ((c.pushFrame kernelEsp n).intNo &&& 0xFF).toUInt8 = n := pushByte_mask n
  simp only [interrupt, isrHandler, hno]
  cases handlers n with
  | none => rfl
  | some handler => rfl

lemma syscall_world : (syscall handlers syscalls numSyscalls kernelEsp c w).2 =
    (syscallHandler syscalls numSyscalls (c.pushFrame kernelEsp 0x80) w).2 := by
  rw [syscall, interrupt_world, Function.update_self]
  rfl

/-- **A system call gives its result to the caller exactly when the result is the number of the
call**, which is what the caller finds in `eax`. -/
theorem syscall_returns_iff (handlers : UInt8 → Option (Isr ω)) (syscalls : UInt32 → Syscall ω)
    (numSyscalls kernelEsp : UInt32) (c : Cpu) (w : ω) :
    Returned syscalls numSyscalls c w (syscall handlers syscalls numSyscalls kernelEsp c w) ↔
      (c.general.eax < numSyscalls →
        (syscalls c.general.eax c.general.ebx c.general.ecx c.general.edx c.general.esi
          c.general.edi w).1 = c.general.eax) := by
  have hgeneral : (syscall handlers syscalls numSyscalls kernelEsp c w).1.general = c.general :=
    interrupt_general
  have hworld : (syscall handlers syscalls numSyscalls kernelEsp c w).2 =
      (syscallHandler syscalls numSyscalls (c.pushFrame kernelEsp 0x80) w).2 := syscall_world
  by_cases hlt : c.general.eax < numSyscalls
  · have hcalled : (syscall handlers syscalls numSyscalls kernelEsp c w).2 =
        (syscalls c.general.eax c.general.ebx c.general.ecx c.general.edx c.general.esi
          c.general.edi w).2 := by
      rw [hworld, syscallHandler]
      exact congrArg Prod.snd (if_neg (UInt32.not_le.mpr hlt))
    rw [Returned, if_pos hlt]
    simp only [hgeneral, hcalled, and_true, hlt, forall_const]
    constructor
    · intro h
      exact (congrArg General.eax h).symm
    · intro h
      rw [h]
  · have hcalled : (syscall handlers syscalls numSyscalls kernelEsp c w).2 = w := by
      rw [hworld, syscallHandler]
      exact congrArg Prod.snd (if_pos (UInt32.not_lt.mp hlt))
    rw [Returned, if_neg hlt]
    simp only [hgeneral, hcalled, and_self, hlt, false_implies]

/-- A call of the entry 0, which returns 7: the caller gets 0. -/
theorem syscall_result_lost :
    ∃ (syscalls : UInt32 → Syscall Unit) (c : Cpu), ¬ Returned syscalls 1 c ()
      (syscall (fun _ => none) syscalls 1 0 c ()) :=
  ⟨fun _ _ _ _ _ _ w => (7, w),
    ⟨⟨0, 0, 0, 0, 0, 0, 0, 0⟩, 0x10, 0x10, 0x10, 0x10, 0, 8, 0x202, 0x10⟩, by
      intro h
      rw [Returned, if_pos (by decide)] at h
      have heax := congrArg General.eax h.1
      rw [show (syscall (fun _ => none) (fun _ _ _ _ _ _ w => ((7 : UInt32), w)) 1 0
        ⟨⟨0, 0, 0, 0, 0, 0, 0, 0⟩, 0x10, 0x10, 0x10, 0x10, 0, 8, 0x202, 0x10⟩ ()).1.general.eax = 0
        from congrArg General.eax interrupt_general] at heax
      exact absurd heax (by decide)⟩

end Path

end Matanos
