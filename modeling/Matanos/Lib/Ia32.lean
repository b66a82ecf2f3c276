import Mathlib.Logic.Relation
import Matanos.Lib.Bytes

/-!
A processor of 32 bits with paging, as far as short assembly programs use it.

The bytes of memory are those of physical memory; while paging is enabled every byte of an access is
translated. A program is a list of instructions, and control leaves it for an address.

* `Machine`, `Instr`, `effect`, `step`: registers and memory, and what the instructions do; `Alu`: what is
  known of the flags;
* `Reaches`: any number of steps; `reaches_exec`: instructions one after the other;
* `Machine.deliver`: an interrupt through a gate of the most privileged level;
* `Machine.Stack`: the words on the stack; `Stack.push`, `Stack.word`, `Stack.drop`: what the instructions
  do to them.
-/

namespace Lib

namespace Ia32

/-- The general registers. -/
inductive Reg where
  | eax
  | ecx
  | edx
  | ebx
  | esp
  | ebp
  | esi
  | edi
deriving DecidableEq

/-- The segment registers for data. -/
inductive Seg where
  | ds
  | es
  | fs
  | gs
deriving DecidableEq

/-- Control is at an instruction of the program, or at an address outside. -/
inductive Control where
  | here (i : ℕ)
  | away (address : UInt32)

/-- The state of the processor, and physical memory. -/
structure Machine where
  reg : Reg → UInt32
  seg : Seg → UInt16
  cs : UInt16
  ss : UInt16
  eflags : UInt32
  cr0 : UInt32
  translate : ℕ → ℕ
  phys : Bytes
  control : Control

/-- The instructions. A target is a number of an instruction. -/
inductive Instr where
  | mov (dst src : Reg)
  | movImm (dst : Reg) (imm : UInt32)
  | movLow (dst : Reg) (imm : UInt16)
  | movFromSeg (dst : Reg) (src : Seg)
  | movToSeg (dst : Seg) (src : Reg)
  | load (dst base : Reg) (disp : UInt32)
  | store (base src : Reg)
  | add (dst : Reg) (imm : UInt32)
  | and (dst : Reg) (imm : UInt32)
  | or (dst : Reg) (imm : UInt32)
  | dec (dst : Reg)
  | push (src : Reg)
  | pushImm (imm : UInt32)
  | pop (dst : Reg)
  | pusha
  | popa
  | pushf
  | popf
  | cli
  | sti
  | readCr0 (dst : Reg)
  | writeCr0 (src : Reg)
  | jnz (target : ℕ)
  | jmp (target : Reg)
  | ret
  | iret

/-- The flags of the arithmetic: from the old flags, the operands and the result. -/
structure Alu where
  flags : UInt32 → UInt32 → UInt32 → UInt32 → UInt32
  zero : ∀ old a b r, (flags old a b r).toBitVec.getLsbD 6 = decide (r = 0)
  system : ∀ old a b r, ∀ i ≥ 8, i ≠ 11 → (flags old a b r).toBitVec.getLsbD i = old.toBitVec.getLsbD i

/-- Arithmetic that changes the zero flag only. -/
def Alu.zeroOnly : Alu where
  flags old _ _ r := if r = 0 then old ||| 0x40 else old &&& ~~~0x40
  zero old _ _ r := by
    by_cases h : r = 0
    · simp [h]
    · simp [h]
  system old _ _ r i hi _ := by
    have hbit : (0x40 : UInt32).toBitVec.getLsbD i = false := by
      have hlt : 0x40 < 2 ^ i :=
        lt_of_lt_of_le (show 0x40 < 2 ^ 8 by decide) (Nat.pow_le_pow_right (by decide) hi)
      exact Nat.testBit_lt_two_pow hlt
    split_ifs
    · rw [UInt32.toBitVec_or, BitVec.getLsbD_or, hbit, Bool.or_false]
    · rw [UInt32.toBitVec_and, BitVec.getLsbD_and, UInt32.toBitVec_not, BitVec.getLsbD_not, hbit]
      by_cases hlt : i < 32
      · simp [hlt]
      · rw [BitVec.getLsbD_of_ge _ _ (by omega), Bool.false_and]

namespace Machine

/-- Paging is enabled. -/
def paging (m : Machine) : Bool := m.cr0.toBitVec.getLsbD 31

/-- The physical address of a byte. -/
def addr (m : Machine) (a : ℕ) : ℕ := if m.paging then m.translate (a % 2 ^ 32) else a % 2 ^ 32

/-- The memory that instructions see. -/
def view (m : Machine) : Bytes := fun a => m.phys (m.addr a)

/-- The word at an address. -/
def read (m : Machine) (a : UInt32) : UInt32 := UInt32.ofNat (read32 m.view a.toNat)

/-- The four bytes of a word are written. -/
def write (m : Machine) (a v : UInt32) : Machine :=
  { m with
    phys := fun x =>
      if x = m.addr a.toNat then UInt8.ofNat v.toNat
      else if x = m.addr (a.toNat + 1) then UInt8.ofNat (v.toNat / 0x100)
      else if x = m.addr (a.toNat + 2) then UInt8.ofNat (v.toNat / 0x10000)
      else if x = m.addr (a.toNat + 3) then UInt8.ofNat (v.toNat / 0x1000000)
      else m.phys x }

/-- A register is set. -/
def set (m : Machine) (r : Reg) (v : UInt32) : Machine := { m with reg := Function.update m.reg r v }

/-- A word is pushed. -/
def push (m : Machine) (v : UInt32) : Machine :=
  (m.write (m.reg .esp - 4) v).set .esp (m.reg .esp - 4)

/-- Words are pushed, the last one on top. -/
def pushAll (m : Machine) (vs : List UInt32) : Machine := vs.foldl push m

/-- A word of the stack, counted from its top. -/
def stackWord (m : Machine) (i : ℕ) : UInt32 := m.read (m.reg .esp + 4 * UInt32.ofNat i)

/-- The zero flag. -/
def zf (m : Machine) : Bool := m.eflags.toBitVec.getLsbD 6

/-- A segment register is set. -/
def setSeg (m : Machine) (s : Seg) (v : UInt16) : Machine := { m with seg := Function.update m.seg s v }

/-- A result of the arithmetic. -/
def result (alu : Alu) (m : Machine) (dst : Reg) (b r : UInt32) : Machine :=
  { m.set dst r with eflags := alu.flags m.eflags (m.reg dst) b r }

end Machine

/-- The interrupt flag. -/
def intFlag : UInt32 := 0x200

/-- The lower half of a word is replaced. -/
def mergeLow (x : UInt32) (v : UInt16) : UInt32 := (x &&& 0xFFFF0000) ||| v.toUInt32

/-- What an instruction does that is not a jump. -/
def effect (alu : Alu) (m : Machine) : Instr → Machine
  | .mov dst src => m.set dst (m.reg src)
  | .movImm dst imm => m.set dst imm
  | .movLow dst imm => m.set dst (mergeLow (m.reg dst) imm)
  | .movFromSeg dst src => m.set dst (mergeLow (m.reg dst) (m.seg src))
  | .movToSeg dst src => m.setSeg dst (m.reg src).toUInt16
  | .load dst base disp => m.set dst (m.read (m.reg base + disp))
  | .store base src => m.write (m.reg base) (m.reg src)
  | .add dst imm => m.result alu dst imm (m.reg dst + imm)
  | .and dst imm => m.result alu dst imm (m.reg dst &&& imm)
  | .or dst imm => m.result alu dst imm (m.reg dst ||| imm)
  | .dec dst => m.result alu dst 1 (m.reg dst - 1)
  | .push src => m.push (m.reg src)
  | .pushImm imm => m.push imm
  | .pop dst => (m.set .esp (m.reg .esp + 4)).set dst (m.stackWord 0)
  | .pusha => m.pushAll ([.eax, .ecx, .edx, .ebx, .esp, .ebp, .esi, .edi].map m.reg)
  | .popa =>
      { m with
        reg := fun
          | .edi => m.stackWord 0
          | .esi => m.stackWord 1
          | .ebp => m.stackWord 2
          | .ebx => m.stackWord 4
          | .edx => m.stackWord 5
          | .ecx => m.stackWord 6
          | .eax => m.stackWord 7
          | .esp => m.reg .esp + 32 }
  | .pushf => m.push m.eflags
  | .popf => { m.set .esp (m.reg .esp + 4) with eflags := m.stackWord 0 }
  | .cli => { m with eflags := m.eflags &&& ~~~intFlag }
  | .sti => { m with eflags := m.eflags ||| intFlag }
  | .readCr0 dst => m.set dst m.cr0
  | .writeCr0 src => { m with cr0 := m.reg src }
  | .jnz _ | .jmp _ | .ret | .iret => m

/-- `iret`: to the same level, or to a less privileged one with a stack of its own. -/
def Machine.iret (m : Machine) : Machine :=
  let m' := { m with
    control := .away (m.stackWord 0)
    cs := (m.stackWord 1).toUInt16
    eflags := m.stackWord 2 }
  if (m.stackWord 1).toUInt16 &&& 3 = m.cs &&& 3 then m'.set .esp (m.reg .esp + 12)
  else { m'.set .esp (m.stackWord 3) with ss := (m.stackWord 4).toUInt16 }

/-- One step; none when control has left the program. -/
def step (alu : Alu) (program : List Instr) (m : Machine) : Option Machine :=
  match m.control with
  | .away _ => none
  | .here i => program[i]?.map fun
      | .jnz target => { m with control := .here (if m.zf then i + 1 else target) }
      | .jmp target => { m with control := .away (m.reg target) }
      | .ret => { m.set .esp (m.reg .esp + 4) with control := .away (m.stackWord 0) }
      | .iret => m.iret
      | instr => { effect alu m instr with control := .here (i + 1) }

/-- The interrupt of a device or an instruction, through a gate of the most privileged level with the code
segment `cs`: from user code to the stack `ss0:esp0`. -/
def Machine.deliver (m : Machine) (cs ss0 : UInt16) (esp0 eip : UInt32) : Machine :=
  let entered (m' : Machine) : Machine :=
    { m' with cs := cs, eflags := m.eflags &&& ~~~intFlag, control := .here 0 }
  if m.cs &&& 3 = 0 then entered (m.pushAll [m.eflags, m.cs.toUInt32, eip])
  else
    entered { (m.set .esp esp0).pushAll [m.ss.toUInt32, m.reg .esp, m.eflags, m.cs.toUInt32, eip] with
      ss := ss0 }

/-- Any number of steps. -/
def Reaches (alu : Alu) (program : List Instr) : Machine → Machine → Prop :=
  Relation.ReflTransGen fun m m' => step alu program m = some m'

/-- It is no jump. -/
def Instr.Plain : Instr → Prop
  | .jnz _ | .jmp _ | .ret | .iret => False
  | _ => True

/-- Instructions one after the other. -/
def exec (alu : Alu) (m : Machine) (is : List Instr) : Machine := is.foldl (effect alu) m

variable {alu : Alu} {program : List Instr} {m m' : Machine} {i n : ℕ} {v a : UInt32}

@[simp] lemma exec_nil : exec alu m [] = m := rfl

@[simp] lemma exec_cons (instr : Instr) (is : List Instr) :
    exec alu m (instr :: is) = exec alu (effect alu m instr) is := rfl

variable (alu) in
lemma step_plain {instr : Instr} (hplain : instr.Plain) (hc : m.control = .here i)
    (hi : program[i]? = some instr) :
    step alu program m = some { effect alu m instr with control := .here (i + 1) } := by
  rw [step, hc]
  simp only [hi, Option.map_some]
  cases instr
  all_goals first
    | rfl
    | exact hplain.elim

lemma step_jnz {target : ℕ} (hc : m.control = .here i) (hi : program[i]? = some (.jnz target)) :
    step alu program m = some { m with control := .here (if m.zf then i + 1 else target) } := by
  rw [step, hc]
  simp only [hi, Option.map_some]

lemma step_jmp {target : Reg} (hc : m.control = .here i) (hi : program[i]? = some (.jmp target)) :
    step alu program m = some { m with control := .away (m.reg target) } := by
  rw [step, hc]
  simp only [hi, Option.map_some]

lemma step_ret (hc : m.control = .here i) (hi : program[i]? = some .ret) :
    step alu program m = some { m.set .esp (m.reg .esp + 4) with control := .away (m.stackWord 0) } := by
  rw [step, hc]
  simp only [hi, Option.map_some]

lemma step_iret (hc : m.control = .here i) (hi : program[i]? = some .iret) :
    step alu program m = some m.iret := by
  rw [step, hc]
  simp only [hi, Option.map_some]

/-- The lower half is what has been put there. -/
lemma toUInt16_mergeLow (x : UInt32) (d : UInt16) : (mergeLow x d).toUInt16 = d := by
  refine UInt16.toBitVec_inj.mp (BitVec.eq_of_getLsbD_eq fun i hi => ?_)
  simp [mergeLow]

lemma iret_outer (h : (m.stackWord 1).toUInt16 &&& 3 ≠ m.cs &&& 3) : m.iret =
    { m.set .esp (m.stackWord 3) with
      control := .away (m.stackWord 0)
      cs := (m.stackWord 1).toUInt16
      eflags := m.stackWord 2
      ss := (m.stackWord 4).toUInt16 } := if_neg h

lemma Machine.pushAll_control (c : Control) (vs : List UInt32) :
    { m with control := c }.pushAll vs = { m.pushAll vs with control := c } := by
  induction vs generalizing m with
  | nil => rfl
  | cons v vs ih => exact @ih (m.push v)

/-- Where control is does not matter to an instruction. -/
lemma effect_control (c : Control) (instr : Instr) :
    effect alu { m with control := c } instr = { effect alu m instr with control := c } := by
  cases instr with
  | pusha => exact m.pushAll_control c _
  | _ => rfl

lemma exec_control (c : Control) (is : List Instr) :
    exec alu { m with control := c } is = { exec alu m is with control := c } := by
  induction is generalizing m with
  | nil => rfl
  | cons instr is ih => rw [exec_cons, effect_control, ih, exec_cons]

variable (alu program) in
/-- **Instructions one after the other.** -/
lemma reaches_exec (is rest : List Instr) (hplain : ∀ x ∈ is, x.Plain) (hc : m.control = .here i)
    (hp : program.drop i = is ++ rest) :
    Reaches alu program m { exec alu m is with control := .here (i + is.length) } := by
  induction is generalizing m i with
  | nil =>
      rw [exec_nil, List.length_nil, add_zero, ← hc]
      exact .refl
  | cons instr is ih =>
      have hi : program[i]? = some instr := by
        rw [← List.head?_drop, hp]
        rfl
      have hrest : program.drop (i + 1) = is ++ rest := by
        rw [← List.drop_drop, hp]
        rfl
      have hstep := step_plain alu (hplain instr List.mem_cons_self) hc hi
      obtain ⟨m₁, hm₁⟩ : ∃ m₁, { effect alu m instr with control := Control.here (i + 1) } = m₁ := ⟨_, rfl⟩
      rw [hm₁] at hstep
      have hc₁ : m₁.control = .here (i + 1) := by rw [← hm₁]
      have htail := ih (fun x hx => hplain x (List.mem_cons_of_mem instr hx)) hc₁ hrest
      rw [← hm₁] at htail hstep
      rw [exec_control, show i + 1 + is.length = i + (is.length + 1) by omega] at htail
      exact htail.head hstep

/-! ### The stack -/

/-- The word at an address, as a word. -/
def Machine.word (m : Machine) (a : ℕ) : UInt32 := UInt32.ofNat (read32 m.view a)

/-- The words `ws` are on the stack, with `n` bytes below them down to `lo`, and no two of these bytes are
the same in physical memory. -/
structure Machine.Stack (m : Machine) (lo n : ℕ) (ws : List UInt32) : Prop where
  esp : (m.reg .esp).toNat = lo + n
  bound : lo + n + 4 * ws.length ≤ 2 ^ 32
  inj : Set.InjOn m.addr (Set.Ico lo (lo + n + 4 * ws.length))
  holds : ∀ i (h : i < ws.length), m.word (lo + n + 4 * i) = ws[i]

variable {lo hi : ℕ} {ws vs : List UInt32}

variable (v a) in
/-- What is written is seen, where no two addresses are one. -/
lemma view_write (hinj : Set.InjOn m.addr (Set.Ico lo hi)) (hlo : lo ≤ a.toNat) (hhi : a.toNat + 4 ≤ hi)
    {x : ℕ} (hx : lo ≤ x) (hx' : x < hi) : (m.write a v).view x = write32 m.view a.toNat v.toNat x := by
  have hiff : ∀ k < 4, (m.addr x = m.addr (a.toNat + k) ↔ x = a.toNat + k) := by
    intro k hk
    exact hinj.eq_iff ⟨hx, hx'⟩ ⟨by omega, by omega⟩
  have h0 : m.addr x = m.addr a.toNat ↔ x = a.toNat := hiff 0 (by omega)
  have hview : (m.write a v).view x = (m.write a v).phys (m.addr x) := rfl
  rw [hview, Machine.write, write32]
  simp only [h0, hiff 1 (by omega), hiff 2 (by omega), hiff 3 (by omega)]
  rfl

/-- What is written elsewhere in physical memory. -/
lemma phys_write (x : ℕ) (h : ∀ k < 4, x ≠ m.addr (a.toNat + k)) : (m.write a v).phys x = m.phys x := by
  have h0 : x ≠ m.addr a.toNat := h 0 (by omega)
  simp only [Machine.write]
  rw [if_neg h0, if_neg (h 1 (by omega)), if_neg (h 2 (by omega)), if_neg (h 3 (by omega))]

/-- **A word is pushed.** -/
lemma Machine.Stack.push (h : m.Stack lo (n + 4) ws) (v : UInt32) : (m.push v).Stack lo n (v :: ws) := by
  have hesp := h.esp
  have hlt := (m.reg .esp).toNat_lt
  have hsub : (m.reg .esp - 4).toNat = lo + n := by
    rw [UInt32.toNat_sub_of_le _ _ (UInt32.le_iff_toNat_le.mpr (by simp; omega))]
    simp
    omega
  have hlen : lo + n + 4 * (v :: ws).length = lo + (n + 4) + 4 * ws.length := by
    rw [List.length_cons]
    omega
  have hview : ∀ x, lo ≤ x → x < lo + (n + 4) + 4 * ws.length →
      (m.push v).view x = write32 m.view (lo + n) v.toNat x := by
    intro x hx hx'
    have hwrite := view_write v (m.reg .esp - 4) h.inj (by omega) (by omega) hx hx'
    rw [hsub] at hwrite
    exact hwrite
  refine ⟨hsub, by rw [hlen]; exact h.bound, by rw [hlen]; exact h.inj, fun i hi => ?_⟩
  rw [List.length_cons] at hi
  cases i with
  | zero =>
      have hread : read32 (m.push v).view (lo + n) = v.toNat := by
        rw [read32_congr fun x hx hx' => hview x (by omega) (by omega)]
        exact read32_write32 v.toNat_lt
      rw [Machine.word, Nat.mul_zero, add_zero, hread]
      exact UInt32.ofNat_toNat
  | succ i =>
      have hread : read32 (m.push v).view (lo + n + 4 * (i + 1)) = read32 m.view (lo + (n + 4) + 4 * i) := by
        rw [read32_congr fun x hx hx' => hview x (by omega) (by omega),
          show lo + n + 4 * (i + 1) = lo + (n + 4) + 4 * i by omega]
        exact read32_write32_of_apart (by omega)
      rw [Machine.word, hread, List.getElem_cons_succ]
      exact h.holds i (by omega)

/-- **Words are pushed.** -/
lemma Machine.Stack.pushAll (vs : List UInt32) (h : m.Stack lo (n + 4 * vs.length) ws) :
    (m.pushAll vs).Stack lo n (vs.reverse ++ ws) := by
  induction vs generalizing m ws with
  | nil => exact h
  | cons v vs ih =>
      rw [List.reverse_cons, List.append_assoc]
      refine ih (Machine.Stack.push ?_ v)
      rwa [List.length_cons, Nat.mul_add, ← Nat.add_assoc] at h

/-- **A word of the stack is read.** -/
lemma Machine.Stack.word (h : m.Stack lo n ws) (i : ℕ) (hi : i < ws.length) : m.stackWord i = ws[i] := by
  have hbound := h.bound
  have hesp := h.esp
  have haddr : (m.reg .esp + 4 * UInt32.ofNat i).toNat = lo + n + 4 * i := by
    rw [UInt32.toNat_add, UInt32.toNat_mul, UInt32.toNat_ofNat', hesp]
    simp
    omega
  rw [Machine.stackWord, Machine.read, haddr]
  exact h.holds i hi

/-- **Words are taken from the stack.** -/
lemma Machine.Stack.drop (h : m.Stack lo n ws) (k : ℕ) (hk : k < ws.length) :
    (m.set .esp (m.reg .esp + 4 * UInt32.ofNat k)).Stack lo (n + 4 * k) (ws.drop k) := by
  have hbound := h.bound
  have hesp := h.esp
  have haddr : (m.reg .esp + 4 * UInt32.ofNat k).toNat = lo + (n + 4 * k) := by
    rw [UInt32.toNat_add, UInt32.toNat_mul, UInt32.toNat_ofNat', hesp]
    simp
    omega
  have hlen : lo + (n + 4 * k) + 4 * (ws.drop k).length = lo + n + 4 * ws.length := by
    rw [List.length_drop]
    omega
  refine ⟨haddr, by rw [hlen]; exact hbound, by rw [hlen]; exact h.inj, fun i hi => ?_⟩
  rw [List.length_drop] at hi
  rw [List.getElem_drop, ← h.holds (k + i) (by omega),
    show lo + n + 4 * (k + i) = lo + (n + 4 * k) + 4 * i by omega]
  rfl

/-- What the stack depends on. -/
lemma Machine.Stack.congr (h : m.Stack lo n ws) (hesp : m'.reg .esp = m.reg .esp) (haddr : m'.addr = m.addr)
    (hphys : ∀ x, lo ≤ x → x < lo + n + 4 * ws.length → m'.phys (m.addr x) = m.phys (m.addr x)) :
    m'.Stack lo n ws := by
  refine ⟨hesp ▸ h.esp, h.bound, haddr ▸ h.inj, fun i hi => ?_⟩
  rw [← h.holds i hi, Machine.word, Machine.word]
  refine congrArg UInt32.ofNat (read32_congr fun x hx hx' => ?_)
  rw [Machine.view, haddr]
  exact hphys x (by omega) (by omega)

/-- Without paging the addresses are physical. -/
lemma addr_of_not_paging (h : m.paging = false) {x : ℕ} (hx : x < 2 ^ 32) : m.addr x = x := by
  rw [Machine.addr, h]
  exact Nat.mod_eq_of_lt hx

lemma read_of_not_paging (h : m.paging = false) (ha : a.toNat + 4 ≤ 2 ^ 32) :
    m.read a = UInt32.ofNat (read32 m.phys a.toNat) := by
  refine congrArg UInt32.ofNat (read32_congr fun x _ hx => ?_)
  rw [Machine.view, addr_of_not_paging h (by omega)]

lemma write_of_not_paging (h : m.paging = false) (ha : a.toNat + 4 ≤ 2 ^ 32) :
    (m.write a v).phys = write32 m.phys a.toNat v.toNat := by
  rw [Machine.write, addr_of_not_paging h (by omega), addr_of_not_paging h (by omega),
    addr_of_not_paging h (by omega), addr_of_not_paging h (by omega)]
  rfl

/-- An instruction that leaves the stack alone. -/
def Instr.Quiet : Instr → Prop
  | .mov dst _ | .movImm dst _ | .movLow dst _ | .movFromSeg dst _ | .load dst _ _ | .add dst _ | .and dst _
  | .or dst _ | .dec dst | .readCr0 dst => dst ≠ .esp
  | .movToSeg _ _ | .cli | .sti => True
  | _ => False

variable (alu) in
/-- **The stack is left alone.** -/
lemma Machine.Stack.quiet (h : m.Stack lo n ws) (instr : Instr) (hq : instr.Quiet) :
    (effect alu m instr).Stack lo n ws := by
  have hset : ∀ dst v, dst ≠ .esp → (m.set dst v).Stack lo n ws := fun dst v hdst =>
    h.congr (Function.update_of_ne hdst.symm _ _) rfl fun _ _ _ => rfl
  cases instr with
  | mov dst src => exact hset dst _ hq
  | movImm dst imm => exact hset dst _ hq
  | movLow dst imm => exact hset dst _ hq
  | movFromSeg dst src => exact hset dst _ hq
  | load dst base disp => exact hset dst _ hq
  | readCr0 dst => exact hset dst _ hq
  | add dst imm => exact (hset dst _ hq).congr rfl rfl fun _ _ _ => rfl
  | and dst imm => exact (hset dst _ hq).congr rfl rfl fun _ _ _ => rfl
  | or dst imm => exact (hset dst _ hq).congr rfl rfl fun _ _ _ => rfl
  | dec dst => exact (hset dst _ hq).congr rfl rfl fun _ _ _ => rfl
  | movToSeg dst src => exact h.congr rfl rfl fun _ _ _ => rfl
  | cli => exact h.congr rfl rfl fun _ _ _ => rfl
  | sti => exact h.congr rfl rfl fun _ _ _ => rfl
  | store | push | pushImm | pop | pusha | popa | pushf | popf | writeCr0 | jnz | jmp | ret | iret =>
      exact hq.elim

variable (alu) in
lemma Machine.Stack.exec_quiet (h : m.Stack lo n ws) (is : List Instr) (hq : ∀ x ∈ is, x.Quiet) :
    (exec alu m is).Stack lo n ws := by
  induction is generalizing m with
  | nil => exact h
  | cons instr is ih =>
      exact ih (h.quiet alu instr (hq instr List.mem_cons_self)) fun x hx => hq x (List.mem_cons_of_mem instr hx)

variable (alu) in
/-- A word is popped into another register. -/
lemma Machine.Stack.pop (h : m.Stack lo n ws) (hlen : 1 < ws.length) {r : Reg} (hr : r ≠ .esp) :
    (effect alu m (.pop r)).Stack lo (n + 4) (ws.drop 1) :=
  (h.drop 1 hlen).congr (Function.update_of_ne hr.symm _ _) rfl fun _ _ _ => rfl

lemma Machine.Stack.popa (h : m.Stack lo n ws) (hlen : 8 < ws.length) :
    (effect alu m .popa).Stack lo (n + 32) (ws.drop 8) :=
  (h.drop 8 hlen).congr rfl rfl fun _ _ _ => rfl

/-- Two words are dropped. -/
lemma Machine.Stack.addEsp (h : m.Stack lo n ws) (hlen : 2 < ws.length) :
    (effect alu m (.add .esp 8)).Stack lo (n + 8) (ws.drop 2) :=
  (h.drop 2 hlen).congr rfl rfl fun _ _ _ => rfl

lemma Machine.set_reg_of_ne (m : Machine) (v : UInt32) {r r' : Reg} (hr : r ≠ r') :
    (m.set r' v).reg r = m.reg r := Function.update_of_ne hr _ _

lemma Machine.push_reg (m : Machine) (v : UInt32) {r : Reg} (hr : r ≠ .esp) : (m.push v).reg r = m.reg r :=
  Function.update_of_ne hr _ _

/-- **What pushes leave.** -/
lemma Machine.pushAll_reg (m : Machine) (vs : List UInt32) {r : Reg} (hr : r ≠ .esp) :
    (m.pushAll vs).reg r = m.reg r := by
  induction vs generalizing m with
  | nil => rfl
  | cons v vs ih => exact (ih (m.push v)).trans (m.push_reg v hr)

lemma Machine.pushAll_others (m : Machine) (vs : List UInt32) :
    (m.pushAll vs).seg = m.seg ∧ (m.pushAll vs).cs = m.cs ∧ (m.pushAll vs).eflags = m.eflags := by
  induction vs generalizing m with
  | nil => exact ⟨rfl, rfl, rfl⟩
  | cons v vs ih => exact ih (m.push v)

/-- Only `iret` and interrupts change the code segment. -/
lemma effect_cs (instr : Instr) : (effect alu m instr).cs = m.cs := by
  cases instr with
  | pusha => exact (m.pushAll_others _).2.1
  | _ => rfl

lemma exec_cs (is : List Instr) : (exec alu m is).cs = m.cs := by
  induction is generalizing m with
  | nil => rfl
  | cons instr is ih => rw [exec_cons, ih, effect_cs]

end Ia32

end Lib
