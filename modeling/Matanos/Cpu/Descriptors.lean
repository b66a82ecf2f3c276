import Mathlib.Tactic

/-!
The descriptor tables of `cpu/isr.c` and `cpu/idt.c`.

The base and the limit of a segment, and the address of a gate, are spread over several fields. A limit
has 20 bits, in units of 4096 bytes if the granularity says so.

* `GdtEntry`, `gdtSetGate`, `initGdt`: the global table; `GdtEntry.base`, `GdtEntry.limit`: how the
  processor reads an entry;
* `gdtSetGate_decodes`: what is read back of what is set;
* `init_gdt_segments`: the segments, and when the limit that `write_tss` computes covers the structure;
* `IdtGate`, `setIdtGate`, `isrInstall`: the interrupt table; `IdtGate.offset`, `IdtGate.present`,
  `IdtGate.dpl`: how the processor reads a gate;
* `isrInstall_gate`: the gate of every vector.
-/

namespace Matanos

/-! ### The global table -/

/-- `gdt_entry_t`. -/
structure GdtEntry where
  limitLow : ℕ
  baseLow : ℕ
  baseMiddle : ℕ
  access : ℕ
  granularity : ℕ
  baseHigh : ℕ
deriving DecidableEq

/-- `gdt_set_gate`. -/
def gdtSetGate (num base limit access gran : ℕ) (gdtEntries : ℕ → GdtEntry) : ℕ → GdtEntry :=
  Function.update gdtEntries num
    { baseLow := base &&& 0xFFFF
      baseMiddle := (base >>> 16) &&& 0xFF
      baseHigh := (base >>> 24) &&& 0xFF
      limitLow := limit &&& 0xFFFF
      granularity := ((limit >>> 16) &&& 0x0F) ||| (gran &&& 0xF0)
      access := access }

/-- The size of `tss_entry_t`: 25 words and two halves of one. -/
def tssSize : ℕ := 104

/-- The descriptor of `write_tss`, for the structure at the address `tss`. -/
def writeTss (num tss : ℕ) (gdtEntries : ℕ → GdtEntry) : ℕ → GdtEntry :=
  gdtSetGate num tss ((tss + tssSize) % 2 ^ 32) 0xE9 0x00 gdtEntries

/-- `init_gdt`. -/
def initGdt (tss : ℕ) (gdtEntries : ℕ → GdtEntry) : ℕ → GdtEntry :=
  let gdtEntries := gdtSetGate 0 0 0 0 0 gdtEntries
  let gdtEntries := gdtSetGate 1 0 0xFFFFFFFF 0x9A 0xCF gdtEntries
  let gdtEntries := gdtSetGate 2 0 0xFFFFFFFF 0x92 0xCF gdtEntries
  let gdtEntries := gdtSetGate 3 0 0xFFFFFFFF 0xFA 0xCF gdtEntries
  let gdtEntries := gdtSetGate 4 0 0xFFFFFFFF 0xF2 0xCF gdtEntries
  writeTss 5 tss gdtEntries

namespace GdtEntry

/-- The base of the segment. -/
def base (e : GdtEntry) : ℕ := e.baseLow + 2 ^ 16 * e.baseMiddle + 2 ^ 24 * e.baseHigh

/-- The last offset in the segment. -/
def limit (e : GdtEntry) : ℕ :=
  let limit := e.limitLow + 2 ^ 16 * (e.granularity % 16)
  if e.granularity.testBit 7 then 2 ^ 12 * limit + (2 ^ 12 - 1) else limit

end GdtEntry

section Gdt

variable {num base limit access gran : ℕ} {gdtEntries : ℕ → GdtEntry}

lemma and_mask (n k : ℕ) : n &&& (2 ^ k - 1) = n % 2 ^ k := Nat.and_two_pow_sub_one_eq_mod n k

/-- The two halves of the granularity. -/
lemma granularity_eq (limit : ℕ) (hgran : gran < 2 ^ 8) :
    (((limit >>> 16) &&& 0x0F) ||| (gran &&& 0xF0)) % 16 = limit / 2 ^ 16 % 16 ∧
      (((limit >>> 16) &&& 0x0F) ||| (gran &&& 0xF0)).testBit 7 = gran.testBit 7 := by
  have hall : ∀ g < 256, ∀ a < 16, (a ||| (g &&& 0xF0)) % 16 = a ∧
      (a ||| (g &&& 0xF0)).testBit 7 = g.testBit 7 := by
    decide +kernel
  have hlow : (limit >>> 16) &&& 0x0F = limit / 2 ^ 16 % 16 := by
    rw [show (0x0F : ℕ) = 2 ^ 4 - 1 from rfl, and_mask, Nat.shiftRight_eq_div_pow]
    rfl
  rw [hlow]
  exact hall gran hgran _ (Nat.mod_lt _ (by omega))

/-- What is set in an entry. -/
lemma gdtSetGate_self : gdtSetGate num base limit access gran gdtEntries num =
    { baseLow := base % 2 ^ 16
      baseMiddle := base / 2 ^ 16 % 2 ^ 8
      baseHigh := base / 2 ^ 24 % 2 ^ 8
      limitLow := limit % 2 ^ 16
      granularity := ((limit >>> 16) &&& 0x0F) ||| (gran &&& 0xF0)
      access := access } := by
  rw [gdtSetGate, Function.update_self, show (0xFFFF : ℕ) = 2 ^ 16 - 1 from rfl,
    show (0xFF : ℕ) = 2 ^ 8 - 1 from rfl, and_mask, and_mask, and_mask, and_mask,
    Nat.shiftRight_eq_div_pow base, Nat.shiftRight_eq_div_pow base]

variable (num limit access gdtEntries) in
/-- **A segment is read back**: its base, and its limit as far as 20 bits hold it. -/
lemma gdtSetGate_decodes (hbase : base < 2 ^ 32) (hgran : gran < 2 ^ 8) :
    (gdtSetGate num base limit access gran gdtEntries num).base = base ∧
      (gdtSetGate num base limit access gran gdtEntries num).access = access ∧
      (gdtSetGate num base limit access gran gdtEntries num).limit
        = if gran.testBit 7 then 2 ^ 12 * (limit % 2 ^ 20) + (2 ^ 12 - 1) else limit % 2 ^ 20 := by
  obtain ⟨hlow, hbit⟩ := granularity_eq limit hgran
  have hlimit : limit % 2 ^ 16 + 2 ^ 16 * (limit / 2 ^ 16 % 16) = limit % 2 ^ 20 := by omega
  have hsum : base % 2 ^ 16 + 2 ^ 16 * (base / 2 ^ 16 % 2 ^ 8) + 2 ^ 24 * (base / 2 ^ 24 % 2 ^ 8)
      = base := by omega
  rw [gdtSetGate_self]
  exact ⟨hsum, rfl, by simp only [GdtEntry.limit, hlow, hbit, hlimit]⟩

lemma gdtSetGate_other {k : ℕ} (hk : k ≠ num) :
    gdtSetGate num base limit access gran gdtEntries k = gdtEntries k := Function.update_of_ne hk _ _

/-- The entries of `init_gdt` are the last ones set. -/
lemma initGdt_eq (tss : ℕ) (gdtEntries : ℕ → GdtEntry) :
    ∃ e₁ e₂ e₃ e₄ e₅ : ℕ → GdtEntry,
      initGdt tss gdtEntries 1 = gdtSetGate 1 0 0xFFFFFFFF 0x9A 0xCF e₁ 1 ∧
      initGdt tss gdtEntries 2 = gdtSetGate 2 0 0xFFFFFFFF 0x92 0xCF e₂ 2 ∧
      initGdt tss gdtEntries 3 = gdtSetGate 3 0 0xFFFFFFFF 0xFA 0xCF e₃ 3 ∧
      initGdt tss gdtEntries 4 = gdtSetGate 4 0 0xFFFFFFFF 0xF2 0xCF e₄ 4 ∧
      initGdt tss gdtEntries 5 = gdtSetGate 5 tss ((tss + tssSize) % 2 ^ 32) 0xE9 0 e₅ 5 := by
  refine ⟨gdtEntries, gdtEntries, gdtEntries, gdtEntries, gdtEntries, ?_⟩
  simp [initGdt, writeTss, gdtSetGate]

/-- The privilege level of a segment. -/
def GdtEntry.dpl (e : GdtEntry) : ℕ := e.access / 2 ^ 5 % 4

/-- **The segments of `init_gdt`**: the code and the data of both privilege levels reach from 0 to the end
of memory, the task state segment starts at its structure, and its limit covers the structure unless
the structure lies across the end of a MiB, or directly in front of its last byte: the limit is the sum of
address and size, of which the descriptor holds 20 bits. -/
theorem init_gdt_segments {tss : ℕ} (htss : tss + tssSize ≤ 2 ^ 32) (gdtEntries : ℕ → GdtEntry) :
    (∀ k, 0 < k → k < 5 → (initGdt tss gdtEntries k).base = 0 ∧
      (initGdt tss gdtEntries k).limit = 2 ^ 32 - 1 ∧
      (initGdt tss gdtEntries k).dpl = if k < 3 then 0 else 3) ∧
    (initGdt tss gdtEntries 5).base = tss ∧
    (tssSize - 1 ≤ (initGdt tss gdtEntries 5).limit ↔
      ¬ (2 ^ 20 - tssSize ≤ tss % 2 ^ 20 ∧ tss % 2 ^ 20 < 2 ^ 20 - 1)) := by
  obtain ⟨e₁, e₂, e₃, e₄, e₅, h₁, h₂, h₃, h₄, h₅⟩ := initGdt_eq tss gdtEntries
  have hflat : ∀ {k a : ℕ} {e : ℕ → GdtEntry}, initGdt tss gdtEntries k
      = gdtSetGate k 0 0xFFFFFFFF a 0xCF e k → (initGdt tss gdtEntries k).base = 0 ∧
        (initGdt tss gdtEntries k).limit = 2 ^ 32 - 1 ∧
        (initGdt tss gdtEntries k).dpl = a / 2 ^ 5 % 4 := by
    intro k a e h
    have hgran : 0xCF < 2 ^ 8 := by decide
    obtain ⟨hbase, haccess, hlimit⟩ := gdtSetGate_decodes k 0xFFFFFFFF a e (Nat.two_pow_pos 32) hgran
    rw [h, GdtEntry.dpl, haccess]
    exact ⟨hbase, hlimit, rfl⟩
  have hlt : tss < 2 ^ 32 := by
    rw [tssSize] at htss
    omega
  obtain ⟨hbase, -, hlimit⟩ := gdtSetGate_decodes 5 ((tss + tssSize) % 2 ^ 32) 0xE9 e₅ hlt
    (Nat.two_pow_pos 8)
  rw [← h₅] at hbase hlimit
  refine ⟨fun k hk hk' => ?_, hbase, ?_⟩
  · obtain rfl | rfl | rfl | rfl : k = 1 ∨ k = 2 ∨ k = 3 ∨ k = 4 := by omega
    · exact hflat h₁
    · exact hflat h₂
    · exact hflat h₃
    · exact hflat h₄
  · have hcut : (initGdt tss gdtEntries 5).limit = (tss + tssSize) % 2 ^ 32 % 2 ^ 20 := hlimit
    rw [hcut, tssSize] at *
    omega

/-- A structure at 0x9000 is covered. -/
theorem init_gdt_segments_covered :
    (initGdt 0x9000 (fun _ => ⟨0, 0, 0, 0, 0, 0⟩) 5).base = 0x9000 ∧
      tssSize - 1 ≤ (initGdt 0x9000 (fun _ => ⟨0, 0, 0, 0, 0, 0⟩) 5).limit := by
  obtain ⟨-, hbase, hcovered⟩ := @init_gdt_segments 0x9000 (by decide) fun _ => ⟨0, 0, 0, 0, 0, 0⟩
  exact ⟨hbase, hcovered.mpr (by decide)⟩

end Gdt

/-! ### The interrupt table -/

/-- `idt_gate_t`. -/
structure IdtGate where
  lowOffset : ℕ
  sel : ℕ
  always0 : ℕ
  flags : ℕ
  highOffset : ℕ
deriving DecidableEq

/-- `low_16`. -/
def low16 (address : ℕ) : ℕ := (address &&& 0xFFFF) % 2 ^ 16

/-- `high_16`. -/
def high16 (address : ℕ) : ℕ := ((address >>> 16) &&& 0xFFFF) % 2 ^ 16

/-- `KERNEL_CS`. -/
def kernelCS : ℕ := 0x08

/-- What `set_idt_gate` and `set_idt_gate_user` write. -/
def idtGate (flags handler : ℕ) : IdtGate := ⟨low16 handler, kernelCS, 0, flags, high16 handler⟩

/-- `set_idt_gate`. -/
def setIdtGate (n handler : ℕ) (idt : ℕ → IdtGate) : ℕ → IdtGate :=
  Function.update idt n (idtGate 0x8E handler)

/-- `set_idt_gate_user`. -/
def setIdtGateUser (n handler : ℕ) (idt : ℕ → IdtGate) : ℕ → IdtGate :=
  Function.update idt n (idtGate 0xEE handler)

/-- The entries of `cpu/interrupt.asm`, and `isr3_handler`. -/
inductive Stub where
  | isr (n : Fin 32)
  | isr3Handler
  | irq (i : Fin 16)
  | isr128
deriving DecidableEq

/-- The entry for a vector, in the calls of `isr_install`. -/
def exceptionStub (n : Fin 32) : Stub := if n = 3 then .isr3Handler else .isr n

/-- The table that `isr_install` loads, for the addresses of the entries. -/
def isrInstall (addr : Stub → ℕ) : ℕ → IdtGate :=
  let idt : ℕ → IdtGate := fun _ => ⟨0, 0, 0, 0, 0⟩
  let idt := (List.finRange 32).foldl (fun idt n => setIdtGate n.val (addr (exceptionStub n)) idt) idt
  let idt := (List.finRange 16).foldl (fun idt i => setIdtGate (32 + i.val) (addr (.irq i)) idt) idt
  setIdtGateUser 128 (addr .isr128) idt

namespace IdtGate

/-- The address to which the processor goes. -/
def offset (g : IdtGate) : ℕ := g.lowOffset + 2 ^ 16 * g.highOffset

/-- The gate is present. -/
def present (g : IdtGate) : Bool := g.flags.testBit 7

/-- The least privileged level that may raise the interrupt by an instruction. -/
def dpl (g : IdtGate) : ℕ := g.flags / 2 ^ 5 % 4

end IdtGate

/-- The entry for a vector. -/
def stubOf (n : ℕ) : Option Stub :=
  if h : n < 32 then some (exceptionStub ⟨n, h⟩)
  else if h : n < 48 then some (.irq ⟨n - 32, by omega⟩)
  else if n = 128 then some .isr128
  else none

section Idt

variable {addr : Stub → ℕ} {idt : ℕ → IdtGate} {n handler flags : ℕ}

/-- **An address is read back.** -/
lemma offset_idtGate (h : handler < 2 ^ 32) : (idtGate flags handler).offset = handler := by
  have hlow : handler &&& 0xFFFF = handler % 2 ^ 16 := and_mask handler 16
  have hhigh : (handler >>> 16) &&& 0xFFFF = handler / 2 ^ 16 % 2 ^ 16 := by
    rw [← Nat.shiftRight_eq_div_pow]
    exact and_mask (handler >>> 16) 16
  have hsum : handler % 2 ^ 16 % 2 ^ 16 + 2 ^ 16 * (handler / 2 ^ 16 % 2 ^ 16 % 2 ^ 16) = handler := by
    omega
  rw [IdtGate.offset, idtGate, low16, high16, hlow, hhigh]
  exact hsum

/-- Gates set one after the other, at different vectors. -/
lemma foldl_setIdtGate {ι : Type*} (vec : ι → ℕ) (hvec : Function.Injective vec) (target : ι → ℕ)
    (l : List ι) (idt : ℕ → IdtGate) :
    (∀ k ∈ l, l.foldl (fun idt k => setIdtGate (vec k) (target k) idt) idt (vec k)
      = idtGate 0x8E (target k)) ∧
    ∀ n, (∀ k ∈ l, vec k ≠ n) →
      l.foldl (fun idt k => setIdtGate (vec k) (target k) idt) idt n = idt n := by
  induction l generalizing idt with
  | nil => exact ⟨fun k hk => absurd hk List.not_mem_nil, fun _ _ => rfl⟩
  | cons k l ih =>
      obtain ⟨hmem, hother⟩ := ih (setIdtGate (vec k) (target k) idt)
      rw [List.foldl_cons]
      refine ⟨fun j hj => ?_, fun n hn => ?_⟩
      · by_cases hl : j ∈ l
        · exact hmem j hl
        · obtain rfl : j = k := (List.mem_cons.mp hj).resolve_right hl
          rw [hother _ fun i hi h => hl (by rw [← hvec h]; exact hi), setIdtGate, Function.update_self]
      · rw [hother n fun i hi => hn i (List.mem_cons_of_mem k hi), setIdtGate,
          Function.update_of_ne (hn k List.mem_cons_self).symm]

/-- **The gate of every vector**: none is present but those of the exceptions, of the device lines and of
the system call, which is the only one for user code. -/
lemma isrInstall_gate (addr : Stub → ℕ) (n : ℕ) : isrInstall addr n =
    match stubOf n with
    | some s => idtGate (if n = 128 then 0xEE else 0x8E) (addr s)
    | none => ⟨0, 0, 0, 0, 0⟩ := by
  obtain ⟨hexc, hexc'⟩ := foldl_setIdtGate (fun n : Fin 32 => n.val) Fin.val_injective
    (fun n => addr (exceptionStub n)) (List.finRange 32) fun _ => ⟨0, 0, 0, 0, 0⟩
  obtain ⟨hirq, hirq'⟩ := foldl_setIdtGate (fun i : Fin 16 => 32 + i.val)
    (fun i j h => Fin.ext (Nat.add_left_cancel h)) (fun i => addr (.irq i)) (List.finRange 16)
    ((List.finRange 32).foldl (fun idt n => setIdtGate n.val (addr (exceptionStub n)) idt)
      fun _ => ⟨0, 0, 0, 0, 0⟩)
  rw [isrInstall, setIdtGateUser]
  by_cases h128 : n = 128
  · subst h128
    rw [Function.update_self]
    rfl
  · rw [Function.update_of_ne h128, if_neg h128, stubOf]
    by_cases h32 : n < 32
    · rw [dif_pos h32, hirq' n fun i _ => by omega]
      exact hexc ⟨n, h32⟩ (List.mem_finRange _)
    · by_cases h48 : n < 48
      · have h := hirq ⟨n - 32, by omega⟩ (List.mem_finRange _)
        have hn : 32 + (n - 32) = n := by omega
        simp only [hn] at h
        rw [dif_neg h32, dif_pos h48, h]
      · rw [dif_neg h32, dif_neg h48, if_neg h128, hirq' n fun i _ => by omega]
        exact hexc' n fun i _ => by omega

end Idt

end Matanos
